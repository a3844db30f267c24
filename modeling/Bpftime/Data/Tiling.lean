import Mathlib.Data.List.Basic

namespace Tiling

variable {α : Type _} {start len : α → ℕ}

def Tiles (start len : α → ℕ) : ℕ → List α → ℕ → Prop
  | a, [], b => a = b
  | a, x :: xs, b => start x = a ∧ Tiles start len (a + len x) xs b

variable {xs : List α} {b p : ℕ}

theorem Tiles.bounds
    : ∀ {a}, Tiles start len a xs b → a ≤ b ∧ ∀ x ∈ xs, a ≤ start x ∧ start x + len x ≤ b := by
  induction xs with
  | nil =>
    intro a h
    exact ⟨Nat.le_of_eq h, by simp⟩
  | cons x xs ih =>
    intro a h
    rcases h with ⟨hstart, hrest⟩
    rcases ih hrest with ⟨hle, hbounds⟩
    refine ⟨by omega, ?_⟩
    intro y hy
    cases hy with
    | head => omega
    | tail _ hy =>
      have := hbounds y hy
      omega

theorem Tiles.pairwise
    : ∀ {a}, Tiles start len a xs b → xs.Pairwise fun x y => start x + len x ≤ start y := by
  induction xs with
  | nil =>
    intro a _
    exact .nil
  | cons x xs ih =>
    intro a h
    rcases h with ⟨hstart, hrest⟩
    refine .cons ?_ (ih hrest)
    intro y hy
    rw [hstart]
    exact (hrest.bounds.2 y hy).1

theorem Tiles.mem_iff : ∀ {a}, Tiles start len a xs b →
        ((∃ x ∈ xs, start x ≤ p ∧ p < start x + len x) ↔ a ≤ p ∧ p < b) := by
  induction xs with
  | nil =>
    intro a h
    have heq : a = b := h
    simp only [List.not_mem_nil, false_and, exists_false, false_iff]
    omega
  | cons x xs ih =>
    intro a h
    rcases h with ⟨hstart, hrest⟩
    have hle := hrest.bounds.1
    simp only [List.mem_cons, exists_eq_or_imp, ih hrest]
    omega

end Tiling
