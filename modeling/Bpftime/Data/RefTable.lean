import Mathlib.Logic.Function.Basic

/-!
This module contains tables whose entries refer to other entries of the same table and ask for a
kind of entry there: when all references are met, and which operations keep them met.
-/

namespace RefTable

variable {ι : Type _} {α : Type _} {κ : Type _} {kind : α → κ} {refs : α → List (ι × κ)}
variable {t : ι → Option α}

def Resolved (kind : α → κ) (t : ι → Option α) (r : ι × κ) : Prop :=
  (t r.1).map kind = some r.2

def Closed (kind : α → κ) (refs : α → List (ι × κ)) (t : ι → Option α) : Prop :=
  ∀ i a, t i = some a → ∀ r ∈ refs a, Resolved kind t r

theorem Closed.of_same {t' : ι → Option α} (h : Closed kind refs t)
    (hkind : ∀ i, (t' i).map kind = (t i).map kind)
    (hrefs : ∀ i, (t' i).map refs = (t i).map refs)
    : Closed kind refs t' := by
  intro i a' hi r hr
  have hsome : (t i).map refs = some (refs a') := by
    rw [← hrefs, hi]
    rfl
  rcases Option.map_eq_some_iff.mp hsome with ⟨a, ha, heq⟩
  unfold Resolved
  rw [hkind]
  apply h i a ha
  rw [heq]
  exact hr

theorem Closed.erase {keep : ι → Prop} [DecidablePred keep] (h : Closed kind refs t)
    (hkeep : ∀ i a, keep i → t i = some a → ∀ r ∈ refs a, keep r.1)
    : Closed kind refs (fun i => if keep i then t i else none) := by
  intro i a hi r hr
  dsimp only at hi
  split at hi
  next hk =>
    unfold Resolved
    dsimp only
    rw [if_pos (hkeep i a hk hi r hr)]
    exact h i a hi r hr
  next => simp at hi

theorem Resolved.ne_of_free {i : ι} {r : ι × κ} (h : Resolved kind t r) (hfree : t i = none)
    : r.1 ≠ i := by
  intro heq
  unfold Resolved at h
  rw [heq, hfree] at h
  simp at h

section Fill

variable [DecidableEq ι] {i : ι} {a : α}

theorem Resolved.fill {r : ι × κ} (h : Resolved kind t r) (hfree : t i = none)
    : Resolved kind (Function.update t i (some a)) r := by
  unfold Resolved
  rw [Function.update_of_ne (h.ne_of_free hfree)]
  exact h

theorem Resolved.of_fill {r : ι × κ} (h : Resolved kind (Function.update t i (some a)) r)
    (hne : r.2 ≠ kind a)
    : Resolved kind t r := by
  unfold Resolved at h
  by_cases heq : r.1 = i
  . rw [heq, Function.update_self] at h
    simp only [Option.map_some, Option.some.injEq] at h
    exact absurd h.symm hne
  . rw [Function.update_of_ne heq] at h
    exact h

theorem Closed.fill_iff (h : Closed kind refs t) (hfree : t i = none)
    (hne : ∀ r ∈ refs a, r.2 ≠ kind a)
    : Closed kind refs (Function.update t i (some a)) ↔ ∀ r ∈ refs a, Resolved kind t r := by
  constructor
  . intro h' r hr
    apply Resolved.of_fill (h' i a _ r hr) (hne r hr)
    rw [Function.update_self]
  . intro hr j b hj r hmem
    apply Resolved.fill _ hfree
    by_cases heq : j = i
    . rw [heq, Function.update_self] at hj
      cases hj
      exact hr r hmem
    . rw [Function.update_of_ne heq] at hj
      exact h j b hj r hmem

end Fill

end RefTable
