import Mathlib.Data.List.Basic

/-!
This module contains readers that go over a list with a state and put out a list for each element,
and how what they read composes.
-/

namespace Transducer

variable {σ τ α β γ : Type}

def run (step : σ → α → σ × List β) (s : σ) : List α → σ × List β
  | [] => (s, [])
  | a :: as =>
    let (s, out) := step s a
    let (s, rest) := run step s as
    (s, out ++ rest)

variable (step : σ → α → σ × List β)

@[simp]
theorem run_nil (s : σ) : run step s [] = (s, []) := rfl

theorem run_cons (s : σ) (a : α) (as : List α) : run step s (a :: as)
        =
      ((run step (step s a).1 as).1, (step s a).2 ++ (run step (step s a).1 as).2) :=
  rfl

theorem run_append (s : σ) (as bs : List α) : run step s (as ++ bs)
        =
      ((run step (run step s as).1 bs).1,
        (run step s as).2 ++ (run step (run step s as).1 bs).2) := by
  induction as generalizing s with
  | nil => rfl
  | cons a as ih =>
    rw [List.cons_append]
    rw [run_cons]
    rw [run_cons]
    rw [ih]
    rw [List.append_assoc]

theorem run_singleton (s : σ) (a : α) : run step s [a] = step s a := by
  rw [run_cons]
  simp

def comp (first : σ → α → σ × List β) (second : τ → β → τ × List γ) (s : σ × τ) (a : α)
    : (σ × τ) × List γ :=
  let (s₁, out) := first s.1 a
  let (s₂, out) := run second s.2 out
  ((s₁, s₂), out)

theorem run_comp (first : σ → α → σ × List β) (second : τ → β → τ × List γ) (s : σ × τ)
    (as : List α)
    : run (comp first second) s as
        =
      (((run first s.1 as).1, (run second s.2 (run first s.1 as).2).1),
        (run second s.2 (run first s.1 as).2).2) := by
  induction as generalizing s with
  | nil => rfl
  | cons a as ih =>
    rw [run_cons]
    rw [ih]
    rw [run_cons]
    rw [run_append]
    rfl

end Transducer
