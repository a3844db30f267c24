import Mathlib.Data.List.Basic

inductive Calls (C : Type) (R : C → Type) (α : Type) where
  | done (a : α)
  | call (c : C) (k : R c → Calls C R α)

namespace Calls

variable {C : Type} {R : C → Type} {α β : Type}

abbrev Answers (C : Type) (R : C → Type) := List C → (c : C) → R c

def run (answers : Answers C R) : List C → Calls C R α → List C × α
  | calls, done a => (calls, a)
  | calls, call c k => run answers (calls ++ [c]) (k (answers calls c))

def Once (p : Calls C R α) (c : C) (value : α → β) (f : R c → β) : Prop :=
  ∀ answers calls, (run answers calls p).1 = calls ++ [c]
    ∧ value (run answers calls p).2 = f (answers calls c)

theorem exists_run_eq_append (answers : Answers C R) (p : Calls C R α) (calls : List C)
    : ∃ more, (run answers calls p).1 = calls ++ more := by
  induction p generalizing calls with
  | done a => exact ⟨[], (List.append_nil _).symm⟩
  | call c k ih =>
    rcases ih (answers calls c) (calls ++ [c]) with ⟨more, hmore⟩
    refine ⟨c :: more, ?_⟩
    rw [run, hmore, List.append_assoc]
    rfl

variable {c c' : C} {value : α → β} {f : R c → β}

theorem once_call {a : R c → α} (h : ∀ r, value (a r) = f r)
    : Once (call c fun r => done (a r)) c value f := by
  intro answers calls
  exact ⟨rfl, h _⟩

theorem not_once_done [Nonempty (Answers C R)] (a : α) : ¬ Once (done a) c value f := by
  intro h
  rcases ‹Nonempty (Answers C R)› with ⟨answers⟩
  have hcalls := congrArg List.length (h answers []).1
  simp [run] at hcalls

theorem not_once_of_ne [Nonempty (Answers C R)] (hc : c' ≠ c) (k : R c' → Calls C R α)
    : ¬ Once (call c' k) c value f := by
  intro h
  rcases ‹Nonempty (Answers C R)› with ⟨answers⟩
  have hcalls := (h answers []).1
  rcases exists_run_eq_append answers (k (answers [] c')) [c'] with ⟨more, hmore⟩
  rw [run, List.nil_append, hmore, List.cons_append, List.nil_append] at hcalls
  exact hc (List.cons.inj hcalls).1

theorem not_once_call_call [Nonempty (Answers C R)] {d : R c' → C}
    (k : (r : R c') → R (d r) → Calls C R α)
    : ¬ Once (call c' fun r => call (d r) (k r)) c value f := by
  intro h
  rcases ‹Nonempty (Answers C R)› with ⟨answers⟩
  have hcalls := (h answers []).1
  rw [run, run] at hcalls
  rcases exists_run_eq_append answers (k _ (answers _ (d (answers [] c')))) _ with ⟨more, hmore⟩
  rw [hmore] at hcalls
  have hlength := congrArg List.length hcalls
  simp at hlength

theorem not_once_call_done {a : α} {r : R c} (answers : Answers C R) (hr : value a ≠ f r)
    [DecidableEq C]
    : ¬ Once (call c fun _ => done a) c value f := by
  intro h
  have hvalue := (h (fun calls d => if hd : d = c then hd ▸ r else answers calls d) []).2
  simp only [run, ↓reduceDIte] at hvalue
  exact hr hvalue

end Calls
