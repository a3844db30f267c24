import Mathlib.Data.List.Basic

/-!
This module contains when a table is built up again by entering its entries one after the other,
each into a place of its own.
-/

namespace Rebuild

variable {σ : Type _} {ι : Type _} {α : Type _}
variable (step : σ → ι → Option σ) (entry : σ → ι → α)

def Frame (Room : (ι → Prop) → σ → Prop) (ids : List ι) : Prop :=
  ∀ done s i s', i ∈ ids → Room done s → ¬ done i → step s i = some s' →
    Room (fun j => done j ∨ j = i) s' ∧ ∀ j, j ≠ i → entry s' j = entry s j

variable {step entry} {table : ι → α} {Room Inv : (ι → Prop) → σ → Prop}
variable {Cond : (ι → Prop) → ι → Prop} {ids : List ι}

theorem Frame.tail {i : ι} (hframe : Frame step entry Room (i :: ids))
    : Frame step entry Room ids := by
  intro done s j s' hj
  exact hframe done s j s' (List.mem_cons_of_mem _ hj)

theorem not_done_tail {i : ι} {done : ι → Prop} (hnodup : (i :: ids).Nodup)
    (hdone : ∀ j ∈ i :: ids, ¬ done j)
    : ∀ j ∈ ids, ¬ (done j ∨ j = i) := by
  intro j hj hor
  rcases hor with hor | rfl
  . exact hdone j (List.mem_cons_of_mem _ hj) hor
  . exact (List.nodup_cons.mp hnodup).1 hj

theorem Frame.entry_foldlM (hframe : Frame step entry Room ids) (hnodup : ids.Nodup) {j : ι}
    (hj : j ∉ ids)
    : ∀ {done s s'}, (∀ i ∈ ids, ¬ done i) → Room done s → ids.foldlM step s = some s' →
        entry s' j = entry s j := by
  induction ids with
  | nil =>
    intro done s s' _ _ h
    cases h
    rfl
  | cons i ids ih =>
    intro done s s' hdone hs h
    rw [List.mem_cons, not_or] at hj
    rw [List.foldlM_cons] at h
    rcases Option.bind_eq_some_iff.mp h with ⟨s₁, hstep, hrest⟩
    have hmem : i ∈ i :: ids := List.mem_cons_self
    rcases hframe done s i s₁ hmem hs (hdone i hmem) hstep with ⟨hroom, hothers⟩
    have htail := not_done_tail hnodup hdone
    rw [ih hframe.tail (List.nodup_cons.mp hnodup).2 hj.2 htail hroom hrest, hothers j hj.1]

structure Rule (step : σ → ι → Option σ) (entry : σ → ι → α) (table : ι → α)
    (Room Inv : (ι → Prop) → σ → Prop) (Cond : (ι → Prop) → ι → Prop) (ids : List ι) : Prop where
  frame : Frame step entry Room ids
  room : ∀ done s, Inv done s → Room done s
  step_iff : ∀ done s i, i ∈ ids → Inv done s → ¬ done i →
    ((∃ s', step s i = some s' ∧ entry s' i = table i) ↔ Cond done i)
  keeps : ∀ done s i s', i ∈ ids → Inv done s → ¬ done i → step s i = some s' →
    entry s' i = table i → Inv (fun j => done j ∨ j = i) s'

theorem Rule.tail {i : ι} (rule : Rule step entry table Room Inv Cond (i :: ids))
    : Rule step entry table Room Inv Cond ids where
  frame := rule.frame.tail
  room := rule.room
  step_iff := fun done s j hj => rule.step_iff done s j (List.mem_cons_of_mem _ hj)
  keeps := fun done s j s' hj => rule.keeps done s j s' (List.mem_cons_of_mem _ hj)

theorem Rule.exists_foldlM_iff (rule : Rule step entry table Room Inv Cond ids) (hnodup : ids.Nodup)
    : ∀ done s, (∀ i ∈ ids, ¬ done i) → Inv done s →
        ((∃ s', ids.foldlM step s = some s' ∧ ∀ i ∈ ids, entry s' i = table i)
          ↔
        ∀ a i b, ids = a ++ i :: b → Cond (fun j => done j ∨ j ∈ a) i) := by
  induction ids with
  | nil =>
    intro done s _ _
    simp
  | cons i ids ih =>
    intro done s hdone hs
    have hmem : i ∈ i :: ids := List.mem_cons_self
    have hi := hdone i hmem
    rcases List.nodup_cons.mp hnodup with ⟨hnot, hnodup'⟩
    have hdone' := not_done_tail hnodup hdone
    have hrest : ∀ s₁, step s i = some s₁ → entry s₁ i = table i →
        ((∃ s', ids.foldlM step s₁ = some s' ∧ ∀ i ∈ ids, entry s' i = table i)
          ↔
        ∀ a j b, ids = a ++ j :: b → Cond (fun k => done k ∨ k ∈ i :: a) j) := by
      intro s₁ hs₁ hentry
      rw [ih rule.tail hnodup' _ s₁ hdone' (rule.keeps done s i s₁ hmem hs hi hs₁ hentry)]
      simp only [List.mem_cons, or_assoc]
    have hsame : ∀ s₁ s', step s i = some s₁ → ids.foldlM step s₁ = some s' →
        entry s' i = entry s₁ i := by
      intro s₁ s' hs₁ hfold
      have hroom := (rule.frame done s i s₁ hmem (rule.room done s hs) hi hs₁).1
      exact rule.frame.tail.entry_foldlM hnodup' hnot hdone' hroom hfold
    simp only [List.foldlM_cons, Option.bind_eq_bind, Option.bind_eq_some_iff]
    constructor
    . intro ⟨s', ⟨s₁, hs₁, hfold⟩, hentries⟩
      have hentry : entry s₁ i = table i := by
        rw [← hsame s₁ s' hs₁ hfold]
        exact hentries i hmem
      have hconds := (hrest s₁ hs₁ hentry).mp
        ⟨s', hfold, fun j hj => hentries j (List.mem_cons_of_mem _ hj)⟩
      intro a j b hsplit
      cases a with
      | nil =>
        cases hsplit
        simpa using (rule.step_iff done s i hmem hs hi).mp ⟨s₁, hs₁, hentry⟩
      | cons a₀ a =>
        rw [List.cons_append] at hsplit
        cases hsplit
        exact hconds a j b rfl
    . intro hconds
      have hcond : Cond done i := by simpa using hconds [] i ids rfl
      rcases (rule.step_iff done s i hmem hs hi).mpr hcond with ⟨s₁, hs₁, hentry⟩
      have hconds' : ∀ a j b, ids = a ++ j :: b → Cond (fun k => done k ∨ k ∈ i :: a) j := by
        intro a j b hsplit
        apply hconds (i :: a) j b
        rw [hsplit]
        rfl
      rcases (hrest s₁ hs₁ hentry).mpr hconds' with ⟨s', hfold, hentries⟩
      refine ⟨s', ⟨s₁, hs₁, hfold⟩, ?_⟩
      intro j hj
      rcases List.mem_cons.mp hj with rfl | hj
      . rw [hsame s₁ s' hs₁ hfold, hentry]
      . exact hentries j hj

theorem mem_before_iff {r : ι → ι → Prop} (hasymm : ∀ i j, r i j → ¬ r j i) {a b : List ι}
    {i j : ι} (hsorted : ids.Pairwise r) (hsplit : ids = a ++ i :: b)
    : j ∈ a ↔ j ∈ ids ∧ r j i := by
  subst hsplit
  rw [List.pairwise_append, List.pairwise_cons] at hsorted
  rcases hsorted with ⟨_, ⟨hafter, _⟩, hbefore⟩
  constructor
  . intro hj
    exact ⟨List.mem_append_left _ hj, hbefore j hj i List.mem_cons_self⟩
  . intro ⟨hj, hr⟩
    rcases List.mem_append.mp hj with hj | hj
    . exact hj
    . rcases List.mem_cons.mp hj with rfl | hj
      . exact absurd hr (hasymm j j hr)
      . exact absurd hr (hasymm i j (hafter j hj))

theorem nodup_of_sorted {r : ι → ι → Prop} (hasymm : ∀ i j, r i j → ¬ r j i)
    (hsorted : ids.Pairwise r)
    : ids.Nodup := by
  apply List.Pairwise.imp _ hsorted
  intro i j hr heq
  subst heq
  exact hasymm i i hr hr

theorem Rule.exists_foldlM_sorted_iff (rule : Rule step entry table Room Inv Cond ids)
    {r : ι → ι → Prop} (hasymm : ∀ i j, r i j → ¬ r j i) (hsorted : ids.Pairwise r) {s : σ}
    (hs : Inv (fun _ => False) s)
    : (∃ s', ids.foldlM step s = some s' ∧ ∀ i ∈ ids, entry s' i = table i)
        ↔
      ∀ i ∈ ids, Cond (fun j => j ∈ ids ∧ r j i) i := by
  rw [rule.exists_foldlM_iff (nodup_of_sorted hasymm hsorted) _ s (by simp) hs]
  have hbefore : ∀ a i b, ids = a ++ i :: b →
      (fun j => False ∨ j ∈ a) = fun j => j ∈ ids ∧ r j i := by
    intro a i b hsplit
    funext j
    rw [false_or, mem_before_iff hasymm hsorted hsplit]
  constructor
  . intro hconds i hi
    rcases List.append_of_mem hi with ⟨a, b, hsplit⟩
    rw [← hbefore a i b hsplit]
    exact hconds a i b hsplit
  . intro hconds a i b hsplit
    rw [hbefore a i b hsplit]
    apply hconds
    rw [hsplit]
    simp

end Rebuild
