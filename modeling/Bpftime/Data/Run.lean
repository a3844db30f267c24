import Mathlib.Data.List.Basic

/-!
This module contains runs of a system that takes one operation after the other: what it means for a
condition to hold at every step of a run, and the invariant rules.
-/

namespace Run

variable {σ : Type _} {ο : Type _}

def Along (step : σ → ο → σ) (P : σ → ο → Prop) : σ → List ο → Prop
  | _, [] => True
  | s, op :: ops => P s op ∧ Along step P (step s op) ops

variable {step : σ → ο → σ} {P Q : σ → ο → Prop}

theorem along_iff_of_invariant (Inv : σ → Prop)
    (hstep : ∀ s op, Inv s → Q s op → Inv (step s op))
    (hiff : ∀ s op, Inv s → (P s op ↔ Q s op)) (ops : List ο)
    : ∀ s, Inv s → (Along step P s ops ↔ Along step Q s ops) := by
  induction ops with
  | nil =>
    intro s _
    rfl
  | cons op ops ih =>
    intro s hs
    unfold Along
    rw [hiff s op hs]
    apply and_congr_right
    intro hq
    apply ih
    apply hstep s op hs hq

theorem Along.invariant {Inv : σ → Prop} (hstep : ∀ s op, Inv s → P s op → Inv (step s op))
    {ops : List ο} {s : σ} (h : Along step P s ops) (hs : Inv s)
    : Inv (ops.foldl step s) := by
  induction ops generalizing s with
  | nil => exact hs
  | cons op ops ih => exact ih h.2 (hstep s op hs h.1)

theorem along_iff_foldl (ops : List ο)
    : ∀ s, Along step P s ops
        ↔ ∀ before op, before ++ [op] <+: ops → P (before.foldl step s) op := by
  induction ops with
  | nil => simp [Along]
  | cons op ops ih =>
    intro s
    unfold Along
    rw [ih]
    constructor
    . intro ⟨hhead, htail⟩ before op' hbefore
      cases before with
      | nil =>
        obtain rfl : op' = op := (List.cons_prefix_cons.mp hbefore).1
        exact hhead
      | cons op₁ before =>
        obtain ⟨rfl, hrest⟩ := List.cons_prefix_cons.mp hbefore
        exact htail before op' hrest
    . intro h
      refine ⟨h [] op (List.cons_prefix_cons.mpr ⟨rfl, List.nil_prefix⟩), ?_⟩
      intro before op' hbefore
      exact h (op :: before) op' (List.cons_prefix_cons.mpr ⟨rfl, hbefore⟩)

def AlongDefined (step : σ → ο → Option σ) (P : σ → ο → Prop) : σ → List ο → Prop
  | _, [] => True
  | s, op :: ops => P s op ∧ ∀ s', step s op = some s' → AlongDefined step P s' ops

theorem alongDefined_iff_of_invariant {step : σ → ο → Option σ} (Inv : σ → Prop)
    (hstep : ∀ s op s', Inv s → Q s op → step s op = some s' → Inv s')
    (hiff : ∀ s op, Inv s → (P s op ↔ Q s op)) (ops : List ο)
    : ∀ s, Inv s → (AlongDefined step P s ops ↔ AlongDefined step Q s ops) := by
  induction ops with
  | nil =>
    intro s _
    rfl
  | cons op ops ih =>
    intro s hs
    unfold AlongDefined
    rw [hiff s op hs]
    apply and_congr_right
    intro hq
    apply forall_congr'
    intro s'
    apply imp_congr_right
    intro heq
    apply ih
    apply hstep s op s' hs hq heq

theorem alongDefined_and {step : σ → ο → Option σ} (ops : List ο)
    : ∀ s, AlongDefined step (fun s op => P s op ∧ Q s op) s ops
        ↔
      AlongDefined step P s ops ∧ AlongDefined step Q s ops := by
  induction ops with
  | nil =>
    intro s
    simp only [AlongDefined, and_self]
  | cons op ops ih =>
    intro s
    simp only [AlongDefined, ih]
    constructor
    . intro ⟨⟨hp, hq⟩, hrest⟩
      exact ⟨⟨hp, fun s' hs' => (hrest s' hs').1⟩, ⟨hq, fun s' hs' => (hrest s' hs').2⟩⟩
    . intro ⟨⟨hp, hrest⟩, ⟨hq, hrest'⟩⟩
      exact ⟨⟨hp, hq⟩, fun s' hs' => ⟨hrest s' hs', hrest' s' hs'⟩⟩

theorem alongDefined_iff_of_invariant_of {step : σ → ο → Option σ} {R : σ → ο → Prop}
    (Inv : σ → Prop)
    (hstep : ∀ s op s', Inv s → R s op → Q s op → step s op = some s' → Inv s')
    (hiff : ∀ s op, Inv s → R s op → (P s op ↔ Q s op)) {ops : List ο} {s : σ} (hs : Inv s)
    (hR : AlongDefined step R s ops)
    : AlongDefined step P s ops ↔ AlongDefined step Q s ops := by
  have hiff := alongDefined_iff_of_invariant (P := fun s op => P s op ∧ R s op)
    (Q := fun s op => Q s op ∧ R s op) Inv
    (fun s op s' hs hq hs' => hstep s op s' hs hq.2 hq.1 hs')
    (fun s op hs => and_congr_left fun hr => hiff s op hs hr) ops s hs
  rw [alongDefined_and, alongDefined_and] at hiff
  constructor
  . intro hP
    exact (hiff.mp ⟨hP, hR⟩).1
  . intro hQ
    exact (hiff.mpr ⟨hQ, hR⟩).1

inductive Exec (step : σ → ο → Option σ) (C : σ → ο → Prop) : σ → List ο → σ → Prop where
  | nil (s : σ) : Exec step C s [] s
  | cons {s s' s'' : σ} {op : ο} {ops : List ο} (hC : C s op) (hstep : step s op = some s')
      (hrest : Exec step C s' ops s'') : Exec step C s (op :: ops) s''

variable {step : σ → ο → Option σ} {C : σ → ο → Prop}

theorem Exec.invariant {Inv : σ → Prop}
    (hinv : ∀ s op s', Inv s → C s op → step s op = some s' → Inv s') {s s' : σ} {ops : List ο}
    (h : Exec step C s ops s') (hs : Inv s)
    : Inv s' := by
  induction h with
  | nil s => exact hs
  | cons hC hstep _ ih =>
    apply ih
    exact hinv _ _ _ hs hC hstep

theorem Exec.append {s s' s'' : σ} {ops ops' : List ο} (h : Exec step C s ops s')
    (h' : Exec step C s' ops' s'')
    : Exec step C s (ops ++ ops') s'' := by
  induction h with
  | nil s => exact h'
  | cons hC hstep _ ih => exact .cons hC hstep (ih h')

theorem Exec.append_inv {s s'' : σ} {ops ops' : List ο} (h : Exec step C s (ops ++ ops') s'')
    : ∃ s', Exec step C s ops s' ∧ Exec step C s' ops' s'' := by
  induction ops generalizing s with
  | nil => exact ⟨s, .nil s, h⟩
  | cons op ops ih =>
    cases h with
    | cons hC hstep hrest =>
      rcases ih hrest with ⟨s', hfirst, hsecond⟩
      exact ⟨s', .cons hC hstep hfirst, hsecond⟩

theorem Exec.mono {C' : σ → ο → Prop} (hC : ∀ s op s', C s op → step s op = some s' → C' s op)
    {s s' : σ} {ops : List ο} (h : Exec step C s ops s')
    : Exec step C' s ops s' := by
  induction h with
  | nil s => exact .nil s
  | cons h hstep _ ih => exact .cons (hC _ _ _ h hstep) hstep ih

theorem exec_of_foldlM {s s' : σ} {ops : List ο} (h : ops.foldlM step s = some s')
    : Exec step (fun _ _ => True) s ops s' := by
  induction ops generalizing s with
  | nil =>
    cases h
    exact .nil _
  | cons op ops ih =>
    rw [List.foldlM_cons] at h
    rcases Option.bind_eq_some_iff.mp h with ⟨t, hstep, hrest⟩
    exact .cons trivial hstep (ih hrest)

section Simulation

variable {τ : Type _} {ι : Type _} {ω : Type _}

theorem Exec.project {step' : τ → ι → Option τ} (f : σ → τ) (g : ο → Option ι)
    (hhidden : ∀ s op s', step s op = some s' → g op = none → f s' = f s)
    (hvisible : ∀ s op s' i, step s op = some s' → g op = some i → step' (f s) i = some (f s'))
    {s s' : σ} {ops : List ο} (h : Exec step C s ops s')
    : Exec step' (fun _ _ => True) (f s) (ops.filterMap g) (f s') := by
  induction h with
  | nil s => exact .nil _
  | @cons s s₁ s₂ op ops hC hstep hrest ih =>
    cases hop : g op with
    | none =>
      rw [List.filterMap_cons_none hop, ← hhidden s op s₁ hstep hop]
      exact ih
    | some i =>
      rw [List.filterMap_cons_some hop]
      exact .cons trivial (hvisible s op s₁ i hstep hop) ih

def outputs (step : σ → ι → Option (ω × σ)) : σ → List ι → Option (List ω)
  | _, [] => some []
  | s, i :: is => do
    let (o, s) ← step s i
    let os ← outputs step s is
    return o :: os

def outputsTotal (step : τ → ι → ω × τ) : τ → List ι → List ω
  | _, [] => []
  | t, i :: is => (step t i).1 :: outputsTotal step (step t i).2 is

theorem outputs_eq_of_simulation {step : σ → ι → Option (ω × σ)} {spec : τ → ι → ω × τ}
    {R : σ → τ → Prop}
    (hstep : ∀ s t i, R s t → ∃ s', step s i = some ((spec t i).1, s') ∧ R s' (spec t i).2)
    (is : List ι)
    : ∀ s t, R s t → outputs step s is = some (outputsTotal spec t is) := by
  induction is with
  | nil =>
    intro s t _
    rfl
  | cons i is ih =>
    intro s t h
    rcases hstep s t i h with ⟨s', heq, h'⟩
    unfold outputs outputsTotal
    rw [heq]
    simp only [Option.bind_eq_bind, Option.bind_some]
    rw [ih s' _ h']
    rfl

theorem outputsTotal_eq_of_simulation {step : σ → ι → ω × σ} {spec : τ → ι → ω × τ}
    {R : σ → τ → Prop}
    (hstep : ∀ s t i, R s t → (step s i).1 = (spec t i).1 ∧ R (step s i).2 (spec t i).2)
    (is : List ι)
    : ∀ s t, R s t → outputsTotal step s is = outputsTotal spec t is := by
  induction is with
  | nil =>
    intro s t _
    rfl
  | cons i is ih =>
    intro s t h
    rcases hstep s t i h with ⟨heq, h'⟩
    unfold outputsTotal
    rw [heq]
    rw [ih _ _ h']

end Simulation

end Run
