import Bpftime.SyscallTrace.Registry

/-!
This module contains that a dispatched system call runs the callbacks it should.
-/

namespace Bpftime.SyscallTrace

variable {ω : Type}

def runs (log : List Event) : List (ℕ × Ctx) :=
  log.filterMap fun
    | .ran ptr ctx => some (ptr, ctx)
    | _ => none

def overrides (log : List Event) : List UInt64 :=
  log.filterMap fun
    | .overrode value => some value
    | _ => none

def executions (log : List Event) : List (Int64 × Args × Int64) :=
  log.filterMap fun
    | .executed nr args ret => some (nr, args, ret)
    | _ => none

@[simp] theorem runs_append (log logs : List Event)
    : runs (log ++ logs) = runs log ++ runs logs := by
  apply List.filterMap_append

@[simp] theorem overrides_append (log logs : List Event)
    : overrides (log ++ logs) = overrides log ++ overrides logs := by
  apply List.filterMap_append

@[simp] theorem executions_append (log logs : List Event)
    : executions (log ++ logs) = executions log ++ executions logs := by
  apply List.filterMap_append

def Traced.concerned (s : Traced ω) (isEnter : Bool) (nr : Int64) : List (Attached ω) :=
  s.attached.filter fun a => a.hasKind isEnter nr.toInt || a.hasKind isEnter (-1)

def Traced.AllRan (s : Traced ω) (isEnter : Bool) (nr : Int64) (ctx : Ctx) (log : List Event)
    : Prop :=
  (runs log).Perm ((s.concerned isEnter nr).map fun a => (a.ptr, ctx)) ∧ executions log = []

/-- The callbacks ran, and the result is that of the last override or of the call. -/
def Traced.Meets (s : Traced ω) (nr : Int64) (args : Args) (log : List Event) (result : Int64)
    : Prop :=
  ∃ enter, s.AllRan true nr (AttachImpl.enterCtx nr args) enter ∧
    match (overrides enter).getLast? with
    | some value => log = enter ∧ result = value.toInt64
    | none => ∃ ret exit, log = enter ++ .executed nr args ret :: exit
        ∧ s.AllRan false nr (AttachImpl.exitCtx nr ret) exit
        ∧ result = ((overrides exit).getLast?.map UInt64.toInt64).getD ret

structure Phase where
  overrides : List UInt64
  called : Bool

abbrev Settles (ω : Type) := Int64 → Args → ω → Option (Int64 × ω)

def Prog.settle (nested : Settles ω) : Prog ω → ω → Phase → Option (ω × Phase)
  | .done _ _ _, w, phase => some (w, phase)
  | .read k, w, phase => (k w).settle nested w phase
  | .write f k, w, phase => k.settle nested (f w) phase
  | .call helper k, w, phase =>
    if phase.called then
      none
    else
      k.settle nested w { phase with overrides := phase.overrides ++ [helper.value] }
  | .syscall nr args k, w, phase => do
    let (ret, w) ← nested nr args w
    (k ret).settle nested w
      (if nr = NR_exit_group ∨ nr = NR_exit then phase else { phase with called := true })

def settleAll (nested : Settles ω) (ctx : Ctx)
    : List (Attached ω) → ω → Phase → Option (ω × Phase)
  | [], w, phase => some (w, phase)
  | a :: rest, w, phase => do
    let (w, phase) ← (a.entry.cb ctx).settle nested w phase
    settleAll nested ctx rest w phase

namespace Traced

def inPhase (s : Traced ω) (isEnter : Bool) (nr : Int64) : List (Attached ω) :=
  s.order isEnter nr.toInt ++ s.order isEnter (-1)

def settle (s : Traced ω) (origSyscall : Int64 → Args → ω → Int64 × ω) : ℕ → Settles ω
  | 0, _, _, _ => none
  | fuel + 1, nr, args, w =>
    if nr = NR_exit_group ∨ nr = NR_exit then
      some (origSyscall nr args w)
    else if nr.toInt < 0 ∨ 512 ≤ nr.toInt then
      none
    else do
      let nested := s.settle origSyscall fuel
      let enterCtx := AttachImpl.enterCtx nr args
      let (w, phase) ← settleAll nested enterCtx (s.inPhase true nr) w ⟨[], false⟩
      match phase.overrides.getLast? with
      | some value => return (value.toInt64, w)
      | none =>
        let (ret, w) := origSyscall nr args w
        let exitCtx := AttachImpl.exitCtx nr ret
        let (w, phase) ← settleAll nested exitCtx (s.inPhase false nr) w ⟨[], false⟩
        return ((phase.overrides.getLast?.map UInt64.toInt64).getD ret, w)

end Traced

structure Phase.Holds (phase : Phase) (d : ℕ) (t : Thread ω) : Prop where
  slot : t.slot = if phase.called then none else some d
  overrided : (t.frames d).isOverrided = !phase.overrides.isEmpty
  userRet : ∀ value, phase.overrides.getLast? = some value → (t.frames d).userRet = value

structure Advanced (d : ℕ) (t t' : Thread ω) (phase phase' : Phase) (log : List Event)
    (ran : List (ℕ × Ctx)) : Prop where
  holds : phase'.Holds d t'
  frames : ∀ c < d, t'.frames c = t.frames c
  overrides : phase'.overrides = phase.overrides ++ overrides log
  runs : runs log = ran
  executions : executions log = []

def Agree (d : ℕ) (t : Thread ω) (phase : Phase) (ran : List (ℕ × Ctx))
    (code : Except Failure (Thread ω × List Event)) (spec : Option (ω × Phase)) : Prop :=
  match code with
  | .ok (t', log) =>
    ∃ phase', spec = some (t'.world, phase') ∧ Advanced d t t' phase phase' log ran
  | .error _ => spec = none

def AgreeNested (d : ℕ) (nested : Nested ω) (spec : Settles ω) : Prop :=
  ∀ nr args t,
    match nested nr args t with
    | .ok (ret, t') => spec nr args t.world = some (ret, t'.world)
        ∧ (∀ c ≤ d, t'.frames c = t.frames c)
        ∧ t'.slot = if nr = NR_exit_group ∨ nr = NR_exit then t.slot else none
    | .error _ => spec nr args t.world = none

variable {d : ℕ} {t t' : Thread ω} {phase phase' : Phase} {nr : Int64} {log : List Event}
variable {ran ran' : List (ℕ × Ctx)} {code : Except Failure (Thread ω × List Event)}

theorem Advanced.refl (h : phase.Holds d t) : Advanced d t t phase phase [] [] where
  holds := h
  frames := fun _ _ => rfl
  overrides := (List.append_nil _).symm
  runs := rfl
  executions := rfl

theorem Advanced.trans {t'' : Thread ω} {phase'' : Phase} {log' : List Event}
    (h : Advanced d t t' phase phase' log ran) (h' : Advanced d t' t'' phase' phase'' log' ran')
    : Advanced d t t'' phase phase'' (log ++ log') (ran ++ ran') where
  holds := h'.holds
  frames := fun c hc => (h'.frames c hc).trans (h.frames c hc)
  overrides := by
    rw [h'.overrides, h.overrides, overrides_append, List.append_assoc]
  runs := by rw [runs_append, h.runs, h'.runs]
  executions := by rw [executions_append, h.executions, h'.executions, List.append_nil]

theorem Agree.after {spec : Option (ω × Phase)} (hbefore : Advanced d t t' phase phase' log ran)
    (h : Agree d t' phase' ran' code spec)
    : Agree d t phase (ran ++ ran') (do let (t, logs) ← code; pure (t, log ++ logs)) spec := by
  cases code with
  | error e => exact h
  | ok r =>
    obtain ⟨phase'', hspec, hadvanced⟩ := h
    exact ⟨phase'', hspec, hbefore.trans hadvanced⟩

theorem Agree.bind {spec : Option (ω × Phase)}
    {next : Thread ω → Except Failure (Thread ω × List Event)}
    {nextSpec : ω → Phase → Option (ω × Phase)}
    (h : Agree d t phase ran code spec)
    (hnext : ∀ t' phase', phase'.Holds d t' →
      Agree d t' phase' ran' (next t') (nextSpec t'.world phase'))
    : Agree d t phase (ran ++ ran')
        (do let (t, log) ← code; let (t, logs) ← next t; pure (t, log ++ logs))
        (do let (w, phase) ← spec; nextSpec w phase) := by
  cases code with
  | error e =>
    unfold Agree at h
    rw [h]
    rfl
  | ok r =>
    obtain ⟨t', log⟩ := r
    obtain ⟨phase', rfl, hadvanced⟩ := h
    exact Agree.after hadvanced (hnext t' phase' hadvanced.holds)

theorem Advanced.call (h : phase.Holds d t) (value ctx : UInt64)
    : Advanced d t { t with frames := Function.update t.frames d ⟨true, value, ctx⟩ } phase
        { phase with overrides := phase.overrides ++ [value] } [.overrode value] [] where
  holds := by
    constructor
    . exact h.slot
    . simp [Function.update_self]
    . intro value' hlast
      rw [List.getLast?_append, List.getLast?_singleton] at hlast
      cases hlast
      simp only [Function.update_self]
  frames := by
    intro c hc
    exact Function.update_of_ne (by omega) ..
  overrides := rfl
  runs := rfl
  executions := rfl

theorem Advanced.syscall (h : phase.Holds d t) (hframes : ∀ c ≤ d, t'.frames c = t.frames c)
    (hslot : t'.slot = if nr = NR_exit_group ∨ nr = NR_exit then t.slot else none)
    : Advanced d t t' phase
        (if nr = NR_exit_group ∨ nr = NR_exit then phase else { phase with called := true })
        [] [] where
  holds := by
    have hframe := hframes d (Nat.le_refl d)
    split
    next hexit =>
      rw [if_pos hexit] at hslot
      exact ⟨hslot.trans h.slot, hframe ▸ h.overrided, hframe ▸ h.userRet⟩
    next hexit =>
      rw [if_neg hexit] at hslot
      exact ⟨hslot, hframe ▸ h.overrided, hframe ▸ h.userRet⟩
  frames := fun c hc => hframes c (by omega)
  overrides := by split <;> exact (List.append_nil _).symm
  runs := rfl
  executions := rfl

theorem bind_nil_append (code : Except Failure (Thread ω × List Event))
    : (do let (t, logs) ← code; pure (t, [] ++ logs)) = code := by
  cases code <;> rfl

theorem Prog.run_agree {nested : Nested ω} {spec : Settles ω}
    (hnested : AgreeNested d nested spec) (prog : Prog ω)
    (h : phase.Holds d t)
    : Agree d t phase [] (prog.run nested t) (prog.settle spec t.world phase) := by
  induction prog generalizing t phase with
  | done err ret ctx => exact ⟨phase, rfl, Advanced.refl h⟩
  | read k ih => exact ih t.world h
  | write f k ih =>
    have hbefore : Advanced d t { t with world := f t.world } phase phase [] [] :=
      ⟨⟨h.slot, h.overrided, h.userRet⟩, fun _ _ => rfl, (List.append_nil _).symm, rfl, rfl⟩
    have hagree := Agree.after hbefore (ih hbefore.holds)
    rw [bind_nil_append] at hagree
    exact hagree
  | call helper k ih =>
    unfold Prog.run Prog.settle
    have hslot := h.slot
    cases hcalled : phase.called with
    | true =>
      rw [hcalled] at hslot
      simp only [hslot, ↓reduceIte]
      rfl
    | false =>
      rw [hcalled] at hslot
      have hbefore := Advanced.call h helper.value helper.ctx
      have hagree := Agree.after hbefore (ih hbefore.holds)
      rw [hcalled] at hagree
      simp only [hslot, Bool.false_eq_true, ↓reduceIte] at hagree ⊢
      exact hagree
  | syscall nr args k ih =>
    unfold Prog.run Prog.settle
    have hcall := hnested nr args t
    cases hcode : nested nr args t with
    | error e =>
      rw [hcode] at hcall
      dsimp only at hcall
      rw [hcall]
      rfl
    | ok r =>
      rw [hcode] at hcall
      obtain ⟨hspec, hframes, hslot⟩ := hcall
      rw [hspec]
      have hbefore := Advanced.syscall h hframes hslot
      have hagree := Agree.after hbefore (ih r.1 hbefore.holds)
      rw [bind_nil_append] at hagree
      exact hagree

theorem holds_start (hslot : t.slot = some d) (hframe : (t.frames d).isOverrided = false)
    : Phase.Holds ⟨[], false⟩ d t where
  slot := hslot
  overrided := hframe
  userRet := by simp

theorem Phase.Holds.overrided_cases (h : phase.Holds d t)
    : (phase.overrides.getLast? = none ∧ (t.frames d).isOverrided = false)
      ∨ (phase.overrides.getLast? = some (t.frames d).userRet
          ∧ (t.frames d).isOverrided = true) := by
  cases hlast : phase.overrides.getLast? with
  | none =>
    rw [List.getLast?_eq_none_iff] at hlast
    refine Or.inl ⟨rfl, ?_⟩
    rw [h.overrided, hlast]
    rfl
  | some value =>
    refine Or.inr ⟨?_, ?_⟩
    . rw [h.userRet value hlast]
    . rw [h.overrided]
      cases hoverrides : phase.overrides with
      | nil =>
        rw [hoverrides] at hlast
        cases hlast
      | cons => rfl

theorem settleAll_append (spec : Settles ω) (ctx : Ctx) (first second : List (Attached ω)) (w : ω)
    (phase : Phase)
    : settleAll spec ctx (first ++ second) w phase
        =
      (settleAll spec ctx first w phase).bind fun r => settleAll spec ctx second r.1 r.2 := by
  induction first generalizing w phase with
  | nil => rfl
  | cons a rest ih =>
    simp only [List.cons_append, settleAll]
    cases (a.entry.cb ctx).settle spec w phase with
    | none => rfl
    | some r => apply ih

theorem perm_filter_or {α : Type} {p q : α → Bool} (hdisjoint : ∀ a, p a = true → q a = false)
    (l : List α)
    : (l.filter p ++ l.filter q).Perm (l.filter fun a => p a || q a) := by
  have hp : (fun a => p a && (p a || q a)) = p := by
    funext a
    cases p a <;> rfl
  have hq : (fun a => !p a && (p a || q a)) = q := by
    funext a
    cases hpa : p a with
    | true => simp [hdisjoint a hpa]
    | false => rfl
  have hperm := List.filter_append_perm p (l.filter fun a => p a || q a)
  rw [List.filter_filter, List.filter_filter, hp, hq] at hperm
  exact hperm

theorem Advanced.allRan {s : Traced ω} {isEnter : Bool} {ctx : Ctx}
    (h : Advanced d t t' phase phase' log ((s.inPhase isEnter nr).map fun a => (a.ptr, ctx)))
    (hnr : nr.toInt ≠ -1)
    : s.AllRan isEnter nr ctx log := by
  refine ⟨?_, h.executions⟩
  rw [h.runs]
  apply List.Perm.map
  apply ((List.perm_insertionSort ..).append (List.perm_insertionSort ..)).trans
  apply perm_filter_or
  intro a hkind
  -- an entry for one number is not one for all
  simp only [Attached.hasKind, Bool.decide_and, Bool.and_eq_true, decide_eq_true_eq] at hkind
  simp only [Attached.hasKind, Bool.decide_and, Bool.and_eq_false_iff, decide_eq_false_iff_not]
  omega

namespace AttachImpl

variable {nested : Nested ω} {spec : Settles ω} (hnested : AgreeNested d nested spec)

include hnested

theorem runCallbacks_agree {s : AttachImpl ω} (ctx : Ctx) {attached : List (Attached ω)}
    (hlive : ∀ a ∈ attached, s.heap a.ptr = some a.entry) (h : phase.Holds d t)
    : Agree d t phase (attached.map fun a => (a.ptr, ctx))
        (s.runCallbacks nested ctx (attached.map Attached.ptr) t)
        (settleAll spec ctx attached t.world phase) := by
  induction attached generalizing t phase with
  | nil => exact ⟨phase, rfl, Advanced.refl h⟩
  | cons a rest ih =>
    have hrest : ∀ t' phase', phase'.Holds d t' → Agree d t' phase' _ _ _ := fun _ _ hholds =>
      ih (fun b hb => hlive b (List.mem_cons_of_mem a hb)) hholds
    have hboth := ((a.entry.cb ctx).run_agree hnested h).bind hrest
    have hran : Advanced d t t phase phase [.ran a.ptr ctx] [(a.ptr, ctx)] :=
      ⟨h, fun _ _ => rfl, (List.append_nil _).symm, rfl, rfl⟩
    have hagree := Agree.after hran hboth
    rw [List.map_cons, List.map_cons]
    unfold runCallbacks
    rw [hlive a List.mem_cons_self]
    simp only [bind_assoc, pure_bind] at hagree
    exact hagree

theorem runPhase_agree {s : Traced ω} (hinv : s.Inv) (isEnter : Bool) (nr : Int64) (ctx : Ctx)
    (h : phase.Holds d t)
    : Agree d t phase ((s.inPhase isEnter nr).map fun a => (a.ptr, ctx))
        (s.impl.runPhase nested isEnter nr ctx t)
        (settleAll spec ctx (s.inPhase isEnter nr) t.world phase) := by
  have hlive : ∀ n, ∀ a ∈ s.order isEnter n, s.impl.heap a.ptr = some a.entry := by
    intro n a ha
    apply hinv.heap
    exact List.mem_of_mem_filter ((List.mem_insertionSort _).mp ha)
  have hset : ∀ n, s.impl.callbacks isEnter n = (s.order isEnter n).map Attached.ptr := fun n =>
    hinv.callbacks_eq isEnter n
  have hglobal : ∀ t' phase', phase'.Holds d t' → Agree d t' phase' _ _ _ := fun _ _ hholds =>
    runCallbacks_agree hnested ctx (hlive (-1)) hholds
  have hagree := (runCallbacks_agree hnested ctx (hlive nr.toInt) h).bind hglobal
  unfold runPhase Traced.inPhase
  rw [settleAll_append, List.map_append, hset, hset]
  split
  . exact hagree
  next hempty =>
    -- with both sets empty the guard skips two loops that do nothing
    rw [not_or, not_not, not_not, List.map_eq_nil_iff, List.map_eq_nil_iff] at hempty
    rw [hempty.1, hempty.2]
    exact ⟨phase, rfl, Advanced.refl h⟩

omit hnested

def Outcome (s : Traced ω) (d : ℕ) (nr : Int64) (args : Args) (t : Thread ω)
    (code : Except Failure (Int64 × Thread ω × List Event)) (spec : Option (Int64 × ω)) : Prop :=
  match code with
  | .ok (ret, t', log) => spec = some (ret, t'.world)
      ∧ (∀ c < d, t'.frames c = t.frames c)
      ∧ (t'.slot = if nr = NR_exit_group ∨ nr = NR_exit then t.slot else none)
      ∧ (¬(nr = NR_exit_group ∨ nr = NR_exit) → s.Meets nr args log ret)
  | .error _ => spec = none

theorem Outcome.meets {s : Traced ω} {args : Args}
    {code : Except Failure (Int64 × Thread ω × List Event)} {spec : Option (Int64 × ω)}
    (h : Outcome s d nr args t code spec) (hsome : spec.isSome)
    (hexit : ¬(nr = NR_exit_group ∨ nr = NR_exit))
    : ∃ ret t' log, code = .ok (ret, t', log) ∧ s.Meets nr args log ret := by
  cases code with
  | error e =>
    unfold Outcome at h
    rw [h] at hsome
    cases hsome
  | ok r => exact ⟨r.1, r.2.1, r.2.2, rfl, h.2.2.2 hexit⟩

theorem agreeNested_of_outcome {s : Traced ω} {origSyscall : Int64 → Args → ω → Int64 × ω}
    {fuel d : ℕ}
    (h : ∀ nr args t, Outcome s (d + 1) nr args t
      (s.impl.dispatchSyscall origSyscall fuel (d + 1) nr args t)
      (s.settle origSyscall fuel nr args t.world))
    : AgreeNested d
        (fun nr args t => do
          let (ret, t, _) ← s.impl.dispatchSyscall origSyscall fuel (d + 1) nr args t
          return (ret, t))
        (s.settle origSyscall fuel) := by
  intro nr args t
  have houtcome := h nr args t
  dsimp only
  cases hcode : s.impl.dispatchSyscall origSyscall fuel (d + 1) nr args t with
  | error e =>
    rw [hcode] at houtcome
    exact houtcome
  | ok r =>
    rw [hcode] at houtcome
    obtain ⟨hspec, hframes, hslot, _⟩ := houtcome
    exact ⟨hspec, fun c hc => hframes c (by omega), hslot⟩

include hnested in
theorem exitPhase_outcome {s : Traced ω} (hinv : s.Inv) {ret : Int64} {args : Args}
    (hexit : ¬(nr = NR_exit_group ∨ nr = NR_exit)) (hnr : nr.toInt ≠ -1) {enter : List Event}
    (hran : s.AllRan true nr (enterCtx nr args) enter)
    (henter : (overrides enter).getLast? = none) {t t₁ : Thread ω}
    (hframes : ∀ c < d, t₁.frames c = t.frames c)
    (hoverrided : (t₁.frames d).isOverrided = false) {world : ω}
    : Outcome s d nr args t
        (do
          let (t, exit) ← s.impl.runPhase nested false nr (exitCtx nr ret)
            { t₁ with slot := some d, world }
          let t := { t with slot := none }
          let log := enter ++ .executed nr args ret :: exit
          if (t.frames d).isOverrided then
            return ((t.frames d).userRet.toInt64, t, log)
          else
            return (ret, t, log))
        (do
          let (w, phase) ← settleAll spec (exitCtx nr ret) (s.inPhase false nr) world ⟨[], false⟩
          return ((phase.overrides.getLast?.map UInt64.toInt64).getD ret, w)) := by
  have hagree := runPhase_agree hnested hinv false nr (exitCtx nr ret)
    (holds_start (t := { t₁ with slot := some d, world }) rfl hoverrided)
  cases hcode : s.impl.runPhase nested false nr (exitCtx nr ret)
      { t₁ with slot := some d, world } with
  | error e =>
    rw [hcode] at hagree
    dsimp only [Agree] at hagree
    rw [hagree]
    rfl
  | ok r =>
    obtain ⟨t₂, exit⟩ := r
    rw [hcode] at hagree
    obtain ⟨phase, hspec, hadvanced⟩ := hagree
    have hoverrides : phase.overrides = overrides exit := hadvanced.overrides
    dsimp only at hspec
    rw [hspec]
    dsimp only [bind, Except.bind, pure, Except.pure, Option.bind]
    have hmeets : s.Meets nr args (enter ++ .executed nr args ret :: exit)
        ((phase.overrides.getLast?.map UInt64.toInt64).getD ret) := by
      refine ⟨enter, hran, ?_⟩
      rw [henter]
      exact ⟨ret, exit, rfl, hadvanced.allRan hnr, by rw [hoverrides]⟩
    have hframes' : ∀ c < d, t₂.frames c = t.frames c := fun c hc =>
      (hadvanced.frames c hc).trans (hframes c hc)
    cases hadvanced.holds.overrided_cases with
    | inl hcase | inr hcase =>
      rw [hcase.1] at hmeets ⊢
      rw [hcase.2]
      exact ⟨rfl, hframes', (if_neg hexit).symm, fun _ => hmeets⟩

theorem dispatchSyscall_outcome {s : Traced ω} (hinv : s.Inv)
    (origSyscall : Int64 → Args → ω → Int64 × ω) (fuel d : ℕ) (nr : Int64) (args : Args)
    (t : Thread ω)
    : Outcome s d nr args t (s.impl.dispatchSyscall origSyscall fuel d nr args t)
        (s.settle origSyscall fuel nr args t.world) := by
  induction fuel generalizing d nr args t with
  | zero => rfl
  | succ fuel ih =>
    have hnested := agreeNested_of_outcome (ih (d + 1))
    unfold dispatchSyscall Traced.settle
    by_cases hexit : nr = NR_exit_group ∨ nr = NR_exit
    . rw [if_pos hexit, if_pos hexit]
      exact ⟨rfl, fun _ _ => rfl, (if_pos hexit).symm, fun h => absurd hexit h⟩
    rw [if_neg hexit, if_neg hexit]
    by_cases hrange : nr.toInt < 0 ∨ 512 ≤ nr.toInt
    . rw [if_pos hrange, if_pos hrange]
      rfl
    rw [if_neg hrange, if_neg hrange]
    have hstart : Phase.Holds ⟨[], false⟩ d
        { t with frames := Function.update t.frames d ⟨false, 0, 0⟩, slot := some d } :=
      holds_start rfl (by simp only [Function.update_self])
    have henter := runPhase_agree hnested hinv true nr (enterCtx nr args) hstart
    have hnr : nr.toInt ≠ -1 := by omega
    dsimp only
    generalize (fun nr args t => do
      let (ret, t, _) ← s.impl.dispatchSyscall origSyscall fuel (d + 1) nr args t
      return (ret, t) : Nested ω) = nested at hnested henter ⊢
    generalize s.settle origSyscall fuel = spec at hnested henter ⊢
    cases hcode : s.impl.runPhase nested true nr (enterCtx nr args)
        { t with frames := Function.update t.frames d ⟨false, 0, 0⟩, slot := some d } with
    | error e =>
      rw [hcode] at henter
      dsimp only [Agree] at henter
      rw [henter]
      rfl
    | ok r =>
      obtain ⟨t₁, enter⟩ := r
      rw [hcode] at henter
      obtain ⟨phase, hspec, hadvanced⟩ := henter
      have hframes : ∀ c < d, t₁.frames c = t.frames c := by
        intro c hc
        rw [hadvanced.frames c hc]
        exact Function.update_of_ne (by omega) ..
      dsimp only at hspec
      rw [hspec]
      dsimp only [bind, Except.bind, pure, Except.pure, Option.bind]
      have hoverrides : phase.overrides = overrides enter := hadvanced.overrides
      cases hadvanced.holds.overrided_cases with
      | inr hcase =>
        obtain ⟨hlast, hoverrided⟩ := hcase
        rw [if_pos hoverrided, hlast]
        refine ⟨rfl, hframes, (if_neg hexit).symm, fun _ => ⟨enter, hadvanced.allRan hnr, ?_⟩⟩
        rw [← hoverrides, hlast]
        exact ⟨rfl, rfl⟩
      | inl hcase =>
        obtain ⟨hlast, hoverrided⟩ := hcase
        rw [hoverrided, hlast]
        dsimp only
        rw [if_neg Bool.false_ne_true]
        apply exitPhase_outcome hnested hinv hexit hnr (hadvanced.allRan hnr) _ hframes hoverrided
        rw [← hoverrides, hlast]

end AttachImpl

/-- The callback makes no system call. -/
def Prog.Silent : Prog ω → Prop
  | .done _ _ _ => True
  | .read k => ∀ w, (k w).Silent
  | .write _ k => k.Silent
  | .call _ k => k.Silent
  | .syscall _ _ _ => False

theorem Prog.settle_of_silent (nested : Settles ω) {prog : Prog ω} (hsilent : prog.Silent) (w : ω)
    (hcalled : phase.called = false)
    : ∃ w' phase', prog.settle nested w phase = some (w', phase') ∧ phase'.called = false := by
  induction prog generalizing w phase with
  | done err ret ctx => exact ⟨w, phase, rfl, hcalled⟩
  | read k ih => exact ih w (hsilent w) w hcalled
  | write f k ih => exact ih hsilent (f w) hcalled
  | call helper k ih =>
    unfold Prog.settle
    rw [hcalled, if_neg Bool.false_ne_true]
    exact ih hsilent w rfl
  | syscall nr args k ih => cases hsilent

theorem settleAll_of_silent (nested : Settles ω) (ctx : Ctx) {attached : List (Attached ω)}
    (hsilent : ∀ a ∈ attached, (a.entry.cb ctx).Silent) (w : ω)
    (hcalled : phase.called = false)
    : ∃ w' phase', settleAll nested ctx attached w phase = some (w', phase') := by
  induction attached generalizing w phase with
  | nil => exact ⟨w, phase, rfl⟩
  | cons a rest ih =>
    obtain ⟨w', phase', hsettle, hcalled'⟩ :=
      Prog.settle_of_silent nested (hsilent a List.mem_cons_self) w hcalled
    unfold settleAll
    rw [hsettle]
    exact ih (fun b hb => hsilent b (List.mem_cons_of_mem a hb)) w' hcalled'

theorem Traced.mem_of_mem_inPhase {s : Traced ω} {isEnter : Bool} {a : Attached ω}
    (ha : a ∈ s.inPhase isEnter nr)
    : a ∈ s.attached := by
  unfold Traced.inPhase Traced.order at ha
  rw [List.mem_append, List.mem_insertionSort, List.mem_insertionSort] at ha
  cases ha <;> apply List.mem_of_mem_filter <;> assumption

theorem Traced.settle_of_silent {s : Traced ω} (origSyscall : Int64 → Args → ω → Int64 × ω)
    (hsilent : ∀ a ∈ s.attached, ∀ ctx, (a.entry.cb ctx).Silent)
    (hnr : 0 ≤ nr.toInt ∧ nr.toInt < 512) (args : Args) (w : ω)
    : (s.settle origSyscall 1 nr args w).isSome := by
  have hphase : ∀ isEnter ctx w, ∃ w' phase',
      settleAll (s.settle origSyscall 0) ctx (s.inPhase isEnter nr) w ⟨[], false⟩
        = some (w', phase') := fun isEnter ctx w =>
    settleAll_of_silent _ ctx (fun a ha => hsilent a (mem_of_mem_inPhase ha) ctx) w rfl
  unfold Traced.settle
  split
  . rfl
  . rw [if_neg (by omega)]
    obtain ⟨w₁, phase, henter⟩ := hphase true (AttachImpl.enterCtx nr args) w
    dsimp only
    rw [henter]
    dsimp only [bind, Option.bind]
    split
    . rfl
    . obtain ⟨w₂, phase', hexit⟩ := hphase false
        (AttachImpl.exitCtx nr (origSyscall nr args w₁).1) (origSyscall nr args w₁).2
      rw [hexit]
      rfl

theorem dispatchSyscall_meets_iff (origSyscall : Int64 → Args → ω → Int64 × ω) {ops : List (Op ω)}
    {s : Traced ω} (hrun : Traced.run ops = some s) {nr : Int64} (hexit : nr ≠ NR_exit)
    (hgroup : nr ≠ NR_exit_group) (args : Args) (d : ℕ) (t : Thread ω)
    : (∃ fuel ret t' log, s.impl.dispatchSyscall origSyscall fuel d nr args t = .ok (ret, t', log)
          ∧ s.Meets nr args log ret)
        ↔ ∃ fuel, (s.settle origSyscall fuel nr args t.world).isSome := by
  have houtcome := fun fuel => AttachImpl.dispatchSyscall_outcome (Traced.inv_run hrun) origSyscall
    fuel d nr args t
  constructor
  . rintro ⟨fuel, ret, t', log, hcode, _⟩
    have h := houtcome fuel
    rw [hcode] at h
    exact ⟨fuel, by rw [h.1]; rfl⟩
  . rintro ⟨fuel, hsome⟩
    exact ⟨fuel, (houtcome fuel).meets hsome (by simp [hexit, hgroup])⟩

def noArgs : Args := Vector.replicate 6 0

def idleThread : Thread Unit := ⟨(), none, fun _ => ⟨false, 0, 0⟩⟩

def overrideOps : List (Op Unit) :=
  [.attach (fun ctx => .call (.setRetval 7) (.done 0 0 ctx)) (some ⟨1, true⟩) 2 16]

theorem dispatchSyscall_meets_overrideOps : ∃ s, Traced.run overrideOps = some s
        ∧ ∃ fuel ret t' log,
          s.impl.dispatchSyscall (fun _ _ w => (0, w)) fuel 0 1 noArgs idleThread
            = .ok (ret, t', log) ∧ s.Meets 1 noArgs log ret := by
  have hrun : ∃ s, Traced.run overrideOps = some s
      ∧ (s.settle (fun _ _ w => (0, w)) 1 1 noArgs ()).isSome := ⟨_, rfl, rfl⟩
  obtain ⟨s, hrun, hsettles⟩ := hrun
  refine ⟨s, hrun, ?_⟩
  apply (dispatchSyscall_meets_iff _ hrun (by decide) (by decide) noArgs 0 idleThread).mpr
  exact ⟨1, hsettles⟩

theorem dispatchSyscall_meets_of_silent (origSyscall : Int64 → Args → ω → Int64 × ω)
    {ops : List (Op ω)} {s : Traced ω} (hrun : Traced.run ops = some s)
    (hsilent : ∀ a ∈ s.attached, ∀ ctx, (a.entry.cb ctx).Silent) {nr : Int64} (hexit : nr ≠ NR_exit)
    (hgroup : nr ≠ NR_exit_group) (hnr : 0 ≤ nr.toInt ∧ nr.toInt < 512) (args : Args) (d : ℕ)
    (t : Thread ω)
    : ∃ ret t' log, s.impl.dispatchSyscall origSyscall 1 d nr args t = .ok (ret, t', log)
        ∧ s.Meets nr args log ret := by
  have h := AttachImpl.dispatchSyscall_outcome (Traced.inv_run hrun) origSyscall 1 d nr args t
  have hsome := Traced.settle_of_silent origSyscall hsilent hnr args t.world
  exact h.meets hsome (by simp [hexit, hgroup])

theorem dispatchSyscall_silent_overrideOps : ∃ s, Traced.run overrideOps = some s
        ∧ ∃ ret t' log,
          s.impl.dispatchSyscall (fun _ _ w => (0, w)) 1 0 1 noArgs idleThread
            = .ok (ret, t', log) ∧ s.Meets 1 noArgs log ret := by
  refine ⟨_, rfl, dispatchSyscall_meets_of_silent _ (rfl : Traced.run overrideOps = _) ?_
    (by decide) (by decide) (by decide) _ _ _⟩
  intro a ha ctx
  obtain rfl := List.mem_singleton.mp ha
  trivial

def lateOps : List (Op Unit) :=
  [.attach (fun ctx => .syscall 39 noArgs fun _ => .call (.setRetval 7) (.done 0 0 ctx))
    (some ⟨1, true⟩) 2 16]

theorem not_dispatchSyscall_meets_lateOps : ∃ s, Traced.run lateOps = some s
        ∧ ¬∃ fuel ret t' log,
          s.impl.dispatchSyscall (fun _ _ w => (0, w)) fuel 0 1 noArgs idleThread
            = .ok (ret, t', log) ∧ s.Meets 1 noArgs log ret := by
  refine ⟨_, rfl, ?_⟩
  rintro ⟨fuel, ret, t', log, hcode, _⟩
  cases fuel with
  | zero => cases hcode
  | succ fuel =>
    cases fuel with
    | zero | succ fuel => cases hcode

end Bpftime.SyscallTrace
