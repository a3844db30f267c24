import Bpftime.SyscallTrace.Dispatch

namespace Bpftime.SyscallTrace

variable {ω : Type}

def HasElement (nr : ℤ) : Prop := 0 ≤ nr ∧ nr < 512

instance (nr : ℤ) : Decidable (HasElement nr) := inferInstanceAs (Decidable (_ ∧ _))

namespace AttachImpl

def dispatchPhases (origSyscall : Int64 → Args → ω → Int64 × ω)
    (phase : Bool → Ctx → Thread ω → Except Failure (Thread ω × List Event)) (d : ℕ) (nr : Int64)
    (args : Args) (t : Thread ω) : Except Failure (Int64 × Thread ω × List Event) := do
  let t := { t with frames := Function.update t.frames d ⟨false, 0, 0⟩, slot := some d }
  let (t, enter) ← phase true (enterCtx nr args) t
  let t := { t with slot := none }
  if (t.frames d).isOverrided then
    return ((t.frames d).userRet.toInt64, t, enter)
  else
    let t := { t with slot := some d }
    let (ret, world) := origSyscall nr args t.world
    let t := { t with world }
    let (t, exit) ← phase false (exitCtx nr ret) t
    let t := { t with slot := none }
    let log := enter ++ .executed nr args ret :: exit
    if (t.frames d).isOverrided then
      return ((t.frames d).userRet.toInt64, t, log)
    else
      return (ret, t, log)

def executeOnly (origSyscall : Int64 → Args → ω → Int64 × ω) (nr : Int64) (args : Args)
    (t : Thread ω) : Int64 × Thread ω × List Event :=
  let (ret, world) := origSyscall nr args t.world
  (ret, { t with world }, [.executed nr args ret])

def dispatchOnce (s : AttachImpl ω) (origSyscall : Int64 → Args → ω → Int64 × ω)
    (nested : Nested ω) (d : ℕ) (nr : Int64) (args : Args) (t : Thread ω)
    : Except Failure (Int64 × Thread ω × List Event) :=
  if nr = NR_exit_group ∨ nr = NR_exit then
    .ok (executeOnly origSyscall nr args t)
  else if nr.toInt < 0 ∨ 512 ≤ nr.toInt then
    .error .undefined
  else
    dispatchPhases origSyscall (fun isEnter => s.runPhase nested isEnter nr) d nr args t

theorem dispatchSyscall_succ (s : AttachImpl ω) (origSyscall : Int64 → Args → ω → Int64 × ω)
    (fuel d : ℕ) (nr : Int64) (args : Args) (t : Thread ω)
    : s.dispatchSyscall origSyscall (fuel + 1) d nr args t
        =
      s.dispatchOnce origSyscall
        (fun nr args t => do
          let (ret, t, _) ← s.dispatchSyscall origSyscall fuel (d + 1) nr args t
          return (ret, t))
        d nr args t := rfl

def ownCallbacks (s : AttachImpl ω) (isEnter : Bool) (nr : ℤ) : List ℕ :=
  if HasElement nr then s.callbacks isEnter nr else []

def dispatchAny (s : AttachImpl ω) (origSyscall : Int64 → Args → ω → Int64 × ω)
    (nested : Nested ω) (d : ℕ) (nr : Int64) (args : Args) (t : Thread ω)
    : Except Failure (Int64 × Thread ω × List Event) :=
  if nr = NR_exit_group ∨ nr = NR_exit then
    .ok (executeOnly origSyscall nr args t)
  else
    dispatchPhases origSyscall
      (fun isEnter ctx t => do
        let (t, log) ← s.runCallbacks nested ctx (s.ownCallbacks isEnter nr.toInt) t
        let (t, logs) ← s.runCallbacks nested ctx (s.callbacks isEnter (-1)) t
        return (t, log ++ logs))
      d nr args t

end AttachImpl

inductive Access where
  | element (isEnter : Bool) (index : ℤ)
  | entry (ptr : ℕ)
  deriving DecidableEq, Repr

namespace AttachImpl

def detachAccesses (s : AttachImpl ω) (id : ℤ) : List Access :=
  match s.attachEntries id with
  | none => []
  | some ptr =>
    .entry ptr ::
      match s.heap ptr with
      | none => []
      | some entry =>
        if entry.sysNr = -1 then [] else [.element entry.isEnter entry.sysNr.toInt]

def Exists (s : AttachImpl ω) : Access → Prop
  | .element _ index => HasElement index
  | .entry ptr => (s.heap ptr).isSome

end AttachImpl

def Defined (N : Int64 → Prop) (nested : Nested ω) : Prop :=
  ∀ nr args t, N nr → nested nr args t ≠ .error .undefined

def Prog.Issues (N : Int64 → Prop) : Prog ω → Prop
  | .done _ _ _ => True
  | .read k => ∀ w, (k w).Issues N
  | .write _ k => k.Issues N
  | .call _ k => k.Issues N
  | .syscall nr _ k => N nr ∧ ∀ ret, (k ret).Issues N

/-- Neither a dispatch of `nr` nor a detach goes outside the arrays. -/
structure Safe (s : AttachImpl ω) (origSyscall : Int64 → Args → ω → Int64 × ω) (d : ℕ) (nr : Int64)
    (args : Args) (t : Thread ω) : Prop where
  defined : ∀ nested, Defined (fun _ => True) nested →
    s.dispatchOnce origSyscall nested d nr args t ≠ .error .undefined
  dispatched : ∀ nested, Defined (fun _ => True) nested →
    s.dispatchOnce origSyscall nested d nr args t = s.dispatchAny origSyscall nested d nr args t
  detached : ∀ id, ∀ a ∈ s.detachAccesses id, s.Exists a

section Defined

variable {N : Int64 → Prop} {nested : Nested ω}

theorem bind_ne_undefined {α β : Type} {x : Except Failure α} {f : α → Except Failure β}
    (hx : x ≠ .error .undefined) (hf : ∀ a, f a ≠ .error .undefined)
    : x >>= f ≠ .error .undefined := by
  cases x with
  | error e =>
    intro h
    cases h
    exact hx rfl
  | ok a => exact hf a

theorem Prog.run_defined (hnested : Defined N nested) {prog : Prog ω} (hprog : prog.Issues N)
    (t : Thread ω)
    : prog.run nested t ≠ .error .undefined := by
  induction prog generalizing t with
  | done err ret ctx => simp [Prog.run]
  | read k ih => exact ih t.world (hprog t.world) t
  | write f k ih => exact ih hprog _
  | call helper k ih =>
    unfold Prog.run
    split
    . simp
    . apply bind_ne_undefined (ih hprog _)
      simp [pure, Except.pure]
  | syscall nr args k ih =>
    apply bind_ne_undefined (hnested nr args t hprog.1)
    intro r
    exact ih r.1 (hprog.2 r.1) r.2

theorem Prog.issues_true (prog : Prog ω) : prog.Issues fun _ => True := by
  induction prog with
  | done err ret ctx => trivial
  | read k ih | write f k ih | call helper k ih => exact ih
  | syscall nr args k ih => exact ⟨trivial, ih⟩

namespace AttachImpl

variable {s : AttachImpl ω}

theorem runCallbacks_defined (hnested : Defined N nested) (ctx : Ctx) {ptrs : List ℕ}
    (hlive : ∀ p ∈ ptrs, ∃ entry, s.heap p = some entry ∧ (entry.cb ctx).Issues N) (t : Thread ω)
    : s.runCallbacks nested ctx ptrs t ≠ .error .undefined := by
  induction ptrs generalizing t with
  | nil => simp [runCallbacks]
  | cons p ps ih =>
    obtain ⟨entry, hentry, hissues⟩ := hlive p List.mem_cons_self
    unfold runCallbacks
    rw [hentry]
    apply bind_ne_undefined (Prog.run_defined hnested hissues t)
    intro r
    apply bind_ne_undefined (ih (fun q hq => hlive q (List.mem_cons_of_mem p hq)) r.1)
    simp [pure, Except.pure]

theorem dispatchPhases_defined {origSyscall : Int64 → Args → ω → Int64 × ω}
    {phase : Bool → Ctx → Thread ω → Except Failure (Thread ω × List Event)}
    (hphase : ∀ isEnter ctx t, phase isEnter ctx t ≠ .error .undefined) (d : ℕ) (nr : Int64)
    (args : Args) (t : Thread ω)
    : dispatchPhases origSyscall phase d nr args t ≠ .error .undefined := by
  apply bind_ne_undefined (hphase _ _ _)
  intro r
  dsimp only
  split
  . simp [pure, Except.pure]
  . apply bind_ne_undefined (hphase _ _ _)
    intro r'
    split <;> simp [pure, Except.pure]

end AttachImpl

end Defined

namespace Traced

variable {s : Traced ω}

theorem Inv.live (h : s.Inv) {N : Int64 → Prop} {ctx : Ctx}
    (hissues : ∀ a ∈ s.attached, (a.entry.cb ctx).Issues N) {isEnter : Bool} {nr : ℤ} {p : ℕ}
    (hp : p ∈ s.impl.callbacks isEnter nr)
    : ∃ entry, s.impl.heap p = some entry ∧ (entry.cb ctx).Issues N := by
  rw [(h.perm isEnter nr).mem_iff, List.mem_map] at hp
  obtain ⟨a, ha, rfl⟩ := hp
  have ha := List.mem_of_mem_filter ha
  exact ⟨a.entry, h.heap a ha, hissues a ha⟩

theorem Inv.runPhase_defined (h : s.Inv) {N : Int64 → Prop} {nested : Nested ω}
    (hnested : Defined N nested)
    (hissues : ∀ a ∈ s.attached, ∀ ctx, (a.entry.cb ctx).Issues N) (isEnter : Bool) (nr : Int64)
    (ctx : Ctx) (t : Thread ω)
    : s.impl.runPhase nested isEnter nr ctx t ≠ .error .undefined := by
  have hrun : ∀ n t, s.impl.runCallbacks nested ctx (s.impl.callbacks isEnter n) t
      ≠ .error .undefined := by
    intro n t
    apply AttachImpl.runCallbacks_defined hnested
    intro p hp
    exact h.live (fun a ha => hissues a ha ctx) hp
  unfold AttachImpl.runPhase
  split
  . apply bind_ne_undefined (hrun _ t)
    intro r
    apply bind_ne_undefined (hrun _ r.1)
    simp [pure, Except.pure]
  . simp

theorem Inv.dispatchOnce_defined (h : s.Inv) {N : Int64 → Prop} {nested : Nested ω}
    (hnested : Defined N nested)
    (hissues : ∀ a ∈ s.attached, ∀ ctx, (a.entry.cb ctx).Issues N)
    (origSyscall : Int64 → Args → ω → Int64 × ω) (d : ℕ) {nr : Int64} (hnr : HasElement nr.toInt)
    (args : Args) (t : Thread ω)
    : s.impl.dispatchOnce origSyscall nested d nr args t ≠ .error .undefined := by
  unfold HasElement at hnr
  unfold AttachImpl.dispatchOnce
  split
  . simp
  . rw [if_neg (by omega)]
    apply AttachImpl.dispatchPhases_defined
    intro isEnter ctx t
    exact h.runPhase_defined hnested hissues isEnter nr ctx t

theorem dispatchSyscall_defined {ops : List (Op ω)} (hrun : run ops = some s)
    (hissues : ∀ a ∈ s.attached, ∀ ctx, (a.entry.cb ctx).Issues fun nr => HasElement nr.toInt)
    (origSyscall : Int64 → Args → ω → Int64 × ω) (fuel d : ℕ) {nr : Int64}
    (hnr : HasElement nr.toInt) (args : Args) (t : Thread ω)
    : s.impl.dispatchSyscall origSyscall fuel d nr args t ≠ .error .undefined := by
  induction fuel generalizing d nr args t with
  | zero => simp [AttachImpl.dispatchSyscall]
  | succ fuel ih =>
    rw [AttachImpl.dispatchSyscall_succ]
    apply (inv_run hrun).dispatchOnce_defined _ hissues origSyscall d hnr
    intro nr args t hnr
    apply bind_ne_undefined (ih (d + 1) hnr args t)
    simp [pure, Except.pure]

theorem dispatchSyscall_defined_lateOps : ∃ s, run lateOps = some s
        ∧ ∀ fuel, s.impl.dispatchSyscall (fun _ _ w => (0, w)) fuel 0 1 noArgs idleThread
            ≠ .error .undefined := by
  refine ⟨_, rfl, fun fuel => ?_⟩
  apply dispatchSyscall_defined (rfl : run lateOps = _) _ _ fuel 0 (by decide)
  intro a ha ctx
  obtain rfl := List.mem_singleton.mp ha
  exact ⟨by decide, fun _ => trivial⟩

theorem hasElement_of_checked {sysNr : Int32} (h : ¬(sysNr ≥ 512 ∨ sysNr < -1))
    : sysNr = -1 ∨ HasElement sysNr.toInt := by
  rw [not_or, ge_iff_le, Int32.not_le, Int32.not_lt, Int32.lt_iff_toInt_lt,
    Int32.le_iff_toInt_le] at h
  have h512 : (512 : Int32).toInt = 512 := by decide
  have hone : (-1 : Int32).toInt = -1 := by decide
  rw [h512, hone] at h
  rw [← Int32.toInt_inj, hone]
  unfold HasElement
  omega

def Checked (s : Traced ω) : Prop :=
  ∀ a ∈ s.attached, a.entry.sysNr = -1 ∨ HasElement a.entry.sysNr.toInt

theorem Checked.step (h : s.Checked) {s' : Traced ω} {op : Op ω} (hstep : s.step op = some s')
    : s'.Checked := by
  obtain ⟨⟨reply, impl⟩, himpl, hs'⟩ := Option.bind_eq_some_iff.mp hstep
  cases hs'
  cases op with
  | detach id =>
    intro a ha
    simp only [observe] at ha
    split at ha
    . exact h a (List.mem_of_mem_filter ha)
    . exact h a ha
  | attach cb privateData attachType ptr =>
    cases privateData with
    | none => exact h
    | some priv =>
      intro a ha
      simp only [observe] at ha
      split at ha
      next hreply =>
        rw [List.mem_append, List.mem_singleton] at ha
        cases ha with
        | inl ha => exact h a ha
        | inr ha =>
          subst ha
          unfold AttachImpl.step at himpl
          cases AttachImpl.createAttach_cases himpl with
          | inl hrefused => omega
          | inr htaken =>
            obtain ⟨priv', hpriv, _, _, hnumber, _⟩ := htaken
            cases hpriv
            exact hasElement_of_checked hnumber
      . exact h a ha

theorem checked_run {ops : List (Op ω)} (h : run ops = some s) : s.Checked := by
  have hstart : (start : Traced ω).Checked := by simp [Checked, start]
  refine Run.Exec.invariant ?_ (Run.exec_of_foldlM h) hstart
  intro s op s' hchecked _ hstep
  exact hchecked.step hstep

theorem Inv.exists_of_mem_detachAccesses (h : s.Inv) (hchecked : s.Checked) {id : ℤ} {a : Access}
    (ha : a ∈ s.impl.detachAccesses id)
    : s.impl.Exists a := by
  unfold AttachImpl.detachAccesses at ha
  split at ha
  . cases ha
  next ptr hptr =>
    obtain ⟨b, hb, _, rfl⟩ := h.registered.entries id ptr hptr
    rw [h.heap b hb] at ha
    cases ha with
    | head =>
      change (s.impl.heap b.ptr).isSome
      rw [h.heap b hb]
      rfl
    | tail _ ha =>
      dsimp only at ha
      split at ha
      . cases ha
      next hone =>
        obtain rfl := List.mem_singleton.mp ha
        exact (hchecked b hb).resolve_left hone

end Traced

namespace AttachImpl

variable {s : AttachImpl ω}

theorem runPhase_eq (nested : Nested ω) (isEnter : Bool) (nr : Int64) (ctx : Ctx) (t : Thread ω)
    : s.runPhase nested isEnter nr ctx t
        =
      (do
        let (t, log) ← s.runCallbacks nested ctx (s.callbacks isEnter nr.toInt) t
        let (t, logs) ← s.runCallbacks nested ctx (s.callbacks isEnter (-1)) t
        return (t, log ++ logs)) := by
  unfold runPhase
  split
  . rfl
  next hempty =>
    rw [not_or, not_not, not_not] at hempty
    rw [hempty.1, hempty.2]
    rfl

theorem dispatchOnce_eq (origSyscall : Int64 → Args → ω → Int64 × ω) (nested : Nested ω) (d : ℕ)
    {nr : Int64} (hnr : HasElement nr.toInt) (args : Args) (t : Thread ω)
    : s.dispatchOnce origSyscall nested d nr args t
        = s.dispatchAny origSyscall nested d nr args t := by
  have hrange : ¬(nr.toInt < 0 ∨ 512 ≤ nr.toInt) := by
    unfold HasElement at hnr
    omega
  have hphase : (fun isEnter => s.runPhase nested isEnter nr) = fun isEnter ctx t => do
      let (t, log) ← s.runCallbacks nested ctx (s.ownCallbacks isEnter nr.toInt) t
      let (t, logs) ← s.runCallbacks nested ctx (s.callbacks isEnter (-1)) t
      return (t, log ++ logs) := by
    funext isEnter ctx t
    rw [runPhase_eq]
    unfold ownCallbacks
    rw [if_pos hnr]
  unfold dispatchOnce dispatchAny
  rw [if_neg hrange, hphase]

theorem dispatchOnce_of_not_hasElement (origSyscall : Int64 → Args → ω → Int64 × ω)
    (nested : Nested ω) (d : ℕ) {nr : Int64} (hnr : ¬ HasElement nr.toInt) (args : Args)
    (t : Thread ω)
    : s.dispatchOnce origSyscall nested d nr args t = .error .undefined := by
  have hexit : ¬(nr = NR_exit_group ∨ nr = NR_exit) := by
    rintro (rfl | rfl) <;> exact hnr (by decide)
  unfold dispatchOnce
  rw [if_neg hexit, if_pos]
  unfold HasElement at hnr
  omega

end AttachImpl

theorem safe_iff_hasElement {ops : List (Op ω)} {s : Traced ω} (hrun : Traced.run ops = some s)
    (origSyscall : Int64 → Args → ω → Int64 × ω) (d : ℕ) (nr : Int64) (args : Args) (t : Thread ω)
    : Safe s.impl origSyscall d nr args t ↔ HasElement nr.toInt := by
  have hinv := Traced.inv_run hrun
  constructor
  . intro hsafe
    by_contra hnr
    apply hsafe.defined (fun _ _ t => .ok (0, t)) (by simp [Defined])
    exact AttachImpl.dispatchOnce_of_not_hasElement origSyscall _ d hnr args t
  . intro hnr
    refine ⟨?_, ?_, ?_⟩
    . intro nested hnested
      apply hinv.dispatchOnce_defined hnested _ origSyscall d hnr
      intro a _ ctx
      exact Prog.issues_true _
    . intro nested _
      exact AttachImpl.dispatchOnce_eq origSyscall nested d hnr args t
    . intro id a ha
      exact hinv.exists_of_mem_detachAccesses (Traced.checked_run hrun) ha

theorem safe_overrideOps : ∃ s, Traced.run overrideOps = some s
        ∧ Safe s.impl (fun _ _ w => (0, w)) 0 1 noArgs idleThread := by
  obtain ⟨s, hrun⟩ : ∃ s, Traced.run overrideOps = some s := ⟨_, rfl⟩
  exact ⟨s, hrun, (safe_iff_hasElement hrun _ 0 1 noArgs idleThread).mpr (by decide)⟩

theorem not_safe_beyondArrays : ∃ s, Traced.run overrideOps = some s
        ∧ ¬ Safe s.impl (fun _ _ w => (0, w)) 0 512 noArgs idleThread := by
  refine ⟨_, rfl, ?_⟩
  intro hsafe
  apply hsafe.defined (fun _ _ t => .ok (0, t)) (by simp [Defined])
  rfl

end Bpftime.SyscallTrace
