import Bpftime.Data.Run
import Bpftime.Shm.Lemmas

namespace Bpftime.Shm

namespace BpftimeShm

variable {env : Env} {s s' : BpftimeShm} {fd : Int32} {handler : Handler}

/-- Every link refers to a program and to a perf event. -/
def LinksResolved (s : BpftimeShm) : Prop :=
  ∀ fd h, s.slot? fd = some (.link h) →
    s.isProgFd h.progId = true ∧ s.isPerfFd h.attachTargetId = true

def entry (s : BpftimeShm) (fd : Int32) : Option Handler :=
  (s.slot? fd).filter fun h => h.kind != .unused

theorem entry_eq_some_iff
    : s.entry fd = some handler ↔ s.slot? fd = some handler ∧ handler.kind ≠ .unused := by
  unfold entry
  rw [Option.filter_eq_some_iff]
  simp

theorem entry_of_unused (h : s.slot? fd = some .unused) : s.entry fd = none := by
  unfold entry
  rw [h]
  rfl

theorem resolved_entry_iff {kind : Kind} (hkind : kind ≠ .unused)
    : RefTable.Resolved Handler.kind s.entry (fd, kind) ↔ s.holds kind fd = true := by
  unfold RefTable.Resolved holds
  rw [beq_iff_eq]
  simp only [Option.map_eq_some_iff]
  constructor
  . intro ⟨h, hentry, heq⟩
    exact ⟨h, (entry_eq_some_iff.mp hentry).1, heq⟩
  . intro ⟨h, hslot, heq⟩
    refine ⟨h, entry_eq_some_iff.mpr ⟨hslot, ?_⟩, heq⟩
    rw [heq]
    exact hkind

theorem refs_link_resolved_iff {l : BpfLinkHandler}
    : (∀ r ∈ (Handler.link l).refs, RefTable.Resolved Handler.kind s.entry r)
        ↔
      s.isProgFd l.progId = true ∧ s.isPerfFd l.attachTargetId = true := by
  simp only [Handler.refs, List.mem_cons, List.not_mem_nil, or_false, forall_eq_or_imp, forall_eq]
  rw [resolved_entry_iff (by simp), resolved_entry_iff (by simp)]
  rfl

theorem linksResolved_iff_closed
    : s.LinksResolved ↔ RefTable.Closed Handler.kind Handler.refs s.entry := by
  constructor
  . intro h fd handler hentry
    cases handler with
    | link l =>
      apply refs_link_resolved_iff.mpr
      exact h fd l (entry_eq_some_iff.mp hentry).1
    | _ => simp [Handler.refs]
  . intro h fd l hslot
    apply refs_link_resolved_iff.mp
    apply h fd
    exact entry_eq_some_iff.mpr ⟨hslot, by simp [Handler.kind]⟩

theorem linksResolved_construct (n : Nat) : (construct n).LinksResolved := by
  intro fd h hslot
  unfold slot? construct at hslot
  split at hslot
  next => simp at hslot
  next =>
    rw [List.getElem?_replicate] at hslot
    split at hslot <;> simp at hslot

theorem LinksResolved.of_slot? (h : s.LinksResolved) (heq : s'.slot? = s.slot?)
    : s'.LinksResolved := by
  intro fd l hslot
  rw [heq] at hslot
  unfold isProgFd isPerfFd holds
  rw [heq]
  exact h fd l hslot

theorem entry_setSlot (h : s.slot? fd = some .unused) (hkind : handler.kind ≠ .unused)
    : (s.setSlot fd handler).entry = Function.update s.entry fd (some handler) := by
  funext fd'
  unfold entry
  rw [slot?_setSlot h]
  by_cases heq : fd' = fd
  . rw [if_pos heq, heq, Function.update_self]
    simp [hkind]
  . rw [if_neg heq, Function.update_of_ne heq]

theorem LinksResolved.setSlot_iff (h : s.LinksResolved) (hfree : s.slot? fd = some .unused)
    (hkind : handler.kind ≠ .unused)
    : (s.setSlot fd handler).LinksResolved
        ↔
      ∀ r ∈ handler.refs, RefTable.Resolved Handler.kind s.entry r := by
  rw [linksResolved_iff_closed, entry_setSlot hfree hkind]
  apply RefTable.Closed.fill_iff (linksResolved_iff_closed.mp h) (entry_of_unused hfree)
  exact handler.refs_ne_kind

theorem LinksResolved.setHandler {o : Outcome} (h : s.LinksResolved)
    (hrefs : s.slot? fd = some .unused →
      ∀ r ∈ handler.refs, RefTable.Resolved Handler.kind s.entry r)
    (hset : s.setHandler env fd handler = some (o, s'))
    : s'.LinksResolved := by
  rcases setHandler_cases hset with rfl | ⟨hfree, hkind, heq⟩
  . exact h
  . apply LinksResolved.of_slot? _ (slot?_congr heq)
    apply (h.setSlot_iff hfree hkind).mpr
    exact hrefs hfree

def kept (s : BpftimeShm) (p : BpfLinkHandler → Bool) (fd fd' : Int32) : Prop :=
  fd' ≠ fd ∧ ∀ h, s.slot? fd' = some (.link h) → p h = false

noncomputable instance (p : BpfLinkHandler → Bool) : DecidablePred (s.kept p fd) :=
  Classical.decPred _

theorem entry_unlinked {p : BpfLinkHandler → Bool} (hslots : ∀ fd', s'.slot? fd'
      = if fd' = fd then some .unused else (s.slot? fd').map (unlinked p))
    : s'.entry = fun fd' => if s.kept p fd fd' then s.entry fd' else none := by
  funext fd'
  unfold entry
  rw [hslots]
  by_cases heq : fd' = fd
  . rw [if_pos heq, if_neg]
    . rfl
    . intro hkept
      exact hkept.1 heq
  . rw [if_neg heq]
    cases hfd' : s.slot? fd' with
    | none => simp
    | some h' =>
      cases h' with
      | link l =>
        by_cases hp : p l = true
        . rw [if_neg]
          . simp [unlinked, hp, Handler.kind]
          . intro hkept
            rw [hkept.2 l hfd'] at hp
            simp at hp
        . rw [if_pos]
          . simp [unlinked, hp]
          . refine ⟨heq, ?_⟩
            intro h hh
            rw [hfd'] at hh
            cases hh
            simpa using hp
      | _ =>
        rw [if_pos]
        . rfl
        . refine ⟨heq, ?_⟩
          intro h hh
          rw [hfd'] at hh
          cases hh

theorem kept_of_ref {p : BpfLinkHandler → Bool} (h : s.LinksResolved)
    (hfd : s.slot? fd = some handler)
    (hp : ∀ l, (fd, handler.kind) ∈ (Handler.link l).refs → p l = true) {fd' : Int32} {a : Handler}
    (hkept : s.kept p fd fd') (hentry : s.entry fd' = some a) (r : Int32 × Kind) (hr : r ∈ a.refs)
    : s.kept p fd r.1 := by
  rcases Option.map_eq_some_iff.mp (linksResolved_iff_closed.mp h fd' a hentry r hr)
    with ⟨b, hb, hkind⟩
  have hslot := (entry_eq_some_iff.mp hb).1
  cases a with
  | link l =>
    constructor
    . intro heq
      rw [heq, hfd] at hslot
      cases hslot
      have hl : p l = true := by
        apply hp
        rw [hkind, ← heq]
        exact hr
      rw [hkept.2 l (entry_eq_some_iff.mp hentry).1] at hl
      simp at hl
    . intro l' hl'
      rw [hslot] at hl'
      cases hl'
      simp only [Handler.refs, List.mem_cons, List.not_mem_nil, or_false] at hr
      rcases hr with rfl | rfl <;> simp [Handler.kind] at hkind
  | _ => simp [Handler.refs] at hr

theorem LinksResolved.clearIdAt (h : s.LinksResolved) (hclear : s.clearIdAt env fd = some s')
    : s'.LinksResolved := by
  cases hfd : s.slot? fd with
  | none =>
    rw [clearIdAt_of_outside hfd] at hclear
    cases hclear
    exact h
  | some handler =>
    rw [linksResolved_iff_closed, entry_unlinked (slot?_clearIdAt hfd hclear)]
    apply RefTable.Closed.erase (linksResolved_iff_closed.mp h)
    intro fd' a hkept hentry r hr
    exact kept_of_ref h hfd (fun _ => refersTo_of_mem_refs) hkept hentry r hr

theorem LinksResolved.replaceByMap {m : BpfMapHandler} {o : Outcome} (h : s.LinksResolved)
    (hreplace : s.replaceByMap env fd m = some (o, s'))
    : s'.LinksResolved := by
  rcases replaceByMap_steps hreplace with ⟨t, hclear, hset⟩
  apply (h.clearIdAt hclear).setHandler _ hset
  simp [Handler.refs]

theorem LinksResolved.setEnabled {enabled : Bool} (h : s.LinksResolved)
    : (s.setEnabled fd enabled).LinksResolved := by
  unfold BpftimeShm.setEnabled
  split
  next e hslot =>
    rw [linksResolved_iff_closed]
    apply RefTable.Closed.of_same (linksResolved_iff_closed.mp h)
    all_goals
      intro fd'
      unfold entry
      rw [slot?_setSlot hslot]
      split
      next heq =>
        rw [heq, hslot]
        rfl
      next => rfl
  next => exact h

/-- Links are added to perf events only. -/
def TargetIsPerf (s : BpftimeShm) : Op → Prop
  | .addBpfLink fake fd args =>
    s.isProgFd args.progFd.toInt32 = true → s.slot? (orFake fd fake) = some .unused →
      s.isPerfFd args.targetFd.toInt32 = true
  | _ => True

theorem LinksResolved.call {op : Op} {o : Outcome} (h : s.LinksResolved)
    (htarget : s.TargetIsPerf op) (hcall : s.call env op = some (o, s'))
    : s'.LinksResolved := by
  cases call_effect hcall with
  | same => exact h
  | put hrefs _ hset =>
    -- the handlers other than links refer to nothing
    apply h.setHandler _ hset
    rw [hrefs]
    simp
  | attach hprog hperf hset =>
    apply h.setHandler _ hset
    intro _
    exact refs_link_resolved_iff.mpr ⟨hprog, hperf⟩
  | link hprog hset =>
    apply h.setHandler _ hset
    intro hfree
    exact refs_link_resolved_iff.mpr ⟨hprog, htarget hprog hfree⟩
  | enable => exact h.setEnabled
  | clear _ hclear => exact h.clearIdAt hclear
  | replace _ hreplace => exact h.replaceByMap hreplace

theorem LinksResolved.step {op : Op} (h : s.LinksResolved) (htarget : s.TargetIsPerf op)
    (hstep : s.step env op = some s')
    : s'.LinksResolved := by
  rcases Option.map_eq_some_iff.mp hstep with ⟨⟨o, s₁⟩, hcall, rfl⟩
  exact h.call htarget hcall

theorem LinksResolved.targetIsPerf {op : Op} (h : s.LinksResolved)
    (hstep : ∀ s', s.step env op = some s' → s'.LinksResolved)
    : s.TargetIsPerf op := by
  cases op with
  | addBpfLink fake fd args =>
    intro hprog hfree
    have hset : s.step env (.addBpfLink fake fd args)
        = some (s.setSlot (orFake fd fake) (.link (.ofArgs args))) := by
      unfold BpftimeShm.step BpftimeShm.call BpftimeShm.addBpfLink
      dsimp only
      rw [if_pos hprog, setHandler_of_free hfree (by simp [Handler.kind]) (by simp [Handler.kind])]
      rfl
    have hrefs := (h.setSlot_iff hfree (by simp [Handler.kind])).mp (hstep _ hset)
    exact (refs_link_resolved_iff.mp hrefs).2
  | _ => trivial

theorem linksResolved_run_iff (env : Env) (maxFdCount : Nat) (ops : List Op)
    : Run.AlongDefined (step env) (fun s op => ∀ s', s.step env op = some s' → s'.LinksResolved)
          (construct maxFdCount) ops
        ↔
      Run.AlongDefined (step env) TargetIsPerf (construct maxFdCount) ops := by
  apply Run.alongDefined_iff_of_invariant LinksResolved
  . intro s op s' h htarget hstep
    exact h.step htarget hstep
  . intro s op h
    constructor
    . intro hstep
      exact h.targetIsPerf hstep
    . intro htarget s' hstep
      exact h.step htarget hstep
  . exact linksResolved_construct maxFdCount

def plainEnv : Env where
  libbpf := true
  cuda := false
  allowNonBuildinMapTypes := false
  backed := fun _ => true
  room := fun _ => true
  allocMap := fun _ _ _ => none
  mmapable := fun _ => true

def linkToNothing : List Op :=
  [.addBpfProg 9 3 [] [] 0, .addBpfLink 9 4 ⟨3, 5⟩]

theorem not_linksResolved_linkToNothing : ¬ Run.AlongDefined (step plainEnv)
        (fun s op => ∀ s', s.step plainEnv op = some s' → s'.LinksResolved) (construct 8)
        linkToNothing := by
  intro h
  have hresolved := (h.2 _ rfl).1 _ rfl
  have hlink := hresolved 4 ⟨3, 5, none⟩ (by decide)
  exact absurd hlink.2 (by decide)

end BpftimeShm

end Bpftime.Shm
