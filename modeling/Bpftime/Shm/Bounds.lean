import Bpftime.Shm.Links

namespace Bpftime.Shm

namespace BpftimeShm

def InTable (s : BpftimeShm) (i : Int) : Prop := 0 ≤ i ∧ i < s.handlers.length

instance (s : BpftimeShm) (i : Int) : Decidable (s.InTable i) := inferInstanceAs (Decidable (_ ∧ _))

def checkedSlots (s : BpftimeShm) (fd : Int32) : List Int :=
  if s.InTable fd.toInt then [fd.toInt] else []

def setHandlerSlots (s : BpftimeShm) (fd : Int32) (handler : Handler) : List Int :=
  s.checkedSlots fd ++
    if s.isAllocated fd then
      []
    else if handler.kind = .unused then
      []
    else
      [fd.toInt]

def visitLinksSlots (s : BpftimeShm) (p : BpfLinkHandler → Bool) : List Int :=
  (List.range s.handlers.length).flatMap fun (i : Nat) =>
    match s.handlers[i]? with
    | some (.link l) => if p l then (i : Int) :: s.checkedSlots (.ofNat i) else [(i : Int)]
    | _ => [(i : Int)]

def clearIdAtSlots (s : BpftimeShm) (fd : Int32) : List Int :=
  if s.InTable fd.toInt then
    match s.slot? fd with
    | some (.perfEvent _) => fd.toInt :: s.visitLinksSlots fun l => l.attachTargetId == fd
    | some (.prog _) => fd.toInt :: s.visitLinksSlots fun l => l.progId == fd
    | _ => [fd.toInt]
  else
    []

def replaceByMapSlots (env : Env) (s : BpftimeShm) (fd : Int32) (h : BpfMapHandler) : List Int :=
  fd.toInt ::
    match s.slot? fd with
    | none => []
    | some .unused => s.setHandlerSlots fd (.map h)
    | some _ =>
      s.clearIdAtSlots fd ++
        match s.clearIdAt env fd with
        | none => []
        | some s => s.setHandlerSlots fd (.map h)

def attachPerfToBpfSlots (s : BpftimeShm) (fake perfFd bpfFd : Int32) (cookie : Option UInt64)
    : List Int :=
  s.checkedSlots perfFd ++
    if s.isPerfFd perfFd then
      s.checkedSlots bpfFd ++
        if s.isProgFd bpfFd then
          if fake < 0 then [] else s.setHandlerSlots fake (.link ⟨bpfFd, perfFd, cookie⟩)
        else
          []
    else
      []

def perfEventSlots (s : BpftimeShm) (fd : Int32) : List Int :=
  s.checkedSlots fd ++ if s.isPerfFd fd then [fd.toInt] else []

def dupBpfMapSlots (env : Env) (s : BpftimeShm) (fake oldfd newfd : Int32) : List Int :=
  s.checkedSlots oldfd ++
    match s.slot? oldfd with
    | some (.map h) =>
      oldfd.toInt ::
        s.replaceByMapSlots env (orFake newfd fake) ⟨"dup_".toUTF8.toList ++ h.name, h.attr⟩
    | _ => []

def slots (env : Env) (s : BpftimeShm) : Op → List Int
  | .addKprobe fake fd funcName addr retprobe refCtrOff =>
    s.setHandlerSlots (fd.getD fake) (.perfEvent (.kprobe retprobe addr funcName refCtrOff))
  | .addUprobe fake fd pid name offset retprobe refCtrOff =>
    s.setHandlerSlots (orFake fd fake) (.perfEvent (.uprobe retprobe offset pid name refCtrOff))
  | .addUprobeOverride fake fd pid name offset isReplace =>
    s.setHandlerSlots (orFake fd fake) (.perfEvent (.replace
      (if isReplace then BPF_TYPE_UREPLACE else BPF_TYPE_UPROBE_OVERRIDE) offset pid name true))
  | .addTracepoint fake fd pid tracepointId =>
    s.setHandlerSlots (orFake fd fake) (.perfEvent (.tracepoint pid tracepointId))
  | .addSoftwarePerfEvent fd cpu sampleType config =>
    s.setHandlerSlots fd (.perfEvent (.software cpu sampleType config))
  | .addCustomPerfEvent fake type attachArgument =>
    if fake < 0 then [] else s.setHandlerSlots fake (.perfEvent (.custom type attachArgument))
  | .attachPerfToBpf fake perfFd bpfFd cookie => s.attachPerfToBpfSlots fake perfFd bpfFd cookie
  | .perfEventEnable fd => s.perfEventSlots fd
  | .perfEventDisable fd => s.perfEventSlots fd
  | .epollCreate fake =>
    s.checkedSlots fake ++ if s.isAllocated fake then [] else s.setHandlerSlots fake .epoll
  | .addMemfdHandler fake name flags => s.setHandlerSlots fake (.memfd ⟨flags, name⟩)
  | .addBpfProg fake fd insn progName unset =>
    s.setHandlerSlots (orFake fd fake) (.prog ⟨unset, insn, progName⟩)
  | .addBpfLink fake fd args =>
    s.checkedSlots args.progFd.toInt32 ++
      if s.isProgFd args.progFd.toInt32 then
        s.setHandlerSlots (orFake fd fake) (.link (.ofArgs args))
      else
        []
  | .closeFd fd => s.clearIdAtSlots fd
  | .addBpfMap fake fd name attr => s.replaceByMapSlots env (orFake fd fake) ⟨name, attr⟩
  | .dupBpfMap fake oldfd newfd => s.dupBpfMapSlots env fake oldfd newfd

def Fails (env : Env) (s : BpftimeShm) (op : Op) : Prop :=
  ∃ r errno s', s.call env op = some (.ret r errno, s') ∧ r < 0

/-- The call touches slots of the table only. -/
def StaysInside (env : Env) (s : BpftimeShm) (op : Op) : Prop := ∀ i ∈ s.slots env op, s.InTable i

def target? (s : BpftimeShm) : Op → Option Int32
  | .addKprobe fake fd .. => some (fd.getD fake)
  | .addUprobe fake fd .. => some (orFake fd fake)
  | .addUprobeOverride fake fd .. => some (orFake fd fake)
  | .addTracepoint fake fd .. => some (orFake fd fake)
  | .addSoftwarePerfEvent fd .. => some fd
  | .addCustomPerfEvent fake .. => if fake < 0 then none else some fake
  | .attachPerfToBpf fake perfFd bpfFd _ =>
    if s.isPerfFd perfFd ∧ s.isProgFd bpfFd ∧ ¬ fake < 0 then some fake else none
  | .perfEventEnable _ => none
  | .perfEventDisable _ => none
  | .epollCreate fake => some fake
  | .addMemfdHandler fake .. => some fake
  | .addBpfProg fake fd .. => some (orFake fd fake)
  | .addBpfLink fake fd args =>
    if s.isProgFd args.progFd.toInt32 then some (orFake fd fake) else none
  | .closeFd _ => none
  | .addBpfMap fake fd .. => some (orFake fd fake)
  | .dupBpfMap fake oldfd newfd => if s.isMapFd oldfd then some (orFake newfd fake) else none

section Slots

variable {env : Env} {s s' : BpftimeShm} {fd : Int32} {handler : Handler}

theorem isSome_slot?_iff : (s.slot? fd).isSome ↔ s.InTable fd.toInt := by
  unfold slot? InTable
  split
  next hneg =>
    rw [Int32.lt_iff_toInt_lt, Int32.toInt_zero] at hneg
    simp only [Option.isSome_none, Bool.false_eq_true, false_iff]
    omega
  next hneg =>
    rw [Int32.lt_iff_toInt_lt, Int32.toInt_zero] at hneg
    rw [isSome_getElem?, ← Int32.toNat_toInt]
    omega

theorem inTable_of_slot? (h : s.slot? fd = some handler) : s.InTable fd.toInt := by
  rw [← isSome_slot?_iff, h]
  rfl

theorem slot?_of_outside (h : ¬ s.InTable fd.toInt) : s.slot? fd = none := by
  rw [← Option.not_isSome_iff_eq_none, isSome_slot?_iff]
  exact h

theorem holds_iff {kind : Kind}
    : s.holds kind fd = true ↔ ∃ handler, s.slot? fd = some handler ∧ handler.kind = kind := by
  unfold holds
  rw [beq_iff_eq, Option.map_eq_some_iff]

theorem inTable_of_holds {kind : Kind} (h : s.holds kind fd = true) : s.InTable fd.toInt := by
  rcases holds_iff.mp h with ⟨handler, hslot, -⟩
  exact inTable_of_slot? hslot

theorem isMapFd_iff : s.isMapFd fd = true ↔ ∃ h, s.slot? fd = some (.map h) := by
  unfold isMapFd
  rw [holds_iff]
  constructor
  . intro ⟨handler, hslot, hkind⟩
    cases handler with
    | map h => exact ⟨h, hslot⟩
    | _ => cases hkind
  . intro ⟨h, hslot⟩
    exact ⟨.map h, hslot, rfl⟩

theorem inTable_of_mem_checkedSlots {i : Int} (h : i ∈ s.checkedSlots fd) : s.InTable i := by
  unfold checkedSlots at h
  split at h
  next hin =>
    rw [List.mem_singleton] at h
    rw [h]
    exact hin
  next => cases h

theorem eq_of_mem_setHandlerSlots {i : Int} (h : i ∈ s.setHandlerSlots fd handler)
    : i = fd.toInt := by
  unfold setHandlerSlots checkedSlots at h
  rw [List.mem_append] at h
  rcases h with h | h
  . split at h
    . exact List.mem_singleton.mp h
    . cases h
  . split at h
    . cases h
    . split at h
      . cases h
      . exact List.mem_singleton.mp h

theorem inTable_setHandlerSlots_iff (hkind : handler.kind ≠ .unused)
    : (∀ i ∈ s.setHandlerSlots fd handler, s.InTable i) ↔ s.InTable fd.toInt := by
  constructor
  . intro h
    by_contra hout
    apply hout
    apply h
    unfold setHandlerSlots isAllocated
    simp [slot?_of_outside hout, hkind]
  . intro hin i hi
    rw [eq_of_mem_setHandlerSlots hi]
    exact hin

theorem inTable_of_mem_visitLinksSlots {p : BpfLinkHandler → Bool} {i : Int}
    (h : i ∈ s.visitLinksSlots p)
    : s.InTable i := by
  unfold visitLinksSlots at h
  rw [List.mem_flatMap] at h
  rcases h with ⟨j, hj, hi⟩
  rw [List.mem_range] at hj
  have hself : s.InTable (j : Int) := by
    unfold InTable
    omega
  have hsingle : i ∈ [(j : Int)] → s.InTable i := by
    intro hi
    rw [List.mem_singleton.mp hi]
    exact hself
  split at hi
  . split at hi
    . rcases List.mem_cons.mp hi with rfl | hi
      . exact hself
      . exact inTable_of_mem_checkedSlots hi
    . exact hsingle hi
  . exact hsingle hi

theorem inTable_of_mem_clearIdAtSlots {i : Int} (h : i ∈ s.clearIdAtSlots fd) : s.InTable i := by
  unfold clearIdAtSlots at h
  split at h
  next hin =>
    split at h
    . rcases List.mem_cons.mp h with rfl | h
      . exact hin
      . exact inTable_of_mem_visitLinksSlots h
    . rcases List.mem_cons.mp h with rfl | h
      . exact hin
      . exact inTable_of_mem_visitLinksSlots h
    . rw [List.mem_singleton.mp h]
      exact hin
  next => cases h

theorem inTable_replaceByMapSlots_iff {h : BpfMapHandler}
    : (∀ i ∈ s.replaceByMapSlots env fd h, s.InTable i) ↔ s.InTable fd.toInt := by
  constructor
  . intro hall
    exact hall _ List.mem_cons_self
  . intro hin i hi
    rcases List.mem_cons.mp hi with rfl | hi
    . exact hin
    . split at hi
      . cases hi
      . rw [eq_of_mem_setHandlerSlots hi]
        exact hin
      . rw [List.mem_append] at hi
        rcases hi with hi | hi
        . exact inTable_of_mem_clearIdAtSlots hi
        . split at hi
          . cases hi
          . rw [eq_of_mem_setHandlerSlots hi]
            exact hin

theorem inTable_checkedSlots_append {rest : List Int}
    : (∀ i ∈ s.checkedSlots fd ++ rest, s.InTable i) ↔ ∀ i ∈ rest, s.InTable i := by
  constructor
  . intro h i hi
    exact h i (List.mem_append_right _ hi)
  . intro h i hi
    rcases List.mem_append.mp hi with hi | hi
    . exact inTable_of_mem_checkedSlots hi
    . exact h i hi

theorem staysInside_iff_target (env : Env) (s : BpftimeShm) (op : Op)
    : s.StaysInside env op ↔ ∀ fd, s.target? op = some fd → s.InTable fd.toInt := by
  unfold StaysInside slots target?
  cases op with
  | addKprobe | addUprobe | addUprobeOverride | addTracepoint | addSoftwarePerfEvent
  | addMemfdHandler | addBpfProg =>
    dsimp only
    rw [inTable_setHandlerSlots_iff (by simp [Handler.kind])]
    simp
  | addCustomPerfEvent fake =>
    dsimp only
    split
    . simp
    . rw [inTable_setHandlerSlots_iff (by simp [Handler.kind])]
      simp
  | attachPerfToBpf fake perfFd bpfFd cookie =>
    dsimp only
    unfold attachPerfToBpfSlots
    rw [inTable_checkedSlots_append]
    split
    next hperf =>
      rw [inTable_checkedSlots_append]
      split
      next hprog =>
        split
        next hneg => simp [hneg]
        next hneg =>
          rw [inTable_setHandlerSlots_iff (by simp [Handler.kind])]
          simp [hperf, hprog, hneg]
      next hprog => simp [hprog]
    next hperf => simp [hperf]
  | perfEventEnable fd | perfEventDisable fd =>
    dsimp only
    unfold perfEventSlots
    rw [inTable_checkedSlots_append]
    split
    next hperf => simpa using inTable_of_holds hperf
    next => simp
  | epollCreate fake =>
    dsimp only
    rw [inTable_checkedSlots_append]
    split
    next hallocated =>
      have hin : s.InTable fake.toInt := by
        unfold isAllocated at hallocated
        split at hallocated
        . cases hallocated
        next hslot => exact inTable_of_slot? hslot
      simpa using hin
    next =>
      rw [inTable_setHandlerSlots_iff (by simp [Handler.kind])]
      simp
  | addBpfLink fake fd args =>
    dsimp only
    rw [inTable_checkedSlots_append]
    split
    . rw [inTable_setHandlerSlots_iff (by simp [Handler.kind])]
      simp
    . simp
  | closeFd fd =>
    simp only [reduceCtorEq, false_implies, implies_true, iff_true]
    intro i hi
    exact inTable_of_mem_clearIdAtSlots hi
  | addBpfMap =>
    dsimp only
    rw [inTable_replaceByMapSlots_iff]
    simp
  | dupBpfMap fake oldfd newfd =>
    dsimp only
    unfold dupBpfMapSlots
    rw [inTable_checkedSlots_append]
    split
    next h hslot =>
      rw [List.forall_mem_cons, inTable_replaceByMapSlots_iff, if_pos (isMapFd_iff.mpr ⟨h, hslot⟩)]
      simp [inTable_of_slot? hslot]
    next hslot =>
      rw [if_neg]
      . simp
      . intro hmap
        rcases isMapFd_iff.mp hmap with ⟨h, hold⟩
        exact hslot h hold

theorem call_of_target_outside {op : Op} (htarget : s.target? op = some fd)
    (hout : ¬ s.InTable fd.toInt)
    : s.call env op = none := by
  have hnone := slot?_of_outside hout
  have hset : ∀ handler : Handler, handler.kind ≠ .unused → s.setHandler env fd handler = none :=
    fun _ hkind => setHandler_of_outside hnone hkind
  have hreplace : ∀ h, s.replaceByMap env fd h = none := by
    intro h
    unfold replaceByMap
    rw [hnone]
  unfold target? at htarget
  unfold call
  cases op with
  | addKprobe | addUprobe | addTracepoint | addSoftwarePerfEvent | addMemfdHandler | addBpfProg =>
    cases htarget
    exact hset _ (by simp [Handler.kind])
  | addUprobeOverride =>
    cases htarget
    dsimp only
    unfold addUprobeOverride
    split <;> exact hset _ (by simp [Handler.kind])
  | addCustomPerfEvent fake type attachArgument =>
    dsimp only at htarget ⊢
    split at htarget
    . cases htarget
    next hneg =>
      cases htarget
      unfold addCustomPerfEvent
      rw [if_neg hneg, hset _ (by simp [Handler.kind])]
  | attachPerfToBpf fake perfFd bpfFd cookie =>
    dsimp only at htarget ⊢
    split at htarget
    next h =>
      cases htarget
      unfold attachPerfToBpf addBpfProgAttachTarget
      rw [if_pos h.1, if_pos h.2.1, if_neg h.2.2, hset _ (by simp [Handler.kind])]
    . cases htarget
  | perfEventEnable | perfEventDisable | closeFd => cases htarget
  | epollCreate =>
    cases htarget
    dsimp only
    unfold epollCreate isAllocated
    rw [hnone, hset _ (by simp [Handler.kind])]
    rfl
  | addBpfLink fake fd' args =>
    dsimp only at htarget ⊢
    split at htarget
    next hprog =>
      cases htarget
      unfold addBpfLink
      rw [if_pos hprog, hset _ (by simp [Handler.kind])]
    . cases htarget
  | addBpfMap =>
    cases htarget
    exact hreplace _
  | dupBpfMap fake oldfd newfd =>
    dsimp only at htarget ⊢
    split at htarget
    next hmap =>
      cases htarget
      rcases isMapFd_iff.mp hmap with ⟨h, hold⟩
      unfold dupBpfMap
      rw [hold]
      dsimp only
      split
      . rfl
      . exact hreplace _
    . cases htarget

end Slots

theorem fails_or_staysInside_iff (env : Env) (s : BpftimeShm) (op : Op)
    : s.Fails env op ∨ s.StaysInside env op
        ↔
      ∀ fd, s.target? op = some fd → s.InTable fd.toInt := by
  constructor
  . intro h fd htarget
    rcases h with ⟨r, errno, s', hcall, _⟩ | hinside
    . by_contra hout
      rw [call_of_target_outside htarget hout] at hcall
      cases hcall
    . exact (staysInside_iff_target env s op).mp hinside fd htarget
  . intro h
    exact Or.inr ((staysInside_iff_target env s op).mpr h)

theorem addBpfProg_writes_outside
    : (∃ i ∈ (construct 2).slots plainEnv (.addBpfProg 5 2 [] [] 0), ¬ (construct 2).InTable i)
        ∧ (∃ i ∈ (construct 2).slots plainEnv (.addBpfProg (-1) (-1) [] [] 0),
            ¬ (construct 2).InTable i)
        ∧ ¬ (construct 2).Fails plainEnv (.addBpfProg 5 2 [] [] 0)
        ∧ ¬ (construct 2).Fails plainEnv (.addBpfProg (-1) (-1) [] [] 0) := by
  have hfails : ∀ op fd, (construct 2).target? op = some fd → ¬ (construct 2).InTable fd.toInt →
      ¬ (construct 2).Fails plainEnv op := by
    intro op fd htarget hout ⟨r, errno, s', hcall, _⟩
    rw [call_of_target_outside htarget hout] at hcall
    cases hcall
  refine ⟨by decide, by decide, ?_, ?_⟩
  . exact hfails _ 2 (by decide) (by decide)
  . exact hfails _ (-1) (by decide) (by decide)

end BpftimeShm

end Bpftime.Shm
