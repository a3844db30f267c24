import Bpftime.Daemon.Impl
import Bpftime.Shm.Clear

namespace Bpftime

namespace Shm.BpftimeShm

variable {env : Env} {s s' s'' : BpftimeShm} {fd id : Int32} {handler : Handler}

theorem slot?_findMinimalUnusedIdx (h : ¬ s.findMinimalUnusedIdx < 0)
    : s.slot? s.findMinimalUnusedIdx = some .unused := by
  unfold findMinimalUnusedIdx at h ⊢
  cases hfind : (List.range s.handlers.length).find? fun i => !s.isAllocated (.ofNat i) with
  | none => simp [hfind] at h
  | some i =>
    rw [hfind] at h
    have hmem : i < s.handlers.length := by
      simpa using List.mem_of_find?_eq_some hfind
    have hfree : s.isAllocated (.ofNat i) = false := by
      simpa using List.find?_some hfind
    -- the search does not go beyond 2^31, which as an `int` is negative and not allocated
    have hi : i < 2 ^ 31 := by
      apply Nat.lt_of_not_le
      intro hle
      have hneg : s.slot? (.ofNat (2 ^ 31)) = none := by
        unfold slot?
        rw [if_pos (by decide)]
      have hlt : ¬ 2 ^ 31 < i := by
        intro hlt
        have hall := (List.find?_range_eq_some.mp hfind).2.2 _ hlt
        unfold isAllocated at hall
        rw [hneg] at hall
        simp at hall
      have heq : i = 2 ^ 31 := by omega
      rw [heq] at h
      exact h (by decide)
    unfold isAllocated at hfree
    rw [slot?_ofNat hi] at hfree ⊢
    rw [List.getElem?_eq_getElem hmem] at hfree ⊢
    simp only [bne_eq_false_iff_eq] at hfree
    rw [Handler.kind_eq_unused.mp hfree]

def KeepsPerf (s s' : BpftimeShm) (id : Int32) : Prop :=
  ∀ h, s.slot? id = some (.perfEvent h) →
    ∃ enabled, s'.slot? id = some (.perfEvent { h with enabled := enabled })

theorem KeepsPerf.refl (s : BpftimeShm) (id : Int32) : s.KeepsPerf s id := by
  intro h hslot
  exact ⟨h.enabled, hslot⟩

theorem KeepsPerf.trans (h : s.KeepsPerf s' id) (h' : s'.KeepsPerf s'' id)
    : s.KeepsPerf s'' id := by
  intro perf hslot
  rcases h perf hslot with ⟨enabled, hslot'⟩
  rcases h' _ hslot' with ⟨enabled', hslot''⟩
  exact ⟨enabled', hslot''⟩

theorem KeepsPerf.of_setHandler {o : Outcome} (h : s.setHandler env fd handler = some (o, s'))
    : s.KeepsPerf s' id := by
  intro perf hslot
  exact ⟨perf.enabled, slot?_setHandler_of_taken hslot (by simp [Handler.kind]) h⟩

theorem KeepsPerf.setEnabled (s : BpftimeShm) (fd : Int32) (enabled : Bool)
    : s.KeepsPerf (s.setEnabled fd enabled) id := by
  unfold BpftimeShm.setEnabled
  split
  . next perf hfd =>
    intro perf' hslot
    rw [slot?_setSlot hfd]
    by_cases heq : id = fd
    . rw [if_pos heq]
      rw [heq, hfd] at hslot
      cases hslot
      exact ⟨enabled, rfl⟩
    . rw [if_neg heq]
      exact ⟨perf'.enabled, hslot⟩
  . exact .refl s id

theorem KeepsPerf.of_clearIdAt (h : s.clearIdAt env fd = some s') (hne : id ≠ fd)
    : s.KeepsPerf s' id := by
  cases hfd : s.slot? fd with
  | none =>
    rw [clearIdAt_of_outside hfd] at h
    cases h
    exact .refl s id
  | some handler =>
    intro perf hslot
    refine ⟨perf.enabled, ?_⟩
    rw [slot?_clearIdAt hfd h, if_neg hne, hslot]
    rfl

theorem KeepsPerf.of_replaceByMap {h : BpfMapHandler} {o : Outcome}
    (hreplace : s.replaceByMap env fd h = some (o, s')) (hne : id ≠ fd)
    : s.KeepsPerf s' id := by
  rcases replaceByMap_steps hreplace with ⟨t, hclear, hset⟩
  exact (KeepsPerf.of_clearIdAt hclear hne).trans (.of_setHandler hset)

theorem KeepsPerf.of_attachPerfToBpf {fake perfFd bpfFd : Int32} {cookie : Option UInt64}
    {o : Outcome} (h : s.attachPerfToBpf env fake perfFd bpfFd cookie = some (o, s'))
    : s.KeepsPerf s' id := by
  rcases attachPerfToBpf_cases h with rfl | ⟨-, -, _, hset⟩
  . exact .refl s' id
  . exact .of_setHandler hset

end Shm.BpftimeShm

namespace Daemon

open Shm

section Key

variable {pid pid' fd fd' : Int32}

theorem setWidth_getPidFdKey (pid fd : Int32)
    : (getPidFdKey pid fd).toBitVec.setWidth 32 = fd.toBitVec := by
  unfold getPidFdKey
  apply BitVec.eq_of_getLsbD_eq
  intro i hi
  have hlt : i < 64 := by omega
  simp [BitVec.getElem_signExtend, hi, hlt]

theorem msb_of_not_neg (h : ¬ fd < 0) : fd.toBitVec.msb = false := by
  rw [Int32.lt_iff_toInt_lt] at h
  rw [BitVec.msb_eq_toInt]
  simpa using h

theorem setWidth_getPidFdKey_shiftRight (pid : Int32) (h : ¬ fd < 0)
    : ((getPidFdKey pid fd).toBitVec >>> 32).setWidth 32 = pid.toBitVec := by
  unfold getPidFdKey
  apply BitVec.eq_of_getLsbD_eq
  intro i hi
  have hlt : i < 64 := by omega
  have hlt' : 32 + i < 64 := by omega
  have hle : ¬ 32 + i < 32 := by omega
  simp [BitVec.getElem_signExtend, msb_of_not_neg h, hi, hlt, hlt', hle]

theorem getPidFdKey_inj (h : ¬ fd < 0) (heq : getPidFdKey pid' fd' = getPidFdKey pid fd)
    : pid' = pid ∧ fd' = fd := by
  have hfd : fd' = fd := by
    apply Int32.toBitVec_inj.mp
    rw [← setWidth_getPidFdKey pid', ← setWidth_getPidFdKey pid, heq]
  refine ⟨?_, hfd⟩
  apply Int32.toBitVec_inj.mp
  rw [← setWidth_getPidFdKey_shiftRight pid' (hfd ▸ h), ← setWidth_getPidFdKey_shiftRight pid h]
  rw [heq]

end Key

def MapAnswers.slots (answers : MapAnswers) (kernelId : Int32) : List Int32 :=
  if ¬ answers.fd < 0 ∧ answers.info.isSome then
    [BpftimeShm.orFake kernelId answers.fake]
  else
    []

def ProgAnswers.slots (answers : ProgAnswers) (d : Driver) (kernelId serverPid : Int32)
    : List Int32 :=
  if ¬ answers.fd < 0 ∧ answers.info.isSome ∧ d.shm.isProgFd kernelId = false
      ∧ (relocateBpfProgInsns answers serverPid).isSome
      ∧ d.shm.isAllocated (BpftimeShm.orFake kernelId answers.fake) = false then
    (answers.mapIds.getD []).flatMap fun (mapId, answers) => answers.slots mapId.toInt32
  else
    []

namespace Driver

variable {env : Env} {d d' d'' : Driver} {slots : List Int32}

theorem checkAndGetPidFd_of_none {pid fd : Int32} (h : d.pidFdToIdMap (getPidFdKey pid fd) = none)
    : d.checkAndGetPidFd pid fd = -1 := by
  unfold checkAndGetPidFd
  rw [h]
  rfl

theorem checkAndGetPidFd_of_some {pid fd id : Int32}
    (h : d.pidFdToIdMap (getPidFdKey pid fd) = some id)
    : d.checkAndGetPidFd pid fd = id := by
  unfold checkAndGetPidFd
  rw [h]
  rfl

structure Frame (slots : List Int32) (d d' : Driver) : Prop where
  entries : d'.pidFdToIdMap = d.pidFdToIdMap
  perf : ∀ id ∉ slots, d.shm.KeepsPerf d'.shm id

theorem Frame.refl (slots : List Int32) (d : Driver) : Frame slots d d where
  entries := rfl
  perf := fun id _ => .refl _ id

theorem Frame.trans (h : Frame slots d d') (h' : Frame slots d' d'') : Frame slots d d'' where
  entries := h'.entries.trans h.entries
  perf := fun id hid => (h.perf id hid).trans (h'.perf id hid)

def Framed (slots : List Int32) (d : Driver) (result : Option (Outcome × Driver)) : Prop :=
  ∀ o d', result = some (o, d') → Frame slots d d'

theorem framed_some {o : Outcome} (h : Frame slots d d') : Framed slots d (some (o, d')) := by
  intro o d' heq
  cases heq
  exact h

theorem framed_self {o : Outcome} : Framed slots d (some (o, d)) := framed_some (.refl slots d)

theorem framed_onShm {f : BpftimeShm → Option (Outcome × BpftimeShm)}
    (h : ∀ o s, f d.shm = some (o, s) → ∀ id ∉ slots, d.shm.KeepsPerf s id)
    : Framed slots d (d.onShm f) := by
  intro o d' heq
  rcases Option.map_eq_some_iff.mp heq with ⟨⟨o, s⟩, hf, hd'⟩
  cases hd'
  exact ⟨rfl, h o s hf⟩

theorem framed_checked {result : Option (Outcome × Driver)}
    {next : Driver → Option (Outcome × Driver)} (h : Framed slots d result)
    (hnext : ∀ d', Framed slots d' (next d'))
    : Framed slots d (checked result next) := by
  unfold checked
  split
  . intro o d' heq
    cases heq
  . next d' => exact framed_some (h _ d' rfl)
  . next d' =>
    split
    . exact framed_some (h _ d' rfl)
    . intro o d'' heq
      exact (h _ d' rfl).trans (hnext d' o d'' heq)

theorem framed_bpftimeMapsCreateServer (d : Driver) {answers : MapAnswers} {kernelId : Int32}
    (h : answers.slots kernelId ⊆ slots)
    : Framed slots d (d.bpftimeMapsCreateServer env answers kernelId) := by
  unfold bpftimeMapsCreateServer
  split
  . exact framed_self
  . next hfd =>
    split
    . exact framed_self
    . next info hinfo =>
      split
      . exact framed_self
      . apply framed_checked
        . apply framed_onShm
          intro o s hadd id hid
          apply BpftimeShm.KeepsPerf.of_replaceByMap hadd
          rintro rfl
          apply hid
          apply h
          unfold MapAnswers.slots
          rw [if_pos ⟨hfd, by rw [hinfo]; rfl⟩]
          exact List.mem_singleton_self _
        . intro d'
          exact framed_self

theorem framed_createRelatedMaps {mapIds : List (UInt32 × MapAnswers)}
    (h : ∀ m ∈ mapIds, m.2.slots m.1.toInt32 ⊆ slots)
    : ∀ d : Driver, Framed slots d (d.createRelatedMaps env mapIds) := by
  induction mapIds with
  | nil =>
    intro d
    exact framed_self
  | cons m mapIds ih =>
    intro d
    have hrest := ih fun m hm => h m (List.mem_cons_of_mem _ hm)
    unfold createRelatedMaps
    split
    . exact hrest d
    . apply framed_checked _ hrest
      exact framed_bpftimeMapsCreateServer d (h m List.mem_cons_self)

theorem framed_checkAndCreateProgRelatedMaps (d : Driver) {info : BpfProgInfo}
    {mapIds : Option (List (UInt32 × MapAnswers))}
    (h : ∀ m ∈ mapIds.getD [], m.2.slots m.1.toInt32 ⊆ slots)
    : Framed slots d (d.checkAndCreateProgRelatedMaps env info mapIds) := by
  unfold checkAndCreateProgRelatedMaps
  split
  . exact framed_self
  . split
    . exact framed_createRelatedMaps h d
    . intro o d' heq
      cases heq

theorem onShm_addBpfProg_of_allocated {fake kernelId unset : Int32} {insn : List EbpfInst}
    {progName : CString} (h : d.shm.isAllocated (BpftimeShm.orFake kernelId fake) = true)
    : d.onShm (fun s => s.addBpfProg env fake kernelId insn progName unset)
        =
      some (.ret (-BpftimeShm.EEXIST) none, d) := by
  unfold onShm BpftimeShm.addBpfProg BpftimeShm.setHandler
  dsimp only
  rw [if_pos h]
  rfl

theorem framed_bpftimeProgsCreateServer (d : Driver) {answers : ProgAnswers}
    {kernelId serverPid : Int32} (h : answers.slots d kernelId serverPid ⊆ slots)
    : Framed slots d (d.bpftimeProgsCreateServer env answers kernelId serverPid) := by
  unfold bpftimeProgsCreateServer
  split
  . exact framed_self
  . next hfd =>
    split
    . exact framed_self
    . next info hinfo =>
      split
      . exact framed_self
      . next hprog =>
        split
        . exact framed_self
        . next buffer hbuffer =>
          by_cases halloc : d.shm.isAllocated (BpftimeShm.orFake kernelId answers.fake) = true
          . rw [onShm_addBpfProg_of_allocated halloc]
            exact framed_self
          . apply framed_checked
            . apply framed_onShm
              intro o s hadd id _
              exact .of_setHandler hadd
            . intro d'
              apply framed_checked
              . apply framed_checkAndCreateProgRelatedMaps
                intro m hm slot hslot
                apply h
                unfold ProgAnswers.slots
                rw [if_pos]
                . exact List.mem_flatMap.mpr ⟨m, hm, hslot⟩
                . simp only [Bool.not_eq_true] at hprog halloc
                  exact ⟨hfd, by rw [hinfo]; rfl, hprog, by rw [hbuffer]; rfl, halloc⟩
              . intro d''
                exact framed_self

theorem framed_attachPerfToBpf (d : Driver) {fake perfId kernelBpfId : Int32}
    : Framed slots d (d.attachPerfToBpf env fake perfId kernelBpfId) := by
  apply framed_checked
  . apply framed_onShm
    intro o s hattach id _
    exact .of_attachPerfToBpf hattach
  . intro d'
    exact framed_self

end Driver

def Op.mapSlots (d : Driver) : Op → List Int32
  | .progsCreate answers kernelId serverPid => answers.slots d kernelId serverPid
  | .mapsCreate answers kernelId => answers.slots kernelId
  | .attachPerfToBpf answers _ serverPid perfFd kernelBpfId =>
    if d.checkAndGetPidFd serverPid perfFd < 0 then
      []
    else
      answers.slots d kernelBpfId serverPid
  | .attachPerfToBpfFd answers _ serverPid perfFd bpfProgFd =>
    let progId := getBpfObjIdFromPidFd answers.bpfFdMap serverPid bpfProgFd
    if progId < 0 ∨ d.checkAndGetPidFd serverPid perfFd < 0 then
      []
    else
      answers.slots d progId serverPid
  | _ => []

def Op.OnEntries : Op → Prop
  | .uprobeCreate .. | .btfLoad .. | .close .. => True
  | _ => False

namespace Driver

variable {env : Env} {slots : List Int32}

theorem framed_bpftimeAttachPerfToBpfServer (d : Driver) {answers : ProgAnswers}
    {fake serverPid perfFd kernelBpfId : Int32}
    (h : (Op.attachPerfToBpf answers fake serverPid perfFd kernelBpfId).mapSlots d ⊆ slots)
    : Framed slots d
        (d.bpftimeAttachPerfToBpfServer env answers fake serverPid perfFd kernelBpfId) := by
  dsimp only [bpftimeAttachPerfToBpfServer]
  dsimp only [Op.mapSlots] at h
  split
  . exact framed_self
  . next hperf =>
    rw [if_neg hperf] at h
    split
    . exact framed_attachPerfToBpf d
    . apply framed_checked (framed_bpftimeProgsCreateServer d h)
      intro d'
      exact framed_attachPerfToBpf d'

theorem framed_perfEvent {enabled : Bool} (d : Driver) (fdId : Int32)
    : Framed slots d (d.onShm fun s => some (if s.isPerfFd fdId then
        (.ret 0 none, s.setEnabled fdId enabled) else (.ret (-1) (some .ENOENT), s))) := by
  apply framed_onShm
  intro o s heq id _
  split at heq
  . cases heq
    exact .setEnabled _ _ _
  . cases heq
    exact .refl _ _

theorem framed_call (env : Env) (d : Driver) {op : Op} (hop : ¬ op.OnEntries)
    : Framed (op.mapSlots d) d (d.call env op) := by
  cases op with
  | uprobeCreate | btfLoad | close => exact absurd trivial hop
  | progsCreate => exact framed_bpftimeProgsCreateServer d (List.Subset.refl _)
  | mapsCreate => exact framed_bpftimeMapsCreateServer d (List.Subset.refl _)
  | attachPerfToBpf => exact framed_bpftimeAttachPerfToBpfServer d (List.Subset.refl _)
  | attachPerfToBpfFd answers fake serverPid perfFd bpfProgFd =>
    dsimp only [call, bpftimeAttachPerfToBpfFdServer]
    split
    . exact framed_self
    . next hprog =>
      apply framed_bpftimeAttachPerfToBpfServer
      dsimp only [Op.mapSlots]
      simp only [hprog, false_or]
      exact List.Subset.refl _
  | perfEventEnable | perfEventDisable =>
    dsimp only [call, bpftimePerfEventEnableServer, bpftimePerfEventDisableServer]
    split
    . exact framed_self
    . apply framed_checked (framed_perfEvent d _)
      intro d'
      exact framed_self

end Driver

end Daemon

end Bpftime
