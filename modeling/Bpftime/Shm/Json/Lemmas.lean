import Bpftime.Shm.Json.Impl
import Bpftime.Shm.Links
import Mathlib.Data.List.GetD

namespace Bpftime.Shm

open Numeral

section Hex

theorem length_bufferToHexString (buffer : List UInt8)
    : (bufferToHexString buffer).length = buffer.length * 2 := by
  unfold bufferToHexString
  induction buffer with
  | nil => rfl
  | cons b buffer ih =>
    rw [List.flatMap_cons, List.length_append, ih, List.length_cons]
    simp only [hexByte, List.length_map, List.length_cons, List.length_nil]
    omega

theorem hexStringToBuffer.go_bufferToHexString (buffer : List UInt8)
    : go buffer.length (bufferToHexString buffer) = some buffer := by
  unfold bufferToHexString
  induction buffer with
  | nil => rfl
  | cons b buffer ih =>
    have htake : ((b :: buffer).flatMap hexByte).take 2 = hexByte b := rfl
    have hdrop : ((b :: buffer).flatMap hexByte).drop 2 = buffer.flatMap hexByte := rfl
    rw [List.length_cons]
    simp only [go]
    rw [htake, hdrop, stoi_hexByte, ih]
    simp

theorem hexStringToBuffer_bufferToHexString (buffer : List UInt8) (n : ℕ)
    : hexStringToBuffer (bufferToHexString buffer) n
        =
      if buffer.length = n then some (0, buffer) else some (-1, []) := by
  unfold hexStringToBuffer
  rw [length_bufferToHexString]
  by_cases heq : buffer.length = n
  . subst heq
    rw [if_neg (by simp), if_pos rfl, hexStringToBuffer.go_bufferToHexString]
    rfl
  . rw [if_pos (by omega), if_neg heq]

theorem length_bytesOfInsts (insns : List EbpfInst)
    : (bytesOfInsts insns).length = insns.length * 8 := by
  unfold bytesOfInsts
  induction insns with
  | nil => rfl
  | cons i insns ih =>
    rw [List.flatMap_cons, List.length_append, ih, List.length_cons, Vector.length_toList]
    omega

theorem instsOfBytes_bytesOfInsts (insns : List EbpfInst)
    : instsOfBytes insns.length (bytesOfInsts insns) = insns := by
  unfold bytesOfInsts
  induction insns with
  | nil => rfl
  | cons inst insns ih =>
    rw [List.length_cons, instsOfBytes, List.flatMap_cons, List.drop_left' (by simp), ih]
    congr
    apply Vector.ext
    intro i hi
    rw [Vector.getElem_ofFn, List.getD_append _ _ _ _ (by simpa using hi)]
    rw [List.getD_eq_getElem _ _ (by simpa using hi), Vector.getElem_toList]

end Hex

theorem cStr_cStr (s : List UInt8) : cStr (cStr s) = cStr s := by
  unfold cStr
  rw [List.takeWhile_takeWhile]
  simp only [and_self, Bool.decide_eq_true]

section Numbers

theorem toInt32_ofInt_toInt (n : Int32) : (UInt32.ofInt n.toInt).toInt32 = n := by
  have hlt := n.toInt_lt
  have hle := n.le_toInt
  have hword : ∀ x : UInt32, x.toInt32.toInt = (x.toNat : ℤ).bmod (2 ^ 32) :=
    fun x => BitVec.toInt_eq_toNat_bmod x.toBitVec
  apply Int32.toInt_inj.mp
  rw [hword]
  unfold UInt32.ofInt
  rw [UInt32.toNat_ofNat']
  simp only [Int.bmod_def]
  omega

theorem uint32_ofInt_toNat (n : UInt32) : UInt32.ofInt (n.toNat : ℤ) = n := by
  have hlt := n.toNat_lt
  apply UInt32.toNat_inj.mp
  unfold UInt32.ofInt
  rw [UInt32.toNat_ofNat']
  omega

theorem uint64_ofInt_toNat (n : UInt64) : UInt64.ofInt (n.toNat : ℤ) = n := by
  have hlt := n.toNat_lt
  apply UInt64.toNat_inj.mp
  unfold UInt64.ofInt
  rw [UInt64.toNat_ofNat']
  omega

theorem ofInt_count_iff {n : ℕ}
    : (¬ Int32.ofInt (n : ℤ) < 0 ∧ (Int32.ofInt (n : ℤ)).toNatClampNeg = n) ↔ n < 2 ^ 31 := by
  have hsize : Int32.size = 2 ^ 32 := rfl
  rw [Int32.lt_iff_toInt_lt, ← Int32.toNat_toInt, Int32.toInt_ofInt]
  simp only [hsize, Int.bmod_def, Int32.toInt_zero]
  omega

end Numbers

namespace BpftimeShm

variable {env : Env} {sur : Surroundings} {s s' : BpftimeShm} {fd : Int32} {value : Json}

def importStep (env : Env) (sur : Surroundings) (s : BpftimeShm) (fd : Int32) (value : Json)
    : Option BpftimeShm :=
  match s.importShmHandlerFromJson env sur value fd with
  | some (some res, s) => if res < 0 then none else some s
  | _ => none

theorem importItems_map_iff {key : Int32 → List UInt8} {json : Int32 → Json} {ids : List Int32}
    (hkey : ∀ fd ∈ ids, stoi 10 (key fd) = some fd)
    : ∀ s, importItems env sur (ids.map fun fd => (key fd, json fd)) s = some (some 0, s')
        ↔
      ids.foldlM (fun s fd => s.importStep env sur fd (json fd)) s = some s' := by
  induction ids with
  | nil =>
    intro s
    simp [importItems]
  | cons fd ids ih =>
    intro s
    have ih := ih fun fd hfd => hkey fd (List.mem_cons_of_mem _ hfd)
    rw [List.map_cons, importItems, hkey fd List.mem_cons_self, List.foldlM_cons]
    unfold importStep
    simp only [reading]
    cases hr : s.importShmHandlerFromJson env sur (json fd) fd with
    | none => simp
    | some out =>
      rcases out with ⟨_ | res, s₁⟩
      . simp
      . dsimp only
        by_cases hres : res < 0
        . rw [if_pos hres, if_pos hres]
          simp
        . rw [if_neg hres, if_neg hres]
          exact ih s₁

theorem orFake_of_slot? {handler : Handler} {fake : Int32} (h : s.slot? fd = some handler)
    : orFake fd fake = fd := by
  unfold orFake
  rw [if_neg (not_neg_of_slot? h)]

theorem importShmHandlerFromJson_of_type {kind : String}
    (h : value.get (utf8 "type") = some (.string (utf8 kind)))
    : s.importShmHandlerFromJson env sur value fd
        =
      if kind = "bpf_prog_handler" then s.importProg env sur value fd
      else if kind = "bpf_map_handler" then s.importMap env sur value fd
      else if kind = "bpf_perf_event_handler" then s.importPerfEvent env sur value fd
      else if kind = "bpf_link_handler" then s.importLink env sur value fd
      else some (some (-1), s) := by
  unfold importShmHandlerFromJson
  rw [h]
  simp only [reading, Json.asString, utf8_inj, Option.bind_eq_bind, Option.bind_some]

theorem importStep_of_zero (h : s.importShmHandlerFromJson env sur value fd = some (some 0, s'))
    : s.importStep env sur fd value = some s' := by
  unfold importStep
  rw [h]
  dsimp only
  rw [if_neg (by decide)]

theorem importStep_of_thrown (h : s.importShmHandlerFromJson env sur value fd = some (none, s'))
    : s.importStep env sur fd value = none := by
  unfold importStep
  rw [h]

section Prog

variable (h : BpfProgHandler)

theorem prog_read (hvalue : handlerToJson (.prog h) = some value)
    : value.get (utf8 "type") = some (.string (utf8 "bpf_prog_handler")) ∧
        attrString value "insns" = some (bufferToHexString (bytesOfInsts h.insns)) ∧
        nameOf value = some (cStr h.name) ∧ attrNumber value "type" = some h.type.toInt ∧
        attrNumber value "cnt" = some (h.insns.length : ℤ) ∧
        attrOf value "attach_fds" = some .null := by
  cases hvalue
  simp [Json.get_ofPairs, OrderedMap.get?, utf8_inj, attrNumber, attrString, nameOf, attrOf,
    Json.asNumber, Json.asString]

theorem importStep_prog (hfree : s.slot? fd = some .unused)
    (hvalue : handlerToJson (.prog h) = some value)
    : s.importStep env sur fd value
        =
      if h.insns.length < 2 ^ 31 ∧ sur.room fd = true then
        some (s.setSlot fd (.prog ⟨sur.unset fd, h.insns, cStr h.name⟩))
      else
        none := by
  rcases prog_read h hvalue with ⟨hkind, hinsns, hname, htype, hcnt, hfds⟩
  have hcount := @ofInt_count_iff h.insns.length
  have himport : s.importShmHandlerFromJson env sur value fd = s.importProg env sur value fd := by
    rw [importShmHandlerFromJson_of_type hkind]
    simp
  have hread : s.importProg env sur value fd
      =
      if Int32.ofInt (h.insns.length : ℤ) < 0 then
        some (none, s)
      else if (Int32.ofInt (h.insns.length : ℤ)).toNatClampNeg = h.insns.length then
        if sur.room fd = false then
          some (none, s)
        else
          some (some 0, s.setSlot fd (.prog ⟨sur.unset fd, h.insns, cStr h.name⟩))
      else
        some (some (-1), s) := by
    unfold importProg
    rw [hinsns, hname, htype, hcnt]
    simp only [reading]
    split
    . rfl
    . by_cases heq : (Int32.ofInt (h.insns.length : ℤ)).toNatClampNeg = h.insns.length
      . rw [heq, hexStringToBuffer_bufferToHexString, length_bytesOfInsts, if_pos rfl,
          if_pos rfl]
        dsimp only
        rw [if_neg (by decide), instsOfBytes_bytesOfInsts, cStr_cStr, hfds]
        unfold addBpfProg
        rw [orFake_of_slot? hfree,
          setHandler_of_free hfree (by simp [Handler.kind]) (by simp [Handler.kind])]
        rfl
      . rw [hexStringToBuffer_bufferToHexString, length_bytesOfInsts, if_neg (by omega), if_neg heq]
        rfl
  unfold importStep
  rw [himport, hread]
  simp only [← hcount]
  generalize Int32.ofInt (h.insns.length : ℤ) = cnt
  by_cases hneg : cnt < 0
  . simp [hneg]
  . by_cases heq : cnt.toNatClampNeg = h.insns.length
    . cases sur.room fd <;> simp [hneg, heq]
    . simp [hneg, heq]

end Prog

end BpftimeShm

namespace BpfMapHandler

variable {env : Env} (h : BpfMapHandler)

def imported (h : BpfMapHandler) : BpfMapHandler where
  name := cStr h.name
  attr := { h.attr with gpuThreadCount := 1000 }

def made (env : Env) (h : BpfMapHandler) (memory : Memory) : Option Memory :=
  match h.mapInit env memory with
  | some (.ret _ _, memory) => some memory
  | _ => none

def starts (env : Env) (h : BpfMapHandler) : Bool := (h.made env []).isSome

def hasContainer (env : Env) (h : BpfMapHandler) : Bool := h.made env [] == some [h.getContainerName]

theorem mapInit_forms (env : Env)
    : (∀ memory, h.mapInit env memory = some (h.construct env memory)) ∨
        (∃ r, ∀ memory, h.mapInit env memory = some (.ret r none, memory)) ∨
        ∀ memory, h.mapInit env memory = none := by
  unfold mapInit
  cases h.initKind env with
  | construct => exact .inl fun _ => rfl
  | refuse => exact .inr (.inl ⟨-1, fun _ => rfl⟩)
  | nonBuiltin =>
    right
    simp only [initNonBuiltin]
    split
    next =>
      split
      next => exact .inl ⟨_, fun _ => rfl⟩
      next => exact .inr fun _ => rfl
    next => exact .inl ⟨-1, fun _ => rfl⟩

theorem made_eq (env : Env) (memory : Memory) : h.made env memory
        =
      if h.starts env = true ∧ (h.hasContainer env = true → h.getContainerName ∉ memory) then
        some (if h.hasContainer env then h.getContainerName :: memory else memory)
      else
        none := by
  unfold starts hasContainer made
  rcases h.mapInit_forms env with hform | ⟨r, hform⟩ | hform
  . rw [hform, hform]
    unfold construct
    by_cases haccepts : h.constructorAccepts env = true
    . by_cases hmem : h.getContainerName ∈ memory <;> simp [haccepts, hmem]
    . by_cases hmem : h.getContainerName ∈ memory <;> simp [haccepts, hmem]
  . rw [hform, hform]
    simp
  . rw [hform, hform]
    simp

end BpfMapHandler

namespace BpftimeShm

variable {env : Env} {sur : Surroundings} {s s' : BpftimeShm} {fd : Int32} {value : Json}

section Map

variable (h : BpfMapHandler)

theorem map_read (hvalue : handlerToJson (.map h) = some value)
    : value.get (utf8 "type") = some (.string (utf8 "bpf_map_handler")) ∧
        nameOf value = some (cStr h.name) ∧
        value.get (utf8 "attr") = some (bpfMapAttrToJson h.attr) := by
  cases hvalue
  simp [Json.get_ofPairs, OrderedMap.get?, utf8_inj, nameOf, Json.asString]

theorem constNumber_ofPairs {e : List UInt8 × Json} {l : List (List UInt8 × Json)}
    (hl : ((e :: l).map Prod.fst).Nodup) (key : String)
    : constNumber (.ofPairs (e :: l)) key
        =
      .mk ((OrderedMap.get? (utf8 key) (e :: l)).map Json.asNumber) := by
  rw [Json.ofPairs_eq (by simp)]
  unfold constNumber
  dsimp only
  rw [OrderedMap.get?_ofList hl]

theorem jsonToBpfMapAttr_bpfMapAttrToJson (attr : BpfMapAttr)
    : jsonToBpfMapAttr (bpfMapAttrToJson attr) = pure { attr with gpuThreadCount := 1000 } := by
  have hpure : ∀ n : ℤ, OptionT.mk (some (some n)) = (pure n : OptionT Option ℤ) := fun _ => rfl
  have hread (key : String) : constNumber (bpfMapAttrToJson attr) key = _ :=
    constNumber_ofPairs (by simp [utf8_inj]) key
  unfold jsonToBpfMapAttr
  simp only [hread]
  simp [OrderedMap.get?, utf8_inj, Json.asNumber, hpure, uint32_ofInt_toNat, uint64_ofInt_toNat]

theorem importStep_map (hfree : s.slot? fd = some .unused)
    (hvalue : handlerToJson (.map h) = some value)
    : s.importStep env sur fd value
        =
      (h.imported.made env s.segment).map fun memory =>
        { s.setSlot fd (.map h.imported) with segment := memory } := by
  rcases map_read h hvalue with ⟨hkind, hread, hattr⟩
  have hadd : s.addBpfMap env (sur.fake fd 0) fd (cStr (cStr h.name))
      { h.attr with gpuThreadCount := 1000 } = s.setHandler env fd (.map h.imported) := by
    unfold addBpfMap replaceByMap
    rw [orFake_of_slot? hfree, hfree, cStr_cStr]
    rfl
  have himport : s.importShmHandlerFromJson env sur value fd
      = andThen (s.setHandler env fd (.map h.imported)) fun s => some (some 0, s) := by
    rw [importShmHandlerFromJson_of_type hkind, if_neg (by simp), if_pos rfl]
    unfold importMap
    rw [hread, hattr]
    simp only [reading]
    rw [jsonToBpfMapAttr_bpfMapAttrToJson, ← hadd]
    rfl
  rw [setHandler_map_of_free hfree] at himport
  unfold BpfMapHandler.made
  cases hinit : h.imported.mapInit env s.segment with
  | none =>
    rw [hinit] at himport
    unfold importStep
    rw [himport]
    rfl
  | some out =>
    rw [hinit] at himport
    rcases out with ⟨r | _, memory⟩
    . exact importStep_of_zero himport
    . exact importStep_of_thrown himport

end Map

section PerfEvent

variable (h : BpfPerfEventHandler)

theorem perfEvent_read (hvalue : handlerToJson (.perfEvent h) = some value)
    : value.get (utf8 "type") = some (.string (utf8 "bpf_perf_event_handler")) ∧
        value.get (utf8 "attr") = some (bpfPerfEventHandlerAttrToJson h) ∧
        value.get (utf8 "enabled") = some (.bool h.enabled) := by
  cases hvalue
  simp [Json.get_ofPairs, OrderedMap.get?, utf8_inj]

theorem attrNumber_of_attr {attr : Json} (hattr : value.get (utf8 "attr") = some attr) (key : String)
    : attrNumber value key = (attr.get (utf8 key)).bind Json.asNumber := by
  unfold attrNumber attrOf
  rw [hattr]
  rfl

theorem setSlot_setSlot (handler handler' : Handler)
    : (s.setSlot fd handler).setSlot fd handler' = s.setSlot fd handler' := by
  unfold setSlot
  dsimp only
  rw [List.set_set]

theorem importEnabled_setSlot (hfree : s.slot? fd = some .unused) (hoff : h.enabled = false)
    {enabled : Bool} (hread : value.get (utf8 "enabled") = some (.bool enabled))
    : (s.setSlot fd (.perfEvent h)).importEnabled value fd
        =
      some (some 0, s.setSlot fd (.perfEvent { h with enabled := enabled })) := by
  have hslot : (s.setSlot fd (.perfEvent h)).slot? fd = some (.perfEvent h) := by
    rw [slot?_setSlot hfree, if_pos rfl]
  unfold importEnabled
  rw [hread]
  simp only [Option.bind_eq_bind, Option.bind_some, Json.asBool, reading]
  cases enabled with
  | false =>
    rw [if_neg (by simp), ← hoff]
  | true =>
    rw [if_pos rfl]
    unfold perfEventEnable isPerfFd holds setEnabled
    rw [hslot]
    simp only [Option.map_some, Handler.kind, BEq.rfl, if_true]
    rw [setSlot_setSlot]

theorem importStep_tracepoint {pid tracepointId : Int32} (hfree : s.slot? fd = some .unused)
    (hvalue : handlerToJson (.perfEvent h) = some value) (htype : h.type = PERF_TYPE_TRACEPOINT)
    (hdata : h.data = .tracepoint pid tracepointId)
    : s.importStep env sur fd value = some (s.setSlot fd (.perfEvent h)) := by
  rcases perfEvent_read h hvalue with ⟨hkind, hattr, henabled⟩
  have hread : attrNumber value "type" = some PERF_TYPE_TRACEPOINT.toInt ∧
      attrNumber value "pid" = some pid.toInt ∧
      attrNumber value "tracepoint_id" = some tracepointId.toInt := by
    rw [attrNumber_of_attr hattr, attrNumber_of_attr hattr, attrNumber_of_attr hattr]
    unfold bpfPerfEventHandlerAttrToJson bpfPerfEventHandlerAttrToJson.data
    rw [hdata, htype]
    simp [Json.get_ofPairs, OrderedMap.get?, utf8_inj, Json.asNumber]
  rcases hread with ⟨hread, hpid, hid⟩
  apply importStep_of_zero
  rw [importShmHandlerFromJson_of_type hkind, if_neg (by simp), if_neg (by simp), if_pos rfl]
  unfold importPerfEvent
  rw [hread, hpid, hid]
  simp only [reading, Int32.ofInt_toInt]
  rw [if_neg (by decide), if_neg (by decide), if_pos trivial]
  unfold addTracepoint
  rw [orFake_of_slot? hfree,
    setHandler_of_free hfree (by simp [Handler.kind]) (by simp [Handler.kind])]
  simp only [andThen]
  rw [importEnabled_setSlot _ hfree rfl henabled]
  rcases h with ⟨type, enabled, data⟩
  subst htype hdata
  rfl

theorem importStep_of_not_tracepoint (hvalue : handlerToJson (.perfEvent h) = some value)
    (hdata : ∀ pid tracepointId, h.data ≠ .tracepoint pid tracepointId)
    : s.importStep env sur fd value = none := by
  rcases perfEvent_read h hvalue with ⟨hkind, hattr, _⟩
  have hmissing : attrNumber value "tracepoint_id" = none := by
    rw [attrNumber_of_attr hattr]
    unfold bpfPerfEventHandlerAttrToJson bpfPerfEventHandlerAttrToJson.data
    cases hd : h.data with
    | tracepoint pid tracepointId => exact absurd hd (hdata pid tracepointId)
    | _ => simp [Json.get_ofPairs, OrderedMap.get?, utf8_inj, Json.asNumber]
  apply importStep_of_thrown
  rw [importShmHandlerFromJson_of_type hkind, if_neg (by simp), if_neg (by simp), if_pos rfl]
  unfold importPerfEvent
  rw [hmissing]
  unfold reading
  split
  next => rfl
  next =>
    split <;> rfl

end PerfEvent

section Link

variable (h : BpfLinkHandler)

theorem link_read (hvalue : handlerToJson (.link h) = some value)
    : value.get (utf8 "type") = some (.string (utf8 "bpf_link_handler")) ∧
        attrNumber value "prog_fd" = some h.progId.toInt ∧
        attrNumber value "target_fd" = some h.attachTargetId.toInt := by
  cases hvalue
  simp [Json.get_ofPairs, OrderedMap.get?, utf8_inj, attrNumber, attrOf, Json.asNumber]

theorem importStep_link (hfree : s.slot? fd = some .unused)
    (hvalue : handlerToJson (.link h) = some value)
    : s.importStep env sur fd value
        =
      some (if s.isProgFd h.progId then s.setSlot fd (.link { h with attachCookie := none })
        else s) := by
  rcases link_read h hvalue with ⟨hkind, hprog, htarget⟩
  apply importStep_of_zero
  rw [importShmHandlerFromJson_of_type hkind, if_neg (by simp), if_neg (by simp),
    if_neg (by simp), if_pos rfl]
  unfold importLink
  rw [hprog, htarget]
  simp only [reading]
  unfold addBpfLink BpfLinkHandler.ofArgs
  dsimp only
  rw [toInt32_ofInt_toInt, toInt32_ofInt_toInt, orFake_of_slot? hfree]
  by_cases hfound : s.isProgFd h.progId = true
  . rw [if_pos hfound, if_pos hfound,
      setHandler_of_free hfree (by simp [Handler.kind]) (by simp [Handler.kind])]
    rfl
  . rw [if_neg hfound, if_neg hfound]
    rfl

end Link

end BpftimeShm

end Bpftime.Shm
