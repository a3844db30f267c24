import Bpftime.Data.Json
import Bpftime.Data.Numeral
import Bpftime.Shm.Impl

namespace Bpftime.Shm

open Numeral

def cStr (s : List UInt8) : CString := s.takeWhile (· != 0)

def bufferToHexString (buffer : List UInt8) : List UInt8 := buffer.flatMap hexByte

def hexStringToBuffer (hexString : List UInt8) (bufferSize : ℕ) : Option (Int32 × List UInt8) :=
  if hexString.length ≠ bufferSize * 2 then
    some (-1, [])
  else
    (go bufferSize hexString).map fun buffer => (0, buffer)
where
  go : ℕ → List UInt8 → Option (List UInt8)
  | 0, _ => some []
  | n + 1, s => do
    let v ← stoi 16 (s.take 2)
    let buffer ← go n (s.drop 2)
    return v.toUInt32.toUInt8 :: buffer

def bytesOfInsts (insns : List EbpfInst) : List UInt8 := insns.flatMap Vector.toList

def instsOfBytes : ℕ → List UInt8 → List EbpfInst
  | 0, _ => []
  | n + 1, bytes => Vector.ofFn (fun i => bytes.getD i 0) :: instsOfBytes n (bytes.drop 8)

def bpfMapAttrToJson (attr : BpfMapAttr) : Json := .ofPairs [
  (utf8 "map_type", .number attr.type.toInt),
  (utf8 "key_size", .number attr.keySize.toNat),
  (utf8 "value_size", .number attr.valueSize.toNat),
  (utf8 "max_entries", .number attr.maxEnts.toNat),
  (utf8 "flags", .number attr.flags.toNat),
  (utf8 "ifindex", .number attr.ifindex.toNat),
  (utf8 "btf_vmlinux_value_type_id", .number attr.btfVmlinuxValueTypeId.toNat),
  (utf8 "btf_id", .number attr.btfId.toNat),
  (utf8 "btf_key_type_id", .number attr.btfKeyTypeId.toNat),
  (utf8 "btf_value_type_id", .number attr.btfValueTypeId.toNat),
  (utf8 "map_extra", .number attr.mapExtra.toNat),
  (utf8 "kernel_bpf_map_id", .number attr.kernelBpfMapId.toNat)]

def constNumber (j : Json) (key : String) : OptionT Option ℤ :=
  match j with
  | .object members => .mk ((OrderedMap.get? (utf8 key) members).map Json.asNumber)
  | _ => .mk (some none)

def jsonToBpfMapAttr (j : Json) : OptionT Option BpfMapAttr := do
  let type ← constNumber j "map_type"
  let keySize ← constNumber j "key_size"
  let valueSize ← constNumber j "value_size"
  let maxEnts ← constNumber j "max_entries"
  let flags ← constNumber j "flags"
  let ifindex ← constNumber j "ifindex"
  let btfVmlinuxValueTypeId ← constNumber j "btf_vmlinux_value_type_id"
  let btfId ← constNumber j "btf_id"
  let btfKeyTypeId ← constNumber j "btf_key_type_id"
  let btfValueTypeId ← constNumber j "btf_value_type_id"
  let mapExtra ← constNumber j "map_extra"
  let kernelBpfMapId ← constNumber j "kernel_bpf_map_id"
  return {
    type := .ofInt type, keySize := .ofInt keySize, valueSize := .ofInt valueSize,
    maxEnts := .ofInt maxEnts, flags := .ofInt flags, ifindex := .ofInt ifindex,
    btfVmlinuxValueTypeId := .ofInt btfVmlinuxValueTypeId, btfId := .ofInt btfId,
    btfKeyTypeId := .ofInt btfKeyTypeId, btfValueTypeId := .ofInt btfValueTypeId,
    mapExtra := .ofInt mapExtra, kernelBpfMapId := .ofInt kernelBpfMapId }

def bpfPerfEventHandlerAttrToJson (handler : BpfPerfEventHandler) : Json :=
  .ofPairs ((utf8 "type", .number handler.type.toInt) :: data)
where
  data : List (List UInt8 × Json) :=
    match handler.data with
    | .uprobe offset pid refCtrOff moduleName => [
      (utf8 "data_type", .string (utf8 "uprobe_perf_event_data")),
      (utf8 "offset", .number offset.toNat),
      (utf8 "pid", .number pid.toInt),
      (utf8 "ref_ctr_off", .number refCtrOff.toNat),
      (utf8 "_module_name", .string moduleName)]
    | .tracepoint pid tracepointId => [
      (utf8 "data_type", .string (utf8 "tracepoint_perf_event_data")),
      (utf8 "pid", .number pid.toInt),
      (utf8 "tracepoint_id", .number tracepointId.toInt)]
    | .software cpu config sampleType => [
      (utf8 "data_type", .string (utf8 "software_perf_event_shared_ptr")),
      (utf8 "cpu", .number cpu.toInt),
      (utf8 "config", .number config.toInt),
      (utf8 "sample_type", .number sampleType.toInt)]
    | .custom _ | .kprobe _ _ _ => []

def handlerToJson : Handler → Option Json
  | .prog h => some (.ofPairs [
    (utf8 "type", .string (utf8 "bpf_prog_handler")),
    (utf8 "attr", .ofPairs [
      (utf8 "type", .number h.type.toInt),
      (utf8 "insns", .string (bufferToHexString (bytesOfInsts h.insns))),
      (utf8 "cnt", .number h.insns.length)]),
    (utf8 "name", .string (cStr h.name))])
  | .map h => some (.ofPairs [
    (utf8 "type", .string (utf8 "bpf_map_handler")),
    (utf8 "name", .string (cStr h.name)),
    (utf8 "attr", bpfMapAttrToJson h.attr)])
  | .perfEvent h => some (.ofPairs [
    (utf8 "type", .string (utf8 "bpf_perf_event_handler")),
    (utf8 "attr", bpfPerfEventHandlerAttrToJson h),
    (utf8 "enabled", .bool h.enabled)])
  | .epoll => some (.ofPairs [(utf8 "type", .string (utf8 "epoll_handler"))])
  | .link h => some (.ofPairs [
    (utf8 "type", .string (utf8 "bpf_link_handler")),
    (utf8 "attr", .ofPairs [
      (utf8 "prog_fd", .number h.progId.toInt),
      (utf8 "target_fd", .number h.attachTargetId.toInt)])])
  | .memfd _ | .unused => none

structure Surroundings where
  fake : Int32 → ℕ → Int32
  unset : Int32 → Int32
  /-- Whether the segment has room for the name and the instructions of a program. -/
  room : Int32 → Bool

namespace BpftimeShm

def exportAt (s : BpftimeShm) (j : Json) (i : ℕ) : Option Json :=
  match s.slot? (.ofNat i) with
  | none | some .unused => some j
  | some handler => (handlerToJson handler).map fun v => j.set (numeral 10 i) v

def bpftimeExportShmToJson (lib : JsonLibrary) (s : BpftimeShm) : Option Int32 × Option lib.Text :=
  match (List.range s.handlers.length).foldlM s.exportAt .null with
  | none => (some (-1), none)
  | some j =>
    match lib.dump j with
    | none => (none, none)
    | some text => (some 0, some text)

end BpftimeShm

def attrOf (value : Json) (key : String) : Option Json := do
  let attr ← value.get (utf8 "attr")
  attr.get (utf8 key)

def attrNumber (value : Json) (key : String) : Option ℤ := do
  let j ← attrOf value key
  j.asNumber

def attrString (value : Json) (key : String) : Option (List UInt8) := do
  let j ← attrOf value key
  j.asString

def nameOf (value : Json) : Option (List UInt8) := do
  let j ← value.get (utf8 "name")
  j.asString

namespace BpftimeShm

variable {α : Type}

def reading (s : BpftimeShm) (r : Option α) (k : α → Option (Option Int32 × BpftimeShm))
    : Option (Option Int32 × BpftimeShm) :=
  match r with
  | none => some (none, s)
  | some a => k a

def andThen (r : Option (Outcome × BpftimeShm))
    (k : BpftimeShm → Option (Option Int32 × BpftimeShm)) : Option (Option Int32 × BpftimeShm) :=
  match r with
  | none => none
  | some (.thrown, s) => some (none, s)
  | some (.ret _ _, s) => k s

def importAttachFds (env : Env) (sur : Surroundings) (fd : Int32)
    : List Json → ℕ → BpftimeShm → Option (Option Int32 × BpftimeShm)
  | [], _, s => some (some 0, s)
  | j :: js, k, s =>
    s.reading j.asNumber fun perfFd =>
      andThen (s.addBpfProgAttachTarget env (sur.fake fd k) (.ofInt perfFd) fd none) fun s =>
        importAttachFds env sur fd js (k + 1) s

def importProg (env : Env) (sur : Surroundings) (s : BpftimeShm) (value : Json) (fd : Int32)
    : Option (Option Int32 × BpftimeShm) :=
  s.reading (attrString value "insns") fun insnsStr =>
  s.reading (nameOf value) fun name =>
  -- the constructor of the program drops the type
  s.reading (attrNumber value "type") fun _ =>
  s.reading (attrNumber value "cnt") fun cnt =>
    let cnt := Int32.ofInt cnt
    -- a negative count is too large for `resize` once it is a `size_t`
    if cnt < 0 then
      some (none, s)
    else
      s.reading (hexStringToBuffer insnsStr (cnt.toNatClampNeg * 8)) fun (res, buffer) =>
        if res < 0 then
          some (some (-1), s)
        else if sur.room fd = false then
          some (none, s)
        else
          let insns := instsOfBytes cnt.toNatClampNeg buffer
          andThen (s.addBpfProg env (sur.fake fd 0) fd insns (cStr name) (sur.unset fd)) fun s =>
            s.reading (attrOf value "attach_fds") fun fds =>
              importAttachFds env sur fd fds.elements 1 s

def importMap (env : Env) (sur : Surroundings) (s : BpftimeShm) (value : Json) (fd : Int32)
    : Option (Option Int32 × BpftimeShm) :=
  s.reading (nameOf value) fun name =>
  s.reading (value.get (utf8 "attr")) fun j =>
    match (jsonToBpfMapAttr j).run with
    | none => none
    | some attr =>
      s.reading attr fun attr =>
        andThen (s.addBpfMap env (sur.fake fd 0) fd (cStr name) attr) fun s => some (some 0, s)

def importEnabled (s : BpftimeShm) (value : Json) (fd : Int32)
    : Option (Option Int32 × BpftimeShm) :=
  s.reading (do (← value.get (utf8 "enabled")).asBool) fun enabled =>
    some (some 0, if enabled then (s.perfEventEnable fd).2 else s)

def importUprobe (env : Env) (sur : Surroundings) (retprobe : Bool) (s : BpftimeShm) (value : Json)
    (fd pid : Int32) : Option (Option Int32 × BpftimeShm) :=
  s.reading (attrNumber value "ref_ctr_off") fun refCtrOff =>
  s.reading (attrNumber value "offset") fun offset =>
  s.reading (attrString value "_module_name") fun moduleName =>
    -- both are read as an `int` and widened again
    let offset := (Int32.ofInt offset).toInt64.toUInt64
    let refCtrOff := (Int32.ofInt refCtrOff).toInt64.toUInt64
    andThen
      (s.addUprobe env (sur.fake fd 0) fd pid (cStr moduleName) offset retprobe refCtrOff)
      fun s => s.importEnabled value fd

def importUprobeOverride (env : Env) (sur : Surroundings) (s : BpftimeShm) (value : Json)
    (fd pid : Int32) : Option (Option Int32 × BpftimeShm) :=
  s.reading (attrNumber value "offset") fun offset =>
  s.reading (attrString value "_module_name") fun moduleName =>
    let offset := (Int32.ofInt offset).toInt64.toUInt64
    andThen (s.addUprobeOverride env (sur.fake fd 0) fd pid (cStr moduleName) offset false)
      fun s => s.importEnabled value fd

def importSoftware (env : Env) (s : BpftimeShm) (value : Json) (fd : Int32)
    : Option (Option Int32 × BpftimeShm) :=
  s.reading (attrNumber value "cpu") fun cpu =>
  s.reading (attrNumber value "sample_type") fun sampleType =>
  s.reading (attrNumber value "config") fun config =>
    andThen (s.addSoftwarePerfEvent env fd (.ofInt cpu) (.ofInt sampleType) (.ofInt config))
      fun s => s.importEnabled value fd

def importPerfEvent (env : Env) (sur : Surroundings) (s : BpftimeShm) (value : Json) (fd : Int32)
    : Option (Option Int32 × BpftimeShm) :=
  s.reading (attrNumber value "type") fun type =>
  s.reading (attrNumber value "pid") fun pid =>
  s.reading (attrNumber value "tracepoint_id") fun tracepointId =>
    let type := Int32.ofInt type
    let pid := Int32.ofInt pid
    if type = BPF_TYPE_UPROBE then
      s.importUprobe env sur false value fd pid
    else if type = BPF_TYPE_URETPROBE then
      s.importUprobe env sur true value fd pid
    else if type = PERF_TYPE_TRACEPOINT then
      andThen (s.addTracepoint env (sur.fake fd 0) fd pid (.ofInt tracepointId))
        fun s => s.importEnabled value fd
    else if type = BPF_TYPE_UPROBE_OVERRIDE then
      s.importUprobeOverride env sur value fd pid
    else if type = PERF_TYPE_SOFTWARE then
      s.importSoftware env value fd
    else
      some (some (-1), s)

def importLink (env : Env) (sur : Surroundings) (s : BpftimeShm) (value : Json) (fd : Int32)
    : Option (Option Int32 × BpftimeShm) :=
  s.reading (attrNumber value "prog_fd") fun progFd =>
  s.reading (attrNumber value "target_fd") fun targetFd =>
    andThen (s.addBpfLink env (sur.fake fd 0) fd ⟨.ofInt progFd, .ofInt targetFd⟩)
      fun s => some (some 0, s)

def importShmHandlerFromJson (env : Env) (sur : Surroundings) (s : BpftimeShm) (value : Json)
    (fd : Int32) : Option (Option Int32 × BpftimeShm) :=
  s.reading (do (← value.get (utf8 "type")).asString) fun handlerType =>
    if handlerType = utf8 "bpf_prog_handler" then
      s.importProg env sur value fd
    else if handlerType = utf8 "bpf_map_handler" then
      s.importMap env sur value fd
    else if handlerType = utf8 "bpf_perf_event_handler" then
      s.importPerfEvent env sur value fd
    else if handlerType = utf8 "bpf_link_handler" then
      s.importLink env sur value fd
    else
      some (some (-1), s)

def importItems (env : Env) (sur : Surroundings)
    : List (List UInt8 × Json) → BpftimeShm → Option (Option Int32 × BpftimeShm)
  | [], s => some (some 0, s)
  | (key, value) :: items, s =>
    s.reading (stoi 10 key) fun fd =>
      match s.importShmHandlerFromJson env sur value fd with
      | some (some res, s) => if res < 0 then some (some (-1), s) else importItems env sur items s
      | r => r

def bpftimeImportShmFromJson (lib : JsonLibrary) (env : Env) (sur : Surroundings) (s : BpftimeShm)
    (text : lib.Text) : Option (Option Int32 × BpftimeShm) :=
  s.reading (lib.parse text) fun j => importItems env sur (j.items (numeral 10)) s

end BpftimeShm

end Bpftime.Shm
