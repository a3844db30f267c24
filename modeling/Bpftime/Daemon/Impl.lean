import Bpftime.Data.ByteMem
import Bpftime.Shm.Impl

namespace Bpftime.Daemon

open Shm

def getPidFdKey (pid fd : Int32) : UInt64 :=
  (pid.toInt64.toUInt64 <<< 32) ||| fd.toInt64.toUInt64

def EBPF_OP_LDDW : UInt8 := 0x18

def code (inst : EbpfInst) : UInt8 := inst[0]

def srcReg (inst : EbpfInst) : UInt8 := inst[1] >>> 4

def imm (inst : EbpfInst) : Int32 := (ByteMem.decode32 (inst.toList.drop 4)).toInt32

def withImm (inst : EbpfInst) (imm : Int32) : EbpfInst :=
  ⟨(inst.toList.take 4 ++ ByteMem.encode32 imm.toUInt32).toArray, by simp⟩

def getBpfObjIdFromPidFd (bpfFdMap : UInt64 → Option Int32) (pid fd : Int32) : Int32 :=
  (bpfFdMap (getPidFdKey pid fd)).getD (-1)

def relocateInst (bpfFdMap : UInt64 → Option Int32) (pid : Int32) (inst : EbpfInst)
    : Option EbpfInst :=
  if code inst = EBPF_OP_LDDW ∧ (srcReg inst = 1 ∨ srcReg inst = 2) then
    let mapId := getBpfObjIdFromPidFd bpfFdMap pid (imm inst)
    if mapId < 0 then none else some (withImm inst mapId)
  else
    some inst

structure BpfMapInfo where
  name : CString
  type : UInt32
  keySize : UInt32
  valueSize : UInt32
  maxEntries : UInt32
  mapFlags : UInt32
  btfId : UInt32
  btfKeyTypeId : UInt32
  btfValueTypeId : UInt32
  btfVmlinuxValueTypeId : UInt32
  ifindex : UInt32

def KERNEL_USER_MAP_OFFSET : UInt32 := 1000

def BpfMapInfo.attr (info : BpfMapInfo) (kernelId : Int32) : BpfMapAttr where
  type := (info.type + KERNEL_USER_MAP_OFFSET).toInt32
  keySize := info.keySize
  valueSize := info.valueSize
  maxEnts := info.maxEntries
  flags := info.mapFlags.toUInt64
  kernelBpfMapId := kernelId.toUInt32
  btfId := info.btfId
  btfKeyTypeId := info.btfKeyTypeId
  btfValueTypeId := info.btfValueTypeId
  btfVmlinuxValueTypeId := info.btfVmlinuxValueTypeId
  ifindex := info.ifindex

structure BpfProgInfo where
  name : CString
  nrMapIds : UInt32

structure MapAnswers where
  fd : Int32
  info : Option BpfMapInfo
  /-- What `open_fake_fd` returns, should it be called. -/
  fake : Int32

structure ProgAnswers where
  fd : Int32
  info : Option BpfProgInfo
  insns : Option (List EbpfInst)
  bpfFdMap : UInt64 → Option Int32
  /-- The maps of the program, each with the answers while it is created. -/
  mapIds : Option (List (UInt32 × MapAnswers))
  fake : Int32
  /-- What is found in the type of the program, which its constructor does not set. -/
  unset : Int32

def relocateBpfProgInsns (answers : ProgAnswers) (pid : Int32) : Option (List EbpfInst) := do
  let insns ← answers.insns
  insns.mapM (relocateInst answers.bpfFdMap pid)

structure Driver where
  shm : BpftimeShm
  pidFdToIdMap : UInt64 → Option Int32

namespace Driver

def construct (maxFdCount : Nat) : Driver where
  shm := .construct maxFdCount
  pidFdToIdMap := fun _ => none

def checkAndGetPidFd (d : Driver) (pid fd : Int32) : Int32 :=
  (d.pidFdToIdMap (getPidFdKey pid fd)).getD (-1)

def record (d : Driver) (pid fd id : Int32) : Driver :=
  { d with pidFdToIdMap := Function.update d.pidFdToIdMap (getPidFdKey pid fd) (some id) }

def onShm (d : Driver) (f : BpftimeShm → Option (Outcome × BpftimeShm))
    : Option (Outcome × Driver) :=
  (f d.shm).map fun (o, shm) => (o, { d with shm := shm })

def checked (result : Option (Outcome × Driver)) (next : Driver → Option (Outcome × Driver))
    : Option (Outcome × Driver) :=
  match result with
  | none => none
  | some (.thrown, d) => some (.thrown, d)
  | some (.ret res errno, d) => if res < 0 then some (.ret (-1) errno, d) else next d

def bpftimeMapsCreateServer (env : Env) (d : Driver) (answers : MapAnswers) (kernelId : Int32)
    : Option (Outcome × Driver) :=
  if answers.fd < 0 then
    some (.ret (-1) none, d)
  else
    match answers.info with
    | none => some (.ret (-1) none, d)
    | some info =>
      if d.shm.isMapFd kernelId then
        some (.ret 0 none, d)
      else
        checked (d.onShm fun s =>
            s.addBpfMap env answers.fake kernelId info.name (info.attr kernelId)) fun d =>
          some (.ret kernelId none, d)

def createRelatedMaps (env : Env) (d : Driver)
    : List (UInt32 × MapAnswers) → Option (Outcome × Driver)
  | [] => some (.ret 0 none, d)
  | (mapId, answers) :: mapIds =>
    if d.shm.isMapFd mapId.toInt32 then
      d.createRelatedMaps env mapIds
    else
      checked (d.bpftimeMapsCreateServer env answers mapId.toInt32)
        fun d => d.createRelatedMaps env mapIds

def checkAndCreateProgRelatedMaps (env : Env) (d : Driver) (info : BpfProgInfo)
    (mapIds : Option (List (UInt32 × MapAnswers))) : Option (Outcome × Driver) :=
  match mapIds with
  | none => some (.ret (-1) none, d)
  | some mapIds =>
    if info.nrMapIds.toNat = mapIds.length then d.createRelatedMaps env mapIds else none

def bpftimeProgsCreateServer (env : Env) (d : Driver) (answers : ProgAnswers)
    (kernelId serverPid : Int32) : Option (Outcome × Driver) :=
  if answers.fd < 0 then
    some (.ret (-1) none, d)
  else
    match answers.info with
    | none => some (.ret (-1) none, d)
    | some info =>
      if d.shm.isProgFd kernelId then
        some (.ret 0 none, d)
      else
        match relocateBpfProgInsns answers serverPid with
        | none => some (.ret (-1) none, d)
        | some buffer =>
          checked (d.onShm fun s =>
              s.addBpfProg env answers.fake kernelId buffer info.name answers.unset) fun d =>
            checked (d.checkAndCreateProgRelatedMaps env info answers.mapIds) fun d =>
              some (.ret kernelId none, d)

def attachPerfToBpf (env : Env) (d : Driver) (fake perfId kernelBpfId : Int32)
    : Option (Outcome × Driver) :=
  checked (d.onShm fun s => s.attachPerfToBpf env fake perfId kernelBpfId none)
    fun d => some (.ret 0 none, d)

def bpftimeAttachPerfToBpfServer (env : Env) (d : Driver) (answers : ProgAnswers) (fake : Int32)
    (serverPid perfFd kernelBpfId : Int32) : Option (Outcome × Driver) :=
  let perfId := d.checkAndGetPidFd serverPid perfFd
  if perfId < 0 then
    some (.ret (-1) none, d)
  else if d.shm.isProgFd kernelBpfId then
    d.attachPerfToBpf env fake perfId kernelBpfId
  else
    checked (d.bpftimeProgsCreateServer env answers kernelBpfId serverPid)
      fun d => d.attachPerfToBpf env fake perfId kernelBpfId

def bpftimeAttachPerfToBpfFdServer (env : Env) (d : Driver) (answers : ProgAnswers) (fake : Int32)
    (serverPid perfFd bpfProgFd : Int32) : Option (Outcome × Driver) :=
  let progId := getBpfObjIdFromPidFd answers.bpfFdMap serverPid bpfProgFd
  if progId < 0 then
    some (.ret (-1) none, d)
  else
    d.bpftimeAttachPerfToBpfServer env answers fake serverPid perfFd progId

def bpftimeUprobeCreateServer (env : Env) (d : Driver) (fake serverPid fd targetPid : Int32)
    (name : CString) (offset : UInt64) (retprobe : Bool) (refCtrOff : UInt64)
    : Option (Outcome × Driver) :=
  let id := d.shm.findMinimalUnusedIdx
  if id < 0 then
    some (.ret (-1) none, d)
  else
    checked (d.onShm fun s => s.addUprobe env fake id targetPid name offset retprobe refCtrOff)
      fun d => some (.ret id none, d.record serverPid fd id)

def bpftimePerfEventEnableServer (d : Driver) (serverPid fd : Int32) : Option (Outcome × Driver) :=
  let fdId := d.checkAndGetPidFd serverPid fd
  if fdId < 0 then
    some (.ret 0 none, d)
  else
    checked (d.onShm fun s => some (s.perfEventEnable fdId)) fun d => some (.ret 0 none, d)

def bpftimePerfEventDisableServer (d : Driver) (serverPid fd : Int32) : Option (Outcome × Driver) :=
  let fdId := d.checkAndGetPidFd serverPid fd
  if fdId < 0 then
    some (.ret (-1) none, d)
  else
    checked (d.onShm fun s => some (s.perfEventDisable fdId)) fun d => some (.ret 0 none, d)

def bpftimeCloseServer (env : Env) (d : Driver) (serverPid fd : Int32) : Option Driver :=
  let fdId := d.checkAndGetPidFd serverPid fd
  if fdId < 0 then
    some d
  else
    (d.shm.closeFd env fdId).map fun shm =>
      { shm := shm
        pidFdToIdMap := Function.update d.pidFdToIdMap (getPidFdKey serverPid fd) none }

def bpftimeBtfLoadServer (d : Driver) (serverPid fd : Int32) : Outcome × Driver :=
  let id := d.shm.findMinimalUnusedIdx
  if id < 0 then
    (.ret (-1) none, d)
  else
    (.ret 0 none, d.record serverPid fd id)

end Driver

inductive Op where
  | uprobeCreate (fake serverPid fd targetPid : Int32) (name : CString) (offset : UInt64)
      (retprobe : Bool) (refCtrOff : UInt64)
  | progsCreate (answers : ProgAnswers) (kernelId serverPid : Int32)
  | mapsCreate (answers : MapAnswers) (kernelId : Int32)
  | attachPerfToBpf (answers : ProgAnswers) (fake serverPid perfFd kernelBpfId : Int32)
  | attachPerfToBpfFd (answers : ProgAnswers) (fake serverPid perfFd bpfProgFd : Int32)
  | perfEventEnable (serverPid fd : Int32)
  | perfEventDisable (serverPid fd : Int32)
  | btfLoad (serverPid fd : Int32)
  | close (serverPid fd : Int32)

namespace Driver

def call (env : Env) (d : Driver) : Op → Option (Outcome × Driver)
  | .uprobeCreate fake serverPid fd targetPid name offset retprobe refCtrOff =>
    d.bpftimeUprobeCreateServer env fake serverPid fd targetPid name offset retprobe refCtrOff
  | .progsCreate answers kernelId serverPid =>
    d.bpftimeProgsCreateServer env answers kernelId serverPid
  | .mapsCreate answers kernelId => d.bpftimeMapsCreateServer env answers kernelId
  | .attachPerfToBpf answers fake serverPid perfFd kernelBpfId =>
    d.bpftimeAttachPerfToBpfServer env answers fake serverPid perfFd kernelBpfId
  | .attachPerfToBpfFd answers fake serverPid perfFd bpfProgFd =>
    d.bpftimeAttachPerfToBpfFdServer env answers fake serverPid perfFd bpfProgFd
  | .perfEventEnable serverPid fd => d.bpftimePerfEventEnableServer serverPid fd
  | .perfEventDisable serverPid fd => d.bpftimePerfEventDisableServer serverPid fd
  | .btfLoad serverPid fd => some (d.bpftimeBtfLoadServer serverPid fd)
  | .close serverPid fd => (d.bpftimeCloseServer env serverPid fd).map fun d => (.ret 0 none, d)

end Driver

end Bpftime.Daemon
