import Bpftime.BpfMap.GpuArray.Impl
import Mathlib.Algebra.Group.Nat.Defs

/-!
This module contains the exchange between the device threads that call a map helper and the watcher
of the host, one load, store, copy, atomic or turn of the lane loop at a time.
-/

namespace Bpftime.Cuda

open GpuArray (Dim3)

inductive HelperOperation where
  | mapLookup
  | mapUpdate
  | mapDelete
  deriving DecidableEq, Repr

def HelperOperation.code : HelperOperation → Int32
  | .mapLookup => 1
  | .mapUpdate => 2
  | .mapDelete => 3

def BPF_MAP_TYPE_PERGPUTD_ARRAY_MAP : Int32 := 1502

def BPF_MAP_TYPE_GPU_ARRAY_MAP : Int32 := 1503

structure MapBasicInfo where
  keySize : ℕ
  valueSize : ℕ
  mapType : Int32

structure Request where
  op : HelperOperation
  map : UInt64
  key : ℕ → UInt8
  value : ℕ → UInt8
  flags : UInt64

def Request.asksHost (info : UInt64 → MapBasicInfo) (r : Request) : Prop :=
  r.op = .mapDelete ∨
    ((info r.map).mapType ≠ BPF_MAP_TYPE_PERGPUTD_ARRAY_MAP ∧
      (info r.map).mapType ≠ BPF_MAP_TYPE_GPU_ARRAY_MAP)

instance (info : UInt64 → MapBasicInfo) (r : Request) : Decidable (r.asksHost info) :=
  inferInstanceAs (Decidable (_ ∨ _))

structure HelperCallResponse where
  low : UInt32
  high : UInt32
  deriving DecidableEq, Repr

namespace HelperCallResponse

def value (r : HelperCallResponse) : UInt64 := r.high.toUInt64 <<< 32 ||| r.low.toUInt64

def ofValue (v : UInt64) : HelperCallResponse where
  low := v.toUInt32
  high := (v >>> 32).toUInt32

def read (r : HelperCallResponse) : HelperOperation → UInt64
  | .mapLookup => r.value
  | .mapUpdate | .mapDelete => r.low.toInt32.toInt64.toUInt64

def store (r : HelperCallResponse) (result : UInt64) : HelperOperation → HelperCallResponse
  | .mapLookup => .ofValue result
  | .mapUpdate | .mapDelete => { r with low := result.toUInt32 }

end HelperCallResponse

structure CommSharedMem where
  flag1 : Int32
  flag2 : Int32
  occupyFlag : Int32
  requestId : Int32
  mapId : Int64
  reqKey : ℕ → UInt8
  reqValue : ℕ → UInt8
  reqFlags : UInt64
  resp : HelperCallResponse

def REQUEST_BYTES : ℕ := 2 ^ 30

def simpleMemcpy (dst src : ℕ → UInt8) (sz : ℕ) : ℕ → UInt8 := fun i => if i < sz then src i else dst i

structure Call where
  id : ℕ
  thread : ℕ
  request : Request

inductive Thread where
  | idle
  | copyKey (c : Call)
  | copyValue (c : Call)
  | storeFlags (c : Call)
  /-- At the head of the lane loop, with `my_resp` as it was initialized. -/
  | lane (c : Call) (activeLane : ℕ)
  | spinLock (c : Call)
  | storeRequestId (c : Call)
  | storeMapId (c : Call)
  | storeFlag1 (c : Call)
  | spinWait (c : Call)
  | clearFlag2 (c : Call)
  | readResp (c : Call)
  | spinUnlock (c : Call) (resp : HelperCallResponse)
  /-- At the head of the lane loop again, once its own lane has had its turn. -/
  | rejoin (c : Call) (activeLane : ℕ) (resp : HelperCallResponse)

structure Place where
  blockDim : Dim3
  threadIdx : Dim3

namespace Place

def laneId (p : Place) : ℕ := (p.threadIdx.x &&& 31).toNat

/--
The lane of the thread in its warp: the threads of a block are numbered with `x` running fastest.
-/
def hardwareLane (p : Place) : ℕ :=
  (p.threadIdx.x.toNat +
    p.blockDim.x.toNat * (p.threadIdx.y.toNat + p.blockDim.y.toNat * p.threadIdx.z.toNat)) % 32

end Place

inductive Watcher where
  | poll
  | clearFlag1
  | loadRequestId
  | loadMapId (reqId : Int32)
  | loadFlags (mapFd : Int64)
  | execute (op : HelperOperation) (mapFd : Int64) (flags : UInt64)
  | storeResp (op : HelperOperation) (result : UInt64)
  | storeFlag2

structure Execution where
  op : HelperOperation
  mapFd : Int64
  key : List UInt8
  value : List UInt8
  flags : UInt64
  result : UInt64
  deriving DecidableEq, Repr

structure Host (η : Type) where
  info : UInt64 → MapBasicInfo
  exec : η → HelperOperation → Int64 → List UInt8 → List UInt8 → UInt64 → UInt64 × η
  place : ℕ → Place

structure State (η : Type) where
  mem : CommSharedMem
  threads : ℕ → Thread
  watcher : Watcher
  maps : η
  nextId : ℕ
  issued : List Call
  executed : List Execution
  returned : List (Call × UInt64)

inductive Op where
  | call (t : ℕ) (r : Request)
  | thread (t : ℕ)
  | lane (t : ℕ) (activeMask : UInt32)
  | watcher

def Op.isWatcher : Op → Bool
  | .watcher => true
  | _ => false

def Op.isThread (t : ℕ) : Op → Bool
  | .thread u | .lane u _ => u == t
  | _ => false

def bytes (n : ℕ) (f : ℕ → UInt8) : List UInt8 := (List.range n).map f

namespace State

variable {η : Type}

def setThread (s : State η) (t : ℕ) (th : Thread) : State η :=
  { s with threads := Function.update s.threads t th }

def initial (maps : η) : State η where
  mem :=
    { flag1 := 0, flag2 := 0, occupyFlag := 0, requestId := 0, mapId := 0,
      reqKey := fun _ => 0, reqValue := fun _ => 0, reqFlags := 0, resp := ⟨0, 0⟩ }
  threads := fun _ => .idle
  watcher := .poll
  maps := maps
  nextId := 0
  issued := []
  executed := []
  returned := []

def call (h : Host η) (s : State η) (t : ℕ) (r : Request) : Option (State η) :=
  match s.threads t with
  | .idle =>
    if r.asksHost h.info then
      some { s.setThread t (.copyKey ⟨s.nextId, t, r⟩) with nextId := s.nextId + 1 }
    else
      none
  | _ => none

def threadStep (h : Host η) (s : State η) (t : ℕ) : Option (State η) :=
  match s.threads t with
  | .idle | .lane _ _ | .rejoin _ _ _ => none
  | .copyKey c =>
    let sz := (h.info c.request.map).keySize
    if sz ≤ REQUEST_BYTES then
      let next := if c.request.op = .mapUpdate then .copyValue c else .lane c 0
      some { s.setThread t next with
        mem := { s.mem with reqKey := simpleMemcpy s.mem.reqKey c.request.key sz } }
    else
      none
  | .copyValue c =>
    let sz := (h.info c.request.map).valueSize
    if sz ≤ REQUEST_BYTES then
      some { s.setThread t (.storeFlags c) with
        mem := { s.mem with reqValue := simpleMemcpy s.mem.reqValue c.request.value sz } }
    else
      none
  | .storeFlags c =>
    some { s.setThread t (.lane c 0) with mem := { s.mem with reqFlags := c.request.flags } }
  | .spinLock c =>
    let old := s.mem.occupyFlag
    let next := if old = 1 then .spinLock c else .storeRequestId c
    some { s.setThread t next with
      mem := { s.mem with occupyFlag := if old = 0 then 1 else old } }
  | .storeRequestId c =>
    some { s.setThread t (.storeMapId c) with
      mem := { s.mem with requestId := c.request.op.code } }
  | .storeMapId c =>
    some { s.setThread t (.storeFlag1 c) with
      mem := { s.mem with mapId := c.request.map.toInt64 } }
  | .storeFlag1 c =>
    some { s.setThread t (.spinWait c) with
      mem := { s.mem with flag1 := 1 }, issued := s.issued ++ [c] }
  | .spinWait c =>
    some (s.setThread t (if s.mem.flag2 = 0 then .spinWait c else .clearFlag2 c))
  | .clearFlag2 c =>
    some { s.setThread t (.readResp c) with mem := { s.mem with flag2 := 0 } }
  | .readResp c => some (s.setThread t (.spinUnlock c s.mem.resp))
  | .spinUnlock c resp =>
    some { s.setThread t (.rejoin c ((h.place t).laneId + 1) resp) with
      mem := { s.mem with occupyFlag := 0 } }

def helperReturn (s : State η) (t : ℕ) (c : Call) (resp : HelperCallResponse) : State η :=
  { s.setThread t .idle with returned := s.returned ++ [(c, resp.read c.request.op)] }

-- `__syncwarp` only delays the next step of the thread.
def laneStep (h : Host η) (s : State η) (t : ℕ) (activeMask : UInt32) : Option (State η) :=
  -- the mask that `__activemask` returns has the bit of the thread itself
  if activeMask.toNat.testBit (h.place t).hardwareLane then
    match s.threads t with
    | .lane c activeLane =>
      if activeLane < 32 then
        let laneIsActive := activeMask.toNat.testBit activeLane
        let next := if laneIsActive ∧ (h.place t).laneId = activeLane then
          .spinLock c else .lane c (activeLane + 1)
        some (s.setThread t next)
      else
        some (s.helperReturn t c ⟨0, 0⟩)
    | .rejoin c activeLane resp =>
      if activeLane < 32 then
        some (s.setThread t (.rejoin c (activeLane + 1) resp))
      else
        some (s.helperReturn t c resp)
    | _ => none
  else
    none

def execution (h : Host η) (s : State η) (op : HelperOperation) (mapFd : Int64) (flags : UInt64)
    (result : UInt64) : Execution where
  op := op
  mapFd := mapFd
  key := bytes (h.info mapFd.toUInt64).keySize s.mem.reqKey
  value := if op = .mapUpdate then bytes (h.info mapFd.toUInt64).valueSize s.mem.reqValue else []
  flags := flags
  result := result

def watcherStep (h : Host η) (s : State η) : State η :=
  match s.watcher with
  | .poll => { s with watcher := if s.mem.flag1 = 1 then .clearFlag1 else .poll }
  | .clearFlag1 => { s with watcher := .loadRequestId, mem := { s.mem with flag1 := 0 } }
  | .loadRequestId => { s with watcher := .loadMapId s.mem.requestId }
  | .loadMapId reqId =>
    let mapFd := s.mem.mapId
    if reqId = HelperOperation.mapLookup.code then
      { s with watcher := .execute .mapLookup mapFd 0 }
    else if reqId = HelperOperation.mapUpdate.code then
      { s with watcher := .loadFlags mapFd }
    else if reqId = HelperOperation.mapDelete.code then
      { s with watcher := .execute .mapDelete mapFd 0 }
    else
      -- the other requests do not touch the maps
      { s with watcher := .storeFlag2 }
  | .loadFlags mapFd => { s with watcher := .execute .mapUpdate mapFd s.mem.reqFlags }
  | .execute op mapFd flags =>
    let e := s.execution h op mapFd flags 0
    let (result, maps) := h.exec s.maps op mapFd e.key e.value flags
    { s with
      watcher := .storeResp op result, maps := maps,
      executed := s.executed ++ [s.execution h op mapFd flags result] }
  | .storeResp op result =>
    { s with watcher := .storeFlag2, mem := { s.mem with resp := s.mem.resp.store result op } }
  | .storeFlag2 => { s with watcher := .poll, mem := { s.mem with flag2 := 1 } }

def step (h : Host η) (s : State η) : Op → Option (State η)
  | .call t r => s.call h t r
  | .thread t => s.threadStep h t
  | .lane t activeMask => s.laneStep h t activeMask
  | .watcher => some (s.watcherStep h)

end State

end Bpftime.Cuda
