import Bpftime.PerfEvent.Copy
import Mathlib.Algebra.BigOperators.Group.List.Basic

namespace Bpftime.PerfEvent

structure Payload where
  bytes : List UInt8
  small : sizeofPerfSampleRaw + bytes.length < 65536

namespace Payload

def record (payload : Payload) : List UInt8 := recordOf payload.bytes

def copySize (payload : Payload) : UInt16 := (PerfSampleRaw.ofPayload payload.bytes).header.size

theorem toNat_copySize (payload : Payload) : payload.copySize.toNat = payload.record.length := by
  unfold copySize record
  rw [PerfSampleRaw.toNat_size_ofPayload payload.small, length_recordOf]

end Payload

def records (payloads : List Payload) : List UInt8 := payloads.flatMap Payload.record

theorem records_eq (payloads : List Payload)
    : records payloads = (payloads.map Payload.bytes).flatMap recordOf := by
  rw [List.flatMap_map]
  rfl

namespace SoftwarePerfEventData

def unreadBytes (d : SoftwarePerfEventData) : List UInt8 :=
  Circular.contents d.mmapSize.toNat d.data.byte d.header.dataTail.toNat d.used

def backlog (d : SoftwarePerfEventData) : Int :=
  (d.header.dataHead - d.header.dataTail).toInt64.toInt

theorem backlog_eq {d : SoftwarePerfEventData} (h : d.used < 2 ^ 63) : d.backlog = d.used := by
  unfold backlog
  change (d.header.dataHead - d.header.dataTail).toBitVec.toInt = _
  rw [BitVec.toInt_eq_toNat_cond, if_pos]
  . rfl
  . change 2 * d.used < 2 ^ 64
    omega

end SoftwarePerfEventData

inductive Writer where
  | idle
  | reserved (payload : Payload) (dataHead : UInt64)
  | copied (payload : Payload) (dataHead : UInt64)

structure System where
  event : SoftwarePerfEventData
  writer : Writer
  unread : List Payload

inductive Op where
  | output (payload : Payload)
  | copy
  | storeHead
  | consume (n : Nat)

namespace System

def start (d : SoftwarePerfEventData) : System where
  event := d
  writer := .idle
  unread := []

def consume (s : System) (n : Nat) : System :=
  let dataTail := s.event.header.dataTail + .ofNat (records (s.unread.take n)).length
  { s with
    event := { s.event with header := { s.event.header with dataTail } }
    unread := s.unread.drop n }

def step (s : System) : Op → Option System
  | .output payload =>
    match s.writer with
    | .idle =>
      if s.event.drops payload.bytes then
        some s
      else
        some { s with writer := .reserved payload s.event.header.dataHead }
    | _ => some s
  | .copy =>
    match s.writer with
    | .reserved payload dataHead => do
      let event ← s.event.fillCopyBuffer payload.bytes
      let event ← event.copyRecord dataHead payload.copySize
      return { s with event, writer := .copied payload dataHead }
    | _ => some s
  | .storeHead =>
    match s.writer with
    | .copied payload dataHead =>
      some {
        event := s.event.storeHead dataHead payload.copySize
        writer := .idle
        unread := s.unread ++ [payload] }
    | _ => some s
  | .consume n => some (s.consume n)

def run (s : System) (ops : List Op) : Option System := ops.foldlM step s

theorem run_call {s : System} (hidle : s.writer = .idle) (payload : Payload)
    : (s.run [.output payload, .copy, .storeHead]).map System.event
        =
      s.event.outputData payload.bytes := by
  unfold run SoftwarePerfEventData.outputData
  simp only [List.foldlM_cons, List.foldlM_nil, step, hidle]
  split
  next => simp [hidle]
  next =>
    simp only [Option.bind_eq_bind, Option.bind_some]
    cases s.event.fillCopyBuffer payload.bytes with
    | none => rfl
    | some event =>
      simp only [Option.bind_some]
      unfold Payload.copySize
      cases event.copyRecord s.event.header.dataHead
          (PerfSampleRaw.ofPayload payload.bytes).header.size with
      | none => rfl
      | some event => rfl

def WriterHolds (k : Nat) (s : System) : Prop :=
  match s.writer with
  | .idle => True
  | .reserved payload dataHead =>
    dataHead = s.event.header.dataHead ∧ s.event.used + payload.record.length < 2 ^ k
  | .copied payload dataHead =>
    dataHead = s.event.header.dataHead ∧ s.event.used + payload.record.length < 2 ^ k
      ∧ Circular.contents (2 ^ k) s.event.data.byte dataHead.toNat payload.record.length
        = payload.record

structure Holds (k : Nat) (s : System) : Prop where
  lt_64 : k < 64
  len_eq : s.event.data.len = 2 ^ k
  used_lt : s.event.used < 2 ^ k
  bytes_eq : Circular.contents (2 ^ k) s.event.data.byte s.event.header.dataTail.toNat s.event.used
    = records s.unread
  writer : s.WriterHolds k

section Words

variable {k : Nat}

theorem mod_two_pow_64_mod (hk : k < 64) (x : Nat) : x % 2 ^ 64 % 2 ^ k = x % 2 ^ k := by
  apply Nat.mod_mod_of_dvd
  exact Nat.pow_dvd_pow 2 (by omega)

theorem toNat_add_mod (hk : k < 64) (x y : UInt64)
    : (x + y).toNat % 2 ^ k = (x.toNat + y.toNat) % 2 ^ k := by
  rw [UInt64.toNat_add, mod_two_pow_64_mod hk]

theorem toNat_add_sub {x y z : UInt64} (h : (x - y).toNat + z.toNat < 2 ^ 64)
    : (x + z - y).toNat = (x - y).toNat + z.toNat := by
  have := x.toNat_lt
  have := y.toNat_lt
  rw [UInt64.toNat_sub] at h ⊢
  rw [UInt64.toNat_sub, UInt64.toNat_add]
  omega

theorem toNat_sub_add {x y z : UInt64} (h : z.toNat ≤ (x - y).toNat)
    : (x - (y + z)).toNat = (x - y).toNat - z.toNat := by
  have := x.toNat_lt
  have := y.toNat_lt
  rw [UInt64.toNat_sub] at h ⊢
  rw [UInt64.toNat_sub, UInt64.toNat_add]
  omega

theorem dataHead_mod (hk : k < 64) (d : SoftwarePerfEventData)
    : d.header.dataHead.toNat % 2 ^ k = (d.header.dataTail.toNat + d.used) % 2 ^ k := by
  unfold SoftwarePerfEventData.used
  rw [← toNat_add_mod hk, UInt64.add_comm, UInt64.sub_add_cancel]

end Words

namespace Holds

variable {k : Nat} {s : System}

theorem start {d : SoftwarePerfEventData} (hk : k < 64) (hlen : d.data.len = 2 ^ k)
    (hempty : d.header.dataHead = d.header.dataTail)
    : (System.start d).Holds k := by
  have hused : d.used = 0 := by
    unfold SoftwarePerfEventData.used
    rw [hempty, UInt64.sub_self]
    rfl
  constructor
  . exact hk
  . exact hlen
  . unfold System.start
    dsimp only
    rw [hused]
    exact Nat.two_pow_pos k
  . unfold System.start
    dsimp only
    rw [hused]
    rfl
  . trivial

theorem used_eq (h : s.Holds k) : s.event.used = (records s.unread).length := by
  rw [← h.bytes_eq, Circular.length_contents]

theorem output (h : s.Holds k) (payload : Payload)
    : ∃ s', s.step (.output payload) = some s' ∧ s'.Holds k := by
  unfold step
  dsimp only
  split
  next hidle =>
    split
    next => exact ⟨s, rfl, h⟩
    next hdrops =>
      have hroom :=
        SoftwarePerfEventData.lt_of_not_drops h.lt_64 h.len_eq h.used_lt payload.small hdrops
      refine ⟨_, rfl, h.lt_64, h.len_eq, h.used_lt, h.bytes_eq, ?_⟩
      exact ⟨rfl, hroom⟩
  next => exact ⟨s, rfl, h⟩

theorem copy (h : s.Holds k) : ∃ s', s.step .copy = some s' ∧ s'.Holds k := by
  unfold step
  dsimp only
  split
  next payload dataHead hreserved =>
    have hwriter := h.writer
    unfold WriterHolds at hwriter
    rw [hreserved] at hwriter
    rcases hwriter with ⟨hhead, hroom⟩
    rcases @SoftwarePerfEventData.fillCopyBuffer_eq s.event _ payload.small with
      ⟨copyBuffer, hfill, hcopyLen, hrecord⟩
    rcases @SoftwarePerfEventData.copyRecord_eq { s.event with copyBuffer } k h.lt_64 h.len_eq dataHead
        _ payload.record payload.toNat_copySize hcopyLen hrecord (by omega) with
      ⟨data, hcopy, hlen, hwritten⟩
    rw [hfill]
    simp only [Option.bind_eq_bind, Option.bind_some]
    rw [hcopy]
    refine ⟨_, rfl, h.lt_64, hlen, h.used_lt, ?_, hhead, hroom, hwritten.contents_self⟩
    rw [← h.bytes_eq]
    apply Circular.Written.contents_before
    . apply hwritten.of_mod_eq
      rw [hhead]
      exact (dataHead_mod h.lt_64 s.event).symm
    . exact Nat.le_of_lt hroom
  next => exact ⟨s, rfl, h⟩

theorem storeHead (h : s.Holds k) : ∃ s', s.step .storeHead = some s' ∧ s'.Holds k := by
  unfold step
  dsimp only
  split
  next payload dataHead hcopied =>
    have hwriter := h.writer
    unfold WriterHolds at hwriter
    rw [hcopied] at hwriter
    rcases hwriter with ⟨hhead, hroom, hrecord⟩
    have hused : (s.event.storeHead dataHead payload.copySize).used
        = s.event.used + payload.record.length := by
      have hpow := Nat.pow_lt_pow_right (show 1 < 2 by omega) h.lt_64
      have hsize : payload.copySize.toUInt64.toNat = payload.record.length := by
        rw [UInt16.toNat_toUInt64, payload.toNat_copySize]
      rw [← hsize] at hroom ⊢
      rw [hhead]
      apply toNat_add_sub
      exact Nat.lt_trans hroom hpow
    refine ⟨_, rfl, h.lt_64, h.len_eq, ?_, ?_, trivial⟩
    . dsimp only
      rw [hused]
      exact hroom
    . dsimp only
      rw [hused, Circular.contents_add]
      have hmod : (s.event.header.dataTail.toNat + s.event.used) % 2 ^ k = dataHead.toNat % 2 ^ k := by
        rw [hhead, dataHead_mod h.lt_64]
      unfold records
      rw [List.flatMap_append, List.flatMap_singleton]
      apply congrArg₂
      . exact h.bytes_eq
      . rw [← Circular.contents_eq_of_mod_eq hmod] at hrecord
        exact hrecord
  next => exact ⟨s, rfl, h⟩

theorem writer_consume (h : s.Holds k) {n : Nat} (hused : (s.consume n).event.used ≤ s.event.used)
    : (s.consume n).WriterHolds k := by
  have hwriter := h.writer
  have hsame : (s.consume n).writer = s.writer := rfl
  unfold WriterHolds at hwriter ⊢
  rw [hsame]
  cases hw : s.writer with
  | idle => trivial
  | reserved payload dataHead =>
    rw [hw] at hwriter
    exact ⟨hwriter.1, by omega⟩
  | copied payload dataHead =>
    rw [hw] at hwriter
    exact ⟨hwriter.1, by omega, hwriter.2.2⟩

theorem consume (h : s.Holds k) (n : Nat) : (s.consume n).Holds k := by
  have hpow := Nat.pow_lt_pow_right (show 1 < 2 by omega) h.lt_64
  have hlt := h.used_lt
  have hbytes := h.bytes_eq
  have hused := h.used_eq
  have hrecords : records s.unread = records (s.unread.take n) ++ records (s.unread.drop n) := by
    unfold records
    rw [← List.flatMap_append, List.take_append_drop]
  rw [hrecords, List.length_append] at hused
  have hm : (UInt64.ofNat (records (s.unread.take n)).length).toNat
      = (records (s.unread.take n)).length := by
    rw [UInt64.toNat_ofNat']
    apply Nat.mod_eq_of_lt
    omega
  have hused' : (s.consume n).event.used = (records (s.unread.drop n)).length := by
    have := @toNat_sub_add s.event.header.dataHead s.event.header.dataTail
      (.ofNat (records (s.unread.take n)).length) (by unfold SoftwarePerfEventData.used at hused; omega)
    rw [hm] at this
    apply this.trans
    unfold SoftwarePerfEventData.used at hused
    omega
  constructor
  . exact h.lt_64
  . exact h.len_eq
  . rw [hused']
    omega
  . rw [hused, Circular.contents_add, hrecords] at hbytes
    have hrest := List.append_inj_right hbytes Circular.length_contents
    rw [hused']
    apply Eq.trans _ hrest
    apply Circular.contents_eq_of_mod_eq
    unfold System.consume
    dsimp only
    rw [toNat_add_mod h.lt_64, hm]
  . apply h.writer_consume
    omega

theorem step (h : s.Holds k) (op : Op) : ∃ s', s.step op = some s' ∧ s'.Holds k := by
  cases op with
  | output payload => exact h.output payload
  | copy => exact h.copy
  | storeHead => exact h.storeHead
  | consume n => exact ⟨_, rfl, h.consume n⟩

theorem run (ops : List Op) : ∀ {s : System}, s.Holds k → ∃ s', s.run ops = some s' ∧ s'.Holds k := by
  induction ops with
  | nil =>
    intro s h
    exact ⟨s, rfl, h⟩
  | cons op ops ih =>
    intro s h
    rcases h.step op with ⟨s₁, hstep, h₁⟩
    rcases ih h₁ with ⟨s₂, hrun, h₂⟩
    refine ⟨s₂, ?_, h₂⟩
    unfold System.run at hrun ⊢
    rw [List.foldlM_cons, hstep]
    exact hrun

end Holds

theorem unreadBytes_run {k : Nat} (hk : k < 64) {d : SoftwarePerfEventData} (hlen : d.data.len = 2 ^ k)
    (hempty : d.header.dataHead = d.header.dataTail) (ops : List Op)
    : ∃ s, (start d).run ops = some s
        ∧ s.event.mmapSize.toNat = 2 ^ k
        ∧ 0 ≤ s.event.backlog
        ∧ s.event.backlog < s.event.mmapSize.toNat
        ∧ s.event.unreadBytes = records s.unread
        ∧ ∀ payload, s.event.drops payload.bytes →
            s.step (.output payload) = some s
              ∧ s.event.outputData payload.bytes = some s.event := by
  rcases Holds.run ops (Holds.start hk hlen hempty) with ⟨s, hrun, h⟩
  have hsize := SoftwarePerfEventData.toNat_mmapSize h.lt_64 h.len_eq
  have hlt := h.used_lt
  have hle : 2 ^ k ≤ 2 ^ 63 := Nat.pow_le_pow_right (by omega) (by omega)
  have hbacklog := SoftwarePerfEventData.backlog_eq (Nat.lt_of_lt_of_le hlt hle)
  refine ⟨s, hrun, hsize, ?_, ?_, ?_, ?_⟩
  . omega
  . rw [hbacklog, hsize]
    exact_mod_cast hlt
  . unfold SoftwarePerfEventData.unreadBytes
    rw [hsize]
    exact h.bytes_eq
  . intro payload hdrops
    constructor
    . unfold step
      dsimp only
      split
      next => rw [if_pos hdrops]
      next => rfl
    . unfold SoftwarePerfEventData.outputData
      rw [if_pos hdrops]

theorem unreadBytes_run_around
    : let d := ((SoftwarePerfEventData.construct 4096).ensureMmapBuffer 4128).2
      let first : Payload := ⟨[1, 2, 3, 4], by decide⟩
      let second : Payload := ⟨[5, 6, 7, 8, 9, 10, 11], by decide⟩
      let ops := [.output first, .copy, .storeHead, .output second, .copy, .storeHead, .consume 1,
        .output second, .copy, .storeHead]
      ∃ s, (start d).run ops = some s
        ∧ s.event.unreadBytes = [9, 0, 0, 0, 0, 0, 19, 0, 7, 0, 0, 0, 5, 6, 7, 8, 9, 10, 11] := by
  intro d first second ops
  have hunread : ((start d).run ops).map (fun s => s.unread.map Payload.bytes)
      = some [second.bytes] := by
    decide
  rcases @unreadBytes_run 5 (by decide) d (by decide) (by decide) ops with
    ⟨s, hrun, -, -, -, hbytes, -⟩
  rw [hrun, Option.map_some, Option.some_inj] at hunread
  refine ⟨s, hrun, ?_⟩
  rw [hbytes, records_eq, hunread]
  decide

end System

end Bpftime.PerfEvent
