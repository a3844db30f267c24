import Mathlib.Data.List.TakeDrop
import Mathlib.Data.Nat.ModEq
import Bpftime.BpfMap.GpuRingbuf.Impl
import Bpftime.Data.Run

/-!
This module contains the invariant of one ring under every interleaving whose steps are careful: a
thread takes no slot of an empty ring while the host is between its look at the dirty flag and its
look at the tail, and writes no slot the host is still reading.
-/

namespace Bpftime.GpuRingbuf

open GpuArray

/-- The sizes fit the device's `int`, slots are aligned, the launch has a ring for each thread, and
the length of the buffer has not wrapped around. -/
structure Params.Fits (p : Params) : Prop where
  maxEntries_pos : 1 ≤ p.maxEntries
  maxEntries_lt : p.maxEntries < 2 ^ 31
  valueSize_lt : p.valueSize < 2 ^ 31
  aligned : 8 ∣ p.valueSize
  threads_le : p.launch.total ≤ p.threadCount
  threads_int : p.launch.total ≤ 2 ^ 31
  buffer_lt : p.entrySize * p.threadCount < 2 ^ 64

namespace Params

theorem onDevice_eq {n : ℕ} (hn : n < 2 ^ 31) : onDevice n = n := by
  unfold onDevice
  rw [Int32.toInt_ofNat_of_lt hn, UInt64.ofInt, UInt64.toNat_ofNat']
  omega

variable {p : Params} {i : ℕ} {slot : Option ℕ}

theorem Fits.deviceOffset_eq (h : p.Fits) {t : Thread} (ht : p.launch.Runs t) (slot : Option ℕ)
    : p.deviceOffset t slot = p.hostOffset (linear p.launch t) slot := by
  unfold deviceOffset hostOffset place deviceEntrySize entrySize
  rw [toNat_getGlobalThreadId ht h.threads_int, onDevice_eq h.maxEntries_lt,
    onDevice_eq h.valueSize_lt, Nat.add_comm 8, Nat.add_comm 24, Nat.mul_comm p.maxEntries]
  cases slot <;> rfl

theorem place_lt (p : Params) (i : ℕ) (hslot : ∀ k, slot = some k → k < p.maxEntries)
    : p.place i slot < (i + 1) * p.entrySize := by
  have hentry : p.entrySize = p.maxEntries * (p.valueSize + 8) + 24 := by
    rw [entrySize, Nat.mul_comm]
  rw [Nat.add_mul, Nat.one_mul]
  cases slot with
  | none =>
    change i * p.entrySize < _
    omega
  | some k =>
    have hle := Nat.mul_le_mul_right (p.valueSize + 8) (hslot k rfl)
    rw [Nat.succ_mul] at hle
    change i * p.entrySize + 24 + k * (p.valueSize + 8) < _
    omega

theorem Fits.dvd_place (h : p.Fits) (i : ℕ) (slot : Option ℕ) : 8 ∣ p.place i slot := by
  have hvalue : 8 ∣ p.valueSize + 8 := Nat.dvd_add h.aligned (Nat.dvd_refl 8)
  have hentry : 8 ∣ p.entrySize := Nat.dvd_add (hvalue.mul_right _) (by decide)
  cases slot with
  | none => exact hentry.mul_left i
  | some k => exact Nat.dvd_add (Nat.dvd_add (hentry.mul_left i) (by decide)) (hvalue.mul_left k)

theorem Fits.reaches_host (h : p.Fits) (hi : i < p.threadCount)
    (hslot : ∀ k, slot = some k → k < p.maxEntries)
    : p.Reaches (p.hostOffset i slot) i slot := by
  have hplace := p.place_lt i hslot
  have hbuffer := h.buffer_lt
  have hring : (i + 1) * p.entrySize ≤ p.entrySize * p.threadCount := by
    rw [Nat.mul_comm]
    exact Nat.mul_le_mul_left _ hi
  refine ⟨Nat.mod_eq_of_lt (by omega), h.dvd_place i slot, ?_⟩
  unfold bufferLength
  rw [Nat.mod_eq_of_lt hbuffer]
  exact hring

theorem Fits.reaches_device (h : p.Fits) {t : Thread} (ht : p.launch.Runs t)
    (hslot : ∀ k, slot = some k → k < p.maxEntries)
    : p.Reaches (p.deviceOffset t slot) (linear p.launch t) slot := by
  rw [h.deviceOffset_eq ht]
  exact h.reaches_host (Nat.lt_of_lt_of_le (linear_lt ht) h.threads_le) hslot

end Params

def Stage.Checking : Stage → Prop
  | .readHead => True
  | .readTail _ => True
  | _ => False

def stageAt (host : Option (ℕ × Stage)) (tid : ℕ) : Option Stage :=
  match host with
  | none => none
  | some (i, stage) => if i = tid then some stage else none

def Slot.Holds (slot : Slot) (data : List UInt8) : Prop :=
  slot.size = data.length ∧ slot.data.take data.length = data

def Device.inFlight : Device → ℕ
  | .writeSize _ _ => 1
  | .writeData _ _ => 1
  | .clearDirty _ => 1
  | _ => 0

def Device.isDirty : Device → Bool
  | .fetchAdd _ => true
  | .writeSize _ _ => true
  | .writeData _ _ => true
  | .clearDirty _ => true
  | _ => false

structure Cell where
  ring : Ring
  device : Device
  stage : Option Stage
  returned : List (List UInt8)
  delivered : List (ℕ × List UInt8)

def State.cell (s : State) (tid : ℕ) : Cell :=
  ⟨s.rings tid, s.devices tid, stageAt s.host tid, s.returned tid, s.delivered tid⟩

def Cell.CarefulDevice (c : Cell) : Prop :=
  match c.device with
  | .fetchAdd _ =>
    ∀ stage, c.stage = some stage → stage.Checking → c.ring.head ≠ c.ring.tail
  | .writeSize _ k => ∀ stage, c.stage = some stage → stage.reading ≠ some k
  | .writeData _ k => ∀ stage, c.stage = some stage → stage.reading ≠ some k
  | _ => True

/-- The device keeps off the slot the host looks at, and no tail reaches `2^64`. -/
def Careful (p : Params) (s : State) : Move → Prop
  | .call t _ => (s.rings (linear p.launch t)).tail + 1 < 2 ^ 64
  | .device t => (s.cell (linear p.launch t)).CarefulDevice
  | .drain => True
  | .host => True

namespace Cell

def taken (c : Cell) : ℕ :=
  match c.stage with
  | some (.readSize _) => 1
  | some (.callback _ _) => 1
  | _ => 0

def DeviceKnows (p : Params) (c : Cell) : Prop :=
  match c.device with
  | .idle => True
  | .readTail _ => c.ring.tail + 1 < 2 ^ 64
  | .readHead _ tail => tail = c.ring.tail ∧ c.ring.tail + 1 < 2 ^ 64
  | .setDirty _ => c.ring.tail < c.ring.head + p.maxEntries ∧ c.ring.tail + 1 < 2 ^ 64
  | .fetchAdd _ => c.ring.tail < c.ring.head + p.maxEntries ∧ c.ring.tail + 1 < 2 ^ 64
  | .writeSize _ k => k = c.returned.length % p.maxEntries
  | .writeData data k =>
    k = c.returned.length % p.maxEntries ∧ (c.ring.slots k).size = data.length
  | .clearDirty data => (c.ring.slots (c.returned.length % p.maxEntries)).Holds data

def HostKnows (p : Params) (c : Cell) : Prop :=
  match c.stage with
  | none => True
  | some .readDirty => True
  | some .readHead => c.ring.head < c.returned.length ∨ c.device.inFlight = 0
  | some (.readTail head) =>
    head = c.ring.head ∧ (c.ring.head < c.returned.length ∨ c.device.inFlight = 0)
  | some .readSlot => c.ring.head < c.returned.length
  | some (.advance k) => k = c.ring.head % p.maxEntries ∧ c.ring.head < c.returned.length
  | some (.readSize k) => k = c.delivered.length % p.maxEntries
  | some (.callback k size) => k = c.delivered.length % p.maxEntries
      ∧ ∀ data, c.returned[c.delivered.length]? = some data → size = data.length

structure Inv (p : Params) (c : Cell) : Prop where
  tail_eq : c.ring.tail = c.returned.length + c.device.inFlight
  head_eq : c.ring.head = c.delivered.length + c.taken
  head_le : c.ring.head ≤ c.returned.length
  room : c.ring.tail ≤ c.ring.head + p.maxEntries
  bound : c.ring.tail < 2 ^ 64
  dirty : c.ring.dirty = c.device.isDirty
  delivered : c.delivered = (c.returned.take c.delivered.length).map fun data => (data.length, data)
  slots : ∀ k data, c.delivered.length ≤ k → c.returned[k]? = some data →
    (c.ring.slots (k % p.maxEntries)).Holds data
  device : c.DeviceKnows p
  host : c.HostKnows p

variable {p : Params} {c : Cell}

theorem taken_eq_one (h : ∃ stage k, c.stage = some stage ∧ stage.reading = some k)
    : c.taken = 1 := by
  obtain ⟨stage, k, hstage, hreading⟩ := h
  unfold taken
  rw [hstage]
  cases stage <;> first | rfl | cases hreading

theorem taken_le (c : Cell) : c.taken ≤ 1 := by
  unfold taken
  split <;> omega

theorem Inv.reading_eq (h : c.Inv p) (htaken : c.taken = 1)
    : ∃ stage, c.stage = some stage ∧ stage.reading = some (c.delivered.length % p.maxEntries) := by
  have hhost := h.host
  unfold HostKnows at hhost
  unfold taken at htaken
  split at htaken
  next k hstage =>
    rw [hstage] at hhost
    exact ⟨_, hstage, congrArg some hhost⟩
  next k size hstage =>
    rw [hstage] at hhost
    exact ⟨_, hstage, congrArg some hhost.1⟩
  . cases htaken

theorem Inv.mod_ne (h : c.Inv p) (hflight : c.device.inFlight = 1)
    (hcareful : ∀ stage, c.stage = some stage →
      stage.reading ≠ some (c.returned.length % p.maxEntries))
    {k : ℕ} (hk : c.delivered.length ≤ k) (hlt : k < c.returned.length)
    : k % p.maxEntries ≠ c.returned.length % p.maxEntries := by
  intro hmod
  have hdvd : p.maxEntries ∣ c.returned.length - k := (Nat.modEq_iff_dvd' hlt.le).mp hmod
  have hle := Nat.le_of_dvd (by omega) hdvd
  have htail := h.tail_eq
  have hhead := h.head_eq
  have hroom := h.room
  have htaken := c.taken_le
  -- one whole round apart, `k` is the slot the host is reading
  obtain ⟨stage, hstage, hreading⟩ := h.reading_eq (by omega)
  apply hcareful stage hstage
  rw [hreading, ← hmod]
  congr 2
  omega

theorem HostKnows.deviceStep {c' : Cell} (h : c.HostKnows p) (hstage : c'.stage = c.stage)
    (hhead : c'.ring.head = c.ring.head) (hdelivered : c'.delivered = c.delivered)
    (hreturned : c.returned <+: c'.returned)
    (hflight : c.device.inFlight = 0 → c'.device.inFlight = 0 ∨ c.ring.head < c.returned.length
      ∨ ∀ stage, c.stage = some stage → ¬stage.Checking)
    (htaken : c.taken = 1 → c.delivered.length < c.returned.length)
    : c'.HostKnows p := by
  have hlen := hreturned.length_le
  have hchecked : (∃ stage, c.stage = some stage ∧ stage.Checking) →
      (c.ring.head < c.returned.length ∨ c.device.inFlight = 0) →
      c.ring.head < c'.returned.length ∨ c'.device.inFlight = 0 := by
    rintro ⟨stage, hstage, hchecking⟩ hknows
    cases hknows with
    | inl hlt => exact Or.inl (by omega)
    | inr hzero =>
      rcases hflight hzero with hzero' | hlt | hnot
      . exact Or.inr hzero'
      . exact Or.inl (by omega)
      . exact absurd hchecking (hnot stage hstage)
  unfold HostKnows at h ⊢
  rw [hstage, hhead, hdelivered]
  cases hc : c.stage with
  | none => trivial
  | some stage =>
    rw [hc] at h
    cases stage with
    | readDirty => trivial
    | readHead => exact hchecked ⟨_, hc, trivial⟩ h
    | readTail head => exact ⟨h.1, hchecked ⟨_, hc, trivial⟩ h.2⟩
    | readSlot => exact Nat.lt_of_lt_of_le h hlen
    | advance k => exact ⟨h.1, Nat.lt_of_lt_of_le h.2 hlen⟩
    | readSize k => exact h
    | callback k size =>
      refine ⟨h.1, ?_⟩
      intro data hdata
      have hlt := htaken (taken_eq_one ⟨_, k, hc, rfl⟩)
      obtain ⟨rest, hrest⟩ := hreturned
      rw [← hrest, List.getElem?_append_left hlt] at hdata
      exact h.2 data hdata

theorem Inv.delivered_lt (h : c.Inv p) (htaken : c.taken = 1)
    : c.delivered.length < c.returned.length := by
  have hhead := h.head_eq
  have hle := h.head_le
  omega

theorem Inv.deviceMoved (h : c.Inv p) (tail : ℕ) (device : Device)
    (htail : tail = c.returned.length + device.inFlight) (hroom : tail ≤ c.ring.head + p.maxEntries)
    (hbound : tail < 2 ^ 64)
    (hknows : DeviceKnows p
      { c with ring := { c.ring with tail, dirty := device.isDirty }, device })
    (hflight : c.device.inFlight = 0 → device.inFlight = 0 ∨ c.ring.head < c.returned.length
      ∨ ∀ stage, c.stage = some stage → ¬stage.Checking)
    : Inv p { c with ring := { c.ring with tail, dirty := device.isDirty }, device } :=
  { h with
    tail_eq := htail
    room := hroom
    bound := hbound
    dirty := rfl
    device := hknows
    host := h.host.deviceStep rfl rfl rfl (List.prefix_refl _) hflight h.delivered_lt }

theorem Inv.deviceWrote (h : c.Inv p) {before : Device} (hdevice : c.device = before)
    (device : Device) {slot : Slot} (hflight : before.inFlight = 1) (hflight' : device.inFlight = 1)
    (hdirty : device.isDirty = before.isDirty)
    (hcareful : ∀ stage, c.stage = some stage →
      stage.reading ≠ some (c.returned.length % p.maxEntries))
    (hknows : DeviceKnows p
      { c with ring := c.ring.setSlot (c.returned.length % p.maxEntries) slot, device })
    : Inv p { c with ring := c.ring.setSlot (c.returned.length % p.maxEntries) slot, device } := by
  subst hdevice
  refine { h with
    tail_eq := ?_
    dirty := h.dirty.trans hdirty.symm
    slots := ?_
    device := hknows
    host := h.host.deviceStep rfl rfl rfl (List.prefix_refl _) (by omega) h.delivered_lt }
  . dsimp only [Ring.setSlot]
    rw [hflight', ← hflight, h.tail_eq]
  . intro k data hk hdata
    have hlt := (List.getElem?_eq_some_iff.mp hdata).1
    dsimp only [Ring.setSlot]
    rw [Function.update_of_ne (h.mod_ne hflight hcareful hk hlt)]
    exact h.slots k data hk hdata

theorem Inv.deviceReturned (h : c.Inv p) {data : List UInt8} (hdevice : c.device = .clearDirty data)
    : Inv p { c with
        ring := { c.ring with dirty := false }
        device := .idle
        returned := c.returned ++ [data] } := by
  have hknows := h.device
  unfold DeviceKnows at hknows
  rw [hdevice] at hknows
  have htail := h.tail_eq
  have hle := h.head_le
  have hhead := h.head_eq
  rw [hdevice] at htail
  refine { h with
    tail_eq := ?tail_eq
    head_le := ?head_le
    dirty := rfl
    delivered := ?delivered
    slots := ?slots
    device := trivial
    host := h.host.deviceStep rfl rfl rfl (List.prefix_append _ _) (fun _ => Or.inl rfl)
      h.delivered_lt }
  case tail_eq =>
    rw [List.length_append]
    exact htail
  case head_le =>
    rw [List.length_append]
    exact Nat.le_add_right_of_le hle
  case delivered =>
    dsimp only
    rw [List.take_append_of_le_length (by omega)]
    exact h.delivered
  case slots =>
    intro k data' hk hdata
    by_cases hlt : k < c.returned.length
    . rw [List.getElem?_append_left hlt] at hdata
      exact h.slots k data' hk hdata
    . rw [List.getElem?_append_right (by omega)] at hdata
      have hsame := (List.getElem?_eq_some_iff.mp hdata).1
      have hk : k = c.returned.length := by
        rw [List.length_singleton] at hsame
        omega
      rw [hk, Nat.sub_self] at hdata
      cases hdata
      rw [hk]
      exact hknows

theorem Inv.deviceLooked (h : c.Inv p) {before : Device} (hdevice : c.device = before)
    (device : Device) (hflight : before.inFlight = 0) (hflight' : device.inFlight = 0)
    (hdirty : device.isDirty = before.isDirty) (hknows : DeviceKnows p { c with device })
    : Inv p { c with device } := by
  subst hdevice
  have htail := h.tail_eq
  have hring : { c.ring with tail := c.ring.tail, dirty := device.isDirty } = c.ring := by
    rw [hdirty, ← h.dirty]
  have hmoved := h.deviceMoved c.ring.tail device (by omega) h.room h.bound
    (by rw [hring]; exact hknows) (fun _ => Or.inl hflight')
  rw [hring] at hmoved
  exact hmoved

theorem Inv.full_iff (hfits : p.Fits) (h : c.Inv p)
    : (c.ring.tail + 2 ^ 64 - c.ring.head) % 2 ^ 64 = Params.onDevice p.maxEntries
        ↔ c.ring.tail = c.ring.head + p.maxEntries := by
  have htail := h.tail_eq
  have hhead := h.head_le
  have hbound := h.bound
  have hlt := hfits.maxEntries_lt
  rw [Params.onDevice_eq hlt]
  omega

theorem Inv.deviceFetched (h : c.Inv p) {data : List UInt8} (hdevice : c.device = .fetchAdd data)
    (hcareful : c.CarefulDevice)
    : Inv p { c with
        ring := { c.ring with tail := c.ring.tail + 1 }
        device := .writeSize data (c.ring.tail % p.maxEntries) } := by
  have hknows := h.device
  have htail := h.tail_eq
  have hdirty := h.dirty
  unfold DeviceKnows at hknows
  unfold CarefulDevice at hcareful
  rw [hdevice] at hknows htail hdirty hcareful
  have hmoved := h.deviceMoved (c.ring.tail + 1)
    (.writeSize data (c.ring.tail % p.maxEntries)) (congrArg (· + 1) htail) hknows.1 hknows.2
    (congrArg (· % p.maxEntries) htail) ?_
  . change Inv p { c with
      ring := { c.ring with tail := c.ring.tail + 1, dirty := (Device.fetchAdd data).isDirty }
      device := _ } at hmoved
    rw [← hdirty] at hmoved
    exact hmoved
  . intro _
    by_cases hlt : c.ring.head < c.returned.length
    . exact Or.inr (Or.inl hlt)
    . refine Or.inr (Or.inr ?_)
      intro stage hstage hchecking
      apply hcareful stage hstage hchecking
      have hhead := h.head_le
      change c.ring.tail = c.returned.length + 0 at htail
      omega

theorem Inv.deviceStep (hfits : p.Fits) (h : c.Inv p) (hcareful : c.CarefulDevice) {ring : Ring}
    {device : Device} {ret : Option (List UInt8)}
    (hstep : c.device.step p c.ring = some (ring, device, ret))
    : Inv p { c with ring, device, returned := c.returned ++ ret.toList } := by
  have hknows := h.device
  have htail := h.tail_eq
  have hsame {ring : Ring} {device : Device} (hinv : Inv p { c with ring, device })
      : Inv p { c with
          ring, device, returned := c.returned ++ (none : Option (List UInt8)).toList } := by
    rw [Option.toList_none, List.append_nil]
    exact hinv
  unfold DeviceKnows at hknows
  unfold CarefulDevice at hcareful
  cases hdevice : c.device with
  | idle =>
    rw [hdevice] at hstep
    cases hstep
  | readTail data =>
    rw [hdevice] at hstep hknows
    cases hstep
    exact hsame (h.deviceLooked hdevice _ rfl rfl rfl ⟨rfl, hknows⟩)
  | readHead data tail =>
    have hroom := h.room
    rw [hdevice] at hstep hknows
    obtain ⟨rfl, hbound⟩ := hknows
    simp only [Device.step, h.full_iff hfits] at hstep
    split at hstep
    . cases hstep
      exact hsame (h.deviceLooked hdevice _ rfl rfl rfl trivial)
    . cases hstep
      apply hsame (h.deviceLooked hdevice (.setDirty data) rfl rfl rfl _)
      exact ⟨by dsimp only; omega, hbound⟩
  | setDirty data =>
    rw [hdevice] at hstep hknows htail
    cases hstep
    exact hsame (h.deviceMoved c.ring.tail (.fetchAdd data) htail h.room h.bound hknows
      (fun _ => Or.inl rfl))
  | fetchAdd data =>
    have hmoved := h.deviceFetched hdevice hcareful
    rw [hdevice] at hstep hknows
    cases hstep
    apply hsame
    rw [Nat.mod_eq_of_lt hknows.2, Params.onDevice_eq hfits.maxEntries_lt]
    exact hmoved
  | writeSize data k =>
    rw [hdevice] at hstep hknows hcareful
    cases hstep
    dsimp only at hknows
    rw [hknows] at hcareful ⊢
    apply hsame (h.deviceWrote hdevice (.writeData data _) rfl rfl rfl hcareful _)
    refine ⟨rfl, ?_⟩
    simp only [Ring.setSlot, Function.update_self]
  | writeData data k =>
    rw [hdevice] at hstep hknows hcareful
    cases hstep
    obtain ⟨rfl, hsize⟩ := hknows
    apply hsame (h.deviceWrote hdevice (.clearDirty data) rfl rfl rfl hcareful _)
    simp only [DeviceKnows, Ring.setSlot, Function.update_self]
    exact ⟨hsize, List.take_left⟩
  | clearDirty data =>
    rw [hdevice] at hstep
    cases hstep
    exact h.deviceReturned hdevice

theorem Inv.hostLooked (h : c.Inv p) (stage : Option Stage)
    (htaken : taken { c with stage } = c.taken) (hknows : HostKnows p { c with stage })
    : Inv p { c with stage } := by
  refine { h with head_eq := ?_, host := hknows }
  rw [htaken]
  exact h.head_eq

theorem Inv.hostAdvanced (h : c.Inv p) {k : ℕ} (hstage : c.stage = some (.advance k))
    : Inv p { c with
        ring := { c.ring with head := (c.ring.head + 1) % 2 ^ 64 }
        stage := some (.readSize k) } := by
  have hknows := h.host
  unfold HostKnows at hknows
  rw [hstage] at hknows
  obtain ⟨rfl, hlt⟩ := hknows
  have htail := h.tail_eq
  have hbound := h.bound
  have hroom := h.room
  have hhead : c.ring.head = c.delivered.length := by
    rw [h.head_eq, taken, hstage]
    rfl
  rw [Nat.mod_eq_of_lt (by omega : c.ring.head + 1 < 2 ^ 64)]
  refine { h with
    head_eq := congrArg (· + 1) hhead
    head_le := hlt
    room := by dsimp only; omega
    device := ?_
    host := congrArg (· % p.maxEntries) hhead }
  -- a higher head only leaves the thread more room
  have hdevice := h.device
  unfold DeviceKnows at hdevice ⊢
  cases hc : c.device with
  | setDirty data | fetchAdd data =>
    rw [hc] at hdevice
    exact ⟨by dsimp only at hdevice ⊢; omega, hdevice.2⟩
  | _ =>
    rw [hc] at hdevice
    exact hdevice

theorem Inv.hostDelivered (h : c.Inv p) {k size : ℕ} (hstage : c.stage = some (.callback k size))
    : Inv p { c with
        stage := none
        delivered := c.delivered ++ [(size, (c.ring.slots k).data.take size)] } := by
  have hknows := h.host
  unfold HostKnows at hknows
  rw [hstage] at hknows
  obtain ⟨rfl, hsize⟩ := hknows
  have htaken := taken_eq_one ⟨_, _, hstage, rfl⟩
  have hlt := h.delivered_lt htaken
  have hdata := List.getElem?_eq_getElem hlt
  have hholds := h.slots c.delivered.length _ (Nat.le_refl _) hdata
  have hhead := h.head_eq
  rw [htaken] at hhead
  rw [hsize _ hdata, hholds.2]
  refine { h with head_eq := ?_, delivered := ?_, slots := ?_, host := trivial }
  . rw [List.length_append]
    exact hhead
  . dsimp only
    rw [List.length_append, List.length_singleton, List.take_succ_eq_append_getElem hlt,
      List.map_append, ← h.delivered]
    rfl
  . intro j data hj hreturned
    dsimp only at hj
    rw [List.length_append] at hj
    exact h.slots j data (by omega) hreturned

def stageAfter : After → Option Stage
  | .stay stage => some stage
  | .next => none
  | .stop => none

theorem Inv.hostStep (h : c.Inv p) {stage : Stage} (hstage : c.stage = some stage) {ring : Ring}
    {after : After} {sample : Option (ℕ × List UInt8)}
    (hstep : stage.step p c.ring = (ring, after, sample))
    : Inv p { c with
        ring
        stage := stageAfter after
        delivered := c.delivered ++ sample.toList } := by
  have hknows := h.host
  unfold HostKnows at hknows
  rw [hstage] at hknows
  have htaken : c.taken = taken { c with stage := some stage } := by rw [← hstage]
  have hsame {ring : Ring} {stage : Option Stage} (hinv : Inv p { c with ring, stage })
      : Inv p { c with
          ring, stage, delivered := c.delivered ++ (none : Option (ℕ × List UInt8)).toList } := by
    rw [Option.toList_none, List.append_nil]
    exact hinv
  cases stage with
  | readDirty =>
    simp only [Stage.step] at hstep
    split at hstep
    . cases hstep
      exact hsame (h.hostLooked none htaken.symm trivial)
    next hclean =>
      cases hstep
      apply hsame (h.hostLooked (some .readHead) htaken.symm _)
      right
      rw [h.dirty] at hclean
      cases hc : c.device <;> first | rfl | (rw [hc] at hclean; exact absurd rfl hclean)
  | readHead =>
    cases hstep
    exact hsame (h.hostLooked (some (.readTail c.ring.head)) htaken.symm ⟨rfl, hknows⟩)
  | readTail head =>
    obtain ⟨rfl, hchecked⟩ := hknows
    simp only [Stage.step] at hstep
    split at hstep
    next hne =>
      cases hstep
      apply hsame (h.hostLooked (some .readSlot) htaken.symm _)
      have htail := h.tail_eq
      have hle := h.head_le
      unfold HostKnows
      dsimp only
      omega
    . cases hstep
      exact hsame (h.hostLooked none htaken.symm trivial)
  | readSlot =>
    cases hstep
    exact hsame (h.hostLooked (some (.advance (c.ring.head % p.maxEntries))) htaken.symm
      ⟨rfl, hknows⟩)
  | advance k =>
    cases hstep
    exact hsame (h.hostAdvanced hstage)
  | readSize k =>
    cases hstep
    apply hsame (h.hostLooked (some (.callback k (c.ring.slots k).size)) htaken.symm _)
    refine ⟨hknows, ?_⟩
    intro data hdata
    dsimp only at hknows ⊢
    rw [hknows]
    exact (h.slots c.delivered.length data (Nat.le_refl _) hdata).1
  | callback k size =>
    cases hstep
    exact h.hostDelivered hstage

end Cell

end Bpftime.GpuRingbuf
