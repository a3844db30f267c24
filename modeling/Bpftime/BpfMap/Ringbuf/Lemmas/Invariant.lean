import Bpftime.BpfMap.Ringbuf.Lemmas.Records

namespace Bpftime.RingbufMap

open ByteMem RingSpace

variable {p : Params}

def widths (rs : List Record) : List Nat := rs.map Record.width

def State.pos (s : State) (i : Nat) : Nat := start (widths s.records) i

def ConsumerOk (s : State) : Prop :=
  match s.consumer with
  | .returned _ => True
  | .outer consPos _ => consPos = s.rb.consumerPos
  | .inner consPos prodPos _ _ =>
    consPos = s.rb.consumerPos
      ∧ ∃ l, s.consumed ≤ l ∧ l ≤ s.records.length ∧ prodPos.toNat = s.pos l % 2 ^ 64

structure Shape (p : Params) (pos : Nat) (r : Record) : Prop where
  size_lt : r.size.toNat < 2 ^ 30
  width_le : r.width ≤ cap p
  ptr_eq : r.ptr = data p + (pos + 8) % cap p

structure Inv (p : Params) (s : State) : Prop where
  len : s.rb.rawBuffer.len = data p + 2 * cap p
  low : ∀ a < data p, s.rb.rawBuffer.byte a = 0
  consumed_le : s.consumed ≤ s.records.length
  prod : s.rb.producerPos.toNat = s.pos s.records.length % 2 ^ 64
  cons : s.rb.consumerPos.toNat = s.pos s.consumed % 2 ^ 64
  window : s.pos s.records.length ≤ s.pos s.consumed + cap p
  shape : ∀ i r, s.records[i]? = some r → Shape p (s.pos i) r
  live : ∀ i r, s.consumed ≤ i → s.records[i]? = some r → Holds p s.rb.rawBuffer (s.pos i) r
  past : ∀ i r, i < s.consumed → s.records[i]? = some r → r.status ≠ .busy
  consumer : ConsumerOk s

variable {s : State} {i : Nat} {r : Record}

theorem getElem?_widths {rs : List Record} (h : rs[i]? = some r)
    : (widths rs)[i]? = some r.width := by
  unfold widths
  rw [List.getElem?_map, h]
  rfl

@[simp]
theorem length_widths (rs : List Record) : (widths rs).length = rs.length := by
  simp [widths]

theorem State.pos_succ (h : s.records[i]? = some r) : s.pos (i + 1) = s.pos i + r.width := by
  exact start_succ (getElem?_widths h)

theorem State.pos_le {j : Nat} (h : i ≤ j) : s.pos i ≤ s.pos j := by
  exact start_le h

theorem dvd_pos (s : State) (i : Nat) : 8 ∣ s.pos i := by
  apply dvd_start
  unfold widths
  intro w hw
  rw [List.mem_map] at hw
  rcases hw with ⟨r, -, rfl⟩
  exact dvd_total _

theorem mod_cap_add_le {pos : Nat} (h8 : 8 ≤ cap p) (hpos : 8 ∣ pos) : pos % cap p + 8 ≤ cap p := by
  have hcap := eight_dvd_cap h8
  have hmod : 8 ∣ pos % cap p := (Nat.dvd_mod_iff hcap).mpr hpos
  have hlt := Nat.mod_lt pos (@cap_pos p)
  omega

theorem Shape.eight_le {pos : Nat} (h : Shape p pos r) : 8 ≤ cap p := by
  have : r.size.toNat + 8 ≤ r.width := le_total _
  have := h.width_le
  omega

theorem Inv.header_le (h : Inv p s) (h8 : 8 ≤ cap p) (i : Nat)
    : data p + s.pos i % cap p + 8 ≤ s.rb.rawBuffer.len := by
  have := mod_cap_add_le h8 (dvd_pos s i)
  rw [h.len]
  omega

theorem Inv.payload_le (h : Inv p s) (hr : s.records[i]? = some r)
    : r.ptr + r.size.toNat ≤ s.rb.rawBuffer.len := by
  have hshape := h.shape i r hr
  have hwidth : r.size.toNat + 8 ≤ r.width := le_total _
  have hle := hshape.width_le
  have := Nat.mod_lt (s.pos i + 8) (@cap_pos p)
  rw [h.len, hshape.ptr_eq]
  omega

theorem inv_initial (hp : cap p ≠ 2 ^ 31) : Inv p (initial p) := by
  have hlen := construct_len_of_le (cap_le_or_eq.resolve_right hp)
  constructor
  . exact hlen
  . intro a _
    rfl
  . exact Nat.le_refl _
  . rfl
  . rfl
  . exact Nat.zero_le _
  . intro i r hr
    simp [initial] at hr
  . intro i r _ hr
    simp [initial] at hr
  . intro i r _ hr
    simp [initial] at hr
  . trivial

theorem Holds.frame_of_ne {buf buf' : ByteMem} {ws : List Nat} {k j w : Nat}
    (h : Holds p buf (start ws j) r) (hptr : r.ptr = data p + (start ws j + 8) % cap p)
    (hbuf : WritesWithin p buf buf' (start ws i) w) (hki : k ≤ i) (hkj : k ≤ j) (hij : i ≠ j)
    (hi : ws[i]? = some w) (hj : ws[j]? = some r.width)
    (hwindow : start ws ws.length ≤ start ws k + cap p)
    : Holds p buf' (start ws j) r := by
  apply h.frame hptr
  intro x hx
  apply hbuf.2.2
  have hilt := (List.getElem?_eq_some_iff.mp hi).1
  have hjlt := (List.getElem?_eq_some_iff.mp hj).1
  exact not_within_of_ne hkj hki hij.symm hj hi hjlt hilt hwindow hx

theorem ConsumerOk.of_pos {s' : State} (h : ConsumerOk s) (hconsumer : s'.consumer = s.consumer)
    (hcons : s'.rb.consumerPos = s.rb.consumerPos) (hconsumed : s'.consumed = s.consumed)
    (hlen : s.records.length ≤ s'.records.length)
    (hpos : ∀ i ≤ s.records.length, s'.pos i = s.pos i)
    : ConsumerOk s' := by
  unfold ConsumerOk at *
  rw [hconsumer, hcons, hconsumed]
  cases hc : s.consumer with
  | returned _ => trivial
  | outer _ _ =>
    rw [hc] at h
    exact h
  | inner consPos prodPos _ _ =>
    rw [hc] at h
    rcases h with ⟨heq, l, hle, hlen', hprod⟩
    refine ⟨heq, l, hle, ?_, ?_⟩
    . omega
    . rw [hpos l hlen']
      exact hprod

theorem widths_set {rs : List Record} {r' : Record} (hr : rs[i]? = some r)
    (hsize : r'.size = r.size)
    : widths (rs.set i r') = widths rs := by
  have hlt := (List.getElem?_eq_some_iff.mp (getElem?_widths hr)).1
  have hwidth : r'.width = (widths rs)[i] := by
    rw [(List.getElem?_eq_some_iff.mp (getElem?_widths hr)).2]
    unfold Record.width
    rw [hsize]
  show (rs.set i r').map Record.width = _
  rw [List.map_set, hwidth]
  exact List.set_getElem_self hlt

theorem getElem?_set_cases {rs : List Record} {j : Nat} {q : Record} (hi : i < rs.length)
    (h : (rs.set i r)[j]? = some q)
    : (j = i ∧ q = r) ∨ (j ≠ i ∧ rs[j]? = some q) := by
  by_cases hji : j = i
  . rw [hji, List.getElem?_set_self hi] at h
    cases h
    exact Or.inl ⟨hji, rfl⟩
  . rw [List.getElem?_set_ne (Ne.symm hji)] at h
    exact Or.inr ⟨hji, h⟩

theorem Inv.set (h : Inv p s) {r' : Record} {buf : ByteMem}
    (hr : s.records[i]? = some r) (hi : s.consumed ≤ i) (hsize : r'.size = r.size)
    (hptr : r'.ptr = r.ptr) (hbuf : WritesWithin p s.rb.rawBuffer buf (s.pos i) r.width)
    (hholds : Holds p buf (s.pos i) r')
    : Inv p { s with rb := { s.rb with rawBuffer := buf }, records := s.records.set i r' } := by
  have hilt := (List.getElem?_eq_some_iff.mp hr).1
  generalize hs' : { s with rb := { s.rb with rawBuffer := buf }, records := s.records.set i r' } = s'
  have hpos : s'.pos = s.pos := by
    subst hs'
    unfold State.pos
    rw [widths_set hr hsize]
  have hlength : s'.records.length = s.records.length := by
    subst hs'
    exact List.length_set
  have hcases : ∀ j q, s'.records[j]? = some q →
      (j = i ∧ q = r') ∨ (j ≠ i ∧ s.records[j]? = some q) := by
    subst hs'
    intro j q hq
    exact getElem?_set_cases hilt hq
  have hconsumed : s'.consumed = s.consumed := by rw [← hs']
  have hraw : s'.rb.rawBuffer = buf := by rw [← hs']
  have hconsPos : s'.rb.consumerPos = s.rb.consumerPos := by rw [← hs']
  constructor
  . rw [hraw, hbuf.1]
    exact h.len
  . intro a ha
    rw [hraw, hbuf.2.1 a ha]
    exact h.low a ha
  . rw [hlength, hconsumed]
    exact h.consumed_le
  . rw [hlength, hpos, ← h.prod, ← hs']
  . rw [hconsumed, hconsPos, hpos]
    exact h.cons
  . rw [hlength, hconsumed, hpos]
    exact h.window
  . intro j q hq
    rw [hpos]
    rcases hcases j q hq with ⟨rfl, rfl⟩ | ⟨-, hq'⟩
    . have hshape := h.shape j r hr
      constructor
      . rw [hsize]
        exact hshape.size_lt
      . unfold Record.width
        rw [hsize]
        exact hshape.width_le
      . rw [hptr]
        exact hshape.ptr_eq
    . exact h.shape j q hq'
  . intro j q hj hq
    rw [hpos, hraw]
    rw [hconsumed] at hj
    rcases hcases j q hq with ⟨rfl, rfl⟩ | ⟨hji, hq'⟩
    . exact hholds
    . apply (h.live j q hj hq').frame_of_ne (h.shape j q hq').ptr_eq hbuf hi hj (Ne.symm hji)
      . exact getElem?_widths hr
      . exact getElem?_widths hq'
      . rw [length_widths]
        exact h.window
  . intro j q hj hq
    rw [hconsumed] at hj
    rcases hcases j q hq with ⟨rfl, rfl⟩ | ⟨-, hq'⟩
    . omega
    . exact h.past j q hj hq'
  . apply h.consumer.of_pos
    . rw [← hs']
    . exact hconsPos
    . exact hconsumed
    . omega
    . intro j _
      rw [hpos]

end Bpftime.RingbufMap
