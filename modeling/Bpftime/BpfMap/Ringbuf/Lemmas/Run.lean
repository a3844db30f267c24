import Bpftime.BpfMap.Ringbuf.Lemmas.Step

namespace Bpftime.RingbufMap

open ByteMem RingSpace

variable {p : Params}

variable {s s' : State}

theorem Inv.toNat_sub (h : Inv p s)
    : (s.rb.producerPos - s.rb.consumerPos).toNat = s.pos s.records.length - s.pos s.consumed := by
  have hcap := @cap_lt p
  have hwindow := h.window
  have hle := @State.pos_le s _ _ h.consumed_le
  rw [UInt64.toNat_sub, h.prod, h.cons]
  omega

theorem Inv.window_of_check (h : Inv p s) {size : UInt64}
    (hcheck : reserveCheck p s.rb size = .ok ())
    : s.pos s.records.length + total size.toNat ≤ s.pos s.consumed + cap p := by
  rcases reserveCheck_ok hcheck with ⟨-, -, havail⟩
  have hcap := @cap_lt p
  have hwindow := h.window
  have hle := @State.pos_le s _ _ h.consumed_le
  rw [UInt64.toNat_sub, h.toNat_sub, UInt32.toNat_toUInt64] at havail
  unfold cap at *
  omega

section Append

variable {rs : List Record} {new : Record}

theorem widths_append : widths (rs ++ [new]) = widths rs ++ [new.width] := by
  unfold widths
  rw [List.map_append]
  rfl

theorem start_widths_append {i : Nat} (hi : i ≤ rs.length)
    : start (widths (rs ++ [new])) i = start (widths rs) i := by
  rw [widths_append]
  apply start_append
  rw [length_widths]
  exact hi

theorem getElem?_widths_last : (widths (rs ++ [new]))[rs.length]? = some new.width := by
  rw [widths_append, ← length_widths]
  exact List.getElem?_concat_length

theorem getElem?_append_cases {j : Nat} {r : Record} (h : (rs ++ [new])[j]? = some r)
    : (j < rs.length ∧ rs[j]? = some r) ∨ (j = rs.length ∧ r = new) := by
  rw [List.getElem?_append] at h
  split at h
  next hlt => exact Or.inl ⟨hlt, h⟩
  next hge =>
    right
    rw [List.getElem?_singleton] at h
    split at h
    next heq =>
      cases h
      exact ⟨by omega, rfl⟩
    next => contradiction

end Append

theorem Inv.append (h : Inv p s) {size : UInt64} {fd : Int32} {buf : ByteMem}
    (hcheck : reserveCheck p s.rb size = .ok ())
    (hbuf : WritesWithin p s.rb.rawBuffer buf (s.pos s.records.length) (total size.toNat))
    (hholds : Holds p buf (s.pos s.records.length)
      ⟨size, fd, data p + (s.pos s.records.length + 8) % cap p, .busy, none⟩)
    : Inv p { s with
        rb := ⟨buf, s.rb.consumerPos, s.rb.producerPos + totalSize size⟩
        records := s.records ++
          [⟨size, fd, data p + (s.pos s.records.length + 8) % cap p, .busy, none⟩] } := by
  rcases reserveCheck_ok hcheck with ⟨hsize, hcap, -⟩
  generalize hnew : Record.mk size fd (data p + (s.pos s.records.length + 8) % cap p) .busy none = new
    at hholds ⊢
  generalize hs' : { s with
    rb := ⟨buf, s.rb.consumerPos, s.rb.producerPos + totalSize size⟩
    records := s.records ++ [new] } = s'
  have hrecords : s'.records = s.records ++ [new] := by rw [← hs']
  have hconsumed : s'.consumed = s.consumed := by rw [← hs']
  have hwidth : new.width = total size.toNat := by rw [← hnew]; rfl
  have hpos : ∀ i ≤ s.records.length, s'.pos i = s.pos i := by
    intro i hi
    unfold State.pos
    rw [hrecords]
    exact start_widths_append hi
  have hlast : (widths s'.records)[s.records.length]? = some (total size.toNat) := by
    rw [hrecords, ← hwidth]
    exact getElem?_widths_last
  have hposLast : s'.pos (s.records.length + 1) = s.pos s.records.length + total size.toNat := by
    rw [← hpos _ (Nat.le_refl _)]
    exact start_succ hlast
  have hlength : s'.records.length = s.records.length + 1 := by
    rw [hrecords, List.length_append]
    rfl
  have hcases : ∀ j q, s'.records[j]? = some q →
      (j < s.records.length ∧ s.records[j]? = some q) ∨ (j = s.records.length ∧ q = new) := by
    intro j q hq
    rw [hrecords] at hq
    exact getElem?_append_cases hq
  have hwindow : s'.pos (s.records.length + 1) ≤ s'.pos s.consumed + cap p := by
    rw [hposLast, hpos _ h.consumed_le]
    exact h.window_of_check hcheck
  constructor
  . rw [← hs']
    rw [← h.len]
    exact hbuf.1
  . intro a ha
    rw [← hs']
    rw [← h.low a ha]
    exact hbuf.2.1 a ha
  . rw [hlength, hconsumed]
    have := h.consumed_le
    omega
  . rw [hlength, hposLast, ← hs']
    dsimp only
    rw [UInt64.toNat_add, h.prod, toNat_totalSize (by omega)]
    omega
  . rw [hconsumed, hpos _ h.consumed_le, ← h.cons, ← hs']
  . rw [hlength, hconsumed]
    exact hwindow
  . intro j q hq
    rcases hcases j q hq with ⟨hlt, hq'⟩ | ⟨rfl, rfl⟩
    . rw [hpos j (by omega)]
      exact h.shape j q hq'
    . rw [hpos _ (Nat.le_refl _), ← hnew]
      exact ⟨hsize, hcap, rfl⟩
  . intro j q hj hq
    rw [hconsumed] at hj
    have hraw : s'.rb.rawBuffer = buf := by rw [← hs']
    rw [hraw]
    rcases hcases j q hq with ⟨hlt, hq'⟩ | ⟨rfl, rfl⟩
    . have hold := h.live j q hj hq'
      have hptr := (h.shape j q hq').ptr_eq
      rw [← hpos j (by omega)] at hold hptr
      rw [← hpos _ (Nat.le_refl _)] at hbuf
      apply hold.frame_of_ne hptr hbuf h.consumed_le hj (by omega) hlast (getElem?_widths hq)
      rw [length_widths, hlength]
      exact hwindow
    . rw [hpos _ (Nat.le_refl _)]
      exact hholds
  . intro j q hj hq
    rw [hconsumed] at hj
    have := h.consumed_le
    rcases hcases j q hq with ⟨-, hq'⟩ | ⟨rfl, -⟩
    . exact h.past j q hj hq'
    . omega
  . apply h.consumer.of_pos
    . rw [← hs']
    . rw [← hs']
    . exact hconsumed
    . omega
    . exact hpos

theorem Inv.of_consumer (h : Inv p s) {c : Consumer} (hc : ConsumerOk { s with consumer := c })
    : Inv p { s with consumer := c } :=
  ⟨h.len, h.low, h.consumed_le, h.prod, h.cons, h.window, h.shape, h.live, h.past, hc⟩

theorem Inv.inner_lt (h : Inv p s) {c q : UInt64} {got : Bool} {cnt : Int64}
    (hc : s.consumer = .inner c q got cnt) (hcq : c < q)
    : ∃ l, s.consumed + 1 ≤ l ∧ l ≤ s.records.length ∧ q.toNat = s.pos l % 2 ^ 64 := by
  have hcons := h.consumer
  unfold ConsumerOk at hcons
  rw [hc] at hcons
  rcases hcons with ⟨rfl, l, hle, hlen, hq⟩
  refine ⟨l, ?_, hlen, hq⟩
  have hne : l ≠ s.consumed := by
    rintro rfl
    rw [UInt64.lt_iff_toNat_lt, hq, h.cons] at hcq
    omega
  omega

theorem Inv.advance (h : Inv p s) {r : Record} (hr : s.records[s.consumed]? = some r)
    (hbusy : r.status ≠ .busy) {c : Consumer} {delivered : List Delivery}
    (hc : ConsumerOk (RingbufMap.advance s r c delivered))
    : Inv p (RingbufMap.advance s r c delivered) := by
  have hpos := State.pos_succ hr
  have hlt := (List.getElem?_eq_some_iff.mp hr).1
  constructor
  . exact h.len
  . exact h.low
  . exact hlt
  . exact h.prod
  . have hcap := @cap_lt p
    have hwidth := (h.shape _ r hr).width_le
    show (s.rb.consumerPos + UInt64.ofNat r.width).toNat = s.pos (s.consumed + 1) % 2 ^ 64
    rw [UInt64.toNat_add, h.cons, UInt64.toNat_ofNat', hpos]
    omega
  . show s.pos s.records.length ≤ s.pos (s.consumed + 1) + cap p
    have := h.window
    omega
  . exact h.shape
  . intro i q hi hq
    apply h.live i q _ hq
    exact Nat.le_of_succ_le hi
  . intro i q hi hq
    rcases Nat.lt_succ_iff_lt_or_eq.mp hi with hlt' | rfl
    . exact h.past i q hlt' hq
    . have hq' : s.records[s.consumed]? = some q := hq
      rw [hr] at hq'
      cases hq'
      exact hbusy
  . exact hc

theorem Inv.fetchStep {err : Int32} (h : Inv p s) (hstep : FetchStep p s err s') : Inv p s' := by
  cases hstep with
  | start ret hc => exact h.of_consumer rfl
  | load c cnt hc =>
    apply h.of_consumer
    have hcons := h.consumer
    unfold ConsumerOk at hcons
    rw [hc] at hcons
    exact ⟨hcons, s.records.length, h.consumed_le, Nat.le_refl _, h.prod⟩
  | again c q cnt hc hcq =>
    apply h.of_consumer
    have hcons := h.consumer
    unfold ConsumerOk at hcons
    rw [hc] at hcons
    exact hcons.1
  | done c q cnt hc hcq | busy c q got cnt hc hcq r hr hbusy => exact h.of_consumer trivial
  | skip c q got cnt hc hcq r hr hdiscarded =>
    apply h.advance hr (by simp [hdiscarded])
    rcases h.nextHeader hc hr with ⟨len, hnext⟩
    refine ⟨?_, h.inner_lt hc hcq⟩
    rw [hnext.consPos_eq]
    rfl
  | deliver c q got cnt hc hcq r hr hcommitted =>
    apply h.advance hr (by simp [hcommitted])
    rcases h.nextHeader hc hr with ⟨len, hnext⟩
    by_cases herr : err < 0
    . rw [if_pos herr]
      trivial
    . rw [if_neg herr]
      refine ⟨?_, h.inner_lt hc hcq⟩
      rw [hnext.consPos_eq]
      rfl

theorem Inv.written {i : Nat} {content : List UInt8} (h : Inv p s)
    (hstep : Written p s i content s')
    : Inv p s' := by
  cases hstep with
  | ignored _ => exact h
  | stored r hr hbusy hlen =>
    have hshape := h.shape i r hr
    have hi := h.consumed_le_of_busy hr hbusy
    apply h.set hr hi (by rfl) (by rfl)
    . exact writesWithin_payload _ hshape.ptr_eq hlen
    . exact (h.live i r hi hr).write hshape.ptr_eq hshape.width_le hlen

theorem writesWithin_header (buf : ByteMem) (pos : Nat) (r : Record) (w : UInt32)
    : WritesWithin p buf (buf.write (data p + pos % cap p) (encode32 w)) pos r.width := by
  have hwidth : r.size.toNat + 8 ≤ r.width := le_total _
  apply @writesWithin_write p pos buf _ 0 0 (encode32 w)
  rw [length_encode32]
  omega

theorem Inv.submitted {i : Nat} {discard : Bool} (h : Inv p s) (hstep : Submitted p s i discard s')
    : Inv p s' := by
  cases hstep with
  | ignored _ => exact h
  | stored r hr hbusy w hholds =>
    apply h.set hr (h.consumed_le_of_busy hr hbusy) (by rfl) (by rfl)
    . exact writesWithin_header _ _ r w
    . exact hholds

theorem Inv.reserved {size : UInt64} {fd : Int32} (h : Inv p s) (hstep : Reserved p s size fd s')
    : Inv p s' := by
  cases hstep with
  | refused _ _ => exact h
  | granted buf hcheck hbuf hholds => exact h.append hcheck hbuf hholds

inductive Stepped (p : Params) (s : State) : Op → State → Prop where
  | reserve {size : UInt64} {fd : Int32} {s' : State} (h : Reserved p s size fd s')
      : Stepped p s (.reserve size fd) s'
  | write {i : Nat} {content : List UInt8} {s' : State} (h : Written p s i content s')
      : Stepped p s (.write i content) s'
  | submit {i : Nat} {discard : Bool} {s' : State} (h : Submitted p s i discard s')
      : Stepped p s (.submit i discard) s'
  | fetch {err : Int32} {s' : State} (h : FetchStep p s err s') : Stepped p s (.fetch err) s'

theorem Inv.step_eq_some (h : Inv p s) (op : Op)
    : ∃ s', RingbufMap.step p s op = some s' ∧ Stepped p s op s' := by
  cases op with
  | reserve size fd =>
    rcases h.step_reserve size fd with ⟨s', heq, hs'⟩
    exact ⟨s', heq, .reserve hs'⟩
  | write i content =>
    rcases h.step_write i content with ⟨s', heq, hs'⟩
    exact ⟨s', heq, .write hs'⟩
  | submit i discard =>
    rcases h.step_submit i discard with ⟨s', heq, hs'⟩
    exact ⟨s', heq, .submit hs'⟩
  | fetch err =>
    rcases h.step_fetch err with ⟨s', heq, hs'⟩
    exact ⟨s', heq, .fetch hs'⟩

theorem Inv.stepped {op : Op} (h : Inv p s) (hstep : RingbufMap.step p s op = some s')
    : Stepped p s op s' := by
  rcases h.step_eq_some op with ⟨s'', heq, hs''⟩
  rw [hstep] at heq
  cases heq
  exact hs''

theorem Inv.step {op : Op} (h : Inv p s) (hstep : RingbufMap.step p s op = some s') : Inv p s' := by
  cases h.stepped hstep with
  | reserve hs' => exact h.reserved hs'
  | write hs' => exact h.written hs'
  | submit hs' => exact h.submitted hs'
  | fetch hs' => exact h.fetchStep hs'

end Bpftime.RingbufMap
