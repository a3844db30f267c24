import Bpftime.BpfMap.Ringbuf.Lemmas.Invariant

namespace Bpftime.RingbufMap

open ByteMem RingSpace

variable {p : Params}

theorem reserve_len {rb rb' : Ringbuf} {size : UInt64} {fd : Int32} {ptr : Nat}
    (h : reserve p rb size fd = some (.ok (ptr, rb')))
    : rb'.rawBuffer.len = rb.rawBuffer.len := by
  unfold reserve at h
  split at h
  . cases h
  . dsimp only at h
    unfold store32 at h
    simp only [Option.bind_eq_bind, Option.bind_eq_some_iff] at h
    rcases h with ⟨buf, hbuf, buf', hbuf', h⟩
    cases h
    dsimp only
    rw [len_of_store hbuf', len_of_store hbuf]

theorem submit_len {rb rb' : Ringbuf} {sample : Nat} {discard : Bool}
    (h : submit p rb sample discard = some rb')
    : rb'.rawBuffer.len = rb.rawBuffer.len := by
  unfold submit at h
  unfold store32 at h
  simp only [Option.bind_eq_bind, Option.bind_eq_some_iff] at h
  rcases h with ⟨len, -, buf, hbuf, h⟩
  cases h
  exact len_of_store hbuf

theorem fetchData_rawBuffer {rb : Ringbuf} {c : Consumer} {err : Int32} {f : Fetched}
    (h : fetchData p rb c err = some f)
    : f.rb.rawBuffer = rb.rawBuffer := by
  unfold fetchData at h
  split at h
  . cases h
    rfl
  . cases h
    rfl
  . split at h
    . simp only [Option.bind_eq_bind, Option.bind_eq_some_iff] at h
      rcases h with ⟨len, -, h⟩
      split at h
      . cases h
        rfl
      . split at h
        . simp only [Option.bind_eq_some_iff] at h
          rcases h with ⟨bytes, -, h⟩
          split at h
          . cases h
            rfl
          . cases h
            rfl
        . cases h
          rfl
    . split at h
      . cases h
        rfl
      . cases h
        rfl

variable {s : State} {r : Record} {c q : UInt64} {got : Bool} {cnt : Int64}

theorem step_len {s' : State} {op : Op} (h : step p s op = some s')
    : s'.rb.rawBuffer.len = s.rb.rawBuffer.len := by
  unfold step at h
  split at h
  next size fd =>
    simp only [Option.bind_eq_bind, Option.bind_eq_some_iff] at h
    rcases h with ⟨res, hres, h⟩
    split at h
    . cases h
      rfl
    . cases h
      exact reserve_len hres
  next i content =>
    split at h
    . cases h
      rfl
    . split at h
      . simp only [Option.bind_eq_bind, Option.bind_eq_some_iff] at h
        rcases h with ⟨buf, hbuf, h⟩
        cases h
        exact len_of_store hbuf
      . cases h
        rfl
  next i discard =>
    split at h
    . cases h
      rfl
    . simp only [Option.bind_eq_bind, Option.bind_eq_some_iff] at h
      rcases h with ⟨rb, hrb, h⟩
      cases h
      exact submit_len hrb
  next err =>
    simp only [Option.bind_eq_bind, Option.bind_eq_some_iff] at h
    rcases h with ⟨f, hf, h⟩
    cases h
    dsimp only
    rw [fetchData_rawBuffer hf]

theorem owned_eq_some_iff {i : Nat}
    : s.owned i = some r ↔ s.records[i]? = some r ∧ r.status = .busy := by
  unfold State.owned
  rw [Option.filter_eq_some_iff]
  simp

theorem Inv.consumed_le_of_busy (h : Inv p s) {i : Nat}
    (hr : s.records[i]? = some r) (hbusy : r.status = .busy)
    : s.consumed ≤ i := by
  rcases Nat.lt_or_ge i s.consumed with hlt | hge
  . exact absurd hbusy (h.past i r hlt hr)
  . exact hge

inductive Reserved (p : Params) (s : State) (size : UInt64) (fd : Int32) : State → Prop where
  | refused (e : Errno) (he : reserveCheck p s.rb size = .error e) : Reserved p s size fd s
  | granted (buf : ByteMem) (hcheck : reserveCheck p s.rb size = .ok ())
      (hbuf : WritesWithin p s.rb.rawBuffer buf (s.pos s.records.length) (total size.toNat))
      (hholds : Holds p buf (s.pos s.records.length)
        ⟨size, fd, data p + (s.pos s.records.length + 8) % cap p, .busy, none⟩)
      : Reserved p s size fd
          { s with
            rb := ⟨buf, s.rb.consumerPos, s.rb.producerPos + totalSize size⟩
            records := s.records ++
              [⟨size, fd, data p + (s.pos s.records.length + 8) % cap p, .busy, none⟩] }

theorem Inv.step_reserve (h : Inv p s) (size : UInt64) (fd : Int32)
    : ∃ s', step p s (.reserve size fd) = some s' ∧ Reserved p s size fd s' := by
  cases hcheck : reserveCheck p s.rb size with
  | error e =>
    exists s
    refine ⟨?_, .refused e hcheck⟩
    unfold step reserve
    dsimp only
    rw [hcheck]
    rfl
  | ok u =>
    have h8 : 8 ≤ cap p := by
      have hle := le_total size.toNat
      have := (reserveCheck_ok hcheck).2.1
      omega
    rcases reserve_spec fd hcheck h.prod (h.header_le h8 _) with ⟨buf, heq, hbuf, hholds⟩
    refine ⟨_, ?_, .granted buf hcheck hbuf hholds⟩
    unfold step
    dsimp only
    rw [heq]
    rfl

inductive Written (p : Params) (s : State) (i : Nat) (content : List UInt8) : State → Prop where
  | ignored (hno : ∀ r, s.owned i = some r → content.length ≠ r.size.toNat) : Written p s i content s
  | stored (r : Record) (hr : s.records[i]? = some r) (hbusy : r.status = .busy)
      (hlen : content.length = r.size.toNat)
      : Written p s i content
          { s with
            rb := { s.rb with rawBuffer := s.rb.rawBuffer.write r.ptr content }
            records := s.records.set i { r with content := some content } }

theorem Inv.step_write (h : Inv p s) (i : Nat) (content : List UInt8)
    : ∃ s', step p s (.write i content) = some s' ∧ Written p s i content s' := by
  unfold step
  dsimp only
  cases ho : s.owned i with
  | none =>
    refine ⟨s, rfl, .ignored ?_⟩
    intro r hr
    rw [ho] at hr
    contradiction
  | some r =>
    rcases owned_eq_some_iff.mp ho with ⟨hr, hbusy⟩
    dsimp only
    split
    next hlen =>
      refine ⟨_, ?_, .stored r hr hbusy hlen⟩
      have := h.payload_le hr
      rw [store_eq_some (by omega)]
      rfl
    next hlen =>
      refine ⟨s, rfl, .ignored ?_⟩
      intro r' hr'
      rw [ho] at hr'
      cases hr'
      exact hlen

inductive Submitted (p : Params) (s : State) (i : Nat) (discard : Bool) : State → Prop where
  | ignored (hno : s.owned i = none) : Submitted p s i discard s
  | stored (r : Record) (hr : s.records[i]? = some r) (hbusy : r.status = .busy) (w : UInt32)
      (hholds : Holds p (s.rb.rawBuffer.write (data p + s.pos i % cap p) (encode32 w)) (s.pos i)
        { r with status := if discard then .discarded else .committed })
      : Submitted p s i discard
          { s with
            rb := { s.rb with
              rawBuffer := s.rb.rawBuffer.write (data p + s.pos i % cap p) (encode32 w) }
            records := s.records.set i { r with status := if discard then .discarded else .committed } }

theorem Inv.step_submit (h : Inv p s) (i : Nat) (discard : Bool)
    : ∃ s', step p s (.submit i discard) = some s' ∧ Submitted p s i discard s' := by
  unfold step
  dsimp only
  cases ho : s.owned i with
  | none => exact ⟨s, rfl, .ignored ho⟩
  | some r =>
    rcases owned_eq_some_iff.mp ho with ⟨hr, hbusy⟩
    have hshape := h.shape i r hr
    have hholds := h.live i r (h.consumed_le_of_busy hr hbusy) hr
    rcases submit_spec hholds hbusy hshape.size_lt hshape.width_le hshape.ptr_eq
      (h.header_le hshape.eight_le i) discard with ⟨w, heq, hholds'⟩
    refine ⟨_, ?_, .stored r hr hbusy w hholds'⟩
    dsimp only
    rw [heq]
    rfl

def sampleAt (p : Params) (s : State) (i : Nat) (r : Record) : Sample :=
  ⟨data p + s.pos i % cap p + 8, r.size.toNat,
    s.rb.rawBuffer.bytes (data p + s.pos i % cap p + 8) r.size.toNat⟩

def advance (s : State) (r : Record) (c : Consumer) (delivered : List Delivery) : State :=
  { s with
    rb := { s.rb with consumerPos := s.rb.consumerPos + UInt64.ofNat r.width }
    consumer := c
    consumed := s.consumed + 1
    delivered := s.delivered ++ delivered }

inductive FetchStep (p : Params) (s : State) (err : Int32) : State → Prop where
  | start (ret : Int32) (hc : s.consumer = .returned ret)
      : FetchStep p s err { s with consumer := .outer s.rb.consumerPos 0 }
  | load (c : UInt64) (cnt : Int64) (hc : s.consumer = .outer c cnt)
      : FetchStep p s err { s with consumer := .inner c s.rb.producerPos false cnt }
  | again (c q : UInt64) (cnt : Int64) (hc : s.consumer = .inner c q true cnt) (hcq : ¬ c < q)
      : FetchStep p s err { s with consumer := .outer c cnt }
  | done (c q : UInt64) (cnt : Int64) (hc : s.consumer = .inner c q false cnt) (hcq : ¬ c < q)
      : FetchStep p s err { s with consumer := .returned cnt.toInt32 }
  | busy (c q : UInt64) (got : Bool) (cnt : Int64) (hc : s.consumer = .inner c q got cnt) (hcq : c < q)
      (r : Record) (hr : s.records[s.consumed]? = some r) (hbusy : r.status = .busy)
      : FetchStep p s err { s with consumer := .returned cnt.toInt32 }
  | skip (c q : UInt64) (got : Bool) (cnt : Int64) (hc : s.consumer = .inner c q got cnt) (hcq : c < q)
      (r : Record) (hr : s.records[s.consumed]? = some r) (hdiscarded : r.status = .discarded)
      : FetchStep p s err (advance s r (.inner (c + UInt64.ofNat r.width) q true cnt) [])
  | deliver (c q : UInt64) (got : Bool) (cnt : Int64) (hc : s.consumer = .inner c q got cnt)
      (hcq : c < q) (r : Record) (hr : s.records[s.consumed]? = some r)
      (hcommitted : r.status = .committed)
      : FetchStep p s err
          (advance s r
            (if err < 0 then .returned err else .inner (c + UInt64.ofNat r.width) q true (cnt + 1))
            [⟨s.consumed, sampleAt p s s.consumed r⟩])

theorem Inv.next_record (h : Inv p s) (hc : s.consumer = .inner c q got cnt) (hcq : c < q)
    : ∃ r, s.records[s.consumed]? = some r := by
  have hcons := h.consumer
  unfold ConsumerOk at hcons
  rw [hc] at hcons
  rcases hcons with ⟨rfl, l, hle, hlen, hq⟩
  have hne : l ≠ s.consumed := by
    rintro rfl
    rw [UInt64.lt_iff_toNat_lt, hq, h.cons] at hcq
    omega
  have hlt : s.consumed < s.records.length := by omega
  exact ⟨s.records[s.consumed], List.getElem?_eq_getElem hlt⟩

theorem Holds.roundupLen_eq {buf : ByteMem} {pos : Nat} (h : Holds p buf pos r)
    (hsize : r.size.toNat < 2 ^ 30) (hbusy : r.status ≠ .busy)
    : (roundupLen (decode32 (buf.bytes (data p + pos % cap p) 4))).toUInt64 = UInt64.ofNat r.width := by
  apply UInt64.toNat.inj
  rw [UInt32.toNat_toUInt64, toNat_roundupLen, h.len, UInt64.toNat_ofNat']
  have hmod : (r.size.toNat + r.status.bits) % 2 ^ 30 = r.size.toNat := by
    cases hs : r.status with
    | busy => contradiction
    | committed | discarded =>
      simp only [Status.bits]
      omega
  rw [hmod]
  unfold Record.width total
  omega

structure NextHeader (p : Params) (s : State) (c : UInt64) (r : Record) (len : UInt32) : Prop where
  headerAt_eq : headerAt p c = data p + s.pos s.consumed % cap p
  load_eq : s.rb.rawBuffer.load32 (headerAt p c) = some len
  toNat_len : len.toNat = r.size.toNat + r.status.bits
  busy_iff : len &&& BPF_RINGBUF_BUSY_BIT = 0 ↔ r.status ≠ .busy
  discard_iff : len &&& BPF_RINGBUF_DISCARD_BIT = 0 ↔ r.status ≠ .discarded
  roundup : r.status ≠ .busy → (roundupLen len).toUInt64 = UInt64.ofNat r.width
  consPos_eq : c = s.rb.consumerPos

theorem Inv.nextHeader (h : Inv p s)
    (hc : s.consumer = .inner c q got cnt) (hr : s.records[s.consumed]? = some r)
    : ∃ len, NextHeader p s c r len := by
  have hshape := h.shape _ r hr
  have hholds := h.live _ r (Nat.le_refl _) hr
  have hsize := hshape.size_lt
  have hheader := h.header_le hshape.eight_le s.consumed
  have hcons := h.consumer
  unfold ConsumerOk at hcons
  rw [hc] at hcons
  have hcpos : headerAt p c = data p + s.pos s.consumed % cap p := by
    rw [headerAt_eq, hcons.1, h.cons, mod_cap_of_mod]
  exists decode32 (s.rb.rawBuffer.bytes (data p + s.pos s.consumed % cap p) 4)
  constructor
  . exact hcpos
  . rw [hcpos, load32_eq_some (by omega)]
  . exact hholds.len
  . rw [and_busy_eq_zero_iff, hholds.len]
    cases r.status <;> simp only [Status.bits, ne_eq, reduceCtorEq, not_true, not_false_eq_true,
      iff_false, iff_true] <;> omega
  . rw [and_discard_eq_zero_iff, hholds.len]
    cases r.status <;> simp only [Status.bits, ne_eq, reduceCtorEq, not_true, not_false_eq_true,
      iff_false, iff_true] <;> omega
  . exact hholds.roundupLen_eq hsize
  . exact hcons.1

theorem Inv.load_sample (h : Inv p s) (hr : s.records[s.consumed]? = some r)
    : s.rb.rawBuffer.load (data p + s.pos s.consumed % cap p + BPF_RINGBUF_HDR_SZ.toNat)
        r.size.toNat = some (sampleAt p s s.consumed r).bytes := by
  have hshape := h.shape _ r hr
  have hwidth : r.size.toNat + 8 ≤ r.width := le_total _
  have hle := hshape.width_le
  have hmod := mod_cap_add_le hshape.eight_le (dvd_pos s s.consumed)
  have hl := h.len
  apply load_eq_some
  show data p + s.pos s.consumed % cap p + 8 + r.size.toNat ≤ s.rb.rawBuffer.len
  omega

theorem Inv.fetchData_eq (h : Inv p s) (err : Int32) (hcq : c < q)
    (hr : s.records[s.consumed]? = some r) {len : UInt32} (hnext : NextHeader p s c r len)
    : fetchData p s.rb (.inner c q got cnt) err
        =
      some (match r.status with
        | .busy => ⟨s.rb, .returned cnt.toInt32, false, none⟩
        | .discarded =>
          ⟨{ s.rb with consumerPos := s.rb.consumerPos + UInt64.ofNat r.width },
            .inner (c + UInt64.ofNat r.width) q true cnt, true, none⟩
        | .committed =>
          ⟨{ s.rb with consumerPos := s.rb.consumerPos + UInt64.ofNat r.width },
            if err < 0 then .returned err else .inner (c + UInt64.ofNat r.width) q true (cnt + 1),
            true, some (sampleAt p s s.consumed r)⟩) := by
  have hlen := hnext.toNat_len
  unfold fetchData
  dsimp only
  rw [if_pos hcq, hnext.load_eq]
  simp only [Option.bind_eq_bind, Option.bind_some]
  cases hstatus : r.status with
  | busy =>
    rw [if_pos (by simp [hnext.busy_iff, hstatus])]
    rfl
  | discarded =>
    rw [if_neg (by simp [hnext.busy_iff, hstatus]), if_neg (by simp [hnext.discard_iff, hstatus]),
      hnext.roundup (by simp [hstatus]), hnext.consPos_eq]
    rfl
  | committed =>
    rw [hstatus, Status.bits, Nat.add_zero] at hlen
    rw [if_neg (by simp [hnext.busy_iff, hstatus]), if_pos (by simp [hnext.discard_iff, hstatus]),
      hnext.roundup (by simp [hstatus]), hnext.headerAt_eq, hlen, h.load_sample hr, hnext.consPos_eq]
    simp only [Option.bind_some]
    split <;> rfl

theorem Inv.step_fetch (h : Inv p s) (err : Int32)
    : ∃ s', step p s (.fetch err) = some s' ∧ FetchStep p s err s' := by
  unfold step
  dsimp only
  cases hc : s.consumer with
  | returned ret =>
    refine ⟨_, rfl, ?_⟩
    simp only [Option.map_none, Option.toList_none, List.append_nil, Bool.false_eq_true, if_false]
    exact .start ret hc
  | outer c cnt =>
    refine ⟨_, rfl, ?_⟩
    simp only [Option.map_none, Option.toList_none, List.append_nil, Bool.false_eq_true, if_false]
    exact .load c cnt hc
  | inner c q got cnt =>
    by_cases hcq : c < q
    . rcases h.next_record hc hcq with ⟨r, hr⟩
      rcases h.nextHeader hc hr with ⟨len, hnext⟩
      rw [h.fetchData_eq err hcq hr hnext]
      cases hstatus : r.status with
      | busy =>
        refine ⟨_, rfl, ?_⟩
        simp only [Option.map_none, Option.toList_none, List.append_nil, Bool.false_eq_true, if_false]
        exact .busy c q got cnt hc hcq r hr hstatus
      | discarded => exact ⟨_, rfl, .skip c q got cnt hc hcq r hr hstatus⟩
      | committed => exact ⟨_, rfl, .deliver c q got cnt hc hcq r hr hstatus⟩
    . unfold fetchData
      dsimp only
      rw [if_neg hcq]
      cases got with
      | true =>
        refine ⟨_, rfl, ?_⟩
        simp only [Option.map_none, Option.toList_none, List.append_nil, Bool.false_eq_true, if_false]
        exact .again c q cnt hc hcq
      | false =>
        refine ⟨_, rfl, ?_⟩
        simp only [Option.map_none, Option.toList_none, List.append_nil, Bool.false_eq_true, if_false]
        exact .done c q cnt hc hcq

end Bpftime.RingbufMap
