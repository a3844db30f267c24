import Bpftime.BpfMap.Ringbuf.Lemmas.Words
import Bpftime.Data.RingSpace

namespace Bpftime.RingbufMap

open ByteMem RingSpace

variable {p : Params}

def Status.bits : Status → Nat
  | .busy => 2 ^ 31
  | .committed => 0
  | .discarded => 2 ^ 30

def Record.width (r : Record) : Nat := total r.size.toNat

structure Holds (p : Params) (buf : ByteMem) (pos : Nat) (r : Record) : Prop where
  len : (decode32 (buf.bytes (data p + pos % cap p) 4)).toNat = r.size.toNat + r.status.bits
  fd : decode32 (buf.bytes (data p + pos % cap p + 4) 4) = r.fd.toUInt32
  content : ∀ c, r.content = some c → c.length = r.size.toNat ∧ buf.bytes r.ptr r.size.toNat = c

variable {buf buf' : ByteMem} {pos : Nat} {r : Record}

theorem byte_write_data (buf : ByteMem) (y : Nat) (bs : List UInt8) {x : Nat}
    (h : ¬ (y ≤ x ∧ x < y + bs.length))
    : (buf.write (data p + y) bs).byte (data p + x) = buf.byte (data p + x) := by
  apply byte_write_of_outside
  omega

theorem bytes_congr_data {y n : Nat}
    (h : ∀ i < n, buf'.byte (data p + (y + i)) = buf.byte (data p + (y + i)))
    : buf'.bytes (data p + y) n = buf.bytes (data p + y) n := by
  apply bytes_congr
  intro i hi
  rw [Nat.add_assoc]
  exact h i hi

theorem Holds.frame (h : Holds p buf pos r)
    (hptr : r.ptr = data p + (pos + 8) % cap p)
    (hsame : ∀ x, Within (cap p) pos r.width x → buf'.byte (data p + x) = buf.byte (data p + x))
    : Holds p buf' pos r := by
  have hwidth : r.size.toNat + 8 ≤ r.width := le_total _
  constructor
  . rw [← h.len]
    congr 2
    apply bytes_congr_data
    intro i hi
    apply hsame
    apply Within.of_lt
    omega
  . rw [← h.fd]
    congr 1
    rw [Nat.add_assoc]
    apply bytes_congr_data
    intro i hi
    apply hsame
    rw [Nat.add_assoc]
    apply Within.of_lt
    omega
  . intro c hc
    rcases h.content c hc with ⟨hlen, hbytes⟩
    refine ⟨hlen, ?_⟩
    rw [← hbytes, hptr]
    apply bytes_congr_data
    intro i hi
    apply hsame
    apply Within.of_add_lt
    omega

def WritesWithin (p : Params) (buf buf' : ByteMem) (pos width : Nat) : Prop :=
  buf'.len = buf.len
    ∧ (∀ a < data p, buf'.byte a = buf.byte a)
    ∧ ∀ x, ¬ Within (cap p) pos width x → buf'.byte (data p + x) = buf.byte (data p + x)

theorem WritesWithin.trans {buf'' : ByteMem} {width : Nat}
    (h : WritesWithin p buf buf' pos width) (h' : WritesWithin p buf' buf'' pos width)
    : WritesWithin p buf buf'' pos width := by
  rcases h with ⟨hlen, hlow, hsame⟩
  rcases h' with ⟨hlen', hlow', hsame'⟩
  refine ⟨by rw [hlen', hlen], ?_, ?_⟩
  . intro a ha
    rw [hlow' a ha, hlow a ha]
  . intro x hx
    rw [hsame' x hx, hsame x hx]

theorem writesWithin_write (buf : ByteMem) {width c e : Nat} {bs : List UInt8}
    (h : c + e + bs.length ≤ width)
    : WritesWithin p buf (buf.write (data p + ((pos + c) % cap p + e)) bs) pos width := by
  refine ⟨rfl, ?_, ?_⟩
  . intro a ha
    apply byte_write_of_outside
    omega
  . intro x hx
    apply byte_write_data
    rintro ⟨hle, hlt⟩
    apply hx
    have : x = (pos + c) % cap p + (x - (pos + c) % cap p) := by omega
    rw [this]
    apply Within.of_add_lt
    omega

theorem header_ne_payload {d e : Nat} (hd : d < 8) (he : 8 + e < cap p)
    : pos % cap p + d ≠ (pos + 8) % cap p + e := by
  intro heq
  have hmod : (pos + d) % cap p = (pos + (8 + e)) % cap p := by
    rw [← Nat.mod_add_mod, heq, Nat.mod_add_mod, Nat.add_assoc]
  have := @eq_of_mod_eq (cap p) pos (pos + d) (pos + (8 + e)) (by omega) (by omega) (by omega)
    (by omega) hmod
  omega

theorem reserveCheck_ok {rb : Ringbuf} {size : UInt64} (h : reserveCheck p rb size = .ok ())
    : size.toNat < 2 ^ 30
        ∧ total size.toNat ≤ cap p
        ∧ total size.toNat ≤ (p.maxEnt.toUInt64 - (rb.producerPos - rb.consumerPos)).toNat := by
  unfold reserveCheck at h
  dsimp only at h
  split at h
  . contradiction
  . next hflags =>
    rw [ne_eq, not_not, flags_clear_iff] at hflags
    have hlt := size.toNat_lt
    have hsum : size.toNat + 15 < 2 ^ 64 := by omega
    split at h
    . contradiction
    . next hcap =>
      rw [gt_iff_lt, UInt64.lt_iff_toNat_lt, toNat_totalSize hsum, UInt32.toNat_toUInt64] at hcap
      have hcap' : total size.toNat ≤ cap p := by
        unfold cap
        omega
      have hle := le_total size.toNat
      have hcaplt := @cap_lt p
      split at h
      . contradiction
      . next havail =>
        rw [UInt64.lt_iff_toNat_lt, toNat_totalSize hsum] at havail
        refine ⟨?_, hcap', ?_⟩ <;> omega

theorem reserve_spec {rb : Ringbuf} {size : UInt64} (fd : Int32)
    (hcheck : reserveCheck p rb size = .ok ()) (hpos : rb.producerPos.toNat = pos % 2 ^ 64)
    (hlen : data p + pos % cap p + 8 ≤ rb.rawBuffer.len)
    : ∃ buf,
        reserve p rb size fd
          =
        some (.ok (data p + (pos + 8) % cap p, ⟨buf, rb.consumerPos, rb.producerPos + totalSize size⟩))
          ∧ WritesWithin p rb.rawBuffer buf pos (total size.toNat)
          ∧ Holds p buf pos ⟨size, fd, data p + (pos + 8) % cap p, .busy, none⟩ := by
  have hsize := (reserveCheck_ok hcheck).1
  have hle := le_total size.toNat
  have hheader : headerAt p rb.producerPos = data p + pos % cap p := by
    rw [headerAt_eq, hpos, mod_cap_of_mod]
  have hptr : headerAt p (rb.producerPos + BPF_RINGBUF_HDR_SZ.toUInt64) = data p + (pos + 8) % cap p := by
    rw [headerAt_eq, UInt64.toNat_add, mod_cap_of_mod, hpos]
    show data p + (pos % 2 ^ 64 + 8) % cap p = _
    rw [← mod_cap_of_mod, Nat.mod_add_mod, mod_cap_of_mod]
  generalize hword : (size ||| BPF_RINGBUF_BUSY_BIT.toUInt64).toUInt32 = word
  have hwordNat : word.toNat = size.toNat + 2 ^ 31 := by
    rw [← hword]
    exact toNat_or_busy hsize
  exists (rb.rawBuffer.write (data p + pos % cap p) (encode32 word)).write
    (data p + pos % cap p + 4) (encode32 fd.toUInt32)
  refine ⟨?_, ?_, ?_⟩
  . unfold reserve
    rw [hcheck]
    simp only [hheader, hptr, hword, store32]
    rw [store_eq_some]
    . simp only [Option.bind_eq_bind, Option.bind_some]
      rw [store_eq_some]
      . rfl
      . simp only [write_len, length_encode32]
        omega
    . simp only [length_encode32]
      omega
  . apply WritesWithin.trans
    . apply @writesWithin_write p pos rb.rawBuffer _ 0 0 (encode32 word)
      rw [length_encode32]
      omega
    . rw [Nat.add_assoc]
      apply @writesWithin_write p pos _ _ 0 4 (encode32 fd.toUInt32)
      rw [length_encode32]
      omega
  . constructor
    . have : ((rb.rawBuffer.write (data p + pos % cap p) (encode32 word)).write
          (data p + pos % cap p + 4) (encode32 fd.toUInt32)).bytes (data p + pos % cap p) 4
            =
          (rb.rawBuffer.write (data p + pos % cap p) (encode32 word)).bytes (data p + pos % cap p) 4 := by
        apply bytes_congr
        intro i hi
        apply byte_write_of_outside
        omega
      rw [this, bytes_write32_self]
      exact hwordNat
    . exact bytes_write32_self _ _ _
    . intro c hc
      contradiction

theorem Holds.write (h : Holds p buf pos r)
    (hptr : r.ptr = data p + (pos + 8) % cap p) (hcap : r.width ≤ cap p) {c : List UInt8}
    (hc : c.length = r.size.toNat)
    : Holds p (buf.write r.ptr c) pos { r with content := some c } := by
  have hwidth : r.size.toNat + 8 ≤ r.width := le_total _
  have hother : ∀ d < 8, (buf.write r.ptr c).byte (data p + (pos % cap p + d))
      = buf.byte (data p + (pos % cap p + d)) := by
    intro d hd
    rw [hptr]
    apply byte_write_data
    rintro ⟨hle, hlt⟩
    apply @header_ne_payload p pos d (pos % cap p + d - (pos + 8) % cap p) hd
    . omega
    . omega
  constructor
  . rw [← h.len]
    congr 2
    apply bytes_congr_data
    intro i hi
    apply hother
    omega
  . rw [← h.fd]
    congr 1
    rw [Nat.add_assoc]
    apply bytes_congr_data
    intro i hi
    rw [Nat.add_assoc]
    apply hother
    omega
  . intro c' hc'
    cases hc'
    refine ⟨hc, ?_⟩
    dsimp only
    rw [← hc]
    apply bytes_write_self

theorem writesWithin_payload (buf : ByteMem)
    (hptr : r.ptr = data p + (pos + 8) % cap p) {c : List UInt8} (hc : c.length = r.size.toNat)
    : WritesWithin p buf (buf.write r.ptr c) pos r.width := by
  have hwidth : r.size.toNat + 8 ≤ r.width := le_total _
  rw [hptr]
  apply @writesWithin_write p pos buf _ 8 0 c
  omega

theorem hdrOffset_eq {sample : Nat} (h8 : 8 ≤ cap p) (hsample : sample = data p + (pos + 8) % cap p)
    : headerAt p
        ((mask p + 1).toUInt64 + (UInt64.ofNat sample - UInt64.ofNat (data p))
          - BPF_RINGBUF_HDR_SZ.toUInt64)
        =
      data p + pos % cap p := by
  have hcap := @cap_lt p
  have hpage := p.pageSize_le
  have hmod := Nat.mod_lt (pos + 8) (@cap_pos p)
  have hmask : (mask p + 1).toUInt64.toNat = cap p := by
    unfold mask cap
    rw [UInt32.sub_add_cancel, UInt32.toNat_toUInt64]
  have hdiff : (UInt64.ofNat sample - UInt64.ofNat (data p)).toNat = (pos + 8) % cap p := by
    rw [UInt64.toNat_sub, UInt64.toNat_ofNat', UInt64.toNat_ofNat']
    omega
  have hsum : ((mask p + 1).toUInt64 + (UInt64.ofNat sample - UInt64.ofNat (data p))
      - BPF_RINGBUF_HDR_SZ.toUInt64).toNat = cap p + (pos + 8) % cap p - 8 := by
    rw [UInt64.toNat_sub, UInt64.toNat_add, hmask, hdiff]
    show (2 ^ 64 - 8 + (cap p + (pos + 8) % cap p) % 2 ^ 64) % 2 ^ 64 = _
    omega
  rw [headerAt_eq, hsum]
  congr 1
  -- Both sides are the header's position after adding the header size again.
  apply Nat.ModEq.add_right_cancel' 8
  have : cap p + (pos + 8) % cap p - 8 + 8 = cap p + (pos + 8) % cap p := by omega
  unfold Nat.ModEq
  rw [this, Nat.add_mod_left, Nat.mod_mod]

theorem submit_spec {rb : Ringbuf} (h : Holds p rb.rawBuffer pos r)
    (hbusy : r.status = .busy) (hsize : r.size.toNat < 2 ^ 30) (hcap : r.width ≤ cap p)
    (hptr : r.ptr = data p + (pos + 8) % cap p) (hlen : data p + pos % cap p + 8 ≤ rb.rawBuffer.len)
    (discard : Bool)
    : ∃ w,
        submit p rb r.ptr discard
          =
        some { rb with rawBuffer := rb.rawBuffer.write (data p + pos % cap p) (encode32 w) }
          ∧ Holds p (rb.rawBuffer.write (data p + pos % cap p) (encode32 w)) pos
              { r with status := if discard then .discarded else .committed } := by
  have hwidth : r.size.toNat + 8 ≤ r.width := le_total _
  generalize hold : decode32 (rb.rawBuffer.bytes (data p + pos % cap p) 4) = old
  generalize hw : (if discard then old &&& ~~~BPF_RINGBUF_BUSY_BIT ||| BPF_RINGBUF_DISCARD_BIT
    else old &&& ~~~BPF_RINGBUF_BUSY_BIT) = w
  have holdNat : old.toNat = r.size.toNat + 2 ^ 31 := by
    rw [← hold, h.len, hbusy]
    rfl
  have hclear : (old &&& ~~~BPF_RINGBUF_BUSY_BIT).toNat = r.size.toNat := by
    rw [toNat_and_not_busy, holdNat]
    omega
  have hwNat : w.toNat
      = r.size.toNat + (if discard then Status.discarded else Status.committed).bits := by
    rw [← hw]
    cases discard with
    | true =>
      simp only [if_true]
      rw [toNat_or_discard (by omega), hclear]
      rfl
    | false =>
      simp only [Bool.false_eq_true, if_false]
      rw [hclear]
      rfl
  exists w
  constructor
  . unfold submit
    dsimp only
    rw [hdrOffset_eq (by omega) hptr, load32_eq_some (by omega)]
    simp only [Option.bind_eq_bind, Option.bind_some, hold, hw, store32]
    rw [store_eq_some]
    . rfl
    . rw [length_encode32]
      omega
  . constructor
    . rw [bytes_write32_self]
      exact hwNat
    . rw [← h.fd]
      congr 1
      apply bytes_congr
      intro i hi
      apply byte_write_of_outside
      rw [length_encode32]
      omega
    . intro c hc
      rcases h.content c hc with ⟨hclen, hbytes⟩
      refine ⟨hclen, ?_⟩
      rw [← hbytes, hptr]
      apply bytes_congr_data
      intro i hi
      dsimp only at hi
      apply byte_write_data
      rw [length_encode32]
      rintro ⟨hle, hlt⟩
      apply @header_ne_payload p pos ((pos + 8) % cap p + i - pos % cap p) i
      . omega
      . omega
      . omega

end Bpftime.RingbufMap
