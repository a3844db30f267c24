import Bpftime.Data.Run
import Bpftime.Data.WordMem
import Bpftime.Helper.CsumDiff

/-!
This module contains the helpers that move the ends of a packet, and when they keep its bytes. Without
headroom the packet is moved, but not by the offset, and its end stays where it is.
-/

namespace Bpftime.Helper

open WordMem (Mem shift)

structure XdpMd where
  data : UInt64
  dataEnd : UInt64
  bufferStart : UInt64
  bufferEnd : UInt64
  deriving DecidableEq, Repr

structure Memmove where
  dest : UInt64
  src : UInt64
  size : UInt64
  deriving DecidableEq, Repr

structure Adjusted where
  ret : Int64
  xdp : XdpMd
  moved : Option Memmove
  deriving DecidableEq, Repr

def ETH_HLEN : UInt64 := 14

def displace (a : UInt64) (offset : Int32) : UInt64 := a + UInt64.ofInt offset.toInt

namespace XdpMd

def adjustHead (x : XdpMd) (offset : Int32) : Adjusted :=
  let data := displace x.data offset
  if data > x.dataEnd - ETH_HLEN ∨ data > x.bufferEnd then
    ⟨(-EINVAL).toInt64, x, none⟩
  else if data < x.bufferStart then
    ⟨0, { x with data := x.bufferStart },
      some ⟨x.bufferStart + (x.bufferStart - data), x.data, x.dataEnd - x.data⟩⟩
  else
    ⟨0, { x with data := data }, none⟩

def adjustTail (x : XdpMd) (delta : Int32) : Adjusted :=
  let data := displace x.dataEnd delta
  if data < x.data ∨ data < x.bufferStart ∨ data > x.bufferEnd then
    ⟨(-EINVAL).toInt64, x, none⟩
  else
    ⟨0, { x with dataEnd := data }, none⟩

end XdpMd

inductive AdjustOp where
  | head (offset : Int32)
  | tail (delta : Int32)
  deriving DecidableEq, Repr

structure Packet where
  xdp : XdpMd
  mem : Mem

namespace XdpMd

def call (x : XdpMd) : AdjustOp → Adjusted
  | .head offset => x.adjustHead offset
  | .tail delta => x.adjustTail delta

structure Ordered (x : XdpMd) : Prop where
  start_le : x.bufferStart.toNat ≤ x.data.toNat
  data_le : x.data.toNat ≤ x.dataEnd.toNat
  le_end : x.dataEnd.toNat ≤ x.bufferEnd.toNat

end XdpMd

namespace Packet

def step (p : Packet) (op : AdjustOp) : Packet :=
  let res := p.xdp.call op
  match res.moved with
  | none => ⟨res.xdp, p.mem⟩
  | some mv => ⟨res.xdp, WordMem.move p.mem mv.dest mv.src mv.size.toNat⟩

/-- The call leaves the descriptor ordered, writes inside the buffer, and a call that makes room for
`k` bytes keeps each byte of the packet as one of the packet, `k` places later. -/
structure Kept (p : Packet) (op : AdjustOp) : Prop where
  ordered : (p.step op).xdp.Ordered
  inside : ∀ mv, (p.xdp.call op).moved = some mv → ∀ i < mv.size.toNat,
    p.xdp.bufferStart ≤ shift mv.dest i ∧ shift mv.dest i < p.xdp.bufferEnd
  intact : ∀ (offset : Int32) (k : ℕ), op = .head offset → offset.toInt = -k →
    (p.xdp.call op).ret = 0 → ∀ i < p.xdp.dataEnd.toNat - p.xdp.data.toNat,
    (p.step op).xdp.data.toNat + k + i < (p.step op).xdp.dataEnd.toNat
      ∧ (p.step op).mem (shift (p.step op).xdp.data (k + i)) = p.mem (shift p.xdp.data i)

end Packet

theorem toNat_displace (a : UInt64) (offset : Int32)
    : (displace a offset).toNat = (a.toNat + (offset.toInt % 2 ^ 64).toNat) % 2 ^ 64 := by
  unfold displace UInt64.ofInt
  rw [UInt64.toNat_add, UInt64.toNat_ofNat', Nat.add_mod_mod]

namespace XdpMd

variable {x : XdpMd} {offset : Int32}

def Accepts (x : XdpMd) (offset : Int32) : Prop :=
  displace x.data offset ≤ x.dataEnd - ETH_HLEN ∧ displace x.data offset ≤ x.bufferEnd

instance : Decidable (x.Accepts offset) := inferInstanceAs (Decidable (_ ∧ _))

structure HeadFits (x : XdpMd) (offset : Int32) : Prop where
  -- `data_end - ETH_HLEN` wraps around below address 14
  before_end : x.Accepts offset → x.bufferStart ≤ displace x.data offset →
    displace x.data offset ≤ x.dataEnd ∧ (offset.toInt ≤ 0 → displace x.data offset ≤ x.data)
  room : x.Accepts offset → displace x.data offset < x.bufferStart →
    x.data = x.dataEnd ∨
      x.bufferStart.toNat + (x.bufferStart.toNat - (displace x.data offset).toNat)
        + (x.dataEnd.toNat - x.data.toNat) ≤ x.bufferEnd.toNat
  no_headroom : x.Accepts offset → displace x.data offset < x.bufferStart → offset.toInt ≤ 0 →
    x.data = x.dataEnd

theorem adjustHead_of_not_accepts (h : ¬ x.Accepts offset)
    : x.adjustHead offset = ⟨(-EINVAL).toInt64, x, none⟩ := by
  unfold Accepts at h
  unfold adjustHead
  dsimp only
  rw [if_pos]
  rw [not_and_or, UInt64.not_le, UInt64.not_le] at h
  exact h

theorem adjustHead_of_le (h : x.Accepts offset) (hle : x.bufferStart ≤ displace x.data offset)
    : x.adjustHead offset = ⟨0, { x with data := displace x.data offset }, none⟩ := by
  unfold adjustHead
  dsimp only
  rw [if_neg, if_neg]
  . rw [UInt64.not_lt]
    exact hle
  . rw [not_or, gt_iff_lt, gt_iff_lt, UInt64.not_lt, UInt64.not_lt]
    exact h

theorem adjustHead_of_lt (h : x.Accepts offset) (hlt : displace x.data offset < x.bufferStart)
    : x.adjustHead offset
        =
      ⟨0, { x with data := x.bufferStart },
        some ⟨x.bufferStart + (x.bufferStart - displace x.data offset), x.data,
          x.dataEnd - x.data⟩⟩ := by
  unfold adjustHead
  dsimp only
  rw [if_neg, if_pos hlt]
  rw [not_or, gt_iff_lt, gt_iff_lt, UInt64.not_lt, UInt64.not_lt]
  exact h

theorem Ordered.adjustTail (h : x.Ordered) (delta : Int32) : (x.adjustTail delta).xdp.Ordered := by
  unfold XdpMd.adjustTail
  dsimp only
  split
  next => exact h
  next hok =>
    simp only [not_or, UInt64.not_lt, gt_iff_lt] at hok
    constructor
    . exact h.start_le
    . exact UInt64.le_iff_toNat_le.mp hok.1
    . exact UInt64.le_iff_toNat_le.mp hok.2.2

theorem moved_adjustTail (x : XdpMd) (delta : Int32) : (x.adjustTail delta).moved = none := by
  unfold adjustTail
  dsimp only
  split <;> rfl

theorem Ordered.toNat_displace_neg (h : x.Ordered) {k : ℕ} (hk : offset.toInt = -k)
    (hlt : displace x.data offset < x.bufferStart)
    : k ≤ x.data.toNat ∧ (displace x.data offset).toNat = x.data.toNat - k := by
  have hstart := h.start_le
  have hword := x.data.toNat_lt
  have hint := offset.le_toInt
  rw [UInt64.lt_iff_toNat_lt] at hlt
  rw [toNat_displace] at hlt ⊢
  omega

end XdpMd

def AdjustOp.Fits (x : XdpMd) : AdjustOp → Prop
  | .head offset => x.HeadFits offset
  | .tail _ => True

namespace Packet

variable {p : Packet} {offset : Int32} {k i : ℕ}

theorem step_of_not_moved {op : AdjustOp} (h : (p.xdp.call op).moved = none)
    : p.step op = ⟨(p.xdp.call op).xdp, p.mem⟩ := by
  unfold step
  dsimp only
  rw [h]

theorem kept_tail (h : p.xdp.Ordered) (delta : Int32) : p.Kept (.tail delta) := by
  have hmoved : (p.xdp.call (.tail delta)).moved = none := p.xdp.moved_adjustTail delta
  constructor
  . rw [step_of_not_moved hmoved]
    exact h.adjustTail delta
  . intro mv hmv
    rw [hmoved] at hmv
    cases hmv
  . intro offset k hop
    cases hop

theorem kept_of_not_accepts (h : p.xdp.Ordered) (hacc : ¬ p.xdp.Accepts offset)
    : p.Kept (.head offset) := by
  have hcall : p.xdp.call (.head offset) = ⟨(-EINVAL).toInt64, p.xdp, none⟩ :=
    XdpMd.adjustHead_of_not_accepts hacc
  constructor
  . rw [step_of_not_moved (by rw [hcall]), hcall]
    exact h
  . intro mv hmv
    rw [hcall] at hmv
    cases hmv
  . intro _ k _ _ hret
    rw [hcall] at hret
    dsimp only at hret
    exact absurd hret (by decide)

theorem kept_iff_of_le (h : p.xdp.Ordered) (hacc : p.xdp.Accepts offset)
    (hle : p.xdp.bufferStart ≤ displace p.xdp.data offset)
    : p.Kept (.head offset)
        ↔
      displace p.xdp.data offset ≤ p.xdp.dataEnd
        ∧ (offset.toInt ≤ 0 → displace p.xdp.data offset ≤ p.xdp.data) := by
  have hcall : p.xdp.call (.head offset)
      = ⟨0, { p.xdp with data := displace p.xdp.data offset }, none⟩ :=
    XdpMd.adjustHead_of_le hacc hle
  have hstep := step_of_not_moved (show (p.xdp.call (.head offset)).moved = none by rw [hcall])
  rw [hcall] at hstep
  constructor
  . intro hkept
    have hdata := hkept.ordered.data_le
    rw [hstep] at hdata
    refine ⟨UInt64.le_iff_toNat_le.mpr hdata, ?_⟩
    intro hneg
    rw [UInt64.le_iff_toNat_le]
    by_contra hgt
    -- the address has wrapped around, and so does that of the first byte
    have hfirst := (hkept.intact offset (-offset.toInt).toNat rfl (by omega) (by rw [hcall]) 0
      (by dsimp only at hdata; omega)).1
    have hnew := toNat_displace p.xdp.data offset
    have hint := offset.le_toInt
    have hword := p.xdp.dataEnd.toNat_lt
    rw [hstep] at hfirst
    dsimp only at hfirst
    omega
  . intro ⟨hend, hwrap⟩
    constructor
    . rw [hstep]
      constructor
      . exact UInt64.le_iff_toNat_le.mp hle
      . exact UInt64.le_iff_toNat_le.mp hend
      . exact h.le_end
    . intro mv hmv
      rw [hcall] at hmv
      cases hmv
    . intro offset' k hop hk _ i hi
      cases hop
      have hnew := toNat_displace p.xdp.data offset
      have hint := offset.le_toInt
      have hword := p.xdp.dataEnd.toNat_lt
      have hwrap := UInt64.le_iff_toNat_le.mp (hwrap (by omega))
      rw [hstep]
      dsimp only
      -- nothing has moved: the new start and `k` bytes are the old start
      constructor
      . omega
      . congr 1
        unfold shift
        rw [← UInt64.toNat_inj, UInt64.toNat_add, UInt64.toNat_add, hnew]
        rw [UInt64.toNat_ofNat', UInt64.toNat_ofNat']
        omega

section Moved

def headMove (x : XdpMd) (offset : Int32) : Memmove :=
  ⟨x.bufferStart + (x.bufferStart - displace x.data offset), x.data, x.dataEnd - x.data⟩

theorem toNat_size_headMove {x : XdpMd} (h : x.Ordered) (offset : Int32)
    : (headMove x offset).size.toNat = x.dataEnd.toNat - x.data.toNat := by
  apply UInt64.toNat_sub_of_le
  rw [UInt64.le_iff_toNat_le]
  exact h.data_le

theorem toNat_dest_headMove {x : XdpMd} (hlt : displace x.data offset < x.bufferStart)
    : (headMove x offset).dest.toNat
        =
      (x.bufferStart.toNat + (x.bufferStart.toNat - (displace x.data offset).toNat)) % 2 ^ 64 := by
  rw [UInt64.lt_iff_toNat_lt] at hlt
  unfold headMove
  rw [UInt64.toNat_add, UInt64.toNat_sub_of_le]
  rw [UInt64.le_iff_toNat_le]
  omega

theorem inside_headMove_iff {x : XdpMd} (h : x.Ordered)
    (hlt : displace x.data offset < x.bufferStart)
    : (∀ i < (headMove x offset).size.toNat,
        x.bufferStart ≤ shift (headMove x offset).dest i ∧
          shift (headMove x offset).dest i < x.bufferEnd)
      ↔
      (x.data = x.dataEnd ∨
        x.bufferStart.toNat + (x.bufferStart.toNat - (displace x.data offset).toNat)
          + (x.dataEnd.toNat - x.data.toNat) ≤ x.bufferEnd.toNat) := by
  have hdest := toNat_dest_headMove hlt
  have hstart := h.start_le
  have hdata := h.data_le
  have hword := x.bufferEnd.toNat_lt
  have hword' := x.bufferStart.toNat_lt
  rw [toNat_size_headMove h, ← UInt64.toNat_inj]
  rw [UInt64.lt_iff_toNat_lt] at hlt
  simp only [UInt64.le_iff_toNat_le, UInt64.lt_iff_toNat_lt]
  have hshift (i : ℕ) : (shift (headMove x offset).dest i).toNat
      = ((headMove x offset).dest.toNat + i) % 2 ^ 64 := by
    unfold shift
    rw [UInt64.toNat_add, UInt64.toNat_ofNat', Nat.add_mod_mod]
  simp only [hshift]
  generalize (headMove x offset).dest.toNat = dest at hdest
  constructor
  . intro hin
    by_cases hempty : x.data.toNat = x.dataEnd.toNat
    . exact .inl hempty
    . right
      have hfirst := hin 0 (by omega)
      have hlast := hin (x.dataEnd.toNat - x.data.toNat - 1) (by omega)
      -- a block that wraps around covers address zero, which is in front of the buffer
      have hwrap : dest + (x.dataEnd.toNat - x.data.toNat) ≤ 2 ^ 64 := by
        apply Nat.le_of_not_lt
        intro hgt
        have hzero := hin (2 ^ 64 - dest) (by omega)
        omega
      omega
  . intro hroom i hi
    omega

theorem call_of_lt {x : XdpMd} (hacc : x.Accepts offset)
    (hlt : displace x.data offset < x.bufferStart)
    : x.call (.head offset) = ⟨0, { x with data := x.bufferStart }, some (headMove x offset)⟩ :=
  XdpMd.adjustHead_of_lt hacc hlt

theorem step_of_lt (hacc : p.xdp.Accepts offset)
    (hlt : displace p.xdp.data offset < p.xdp.bufferStart)
    : p.step (.head offset)
        =
      ⟨{ p.xdp with data := p.xdp.bufferStart },
        WordMem.move p.mem (headMove p.xdp offset).dest p.xdp.data
          (headMove p.xdp offset).size.toNat⟩ := by
  unfold step
  rw [call_of_lt hacc hlt]
  rfl

theorem kept_iff_of_lt {x : XdpMd} (h : x.Ordered) (hacc : x.Accepts offset)
    (hlt : displace x.data offset < x.bufferStart)
    : (∀ mem, Kept ⟨x, mem⟩ (.head offset))
        ↔
      (x.data = x.dataEnd ∨
        x.bufferStart.toNat + (x.bufferStart.toNat - (displace x.data offset).toNat)
          + (x.dataEnd.toNat - x.data.toNat) ≤ x.bufferEnd.toNat)
      ∧ (offset.toInt ≤ 0 → x.data = x.dataEnd) := by
  have hcall := call_of_lt hacc hlt
  have hstep (mem : Mem) := step_of_lt (p := ⟨x, mem⟩) hacc hlt
  rw [← inside_headMove_iff h hlt]
  constructor
  . intro hkept
    constructor
    . apply (hkept (fun _ => 0)).inside
      rw [hcall]
    . intro hneg
      by_contra hne
      rw [← UInt64.toNat_inj] at hne
      have hk : offset.toInt = -((-offset.toInt).toNat : ℕ) := by omega
      have hdata := h.data_le
      have hnegk := h.toNat_displace_neg hk hlt
      -- the last byte is moved behind the end
      have hlast := ((hkept fun _ => 0).intact offset _ rfl hk (by rw [hcall])
        (x.dataEnd.toNat - x.data.toNat - 1) (by dsimp only; omega)).1
      rw [hstep] at hlast
      rw [UInt64.lt_iff_toNat_lt] at hlt
      dsimp only at hlast
      omega
  . intro ⟨hin, hhead⟩ mem
    constructor
    . rw [hstep mem]
      constructor
      . exact Nat.le_refl _
      . exact Nat.le_trans h.start_le h.data_le
      . exact h.le_end
    . intro mv hmv
      rw [hcall] at hmv
      cases hmv
      exact hin
    . intro offset' k hop hk _ i hi
      cases hop
      have hempty := hhead (by omega)
      dsimp only at hi
      rw [hempty] at hi
      omega

end Moved

theorem kept_head_iff {x : XdpMd} (h : x.Ordered) (offset : Int32)
    : (∀ mem, Kept ⟨x, mem⟩ (.head offset)) ↔ x.HeadFits offset := by
  by_cases hacc : x.Accepts offset
  . by_cases hlt : displace x.data offset < x.bufferStart
    . rw [kept_iff_of_lt h hacc hlt]
      constructor
      . intro ⟨hroom, hhead⟩
        constructor
        . intro _ hle
          exact absurd hlt (UInt64.not_lt.mpr hle)
        . exact fun _ _ => hroom
        . exact fun _ _ => hhead
      . intro hfits
        exact ⟨hfits.room hacc hlt, hfits.no_headroom hacc hlt⟩
    . have hle := UInt64.not_lt.mp hlt
      constructor
      . intro hkept
        constructor
        . intro _ _
          exact (kept_iff_of_le (p := ⟨x, fun _ => 0⟩) h hacc hle).mp (hkept _)
        . exact fun _ hlt' => absurd hlt' hlt
        . exact fun _ hlt' => absurd hlt' hlt
      . intro hfits mem
        apply (kept_iff_of_le (p := ⟨x, mem⟩) h hacc hle).mpr
        exact hfits.before_end hacc hle
  . constructor
    . intro _
      constructor <;> exact fun hacc' => absurd hacc' hacc
    . intro _ mem
      exact kept_of_not_accepts (p := ⟨x, mem⟩) h hacc

theorem kept_call_iff {x : XdpMd} (h : x.Ordered) (op : AdjustOp)
    : (∀ mem, Kept ⟨x, mem⟩ op) ↔ op.Fits x := by
  cases op with
  | head offset => exact kept_head_iff h offset
  | tail delta =>
    constructor
    . intro _
      trivial
    . intro _ mem
      exact kept_tail (p := ⟨x, mem⟩) h delta

theorem kept_run (ops : List AdjustOp)
    : ∀ p : Packet, p.xdp.Ordered → Run.Along step (fun p op => op.Fits p.xdp) p ops →
        Run.Along step Kept p ops := by
  induction ops with
  | nil => exact fun _ _ _ => trivial
  | cons op ops ih =>
    intro p h hfits
    have hkept : p.Kept op := (kept_call_iff h op).mpr hfits.1 p.mem
    exact ⟨hkept, ih _ hkept.ordered hfits.2⟩

theorem kept_run_and_call_iff (x : XdpMd) (h : x.Ordered) : (∀ (mem : Mem) (ops : List AdjustOp),
        Run.Along step (fun p op => op.Fits p.xdp) ⟨x, mem⟩ ops → Run.Along step Kept ⟨x, mem⟩ ops)
      ∧ (∀ op : AdjustOp, (∀ mem, Kept ⟨x, mem⟩ op) ↔ op.Fits x) :=
  ⟨fun mem ops => kept_run ops ⟨x, mem⟩ h, fun op => kept_call_iff h op⟩

def roomy : XdpMd := ⟨0x1010, 0x1050, 0x1000, 0x1100⟩

theorem kept_run_roomy
    : Run.Along step Kept ⟨roomy, fun _ => 0⟩ [.head (-8), .tail (-4), .head (-8)] := by
  apply (kept_run_and_call_iff roomy (by constructor <;> decide)).1
  refine ⟨?_, trivial, ?_, trivial⟩ <;> constructor <;> decide

def full : XdpMd := ⟨0x1000, 0x1040, 0x1000, 0x1040⟩

def tight : XdpMd := ⟨0x1004, 0x1044, 0x1000, 0x1100⟩

def atZero : XdpMd := ⟨0, 10, 0, 1000⟩

theorem not_kept_full_tight_atZero : (full.Ordered ∧ ¬ Kept ⟨full, fun _ => 0⟩ (.head (-8)))
      ∧ (tight.Ordered ∧ ¬ Kept ⟨tight, fun a => if a = 0x1004 then 1 else 0⟩ (.head (-8)))
      ∧ (atZero.Ordered ∧ ¬ Kept ⟨atZero, fun _ => 0⟩ (.head 100)) := by
  refine ⟨⟨by constructor <;> decide, ?_⟩, ⟨by constructor <;> decide, ?_⟩,
    ⟨by constructor <;> decide, ?_⟩⟩
  . intro h
    have hin := h.inside ⟨0x1008, 0x1000, 0x40⟩ (by decide) 0x38 (by decide)
    exact absurd hin.2 (by decide)
  . intro h
    have hintact := h.intact (-8) 8 rfl (by decide) (by decide) 0 (by decide)
    exact absurd hintact.2 (by decide)
  . intro h
    exact absurd h.ordered.data_le (by decide)

end Packet

end Bpftime.Helper
