import Bpftime.BpfMap.Ringbuf.Delivery

/-!
This module contains that the consumer delivers every committed record after enough of its
iterations, whatever the producers do in between, as long as the 64 bit positions do not wrap: the
consumer compares them with `<`, the producers subtract them.
-/

namespace Bpftime.RingbufMap

open ByteMem RingSpace

variable {p : Params}

/-- No reservation takes the producer position to `2^64`. -/
def NoWrap (p : Params) (s : State) (op : Op) : Prop :=
  ∀ size fd, op = .reserve size fd → reserveCheck p s.rb size = .ok () →
    s.rb.producerPos.toNat + total size.toNat < 2 ^ 64

structure Running (p : Params) (s : State) : Prop where
  inv : Inv p s
  deliveries : Deliveries p s
  unwrapped : s.pos s.records.length < 2 ^ 64

theorem running_initial (hp : cap p ≠ 2 ^ 31) : Running p (initial p) := by
  refine ⟨inv_initial hp, deliveries_initial, ?_⟩
  show (0 : Nat) < 2 ^ 64
  decide

variable {s s' : State} {op : Op} {i : Nat} {ops : List Op}

theorem Stepped.length_cases (h : Stepped p s op s') : s'.records.length = s.records.length
        ∨ ∃ size fd, op = .reserve size fd ∧ reserveCheck p s.rb size = .ok ()
            ∧ s'.records.length = s.records.length + 1
            ∧ s'.pos (s.records.length + 1) = s.pos s.records.length + total size.toNat := by
  cases h with
  | reserve h =>
    cases h with
    | refused _ _ => exact Or.inl rfl
    | granted buf hcheck hbuf hholds =>
      right
      refine ⟨_, _, rfl, hcheck, by simp, ?_⟩
      have hlast := (Stepped.reserve (.granted buf hcheck hbuf hholds)).pos_eq (Nat.le_refl _)
      rw [State.pos_succ List.getElem?_concat_length, hlast]
      rfl
  | write h =>
    left
    cases h with
    | ignored _ => rfl
    | stored _ _ _ _ => exact List.length_set
  | submit h =>
    left
    cases h with
    | ignored _ => rfl
    | stored _ _ _ _ _ => exact List.length_set
  | fetch h =>
    left
    rw [h.records_eq]

theorem Running.step (h : Running p s) (hwrap : NoWrap p s op)
    (hstep : RingbufMap.step p s op = some s')
    : Running p s' := by
  have hs' := h.inv.stepped hstep
  refine ⟨h.inv.step hstep, h.deliveries.stepped h.inv hs', ?_⟩
  have hunwrapped := h.unwrapped
  rcases hs'.length_cases with hlen | ⟨size, fd, hop, hcheck, hlen, hpos⟩
  . rw [hlen, hs'.pos_eq (Nat.le_refl _)]
    exact hunwrapped
  . have := hwrap size fd hop hcheck
    rw [h.inv.prod] at this
    rw [hlen, hpos]
    omega

def phase (s : State) : Nat :=
  match s.consumer with
  | .returned _ => 3
  | .outer _ _ => 2
  | .inner c q got _ => if c < q then 1 else if got then 3 else 4

def remaining (s : State) (i : Nat) : Nat := 4 * (i + 1 - s.consumed) + phase s

theorem phase_le (s : State) : phase s ≤ 4 := by
  unfold phase
  split
  . omega
  . omega
  . split
    . omega
    . split <;> omega

def Ready (s : State) (i : Nat) : Prop :=
  i < s.records.length ∧ ∀ j ≤ i, ∀ r, s.records[j]? = some r → r.status ≠ .busy

theorem Ready.stepped (h : Ready s i) (hstep : Stepped p s op s') : Ready s' i := by
  constructor
  . have := h.1
    rcases hstep.length_cases with hlen | ⟨_, _, _, _, hlen, _⟩ <;> omega
  . intro j hj r' hr'
    have hlt : j < s.records.length := Nat.lt_of_le_of_lt hj h.1
    have hr : s.records[j]? = some s.records[j] := List.getElem?_eq_getElem hlt
    have hbusy := h.2 j hj _ hr
    rcases hstep.evolves hr with ⟨r, hr'', -, -, -, hdone⟩
    rw [hr'] at hr''
    cases hr''
    rw [hdone hbusy]
    exact hbusy

theorem State.pos_lt {j : Nat} (hij : i < j) (hj : j ≤ s.records.length) : s.pos i < s.pos j := by
  have hlt : i < s.records.length := by omega
  have hr : s.records[i]? = some s.records[i] := List.getElem?_eq_getElem hlt
  have hwidth : (s.records[i]).size.toNat + 8 ≤ (s.records[i]).width := le_total _
  have hsucc := State.pos_succ hr
  have hle := @State.pos_le s (i + 1) j hij
  omega

theorem remaining_advance (hi : s.consumed ≤ i) (hphase : phase s = 1)
    {r : Record} {c : Consumer} {delivered : List Delivery}
    : i < (advance s r c delivered).consumed
        ∨ remaining (advance s r c delivered) i < remaining s i := by
  right
  have hle := phase_le (advance s r c delivered)
  have hconsumed : (advance s r c delivered).consumed = s.consumed + 1 := rfl
  unfold remaining
  rw [hconsumed, hphase]
  omega

theorem Running.remaining_fetch {err : Int32} (h : Running p s)
    (hready : Ready s i) (hi : s.consumed ≤ i) (hstep : FetchStep p s err s')
    : i < s'.consumed ∨ remaining s' i < remaining s i := by
  have hphase : ∀ c, phase { s with consumer := c } < phase s →
      remaining { s with consumer := c } i < remaining s i := by
    intro c hlt
    unfold remaining
    dsimp only
    omega
  cases hstep with
  | start ret hc =>
    right
    apply hphase
    simp [phase, hc]
  | load c cnt hc =>
    right
    apply hphase
    have hcons := h.inv.consumer
    unfold ConsumerOk at hcons
    rw [hc] at hcons
    have hpos := State.pos_lt (Nat.lt_of_le_of_lt hi hready.1) (Nat.le_refl _)
    have hunwrapped := h.unwrapped
    have hcq : c < s.rb.producerPos := by
      rw [UInt64.lt_iff_toNat_lt, hcons, h.inv.cons, h.inv.prod]
      omega
    simp [phase, hc, hcq]
  | again c q cnt hc hcq | done c q cnt hc hcq =>
    right
    apply hphase
    simp [phase, hc, hcq]
  | busy c q got cnt hc hcq r hr hbusy => exact absurd hbusy (hready.2 _ hi r hr)
  | skip c q got cnt hc hcq r hr hdiscarded | deliver c q got cnt hc hcq r hr hcommitted =>
    apply remaining_advance hi
    simp [phase, hc, hcq]

def Op.isFetch : Op → Bool
  | .fetch _ => true
  | _ => false

theorem Stepped.remaining_eq (h : Stepped p s op s') (hop : op.isFetch = false) (i : Nat)
    : s'.consumed = s.consumed ∧ remaining s' i = remaining s i := by
  cases h with
  | reserve h =>
    cases h with
    | refused _ _ | granted _ _ _ _ => exact ⟨rfl, rfl⟩
  | write h =>
    cases h with
    | ignored _ | stored _ _ _ _ => exact ⟨rfl, rfl⟩
  | submit h =>
    cases h with
    | ignored _ | stored _ _ _ _ _ => exact ⟨rfl, rfl⟩
  | fetch _ => contradiction

theorem Stepped.consumed_le (h : Stepped p s op s') : s.consumed ≤ s'.consumed := by
  rcases h.consumer_cases with ⟨hc, -⟩ | ⟨r, c, -, -, rfl⟩ | ⟨r, c, -, -, rfl⟩
  . omega
  . exact Nat.le_succ _
  . exact Nat.le_succ _

theorem Running.consumed_exec
    (hexec : Run.Exec (RingbufMap.step p) (NoWrap p) s ops s') (h : Running p s) (hready : Ready s i)
    (hcount : i < s.consumed ∨ remaining s i ≤ ops.countP Op.isFetch)
    : i < s'.consumed := by
  induction hexec with
  | nil s =>
    rcases hcount with hlt | hle
    . exact hlt
    . rw [List.countP_nil] at hle
      unfold remaining at hle
      omega
  | @cons s s₁ s₂ op ops hwrap hstep _ ih =>
    have hs₁ := h.inv.stepped hstep
    have hmono := hs₁.consumed_le
    apply ih (h.step hwrap hstep) (hready.stepped hs₁)
    rcases Nat.lt_or_ge i s.consumed with hlt | hge
    . left
      omega
    . rcases hcount with hlt | hle
      . omega
      . cases hop : op.isFetch with
        | false =>
          right
          rw [List.countP_cons_of_neg (by simp [hop])] at hle
          rw [(hs₁.remaining_eq hop i).2]
          exact hle
        | true =>
          rw [List.countP_cons_of_pos hop] at hle
          cases hs₁ with
          | reserve _ | write _ | submit _ => contradiction
          | fetch hfetch =>
            rcases h.remaining_fetch hready hge hfetch with hlt | hlt
            . exact Or.inl hlt
            . right
              omega

structure DeliversInOrder (p : Params) (s : State) : Prop where
  increasing : (s.delivered.map Delivery.record).Pairwise (· < ·)
  committed : ∀ d ∈ s.delivered, ∃ r, s.records[d.record]? = some r ∧ r.status = .committed
    ∧ d.sample.len = r.size.toNat ∧ d.sample.addr = data p + s.pos d.record % cap p + 8
  noneBusy : ∀ d ∈ s.delivered, ∀ j < d.record, ∀ r, s.records[j]? = some r → r.status ≠ .busy
  noneLost : ∀ d ∈ s.delivered, ∀ j < d.record, s.isCommitted j = true →
    j ∈ s.delivered.map Delivery.record

theorem Deliveries.mem_iff (h : Deliveries p s)
    : i ∈ s.delivered.map Delivery.record ↔ i < s.consumed ∧ s.isCommitted i = true := by
  rw [h.order, List.mem_filter, List.mem_range]

theorem Running.deliversInOrder (h : Running p s) : DeliversInOrder p s := by
  have hlt : ∀ d ∈ s.delivered, d.record < s.consumed := fun d hd => h.deliveries.record_lt hd
  constructor
  . rw [h.deliveries.order]
    apply List.Pairwise.filter
    exact List.pairwise_lt_range
  . intro d hd
    have hmem := h.deliveries.mem_iff.mp (List.mem_map_of_mem hd)
    rcases isCommitted_eq_true_iff.mp hmem.2 with ⟨r, hr, hstatus⟩
    rcases h.deliveries.sample d hd r hr with ⟨haddr, hlen⟩
    exact ⟨r, hr, hstatus, hlen, haddr⟩
  . intro d hd j hj r hr
    have := hlt d hd
    exact h.inv.past j r (by omega) hr
  . intro d hd j hj hcommitted
    have := hlt d hd
    rw [h.deliveries.mem_iff]
    exact ⟨by omega, hcommitted⟩

theorem Running.exec (hexec : Run.Exec (RingbufMap.step p) (NoWrap p) s ops s') (h : Running p s)
    : Running p s' := by
  apply hexec.invariant _ h
  intro s op s' hs hwrap hstep
  exact hs.step hwrap hstep

theorem Running.committed_exec {r : Record}
    (hexec : Run.Exec (RingbufMap.step p) (NoWrap p) s ops s') (h : Running p s)
    (hr : s.records[i]? = some r) (hstatus : r.status = .committed)
    : s'.isCommitted i = true := by
  induction hexec with
  | nil s =>
    rw [isCommitted_eq_true_iff]
    exact ⟨r, hr, hstatus⟩
  | cons hwrap hstep _ ih =>
    rcases (h.inv.stepped hstep).evolves hr with ⟨r', hr', -, -, -, hdone⟩
    rw [hdone (by simp [hstatus])] at hr'
    exact ih (h.step hwrap hstep) hr'

def DeliversAll (p : Params) (C : State → Op → Prop) (s : State) : Prop :=
  ∀ i r, s.records[i]? = some r → r.status = .committed →
    (∀ j < i, ∀ q, s.records[j]? = some q → q.status ≠ .busy) →
    ∀ ops s', Run.Exec (step p) C s ops s' → 4 * (i + 2) ≤ ops.countP Op.isFetch →
      i ∈ s'.delivered.map Delivery.record

theorem Running.deliversAll (h : Running p s) : DeliversAll p (NoWrap p) s := by
  intro i r hr hstatus hbefore ops s' hexec hcount
  have hready : Ready s i := by
    refine ⟨(List.getElem?_eq_some_iff.mp hr).1, ?_⟩
    intro j hj q hq
    rcases Nat.lt_or_eq_of_le hj with hlt | rfl
    . exact hbefore j hlt q hq
    . rw [hr] at hq
      cases hq
      simp [hstatus]
  rw [(h.exec hexec).deliveries.mem_iff]
  constructor
  . apply h.consumed_exec hexec hready
    right
    have := phase_le s
    unfold remaining
    omega
  . exact h.committed_exec hexec hr hstatus

def Delivers (p : Params) (C : State → Op → Prop) : Prop :=
  ∀ ops s, Run.Exec (step p) C (initial p) ops s →
    (∀ op, step p s op ≠ none) ∧ DeliversInOrder p s ∧ DeliversAll p C s

theorem reserve_zero_ok (h : 8 ≤ cap p) : reserveCheck p (construct p) 0 = .ok () := by
  have hmax : p.maxEnt.toUInt64.toNat = cap p := UInt32.toNat_toUInt64 _
  have htotal : (totalSize 0).toNat = 8 := by decide
  unfold reserveCheck construct
  dsimp only
  rw [if_neg (by decide), if_neg, if_neg]
  . rw [UInt64.lt_iff_toNat_lt, htotal]
    show ¬ (p.maxEnt.toUInt64 - (0 - 0)).toNat < 8
    rw [UInt64.sub_self, UInt64.sub_zero, hmax]
    omega
  . rw [gt_iff_lt, UInt64.lt_iff_toNat_lt, htotal, hmax]
    omega

theorem reserve_undefined (h : cap p = 2 ^ 31) {C : State → Op → Prop}
    (hexec : Run.Exec (step p) C (initial p) ops s) {size : UInt64} (fd : Int32)
    (hcheck : reserveCheck p s.rb size = .ok ())
    : step p s (.reserve size fd) = none := by
  have hlen : s.rb.rawBuffer.len = data p := by
    apply @Run.Exec.invariant _ _ _ _ (fun s : State => s.rb.rawBuffer.len = data p) _ _ _ _ hexec
    . exact construct_len h
    . intro s op s' hs _ hstep
      rw [step_len hstep]
      exact hs
  unfold step reserve
  dsimp only
  rw [hcheck]
  dsimp only
  unfold store32
  rw [store_eq_none]
  . rfl
  . rw [hlen, length_encode32, headerAt_eq]
    omega

theorem delivers_noWrap_iff (p : Params) : Delivers p (NoWrap p) ↔ cap p ≠ 2 ^ 31 := by
  constructor
  . intro h hcap
    apply (h [] _ (.nil _)).1 (.reserve 0 0)
    apply reserve_undefined (C := NoWrap p) hcap (.nil _)
    apply reserve_zero_ok
    omega
  . intro hcap ops s hexec
    have hs := (running_initial hcap).exec hexec
    refine ⟨?_, hs.deliversInOrder, hs.deliversAll⟩
    intro op
    rcases hs.inv.step_eq_some op with ⟨s', heq, -⟩
    rw [heq]
    exact Option.some_ne_none s'

theorem Inv.inner_unwrapped (h : Inv p s) {c q : UInt64} {got : Bool} {cnt : Int64}
    (hc : s.consumer = .inner c q got cnt) (hcq : c < q) (hcons : s.pos s.consumed < 2 ^ 64)
    : s.pos (s.consumed + 1) < 2 ^ 64 := by
  rcases h.inner_lt hc hcq with ⟨l, hl, hlen, hq⟩
  have hwindow := h.window
  have hcap := @cap_lt p
  have hle := @State.pos_le s _ _ hlen
  have hle' := @State.pos_le s _ _ hl
  have hok := h.consumer
  unfold ConsumerOk at hok
  rw [hc] at hok
  rw [UInt64.lt_iff_toNat_lt, hq, hok.1, h.cons] at hcq
  omega

theorem Inv.consumed_unwrapped (h : Inv p s) (hstep : Stepped p s op s')
    (hcons : s.pos s.consumed < 2 ^ 64)
    : s'.pos s'.consumed < 2 ^ 64 := by
  have hsame : s'.consumed = s.consumed → s'.pos s'.consumed < 2 ^ 64 := by
    intro heq
    rw [heq, hstep.pos_eq h.consumed_le]
    exact hcons
  cases hstep with
  | reserve hr => exact hsame ((Stepped.reserve hr).remaining_eq rfl 0).1
  | write hw => exact hsame ((Stepped.write hw).remaining_eq rfl 0).1
  | submit hs => exact hsame ((Stepped.submit hs).remaining_eq rfl 0).1
  | fetch hf =>
    cases hf with
    | start _ _ | load _ _ _ | again _ _ _ _ _ | done _ _ _ _ _ | busy _ _ _ _ _ _ _ _ _ =>
      exact hcons
    | skip c q got cnt hc hcq _ _ _ | deliver c q got cnt hc hcq _ _ _ =>
      exact h.inner_unwrapped hc hcq hcons

structure Safe (p : Params) (s : State) : Prop where
  inv : Inv p s
  deliveries : Deliveries p s
  consumed_lt : s.pos s.consumed < 2 ^ 64

theorem Running.safe (h : Running p s) : Safe p s := by
  refine ⟨h.inv, h.deliveries, ?_⟩
  have := @State.pos_le s _ _ h.inv.consumed_le
  have := h.unwrapped
  omega

theorem Safe.exec {C : State → Op → Prop} (h : Safe p s)
    (hexec : Run.Exec (RingbufMap.step p) C s ops s')
    : Safe p s' := by
  apply hexec.invariant _ h
  intro s op s' hs _ hstep
  have hs' := hs.inv.stepped hstep
  exact ⟨hs.inv.step hstep, hs.deliveries.stepped hs.inv hs', hs.inv.consumed_unwrapped hs' hs.consumed_lt⟩

theorem Safe.not_delivered_of_wrap (h : Safe p s) (hwrap : 2 ^ 64 ≤ s.pos (i + 1))
    : i ∉ s.delivered.map Delivery.record := by
  rw [h.deliveries.mem_iff]
  rintro ⟨hlt, -⟩
  have hle := @State.pos_le s (i + 1) s.consumed hlt
  have := h.consumed_lt
  omega

def largestRing : Params := ⟨2147483648, 4096, ⟨31, rfl⟩, by decide, by decide⟩

theorem not_delivers_largestRing : ¬ Delivers largestRing (fun _ _ => True) := by
  intro h
  apply (h [] _ (.nil _)).1 (.reserve 0 0)
  apply reserve_undefined (C := fun _ _ => True) rfl (.nil _)
  decide

end Bpftime.RingbufMap
