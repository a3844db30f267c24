import Bpftime.BpfMap.Ringbuf.Payload

namespace Bpftime.RingbufMap

open RingSpace

variable {p : Params}

def State.Live (s : State) (i : Nat) (r : Record) : Prop :=
  s.consumed ≤ i ∧ s.records[i]? = some r

def Ringbuf.backlog (rb : Ringbuf) : UInt64 := rb.producerPos - rb.consumerPos

/-- The live records lie in the buffer, apart from each other. -/
structure Spaced (p : Params) (s : State) : Prop where
  producer_eq : s.rb.producerPos.toNat = s.pos s.records.length % 2 ^ 64
  consumer_eq : s.rb.consumerPos.toNat = s.pos s.consumed % 2 ^ 64
  ptr_eq : ∀ i r, s.Live i r → r.ptr = data p + (s.pos i + 8) % p.maxEnt.toNat
  producer_dvd : 8 ∣ s.rb.producerPos.toNat
  consumer_dvd : 8 ∣ s.rb.consumerPos.toNat
  backlog_le : s.rb.backlog.toNat ≤ p.maxEnt.toNat
  /-- As plain numbers the positions are in order until 2^64 bytes have been reserved. -/
  ordered : s.pos s.records.length < 2 ^ 64 →
    s.rb.consumerPos.toNat ≤ s.rb.producerPos.toNat
      ∧ s.rb.producerPos.toNat ≤ s.rb.consumerPos.toNat + p.maxEnt.toNat
  inside : ∀ i r, s.Live i r → s.pos i % p.maxEnt.toNat + r.width ≤ 2 * p.maxEnt.toNat
  disjoint : ∀ i j r q, s.Live i r → s.Live j q → i ≠ j →
    s.pos i % p.maxEnt.toNat + r.width ≤ s.pos j % p.maxEnt.toNat
      ∨ s.pos j % p.maxEnt.toNat + q.width ≤ s.pos i % p.maxEnt.toNat

/-- A refused reservation changes nothing, a granted one has room. -/
structure ReserveMeets (p : Params) (s : State) (size : UInt64) (fd : Int32) : Prop where
  refused : ∀ e, reserve p s.rb size fd = some (.error e) →
    (e = .E2BIG ∨ e = .ENOSPC) ∧ step p s (.reserve size fd) = some s
  granted : ∀ ptr rb, reserve p s.rb size fd = some (.ok (ptr, rb)) →
    s.rb.backlog.toNat + total size.toNat ≤ p.maxEnt.toNat

theorem reserveCheck_error {rb : Ringbuf} {size : UInt64} {e : Errno}
    (h : reserveCheck p rb size = .error e)
    : e = .E2BIG ∨ e = .ENOSPC := by
  unfold reserveCheck at h
  dsimp only at h
  split at h
  . cases h
    exact .inl rfl
  . split at h
    . cases h
      exact .inl rfl
    . split at h
      . cases h
        exact .inr rfl
      . cases h

theorem reserveCheck_of_reserve {rb : Ringbuf} {size : UInt64} {fd : Int32}
    {result : Except Errno (Nat × Ringbuf)} (h : reserve p rb size fd = some result)
    : reserveCheck p rb size = result.map fun _ => () := by
  unfold reserve at h
  split at h
  next e hcheck =>
    cases h
    exact hcheck
  next hcheck =>
    simp only [Option.bind_eq_bind, Option.bind_eq_some_iff] at h
    rcases h with ⟨buf, -, buf', -, h⟩
    cases h
    exact hcheck

section invariant

variable {s : State} (h : Inv p s)

include h

theorem Inv.toNat_backlog : s.rb.backlog.toNat = s.pos s.records.length - s.pos s.consumed :=
  h.toNat_sub

theorem Inv.linear_apart {i j : Nat} {r q : Record} (hi : s.Live i r) (hj : s.Live j q)
    (hij : i < j)
    : s.pos i % cap p + r.width ≤ s.pos j % cap p
        ∨ s.pos j % cap p + q.width ≤ s.pos i % cap p := by
  have hlt := (List.getElem?_eq_some_iff.mp hj.2).1
  have hri := State.pos_succ hi.2
  have hqj := State.pos_succ hj.2
  have hbefore := @State.pos_le s _ _ (show i + 1 ≤ j from hij)
  have hend := @State.pos_le s _ _ (show j + 1 ≤ s.records.length from hlt)
  have hstart := @State.pos_le s _ _ hi.1
  have hwidth : q.size.toNat + 8 ≤ q.width := le_total _
  have hwindow := h.window
  apply RingSpace.linear_apart
  . omega
  . omega
  . omega

theorem Inv.spaced : Spaced p s := by
  have h64 : 8 ∣ 2 ^ 64 := by decide
  constructor
  . exact h.prod
  . exact h.cons
  . intro i r hi
    exact (h.shape i r hi.2).ptr_eq
  . rw [h.prod]
    exact (Nat.dvd_mod_iff h64).mpr (dvd_pos s _)
  . rw [h.cons]
    exact (Nat.dvd_mod_iff h64).mpr (dvd_pos s _)
  . have hwindow : s.pos s.records.length ≤ s.pos s.consumed + p.maxEnt.toNat := h.window
    rw [h.toNat_backlog]
    omega
  . intro hlt
    have hwindow : s.pos s.records.length ≤ s.pos s.consumed + p.maxEnt.toNat := h.window
    have hle := @State.pos_le s _ _ h.consumed_le
    rw [h.prod, h.cons, Nat.mod_eq_of_lt hlt, Nat.mod_eq_of_lt (Nat.lt_of_le_of_lt hle hlt)]
    exact ⟨hle, hwindow⟩
  . intro i r hi
    have hwidth : r.width ≤ p.maxEnt.toNat := (h.shape i r hi.2).width_le
    have hmod : s.pos i % p.maxEnt.toNat < p.maxEnt.toNat := Nat.mod_lt _ cap_pos
    omega
  . intro i j r q hi hj hne
    rcases Nat.lt_or_gt_of_ne hne with hlt | hgt
    . exact h.linear_apart hi hj hlt
    . exact (h.linear_apart hj hi hgt).symm

theorem Inv.reserveMeets (size : UInt64) (fd : Int32) : ReserveMeets p s size fd := by
  constructor
  . intro e he
    refine ⟨reserveCheck_error (reserveCheck_of_reserve he), ?_⟩
    unfold RingbufMap.step
    dsimp only
    rw [he]
    rfl
  . intro ptr rb hok
    have hwindow : s.pos s.records.length + total size.toNat ≤ s.pos s.consumed + p.maxEnt.toNat :=
      h.window_of_check (reserveCheck_of_reserve hok)
    have hle := @State.pos_le s _ _ h.consumed_le
    rw [h.toNat_backlog]
    omega

end invariant

theorem Inv.foldlM {s : State} (h : Inv p s) (ops : List Op)
    : ∃ s', ops.foldlM (RingbufMap.step p) s = some s' ∧ Inv p s' := by
  induction ops generalizing s with
  | nil => exact ⟨s, rfl, h⟩
  | cons op ops ih =>
    rcases h.step_eq_some op with ⟨s₁, hstep, -⟩
    rcases ih (h.step hstep) with ⟨s', hrun, h'⟩
    refine ⟨s', ?_, h'⟩
    rw [List.foldlM_cons, hstep]
    exact hrun

theorem spaced_run (p : Params) (hp : p.maxEnt.toNat ≤ 2 ^ 30) (ops : List Op)
    : ∃ s, ops.foldlM (step p) (initial p) = some s
        ∧ Spaced p s
        ∧ ∀ size fd, ReserveMeets p s size fd := by
  have hinv : Inv p (initial p) := by
    apply inv_initial
    intro hcap
    change p.maxEnt.toNat = 2 ^ 31 at hcap
    omega
  rcases hinv.foldlM ops with ⟨s, hrun, h⟩
  exact ⟨s, hrun, h.spaced, fun size fd => h.reserveMeets size fd⟩

theorem spaced_run_smallRing : smallRing.maxEnt.toNat ≤ 2 ^ 30
        ∧ ∃ s, [Op.reserve 16 5, .submit 0 false, .fetch 0, .fetch 0, .fetch 0, .reserve 8 5,
              .reserve 0 6].foldlM (step smallRing) (initial smallRing) = some s
            ∧ Spaced smallRing s
            ∧ ∀ size fd, ReserveMeets smallRing s size fd :=
  ⟨by decide, spaced_run smallRing (by decide) _⟩

theorem delivers_committed_run (p : Params) (hp : cap p ≠ 2 ^ 31) (ops : List Op)
    : ∃ s, ops.foldlM (step p) (initial p) = some s
        ∧ Deliveries p s
        ∧ Payloads p s
        ∧ ∀ j < s.consumed, ∀ r, s.records[j]? = some r → r.status ≠ .busy := by
  -- no condition on the positions: after they have wrapped, the consumer stands still
  have hsafe := (running_initial hp).safe
  rcases hsafe.inv.foldlM ops with ⟨s, hrun, h⟩
  have hexec := Run.exec_of_foldlM hrun
  refine ⟨s, hrun, (hsafe.exec hexec).deliveries, .exec hexec hsafe payloads_initial, ?_⟩
  intro j hj r hr
  exact h.past j r hj hr

theorem delivers_committed_smallRing : cap smallRing ≠ 2 ^ 31
        ∧ ∃ s, fillOps.foldlM (step smallRing) (initial smallRing) = some s
          ∧ Deliveries smallRing s
          ∧ Payloads smallRing s
          ∧ ∀ j < s.consumed, ∀ r, s.records[j]? = some r → r.status ≠ .busy :=
  ⟨by decide, delivers_committed_run smallRing (by decide) fillOps⟩

end Bpftime.RingbufMap
