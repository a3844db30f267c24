import Bpftime.BpfMap.Ringbuf.Progress

/-!
This module contains when a reserved record keeps its header and its bytes.
-/

namespace Bpftime.RingbufMap

open ByteMem RingSpace

variable {p : Params}

def Straight (p : Params) (pos : Nat) (r : Record) : Prop :=
  r.ptr = data p + pos % cap p + 8 ∨ r.size.toNat = 0

structure Payloads (p : Params) (s : State) : Prop where
  bytes : ∀ d ∈ s.delivered, ∀ r, s.records[d.record]? = some r → Straight p (s.pos d.record) r →
    ∀ c, r.content = some c → d.sample.bytes = c

theorem ptr_eq_of_ne {pos : Nat} (h8 : 8 ≤ cap p) (hpos : 8 ∣ pos) (h : (pos + 8) % cap p ≠ 0)
    : (pos + 8) % cap p = pos % cap p + 8 := by
  have hle := mod_cap_add_le h8 hpos
  rcases Nat.lt_or_eq_of_le hle with hlt | heq
  . rw [Nat.add_mod, Nat.mod_eq_of_lt (show 8 < cap p by omega), Nat.mod_eq_of_lt hlt]
  . exfalso
    apply h
    rw [← Nat.mod_add_mod, heq, Nat.mod_self]

variable {s s' : State} {i : Nat} {r : Record} {c : List UInt8} {C : State → Op → Prop}
variable {ops : List Op}

theorem Holds.sample_bytes (h : Holds p s.rb.rawBuffer (s.pos i) r)
    (hstraight : Straight p (s.pos i) r) (hc : r.content = some c)
    : (sampleAt p s i r).bytes = c := by
  rcases h.content c hc with ⟨hlen, hbytes⟩
  unfold sampleAt
  rcases hstraight with hptr | hsize
  . rw [← hptr]
    exact hbytes
  . rw [hsize] at hlen ⊢
    rw [List.eq_nil_of_length_eq_zero hlen]
    rfl

theorem payloads_initial : Payloads p (initial p) := by
  constructor
  intro d hd
  contradiction

theorem Payloads.stepped {op : Op} (h : Inv p s) (hd : Deliveries p s) (hp : Payloads p s)
    (hstep : Stepped p s op s')
    : Payloads p s' := by
  constructor
  intro d hmem r hr' hstraight c hc
  rcases hd.delivered_cases h hstep hmem hr' with ⟨hr, hpos, hold | rfl⟩
  . rw [hpos] at hstraight
    exact hp.bytes d hold r hr hstraight c hc
  . rw [hpos] at hstraight
    exact (h.live _ _ (Nat.le_refl _) hr).sample_bytes hstraight hc

theorem Inv.fdBefore_atEnd (h : Inv p s)
    (hr : s.records[i]? = some r) (hend : (s.pos i + 8) % cap p = 0)
    : fdBefore s.rb r.ptr = some 0 := by
  have hdata : 4096 ≤ data p := by
    have := p.le_pageSize
    unfold data
    omega
  have hlen := h.len
  -- The four bytes before the data area are the end of the producer page.
  have hbytes : s.rb.rawBuffer.bytes (data p - 4) 4 = List.replicate 4 0 := by
    rw [List.eq_replicate_iff]
    refine ⟨by simp, ?_⟩
    intro b hb
    unfold bytes at hb
    rw [List.mem_map] at hb
    rcases hb with ⟨j, hj, rfl⟩
    rw [List.mem_range] at hj
    apply h.low
    omega
  unfold fdBefore
  rw [(h.shape i r hr).ptr_eq, hend, Nat.add_zero, load32_eq_some (by omega), hbytes]
  rw [decode32_replicate_zero]
  rfl

theorem Inv.fdBefore_eq (h : Inv p s) (hr : s.records[i]? = some r)
    (hbusy : r.status = .busy) (hgood : (s.pos i + 8) % cap p ≠ 0 ∨ r.fd = 0)
    : fdBefore s.rb r.ptr = some r.fd := by
  have hshape := h.shape i r hr
  have hheader := h.header_le hshape.eight_le i
  have hholds := h.live i r (h.consumed_le_of_busy hr hbusy) hr
  by_cases hend : (s.pos i + 8) % cap p = 0
  . rcases hgood with hne | hfd
    . contradiction
    . rw [hfd]
      exact h.fdBefore_atEnd hr hend
  . have hptr := ptr_eq_of_ne hshape.eight_le (dvd_pos s i) hend
    have haddr : data p + (s.pos i % cap p + 8) - 4 = data p + s.pos i % cap p + 4 := by omega
    unfold fdBefore
    rw [hshape.ptr_eq, hptr, haddr, load32_eq_some (by omega), hholds.fd]
    simp

/-- The record keeps its fd until it is submitted, and its bytes are delivered. -/
structure PayloadMeets (p : Params) (C : State → Op → Prop) (s : State) (i : Nat) : Prop where
  fd : ∀ ops s', Run.Exec (step p) C s ops s' → ∀ r, s'.records[i]? = some r → r.status = .busy →
    fdBefore s'.rb r.ptr = some r.fd
  bytes : ∀ ops s', Run.Exec (step p) C s ops s' → ∀ r, s'.records[i]? = some r →
    ∀ d ∈ s'.delivered, d.record = i → ∀ c, r.content = some c → d.sample.bytes = c
  delivered : ∀ ops s', Run.Exec (step p) C s ops s' → ∀ r, s'.records[i]? = some r →
    r.status = .committed → (∀ j < i, ∀ q, s'.records[j]? = some q → q.status ≠ .busy) →
    ∀ ops' s'', Run.Exec (step p) C s' ops' s'' → 4 * (i + 2) ≤ ops'.countP Op.isFetch →
      i ∈ s''.delivered.map Delivery.record

/-- The header does not end with the buffer, and the position does not wrap. -/
def PayloadFits (p : Params) (s : State) (size : UInt64) (fd : Int32) : Prop :=
  ((s.rb.producerPos.toNat + 8) % cap p ≠ 0 ∨ size = 0 ∧ fd = 0)
    ∧ s.rb.producerPos.toNat + total size.toNat < 2 ^ 64

theorem evolves_exec (hexec : Run.Exec (step p) C s ops s') (h : Inv p s)
    (hr : s.records[i]? = some r)
    : s'.pos i = s.pos i ∧ ∃ r', s'.records[i]? = some r' ∧ Evolves r r' := by
  induction hexec generalizing r with
  | nil s => exact ⟨rfl, r, hr, .refl r⟩
  | cons _ hstep _ ih =>
    have hs := h.stepped hstep
    have hlt := (List.getElem?_eq_some_iff.mp hr).1
    rcases hs.evolves hr with ⟨r', hr', hev⟩
    rcases ih (h.step hstep) hr' with ⟨hpos, r'', hr'', hev'⟩
    refine ⟨?_, r'', hr'', hev.trans hev'⟩
    rw [hpos, hs.pos_eq (by omega)]

theorem Payloads.exec (hexec : Run.Exec (step p) C s ops s') (h : Safe p s) (hp : Payloads p s)
    : Payloads p s' := by
  induction hexec with
  | nil s => exact hp
  | cons hC hstep _ ih =>
    apply ih (h.exec (.cons hC hstep (.nil _)))
    exact hp.stepped h.inv h.deliveries (h.inv.stepped hstep)

theorem Running.payloadMeets (h : Running p s) (hp : Payloads p s)
    (hr : s.records[i]? = some r) (hgood : (s.pos i + 8) % cap p ≠ 0 ∨ r.size = 0 ∧ r.fd = 0)
    : PayloadMeets p (NoWrap p) s i := by
  constructor
  . intro ops s' hexec r' hr' hbusy
    rcases evolves_exec hexec h.inv hr with ⟨hpos, r'', hr'', -, hfd, -⟩
    rw [hr'] at hr''
    cases hr''
    apply (h.exec hexec).inv.fdBefore_eq hr' hbusy
    rw [hpos, hfd]
    rcases hgood with hne | ⟨-, hfd⟩
    . exact Or.inl hne
    . exact Or.inr hfd
  . intro ops s' hexec r' hr' d hd hrec c hc
    rcases evolves_exec hexec h.inv hr with ⟨hpos, r'', hr'', hsize, -⟩
    rw [hr'] at hr''
    cases hr''
    have hs' := (h.exec hexec).inv
    have hshape := hs'.shape i r' hr'
    subst hrec
    apply (Payloads.exec hexec h.safe hp).bytes d hd r' hr' _ c hc
    rcases hgood with hne | ⟨hzero, -⟩
    . left
      rw [← hpos] at hne
      rw [hshape.ptr_eq, ptr_eq_of_ne hshape.eight_le (dvd_pos s' _) hne, Nat.add_assoc]
    . right
      rw [hsize, hzero]
      rfl
  . intro ops s' hexec r' hr' hcommitted hbefore
    exact (h.exec hexec).deliversAll i r' hr' hcommitted hbefore

theorem Inv.exec_exists (hC : ∀ op ∈ ops, ∀ s, C s op)
    : ∀ {s : State}, Inv p s → ∃ s', Run.Exec (RingbufMap.step p) C s ops s' := by
  induction ops with
  | nil =>
    intro s _
    exact ⟨s, .nil s⟩
  | cons op ops ih =>
    intro s h
    rcases h.step_eq_some op with ⟨s₁, hstep, -⟩
    rcases ih (fun op' hop' => hC op' (List.mem_cons_of_mem _ hop')) (h.step hstep) with ⟨s', hexec⟩
    exact ⟨s', .cons (hC op List.mem_cons_self s) hstep hexec⟩

def Op.isQuiet : Op → Bool
  | .submit _ _ => true
  | .fetch _ => true
  | _ => false

theorem noWrap_of_isQuiet {op : Op} (h : op.isQuiet = true) : NoWrap p s op := by
  intro size fd hop
  subst hop
  contradiction

theorem Submitted.not_busy {discard : Bool} (h : Submitted p s i discard s')
    (hr : s.records[i]? = some r)
    : ∃ r', s'.records[i]? = some r' ∧ r'.status ≠ .busy := by
  cases h with
  | ignored hno =>
    refine ⟨r, hr, ?_⟩
    intro hbusy
    rw [owned_eq_some_iff.mpr ⟨hr, hbusy⟩] at hno
    contradiction
  | stored q hq hbusy w hholds =>
    refine ⟨_, List.getElem?_set_self (List.getElem?_eq_some_iff.mp hq).1, ?_⟩
    cases discard with
    | true => simp
    | false => simp

theorem not_busy_of_mem_submit (hexec : Run.Exec (step p) C s ops s') (h : Inv p s) {discard : Bool}
    (hr : s.records[i]? = some r) (hmem : .submit i discard ∈ ops)
    : ∃ r', s'.records[i]? = some r' ∧ r'.status ≠ .busy := by
  induction hexec generalizing r with
  | nil s => contradiction
  | cons _ hstep hrest ih =>
    have hs := h.stepped hstep
    rcases hs.evolves hr with ⟨r₁, hr₁, -⟩
    rcases List.mem_cons.mp hmem with rfl | hmem
    . cases hs with
      | submit hsub =>
        rcases hsub.not_busy hr with ⟨r₂, hr₂, hbusy⟩
        rcases evolves_exec hrest (h.step hstep) hr₂ with ⟨-, r', hr', -, -, -, hdone⟩
        rw [hdone hbusy] at hr'
        exact ⟨r₂, hr', hbusy⟩
    . exact ih (h.step hstep) hr₁ hmem

theorem Submitted.committed (h : Submitted p s i false s')
    (hr : s.records[i]? = some r) (hbusy : r.status = .busy)
    : ∃ r', s'.records[i]? = some r' ∧ r'.status = .committed := by
  cases h with
  | ignored hno =>
    rw [owned_eq_some_iff.mpr ⟨hr, hbusy⟩] at hno
    contradiction
  | stored q hq _ w hholds =>
    exact ⟨_, List.getElem?_set_self (List.getElem?_eq_some_iff.mp hq).1, rfl⟩

def settle (i : Nat) : List Op := .submit i false :: (List.range i).map (.submit · false)

theorem settle_spec (hexec : Run.Exec (step p) C s (settle i) s') (h : Inv p s)
    (hr : s.records[i]? = some r) (hbusy : r.status = .busy)
    : (∃ r', s'.records[i]? = some r' ∧ r'.status = .committed)
        ∧ ∀ j < i, ∀ q, s'.records[j]? = some q → q.status ≠ .busy := by
  constructor
  . cases hexec with
    | cons _ hstep hrest =>
      cases h.stepped hstep with
      | submit hsub =>
        rcases hsub.committed hr hbusy with ⟨r₁, hr₁, hcommitted⟩
        rcases evolves_exec hrest (h.step hstep) hr₁ with ⟨-, r', hr', -, -, -, hdone⟩
        rw [hdone (by simp [hcommitted])] at hr'
        exact ⟨r₁, hr', hcommitted⟩
  . intro j hj q hq
    have hlt : j < s.records.length := Nat.lt_trans hj (List.getElem?_eq_some_iff.mp hr).1
    have hmem : Op.submit j false ∈ settle i := by
      apply List.mem_cons_of_mem
      rw [List.mem_map]
      exact ⟨j, List.mem_range.mpr hj, rfl⟩
    rcases not_busy_of_mem_submit hexec h (List.getElem?_eq_getElem hlt) hmem with ⟨q', hq', hnot⟩
    rw [hq] at hq'
    cases hq'
    exact hnot

theorem PayloadMeets.exists_delivery
    (h : PayloadMeets p (NoWrap p) s i) (hexec : Run.Exec (step p) (NoWrap p) s ops s') (hs' : Inv p s')
    (hr : s'.records[i]? = some r) (hbusy : r.status = .busy)
    : ∃ ops' s'', Run.Exec (step p) (fun _ op => op.isQuiet = true) s' ops' s''
        ∧ i ∈ s''.delivered.map Delivery.record := by
  have hsettle : ∀ op ∈ settle i, ∀ s : State, (fun (_ : State) op => Op.isQuiet op = true) s op := by
    intro op hop s
    rcases List.mem_cons.mp hop with rfl | hop
    . rfl
    . rw [List.mem_map] at hop
      rcases hop with ⟨j, -, rfl⟩
      rfl
  rcases hs'.exec_exists hsettle with ⟨s₁, hexec₁⟩
  have hs₁ : Inv p s₁ := by
    apply hexec₁.invariant _ hs'
    intro s op s' hs _ hstep
    exact hs.step hstep
  have hfetch : ∀ op ∈ List.replicate (4 * (i + 2)) (Op.fetch 0), ∀ s : State,
      (fun (_ : State) op => Op.isQuiet op = true) s op := by
    intro op hop s
    rw [List.eq_of_mem_replicate hop]
    rfl
  rcases hs₁.exec_exists hfetch with ⟨s₂, hexec₂⟩
  rcases settle_spec hexec₁ hs' hr hbusy with ⟨⟨r₁, hr₁, hcommitted⟩, hbefore⟩
  refine ⟨_, s₂, hexec₁.append hexec₂, ?_⟩
  have hnoWrap : ∀ (s : State) op s', Op.isQuiet op = true → step p s op = some s' →
      NoWrap p s op := by
    intro s op s' hop _
    exact noWrap_of_isQuiet hop
  apply h.delivered _ s₁ (hexec.append (hexec₁.mono hnoWrap)) r₁ hr₁ hcommitted hbefore _ s₂
    (hexec₂.mono hnoWrap)
  rw [List.countP_replicate]
  simp [Op.isFetch]

structure Stale (p : Params) (s : State) (i : Nat) (old c : List UInt8) : Prop where
  inv : Inv p s
  atEnd : s.pos i % cap p + 8 = cap p
  record : ∃ r, s.records[i]? = some r ∧ r.size.toNat = old.length ∧ r.content = some c
  bytes : s.rb.rawBuffer.bytes (data p + cap p) old.length = old
  delivered : ∀ d ∈ s.delivered, d.record = i → d.sample.bytes = old

theorem Stale.submitted {j : Nat} {discard : Bool} {old : List UInt8}
    (h : Stale p s i old c) (hstep : Submitted p s j discard s')
    : Stale p s' i old c := by
  have hinv := h.inv.submitted hstep
  rcases h.record with ⟨r, hr, hsize, hc⟩
  have hlt := (List.getElem?_eq_some_iff.mp hr).1
  have hpos : s'.pos i = s.pos i := (Stepped.submit hstep).pos_eq (by omega)
  cases hstep with
  | ignored _ => exact h
  | stored q hq hbusy w hholds =>
    refine ⟨hinv, ?_, ?_, ?_, h.delivered⟩
    . rw [hpos]
      exact h.atEnd
    . by_cases hij : i = j
      . subst hij
        rw [hr] at hq
        cases hq
        exact ⟨_, List.getElem?_set_self hlt, hsize, hc⟩
      . refine ⟨r, ?_, hsize, hc⟩
        rw [List.getElem?_set_ne (Ne.symm hij)]
        exact hr
    . have hle := mod_cap_add_le (h.inv.shape j q hq).eight_le (dvd_pos s j)
      show (ByteMem.write _ _ _).bytes (data p + cap p) old.length = old
      rw [← h.bytes]
      have hlen : (s.rb.rawBuffer.bytes (data p + cap p) old.length).length = old.length := by simp
      rw [hlen]
      apply bytes_congr
      intro k _
      apply byte_write_of_outside
      rw [length_encode32]
      omega

theorem Stale.fetchStep {err : Int32} {old : List UInt8}
    (h : Stale p s i old c) (hstep : FetchStep p s err s')
    : Stale p s' i old c := by
  have hinv := h.inv.fetchStep hstep
  cases hstep with
  | start _ _ | load _ _ _ | again _ _ _ _ _ | done _ _ _ _ _ | busy _ _ _ _ _ _ _ _ _ =>
    exact ⟨hinv, h.atEnd, h.record, h.bytes, h.delivered⟩
  | skip _ _ _ _ _ _ r hr _ =>
    refine ⟨hinv, h.atEnd, h.record, h.bytes, ?_⟩
    intro d hd
    apply h.delivered d
    simpa [advance] using hd
  | deliver _ _ _ _ _ _ r hr _ =>
    refine ⟨hinv, h.atEnd, h.record, h.bytes, ?_⟩
    intro d hd hrec
    have hd' : d ∈ s.delivered ∨ d = ⟨s.consumed, sampleAt p s s.consumed r⟩ := by
      simpa [advance] using hd
    rcases hd' with hd' | rfl
    . exact h.delivered d hd' hrec
    . dsimp only at hrec
      subst hrec
      rcases h.record with ⟨r', hr', hsize, -⟩
      rw [hr] at hr'
      cases hr'
      unfold sampleAt
      dsimp only
      rw [Nat.add_assoc, h.atEnd, hsize]
      exact h.bytes

theorem Stale.exec {old : List UInt8} (h : Stale p s i old c)
    (hexec : Run.Exec (step p) (fun _ op => op.isQuiet = true) s ops s')
    : Stale p s' i old c := by
  apply hexec.invariant _ h
  intro s op s' hs hquiet hstep
  cases hs.inv.stepped hstep with
  | reserve _ | write _ => contradiction
  | submit hsub => exact hs.submitted hsub
  | fetch hf => exact hs.fetchStep hf

theorem stale_of_written (h : Inv p s)
    (hd : Deliveries p s) (hr : s.records[i]? = some r) (hbusy : r.status = .busy)
    (hend : (s.pos i + 8) % cap p = 0) (hc : c.length = r.size.toNat) (hstep : Written p s i c s')
    : Stale p s' i (s.rb.rawBuffer.bytes (data p + cap p) r.size.toNat) c := by
  have hinv := h.written hstep
  have hshape := h.shape i r hr
  have hlt := (List.getElem?_eq_some_iff.mp hr).1
  have hpos : s'.pos i = s.pos i := (Stepped.write hstep).pos_eq (by omega)
  have hatEnd : s.pos i % cap p + 8 = cap p := by
    have hle := mod_cap_add_le hshape.eight_le (dvd_pos s i)
    rcases Nat.lt_or_eq_of_le hle with hlt | heq
    . rw [← Nat.mod_add_mod, Nat.mod_eq_of_lt hlt] at hend
      omega
    . exact heq
  cases hstep with
  | ignored hno => exact absurd hc (hno r (owned_eq_some_iff.mpr ⟨hr, hbusy⟩))
  | stored q hq _ _ =>
    rw [hr] at hq
    cases hq
    refine ⟨hinv, ?_, ?_, ?_, ?_⟩
    . rw [hpos]
      exact hatEnd
    . exact ⟨_, List.getElem?_set_self hlt, by simp, rfl⟩
    . have hwidth : r.size.toNat + 8 ≤ r.width := le_total _
      have hle := hshape.width_le
      have hptr := hshape.ptr_eq
      rw [length_bytes]
      apply bytes_congr
      intro k _
      apply byte_write_of_outside
      rw [hptr, hend]
      omega
    . intro d hmem hrec
      have hlt' := hd.record_lt hmem
      have := h.consumed_le_of_busy hr hbusy
      omega

theorem PayloadMeets.unwrapped (h : PayloadMeets p (NoWrap p) s i)
    (hs : Safe p s) (hr : s.records[i]? = some r) (hbusy : r.status = .busy)
    : s.pos i + r.width < 2 ^ 64 := by
  rcases h.exists_delivery (.nil s) hs.inv hr hbusy with ⟨ops, s', hexec, hmem⟩
  rcases evolves_exec hexec hs.inv hr with ⟨hpos, r', hr', hsize, -⟩
  rw [← Nat.not_le]
  intro hwrap
  apply (hs.exec hexec).not_delivered_of_wrap _ hmem
  rw [State.pos_succ hr', hpos]
  unfold Record.width at *
  rw [hsize]
  exact hwrap

theorem PayloadMeets.size_eq_zero (h : PayloadMeets p (NoWrap p) s i)
    (hs : Safe p s) (hr : s.records[i]? = some r) (hbusy : r.status = .busy)
    (hend : (s.pos i + 8) % cap p = 0)
    : r.size.toNat = 0 := by
  generalize hold : s.rb.rawBuffer.bytes (data p + cap p) r.size.toNat = old
  have hlen : old.length = r.size.toNat := by
    rw [← hold]
    exact length_bytes _ _ _
  generalize hc : old.map (· + 1) = c
  have hclen : c.length = r.size.toNat := by
    rw [← hc, List.length_map, hlen]
  rcases hs.inv.step_write i c with ⟨s₁, hstep, hwritten⟩
  have hstale := stale_of_written hs.inv hs.deliveries hr hbusy hend hclen hwritten
  rw [hold] at hstale
  have hexec : Run.Exec (step p) (NoWrap p) s [.write i c] s₁ := by
    apply Run.Exec.cons _ hstep (.nil s₁)
    intro size fd hop
    contradiction
  have hbusy₁ : ∃ r₁, s₁.records[i]? = some r₁ ∧ r₁.status = .busy := by
    cases hwritten with
    | ignored _ => exact ⟨r, hr, hbusy⟩
    | stored q hq hq' _ => exact ⟨_, List.getElem?_set_self (List.getElem?_eq_some_iff.mp hq).1, hq'⟩
  rcases hbusy₁ with ⟨r₁, hr₁, hbusy₁⟩
  rcases h.exists_delivery hexec hstale.inv hr₁ hbusy₁ with ⟨ops, s₂, hexec₂, hmem⟩
  rcases List.mem_map.mp hmem with ⟨d, hd, hrec⟩
  have hstale₂ := hstale.exec hexec₂
  rcases hstale₂.record with ⟨r₂, hr₂, -, hcontent⟩
  have hall := hexec.append (hexec₂.mono fun _ _ _ hop _ => noWrap_of_isQuiet hop)
  have hbytes : d.sample.bytes = c := h.bytes _ s₂ hall r₂ hr₂ d hd hrec c hcontent
  rw [hstale₂.delivered d hd hrec, ← hc] at hbytes
  cases old with
  | nil => exact hlen.symm
  | cons b bs =>
    rw [List.map_cons] at hbytes
    have hhead := (List.cons.inj hbytes).1
    simp at hhead

theorem Running.prod_eq (h : Running p s) : s.rb.producerPos.toNat = s.pos s.records.length := by
  rw [h.inv.prod, Nat.mod_eq_of_lt h.unwrapped]

theorem Reserved.new_record {size : UInt64} {fd : Int32} (h : Reserved p s size fd s')
    (hcheck : reserveCheck p s.rb size = .ok ())
    : s'.pos s.records.length = s.pos s.records.length
        ∧ ∃ ptr, s'.records[s.records.length]? = some ⟨size, fd, ptr, .busy, none⟩ := by
  refine ⟨(Stepped.reserve h).pos_eq (Nat.le_refl _), ?_⟩
  cases h with
  | refused e he =>
    rw [hcheck] at he
    contradiction
  | granted buf _ hbuf hholds => exact ⟨_, List.getElem?_concat_length⟩

theorem reserve_payload_iff (p : Params) {ops : List Op} {s : State}
    (hexec : Run.Exec (step p) (NoWrap p) (initial p) ops s) {size : UInt64} (fd : Int32)
    (hcheck : reserveCheck p s.rb size = .ok ())
    : (∃ s', step p s (.reserve size fd) = some s' ∧ PayloadMeets p (NoWrap p) s' s.records.length)
        ↔
      cap p ≠ 2 ^ 31 ∧ PayloadFits p s size fd := by
  constructor
  . rintro ⟨s', hstep, hmeets⟩
    have hcap : cap p ≠ 2 ^ 31 := by
      intro hcap
      rw [reserve_undefined hcap hexec fd hcheck] at hstep
      contradiction
    refine ⟨hcap, ?_⟩
    have hs := (running_initial hcap).exec hexec
    have hs' : Safe p s' := hs.safe.exec (Run.Exec.cons (C := fun _ _ => True) trivial hstep (.nil s'))
    cases hs.inv.stepped hstep with
    | reserve hres =>
      rcases hres.new_record hcheck with ⟨hpos, ptr, hr⟩
      unfold PayloadFits
      rw [hs.prod_eq, ← hpos]
      constructor
      . by_cases hend : (s'.pos s.records.length + 8) % cap p = 0
        . right
          constructor
          . apply UInt64.toNat.inj
            exact hmeets.size_eq_zero hs' hr rfl hend
          . have hfd := hmeets.fd [] _ (.nil _) _ hr rfl
            rw [hs'.inv.fdBefore_atEnd hr hend] at hfd
            exact (Option.some.inj hfd).symm
        . exact Or.inl hend
      . have hlt := hmeets.unwrapped hs' hr rfl
        exact hlt
  . rintro ⟨hcap, hfits, hwrap⟩
    have hs := (running_initial hcap).exec hexec
    rcases hs.inv.step_reserve size fd with ⟨s', hstep, hres⟩
    exists s'
    refine ⟨hstep, ?_⟩
    have hnoWrap : NoWrap p s (.reserve size fd) := by
      intro size' fd' hop _
      cases hop
      exact hwrap
    have hpayloads := Payloads.exec (hexec.append (.cons hnoWrap hstep (.nil s')))
      (running_initial hcap).safe payloads_initial
    rcases hres.new_record hcheck with ⟨hpos, ptr, hr⟩
    apply (hs.step hnoWrap hstep).payloadMeets hpayloads hr
    rw [hpos, ← hs.prod_eq]
    exact hfits

def smallRing : Params := { largestRing with maxEnt := 32, isPowerOfTwo := ⟨5, rfl⟩ }

theorem payloadMeets_smallRing_first
    : ∃ s', step smallRing (initial smallRing) (.reserve 1 5) = some s'
        ∧ PayloadMeets smallRing (NoWrap smallRing) s' 0 := by
  apply (reserve_payload_iff smallRing (.nil _) 5 (by decide)).mpr
  refine ⟨by decide, Or.inl (by decide), by decide⟩

def fillOps : List Op := [.reserve 16 5, .submit 0 false, .fetch 0, .fetch 0, .fetch 0]

def lossyOps : List Op := fillOps ++ [.reserve 1 5, .write 1 [7], .submit 1 false, .fetch 0, .fetch 0, .fetch 0]

theorem payload_lost_smallRing
    : (∃ s r, (fillOps ++ [Op.reserve 1 5]).foldlM (step smallRing) (initial smallRing) = some s
        ∧ s.records[1]? = some r ∧ r.status = .busy ∧ r.fd = 5 ∧ fdBefore s.rb r.ptr = some 0
        ∧ ¬ PayloadMeets smallRing (fun _ _ => True) s 1)
      ∧ (∃ s r d, lossyOps.foldlM (step smallRing) (initial smallRing) = some s
        ∧ s.records[1]? = some r ∧ r.content = some [7] ∧ s.delivered[1]? = some d ∧ d.record = 1
        ∧ d.sample.bytes = [0]) := by
  constructor
  . refine ⟨_, _, rfl, rfl, rfl, rfl, by decide, ?_⟩
    intro h
    have hfd := h.fd [] _ (.nil _) _ rfl rfl
    exact absurd hfd (by decide)
  . refine ⟨_, _, _, rfl, rfl, rfl, rfl, rfl, ?_⟩
    decide

end Bpftime.RingbufMap
