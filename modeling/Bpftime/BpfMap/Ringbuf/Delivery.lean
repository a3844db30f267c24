import Bpftime.BpfMap.Ringbuf.Lemmas.Run

namespace Bpftime.RingbufMap

open ByteMem RingSpace

variable {p : Params}

def State.isCommitted (s : State) (i : Nat) : Bool :=
  s.records[i]?.any (·.status = .committed)

structure Deliveries (p : Params) (s : State) : Prop where
  order : s.delivered.map Delivery.record = (List.range s.consumed).filter s.isCommitted
  sample : ∀ d ∈ s.delivered, ∀ r, s.records[d.record]? = some r →
    d.sample.addr = data p + s.pos d.record % cap p + 8 ∧ d.sample.len = r.size.toNat

def Evolves (r r' : Record) : Prop :=
  r'.size = r.size ∧ r'.fd = r.fd ∧ r'.ptr = r.ptr ∧ (r.status ≠ .busy → r' = r)

theorem Evolves.refl (r : Record) : Evolves r r := ⟨rfl, rfl, rfl, fun _ => rfl⟩

variable {r : Record} {i : Nat} {s s' : State} {op : Op}

theorem Evolves.trans {r' r'' : Record} (h : Evolves r r') (h' : Evolves r' r'') : Evolves r r'' := by
  rcases h with ⟨hsize, hfd, hptr, hdone⟩
  rcases h' with ⟨hsize', hfd', hptr', hdone'⟩
  refine ⟨by rw [hsize', hsize], by rw [hfd', hfd], by rw [hptr', hptr], ?_⟩
  intro hbusy
  have heq := hdone hbusy
  subst heq
  exact hdone' hbusy

theorem evolves_set {rs : List Record} {j : Nat} {r' q : Record} (hr : rs[i]? = some r)
    (hrr : Evolves r r') (hq : rs[j]? = some q)
    : ∃ q', (rs.set i r')[j]? = some q' ∧ Evolves q q' := by
  have hlt := (List.getElem?_eq_some_iff.mp hr).1
  by_cases hji : j = i
  . subst hji
    rw [hr] at hq
    cases hq
    exists r'
    rw [List.getElem?_set_self hlt]
    exact ⟨rfl, hrr⟩
  . exists q
    rw [List.getElem?_set_ne (Ne.symm hji)]
    exact ⟨hq, .refl q⟩

theorem FetchStep.records_eq {err : Int32} (h : FetchStep p s err s') : s'.records = s.records := by
  cases h with
  | start _ _ | load _ _ _ | again _ _ _ _ _ | done _ _ _ _ _ | busy _ _ _ _ _ _ _ _ _
  | skip _ _ _ _ _ _ _ _ _ | deliver _ _ _ _ _ _ _ _ _ => rfl

theorem Stepped.evolves (h : Stepped p s op s') (hr : s.records[i]? = some r)
    : ∃ r', s'.records[i]? = some r' ∧ Evolves r r' := by
  cases h with
  | reserve h =>
    cases h with
    | refused _ _ => exact ⟨r, hr, .refl r⟩
    | granted _ _ _ _ =>
      exists r
      dsimp only
      rw [List.getElem?_append_left (List.getElem?_eq_some_iff.mp hr).1]
      exact ⟨hr, .refl r⟩
  | write h =>
    cases h with
    | ignored _ => exact ⟨r, hr, .refl r⟩
    | stored q hq hbusy _ =>
      apply evolves_set hq _ hr
      exact ⟨rfl, rfl, rfl, fun hno => absurd hbusy hno⟩
  | submit h =>
    cases h with
    | ignored _ => exact ⟨r, hr, .refl r⟩
    | stored q hq hbusy _ _ =>
      apply evolves_set hq _ hr
      exact ⟨rfl, rfl, rfl, fun hno => absurd hbusy hno⟩
  | fetch h =>
    exists r
    rw [h.records_eq]
    exact ⟨hr, .refl r⟩

theorem Stepped.consumer_cases (h : Stepped p s op s')
    : (s'.consumed = s.consumed ∧ s'.delivered = s.delivered)
        ∨ (∃ r c, s.records[s.consumed]? = some r ∧ r.status = .discarded ∧ s' = advance s r c [])
        ∨ (∃ r c, s.records[s.consumed]? = some r ∧ r.status = .committed
            ∧ s' = advance s r c [⟨s.consumed, sampleAt p s s.consumed r⟩]) := by
  cases h with
  | reserve h =>
    left
    cases h with
    | refused _ _ | granted _ _ _ _ => exact ⟨rfl, rfl⟩
  | write h =>
    left
    cases h with
    | ignored _ | stored _ _ _ _ => exact ⟨rfl, rfl⟩
  | submit h =>
    left
    cases h with
    | ignored _ | stored _ _ _ _ _ => exact ⟨rfl, rfl⟩
  | fetch h =>
    cases h with
    | start _ _ | load _ _ _ | again _ _ _ _ _ | done _ _ _ _ _ | busy _ _ _ _ _ _ _ _ _ =>
      exact Or.inl ⟨rfl, rfl⟩
    | skip _ _ _ _ _ _ r hr hdiscarded => exact Or.inr (Or.inl ⟨r, _, hr, hdiscarded, rfl⟩)
    | deliver _ _ _ _ _ _ r hr hcommitted => exact Or.inr (Or.inr ⟨r, _, hr, hcommitted, rfl⟩)

theorem isCommitted_eq_true_iff
    : s.isCommitted i = true ↔ ∃ r, s.records[i]? = some r ∧ r.status = .committed := by
  unfold State.isCommitted
  cases s.records[i]? with
  | none => simp
  | some r => simp

theorem Inv.isCommitted_stepped (h : Inv p s) (hstep : Stepped p s op s') (hi : i < s.consumed)
    : s'.isCommitted i = s.isCommitted i := by
  have hlt : i < s.records.length := Nat.lt_of_lt_of_le hi h.consumed_le
  have hr : s.records[i]? = some s.records[i] := List.getElem?_eq_getElem hlt
  rcases hstep.evolves hr with ⟨r', hr', -, -, -, hdone⟩
  unfold State.isCommitted
  rw [hr', hdone (h.past i _ hi hr), hr]

theorem Stepped.pos_eq (h : Stepped p s op s') (hi : i ≤ s.records.length)
    : s'.pos i = s.pos i := by
  cases h with
  | reserve h =>
    cases h with
    | refused _ _ => rfl
    | granted _ _ _ _ =>
      unfold State.pos widths
      rw [List.map_append]
      apply start_append
      rw [List.length_map]
      exact hi
  | write h =>
    cases h with
    | ignored _ => rfl
    | stored _ hr _ _ =>
      unfold State.pos
      congr 1
      apply widths_set hr
      rfl
  | submit h =>
    cases h with
    | ignored _ => rfl
    | stored _ hr _ _ _ =>
      unfold State.pos
      congr 1
      apply widths_set hr
      rfl
  | fetch h =>
    unfold State.pos
    rw [h.records_eq]

theorem Deliveries.order_stepped (h : Inv p s) (hd : Deliveries p s) (hstep : Stepped p s op s')
    : s'.delivered.map Delivery.record = (List.range s'.consumed).filter s'.isCommitted := by
  have hcongr : (List.range s.consumed).filter s'.isCommitted
      = (List.range s.consumed).filter s.isCommitted := by
    apply List.filter_congr
    intro i hi
    rw [List.mem_range] at hi
    exact h.isCommitted_stepped hstep hi
  rcases hstep.consumer_cases with ⟨hc, hdel⟩ | ⟨r, c, hr, hstatus, rfl⟩ | ⟨r, c, hr, hstatus, rfl⟩
  . rw [hc, hdel, hcongr]
    exact hd.order
  . have hnot : (advance s r c []).isCommitted s.consumed = false := by
      show (s.records[s.consumed]?.any _) = false
      rw [hr]
      simp [hstatus]
    show (s.delivered ++ []).map Delivery.record = (List.range (s.consumed + 1)).filter _
    rw [List.append_nil, List.range_succ, List.filter_append, hcongr, hd.order]
    simp [hnot]
  . have hyes : (advance s r c [⟨s.consumed, sampleAt p s s.consumed r⟩]).isCommitted s.consumed
        = true := by
      show (s.records[s.consumed]?.any _) = true
      rw [hr]
      simp [hstatus]
    show (s.delivered ++ [_]).map Delivery.record = (List.range (s.consumed + 1)).filter _
    rw [List.map_append, List.range_succ, List.filter_append, hcongr, hd.order]
    simp [hyes]

theorem Deliveries.record_lt (hd : Deliveries p s) {d : Delivery} (h : d ∈ s.delivered)
    : d.record < s.consumed := by
  have hmem : d.record ∈ s.delivered.map Delivery.record := List.mem_map_of_mem h
  rw [hd.order, List.mem_filter, List.mem_range] at hmem
  exact hmem.1

theorem Deliveries.delivered_cases {d : Delivery}
    (h : Inv p s) (hd : Deliveries p s) (hstep : Stepped p s op s') (hmem : d ∈ s'.delivered)
    (hr : s'.records[d.record]? = some r)
    : s.records[d.record]? = some r ∧ s'.pos d.record = s.pos d.record
      ∧ (d ∈ s.delivered ∨ d = ⟨s.consumed, sampleAt p s s.consumed r⟩) := by
  have hold (hmem : d ∈ s.delivered)
      : s.records[d.record]? = some r ∧ s'.pos d.record = s.pos d.record := by
    have hlt := hd.record_lt hmem
    have hlen : d.record < s.records.length := Nat.lt_of_lt_of_le hlt h.consumed_le
    have hr₀ : s.records[d.record]? = some s.records[d.record] := List.getElem?_eq_getElem hlen
    rcases hstep.evolves hr₀ with ⟨r', hr', -, -, -, hdone⟩
    rw [hr] at hr'
    cases hr'
    have heq := hdone (h.past _ _ hlt hr₀)
    rw [hr₀, heq]
    exact ⟨rfl, hstep.pos_eq (by omega)⟩
  rcases hstep.consumer_cases with ⟨-, hdel⟩ | ⟨r₀, c, hr₀, -, rfl⟩ | ⟨r₀, c, hr₀, -, rfl⟩
  . rw [hdel] at hmem
    exact ⟨(hold hmem).1, (hold hmem).2, .inl hmem⟩
  . have hmem' : d ∈ s.delivered := by simpa [advance] using hmem
    exact ⟨(hold hmem').1, (hold hmem').2, .inl hmem'⟩
  . have hmem' : d ∈ s.delivered ∨ d = ⟨s.consumed, sampleAt p s s.consumed r₀⟩ := by
      simpa [advance] using hmem
    rcases hmem' with hmem' | rfl
    . exact ⟨(hold hmem').1, (hold hmem').2, .inl hmem'⟩
    . have hrr : s.records[s.consumed]? = some r := hr
      rw [hr₀] at hrr
      cases hrr
      exact ⟨hr₀, rfl, .inr rfl⟩

theorem Deliveries.sample_stepped (h : Inv p s) (hd : Deliveries p s) (hstep : Stepped p s op s')
    : ∀ d ∈ s'.delivered, ∀ r, s'.records[d.record]? = some r →
        d.sample.addr = data p + s'.pos d.record % cap p + 8 ∧ d.sample.len = r.size.toNat := by
  intro d hmem r hr'
  rcases hd.delivered_cases h hstep hmem hr' with ⟨hr, hpos, hold | rfl⟩
  . rw [hpos]
    exact hd.sample d hold r hr
  . rw [hpos]
    exact ⟨rfl, rfl⟩

theorem deliveries_initial : Deliveries p (initial p) := by
  constructor
  . rfl
  . intro d hd
    contradiction

theorem Deliveries.stepped (h : Inv p s) (hd : Deliveries p s) (hstep : Stepped p s op s')
    : Deliveries p s' :=
  ⟨hd.order_stepped h hstep, hd.sample_stepped h hstep⟩

end Bpftime.RingbufMap
