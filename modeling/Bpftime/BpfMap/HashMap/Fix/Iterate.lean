import Bpftime.BpfMap.HashMap.Fix.Impl
import Bpftime.BpfMap.HashMap.Run

namespace Bpftime.HashMap

open LinearProbe

variable {p : Params}

namespace FixSizeHashMapImpl

def Visits (m : FixSizeHashMapImpl p) : Option (Key p) → List (Key p) → Prop
  | key, [] => m.mapGetNextKey key true = .error .ENOENT
  | key, k :: ks => m.mapGetNextKey key true = .ok k ∧ m.Visits (some k) ks

def Stored (m : FixSizeHashMapImpl p) (key : Key p) : Prop :=
  ∃ i < m.mapImpl.numBuckets, m.mapImpl.keyAt i = some key

def VisitsStored (m : FixSizeHashMapImpl p) : Prop :=
  ∃ keys, m.Visits none keys ∧ keys.Nodup ∧ ∀ key, key ∈ keys ↔ m.Stored key

def Reaches (m : FixSizeHashMapImpl p) : Prop :=
  ∀ i < m.mapImpl.numBuckets, m.mapImpl.keyAt i ≠ none →
    i < m.numBuckets
      ∧ (p.valueSize = 0 → i + 1 < m.mapImpl.numBuckets ∧ m.mapImpl.keyAt (i + 1) = none)

section Loop

variable (m : FixSizeHashMapImpl p)

def slotsFrom (start : Nat) : List Nat :=
  (List.range' start (m.numBuckets - start)).filter fun i => !m.mapImpl.isEmpty i

variable {i start : Nat} {key : Key p}

theorem isEmpty_eq_true_iff : m.mapImpl.isEmpty i = true ↔ m.mapImpl.keyAt i = none := by
  unfold BpftimeHashMap.keyAt
  cases m.mapImpl.isEmpty i with
  | true => simp
  | false => simp

theorem mem_slotsFrom
    : i ∈ m.slotsFrom start ↔ start ≤ i ∧ i < m.numBuckets ∧ m.mapImpl.keyAt i ≠ none := by
  unfold slotsFrom
  rw [List.mem_filter, List.mem_range'_1, Bool.not_eq_true', ← Bool.not_eq_true]
  rw [isEmpty_eq_true_iff, ← and_assoc]
  apply and_congr_left
  intro _
  omega

theorem slotsFrom_head {rest : List Nat} (h : m.slotsFrom start = i :: rest)
    : start ≤ i ∧ i < m.numBuckets ∧ m.mapImpl.keyAt i ≠ none := by
  rw [← mem_slotsFrom, h]
  exact List.mem_cons_self

theorem firstKeyFrom_eq : m.firstKeyFrom start
        =
      match m.slotsFrom start with
      | [] => .error .ENOENT
      | i :: _ => .ok (m.mapImpl.getKey i) := by
  unfold firstKeyFrom slotsFrom
  dsimp only
  rw [← List.head?_filter]
  cases List.filter _ _ <;> rfl

theorem slotsFrom_succ (start : Nat) (h : start < m.numBuckets) : m.slotsFrom start
        =
      if m.mapImpl.isEmpty start then m.slotsFrom (start + 1)
      else start :: m.slotsFrom (start + 1) := by
  unfold slotsFrom
  have hn : m.numBuckets - start = m.numBuckets - (start + 1) + 1 := by omega
  rw [hn, List.range'_succ, List.filter_cons]
  cases m.mapImpl.isEmpty start with
  | true => simp
  | false => simp

theorem slotsFrom_of_ge (h : m.numBuckets ≤ start) : m.slotsFrom start = [] := by
  unfold slotsFrom
  rw [Nat.sub_eq_zero_of_le h]
  rfl

theorem slotsFrom_of_empty (h : m.mapImpl.keyAt start = none)
    : m.slotsFrom start = m.slotsFrom (start + 1) := by
  rcases Nat.lt_or_ge start m.numBuckets with hlt | hge
  . rw [m.slotsFrom_succ start hlt]
    rw [if_pos (m.isEmpty_eq_true_iff.mpr h)]
  . rw [m.slotsFrom_of_ge hge]
    rw [m.slotsFrom_of_ge (by omega)]

theorem slotsFrom_eq_cons {rest : List Nat} (h : m.slotsFrom start = i :: rest)
    : m.slotsFrom (i + 1) = rest ∧ ∀ j, start ≤ j → j < i → m.mapImpl.keyAt j = none := by
  -- on the number of slots the loop has in front of it
  induction hk : m.numBuckets - start generalizing start with
  | zero =>
    rw [m.slotsFrom_of_ge (by omega)] at h
    contradiction
  | succ k ih =>
    rw [m.slotsFrom_succ start (by omega)] at h
    split at h
    next hempty =>
      rcases ih h (by omega) with ⟨hrest, hnone⟩
      refine ⟨hrest, ?_⟩
      intro j hle hlt
      rcases Nat.eq_or_lt_of_le hle with heq | hlt'
      . rw [← heq]
        exact m.isEmpty_eq_true_iff.mp hempty
      . exact hnone j hlt' hlt
    next =>
      cases h
      refine ⟨rfl, ?_⟩
      intro j hle hlt
      omega

def resumeSlot (i : Nat) : Nat :=
  match m.mapImpl.getIndexOfValue (BpftimeHashMap.valuePtr p i) with
  | none => 0
  | some index => index + 1

theorem mapGetNextKey_of_absent (h : m.mapImpl.elemLookup key = none)
    : m.mapGetNextKey (some key) true = m.firstKeyFrom 0 := by
  have hptr : m.elemLookup key = none := by
    unfold elemLookup
    rw [h]
    rfl
  unfold mapGetNextKey
  simp only [Bool.not_true, Bool.false_eq_true, if_false, hptr]

theorem mapGetNextKey_of_found (h : m.mapImpl.elemLookup key = some i)
    : m.mapGetNextKey (some key) true = m.firstKeyFrom (m.resumeSlot i) := by
  have hptr : m.elemLookup key = some (BpftimeHashMap.valuePtr p i) := by
    unfold elemLookup
    rw [h]
    rfl
  unfold mapGetNextKey resumeSlot
  simp only [Bool.not_true, Bool.false_eq_true, if_false, hptr]
  cases m.mapImpl.getIndexOfValue (BpftimeHashMap.valuePtr p i) with
  | none => rfl
  | some index => rfl

theorem getKey_eq_iff (h : m.mapImpl.keyAt i ≠ none)
    : m.mapImpl.getKey i = key ↔ m.mapImpl.keyAt i = some key := by
  unfold BpftimeHashMap.keyAt at h ⊢
  cases hempty : m.mapImpl.isEmpty i with
  | true => simp [hempty] at h
  | false => simp

end Loop

theorem Sized.numBuckets_le {m : FixSizeHashMapImpl p} (h : m.Sized)
    : m.numBuckets ≤ m.mapImpl.numBuckets := by
  rw [h.numBuckets_eq, ← h.mapImpl.maxElementCount_eq]
  exact h.mapImpl.maxElementCount_le

section Resume

variable {m : FixSizeHashMapImpl p} (h : m.Sized) {i : Nat}

include h

theorem Sized.valuePtr_eq (hi : i < m.mapImpl.numBuckets)
    : BpftimeHashMap.valuePtr p i = i * p.elemSize + (4 + p.keySize) := by
  rw [h.mapImpl.numBuckets_eq] at hi
  unfold BpftimeHashMap.valuePtr
  rw [Params.getElemOffset_eq (Nat.le_of_lt hi), Nat.add_assoc]

theorem Sized.resumeSlot_of_pos (hv : 0 < p.valueSize) (hi : i < m.mapImpl.numBuckets)
    : m.resumeSlot i = i + 1 := by
  have hindex : m.mapImpl.getIndexOfValue (BpftimeHashMap.valuePtr p i) = some i := by
    have hle := Nat.mul_le_mul_right p.elemSize (Nat.succ_le_of_lt hi)
    have hsize : 4 + p.keySize < p.elemSize := by
      unfold Sizes.elemSize
      omega
    rw [Nat.succ_mul] at hle
    rw [h.valuePtr_eq hi]
    unfold BpftimeHashMap.getIndexOfValue
    rw [p.bufferSize_eq, ← h.mapImpl.numBuckets_eq, if_neg (by omega)]
    rw [Nat.mul_comm, Nat.mul_add_div (by omega), Nat.div_eq_of_lt hsize]
    rfl
  unfold resumeSlot
  rw [hindex]

theorem Sized.valuePtr_of_zero (hv : p.valueSize = 0) (hi : i < m.mapImpl.numBuckets)
    : BpftimeHashMap.valuePtr p i = (i + 1) * p.elemSize := by
  rw [h.valuePtr_eq hi, Nat.succ_mul]
  unfold Sizes.elemSize
  omega

theorem Sized.resumeSlot_of_zero (hv : p.valueSize = 0) (hi : i + 1 < m.mapImpl.numBuckets)
    : m.resumeSlot i = i + 2 := by
  have hsize : 0 < p.elemSize := by
    unfold Sizes.elemSize
    omega
  have hindex : m.mapImpl.getIndexOfValue (BpftimeHashMap.valuePtr p i) = some (i + 1) := by
    have hlt := Nat.mul_lt_mul_of_pos_right hi hsize
    rw [h.valuePtr_of_zero hv (by omega)]
    unfold BpftimeHashMap.getIndexOfValue
    rw [p.bufferSize_eq, ← h.mapImpl.numBuckets_eq, if_neg (by omega),
      Nat.mul_div_cancel _ hsize]
  unfold resumeSlot
  rw [hindex]

theorem Sized.resumeSlot_of_zero_last (hv : p.valueSize = 0) (hi : i + 1 = m.mapImpl.numBuckets)
    : m.resumeSlot i = 0 := by
  have hindex : m.mapImpl.getIndexOfValue (BpftimeHashMap.valuePtr p i) = none := by
    rw [h.valuePtr_of_zero hv (by omega), hi]
    unfold BpftimeHashMap.getIndexOfValue
    rw [p.bufferSize_eq, ← h.mapImpl.numBuckets_eq, if_pos (Nat.le_refl _)]
  unfold resumeSlot
  rw [hindex]

end Resume

section Complete

variable {m : FixSizeHashMapImpl p} (hok : m.mapImpl.Ok) (hsized : m.Sized) (hreach : m.Reaches)

include hok hsized hreach

theorem firstKeyFrom_behind {i : Nat} (hi : i < m.numBuckets) (hocc : m.mapImpl.keyAt i ≠ none)
    : m.mapGetNextKey (some (m.mapImpl.getKey i)) true = m.firstKeyFrom (i + 1) := by
  have hlt := Nat.lt_of_lt_of_le hi hsized.numBuckets_le
  have hlookup : m.mapImpl.elemLookup (m.mapImpl.getKey i) = some i := by
    rw [hok.elemLookup_eq_some_iff]
    exact ⟨hlt, (m.getKey_eq_iff hocc).mp rfl⟩
  rw [m.mapGetNextKey_of_found hlookup]
  rcases Nat.eq_zero_or_pos p.valueSize with hv | hv
  . -- the pointer is the next slot's, but that slot is empty
    rcases (hreach i hlt hocc).2 hv with ⟨hnext, hempty⟩
    rw [hsized.resumeSlot_of_zero hv hnext]
    rw [firstKeyFrom_eq, firstKeyFrom_eq, m.slotsFrom_of_empty hempty]
  . rw [hsized.resumeSlot_of_pos hv hlt]

theorem visits_slotsFrom (slots : List Nat) : ∀ start key, m.slotsFrom start = slots →
        m.mapGetNextKey key true = m.firstKeyFrom start →
        m.Visits key (slots.map m.mapImpl.getKey) := by
  induction slots with
  | nil =>
    intro start key hslots hnext
    simp only [List.map_nil, Visits]
    rw [hnext, firstKeyFrom_eq, hslots]
  | cons i rest ih =>
    intro start key hslots hnext
    have hi := m.slotsFrom_head hslots
    constructor
    . rw [hnext, firstKeyFrom_eq, hslots]
    . apply ih (i + 1)
      . exact (m.slotsFrom_eq_cons hslots).1
      . exact firstKeyFrom_behind hok hsized hreach hi.2.1 hi.2.2

theorem visitsStored_of_reaches : m.VisitsStored := by
  refine ⟨(m.slotsFrom 0).map m.mapImpl.getKey, ?_, ?_, ?_⟩
  . exact visits_slotsFrom hok hsized hreach (m.slotsFrom 0) 0 none rfl rfl
  . apply List.Nodup.map_on
    . intro i hi j hj heq
      rw [mem_slotsFrom] at hi hj
      have hle := hsized.numBuckets_le
      apply hok.table.atMostOnce i (by omega) j (by omega) (m.mapImpl.getKey j)
      . exact (m.getKey_eq_iff hi.2.2).mp heq
      . exact (m.getKey_eq_iff hj.2.2).mp rfl
    . apply List.Nodup.filter
      exact List.nodup_range'
  . intro key
    rw [List.mem_map]
    constructor
    . rintro ⟨i, hi, hkey⟩
      rw [mem_slotsFrom] at hi
      have hle := hsized.numBuckets_le
      exact ⟨i, by omega, (m.getKey_eq_iff hi.2.2).mp hkey⟩
    . rintro ⟨i, hi, hocc⟩
      have hne : m.mapImpl.keyAt i ≠ none := by
        rw [hocc]
        exact Option.some_ne_none key
      refine ⟨i, ?_, (m.getKey_eq_iff hne).mpr hocc⟩
      rw [mem_slotsFrom]
      exact ⟨Nat.zero_le i, (hreach i hi hne).1, hne⟩

end Complete

section Sound

variable {m : FixSizeHashMapImpl p}

theorem Visits.split {keys : List (Key p)} {key : Key p} (hmem : key ∈ keys)
    : ∀ {start}, m.Visits start keys →
        ∃ before after, keys = before ++ key :: after ∧ m.Visits (some key) after := by
  induction keys with
  | nil => simp at hmem
  | cons k keys ih =>
    intro start h
    rcases List.mem_cons.mp hmem with heq | hmem
    . subst heq
      exact ⟨[], keys, rfl, h.2⟩
    . rcases ih hmem h.2 with ⟨before, after, heq, hafter⟩
      exact ⟨k :: before, after, by rw [heq, List.cons_append], hafter⟩

theorem VisitsStored.not_restart (h : m.VisitsStored) {key : Key p} (hkey : m.Stored key)
    : m.mapGetNextKey (some key) true ≠ m.firstKeyFrom 0 := by
  intro hrestart
  rcases h with ⟨keys, hvisits, hnodup, hmem⟩
  rcases hvisits.split ((hmem key).mpr hkey) with ⟨before, after, heq, hafter⟩
  cases keys with
  | nil => simp at heq
  | cons first keys =>
    have hfirst : m.firstKeyFrom 0 = .ok first := hvisits.1
    cases after with
    | nil =>
      unfold Visits at hafter
      rw [hrestart, hfirst] at hafter
      contradiction
    | cons second after =>
      have hsecond := hafter.1
      rw [hrestart, hfirst] at hsecond
      cases hsecond
      rw [heq] at hnodup
      cases before with
      | nil | cons k before =>
        cases heq
        simp at hnodup

def Starts (m : FixSizeHashMapImpl p) (start : Nat) : Prop :=
  start = 0 ∨ ∃ i < m.mapImpl.numBuckets, m.mapImpl.keyAt i ≠ none ∧ start = m.resumeSlot i

theorem Sized.exists_starts (hsized : m.Sized) (key : Option (Key p))
    : ∃ start, m.Starts start ∧ m.mapGetNextKey key true = m.firstKeyFrom start := by
  cases key with
  | none => exact ⟨0, Or.inl rfl, rfl⟩
  | some key =>
    cases hlookup : m.mapImpl.elemLookup key with
    | none => exact ⟨0, Or.inl rfl, m.mapGetNextKey_of_absent hlookup⟩
    | some i =>
      have hfound := BpftimeHashMap.elemLookup_eq_some_iff_probe.mp hlookup
      rw [BpftimeHashMap.probe_eq] at hfound
      rcases probe_found (hsized.mapImpl.startIndex_lt key) hfound with ⟨hi, hocc⟩
      refine ⟨m.resumeSlot i, Or.inr ⟨i, hi, ?_, rfl⟩, m.mapGetNextKey_of_found hlookup⟩
      rw [hocc]
      exact Option.some_ne_none key

theorem Visits.exists_starts (hsized : m.Sized) {keys : List (Key p)} {key : Key p}
    (hmem : key ∈ keys)
    : ∀ {previous}, m.Visits previous keys →
        ∃ start, m.Starts start ∧ m.firstKeyFrom start = .ok key := by
  induction keys with
  | nil => simp at hmem
  | cons k keys ih =>
    intro previous h
    rcases List.mem_cons.mp hmem with heq | hmem
    . subst heq
      rcases hsized.exists_starts previous with ⟨start, hstart, hnext⟩
      exact ⟨start, hstart, by rw [← hnext, h.1]⟩
    . exact ih hmem h.2

theorem VisitsStored.exists_loop (h : m.VisitsStored) (hok : m.mapImpl.Ok) (hsized : m.Sized)
    {i : Nat} (hi : i < m.mapImpl.numBuckets) (hocc : m.mapImpl.keyAt i ≠ none)
    : ∃ start rest, m.Starts start ∧ m.slotsFrom start = i :: rest := by
  rcases Option.ne_none_iff_exists'.mp hocc with ⟨key, hkey⟩
  rcases h with ⟨keys, hvisits, -, hmem⟩
  have hstored : key ∈ keys := (hmem key).mpr ⟨i, hi, hkey⟩
  rcases hvisits.exists_starts hsized hstored with ⟨start, hstart, hfirst⟩
  cases hslots : m.slotsFrom start with
  | nil =>
    rw [firstKeyFrom_eq, hslots] at hfirst
    contradiction
  | cons j rest =>
    rw [firstKeyFrom_eq, hslots] at hfirst
    have hj := m.slotsFrom_head hslots
    have hle := hsized.numBuckets_le
    have hji : j = i := by
      apply hok.table.atMostOnce j (by omega) i hi key
      . exact (m.getKey_eq_iff hj.2.2).mp (Except.ok.inj hfirst)
      . exact hkey
    rw [hji] at hslots
    exact ⟨start, rest, hstart, hslots⟩

theorem VisitsStored.before_filled (h : m.VisitsStored) (hok : m.mapImpl.Ok) (hsized : m.Sized)
    (hv : p.valueSize = 0) {i : Nat} (hi : i + 1 < m.mapImpl.numBuckets)
    (hocc : m.mapImpl.keyAt i ≠ none) (hnext : m.mapImpl.keyAt (i + 1) ≠ none)
    : ∃ j, j + 1 = i ∧ m.mapImpl.keyAt j ≠ none := by
  rcases h.exists_loop hok hsized hi hnext with ⟨start, rest, hstart, hslots⟩
  have hhead := m.slotsFrom_head hslots
  have hstart_eq : start = i + 1 := by
    by_contra hne
    apply hocc
    apply (m.slotsFrom_eq_cons hslots).2 i
    . omega
    . omega
  rcases hstart with hzero | ⟨j, hj, hjocc, hresume⟩
  . omega
  . rcases Nat.lt_or_ge (j + 1) m.mapImpl.numBuckets with hlt | hge
    . rw [hsized.resumeSlot_of_zero hv hlt] at hresume
      exact ⟨j, by omega, hjocc⟩
    . rw [hsized.resumeSlot_of_zero_last hv (by omega)] at hresume
      omega

theorem VisitsStored.next_empty (h : m.VisitsStored) (hok : m.mapImpl.Ok) (hsized : m.Sized)
    (hv : p.valueSize = 0) (i : Nat)
    : i + 1 < m.mapImpl.numBuckets → m.mapImpl.keyAt i ≠ none →
        m.mapImpl.keyAt (i + 1) = none := by
  induction i with
  | zero =>
    intro hi hocc
    by_contra hnext
    rcases h.before_filled hok hsized hv hi hocc hnext with ⟨j, hj, -⟩
    omega
  | succ i ih =>
    intro hi hocc
    by_contra hnext
    rcases h.before_filled hok hsized hv hi hocc hnext with ⟨j, hj, hjocc⟩
    have hji : j = i := by omega
    rw [hji] at hjocc
    exact hocc (ih (by omega) hjocc)

theorem VisitsStored.reaches (h : m.VisitsStored) (hok : m.mapImpl.Ok) (hsized : m.Sized)
    : m.Reaches := by
  intro i hi hocc
  constructor
  . rcases h.exists_loop hok hsized hi hocc with ⟨start, rest, -, hslots⟩
    exact (m.slotsFrom_head hslots).2.1
  . intro hv
    have hlt : i + 1 < m.mapImpl.numBuckets := by
      by_contra hge
      rcases Option.ne_none_iff_exists'.mp hocc with ⟨key, hkey⟩
      apply h.not_restart ⟨i, hi, hkey⟩
      rw [m.mapGetNextKey_of_found (hok.elemLookup_eq_some_iff.mpr ⟨hi, hkey⟩)]
      rw [hsized.resumeSlot_of_zero_last hv (by omega)]
    exact ⟨hlt, h.next_empty hok hsized hv i hlt hocc⟩

theorem visitsStored_iff_reaches (hok : m.mapImpl.Ok) (hsized : m.Sized)
    : m.VisitsStored ↔ m.Reaches := by
  constructor
  . intro h
    exact h.reaches hok hsized
  . intro h
    exact visitsStored_of_reaches hok hsized h

end Sound

def FirstFree (m : FixSizeHashMapImpl p) (key : Key p) (i : Nat) : Prop :=
  i < m.mapImpl.numBuckets ∧ m.mapImpl.keyAt i = none
    ∧ ∀ j, OnPath m.mapImpl.numBuckets m.mapImpl.startIndex key i j → m.mapImpl.keyAt j ≠ none

def Placed (m : FixSizeHashMapImpl p) (i : Nat) : Prop :=
  i < m.numBuckets
    ∧ (p.valueSize = 0 → i + 1 < m.mapImpl.numBuckets ∧ m.mapImpl.keyAt (i + 1) = none
        ∧ ∀ j, j + 1 = i → m.mapImpl.keyAt j = none)

/-- A new key is put where the iteration finds it, and a delete parts no probe sequence. -/
def StaysReachable (m : FixSizeHashMapImpl p) : Op p → Prop
  | .update key _ _ =>
    ¬ m.Stored key → m.mapImpl.count < m.mapImpl.maxElementCount →
      ∀ i, m.FirstFree key i → m.Placed i
  | .delete key => m.mapImpl.Unshared (.delete key)

def StepVisits (m : FixSizeHashMapImpl p) (op : Op p) : Prop := (m.step op).VisitsStored

structure Iterable (m : FixSizeHashMapImpl p) : Prop where
  ok : m.mapImpl.Ok
  sized : m.Sized
  reaches : m.Reaches

theorem iterable_construct : (construct p).Iterable := by
  constructor
  . exact BpftimeHashMap.ok_construct
  . exact sized_construct
  . intro i _ hocc
    exact absurd rfl hocc

section Step

variable {m : FixSizeHashMapImpl p}

theorem stored_iff_elemLookup (hok : m.mapImpl.Ok) {key : Key p}
    : m.Stored key ↔ m.mapImpl.elemLookup key ≠ none := by
  unfold Stored
  rw [Option.ne_none_iff_exists']
  apply exists_congr
  intro i
  rw [hok.elemLookup_eq_some_iff]

theorem firstFree_iff_probe (hok : m.mapImpl.Ok) {key : Key p} (habsent : ¬ m.Stored key) {i : Nat}
    : m.FirstFree key i ↔ m.mapImpl.probe key = some (.empty i) := by
  have hhome := BpftimeHashMap.startIndex_lt hok key
  rw [BpftimeHashMap.probe_eq]
  constructor
  . rintro ⟨hi, hnone, hpath⟩
    apply probe_of_path hhome hi
    . intro j hj
      refine ⟨hpath j hj, ?_⟩
      intro hkey
      exact habsent ⟨j, hj.lt hhome, hkey⟩
    . rw [visit_eq_empty_iff]
      exact ⟨rfl, hnone⟩
  . intro h
    rcases probe_empty hhome h with ⟨hi, hnone, hpath⟩
    exact ⟨hi, hnone, fun j hj => (hpath j hj).1⟩

theorem reaches_fill_iff (hreach : m.Reaches) {i : Nat} (hi : i < m.mapImpl.numBuckets)
    (key : Key p) (value : Value p)
    : Reaches { m with mapImpl := m.mapImpl.fill i key value } ↔ m.Placed i := by
  have hn : (m.mapImpl.fill i key value).numBuckets = m.mapImpl.numBuckets := rfl
  unfold Reaches
  dsimp only
  rw [hn, BpftimeHashMap.keyAt_fill_count]
  constructor
  . intro h
    have hself := h i hi (by simp)
    refine ⟨hself.1, ?_⟩
    intro hv
    rcases hself.2 hv with ⟨hlt, hempty⟩
    rw [Function.update_of_ne (by omega)] at hempty
    refine ⟨hlt, hempty, ?_⟩
    intro j hj
    by_contra hocc
    have hbefore := h j (by omega) (by rw [Function.update_of_ne (by omega)]; exact hocc)
    rw [hj, Function.update_self] at hbefore
    exact absurd (hbefore.2 hv).2 (Option.some_ne_none key)
  . intro h j hj hocc
    by_cases hji : j = i
    . rw [hji]
      refine ⟨h.1, ?_⟩
      intro hv
      rcases h.2 hv with ⟨hlt, hempty, -⟩
      rw [Function.update_of_ne (by omega)]
      exact ⟨hlt, hempty⟩
    . rw [Function.update_of_ne hji] at hocc
      refine ⟨(hreach j hj hocc).1, ?_⟩
      intro hv
      rcases (hreach j hj hocc).2 hv with ⟨hlt, hempty⟩
      have hne : j + 1 ≠ i := by
        intro heq
        exact hocc ((h.2 hv).2.2 j heq)
      rw [Function.update_of_ne hne]
      exact ⟨hlt, hempty⟩

theorem Iterable.stepVisits_update_iff (h : m.Iterable) (key : Key p) (value : Value p)
    (flags : UInt64)
    : m.StepVisits (.update key value flags) ↔ m.StaysReachable (.update key value flags) := by
  have hok : (m.step (.update key value flags)).mapImpl.Ok := h.ok.elemUpdate key value
  unfold StepVisits
  rw [visitsStored_iff_reaches hok (h.sized.step _)]
  unfold StaysReachable FixSizeHashMapImpl.step elemUpdate
  dsimp only
  cases hlookup : m.mapImpl.elemLookup key with
  | some i =>
    rw [BpftimeHashMap.elemUpdate_of_found hlookup]
    have hstored : m.Stored key := by
      rw [stored_iff_elemLookup h.ok, hlookup]
      exact Option.some_ne_none i
    constructor
    . intro _ habsent
      exact absurd hstored habsent
    . intro _
      unfold Reaches
      dsimp only
      rw [BpftimeHashMap.keyAt_copyValue]
      exact h.reaches
  | none =>
    have habsent : ¬ m.Stored key := by
      rw [stored_iff_elemLookup h.ok, hlookup]
      simp
    rcases Nat.lt_or_ge m.mapImpl.count m.mapImpl.maxElementCount with hroom | hfull
    . rcases h.sized.mapImpl.probe_of_room hlookup hroom with ⟨i, hprobe⟩
      have hfree := (firstFree_iff_probe h.ok habsent).mpr hprobe
      rw [BpftimeHashMap.elemUpdate_of_room hprobe hroom]
      rw [reaches_fill_iff h.reaches hfree.1]
      constructor
      . intro hplaced _ _ j hj
        rw [firstFree_iff_probe h.ok habsent, hprobe] at hj
        cases hj
        exact hplaced
      . intro hplaced
        exact hplaced habsent hroom i hfree
    . rw [BpftimeHashMap.elemUpdate_of_full hlookup hfull]
      constructor
      . intro _ _ hroom
        omega
      . intro _
        exact h.reaches

theorem Iterable.stepVisits_delete_iff (h : m.Iterable) (key : Key p)
    : m.StepVisits (.delete key) ↔ m.StaysReachable (.delete key) := by
  unfold StepVisits StaysReachable FixSizeHashMapImpl.step elemDelete
  dsimp only
  constructor
  . intro hvisits k hk i hi hocc j hj hji other hother hpath
    cases hk
    have hlookup := h.ok.elemLookup_eq_some_iff.mpr ⟨hi, hocc⟩
    have hlost := h.ok.lost_of_onPath hlookup (h.ok.elemLookup_eq_some_iff.mpr ⟨hj, hother⟩) hpath
    -- the other key is still in its slot, but the iteration starts again behind it
    have hkeyAt := BpftimeHashMap.keyAt_elemDelete hlookup
    have hstored : FixSizeHashMapImpl.Stored
        { m with mapImpl := (m.mapImpl.elemDelete key).2 } other := by
      refine ⟨j, ?_, ?_⟩
      . dsimp only
        rw [BpftimeHashMap.numBuckets_elemDelete hlookup]
        exact hj
      . dsimp only
        rw [hkeyAt, Function.update_of_ne hji]
        exact hother
    apply hvisits.not_restart hstored
    exact mapGetNextKey_of_absent _ hlost
  . intro hunshared
    apply visitsStored_of_reaches
    . exact h.ok.elemDelete hunshared
    . exact h.sized.step (.delete key)
    . cases hlookup : m.mapImpl.elemLookup key with
      | none =>
        rw [BpftimeHashMap.elemDelete_of_absent hlookup]
        exact h.reaches
      | some i =>
        intro j hj hocc
        dsimp only at hj hocc ⊢
        rw [BpftimeHashMap.numBuckets_elemDelete hlookup] at hj ⊢
        rw [BpftimeHashMap.keyAt_elemDelete hlookup] at hocc ⊢
        have hji : j ≠ i := by
          intro heq
          rw [heq, Function.update_self] at hocc
          contradiction
        rw [Function.update_of_ne hji] at hocc
        refine ⟨(h.reaches j hj hocc).1, ?_⟩
        intro hv
        rcases (h.reaches j hj hocc).2 hv with ⟨hlt, hempty⟩
        refine ⟨hlt, ?_⟩
        rw [Function.update_apply, hempty, ite_self]

theorem Iterable.stepVisits_iff (h : m.Iterable) (op : Op p)
    : m.StepVisits op ↔ m.StaysReachable op := by
  cases op with
  | update key value flags => exact h.stepVisits_update_iff key value flags
  | delete key => exact h.stepVisits_delete_iff key

theorem Iterable.step (h : m.Iterable) (op : Op p) (hstays : m.StaysReachable op)
    : (m.step op).Iterable := by
  have hsized := h.sized.step op
  have hok : (m.step op).mapImpl.Ok := by
    cases op with
    | update key value flags => exact h.ok.elemUpdate key value
    | delete key => exact h.ok.elemDelete hstays
  have hvisits := (h.stepVisits_iff op).mpr hstays
  exact ⟨hok, hsized, hvisits.reaches hok hsized⟩

end Step

theorem visitsStored_run_iff (a : Attr) (ops : List (Op a.params))
    : Run.Along step StepVisits (construct a.params) ops
        ↔
      Run.Along step StaysReachable (construct a.params) ops := by
  apply Run.along_iff_of_invariant Iterable
  . intro m op h hstays
    exact h.step op hstays
  . intro m op h
    exact h.stepVisits_iff op
  . exact iterable_construct

theorem not_visitsStored_lastSlot : let p := Attr.params ⟨4, 1, 1, by decide⟩
      let key : Key p := .replicate 1 4
      let m := (construct p).step (.update key (.replicate 1 7) BPF_ANY)
      m.Stored key
        ∧ m.mapGetNextKey none true = .error .ENOENT
        ∧ ¬ (construct p).StepVisits (.update key (.replicate 1 7) BPF_ANY) := by
  intro p key m
  have hstored : m.Stored key := ⟨4, by decide, by decide⟩
  have hnext : m.mapGetNextKey none true = .error .ENOENT := by decide
  refine ⟨hstored, hnext, ?_⟩
  rintro ⟨keys, hvisits, -, hmem⟩
  cases keys with
  | nil => simpa using (hmem key).mpr hstored
  | cons k keys =>
    have hfirst : m.mapGetNextKey none true = .ok k := hvisits.1
    rw [hnext] at hfirst
    contradiction

end FixSizeHashMapImpl

end Bpftime.HashMap
