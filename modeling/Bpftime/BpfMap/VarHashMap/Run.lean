import Bpftime.BpfMap.VarHashMap.Impl
import Mathlib.Tactic.Linarith

namespace Bpftime.VarHashMap.VarSizeHashMapImpl

variable {p : Params} {m : VarSizeHashMapImpl p} {k : Key p}

inductive Visit (p : Params) where
  | keep
  | assign (r : Rehash (Key p)) (value : Value p)
  | delete

def Visit.apply (m : VarSizeHashMapImpl p) (key : Key p) : Visit p → VarSizeHashMapImpl p
  | .keep => m
  | .assign r value => m.step (.update r key value BPF_EXIST)
  | .delete => m.step (.delete key)

def Visit.leaves (old : Value p) : Visit p → Option (Value p)
  | .keep => some old
  | .assign _ value => some value
  | .delete => none

-- A user's loop over the map: each key is asked for after the one before has been visited.
def iterate (visit : Key p → Visit p)
    : Nat → Option (Key p) → VarSizeHashMapImpl p → Option (List (Key p) × VarSizeHashMapImpl p)
  | 0, _, _ => none
  | fuel + 1, key, m =>
    match m.mapGetNextKey key with
    | .error _ => some ([], m)
    | .ok next =>
      (iterate visit fuel (some next) ((visit next).apply m next)).map
        fun (keys, m') => (next :: keys, m')

theorem apply_eq {x : Value p} (v : Visit p) (hx : m.find k = some x)
    : v.apply m k
        =
      match v with
      | .keep => m
      | .assign r value => m.insertOrAssign r k value
      | .delete => m.erase k := by
  cases v with
  | keep => rfl
  | assign r value =>
    simp [Visit.apply, step, elemUpdate, hx, isGoodUpdateFlag, BPF_EXIST, BPF_NOEXIST,
      Except.toOption]
  | delete => simp [Visit.apply, step, elemDelete, hx, Except.toOption]

theorem find_apply (v : Visit p) (hk : k ∈ m.order)
    : (v.apply m k).find = Function.update m.find k ((m.find k).bind v.leaves) := by
  obtain ⟨x, hx⟩ := Option.isSome_iff_exists.mp ((m.mem_order k).mp hk)
  rw [apply_eq v hx, hx]
  cases v with
  | keep => exact (Function.update_eq_self_iff.mpr hx.symm).symm
  | assign r value => rfl
  | delete => rfl

structure At (m : VarSizeHashMapImpl p) (key : Option (Key p)) (before rest : List (Key p))
    : Prop where
  order : m.order = before ++ rest
  next : m.mapGetNextKey key = keyOrENOENT rest.head?

theorem at_start {key : Option (Key p)} (hread : p.flags &&& BPF_F_WRONLY = 0)
    (hkey : ∀ k ∈ key, k ∉ m.order) : At m key [] m.order := by
  refine ⟨rfl, ?_⟩
  cases key with
  | none => simp [mapGetNextKey, hread]
  | some k =>
    have hk := hkey k rfl
    rw [m.mem_order] at hk
    simp [mapGetNextKey, hread, hk]

theorem at_after {before rest : List (Key p)} (hread : p.flags &&& BPF_F_WRONLY = 0)
    (h : m.order = before ++ k :: rest) : At m (some k) (before ++ [k]) rest := by
  have hk : (m.find k).isSome := by
    rw [← m.mem_order, h]
    simp
  refine ⟨by rw [h, List.append_assoc]; rfl, ?_⟩
  simp [mapGetNextKey, hread, hk, UnorderedMap.after_eq h]

-- A visit that keeps its key moves on; one that deletes it sends the loop back to the first key.
theorem At.visit {key : Option (Key p)} {before rest : List (Key p)}
    (hread : p.flags &&& BPF_F_WRONLY = 0) (h : At m key before (k :: rest)) (v : Visit p)
    : ∃ before' rest', At (v.apply m k) (some k) before' rest'
        ∧ (v ≠ .delete ∧ before' = before ++ [k] ∧ rest' = rest
          ∨ v = .delete ∧ before' = [] ∧ rest' = before ++ rest) := by
  have hk : k ∈ m.order := by simp [h.order]
  obtain ⟨x, hx⟩ := Option.isSome_iff_exists.mp ((m.mem_order k).mp hk)
  rw [apply_eq v hx]
  cases v with
  | keep => exact ⟨_, _, at_after hread h.order, .inl ⟨nofun, rfl, rfl⟩⟩
  | assign r value =>
    have horder := UnorderedMap.order_insertOrAssign_of_mem r value hk
    exact ⟨_, _, at_after hread (horder.trans h.order), .inl ⟨nofun, rfl, rfl⟩⟩
  | delete =>
    have hgone : ∀ j ∈ some k, j ∉ (m.erase k).order := by
      rintro _ ⟨⟩
      rw [UnorderedMap.mem_order]
      simp [UnorderedMap.erase]
    exact ⟨_, _, at_start hread hgone, .inr ⟨rfl, rfl, UnorderedMap.order_erase h.order⟩⟩

theorem bind_leaves_leaves (v : Visit p) (x : Option (Value p))
    : (x.bind v.leaves).bind v.leaves = x.bind v.leaves := by
  cases x <;> cases v <;> rfl

-- The keys before the cursor have been visited, so a second visit would leave them as they are.
theorem iterate_at (visit : Key p → Visit p) (hread : p.flags &&& BPF_F_WRONLY = 0) (fuel : Nat)
    {key : Option (Key p)} {before rest : List (Key p)} (h : At m key before rest)
    (hbefore : ∀ k ∈ before, (m.find k).bind (visit k).leaves = m.find k)
    (hfuel : rest.length + (before.length + rest.length) * (before.length + rest.length) < fuel)
    : ∃ keys m', iterate visit fuel key m = some (keys, m')
        ∧ (∀ k ∈ rest, k ∈ keys)
        ∧ (∀ k ∈ keys, k ∈ before ++ rest)
        ∧ (∀ k, m'.find k = (m.find k).bind (visit k).leaves)
        ∧ ((∀ k, visit k ≠ .delete) ∨ before = [] ∧ (∀ k, visit k = .delete) → keys = rest) := by
  induction fuel generalizing m key before rest with
  | zero => omega
  | succ fuel ih =>
    unfold iterate
    rw [h.next]
    cases rest with
    | nil =>
      refine ⟨[], m, rfl, by simp, by simp, ?_, by simp⟩
      intro k
      by_cases hk : k ∈ before
      . exact (hbefore k hk).symm
      . have hnone := m.mem_order k
        rw [h.order, List.append_nil] at hnone
        simp_all
    | cons k rest =>
      have hk : k ∈ m.order := by simp [h.order]
      have hfind := find_apply (visit k) hk
      have hleft (j : Key p) : (((visit k).apply m k).find j).bind (visit j).leaves
          = (m.find j).bind (visit j).leaves := by
        rw [hfind]
        by_cases hj : j = k
        . subst hj
          rw [Function.update_self, bind_leaves_leaves]
        . rw [Function.update_of_ne hj]
      obtain ⟨before', rest', hnext, hvisit⟩ := h.visit hread (visit k)
      have hbefore' : ∀ j ∈ before', (((visit k).apply m k).find j).bind (visit j).leaves
          = ((visit k).apply m k).find j := by
        intro j hj
        rw [hleft, hfind]
        by_cases hjk : j = k
        . rw [hjk, Function.update_self]
        . rw [Function.update_of_ne hjk]
          grind
      have hfuel' : rest'.length
          + (before'.length + rest'.length) * (before'.length + rest'.length) < fuel := by
        rcases hvisit with ⟨-, rfl, rfl⟩ | ⟨-, rfl, rfl⟩ <;> simp at hfuel ⊢ <;> nlinarith
      obtain ⟨keys, m', hrun, hall, honly, hend, honce⟩ := ih hnext hbefore' hfuel'
      refine ⟨k :: keys, m', ?_, ?_, ?_, fun j => (hend j).trans (hleft j), ?_⟩
      . simp [keyOrENOENT, hrun]
      . grind
      . grind
      . grind

theorem iterate_visits (hread : p.flags &&& BPF_F_WRONLY = 0) (m : VarSizeHashMapImpl p)
    (visit : Key p → Visit p)
    : ∃ keys m', iterate visit (m.size + m.size * m.size + 1) none m = some (keys, m')
        ∧ (∀ k, k ∈ keys ↔ (m.find k).isSome)
        ∧ (∀ k, m'.find k = (m.find k).bind (visit k).leaves)
        ∧ ((∀ k, visit k ≠ .delete) ∨ (∀ k, visit k = .delete) → keys.Nodup) := by
  have hstart : At m none [] m.order := at_start hread nofun
  obtain ⟨keys, m', hrun, hall, honly, hend, honce⟩ :=
    iterate_at visit hread (m.size + m.size * m.size + 1) hstart nofun (by
      simp [UnorderedMap.size])
  refine ⟨keys, m', hrun, ?_, hend, ?_⟩
  . intro k
    rw [← m.mem_order]
    exact ⟨honly k, hall k⟩
  . intro hvisit
    rw [honce (hvisit.imp_right fun hdelete => ⟨rfl, hdelete⟩)]
    exact m.nodup

def byteParams : Params := ⟨1, 1, 4, 0⟩

def threeKeys : VarSizeHashMapImpl byteParams :=
  run <| [1, 2, 3].map fun k => .update ⟨id, .refl⟩ (.replicate 1 k) (.replicate 1 (10 * k)) BPF_ANY

def mixedVisit (k : Key byteParams) : Visit byteParams :=
  if k.toList = [1] then .delete else
  if k.toList = [2] then .assign ⟨id, .refl⟩ #v[21] else .keep

theorem iterate_visits_threeKeys
    : ∃ keys m', iterate mixedVisit 13 none threeKeys = some (keys, m')
        ∧ (#v[1] ∈ keys ∧ #v[2] ∈ keys ∧ #v[3] ∈ keys)
        ∧ m'.find #v[1] = none ∧ m'.find #v[2] = some #v[21] ∧ m'.find #v[3] = some #v[30] := by
  obtain ⟨keys, m', hrun, hkeys, hend, -⟩ := iterate_visits (p := byteParams) rfl threeKeys mixedVisit
  refine ⟨keys, m', hrun, ⟨?_, ?_, ?_⟩, hend _, hend _, hend _⟩ <;> exact (hkeys _).mpr rfl

def Bounded (m : VarSizeHashMapImpl p) : Prop :=
  m.size ≤ p.maxEntries ∧ (p.flags &&& BPF_F_RDONLY ≠ 0 → m.size = 0)

theorem Bounded.erase (h : m.Bounded) (k : Key p) : Bounded (m.erase k) := by
  have hle := m.size_erase_le k
  exact ⟨hle.trans h.1, fun hflag => by have := h.2 hflag; omega⟩

theorem Bounded.elemUpdate {m' : VarSizeHashMapImpl p} {r : Rehash (Key p)} {value : Value p}
    {flags : UInt64} (h : m.Bounded) (hok : m.elemUpdate r k value flags = .ok m')
    : m'.Bounded := by
  have hmem := m.mem_order k
  simp only [VarSizeHashMapImpl.elemUpdate] at hok
  repeat (split at hok; contradiction)
  next hfull hrdonly =>
    injection hok with hok
    subst hok
    by_cases hk : k ∈ m.order
    . have hsize : (m.insertOrAssign r k value).size = m.size :=
        congrArg List.length (UnorderedMap.order_insertOrAssign_of_mem r value hk)
      unfold Bounded
      rw [hsize]
      exact h
    . have hsize := UnorderedMap.size_insertOrAssign_of_notMem r value hk
      have := h.1
      simp_all [Bounded]
      omega

theorem Bounded.step (h : m.Bounded) (op : Op p) : (m.step op).Bounded := by
  cases op with
  | update r k value flags =>
    simp only [VarSizeHashMapImpl.step]
    cases hok : m.elemUpdate r k value flags with
    | ok m' => exact h.elemUpdate hok
    | error e => exact h
  | delete k =>
    simp only [VarSizeHashMapImpl.step, elemDelete]
    cases m.find k with
    | some x => exact h.erase k
    | none => exact h
  | lookupAndDelete k =>
    simp only [VarSizeHashMapImpl.step, VarSizeHashMapImpl.lookupAndDelete]
    cases m.find k with
    | some x => exact h.erase k
    | none => exact h

theorem bounded_run (ops : List (Op p))
    : (run ops).size ≤ p.maxEntries
        ∧ (p.flags &&& BPF_F_RDONLY ≠ 0 → (run ops).size = 0) := by
  have hempty : Bounded (.empty : VarSizeHashMapImpl p) := ⟨Nat.zero_le _, fun _ => rfl⟩
  unfold run
  generalize (.empty : VarSizeHashMapImpl p) = m at hempty
  induction ops generalizing m with
  | nil => exact hempty
  | cons op ops ih => exact ih _ (hempty.step op)

end Bpftime.VarHashMap.VarSizeHashMapImpl
