import Mathlib.Data.Finmap

/-!
This module contains finite maps that hold at most a given number of keys: a stored key can always
be given another value, a new key is refused once the map is full.
-/

structure BoundedMap (κ : Type _) (β : Type _) (capacity : Nat) where
  map : Finmap fun _ : κ => β
  bounded : map.keys.card ≤ capacity

namespace BoundedMap

variable {κ : Type _} {β : Type _} {capacity : Nat} [DecidableEq κ]

theorem keys_insert (map : Finmap fun _ : κ => β) (key : κ) (value : β)
    : (map.insert key value).keys = Insert.insert key map.keys := by
  ext k
  rw [Finmap.mem_keys, Finmap.mem_insert, Finset.mem_insert, Finmap.mem_keys]

variable {key : κ} {s : BoundedMap κ β capacity}

theorem card_keys_insert_of_mem {map : Finmap fun _ : κ => β} (value : β) (h : key ∈ map)
    : (map.insert key value).keys.card = map.keys.card := by
  rw [keys_insert, Finset.insert_eq_of_mem]
  rw [Finmap.mem_keys]
  exact h

theorem card_keys_insert_of_notMem {map : Finmap fun _ : κ => β} (value : β) (h : key ∉ map)
    : (map.insert key value).keys.card = map.keys.card + 1 := by
  rw [keys_insert, Finset.card_insert_of_notMem]
  rw [Finmap.mem_keys]
  exact h

theorem lookup_insert (map : Finmap fun _ : κ => β) (key : κ) (value : β)
    : (fun k => (map.insert key value).lookup k)
        =
      Function.update (fun k => map.lookup k) key (some value) := by
  funext k
  by_cases hk : k = key
  . subst hk
    rw [Finmap.lookup_insert, Function.update_self]
  . rw [Finmap.lookup_insert_of_ne _ hk, Function.update_of_ne hk]

def empty : BoundedMap κ β capacity where
  map := ∅
  bounded := by
    rw [Finmap.keys_empty, Finset.card_empty]
    exact Nat.zero_le capacity

def size (s : BoundedMap κ β capacity) : Nat := s.map.keys.card

def lookup (s : BoundedMap κ β capacity) (key : κ) : Option β := s.map.lookup key

def update (s : BoundedMap κ β capacity) (key : κ) (value : β) : Bool × BoundedMap κ β capacity :=
  if hmem : key ∈ s.map then
    (true, ⟨s.map.insert key value, by
      rw [card_keys_insert_of_mem value hmem]
      exact s.bounded⟩)
  else if hroom : s.map.keys.card < capacity then
    (true, ⟨s.map.insert key value, by
      rw [card_keys_insert_of_notMem value hmem]
      exact hroom⟩)
  else
    (false, s)

theorem lookup_empty (key : κ) : (empty : BoundedMap κ β capacity).lookup key = none := by
  unfold lookup empty
  rw [Finmap.lookup_empty]

omit [DecidableEq κ] in
theorem size_empty : (empty : BoundedMap κ β capacity).size = 0 := by
  unfold size empty
  rw [Finmap.keys_empty, Finset.card_empty]

theorem lookup_eq_none_iff : s.lookup key = none ↔ key ∉ s.map := by
  unfold lookup
  rw [Finmap.lookup_eq_none]

theorem update_of_present (value : β) (h : s.lookup key ≠ none) : (s.update key value).1 = true
        ∧ (s.update key value).2.lookup = Function.update s.lookup key (some value)
        ∧ (s.update key value).2.size = s.size := by
  have hmem : key ∈ s.map := by
    rw [ne_eq, lookup_eq_none_iff, not_not] at h
    exact h
  unfold update
  rw [dif_pos hmem]
  refine ⟨rfl, ?_, ?_⟩
  . exact lookup_insert s.map key value
  . exact card_keys_insert_of_mem value hmem

theorem update_of_new (value : β) (h : s.lookup key = none) (hroom : s.size < capacity)
    : (s.update key value).1 = true
        ∧ (s.update key value).2.lookup = Function.update s.lookup key (some value)
        ∧ (s.update key value).2.size = s.size + 1 := by
  rw [lookup_eq_none_iff] at h
  unfold size at hroom
  unfold update
  rw [dif_neg h, dif_pos hroom]
  refine ⟨rfl, ?_, ?_⟩
  . exact lookup_insert s.map key value
  . exact card_keys_insert_of_notMem value h

theorem update_of_full (value : β) (h : s.lookup key = none) (hfull : capacity ≤ s.size)
    : s.update key value = (false, s) := by
  rw [lookup_eq_none_iff] at h
  unfold size at hfull
  unfold update
  rw [dif_neg h, dif_neg (by omega)]

end BoundedMap
