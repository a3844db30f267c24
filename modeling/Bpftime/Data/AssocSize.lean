import Mathlib.Data.List.AList

namespace AssocSize

variable {κ : Type _} {β : Type _} [DecidableEq κ] {s : AList fun _ : κ => β} {key : κ}

theorem length_keys_insert_of_some {value : β} (h : s.lookup key = some value) (value' : β)
    : (s.insert key value').keys.length = s.keys.length := by
  have hmem : key ∈ s.keys := by
    rw [← AList.mem_keys, ← AList.lookup_isSome, h]
    rfl
  have hpos := List.length_pos_of_mem hmem
  rw [AList.keys_insert, List.length_cons, List.length_erase_of_mem hmem]
  omega

theorem length_keys_insert_of_none (h : s.lookup key = none) (value : β)
    : (s.insert key value).keys.length = s.keys.length + 1 := by
  have hmem : key ∉ s.keys := by
    rw [← AList.mem_keys, ← AList.lookup_eq_none]
    exact h
  rw [AList.keys_insert, List.length_cons, List.erase_of_not_mem hmem]

theorem length_keys_erase_le (s : AList fun _ : κ => β) (key : κ)
    : (s.erase key).keys.length ≤ s.keys.length := by
  rw [AList.keys_erase]
  exact List.length_erase_le

end AssocSize
