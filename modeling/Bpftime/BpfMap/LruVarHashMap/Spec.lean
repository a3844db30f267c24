import Bpftime.BpfMap.LruVarHashMap.Impl

namespace Bpftime.LruVarHashMap

variable {p : Params}

inductive Op (p : Params) where
  | lookup (key : Key p)
  | update (key : Key p) (value : Value p) (flags : UInt64)
  | delete (key : Key p)

inductive Output (p : Params) where
  | value (v : Value p)
  | success
  | failure (e : Errno)

abbrev Cache (p : Params) := List (Key p × Value p)

namespace Cache

def find (c : Cache p) (key : Key p) : Option (Value p) := (c.find? (·.1 = key)).map Prod.snd

def remove (c : Cache p) (key : Key p) : Cache p := c.filter (·.1 ≠ key)

def lookup (c : Cache p) (key : Key p) : Output p × Cache p :=
  match c.find key with
  | some v => (.value v, (key, v) :: c.remove key)
  | none => (.failure .ENOENT, c)

def update (c : Cache p) (key : Key p) (value : Value p) (flags : UInt64) : Output p × Cache p :=
  if flags ≠ BPF_ANY ∧ flags ≠ BPF_EXIST ∧ flags ≠ BPF_NOEXIST then
    (.failure .EINVAL, c)
  else
    match c.find key with
    | some _ =>
      if flags = BPF_NOEXIST then
        (.failure .EEXIST, c)
      else
        (.success, (key, value) :: c.remove key)
    | none =>
      if flags = BPF_EXIST then
        (.failure .ENOENT, c)
      else if c.length = p.maxEntries then
        (.success, (key, value) :: c.dropLast)
      else
        (.success, (key, value) :: c)

def delete (c : Cache p) (key : Key p) : Output p × Cache p :=
  match c.find key with
  | some _ => (.success, c.remove key)
  | none => (.failure .ENOENT, c)

def step (c : Cache p) : Op p → Output p × Cache p
  | .lookup key => c.lookup key
  | .update key value flags => c.update key value flags
  | .delete key => c.delete key

theorem find_eq_none {c : Cache p} {key : Key p} (h : key ∉ c.map Prod.fst) : c.find key = none := by
  unfold find
  rw [Option.map_eq_none_iff, List.find?_eq_none]
  intro e he
  simp only [decide_eq_true_eq]
  rintro rfl
  exact h (List.mem_map_of_mem he)

theorem find_middle {l r : Cache p} {key : Key p} {v : Value p} (h : key ∉ l.map Prod.fst)
    : Cache.find (l ++ (key, v) :: r) key = some v := by
  have hl := find_eq_none h
  unfold find at *
  rw [Option.map_eq_none_iff] at hl
  rw [List.find?_append, hl]
  simp

theorem remove_eq_self {c : Cache p} {key : Key p} (h : key ∉ c.map Prod.fst) : c.remove key = c := by
  unfold remove
  rw [List.filter_eq_self]
  intro e he
  simp only [ne_eq, decide_not, Bool.not_eq_eq_eq_not, Bool.not_true, decide_eq_false_iff_not]
  rintro rfl
  exact h (List.mem_map_of_mem he)

theorem remove_middle {l r : Cache p} {key : Key p} {v : Value p} (hl : key ∉ l.map Prod.fst)
    (hr : key ∉ r.map Prod.fst)
    : Cache.remove (l ++ (key, v) :: r) key = l ++ r := by
  have hl' := remove_eq_self hl
  have hr' := remove_eq_self hr
  unfold remove at *
  rw [List.filter_append, hl', List.filter_cons_of_neg (by simp), hr']

end Cache

end Bpftime.LruVarHashMap
