import Mathlib.Data.List.Nodup

structure NamedHeap.Object (ν : Type _) (α : Type _) where
  id : Nat
  name : ν
  contents : α

structure NamedHeap (ν : Type _) (α : Type _) where
  objects : List (NamedHeap.Object ν α)
  nextId : Nat
  nodup_names : (objects.map NamedHeap.Object.name).Nodup
  nodup_ids : (objects.map NamedHeap.Object.id).Nodup
  id_lt : ∀ o ∈ objects, o.id < nextId

namespace NamedHeap

variable {ν : Type _} {α : Type _}

def empty : NamedHeap ν α := ⟨[], 0, by simp, by simp, by simp⟩

def names (h : NamedHeap ν α) : List ν := h.objects.map Object.name

instance [DecidableEq ν] (h : NamedHeap ν α) (name : ν) : Decidable (name ∈ h.names) :=
  inferInstanceAs (Decidable (name ∈ h.objects.map Object.name))

def get? (h : NamedHeap ν α) (id : Nat) : Option (Object ν α) :=
  h.objects.find? (fun o => o.id == id)

def construct (h : NamedHeap ν α) (name : ν) (contents : α) (hfree : name ∉ h.names)
    : NamedHeap ν α where
  objects := ⟨h.nextId, name, contents⟩ :: h.objects
  nextId := h.nextId + 1
  nodup_names := by
    rw [List.map_cons, List.nodup_cons]
    exact ⟨hfree, h.nodup_names⟩
  nodup_ids := by
    rw [List.map_cons, List.nodup_cons]
    refine ⟨?_, h.nodup_ids⟩
    intro hmem
    rcases List.mem_map.mp hmem with ⟨o, ho, heq⟩
    have := h.id_lt o ho
    dsimp only at heq
    omega
  id_lt := by
    intro o ho
    rcases List.mem_cons.mp ho with rfl | ho
    . exact Nat.lt_succ_self _
    . exact Nat.lt_succ_of_lt (h.id_lt o ho)

def destroy [DecidableEq ν] (h : NamedHeap ν α) (name : ν) : NamedHeap ν α where
  objects := h.objects.filter (fun o => o.name ≠ name)
  nextId := h.nextId
  nodup_names := h.nodup_names.sublist (List.filter_sublist.map _)
  nodup_ids := h.nodup_ids.sublist (List.filter_sublist.map _)
  id_lt := by
    intro o ho
    exact h.id_lt o (List.mem_of_mem_filter ho)

def Object.put (id : Nat) (contents : α) (o : Object ν α) : Object ν α :=
  if o.id = id then { o with contents } else o

theorem Object.id_put (id : Nat) (contents : α) (o : Object ν α) : (o.put id contents).id = o.id := by
  unfold put
  split <;> rfl

theorem Object.name_put (id : Nat) (contents : α) (o : Object ν α)
    : (o.put id contents).name = o.name := by
  unfold put
  split <;> rfl

def put (h : NamedHeap ν α) (id : Nat) (contents : α) : NamedHeap ν α where
  objects := h.objects.map (Object.put id contents)
  nextId := h.nextId
  nodup_names := by
    rw [List.map_map]
    convert h.nodup_names using 2
    funext o
    exact o.name_put id contents
  nodup_ids := by
    rw [List.map_map]
    convert h.nodup_ids using 2
    funext o
    exact o.id_put id contents
  id_lt := by
    intro o ho
    rcases List.mem_map.mp ho with ⟨o', ho', rfl⟩
    rw [Object.id_put]
    exact h.id_lt o' ho'

variable (h : NamedHeap ν α)

theorem mem_of_get? {id : Nat} {o : Object ν α} (hget : h.get? id = some o)
    : o ∈ h.objects ∧ o.id = id := by
  have hid := List.find?_some hget
  simp only [beq_iff_eq] at hid
  exact ⟨List.mem_of_find?_eq_some hget, hid⟩

theorem get?_construct {name : ν} {contents : α} (hfree : name ∉ h.names) (id : Nat)
    : (h.construct name contents hfree).get? id
        =
      if id = h.nextId then some ⟨h.nextId, name, contents⟩ else h.get? id := by
  unfold get? construct
  rw [List.find?_cons]
  by_cases hid : id = h.nextId
  . simp [hid]
  . have : (h.nextId == id) = false := by
      simp only [beq_eq_false_iff_ne]
      omega
    simp only [this, hid, ↓reduceIte]

theorem names_construct {name : ν} {contents : α} (hfree : name ∉ h.names)
    : (h.construct name contents hfree).names = name :: h.names := rfl

theorem find?_filter_of_nodup {objects : List (Object ν α)} (hnodup : (objects.map Object.id).Nodup)
    (p : Object ν α → Bool) (id : Nat)
    : (objects.filter p).find? (fun o => o.id == id)
        =
      (objects.find? (fun o => o.id == id)).filter p := by
  induction objects with
  | nil => rfl
  | cons o objects ih =>
    rw [List.map_cons, List.nodup_cons] at hnodup
    by_cases hid : o.id = id
    . by_cases hp : p o = true
      . simp [hp, hid, Option.filter_some]
      . -- no other object has the reference
        have hnone : objects.find? (fun o => o.id == id) = none := by
          rw [List.find?_eq_none]
          intro o' ho' heq
          apply hnodup.1
          rw [hid, ← beq_iff_eq.mp heq]
          exact List.mem_map_of_mem ho'
        rw [List.filter_cons_of_neg hp, ih hnodup.2, hnone]
        simp [hid, hp, Option.filter_some]
    . have hfalse : (o.id == id) = false := by simpa using hid
      rw [List.find?_cons, hfalse, ← ih hnodup.2]
      by_cases hp : p o = true
      . rw [List.filter_cons_of_pos hp, List.find?_cons, hfalse]
      . rw [List.filter_cons_of_neg hp]

theorem get?_destroy [DecidableEq ν] (name : ν) (id : Nat)
    : (h.destroy name).get? id = (h.get? id).filter (fun o => o.name ≠ name) :=
  find?_filter_of_nodup h.nodup_ids _ id

theorem names_destroy [DecidableEq ν] [BEq ν] [LawfulBEq ν] (name : ν)
    : (h.destroy name).names = h.names.erase name := by
  unfold names
  rw [h.nodup_names.erase_eq_filter, List.filter_map]
  unfold destroy
  dsimp only
  congr 2
  funext o
  rw [Function.comp_apply, Bool.eq_iff_iff]
  simp

theorem get?_put (id : Nat) (contents : α) (id' : Nat)
    : (h.put id contents).get? id' = (h.get? id').map (Object.put id contents) := by
  unfold get? put
  rw [List.find?_map]
  congr 2
  funext o
  simp [Object.id_put]

theorem names_put (id : Nat) (contents : α) : (h.put id contents).names = h.names := by
  unfold names put
  rw [List.map_map]
  congr 1
  funext o
  exact o.name_put id contents

end NamedHeap
