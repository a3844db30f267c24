import Mathlib.Data.List.Perm.Basic
import Mathlib.Data.List.Nodup

/-!
This module contains unordered maps as their users see them: what each key holds, and the order in
which iterators pass the keys. Only a new key rearranges that order, in a way nobody may rely on.
-/

structure UnorderedMap (κ : Type _) (β : Type _) where
  order : List κ
  find : κ → Option β
  nodup : order.Nodup
  mem_order : ∀ key, key ∈ order ↔ (find key).isSome

structure Rehash (κ : Type _) where
  place : List κ → List κ
  perm : ∀ keys, (place keys).Perm keys

namespace UnorderedMap

variable {κ : Type _} {β : Type _} [DecidableEq κ] {s : UnorderedMap κ β} {key : κ}

def empty : UnorderedMap κ β := ⟨[], fun _ => none, .nil, by simp⟩

def size (s : UnorderedMap κ β) : Nat := s.order.length

def insertOrAssign (s : UnorderedMap κ β) (r : Rehash κ) (key : κ) (value : β)
    : UnorderedMap κ β where
  order := if key ∈ s.order then s.order else r.place (key :: s.order)
  find := Function.update s.find key (some value)
  nodup := by
    split
    . exact s.nodup
    next h =>
      rw [(r.perm _).nodup_iff]
      exact s.nodup.cons h
  mem_order k := by
    rw [Function.update_apply]
    have := s.mem_order k
    split <;> split <;> simp_all [(r.perm _).mem_iff]

def erase (s : UnorderedMap κ β) (key : κ) : UnorderedMap κ β where
  order := s.order.erase key
  find := Function.update s.find key none
  nodup := s.nodup.erase key
  mem_order k := by
    rw [s.nodup.mem_erase_iff, Function.update_apply, s.mem_order]
    split <;> simp_all

def after (s : UnorderedMap κ β) (key : κ) : Option κ := s.order[s.order.idxOf key + 1]?

omit [DecidableEq κ] in
theorem notMem_before {before rest : List κ} (h : s.order = before ++ key :: rest)
    : key ∉ before := by
  have hnodup := s.nodup
  rw [h, List.nodup_append] at hnodup
  exact fun hmem => hnodup.2.2 key hmem key List.mem_cons_self rfl

theorem after_eq {before rest : List κ} (h : s.order = before ++ key :: rest)
    : s.after key = rest.head? := by
  unfold after
  rw [h, List.idxOf_append_of_notMem (notMem_before h), List.idxOf_cons_self, Nat.add_zero,
    List.getElem?_append_right (Nat.le_add_right _ _), List.head?_eq_getElem?]
  simp

theorem order_erase {before rest : List κ} (h : s.order = before ++ key :: rest)
    : (s.erase key).order = before ++ rest := by
  change s.order.erase key = before ++ rest
  rw [h, List.erase_append_right _ (notMem_before h), List.erase_cons_head]

theorem order_insertOrAssign_of_mem (r : Rehash κ) (value : β) (h : key ∈ s.order)
    : (s.insertOrAssign r key value).order = s.order := if_pos h

theorem size_insertOrAssign_of_notMem (r : Rehash κ) (value : β) (h : key ∉ s.order)
    : (s.insertOrAssign r key value).size = s.size + 1 := by
  have horder : (s.insertOrAssign r key value).order = r.place (key :: s.order) := if_neg h
  unfold size
  rw [horder, (r.perm _).length_eq, List.length_cons]

theorem size_erase_le (s : UnorderedMap κ β) (key : κ) : (s.erase key).size ≤ s.size :=
  List.length_erase_le

end UnorderedMap
