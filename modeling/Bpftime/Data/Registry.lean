import Mathlib.Data.List.Nodup
import Mathlib.Logic.Function.Basic

/-!
This module contains registries: a table from increasing ids to the addresses of objects on a heap,
and what holds of the list of live objects as some are added and removed.
-/

namespace Registry

variable {α : Type _} {β : Type _} {id : α → Int} {ptr : α → Nat} {P : α → β → Prop} {live : List α}
variable {next : Int} {table : Int → Option Nat} {heap : Nat → Option β}

structure Holds (id : α → Int) (ptr : α → Nat) (P : α → β → Prop) (live : List α) (next : Int)
    (table : Int → Option Nat) (heap : Nat → Option β) : Prop where
  pos : 0 < next
  bound : ∀ a ∈ live, id a < next
  ids : (live.map id).Nodup
  ptrs : (live.map ptr).Nodup
  stored : ∀ a ∈ live, ∃ b, heap (ptr a) = some b ∧ P a b
  entries : ∀ i p, table i = some p → ∃ a ∈ live, id a = i ∧ ptr a = p

theorem holds_empty : Holds id ptr P [] 1 (fun _ => none) heap where
  pos := by decide
  bound := by simp
  ids := List.nodup_nil
  ptrs := List.nodup_nil
  stored := by simp
  entries := by simp

theorem Holds.ptr_notMem (h : Holds id ptr P live next table heap) {p : Nat} (hfree : heap p = none)
    : p ∉ live.map ptr := by
  rw [List.mem_map]
  rintro ⟨a, ha, rfl⟩
  obtain ⟨b, hb, -⟩ := h.stored a ha
  rw [hfree] at hb
  cases hb

theorem Holds.add (h : Holds id ptr P live next table heap) {a : α} {b : β} (hid : id a = next)
    (hfree : heap (ptr a) = none) (hb : P a b)
    : Holds id ptr P (live ++ [a]) (next + 1) (Function.update table next (some (ptr a)))
        (Function.update heap (ptr a) (some b)) := by
  have hpos := h.pos
  have hptr := h.ptr_notMem hfree
  constructor
  case pos => omega
  case bound =>
    intro c hc
    rcases List.mem_append.mp hc with hc | hc
    . have := h.bound c hc
      omega
    . rw [List.mem_singleton.mp hc]
      omega
  case ids =>
    rw [List.map_append, List.map_singleton, ← List.concat_eq_append, List.nodup_concat]
    refine ⟨?_, h.ids⟩
    rw [List.mem_map]
    rintro ⟨c, hc, heq⟩
    have := h.bound c hc
    omega
  case ptrs =>
    rw [List.map_append, List.map_singleton, ← List.concat_eq_append, List.nodup_concat]
    exact ⟨hptr, h.ptrs⟩
  case stored =>
    intro c hc
    rcases List.mem_append.mp hc with hc | hc
    . have hne : ptr c ≠ ptr a := fun heq => hptr (heq ▸ List.mem_map_of_mem hc)
      rw [Function.update_of_ne hne]
      exact h.stored c hc
    . rw [List.mem_singleton.mp hc, Function.update_self]
      exact ⟨b, rfl, hb⟩
  case entries =>
    intro i p hp
    rw [Function.update_apply] at hp
    split at hp
    next heq =>
      cases hp
      exact ⟨a, by simp, hid.trans heq.symm, rfl⟩
    next =>
      obtain ⟨c, hc, heq⟩ := h.entries i p hp
      exact ⟨c, List.mem_append_left _ hc, heq⟩

section Remove

variable {a c : α}

theorem Holds.id_eq_iff (h : Holds id ptr P live next table heap) (hc : c ∈ live) (ha : a ∈ live)
    : id c = id a ↔ ptr c = ptr a := by
  constructor
  . intro heq
    rw [List.inj_on_of_nodup_map h.ids hc ha heq]
  . intro heq
    rw [List.inj_on_of_nodup_map h.ptrs hc ha heq]

theorem Holds.remove (h : Holds id ptr P live next table heap) (ha : a ∈ live)
    : Holds id ptr P (live.filter (id · ≠ id a)) next (Function.update table (id a) none)
        (Function.update heap (ptr a) none) := by
  have hkept : ∀ c ∈ live.filter (id · ≠ id a), c ∈ live ∧ id c ≠ id a := by simp
  constructor
  case pos => exact h.pos
  case bound => exact fun c hc => h.bound c (hkept c hc).1
  case ids => exact h.ids.sublist (List.filter_sublist.map _)
  case ptrs => exact h.ptrs.sublist (List.filter_sublist.map _)
  case stored =>
    intro c hc
    obtain ⟨hc, hne⟩ := hkept c hc
    rw [Function.update_of_ne fun heq => hne ((h.id_eq_iff hc ha).mpr heq)]
    exact h.stored c hc
  case entries =>
    intro i p hp
    rw [Function.update_apply] at hp
    split at hp
    . cases hp
    next hne =>
      obtain ⟨c, hc, rfl, heq⟩ := h.entries i p hp
      exact ⟨c, by simp [hc, hne], rfl, heq⟩

end Remove

end Registry
