import Mathlib.Data.List.Nodup

/-!
This module contains members and groups that refer to each other: a member has at most one group,
and a group is there as long as it has members and lists each of them once. An index finds each entry
of a store by its key.
-/

namespace BackRefs

variable {μ : Type _} {γ : Type _}

structure Linked (owner : μ → Option γ) (members : γ → Option (List μ)) : Prop where
  owner_iff : ∀ p g, owner p = some g ↔ ∃ l, members g = some l ∧ p ∈ l
  ne_nil : ∀ g l, members g = some l → l ≠ []
  nodup : ∀ g l, members g = some l → l.Nodup

variable {owner : μ → Option γ} {members : γ → Option (List μ)}

theorem linked_empty : Linked (fun _ : μ => (none : Option γ)) (fun _ => none) where
  owner_iff := by simp
  ne_nil := by simp
  nodup := by simp

theorem Linked.owner_of_mem (h : Linked owner members) {g : γ} {l : List μ} {p : μ}
    (hl : members g = some l) (hp : p ∈ l)
    : owner p = some g :=
  (h.owner_iff p g).mpr ⟨l, hl, hp⟩

theorem Linked.mem_of_owner (h : Linked owner members) {g : γ} {l : List μ} {p : μ}
    (hl : members g = some l) (hp : owner p = some g)
    : p ∈ l := by
  obtain ⟨l', hl', hp⟩ := (h.owner_iff p g).mp hp
  rw [hl] at hl'
  cases hl'
  exact hp

variable [DecidableEq μ] [DecidableEq γ]

theorem Linked.add (h : Linked owner members) {p : μ} (hfree : owner p = none) (g : γ)
    : Linked (Function.update owner p (some g))
        (Function.update members g (some ((members g).getD [] ++ [p]))) := by
  have hnot : ∀ g l, members g = some l → p ∉ l := by
    intro g l hl hp
    rw [h.owner_of_mem hl hp] at hfree
    cases hfree
  constructor
  . intro q g'
    rw [Function.update_apply, Function.update_apply]
    by_cases hg : g' = g
    . rw [if_pos hg, hg]
      by_cases hq : q = p
      . simp [hq]
      . rw [if_neg hq, h.owner_iff]
        cases hmembers : members g <;> simp [hq]
    . rw [if_neg hg, ← h.owner_iff]
      by_cases hq : q = p
      . simp [hq, hfree, Ne.symm hg]
      . rw [if_neg hq]
  . intro g' l hl
    rw [Function.update_apply] at hl
    split at hl
    . cases hl
      simp
    . exact h.ne_nil g' l hl
  . intro g' l hl
    rw [Function.update_apply] at hl
    split at hl
    . cases hl
      cases hmembers : members g with
      | none => simp
      | some l =>
        rw [Option.getD_some, List.nodup_append]
        refine ⟨h.nodup g l hmembers, List.nodup_singleton p, ?_⟩
        intro a ha b hb heq
        rw [heq, List.mem_singleton.mp hb] at ha
        exact hnot g l hmembers ha
    . exact h.nodup g' l hl

theorem Linked.remove (h : Linked owner members) {g : γ} {l D : List μ}
    (hl : members g = some l) (hD : D ⊆ l)
    : Linked (fun p => if p ∈ D then none else owner p)
        (Function.update members g
          (if l.filter (· ∉ D) = [] then none else some (l.filter (· ∉ D)))) := by
  have hcases : ∀ g' l', Function.update members g
      (if l.filter (· ∉ D) = [] then none else some (l.filter (· ∉ D))) g' = some l' →
        (g' = g ∧ l' = l.filter (· ∉ D) ∧ l' ≠ []) ∨ (g' ≠ g ∧ members g' = some l') := by
    intro g' l' hl'
    rw [Function.update_apply] at hl'
    split at hl'
    next hg =>
      split at hl'
      . cases hl'
      next hne =>
        cases hl'
        exact .inl ⟨hg, rfl, hne⟩
    next hg => exact .inr ⟨hg, hl'⟩
  constructor
  . intro p g'
    constructor
    . intro hp
      split at hp
      . cases hp
      next hpD =>
        obtain ⟨l', hl', hmem⟩ := (h.owner_iff p g').mp hp
        rw [Function.update_apply]
        by_cases hg : g' = g
        . rw [hg, hl] at hl'
          cases hl'
          have hmem : p ∈ l.filter (· ∉ D) := by simp [hmem, hpD]
          rw [if_pos hg, if_neg (List.ne_nil_of_mem hmem)]
          exact ⟨_, rfl, hmem⟩
        . rw [if_neg hg]
          exact ⟨l', hl', hmem⟩
    . rintro ⟨l', hl', hp⟩
      obtain ⟨rfl, rfl, _⟩ | ⟨hg, hl'⟩ := hcases g' l' hl'
      . obtain ⟨hp, hpD⟩ := List.mem_filter.mp hp
        rw [if_neg (by simpa using hpD)]
        exact h.owner_of_mem hl hp
      . have howner := h.owner_of_mem hl' hp
        have hpD : p ∉ D := by
          intro hpD
          rw [h.owner_of_mem hl (hD hpD)] at howner
          cases howner
          exact hg rfl
        rw [if_neg hpD, howner]
  . intro g' l' hl'
    obtain ⟨_, _, hne⟩ | ⟨_, hl'⟩ := hcases g' l' hl'
    . exact hne
    . exact h.ne_nil g' l' hl'
  . intro g' l' hl'
    obtain ⟨_, rfl, _⟩ | ⟨_, hl'⟩ := hcases g' l' hl'
    . exact (h.nodup g l hl).filter _
    . exact h.nodup g' l' hl'

section Indexed

variable {κ : Type _} {π : Type _} {ε : Type _}

def Indexed (key : ε → κ) (index : κ → Option π) (store : π → Option ε) : Prop :=
  ∀ k p, index k = some p ↔ ∃ e, store p = some e ∧ key e = k

variable {key : ε → κ} {index : κ → Option π} {store : π → Option ε} {p : π} {e : ε}

theorem Indexed.find (h : Indexed key index store) (hp : store p = some e)
    : index (key e) = some p :=
  (h _ _).mpr ⟨e, hp, rfl⟩

variable [DecidableEq κ] [DecidableEq π]

theorem Indexed.set (h : Indexed key index store) (hkey : ∀ q, index (key e) = some q → q = p)
    (hp : ∀ e', store p = some e' → key e' = key e)
    : Indexed key (Function.update index (key e) (some p)) (Function.update store p (some e)) := by
  intro k q
  rw [Function.update_apply, Function.update_apply]
  by_cases hq : q = p
  . rw [if_pos hq, hq]
    by_cases hk : k = key e
    . simp [hk]
    . have hnot : index k ≠ some p := by
        intro hindex
        obtain ⟨e', he', rfl⟩ := (h k p).mp hindex
        exact hk (hp e' he')
      simp [hk, hnot, Ne.symm hk]
  . rw [if_neg hq, ← h k q]
    by_cases hk : k = key e
    . have hnot : index (key e) ≠ some q := fun hindex => hq (hkey q hindex)
      simp [hk, hnot, Ne.symm hq]
    . rw [if_neg hk]

theorem Indexed.erase (h : Indexed key index store) (hp : store p = some e)
    : Indexed key (Function.update index (key e) none) (Function.update store p none) := by
  intro k q
  rw [Function.update_apply, Function.update_apply]
  by_cases hk : k = key e
  . rw [if_pos hk]
    by_cases hq : q = p
    . simp [hq]
    . rw [if_neg hq, ← h k q, hk, h.find hp]
      simp [Ne.symm hq]
  . rw [if_neg hk, h k q]
    by_cases hq : q = p
    . rw [if_pos hq, hq, hp]
      simp [Ne.symm hk]
    . rw [if_neg hq]

end Indexed

end BackRefs
