import Mathlib.Data.List.Nodup

/-!
This module contains doubly linked lists whose links are two partial functions on nodes: what it
means for them to link the nodes of a list, and what taking a node out and putting one in front does
to them.
-/

namespace DoublyLinked

variable {π : Type _} {next prev : π → Option π}

def Seg (next prev : π → Option π) : Option π → List π → Option π → Prop
  | _, [], _ => True
  | before, a :: ps, after =>
    prev a = before ∧ next a = ps.head?.or after ∧ Seg next prev (some a) ps after

variable {l r ps : List π} {before after x : Option π} {a : π}

theorem seg_append : Seg next prev before (l ++ r) after
        ↔
      Seg next prev before l (r.head?.or after) ∧ Seg next prev (l.getLast?.or before) r after := by
  induction l generalizing before with
  | nil => simp [Seg]
  | cons a l ih =>
    have hlast : (a :: l).getLast?.or before = l.getLast?.or (some a) := by
      rw [List.getLast?_cons]
      cases l.getLast? with
      | none => rfl
      | some b => rfl
    rw [List.cons_append]
    simp only [Seg]
    rw [ih, List.head?_append, Option.or_assoc, hlast, and_assoc, and_assoc]

theorem Seg.links (h : Seg next prev none (l ++ a :: r) none)
    : prev a = l.getLast? ∧ next a = r.head? := by
  rw [seg_append] at h
  rcases h with ⟨-, hprev, hnext, -⟩
  rw [Option.or_none] at hprev hnext
  exact ⟨hprev, hnext⟩

variable [DecidableEq π]

theorem Seg.update_next (h : Seg next prev before ps after) (ha : a ∉ ps)
    : Seg (Function.update next a x) prev before ps after := by
  induction ps generalizing before with
  | nil => trivial
  | cons b ps ih =>
    rw [List.mem_cons, not_or] at ha
    rcases h with ⟨hprev, hnext, hrest⟩
    refine ⟨hprev, ?_, ih hrest ha.2⟩
    rw [Function.update_of_ne (Ne.symm ha.1)]
    exact hnext

theorem Seg.update_prev (h : Seg next prev before ps after) (ha : a ∉ ps)
    : Seg next (Function.update prev a x) before ps after := by
  induction ps generalizing before with
  | nil => trivial
  | cons b ps ih =>
    rw [List.mem_cons, not_or] at ha
    rcases h with ⟨hprev, hnext, hrest⟩
    refine ⟨?_, hnext, ih hrest ha.2⟩
    rw [Function.update_of_ne (Ne.symm ha.1)]
    exact hprev

def setAfter (next : π → Option π) (l : List π) (after : Option π) : π → Option π :=
  match l.getLast? with
  | none => next
  | some x => Function.update next x after

def setBefore (prev : π → Option π) (r : List π) (before : Option π) : π → Option π :=
  match r.head? with
  | none => prev
  | some y => Function.update prev y before

theorem Seg.setAfter {after' : Option π} (h : Seg next prev before l after) (hl : l.Nodup)
    : Seg (DoublyLinked.setAfter next l after') prev before l after' := by
  rcases List.eq_nil_or_concat l with rfl | ⟨l, x, rfl⟩
  . trivial
  . rw [List.concat_eq_append] at *
    have hx : x ∉ l := by
      intro hx
      exact List.disjoint_of_nodup_append hl hx List.mem_cons_self
    unfold DoublyLinked.setAfter
    rw [List.getLast?_concat]
    rw [seg_append] at h ⊢
    refine ⟨h.1.update_next hx, h.2.1, ?_, trivial⟩
    simp

theorem Seg.setBefore {before' : Option π} (h : Seg next prev before r after) (hr : r.Nodup)
    : Seg next (DoublyLinked.setBefore prev r before') before' r after := by
  cases r with
  | nil => trivial
  | cons y r =>
    rw [List.nodup_cons] at hr
    rcases h with ⟨-, hnext, hrest⟩
    refine ⟨?_, hnext, hrest.update_prev hr.1⟩
    simp [DoublyLinked.setBefore]

theorem setAfter_notMem (h : Seg next prev before ps after) (hdisjoint : l.Disjoint ps)
    : Seg (setAfter next l x) prev before ps after := by
  unfold setAfter
  cases hlast : l.getLast? with
  | none => exact h
  | some a =>
    apply h.update_next
    exact hdisjoint (List.mem_of_getLast? hlast)

theorem setBefore_notMem (h : Seg next prev before ps after) (hdisjoint : r.Disjoint ps)
    : Seg next (setBefore prev r x) before ps after := by
  unfold setBefore
  cases hhead : r.head? with
  | none => exact h
  | some a =>
    apply h.update_prev
    exact hdisjoint (List.mem_of_head? hhead)

theorem Seg.unlink (h : Seg next prev none (l ++ a :: r) none) (hnodup : (l ++ a :: r).Nodup)
    : Seg (DoublyLinked.setAfter next l r.head?) (DoublyLinked.setBefore prev r l.getLast?) none (l ++ r)
        none := by
  rw [seg_append] at h
  rcases h with ⟨hl, -, -, hr⟩
  have hdisjoint : l.Disjoint r := by
    intro b hbl hbr
    exact List.disjoint_of_nodup_append hnodup hbl (List.mem_cons_of_mem a hbr)
  have hnodupl : l.Nodup := hnodup.of_append_left
  have hnodupr : r.Nodup := (List.nodup_cons.mp hnodup.of_append_right).2
  rw [seg_append, Option.or_none, Option.or_none]
  constructor
  . apply setBefore_notMem _ (List.disjoint_comm.mp hdisjoint)
    exact hl.setAfter hnodupl
  . apply setAfter_notMem _ hdisjoint
    exact hr.setBefore hnodupr

theorem Seg.push (h : Seg next prev none ps none) (hnodup : ps.Nodup) (ha : a ∉ ps)
    : Seg (Function.update next a ps.head?)
        (DoublyLinked.setBefore (Function.update prev a none) ps (some a)) none (a :: ps) none := by
  refine ⟨?_, ?_, ?_⟩
  . unfold DoublyLinked.setBefore
    cases hhead : ps.head? with
    | none => simp
    | some b =>
      have hne : a ≠ b := by
        rintro rfl
        exact ha (List.mem_of_head? hhead)
      simp [Function.update_of_ne hne]
  . simp
  . apply Seg.update_next _ ha
    exact (h.update_prev ha).setBefore hnodup

end DoublyLinked
