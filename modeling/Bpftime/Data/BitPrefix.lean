import Mathlib.Data.List.Infix

/-!
This module contains the theory of prefixes of finite strings that longest prefix matching rests on:
the length of the longest common prefix of two strings, and what it means for a partial map that is
keyed by strings to have a longest entry that is a prefix of a given string.
-/

namespace BitPrefix

variable {α β : Type}

def lcp [DecidableEq α] : List α → List α → Nat
  | x :: xs, y :: ys => if x = y then lcp xs ys + 1 else 0
  | _, _ => 0

section lcp

variable [DecidableEq α]

theorem lcp_le_left (xs ys : List α) : lcp xs ys ≤ xs.length := by
  induction xs generalizing ys with
  | nil => simp [lcp]
  | cons x xs ih =>
    cases ys with
    | nil => simp [lcp]
    | cons y ys =>
      simp only [lcp]
      split
      . specialize ih ys
        simp only [List.length_cons]
        omega
      . omega

theorem lcp_comm (xs ys : List α) : lcp xs ys = lcp ys xs := by
  induction xs generalizing ys with
  | nil => cases ys <;> simp [lcp]
  | cons x xs ih =>
    cases ys with
    | nil => simp [lcp]
    | cons y ys => simp only [lcp, ih ys, eq_comm]

theorem lcp_le_right (xs ys : List α) : lcp xs ys ≤ ys.length := by
  rw [lcp_comm]
  apply lcp_le_left

theorem lcp_eq_length_left_iff (xs ys : List α) : lcp xs ys = xs.length ↔ xs <+: ys := by
  induction xs generalizing ys with
  | nil => simp [lcp]
  | cons x xs ih =>
    cases ys with
    | nil => simp [lcp]
    | cons y ys =>
      simp only [lcp, List.cons_prefix_cons, List.length_cons]
      split
      . next h => simp [h, ih]
      . next h => simp [h]

theorem lcp_eq_length_right_iff (xs ys : List α) : lcp xs ys = ys.length ↔ ys <+: xs := by
  rw [lcp_comm]
  apply lcp_eq_length_left_iff

theorem take_lcp (xs ys : List α) : xs.take (lcp xs ys) = ys.take (lcp xs ys) := by
  induction xs generalizing ys with
  | nil => cases ys <;> simp [lcp]
  | cons x xs ih =>
    cases ys with
    | nil => simp [lcp]
    | cons y ys =>
      simp only [lcp]
      split
      . next h => simp [h, ih]
      . simp

theorem getElem_lcp_ne (xs ys : List α) (hx : lcp xs ys < xs.length) (hy : lcp xs ys < ys.length)
    : xs[lcp xs ys] ≠ ys[lcp xs ys] := by
  induction xs generalizing ys with
  | nil => simp at hx
  | cons x xs ih =>
    cases ys with
    | nil => simp at hy
    | cons y ys =>
      by_cases h : x = y
      . simp only [lcp, h, ↓reduceIte, List.length_cons, Nat.add_lt_add_iff_right] at hx hy
        simp only [lcp, h, ↓reduceIte, List.getElem_cons_succ]
        exact ih ys hx hy
      . simp [lcp, h]

theorem length_le_lcp {p xs ys : List α} (hx : p <+: xs) (hy : p <+: ys)
    : p.length ≤ lcp xs ys := by
  induction p generalizing xs ys with
  | nil => simp
  | cons a p ih =>
    rcases hx with ⟨xs', rfl⟩
    rcases hy with ⟨ys', rfl⟩
    have := @ih (p ++ xs') (p ++ ys') (by simp) (by simp)
    simp only [List.cons_append, lcp, ↓reduceIte, List.length_cons]
    omega

theorem lcp_take (xs ys : List α) (n : Nat) (h : xs.length ≤ n ∨ ys.length ≤ n)
    : lcp (xs.take n) (ys.take n) = lcp xs ys := by
  induction xs generalizing ys n with
  | nil => simp [lcp]
  | cons x xs ih =>
    cases ys with
    | nil => simp [lcp]
    | cons y ys =>
      cases n with
      | zero => simp at h
      | succ n =>
        simp only [List.length_cons, Nat.add_le_add_iff_right] at h
        simp only [List.take_succ_cons, lcp, ih ys n h]

end lcp

theorem isPrefix_snoc_of_getElem {p q : List α} (h : p <+: q) (hlt : p.length < q.length)
    : p ++ [q[p.length]] <+: q := by
  rcases h with ⟨r, rfl⟩
  cases r with
  | nil => simp at hlt
  | cons a r =>
    refine ⟨r, ?_⟩
    simp

theorem snoc_lcp_isPrefix {xs ys : List Bool} (hx : lcp xs ys < xs.length) (hy : lcp xs ys < ys.length)
    : ys.take (lcp xs ys) ++ [ys[lcp xs ys]] <+: ys
        ∧ ys.take (lcp xs ys) ++ [!ys[lcp xs ys]] <+: xs := by
  constructor
  . rw [List.take_append_getElem]
    apply List.take_prefix
  . have hne : (!ys[lcp xs ys]) = xs[lcp xs ys] := by
      rw [Bool.not_eq]
      exact (getElem_lcp_ne xs ys hx hy).symm
    rw [hne, ← take_lcp, List.take_append_getElem]
    apply List.take_prefix

theorem ne_of_snoc_isPrefix {p q : List α} {a : α} (h : p ++ [a] <+: q) : q ≠ p := by
  rintro rfl
  have := h.length_le
  simp only [List.length_append, List.length_cons, List.length_nil] at this
  omega

theorem exists_snoc_isPrefix {p q : List α} (h : p <+: q) (hne : q ≠ p) : ∃ a, p ++ [a] <+: q := by
  rcases h with ⟨r, rfl⟩
  cases r with
  | nil => simp at hne
  | cons a r => exact ⟨a, r, by simp⟩

theorem not_isPrefix_snoc {p q : List Bool} {b : Bool} (h : p ++ [b] <+: q)
    : ¬ p ++ [!b] <+: q := by
  intro h'
  have := List.prefix_of_prefix_length_le h h' (by simp)
  have heq := this.eq_of_length (by simp)
  simp at heq

def LeftOf (a q : List Bool) : Prop := ∃ r, r ++ [false] <+: a ∧ r ++ [true] <+: q

theorem LeftOf.of_isPrefix {a a' q : List Bool} (h : LeftOf a q) (ha : a <+: a') : LeftOf a' q := by
  rcases h with ⟨r, hra, hrq⟩
  exact ⟨r, hra.trans ha, hrq⟩

theorem not_leftOf_of_isPrefix_left {a q : List Bool} (h : a <+: q) : ¬ LeftOf a q := by
  intro ⟨r, hra, hrq⟩
  exact not_isPrefix_snoc (hra.trans h) hrq

theorem not_leftOf_of_isPrefix_right {a q : List Bool} (h : q <+: a) : ¬ LeftOf a q := by
  intro ⟨r, hra, hrq⟩
  exact not_isPrefix_snoc hra (hrq.trans h)

theorem LeftOf.asymm {a q : List Bool} (h : LeftOf a q) : ¬ LeftOf q a := by
  intro ⟨r', hrq', hra'⟩
  rcases h with ⟨r, hra, hrq⟩
  rcases Nat.lt_trichotomy r.length r'.length with hlt | heq | hgt
  . have hle : (r ++ [false]).length ≤ r'.length := by
      rw [List.length_append, List.length_singleton]
      omega
    have hr' := (List.prefix_append r' [true]).trans hra'
    have hfalse := List.prefix_of_prefix_length_le hra hr' hle
    have hq := hfalse.trans ((List.prefix_append r' [false]).trans hrq')
    exact not_isPrefix_snoc hq hrq
  . have hsnoc := List.prefix_of_prefix_length_le hra hra' (by simp [heq])
    have := hsnoc.eq_of_length (by simp [heq])
    simp at this
  . have hle : (r' ++ [true]).length ≤ r.length := by
      rw [List.length_append, List.length_singleton]
      omega
    have hr := (List.prefix_append r [false]).trans hra
    have htrue := List.prefix_of_prefix_length_le hra' hr hle
    have hq := htrue.trans ((List.prefix_append r [true]).trans hrq)
    exact not_isPrefix_snoc hrq' hq

def IsLongestMatch (m : List α → Option β) (q : List α) (v : β) : Prop :=
  ∃ p, p <+: q ∧ m p = some v ∧ ∀ p', p' <+: q → m p' ≠ none → p'.length ≤ p.length

def NoMatch (m : List α → Option β) (q : List α) : Prop :=
  ∀ p, p <+: q → m p = none

theorem IsLongestMatch.unique {m : List α → Option β} {q : List α} {v w : β}
    (hv : IsLongestMatch m q v) (hw : IsLongestMatch m q w) : v = w := by
  rcases hv with ⟨p, hpq, hp, hpmax⟩
  rcases hw with ⟨r, hrq, hr, hrmax⟩
  have h1 := hpmax r hrq (by simp [hr])
  have h2 := hrmax p hpq (by simp [hp])
  have := (List.prefix_of_prefix_length_le hpq hrq h2).eq_of_length (by omega)
  subst this
  rw [hp] at hr
  injection hr

theorem IsLongestMatch.not_noMatch {m : List α → Option β} {q : List α} {v : β}
    (h : IsLongestMatch m q v) : ¬ NoMatch m q := by
  rcases h with ⟨p, hpq, hp, -⟩
  intro hno
  have := hno p hpq
  simp [hp] at this

end BitPrefix
