import Bpftime.Data.ByteMem
import Bpftime.Data.LinearProbe

/-!
This module contains queues in a circular array of `n` cells: the list that `count` cells from
`head` on hold, and what writing behind them and advancing `head` does to it.
-/

namespace Circular

variable {α : Type _} {n head count : Nat} {cell cell' : Nat → α}

def contents (n : Nat) (cell : Nat → α) (head count : Nat) : List α :=
  (List.range count).map fun i => cell ((head + i) % n)

@[simp]
theorem length_contents : (contents n cell head count).length = count := by
  simp [contents]

theorem contents_succ
    : contents n cell head (count + 1) = cell (head % n) :: contents n cell ((head + 1) % n) count := by
  unfold contents
  rw [List.range_succ_eq_map]
  simp only [List.map_cons, List.map_map, Nat.add_zero]
  congr 1
  apply List.map_congr_left
  intro i _
  simp only [Function.comp_apply, Nat.mod_add_mod]
  congr 2
  omega

theorem contents_concat
    : contents n cell head (count + 1) = contents n cell head count ++ [cell ((head + count) % n)] := by
  unfold contents
  rw [List.range_succ, List.map_append]
  rfl

theorem contents_congr (h : ∀ i < count, cell' ((head + i) % n) = cell ((head + i) % n))
    : contents n cell' head count = contents n cell head count := by
  apply List.map_congr_left
  intro i hi
  rw [List.mem_range] at hi
  exact h i hi

theorem contents_push {a : α} (hcount : count < n) (ha : cell' ((head + count) % n) = a)
    (hother : ∀ i, i ≠ (head + count) % n → cell' i = cell i)
    : contents n cell' head (count + 1) = contents n cell head count ++ [a] := by
  rw [contents_concat, ha]
  congr 1
  apply contents_congr
  intro i hi
  apply hother
  intro heq
  have := LinearProbe.eq_of_add_mod_eq (by omega) hcount heq
  omega

theorem contents_add {m : Nat} : contents n cell head (count + m)
        =
      contents n cell head count ++ contents n cell (head + count) m := by
  unfold contents
  rw [List.range_add, List.map_append, List.map_map]
  congr 1
  apply List.map_congr_left
  intro i _
  rw [Function.comp_apply, Nat.add_assoc]

theorem contents_eq_of_mod_eq {head' : Nat} (h : head' % n = head % n)
    : contents n cell head' count = contents n cell head count := by
  apply List.map_congr_left
  intro i _
  rw [Nat.add_mod, h, ← Nat.add_mod]

structure Written (n pos : Nat) (as : List α) (cell cell' : Nat → α) : Prop where
  inside : ∀ i (h : i < as.length), cell' ((pos + i) % n) = as[i]
  outside : ∀ x < n, (∀ i < as.length, x ≠ (pos + i) % n) → cell' x = cell x

namespace Written

variable {pos : Nat} {as bs : List α} {cell'' : Nat → α}

theorem of_mod_eq {pos' : Nat} (h : Written n pos as cell cell') (hmod : pos' % n = pos % n)
    : Written n pos' as cell cell' := by
  have hindex (i : Nat) : (pos' + i) % n = (pos + i) % n := by
    rw [Nat.add_mod, hmod, ← Nat.add_mod]
  constructor
  . intro i hi
    rw [hindex]
    exact h.inside i hi
  . intro x hx hne
    apply h.outside x hx
    intro i hi
    rw [← hindex]
    exact hne i hi

theorem contents_self (h : Written n pos as cell cell') : contents n cell' pos as.length = as := by
  apply List.ext_getElem
  . exact length_contents
  . intro i hi hi'
    simp only [contents, List.getElem_map, List.getElem_range]
    exact h.inside i hi'

theorem contents_before (h : Written n (head + count) as cell cell') (hfits : count + as.length ≤ n)
    : contents n cell' head count = contents n cell head count := by
  apply contents_congr
  intro i hi
  apply h.outside
  . apply Nat.mod_lt
    omega
  . intro j hj heq
    rw [Nat.add_assoc] at heq
    have := LinearProbe.eq_of_add_mod_eq (by omega) (by omega) heq
    omega

theorem append (h : Written n pos as cell cell') (h' : Written n (pos + as.length) bs cell' cell'')
    (hfits : as.length + bs.length ≤ n)
    : Written n pos (as ++ bs) cell cell'' := by
  constructor
  . intro i hi
    rw [List.length_append] at hi
    by_cases hlt : i < as.length
    . rw [List.getElem_append_left hlt, ← h.inside i hlt]
      apply h'.outside
      . apply Nat.mod_lt
        omega
      . intro j hj heq
        rw [Nat.add_assoc] at heq
        have := LinearProbe.eq_of_add_mod_eq (by omega) (by omega) heq
        omega
    . rw [List.getElem_append_right (by omega), ← h'.inside (i - as.length) (by omega)]
      congr 2
      omega
  . intro x hx hne
    rw [List.length_append] at hne
    rw [h'.outside x hx, h.outside x hx]
    . intro i hi
      exact hne i (by omega)
    . intro i hi
      rw [Nat.add_assoc]
      exact hne (as.length + i) (by omega)

end Written

theorem written_write (m : ByteMem) {n pos start : Nat} {bs : List UInt8} (hstart : start = pos % n)
    (hfits : start + bs.length ≤ n)
    : Written n pos bs m.byte (m.write start bs).byte := by
  have hindex {i : Nat} (hi : i < bs.length) : (pos + i) % n = start + i := by
    rw [← Nat.mod_add_mod, ← hstart]
    apply Nat.mod_eq_of_lt
    omega
  constructor
  . intro i hi
    rw [hindex hi]
    exact ByteMem.byte_write_of_inside m start hi
  . intro x _ hne
    apply ByteMem.byte_write_of_outside
    by_contra hinside
    apply hne (x - start)
    . omega
    . rw [hindex (by omega)]
      omega

end Circular
