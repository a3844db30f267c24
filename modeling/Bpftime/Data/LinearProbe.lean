import Mathlib.Data.Finset.Card
import Mathlib.Data.Nat.ModEq

/-!
This module contains open addressing with linear probing: the cyclic scan of a table of `n` slots,
and the invariant under which the scan from a key's home slot finds the key.
-/

namespace LinearProbe

variable {β : Type _}

def scan (n : Nat) (visit : Nat → Option β) (start : Nat) : Option β :=
  go n start
where
  go : Nat → Nat → Option β
    | 0, _ => none
    | fuel + 1, index =>
      match visit index with
      | some r => some r
      | none =>
        let next := (index + 1) % n
        if next = start then
          none
        else
          go fuel next

def dist (n start index : Nat) : Nat := (index + n - start) % n

theorem dist_lt {n start index : Nat} (hn : 0 < n) : dist n start index < n := by
  apply Nat.mod_lt
  exact hn

theorem add_dist {n start index : Nat} (hs : start < n) (hi : index < n)
    : (start + dist n start index) % n = index := by
  unfold dist
  rw [Nat.add_mod_mod]
  have : start + (index + n - start) = index + n := by omega
  rw [this, Nat.add_mod_right, Nat.mod_eq_of_lt hi]

theorem eq_of_add_mod_eq {n start d e : Nat} (hd : d < n) (he : e < n)
    (h : (start + d) % n = (start + e) % n)
    : d = e := by
  have : d % n = e % n := Nat.ModEq.add_left_cancel' start h
  rw [Nat.mod_eq_of_lt hd, Nat.mod_eq_of_lt he] at this
  exact this

theorem dist_add {n start d : Nat} (hs : start < n) (hd : d < n)
    : dist n start ((start + d) % n) = d := by
  apply eq_of_add_mod_eq (dist_lt (by omega)) hd
  apply add_dist hs
  apply Nat.mod_lt
  omega

theorem next_eq {n start d : Nat} : ((start + d) % n + 1) % n = (start + (d + 1)) % n := by
  rw [Nat.mod_add_mod, Nat.add_assoc]

theorem next_eq_start_iff {n start d : Nat} (hs : start < n) (hd : d < n)
    : (start + (d + 1)) % n = start ↔ d + 1 = n := by
  constructor
  . intro h
    rcases Nat.lt_or_ge (d + 1) n with hlt | hge
    . have : d + 1 = 0 := by
        apply eq_of_add_mod_eq hlt (by omega)
        rw [h, Nat.add_zero, Nat.mod_eq_of_lt hs]
      omega
    . omega
  . intro h
    rw [h, Nat.add_mod_right, Nat.mod_eq_of_lt hs]

section Scan

variable {n start : Nat} {visit : Nat → Option β}

def StopsAt (n start : Nat) (visit : Nat → Option β) (d : Nat) (r : β) : Prop :=
  d < n ∧ visit ((start + d) % n) = some r ∧ ∀ e < d, visit ((start + e) % n) = none

theorem scan.go_cases (visit : Nat → Option β) (hs : start < n) (fuel : Nat)
    : ∀ d, d < n → d + fuel = n → (∀ e < d, visit ((start + e) % n) = none) →
        (∃ e r, StopsAt n start visit e r ∧ go n visit start fuel ((start + d) % n) = some r)
          ∨
        ((∀ e < n, visit ((start + e) % n) = none)
          ∧ go n visit start fuel ((start + d) % n) = none) := by
  induction fuel with
  | zero =>
    intro d hd hfuel
    omega
  | succ fuel ih =>
    intro d hd hfuel hpassed
    unfold go
    cases hv : visit ((start + d) % n) with
    | some r =>
      left
      exists d, r
    | none =>
      dsimp only
      have hpassed' : ∀ e < d + 1, visit ((start + e) % n) = none := by
        intro e he
        rcases Nat.lt_succ_iff_lt_or_eq.mp he with hlt | heq
        . exact hpassed e hlt
        . rw [heq, hv]
      rw [next_eq]
      split
      next hstop =>
        right
        rw [next_eq_start_iff hs hd] at hstop
        rw [hstop] at hpassed'
        exact ⟨hpassed', rfl⟩
      next hstop =>
        rw [next_eq_start_iff hs hd] at hstop
        apply ih
        . omega
        . omega
        . exact hpassed'

theorem scan_cases (visit : Nat → Option β) (hs : start < n)
    : (∃ d r, StopsAt n start visit d r ∧ scan n visit start = some r)
        ∨
      ((∀ d < n, visit ((start + d) % n) = none) ∧ scan n visit start = none) := by
  have := scan.go_cases visit hs n 0 (by omega) (by omega) (by simp)
  rw [Nat.add_zero, Nat.mod_eq_of_lt hs] at this
  exact this

theorem StopsAt.unique {d e : Nat} {r r' : β} (h : StopsAt n start visit d r)
    (h' : StopsAt n start visit e r')
    : d = e := by
  rcases Nat.lt_trichotomy d e with hlt | heq | hgt
  . have := h'.2.2 d hlt
    rw [h.2.1] at this
    contradiction
  . exact heq
  . have := h.2.2 e hgt
    rw [h'.2.1] at this
    contradiction

theorem StopsAt.scan_eq {d : Nat} {r : β} (hs : start < n) (h : StopsAt n start visit d r)
    : scan n visit start = some r := by
  rcases scan_cases visit hs with ⟨e, r', hstop, hscan⟩ | ⟨hnone, -⟩
  . have heq := h.unique hstop
    subst heq
    rw [hscan, ← hstop.2.1, h.2.1]
  . have := hnone d h.1
    rw [h.2.1] at this
    contradiction

end Scan

section Table

variable {κ : Type _}

def AtMostOnce (n : Nat) (occ : Nat → Option κ) : Prop :=
  ∀ i < n, ∀ j < n, ∀ k, occ i = some k → occ j = some k → i = j

def OnPath (n : Nat) (home : κ → Nat) (k : κ) (j i : Nat) : Prop :=
  ∃ d < dist n (home k) j, i = (home k + d) % n

def Chained (n : Nat) (home : κ → Nat) (occ : Nat → Option κ) : Prop :=
  ∀ j < n, ∀ k, occ j = some k → ∀ i, OnPath n home k j i → occ i ≠ none

structure Ok (n : Nat) (home : κ → Nat) (occ : Nat → Option κ) : Prop where
  atMostOnce : AtMostOnce n occ
  chained : Chained n home occ

def NoneThrough (n : Nat) (home : κ → Nat) (occ : Nat → Option κ) (i : Nat) : Prop :=
  ∀ j < n, j ≠ i → ∀ k, occ j = some k → ¬ OnPath n home k j i

variable {n : Nat} {home : κ → Nat} {occ : Nat → Option κ}

theorem ok_empty : Ok n home (fun _ => (none : Option κ)) := by
  constructor
  . intro i _ j _ k h
    contradiction
  . intro j _ k h
    contradiction

variable {k key : κ} {j i : Nat}

theorem OnPath.lt (hhome : home k < n) (h : OnPath n home k j i) : i < n := by
  rcases h with ⟨d, hd, rfl⟩
  apply Nat.mod_lt
  omega

theorem OnPath.ne (hhome : home k < n) (h : OnPath n home k j i) : i ≠ j := by
  rcases h with ⟨d, hd, rfl⟩
  intro heq
  have hdn : d < n := by
    apply Nat.lt_trans hd
    apply dist_lt
    omega
  rw [← heq, dist_add hhome hdn] at hd
  omega

theorem OnPath.trans (hhome : home k < n) {l : Nat} (h : OnPath n home k j i)
    (hl : OnPath n home k i l)
    : OnPath n home k j l := by
  rcases h with ⟨d, hd, rfl⟩
  rcases hl with ⟨e, he, rfl⟩
  have := @dist_lt n (home k) j (by omega)
  rw [dist_add hhome (by omega)] at he
  exists e
  omega

theorem Ok.path_ne (hok : Ok n home occ) (hhome : home key < n) (hi : i < n)
    (hocc : occ i = some key)
    : ∀ j, OnPath n home key i j → occ j ≠ none ∧ occ j ≠ some key := by
  intro j hj
  constructor
  . exact hok.chained i hi key hocc j hj
  . intro hkey
    apply hj.ne hhome
    apply hok.atMostOnce j (hj.lt hhome) i hi key hkey hocc

theorem Ok.erase (hok : Ok n home occ) (h : NoneThrough n home occ i)
    : Ok n home (Function.update occ i none) := by
  have hother : ∀ j k, Function.update occ i none j = some k → j ≠ i ∧ occ j = some k := by
    intro j k hk
    by_cases hji : j = i
    . simp [hji] at hk
    . rw [Function.update_of_ne hji] at hk
      exact ⟨hji, hk⟩
  constructor
  . intro a ha b hb k hka hkb
    exact hok.atMostOnce a ha b hb k (hother a k hka).2 (hother b k hkb).2
  . intro j hj k hk l hl
    rcases hother j k hk with ⟨hji, hocc⟩
    have hli : l ≠ i := by
      intro heq
      rw [heq] at hl
      exact h j hj hji k hocc hl
    rw [Function.update_of_ne hli]
    exact hok.chained j hj k hocc l hl

variable [DecidableEq κ]

inductive Probe where
  | empty (index : Nat)
  | found (index : Nat)

def visit (occ : Nat → Option κ) (key : κ) (index : Nat) : Option Probe :=
  match occ index with
  | none => some (.empty index)
  | some k => if k = key then some (.found index) else none

def probe (n : Nat) (home : κ → Nat) (occ : Nat → Option κ) (key : κ) : Option Probe :=
  scan n (visit occ key) (home key)

theorem visit_eq_none_iff {index : Nat}
    : visit occ key index = none ↔ occ index ≠ none ∧ occ index ≠ some key := by
  unfold visit
  cases occ index with
  | none => simp
  | some k => simp

theorem visit_eq_found_iff {index : Nat}
    : visit occ key index = some (.found i) ↔ index = i ∧ occ index = some key := by
  unfold visit
  cases occ index with
  | none => simp
  | some k => simp [and_comm]

theorem visit_eq_empty_iff {index : Nat}
    : visit occ key index = some (.empty i) ↔ index = i ∧ occ index = none := by
  unfold visit
  cases occ index with
  | none => simp
  | some k => simp

theorem probe_stopsAt (hhome : home key < n) {r : Probe} (h : probe n home occ key = some r)
    : ∃ d, StopsAt n (home key) (visit occ key) d r := by
  rcases scan_cases (visit occ key) hhome with ⟨d, r', hstop, hscan⟩ | ⟨-, hscan⟩
  . unfold probe at h
    rw [hscan] at h
    cases h
    exists d
  . unfold probe at h
    rw [hscan] at h
    contradiction

theorem probe_found (hhome : home key < n) (h : probe n home occ key = some (.found i))
    : i < n ∧ occ i = some key := by
  rcases probe_stopsAt hhome h with ⟨d, hd, hvisit, -⟩
  rw [visit_eq_found_iff] at hvisit
  rcases hvisit with ⟨rfl, hocc⟩
  constructor
  . apply Nat.mod_lt
    omega
  . exact hocc

theorem probe_empty (hhome : home key < n) (h : probe n home occ key = some (.empty i))
    : i < n ∧ occ i = none ∧ ∀ j, OnPath n home key i j → occ j ≠ none ∧ occ j ≠ some key := by
  rcases probe_stopsAt hhome h with ⟨d, hd, hvisit, hpassed⟩
  rw [visit_eq_empty_iff] at hvisit
  rcases hvisit with ⟨rfl, hocc⟩
  refine ⟨Nat.mod_lt _ (by omega), hocc, ?_⟩
  intro j hj
  rcases hj with ⟨e, he, rfl⟩
  rw [dist_add hhome hd] at he
  have := hpassed e he
  rw [visit_eq_none_iff] at this
  exact this

theorem probe_of_path (hhome : home key < n) (hi : i < n)
    (hpath : ∀ j, OnPath n home key i j → occ j ≠ none ∧ occ j ≠ some key) {r : Probe}
    (hr : visit occ key i = some r)
    : probe n home occ key = some r := by
  have hstop : StopsAt n (home key) (visit occ key) (dist n (home key) i) r := by
    unfold StopsAt
    rw [add_dist hhome hi]
    refine ⟨dist_lt (by omega), hr, ?_⟩
    intro e he
    rw [visit_eq_none_iff]
    apply hpath
    exists e
  exact hstop.scan_eq hhome

theorem Ok.probe_found_iff (hok : Ok n home occ) (hhome : home key < n)
    : probe n home occ key = some (.found i) ↔ i < n ∧ occ i = some key := by
  constructor
  . exact probe_found hhome
  . intro h
    apply probe_of_path hhome h.1
    . exact hok.path_ne hhome h.1 h.2
    . rw [visit_eq_found_iff]
      exact ⟨rfl, h.2⟩

theorem Ok.absent_of_probe (hok : Ok n home occ) (hhome : home key < n)
    (h : ∀ i, probe n home occ key ≠ some (.found i))
    : ∀ i < n, occ i ≠ some key := by
  intro i hi hocc
  apply h i
  rw [hok.probe_found_iff hhome]
  exact ⟨hi, hocc⟩

theorem Ok.fill (hok : Ok n home occ) (hhome : home key < n)
    (h : probe n home occ key = some (.empty i))
    : Ok n home (Function.update occ i (some key)) := by
  have habsent := hok.absent_of_probe hhome (by simp [h])
  rcases probe_empty hhome h with ⟨hi, hnone, hpath⟩
  constructor
  . intro a ha b hb k hka hkb
    by_cases hai : a = i <;> by_cases hbi : b = i
    . rw [hai, hbi]
    . simp only [hai, Function.update_self, Option.some.injEq] at hka
      rw [Function.update_of_ne hbi, ← hka] at hkb
      exact absurd hkb (habsent b hb)
    . simp only [hbi, Function.update_self, Option.some.injEq] at hkb
      rw [Function.update_of_ne hai, ← hkb] at hka
      exact absurd hka (habsent a ha)
    . rw [Function.update_of_ne hai] at hka
      rw [Function.update_of_ne hbi] at hkb
      exact hok.atMostOnce a ha b hb k hka hkb
  . intro j hj k hk l hl
    by_cases hli : l = i
    . simp [hli]
    . rw [Function.update_of_ne hli]
      by_cases hji : j = i
      . simp only [hji, Function.update_self, Option.some.injEq] at hk
        subst hk
        rw [hji] at hl
        exact (hpath l hl).1
      . rw [Function.update_of_ne hji] at hk
        exact hok.chained j hj k hk l hl

theorem Ok.probe_erase_of_onPath (hok : Ok n home occ) (hhome : home k < n)
    (hj : j < n) (hocc : occ j = some k) (hpath : OnPath n home k j i)
    : probe n home (Function.update occ i none) k = some (.empty i) := by
  apply probe_of_path hhome (hpath.lt hhome)
  . intro l hl
    rw [Function.update_of_ne (hl.ne hhome)]
    apply hok.path_ne hhome hj hocc
    exact hpath.trans hhome hl
  . rw [visit_eq_empty_iff]
    simp

end Table

section Filled

variable {κ : Type _} {n : Nat} {occ : Nat → Option κ}

def filledSlots (n : Nat) (occ : Nat → Option κ) : Finset Nat :=
  (Finset.range n).filter fun i => (occ i).isSome

theorem mem_filledSlots {i : Nat} : i ∈ filledSlots n occ ↔ i < n ∧ occ i ≠ none := by
  unfold filledSlots
  rw [Finset.mem_filter, Finset.mem_range, Option.isSome_iff_ne_none]

theorem card_filledSlots_empty : (filledSlots n (fun _ => (none : Option κ))).card = 0 := by
  unfold filledSlots
  simp

theorem card_filledSlots_fill {i : Nat} (hi : i < n) (h : occ i = none) (key : κ)
    : (filledSlots n (Function.update occ i (some key))).card = (filledSlots n occ).card + 1 := by
  have hnot : i ∉ filledSlots n occ := by
    rw [mem_filledSlots]
    simp [h]
  rw [← Finset.card_insert_of_notMem hnot]
  congr 1
  ext j
  rw [Finset.mem_insert, mem_filledSlots, mem_filledSlots]
  by_cases hj : j = i
  . subst hj
    simp [hi]
  . rw [Function.update_of_ne hj]
    simp [hj]

theorem card_filledSlots_erase {i : Nat} (hi : i < n) (h : occ i ≠ none)
    : (filledSlots n (Function.update occ i none)).card + 1 = (filledSlots n occ).card := by
  rcases Option.ne_none_iff_exists'.mp h with ⟨key, hkey⟩
  have hfill := card_filledSlots_fill hi (Function.update_self i none occ) key
  rw [Function.update_idem, ← hkey, Function.update_eq_self] at hfill
  exact hfill.symm

theorem probe_ne_none_of_card_lt [DecidableEq κ] {home : κ → Nat} {key : κ} (hhome : home key < n)
    (h : (filledSlots n occ).card < n)
    : probe n home occ key ≠ none := by
  intro hprobe
  rcases scan_cases (visit occ key) hhome with ⟨d, r, hstop, hscan⟩ | ⟨hpassed, hscan⟩
  . unfold probe at hprobe
    rw [hscan] at hprobe
    contradiction
  . have hall : filledSlots n occ = Finset.range n := by
      ext i
      rw [mem_filledSlots, Finset.mem_range]
      constructor
      . intro hi
        exact hi.1
      . intro hi
        refine ⟨hi, ?_⟩
        have := hpassed (dist n (home key) i) (dist_lt (by omega))
        rw [add_dist hhome hi, visit_eq_none_iff] at this
        exact this.1
    rw [hall, Finset.card_range] at h
    omega

end Filled

end LinearProbe
