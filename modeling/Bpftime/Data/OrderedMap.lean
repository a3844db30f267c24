import Mathlib.Data.List.Basic

namespace OrderedMap

variable {κ : Type _} {β : Type _} [LT κ] [DecidableLT κ] [DecidableEq κ]

def insert (k : κ) (v : β) : List (κ × β) → List (κ × β)
  | [] => [(k, v)]
  | (k', v') :: l =>
    if k < k' then (k, v) :: (k', v') :: l
    else if k = k' then (k, v) :: l
    else (k', v') :: insert k v l

def get? (k : κ) : List (κ × β) → Option β
  | [] => none
  | (k', v) :: l => if k = k' then some v else get? k l

def Ascending (l : List (κ × β)) : Prop := l.Pairwise fun a b => a.1 < b.1

def ofList (l : List (κ × β)) : List (κ × β) := l.foldl (fun m e => insert e.1 e.2 m) []

theorem get?_insert (k k' : κ) (v : β) (l : List (κ × β))
    : get? k' (insert k v l) = if k' = k then some v else get? k' l := by
  induction l with
  | nil => rfl
  | cons m l ih =>
    rcases m with ⟨k₀, v₀⟩
    unfold insert
    split
    next => rfl
    next =>
      split
      next heq =>
        subst heq
        simp only [get?]
        split <;> rfl
      next hne =>
        simp only [get?]
        rw [ih]
        split
        next heq =>
          subst heq
          rw [if_neg (Ne.symm hne)]
        next => rfl

variable {k : κ} {l : List (κ × β)}

omit [LT κ] [DecidableLT κ] in
theorem get?_eq_none (hk : k ∉ l.map Prod.fst) : get? k l = none := by
  induction l with
  | nil => rfl
  | cons m l ih =>
    rw [List.map_cons, List.mem_cons, not_or] at hk
    simp only [get?]
    rw [if_neg hk.1]
    exact ih hk.2

theorem mem_insert {v : β} {m : κ × β} (hm : m ∈ insert k v l) : m = (k, v) ∨ m ∈ l := by
  induction l with
  | nil =>
    left
    exact List.mem_singleton.mp hm
  | cons m₀ l ih =>
    rcases m₀ with ⟨k₀, v₀⟩
    unfold insert at hm
    split at hm
    next => exact List.mem_cons.mp hm
    next =>
      split at hm
      next =>
        rcases List.mem_cons.mp hm with hm | hm
        . exact .inl hm
        . exact .inr (List.mem_cons_of_mem _ hm)
      next =>
        rcases List.mem_cons.mp hm with hm | hm
        . exact .inr (hm ▸ List.mem_cons_self)
        . exact (ih hm).imp_right (List.mem_cons_of_mem _)

theorem mem_insert_self (k : κ) (v : β) (l : List (κ × β)) : (k, v) ∈ insert k v l := by
  induction l with
  | nil => exact List.mem_singleton_self _
  | cons m l ih =>
    unfold insert
    split
    next => exact List.mem_cons_self
    next =>
      split
      next => exact List.mem_cons_self
      next => exact List.mem_cons_of_mem _ ih

theorem mem_insert_of_ne {v : β} {m : κ × β} (hm : m ∈ l) (hne : m.1 ≠ k) : m ∈ insert k v l := by
  induction l with
  | nil => exact absurd hm List.not_mem_nil
  | cons m₀ l ih =>
    rcases m₀ with ⟨k₀, v₀⟩
    unfold insert
    split
    next => exact List.mem_cons_of_mem _ hm
    next =>
      split
      next heq =>
        rcases List.mem_cons.mp hm with hm | hm
        . exact absurd (hm ▸ heq.symm) hne
        . exact List.mem_cons_of_mem _ hm
      next =>
        rcases List.mem_cons.mp hm with hm | hm
        . exact hm ▸ List.mem_cons_self
        . exact List.mem_cons_of_mem _ (ih hm)

theorem get?_foldl_insert (hl : (l.map Prod.fst).Nodup) (k : κ) : ∀ m : List (κ × β),
        get? k (l.foldl (fun m e => insert e.1 e.2 m) m) = (get? k l <|> get? k m) := by
  induction l with
  | nil =>
    intro m
    rfl
  | cons e l ih =>
    intro m
    rw [List.map_cons, List.nodup_cons] at hl
    rw [List.foldl_cons, ih hl.2, get?_insert]
    simp only [get?]
    split
    next heq =>
      have hnone : get? k l = none := by
        rw [heq]
        exact get?_eq_none hl.1
      rw [hnone]
      rfl
    next => rfl

theorem get?_ofList (hl : (l.map Prod.fst).Nodup) (k : κ) : get? k (ofList l) = get? k l := by
  unfold ofList
  rw [get?_foldl_insert hl]
  simp [get?]

theorem mem_foldl_insert (hl : (l.map Prod.fst).Nodup) (e : κ × β)
    : ∀ m : List (κ × β), (∀ a ∈ m, a.1 ∉ l.map Prod.fst) →
        (e ∈ l.foldl (fun m e => insert e.1 e.2 m) m ↔ e ∈ l ∨ e ∈ m) := by
  induction l with
  | nil =>
    intro m _
    simp
  | cons a l ih =>
    intro m hm
    rw [List.map_cons, List.nodup_cons] at hl
    have hm' : ∀ b ∈ insert a.1 a.2 m, b.1 ∉ l.map Prod.fst := by
      intro b hb
      rcases mem_insert hb with rfl | hb
      . exact hl.1
      . exact fun hmem => hm b hb (List.mem_cons_of_mem _ hmem)
    rw [List.foldl_cons, ih hl.2 _ hm', List.mem_cons]
    constructor
    . rintro (he | he)
      . exact .inl (.inr he)
      . rcases mem_insert he with he | he
        . exact .inl (.inl he)
        . exact .inr he
    . rintro ((he | he) | he)
      . exact .inr (he ▸ mem_insert_self _ _ _)
      . exact .inl he
      . right
        apply mem_insert_of_ne he
        intro heq
        exact hm e he (heq ▸ List.mem_cons_self)

theorem mem_ofList (hl : (l.map Prod.fst).Nodup) {e : κ × β} : e ∈ ofList l ↔ e ∈ l := by
  unfold ofList
  rw [mem_foldl_insert hl e [] (by simp)]
  simp

variable [LE κ] [Std.IsLinearOrder κ] [Std.LawfulOrderLT κ]

theorem ascending_insert {v : β} (hl : Ascending l) : Ascending (insert k v l) := by
  induction l with
  | nil => exact List.pairwise_singleton _ _
  | cons m l ih =>
    rcases m with ⟨k₀, v₀⟩
    rcases List.pairwise_cons.mp hl with ⟨hhead, htail⟩
    unfold insert
    split
    next hlt =>
      apply List.pairwise_cons.mpr
      refine ⟨?_, hl⟩
      intro m hm
      rcases List.mem_cons.mp hm with hm | hm
      . exact hm ▸ hlt
      . exact Std.lt_trans hlt (hhead m hm)
    next hnlt =>
      split
      next heq =>
        subst heq
        exact List.pairwise_cons.mpr ⟨hhead, htail⟩
      next hne =>
        apply List.pairwise_cons.mpr
        refine ⟨?_, ih htail⟩
        intro m hm
        rcases mem_insert hm with hm | hm
        . rw [hm]
          exact Std.lt_of_le_of_ne (Std.not_lt.mp hnlt) (Ne.symm hne)
        . exact hhead m hm

theorem ascending_ofList (l : List (κ × β)) : Ascending (ofList l) := by
  suffices hfold : ∀ m : List (κ × β), Ascending m →
      Ascending (l.foldl (fun m e => insert e.1 e.2 m) m) from hfold [] List.Pairwise.nil
  induction l with
  | nil =>
    intro m hm
    exact hm
  | cons e l ih =>
    intro m hm
    exact ih _ (ascending_insert hm)

end OrderedMap
