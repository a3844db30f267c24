import Bpftime.BpfMap.LruVarHashMap.Lemmas
import Bpftime.BpfMap.LruVarHashMap.Spec
import Bpftime.Data.Run

/-!
This module contains the proof that the map answers as the list of its pairs in order of recency,
given that a value has a first byte whose address a lookup can return.
-/

namespace Bpftime.LruVarHashMap

variable {p : Params}

namespace LruVarHashMapImpl

def step (m : LruVarHashMapImpl p) : Op p → Option (Output p × LruVarHashMapImpl p)
  | .lookup key => do
    match ← m.elemLookup key with
    | (.ok v, m) => return (.value v, m)
    | (.error e, m) => return (.failure e, m)
  | .update key value flags => do
    match ← m.elemUpdate key value flags with
    | (.ok (), m) => return (.success, m)
    | (.error e, m) => return (.failure e, m)
  | .delete key => do
    match ← m.elemDelete key with
    | (.ok (), m) => return (.success, m)
    | (.error e, m) => return (.failure e, m)

def Holds (m : LruVarHashMapImpl p) (a : EntryPtr) (e : Key p × Value p) : Prop :=
  m.keyOf a = e.1 ∧ m.mapImpl.lookup e.1 = some ⟨e.2, a⟩

structure Rep (m : LruVarHashMapImpl p) (c : Cache p) (ps : List EntryPtr) : Prop where
  listed : m.Listed ps
  holds : List.Forall₂ m.Holds ps c
  perm : m.mapImpl.keys.Perm (c.map Prod.fst)

theorem rep_construct : (construct p).Rep [] [] := ⟨listed_construct, .nil, .refl _⟩

theorem forall₂_middle {α β : Type _} {R : α → β → Prop} {lc rc : List β} {x : β}
    : ∀ {ps : List α}, List.Forall₂ R ps (lc ++ x :: rc) →
        ∃ l a r, ps = l ++ a :: r ∧ List.Forall₂ R l lc ∧ R a x ∧ List.Forall₂ R r rc := by
  induction lc with
  | nil =>
    intro ps h
    cases h with
    | cons hx hr => exact ⟨[], _, _, rfl, .nil, hx, hr⟩
  | cons y lc ih =>
    intro ps h
    cases h with
    | cons hy hrest =>
      rcases ih hrest with ⟨l, a, r, rfl, hl, hx, hr⟩
      exact ⟨_ :: l, a, r, rfl, .cons hy hl, hx, hr⟩

theorem forall₂_imp {α β : Type _} {R S : α → β → Prop} {ps : List α} {c : List β}
    (h : List.Forall₂ R ps c) (himp : ∀ a ∈ ps, ∀ b ∈ c, R a b → S a b)
    : List.Forall₂ S ps c := by
  induction h with
  | nil => exact .nil
  | cons hab _ ih =>
    apply List.Forall₂.cons
    . exact himp _ List.mem_cons_self _ List.mem_cons_self hab
    . apply ih
      intro a ha b hb
      exact himp a (List.mem_cons_of_mem _ ha) b (List.mem_cons_of_mem _ hb)

variable {ps l r : List EntryPtr} {c lc rc : Cache p} {m : LruVarHashMapImpl p} {key : Key p}
variable {v : HashMapValue p}

theorem Rep.keys_nodup (h : m.Rep c ps) : (c.map Prod.fst).Nodup :=
  h.perm.nodup_iff.mp m.mapImpl.keys_nodup

theorem Rep.length_eq (h : m.Rep c ps) : m.mapImpl.keys.length = c.length := by
  rw [h.perm.length_eq, List.length_map]

theorem Rep.notMem_of_lookup (h : m.Rep c ps) (hlookup : m.mapImpl.lookup key = none)
    : key ∉ c.map Prod.fst := by
  rw [AList.lookup_eq_none, AList.mem_keys] at hlookup
  rw [← h.perm.mem_iff]
  exact hlookup

structure Middle (m : LruVarHashMapImpl p) (key : Key p) (v : HashMapValue p) (lc rc : Cache p)
    (l r : List EntryPtr) : Prop where
  left : List.Forall₂ m.Holds l lc
  right : List.Forall₂ m.Holds r rc
  keyOf_eq : m.keyOf v.linkedListEntry = key
  notMem_left : key ∉ lc.map Prod.fst
  notMem_right : key ∉ rc.map Prod.fst

theorem Rep.middle (h : m.Rep c ps) (hlookup : m.mapImpl.lookup key = some v)
    : ∃ lc rc l r, c = lc ++ (key, v.value) :: rc ∧ ps = l ++ v.linkedListEntry :: r
        ∧ Middle m key v lc rc l r := by
  have hmem : key ∈ c.map Prod.fst := by
    rw [← h.perm.mem_iff, ← AList.mem_keys, ← AList.lookup_isSome, hlookup]
    rfl
  rw [List.mem_map] at hmem
  rcases hmem with ⟨e, he, rfl⟩
  rcases List.append_of_mem he with ⟨lc, rc, rfl⟩
  have hnodup := h.keys_nodup
  rcases forall₂_middle h.holds with ⟨l, a, r, rfl, hl, ha, hr⟩
  have heq := ha.2
  rw [hlookup] at heq
  cases heq
  rw [List.map_append, List.map_cons, List.nodup_middle, List.nodup_cons, List.mem_append,
    not_or] at hnodup
  exact ⟨lc, rc, l, r, rfl, rfl, hl, hr, ha.1, hnodup.1.1, hnodup.1.2⟩

theorem SameData.forall₂ {m' : LruVarHashMapImpl p} (h : SameData m m')
    (hholds : List.Forall₂ m.Holds ps c)
    : List.Forall₂ m'.Holds ps c := by
  apply forall₂_imp hholds
  intro a _ e _ he
  unfold Holds
  rw [h.keyOf, h.mapImpl]
  exact he

theorem Middle.moveToHead
    (h : Middle m key v lc rc l r) (hlisted : m.Listed (l ++ v.linkedListEntry :: r))
    (hlookup : m.mapImpl.lookup key = some v)
    (hperm : m.mapImpl.keys.Perm ((lc ++ (key, v.value) :: rc).map Prod.fst))
    : ∃ m', m.moveToHead v.linkedListEntry = some m'
        ∧ m'.Rep ((key, v.value) :: (lc ++ rc)) (v.linkedListEntry :: (l ++ r)) := by
  rcases hlisted.moveToHead with ⟨m', heq, hlisted', hsame⟩
  refine ⟨m', heq, hlisted', ?_, ?_⟩
  . apply hsame.forall₂
    exact .cons ⟨h.keyOf_eq, hlookup⟩ (List.rel_append h.left h.right)
  . rw [hsame.mapImpl]
    apply hperm.trans
    exact List.perm_middle.map Prod.fst

theorem Rep.lookup (h : m.Rep c ps) (hvalue : 0 < p.valueSize) (key : Key p)
    : ∃ m' ps', m.step (.lookup key) = some ((c.lookup key).1, m')
        ∧ m'.Rep (c.lookup key).2 ps' := by
  unfold step elemLookup Cache.lookup
  dsimp only
  cases hlookup : m.mapImpl.lookup key with
  | none =>
    rw [Cache.find_eq_none (h.notMem_of_lookup hlookup)]
    exact ⟨m, ps, rfl, h⟩
  | some v =>
    rcases h.middle hlookup with ⟨lc, rc, l, r, rfl, rfl, hmid⟩
    rcases hmid.moveToHead h.listed hlookup h.perm with ⟨m', heq, hrep⟩
    rw [Cache.find_middle hmid.notMem_left]
    dsimp only
    rw [Cache.remove_middle hmid.notMem_left hmid.notMem_right, heq]
    simp only [Option.bind_eq_bind, Option.bind_some, if_neg (Nat.ne_of_gt hvalue)]
    exact ⟨m', _, rfl, hrep⟩

theorem Rep.lookup_eq_none (h : m.Rep c ps) (hvalue : p.valueSize = 0) {key : Key p}
    (hkey : key ∈ c.map Prod.fst)
    : m.step (.lookup key) = none := by
  unfold step elemLookup
  dsimp only
  cases hlookup : m.mapImpl.lookup key with
  | none => exact absurd hkey (h.notMem_of_lookup hlookup)
  | some v => simp [hvalue]

theorem forall₂_holds {m' : LruVarHashMapImpl p} (h : List.Forall₂ m.Holds ps c)
    (hkey : key ∉ c.map Prod.fst) (hkeyOf : ∀ a ∈ ps, m'.keyOf a = m.keyOf a)
    (hlookup : ∀ k ≠ key, m'.mapImpl.lookup k = m.mapImpl.lookup k)
    : List.Forall₂ m'.Holds ps c := by
  apply forall₂_imp h
  rintro a ha e he ⟨hname, hvalue⟩
  have hne : e.1 ≠ key := by
    rintro rfl
    exact hkey (List.mem_map_of_mem he)
  exact ⟨(hkeyOf a ha).trans hname, (hlookup _ hne).trans hvalue⟩

theorem Middle.setValue (h : Middle m key v lc rc l r) (value : Value p)
    : Middle { m with mapImpl := m.mapImpl.insert key { v with value := value } } key
        { v with value := value } lc rc l r := by
  have hinsert : ∀ k ≠ key, (m.mapImpl.insert key { v with value }).lookup k = _ :=
    fun _ hne => AList.lookup_insert_ne hne
  exact { h with
    left := forall₂_holds h.left h.notMem_left (fun _ _ => rfl) hinsert
    right := forall₂_holds h.right h.notMem_right (fun _ _ => rfl) hinsert }

theorem keys_perm {m : AList fun _ : Key p => HashMapValue p} {ks : List (Key p)} (hks : ks.Nodup)
    (h : ∀ key, key ∈ m ↔ key ∈ ks)
    : m.keys.Perm ks := by
  rw [List.perm_ext_iff_of_nodup m.keys_nodup hks]
  intro key
  rw [← AList.mem_keys]
  exact h key

theorem Rep.mem_iff (h : m.Rep c ps) (key : Key p) : key ∈ m.mapImpl ↔ key ∈ c.map Prod.fst := by
  rw [AList.mem_keys, h.perm.mem_iff]

theorem Rep.update_present (h : m.Rep (lc ++ (key, v.value) :: rc) (l ++ v.linkedListEntry :: r))
    (hmid : Middle m key v lc rc l r) (value : Value p)
    : ∃ m', LruVarHashMapImpl.moveToHead
          { m with mapImpl := m.mapImpl.insert key { v with value := value } } v.linkedListEntry
            = some m'
        ∧ m'.Rep ((key, value) :: (lc ++ rc)) (v.linkedListEntry :: (l ++ r)) := by
  have hnodup := h.keys_nodup
  have hmem := h.mem_iff
  simp only [List.map_append, List.map_cons] at hnodup hmem
  apply (hmid.setValue value).moveToHead
  . exact { h.listed with }
  . exact AList.lookup_insert m.mapImpl
  . simp only [List.map_append, List.map_cons]
    apply keys_perm hnodup
    intro k
    rw [AList.mem_insert, hmem]
    constructor
    . rintro (rfl | hk)
      . simp
      . exact hk
    . exact Or.inr

theorem Middle.holds_erase (h : Middle m key v lc rc l r)
    : List.Forall₂ (Holds { m with mapImpl := m.mapImpl.erase key }) (l ++ r) (lc ++ rc) := by
  apply forall₂_holds (List.rel_append h.left h.right)
  . rw [List.map_append, List.mem_append, not_or]
    exact ⟨h.notMem_left, h.notMem_right⟩
  . exact fun _ _ => rfl
  . exact fun _ hne => AList.lookup_erase_ne hne

theorem Middle.perm_erase (h : Middle m key v lc rc l r)
    (hnodup : ((lc ++ (key, v.value) :: rc).map Prod.fst).Nodup)
    (hmem : ∀ k, k ∈ m.mapImpl ↔ k ∈ (lc ++ (key, v.value) :: rc).map Prod.fst)
    : (m.mapImpl.erase key).keys.Perm ((lc ++ rc).map Prod.fst) := by
  have hl := h.notMem_left
  have hr := h.notMem_right
  simp only [List.map_append, List.map_cons] at hnodup hmem ⊢
  rw [List.nodup_middle, List.nodup_cons] at hnodup
  apply keys_perm hnodup.2
  intro k
  rw [AList.mem_erase, hmem, List.mem_append, List.mem_append, List.mem_cons]
  constructor
  . rintro ⟨hne, hk⟩
    rcases hk with hk | hk | hk
    . exact Or.inl hk
    . contradiction
    . exact Or.inr hk
  . rintro (hk | hk)
    . refine ⟨?_, Or.inl hk⟩
      rintro rfl
      contradiction
    . refine ⟨?_, Or.inr (Or.inr hk)⟩
      rintro rfl
      contradiction

theorem Middle.of_sameData {m' : LruVarHashMapImpl p}
    (h : Middle m key v lc rc l r) (hsame : SameData m m')
    : Middle m' key v lc rc l r := by
  refine ⟨hsame.forall₂ h.left, hsame.forall₂ h.right, ?_, h.notMem_left, h.notMem_right⟩
  rw [hsame.keyOf]
  exact h.keyOf_eq

theorem Rep.delete (h : m.Rep c ps) (key : Key p)
    : ∃ m' ps', m.step (.delete key) = some ((c.delete key).1, m')
        ∧ m'.Rep (c.delete key).2 ps' := by
  unfold step elemDelete Cache.delete
  dsimp only
  cases hlookup : m.mapImpl.lookup key with
  | none =>
    rw [Cache.find_eq_none (h.notMem_of_lookup hlookup)]
    exact ⟨m, ps, rfl, h⟩
  | some v =>
    rcases h.middle hlookup with ⟨lc, rc, l, r, rfl, rfl, hmid⟩
    rcases h.listed.evictEntry with ⟨m', heq, hlisted, hsame⟩
    rw [Cache.find_middle hmid.notMem_left]
    dsimp only
    rw [Cache.remove_middle hmid.notMem_left hmid.notMem_right, heq]
    refine ⟨_, l ++ r, rfl, ?_, ?_, ?_⟩
    . exact { hlisted with }
    . exact (hmid.of_sameData hsame).holds_erase
    . apply (hmid.of_sameData hsame).perm_erase h.keys_nodup
      rw [hsame.mapImpl]
      exact h.mem_iff

theorem Rep.evictLeastRecentlyUsed (h : m.Rep c ps) (hc : c ≠ [])
    : ∃ m' ps', m.evictLeastRecentlyUsed = some m' ∧ m'.Rep c.dropLast ps' := by
  rcases List.eq_nil_or_concat c with rfl | ⟨c, e, rfl⟩
  . contradiction
  . rw [List.concat_eq_append] at *
    rcases forall₂_middle h.holds with ⟨l, a, r, rfl, hl, ha, hr⟩
    cases hr
    have hnodup := h.keys_nodup
    have hmid : Middle m e.1 ⟨e.2, a⟩ c [] l [] := by
      refine ⟨hl, .nil, ha.1, ?_, by simp⟩
      rw [List.map_append, List.map_cons, List.map_nil, List.nodup_middle, List.append_nil,
        List.nodup_cons] at hnodup
      exact hnodup.1
    have htail : m.lruLinkListTail = some a := by
      rw [h.listed.tail_eq]
      exact List.getLast?_concat
    have hlisted : Listed { m with mapImpl := m.mapImpl.erase e.1 } (l ++ [a]) :=
      { h.listed with }
    rcases hlisted.evictEntry with ⟨m', heq, hlisted', hsame⟩
    refine ⟨m', l ++ [], ?_, hlisted', ?_, ?_⟩
    . have hkey : (m.entries a).key = e.1 := ha.1
      unfold LruVarHashMapImpl.evictLeastRecentlyUsed
      rw [Option.bind_eq_bind, Option.bind_eq_some_iff]
      refine ⟨a, htail, ?_⟩
      dsimp only
      rw [hkey]
      exact heq
    . apply hsame.forall₂
      have := hmid.holds_erase
      rw [List.append_nil c] at this
      rw [List.dropLast_concat]
      exact this
    . rw [hsame.mapImpl, List.dropLast_concat]
      have := hmid.perm_erase hnodup h.mem_iff
      rw [List.append_nil c] at this
      exact this

theorem Rep.insertNew (h : m.Rep c ps) (hkey : key ∉ c.map Prod.fst) (value : Value p)
    : ∃ m' entry, m.insertNewEntry key = (m', entry)
        ∧ Rep { m' with mapImpl := m'.mapImpl.insert key ⟨value, entry⟩ } ((key, value) :: c)
            (m.constructed :: ps) := by
  rcases h.listed.insertNewEntry key with ⟨m', heq, hlisted, hmap, hkeyOf⟩
  refine ⟨m', m.constructed, heq, ?_⟩
  refine ⟨{ hlisted with }, ?_, ?_⟩
  . apply List.Forall₂.cons
    . refine ⟨?_, AList.lookup_insert m'.mapImpl⟩
      show m'.keyOf m.constructed = key
      rw [hkeyOf, Function.update_self]
    . apply forall₂_holds h.holds hkey
      . intro a ha
        show m'.keyOf a = m.keyOf a
        rw [hkeyOf, Function.update_of_ne (Nat.ne_of_lt (h.listed.lt a ha))]
      . intro k hne
        show (m'.mapImpl.insert key _).lookup k = _
        rw [AList.lookup_insert_ne hne, hmap]
  . apply keys_perm
    . rw [List.map_cons, List.nodup_cons]
      exact ⟨hkey, h.keys_nodup⟩
    . intro k
      rw [AList.mem_insert, hmap, h.mem_iff, List.map_cons, List.mem_cons]

theorem Rep.ne_nil_of_full (h : m.Rep c ps) (hfull : m.mapImpl.keys.length = p.maxEntries)
    : c ≠ [] := by
  rintro rfl
  have := p.maxEntries_pos
  rw [h.length_eq] at hfull
  simp at hfull
  omega

theorem Rep.makeRoom (h : m.Rep c ps) : ∃ m' ps', m.makeRoom = some m'
        ∧ m'.Rep (if c.length = p.maxEntries then c.dropLast else c) ps' := by
  unfold LruVarHashMapImpl.makeRoom
  rw [← h.length_eq]
  by_cases hfull : m.mapImpl.keys.length = p.maxEntries
  . rw [if_pos hfull, if_pos hfull]
    exact h.evictLeastRecentlyUsed (h.ne_nil_of_full hfull)
  . rw [if_neg hfull, if_neg hfull]
    exact ⟨m, ps, rfl, h⟩

theorem notMem_makeRoom (hkey : key ∉ c.map Prod.fst)
    : key ∉ (if c.length = p.maxEntries then c.dropLast else c).map Prod.fst := by
  split
  . intro hmem
    apply hkey
    rw [List.mem_map] at hmem ⊢
    rcases hmem with ⟨e, he, rfl⟩
    exact ⟨e, List.dropLast_subset c he, rfl⟩
  . exact hkey

theorem isGoodUpdateFlag_eq_false_iff {flags : UInt64} : (!isGoodUpdateFlag flags) = true
        ↔
      flags ≠ BPF_ANY ∧ flags ≠ BPF_EXIST ∧ flags ≠ BPF_NOEXIST := by
  unfold isGoodUpdateFlag
  simp [and_assoc]

theorem Rep.update (h : m.Rep c ps) (key : Key p) (value : Value p) (flags : UInt64)
    : ∃ m' ps', m.step (.update key value flags) = some ((c.update key value flags).1, m')
        ∧ m'.Rep (c.update key value flags).2 ps' := by
  unfold step elemUpdate Cache.update
  dsimp only
  by_cases hflags : flags ≠ BPF_ANY ∧ flags ≠ BPF_EXIST ∧ flags ≠ BPF_NOEXIST
  . rw [if_pos hflags, if_pos (isGoodUpdateFlag_eq_false_iff.mpr hflags)]
    exact ⟨m, ps, rfl, h⟩
  . rw [if_neg hflags, if_neg (mt isGoodUpdateFlag_eq_false_iff.mp hflags)]
    cases hlookup : m.mapImpl.lookup key with
    | some v =>
      rcases h.middle hlookup with ⟨lc, rc, l, r, rfl, rfl, hmid⟩
      rw [Cache.find_middle hmid.notMem_left]
      dsimp only
      by_cases hnoexist : flags = BPF_NOEXIST
      . rw [if_pos hnoexist, if_pos hnoexist]
        exact ⟨m, _, rfl, h⟩
      . rcases h.update_present hmid value with ⟨m', heq, hrep⟩
        rw [if_neg hnoexist, if_neg hnoexist, heq]
        rw [Cache.remove_middle hmid.notMem_left hmid.notMem_right]
        exact ⟨m', _, rfl, hrep⟩
    | none =>
      have hkey := h.notMem_of_lookup hlookup
      rw [Cache.find_eq_none hkey]
      by_cases hexist : flags = BPF_EXIST
      . rw [if_pos hexist, if_pos hexist]
        exact ⟨m, ps, rfl, h⟩
      . rcases h.makeRoom with ⟨m₁, ps₁, heq, hrep₁⟩
        rcases hrep₁.insertNew (notMem_makeRoom hkey) value with ⟨m₂, entry, hins, hrep₂⟩
        rw [if_neg hexist, if_neg hexist, heq]
        simp only [Option.bind_eq_bind, Option.bind_some]
        rw [hins]
        by_cases hfull : c.length = p.maxEntries
        . rw [if_pos hfull] at hrep₂ ⊢
          exact ⟨_, _, rfl, hrep₂⟩
        . rw [if_neg hfull] at hrep₂ ⊢
          exact ⟨_, _, rfl, hrep₂⟩

theorem Rep.step (h : m.Rep c ps) (hvalue : 0 < p.valueSize) (op : Op p)
    : ∃ m' ps', m.step op = some ((c.step op).1, m') ∧ m'.Rep (c.step op).2 ps' := by
  cases op with
  | lookup key => exact h.lookup hvalue key
  | update key value flags => exact h.update key value flags
  | delete key => exact h.delete key

theorem outputs_eq_cache (hvalue : 0 < p.valueSize) (ops : List (Op p))
    : Run.outputs step (construct p) ops = some (Run.outputsTotal Cache.step [] ops) := by
  apply Run.outputs_eq_of_simulation (R := fun m c => ∃ ps, Rep m c ps)
  . rintro m c op ⟨ps, h⟩
    rcases h.step hvalue op with ⟨m', ps', heq, h'⟩
    exact ⟨m', heq, ps', h'⟩
  . exact ⟨[], rep_construct⟩

theorem outputs_eq_cache_iff (p : Params)
    : (∀ ops, Run.outputs step (construct p) ops = some (Run.outputsTotal Cache.step [] ops))
        ↔ 0 < p.valueSize := by
  constructor
  . intro h
    by_contra hzero
    -- a lookup of a key that is stored
    let key : Key p := .replicate _ 0
    let value : Value p := .replicate _ 0
    rcases rep_construct.update key value BPF_ANY with ⟨m', ps', hstep, hrep⟩
    have hmem : key ∈ (Cache.update [] key value BPF_ANY).2.map Prod.fst := by
      unfold Cache.update
      rw [if_neg (by simp), Cache.find_eq_none List.not_mem_nil]
      dsimp only
      rw [if_neg (by decide)]
      split <;> exact List.mem_cons_self
    have hnone := hrep.lookup_eq_none (by omega) hmem
    have hops := h [.update key value BPF_ANY, .lookup key]
    simp [Run.outputs, hstep, hnone] at hops
  . exact fun hvalue => outputs_eq_cache hvalue

def noValue : Params := ⟨1, 0, 1, by decide⟩

theorem outputs_noValue
    : Run.outputs step (construct noValue) [.update #v[1] #v[] BPF_ANY, .lookup #v[1]] = none
        ∧ Run.outputsTotal Cache.step ([] : Cache noValue)
            [.update #v[1] #v[] BPF_ANY, .lookup #v[1]] = [.success, .value #v[]] :=
  ⟨rfl, rfl⟩

end LruVarHashMapImpl

end Bpftime.LruVarHashMap
