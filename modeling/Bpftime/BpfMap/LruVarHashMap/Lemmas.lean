import Bpftime.BpfMap.LruVarHashMap.Impl
import Bpftime.Data.DoublyLinked

namespace Bpftime.LruVarHashMap

open DoublyLinked

variable {p : Params}

namespace LruVarHashMapImpl

def next (m : LruVarHashMapImpl p) (a : EntryPtr) : Option EntryPtr := (m.entries a).nextEntry

def previous (m : LruVarHashMapImpl p) (a : EntryPtr) : Option EntryPtr := (m.entries a).previousEntry

def keyOf (m : LruVarHashMapImpl p) (a : EntryPtr) : Key p := (m.entries a).key

@[simp]
theorem next_setNext (m : LruVarHashMapImpl p) (a : EntryPtr) (x : Option EntryPtr)
    : (m.setNext a x).next = Function.update m.next a x := by
  funext b
  by_cases hb : b = a <;> simp [next, setNext, hb]

@[simp]
theorem previous_setNext (m : LruVarHashMapImpl p) (a : EntryPtr) (x : Option EntryPtr)
    : (m.setNext a x).previous = m.previous := by
  funext b
  by_cases hb : b = a <;> simp [previous, setNext, hb]

@[simp]
theorem next_setPrevious (m : LruVarHashMapImpl p) (a : EntryPtr) (x : Option EntryPtr)
    : (m.setPrevious a x).next = m.next := by
  funext b
  by_cases hb : b = a <;> simp [next, setPrevious, hb]

@[simp]
theorem previous_setPrevious (m : LruVarHashMapImpl p) (a : EntryPtr) (x : Option EntryPtr)
    : (m.setPrevious a x).previous = Function.update m.previous a x := by
  funext b
  by_cases hb : b = a <;> simp [previous, setPrevious, hb]

@[simp]
theorem keyOf_setNext (m : LruVarHashMapImpl p) (a : EntryPtr) (x : Option EntryPtr)
    : (m.setNext a x).keyOf = m.keyOf := by
  funext b
  by_cases hb : b = a <;> simp [keyOf, setNext, hb]

@[simp]
theorem keyOf_setPrevious (m : LruVarHashMapImpl p) (a : EntryPtr) (x : Option EntryPtr)
    : (m.setPrevious a x).keyOf = m.keyOf := by
  funext b
  by_cases hb : b = a <;> simp [keyOf, setPrevious, hb]

structure Listed (m : LruVarHashMapImpl p) (ps : List EntryPtr) : Prop where
  seg : Seg m.next m.previous none ps none
  head_eq : m.lruLinkListHead = ps.head?
  tail_eq : m.lruLinkListTail = ps.getLast?
  nodup : ps.Nodup
  lt : ∀ a ∈ ps, a < m.constructed

structure SameData (m m' : LruVarHashMapImpl p) : Prop where
  mapImpl : m'.mapImpl = m.mapImpl
  keyOf : m'.keyOf = m.keyOf
  constructed : m'.constructed = m.constructed

theorem listed_construct : (construct p).Listed [] := by
  constructor
  . trivial
  . rfl
  . rfl
  . exact List.nodup_nil
  . simp

variable {m : LruVarHashMapImpl p} {l r : List EntryPtr} {a : EntryPtr}

theorem Listed.nodup_middle (h : m.Listed (l ++ a :: r)) : (l ++ r).Nodup ∧ a ∉ l ++ r := by
  have hnodup := h.nodup
  rw [List.nodup_middle, List.nodup_cons] at hnodup
  exact ⟨hnodup.2, hnodup.1⟩

theorem Listed.lt_middle (h : m.Listed (l ++ a :: r)) : ∀ b ∈ l ++ r, b < m.constructed := by
  intro b hb
  apply h.lt
  rw [List.mem_append, List.mem_cons]
  rw [List.mem_append] at hb
  rcases hb with hb | hb
  . exact Or.inl hb
  . exact Or.inr (Or.inr hb)

theorem Listed.eq_head_iff (h : m.Listed (l ++ a :: r)) : some a = m.lruLinkListHead ↔ l = [] := by
  rw [h.head_eq]
  cases l with
  | nil => simp
  | cons b l =>
    have hnot := h.nodup_middle.2
    simp only [List.cons_append, List.head?_cons, Option.some.injEq, reduceCtorEq, iff_false]
    rintro rfl
    simp at hnot

theorem Listed.eq_tail_iff (h : m.Listed (l ++ a :: r)) : some a = m.lruLinkListTail ↔ r = [] := by
  rw [h.tail_eq]
  have hnot := h.nodup_middle.2
  rcases List.eq_nil_or_concat r with rfl | ⟨r, b, rfl⟩
  . simp
  . rw [List.concat_eq_append] at *
    have hlast : (l ++ a :: (r ++ [b])).getLast? = some b := by
      rw [← List.cons_append, ← List.append_assoc, List.getLast?_concat]
    rw [hlast]
    simp only [Option.some.injEq, List.append_eq_nil_iff, List.cons_ne_self, and_false, iff_false]
    rintro rfl
    simp at hnot

theorem Listed.unlinked {m' : LruVarHashMapImpl p}
    (h : m.Listed (l ++ a :: r)) (hnext : m'.next = setAfter m.next l r.head?)
    (hprevious : m'.previous = setBefore m.previous r l.getLast?)
    (hhead : m'.lruLinkListHead = (l ++ r).head?) (htail : m'.lruLinkListTail = (l ++ r).getLast?)
    (hconstructed : m'.constructed = m.constructed)
    : m'.Listed (l ++ r) := by
  constructor
  . rw [hnext, hprevious]
    exact h.seg.unlink h.nodup
  . exact hhead
  . exact htail
  . exact h.nodup_middle.1
  . rw [hconstructed]
    exact h.lt_middle

def detach (m : LruVarHashMapImpl p) (prev : EntryPtr) (next : Option EntryPtr) : LruVarHashMapImpl p :=
  match next with
  | some next => (m.setNext prev (some next)).setPrevious next (some prev)
  | none => { m.setNext prev none with lruLinkListTail := some prev }

theorem Listed.detach {x : EntryPtr} (h : m.Listed (l ++ [x] ++ a :: r))
    : (m.detach x r.head?).Listed (l ++ [x] ++ r) ∧ SameData m (m.detach x r.head?) := by
  have hhead : m.lruLinkListHead = (l ++ [x] ++ r).head? := by
    rw [h.head_eq]
    cases l with
    | nil => rfl
    | cons b l => rfl
  cases r with
  | nil =>
    refine ⟨?_, rfl, keyOf_setNext m x none, rfl⟩
    apply h.unlinked
    . unfold setAfter
      rw [List.getLast?_concat]
      exact next_setNext m x none
    . exact previous_setNext m x none
    . exact hhead
    . rw [List.append_nil, List.getLast?_concat]
      rfl
    . rfl
  | cons y r =>
    refine ⟨?_, rfl, ?_, rfl⟩
    . apply h.unlinked
      . unfold setAfter
        rw [List.getLast?_concat]
        exact (next_setPrevious _ y (some x)).trans (next_setNext m x (some y))
      . rw [List.getLast?_concat]
        show ((m.setNext x (some y)).setPrevious y (some x)).previous = _
        rw [previous_setPrevious, previous_setNext]
        rfl
      . exact hhead
      . show m.lruLinkListTail = _
        rw [h.tail_eq, List.getLast?_append_cons, List.getLast?_append_cons, List.getLast?_cons_cons]
      . rfl
    . exact (keyOf_setPrevious _ y (some x)).trans (keyOf_setNext m x (some y))

theorem evictEntry_eq {x : EntryPtr} (h : m.Listed (l ++ [x] ++ a :: r))
    : m.evictEntry a = some (m.detach x r.head?) := by
  rcases h.seg.links with ⟨hprev, hnext⟩
  have hisHead := h.eq_head_iff
  have hisTail := h.eq_tail_iff
  rw [List.getLast?_concat] at hprev
  unfold LruVarHashMapImpl.previous at hprev
  unfold LruVarHashMapImpl.next at hnext
  unfold LruVarHashMapImpl.evictEntry
  cases r with
  | nil =>
    rw [if_pos (hisTail.mpr rfl), if_neg (by simp [hisHead]), hprev]
    rfl
  | cons y r =>
    rw [List.head?_cons] at hnext
    rw [if_neg (by simp [hisTail]), if_neg (by simp [hisHead]), hprev, hnext]
    rfl

theorem Listed.evictEntry (h : m.Listed (l ++ a :: r))
    : ∃ m', m.evictEntry a = some m' ∧ m'.Listed (l ++ r) ∧ SameData m m' := by
  rcases List.eq_nil_or_concat l with rfl | ⟨l, x, rfl⟩
  . rcases h.seg.links with ⟨-, hnext⟩
    unfold LruVarHashMapImpl.next at hnext
    have hisTail := h.eq_tail_iff
    unfold LruVarHashMapImpl.evictEntry
    cases r with
    | nil =>
      rw [if_pos (hisTail.mpr rfl), if_pos (h.eq_head_iff.mpr rfl)]
      refine ⟨_, rfl, ?_, rfl, rfl, rfl⟩
      exact h.unlinked rfl rfl rfl rfl rfl
    | cons y r =>
      rw [List.head?_cons] at hnext
      rw [if_neg (by simp [hisTail]), if_pos (h.eq_head_iff.mpr rfl), hnext]
      refine ⟨_, rfl, ?_, rfl, keyOf_setPrevious m y none, rfl⟩
      apply h.unlinked
      . exact next_setPrevious m y none
      . exact previous_setPrevious m y none
      . show ((m.setPrevious y none).entries a).nextEntry = some y
        rw [← hnext]
        exact congrFun (next_setPrevious m y none) a
      . show m.lruLinkListTail = _
        rw [h.tail_eq]
        exact List.getLast?_cons_cons
      . rfl
  . -- an entry with one before it leaves the list as in `move_to_head`
    rw [List.concat_eq_append] at *
    exact ⟨_, evictEntry_eq h, h.detach⟩

theorem Listed.pushed {m' : LruVarHashMapImpl p} {ps : List EntryPtr} (h : m.Listed ps)
    (ha : a ∉ ps) (hnext : m'.next = Function.update m.next a ps.head?)
    (hprevious : m'.previous = setBefore (Function.update m.previous a none) ps (some a))
    (hhead : m'.lruLinkListHead = some a) (htail : m'.lruLinkListTail = (a :: ps).getLast?)
    (hconstructed : m.constructed ≤ m'.constructed) (hlt : a < m'.constructed)
    : m'.Listed (a :: ps) := by
  constructor
  . rw [hnext, hprevious]
    exact h.seg.push h.nodup ha
  . exact hhead
  . exact htail
  . exact List.nodup_cons.mpr ⟨ha, h.nodup⟩
  . intro b hb
    rcases List.mem_cons.mp hb with rfl | hb
    . exact hlt
    . exact Nat.lt_of_lt_of_le (h.lt b hb) hconstructed

theorem moveToHead_eq {x : EntryPtr} {next : Option EntryPtr}
    (hne : some a ≠ m.lruLinkListHead) (hprev : (m.entries a).previousEntry = some x)
    (hnext : (m.entries a).nextEntry = next) {head : EntryPtr}
    (hhead : (m.detach x next).lruLinkListHead = some head)
    : m.moveToHead a
        =
      some { (((m.detach x next).setNext a (some head)).setPrevious a none).setPrevious head (some a) with
        lruLinkListHead := some a } := by
  unfold LruVarHashMapImpl.moveToHead
  rw [if_neg hne, hprev, hnext]
  cases next with
  | none | some y =>
    have hhead' : m.lruLinkListHead = some head := hhead
    simp only [Option.bind_eq_bind, Option.bind_some]
    simp only [setNext, setPrevious, hhead', Option.bind_some]
    rfl

theorem Listed.moveToHead (h : m.Listed (l ++ a :: r))
    : ∃ m', m.moveToHead a = some m' ∧ m'.Listed (a :: (l ++ r)) ∧ SameData m m' := by
  rcases h.seg.links with ⟨hprev, hnext⟩
  rcases List.eq_nil_or_concat l with rfl | ⟨l, x, rfl⟩
  . refine ⟨m, ?_, h, rfl, rfl, rfl⟩
    unfold LruVarHashMapImpl.moveToHead
    rw [if_pos (h.eq_head_iff.mpr rfl)]
  . rw [List.concat_eq_append] at *
    rw [List.getLast?_concat] at hprev
    rcases h.detach with ⟨hdetached, hsame⟩
    generalize hm₁ : m.detach x r.head? = m₁ at hdetached hsame
    have hne : some a ≠ m.lruLinkListHead := by
      rw [ne_eq, h.eq_head_iff]
      simp
    have hnonempty : l ++ [x] ++ r ≠ [] := by simp
    generalize hps : l ++ [x] ++ r = ps at hdetached hnonempty
    have ha : a ∉ ps := by
      rw [← hps]
      exact h.nodup_middle.2
    cases ps with
    | nil => contradiction
    | cons b ps =>
      have hhead : m₁.lruLinkListHead = some b := hdetached.head_eq
      refine ⟨_, moveToHead_eq hne hprev hnext (by rw [hm₁, hhead]), ?_, ?_⟩
      . rw [hm₁]
        apply hdetached.pushed ha
        . show (((m₁.setNext a (some b)).setPrevious a none).setPrevious b (some a)).next = _
          rw [next_setPrevious, next_setPrevious, next_setNext]
          rfl
        . show (((m₁.setNext a (some b)).setPrevious a none).setPrevious b (some a)).previous = _
          rw [previous_setPrevious, previous_setPrevious, previous_setNext]
          rfl
        . rfl
        . show m₁.lruLinkListTail = _
          rw [hdetached.tail_eq, List.getLast?_cons_cons]
        . exact Nat.le_refl _
        . show a < m₁.constructed
          rw [hsame.constructed]
          apply h.lt
          simp
      . rw [hm₁]
        refine ⟨hsame.mapImpl, ?_, hsame.constructed⟩
        show (((m₁.setNext a (some b)).setPrevious a none).setPrevious b (some a)).keyOf = _
        rw [keyOf_setPrevious, keyOf_setPrevious, keyOf_setNext]
        exact hsame.keyOf

def allocate (m : LruVarHashMapImpl p) (key : Key p) : LruVarHashMapImpl p :=
  { m with
    entries := Function.update m.entries m.constructed ⟨key, none, none⟩
    constructed := m.constructed + 1 }

theorem next_allocate (m : LruVarHashMapImpl p) (key : Key p)
    : (m.allocate key).next = Function.update m.next m.constructed none := by
  funext b
  by_cases hb : b = m.constructed <;> simp [next, allocate, hb]

theorem previous_allocate (m : LruVarHashMapImpl p) (key : Key p)
    : (m.allocate key).previous = Function.update m.previous m.constructed none := by
  funext b
  by_cases hb : b = m.constructed <;> simp [previous, allocate, hb]

theorem keyOf_allocate (m : LruVarHashMapImpl p) (key : Key p)
    : (m.allocate key).keyOf = Function.update m.keyOf m.constructed key := by
  funext b
  by_cases hb : b = m.constructed <;> simp [keyOf, allocate, hb]

theorem Listed.insertNewEntry {ps : List EntryPtr} (h : m.Listed ps) (key : Key p)
    : ∃ m', m.insertNewEntry key = (m', m.constructed)
        ∧ m'.Listed (m.constructed :: ps)
        ∧ m'.mapImpl = m.mapImpl
        ∧ m'.keyOf = Function.update m.keyOf m.constructed key := by
  have hfresh : m.constructed ∉ ps := by
    intro hmem
    exact absurd (h.lt _ hmem) (Nat.lt_irrefl _)
  have hhead := h.head_eq
  unfold LruVarHashMapImpl.insertNewEntry
  cases ps with
  | nil =>
    rw [List.head?_nil] at hhead
    dsimp only
    rw [hhead]
    refine ⟨_, rfl, ?_, rfl, keyOf_allocate m key⟩
    apply h.pushed hfresh
    . exact next_allocate m key
    . exact previous_allocate m key
    . rfl
    . rfl
    . exact Nat.le_succ _
    . exact Nat.lt_succ_self _
  | cons b ps =>
    rw [List.head?_cons] at hhead
    dsimp only
    rw [hhead]
    refine ⟨_, rfl, ?_, rfl, ?_⟩
    . apply h.pushed hfresh
      . show (((m.allocate key).setNext m.constructed (some b)).setPrevious b (some m.constructed)).next = _
        rw [next_setPrevious, next_setNext, next_allocate, Function.update_idem]
        rfl
      . show (((m.allocate key).setNext m.constructed (some b)).setPrevious b
          (some m.constructed)).previous = _
        rw [previous_setPrevious, previous_setNext, previous_allocate]
        rfl
      . rfl
      . show m.lruLinkListTail = _
        rw [h.tail_eq, List.getLast?_cons_cons]
      . exact Nat.le_succ _
      . exact Nat.lt_succ_self _
    . show (((m.allocate key).setNext m.constructed (some b)).setPrevious b (some m.constructed)).keyOf = _
      rw [keyOf_setPrevious, keyOf_setNext, keyOf_allocate]

end LruVarHashMapImpl

end Bpftime.LruVarHashMap
