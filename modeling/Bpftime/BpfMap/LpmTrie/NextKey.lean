import Bpftime.BpfMap.LpmTrie.Errors

namespace Bpftime.LpmTrie

open BitPrefix

variable {p : Params}

section walk

variable {pre : List Bool} {t : NodePtr} {n : LpmTrieNode}

variable {child0 child1 : NodePtr}

theorem nextKeyWalk_live (h : n.isIntermediate = false)
    : nextKeyWalk (.node n child0 child1) = some n := by
  unfold nextKeyWalk
  rw [h]
  rfl

theorem nextKeyWalk_right (h : n.isIntermediate = true)
    : nextKeyWalk (.node n .null child1) = nextKeyWalk child1 := by
  rw [nextKeyWalk.eq_def]
  simp [h]

theorem nextKeyWalk_left (h : n.isIntermediate = true) (hne : child0 ≠ .null)
    : nextKeyWalk (.node n child0 child1) = nextKeyWalk child0 := by
  rw [nextKeyWalk.eq_def]
  cases child0 with
  | null => exact absurd rfl hne
  | node n' child00 child01 => simp [h]

theorem nodeAt_ne_none_of_ne_null (hwf : WellFormed p pre t) (h : t ≠ .null)
    : ∃ q, pre <+: q ∧ nodeAt p q t ≠ none := by
  cases t with
  | null => exact absurd rfl h
  | node n child0 child1 =>
    refine ⟨n.bits p, hwf.2.1, ?_⟩
    rw [nodeAt_self]
    simp

structure Leftmost (p : Params) (t : NodePtr) (n : LpmTrieNode) : Prop where
  live : liveAt p t (n.bits p) = some n
  first : ∀ a, nodeAt p a t ≠ none → ¬ LeftOf a (n.bits p)

theorem Leftmost.root (h : n.isIntermediate = false) : Leftmost p (.node n child0 child1) n := by
  constructor
  . rw [liveAt_root, h]
    rfl
  . intro a ha
    apply not_leftOf_of_isPrefix_right
    by_contra hno
    exact ha (nodeAt_eq_none_of_not_isPrefix hno)

theorem Leftmost.child {m : LpmTrieNode} {b : Bool}
    (hwf : WellFormed p pre (.node m child0 child1)) (hnull : b = true → child0 = .null)
    (h : Leftmost p (childAt b child0 child1) n)
    : Leftmost p (.node m child0 child1) n := by
  have hbelow := (hwf.childAt b).prefix_of_liveAt h.live
  have hle : m.bits p <+: n.bits p := (List.prefix_append _ _).trans hbelow
  constructor
  . rw [← h.live]
    unfold liveAt
    rw [nodeAt_childAt hbelow]
  . intro a ha
    rcases prefix_cases p m a with heq | ⟨c, hc⟩ | hno
    . rw [heq]
      exact not_leftOf_of_isPrefix_left hle
    . rw [nodeAt_childAt hc] at ha
      cases b with
      | false =>
        cases c with
        | false => exact h.first a ha
        | true =>
          have hright : LeftOf (n.bits p) a := ⟨m.bits p, hbelow, hc⟩
          exact hright.asymm
      | true =>
        cases c with
        | false =>
          rw [childAt, hnull rfl] at ha
          exact absurd rfl ha
        | true => exact h.first a ha
    . exact absurd (nodeAt_eq_none_of_not_isPrefix hno) ha

theorem leftmost_of_nextKeyWalk (hwf : WellFormed p pre t) (h : nextKeyWalk t = some n)
    : Leftmost p t n := by
  induction t generalizing pre with
  | null => cases h
  | node m child0 child1 ih0 ih1 =>
    cases hint : m.isIntermediate with
    | false =>
      rw [nextKeyWalk_live hint] at h
      cases h
      exact .root hint
    | true =>
      by_cases hnull : child0 = .null
      . rw [hnull, nextKeyWalk_right hint] at h
        exact .child (b := true) hwf (fun _ => hnull) (ih1 hwf.2.2.2 h)
      . rw [nextKeyWalk_left hint hnull] at h
        exact .child (b := false) hwf (by simp) (ih0 hwf.2.2.1 h)

theorem leftOf_of_nextKeyWalk (hwf : WellFormed p pre t) (h : nextKeyWalk t = none)
    {q : List Bool} (hq : liveAt p t q ≠ none)
    : ∃ a, nodeAt p a t ≠ none ∧ LeftOf a q := by
  induction t generalizing pre with
  | null => simp [liveAt, nodeAt] at hq
  | node m child0 child1 ih0 ih1 =>
    cases hint : m.isIntermediate with
    | false =>
      rw [nextKeyWalk_live hint] at h
      cases h
    | true =>
      rcases prefix_cases p m q with heq | ⟨b, hb⟩ | hno
      . rw [heq, liveAt_root, hint] at hq
        simp at hq
      . unfold liveAt at hq
        rw [nodeAt_childAt hb] at hq
        have hbelow {b : Bool} {a : List Bool} (ha : nodeAt p a (childAt b child0 child1) ≠ none)
            : nodeAt p a (.node m child0 child1) ≠ none := by
          rw [nodeAt_childAt ((hwf.childAt b).prefix_of_nodeAt ha)]
          exact ha
        cases b with
        | false =>
          have hnull : child0 ≠ .null := by
            rintro rfl
            simp [childAt, nodeAt] at hq
          rw [nextKeyWalk_left hint hnull] at h
          rcases ih0 hwf.2.2.1 h hq with ⟨a, ha, hleft⟩
          exact ⟨a, hbelow (b := false) ha, hleft⟩
        | true =>
          by_cases hnull : child0 = .null
          . rw [hnull, nextKeyWalk_right hint] at h
            rcases ih1 hwf.2.2.2 h hq with ⟨a, ha, hleft⟩
            exact ⟨a, hbelow (b := true) ha, hleft⟩
          . rcases nodeAt_ne_none_of_ne_null hwf.2.2.1 hnull with ⟨a, hpre, ha⟩
            exact ⟨a, hbelow (b := false) ha, m.bits p, hpre, hb⟩
      . rw [liveAt_eq_none_of_nodeAt (nodeAt_eq_none_of_not_isPrefix hno)] at hq
        exact absurd rfl hq

end walk

theorem bits_copied {n : LpmTrieNode}
    : BpfLpmTrieKey.bits (p := p) ⟨n.prefixlen, .ofFn fun i => n.data.getD i 0⟩ = n.bits p := by
  rw [BpfLpmTrieKey.bits_eq]
  apply List.map_congr_left
  intro i _
  simp only [extractBit]
  split
  . rfl
  . have hlt : i / 8 < p.dataSize := by omega
    simp [List.getD_eq_getElem?_getD, hlt]

namespace History

def FirstKeyMeets (p : Params) (h : History) : Prop :=
  (h.storedSet.Nonempty →
      ∃ key, mapGetNextKey p h.impl false true = .ok key ∧ key.bits ∈ h.storedSet)
    ∧ (mapGetNextKey p h.impl false true = .error .ENOENT ↔ h.storedSet = ∅)

/-- No prefix ever stored lies left of some stored one. -/
def HasLeftmost (h : History) : Prop :=
  ∃ q ∈ h.storedSet, ∀ a, h.ever a = true → ¬ LeftOf a q

theorem mapGetNextKey_first (m : LpmTrieMapImpl) : mapGetNextKey p m false true
        =
      match nextKeyWalk m.root with
      | none => .error .ENOENT
      | some n => .ok ⟨n.prefixlen, .ofFn fun i => n.data.getD i 0⟩ := by
  unfold mapGetNextKey
  cases m.root with
  | null => rfl
  | node n child0 child1 => rfl

theorem Tallied.firstKeyMeets_iff {h : History} (ht : Tallied p h)
    : FirstKeyMeets p h ↔ h.storedSet = ∅ ∨ h.HasLeftmost := by
  unfold FirstKeyMeets
  rw [mapGetNextKey_first]
  cases hwalk : nextKeyWalk h.impl.root with
  | none =>
    have hnone : ¬ h.HasLeftmost := by
      intro ⟨q, hq, hfirst⟩
      rw [ht.ok.mem_storedSet_iff] at hq
      rcases leftOf_of_nextKeyWalk ht.ok.wellFormed hwalk hq with ⟨a, ha, hleft⟩
      rcases ((ht.nodes_iff a).mp ha).ever_below with ⟨b, hb, hab⟩
      exact hfirst b hb (hleft.of_isPrefix hab)
    simp only [reduceCtorEq, false_and, exists_false, true_iff, hnone, or_false]
    rw [imp_false, Set.not_nonempty_iff_eq_empty, and_self]
  | some n =>
    have hleftmost := leftmost_of_nextKeyWalk ht.ok.wellFormed hwalk
    have hmem : n.bits p ∈ h.storedSet := by
      rw [ht.ok.mem_storedSet_iff, hleftmost.live]
      simp
    have hne : h.storedSet ≠ ∅ := Set.nonempty_iff_ne_empty.mp ⟨_, hmem⟩
    have hfirst : h.HasLeftmost := by
      refine ⟨n.bits p, hmem, ?_⟩
      intro a ha
      exact hleftmost.first a ((ht.nodes_iff a).mpr (.inl ha))
    simp only [reduceCtorEq, hne, hfirst, or_true, iff_true, and_true]
    intro _
    refine ⟨_, rfl, ?_⟩
    rw [bits_copied]
    exact hmem

theorem firstKeyMeets_run_iff (ops : List (Op p)) (hops : Uninterrupted p ops)
    : FirstKeyMeets p (run p ops) ↔ (run p ops).storedSet = ∅ ∨ (run p ops).HasLeftmost :=
  (tallied_run hops).firstKeyMeets_iff

def deleteLeft : List (Op byteParams) :=
  [.update ⟨1, .replicate _ 0x00⟩ (.replicate _ 7) BPF_ANY ⟨true, true⟩ true,
   .update ⟨1, .replicate _ 0x80⟩ (.replicate _ 9) BPF_ANY ⟨true, true⟩ true,
   .delete ⟨1, .replicate _ 0x00⟩]

theorem firstKeyMeets_run_iff_deleteLeft : FirstKeyMeets byteParams (run byteParams deleteLeft)
        ↔
      (run byteParams deleteLeft).storedSet = ∅ ∨ (run byteParams deleteLeft).HasLeftmost :=
  firstKeyMeets_run_iff deleteLeft (uninterrupted_of_grows (by decide))

theorem not_firstKeyMeets_deleteLeft : (run byteParams deleteLeft).stored [true] = some [9]
        ∧ mapGetNextKey byteParams (run byteParams deleteLeft).impl false true = .error .ENOENT
        ∧ ¬ FirstKeyMeets byteParams (run byteParams deleteLeft) := by
  have hstored : (run byteParams deleteLeft).stored [true] = some [9] := by decide
  have herror : mapGetNextKey byteParams (run byteParams deleteLeft).impl false true
      = .error .ENOENT := by
    decide
  refine ⟨hstored, herror, ?_⟩
  intro hmeets
  have hempty := hmeets.2.mp herror
  have hmem : [true] ∈ (run byteParams deleteLeft).storedSet := by
    change (run byteParams deleteLeft).stored [true] ≠ none
    rw [hstored]
    simp
  rw [hempty] at hmem
  exact hmem

end History

end Bpftime.LpmTrie
