import Bpftime.BpfMap.LpmTrie.Lemmas.Basic

namespace Bpftime.LpmTrie

open BitPrefix

variable {p : Params} {key : BpfLpmTrieKey p}

theorem lookupWalk_node (n : LpmTrieNode) (child0 child1 : NodePtr) (found : Option LpmTrieNode)
    : lookupWalk p key (.node n child0 child1) found
        =
      if lcp (n.bits p) key.bits = p.maxPrefixlen then
        some n
      else if lcp (n.bits p) key.bits < n.prefixlen then
        found
      else if lcp (n.bits p) key.bits < key.prefixlen then
        lookupWalk p key (childAt (extractBit p key.data.toList n.prefixlen) child0 child1)
          (if !n.isIntermediate then some n else found)
      else
        if !n.isIntermediate then some n else found := by
  rw [lookupWalk]
  simp only [longestPrefixMatch_eq_lcp]
  cases extractBit p key.data.toList n.prefixlen <;> rfl

theorem lcp_eq_maxPrefixlen_iff {n : LpmTrieNode} (hok : n.Ok p)
    (hkey : key.prefixlen ≤ p.maxPrefixlen)
    : lcp (n.bits p) key.bits = p.maxPrefixlen
        ↔
      key.prefixlen = p.maxPrefixlen ∧ n.bits p = key.bits := by
  have h1 := lcp_le_left (n.bits p) key.bits
  have h2 := lcp_le_right (n.bits p) key.bits
  have h3 := hok.prefixlen_le
  simp only [LpmTrieNode.length_bits, BpfLpmTrieKey.length_bits] at h1 h2
  constructor
  . intro h
    refine ⟨by omega, ?_⟩
    have hpre := (lcp_eq_length_left_iff (n.bits p) key.bits).mp (by simp; omega)
    exact hpre.eq_of_length (by simp; omega)
  . rintro ⟨hfull, heq⟩
    have := (lcp_eq_length_left_iff (n.bits p) key.bits).mpr (by simp [heq])
    rw [this, heq]
    simpa using hfull

theorem lookupWalk_eq_of_full {pre : List Bool} {t : NodePtr} (hwf : WellFormed p pre t)
    (hfull : key.prefixlen = p.maxPrefixlen) {m : LpmTrieNode}
    (hm : nodeAt p key.bits t = some m) (found : Option LpmTrieNode)
    : lookupWalk p key t found = some m := by
  induction t using NodePtr.childInduction generalizing pre found with
  | null => simp [nodeAt] at hm
  | node n child0 child1 ih =>
    have hn : n.bits p <+: key.bits := by
      by_contra hn
      rw [nodeAt_eq_none_of_not_isPrefix hn] at hm
      simp at hm
    have hlcp := (lcp_eq_length_left_iff (n.bits p) key.bits).mpr hn
    have hok := hwf.1.prefixlen_le
    rw [lookupWalk_node]
    simp only [LpmTrieNode.length_bits] at hlcp
    by_cases heq : key.bits = n.bits p
    . rw [heq, nodeAt_self] at hm
      rw [if_pos ((lcp_eq_maxPrefixlen_iff hwf.1 (by omega)).mpr ⟨hfull, heq.symm⟩)]
      exact hm
    . have hlt : n.prefixlen < key.prefixlen := by
        have hle := hn.length_le
        simp only [LpmTrieNode.length_bits, BpfLpmTrieKey.length_bits] at hle
        by_contra hge
        exact heq (hn.eq_of_length_le (by simp; omega)).symm
      have hb := snoc_extractBit_isPrefix hn (by simpa using hlt)
      simp only [LpmTrieNode.length_bits] at hb
      rw [if_neg (by omega), if_neg (by omega), if_pos (by omega)]
      rw [hwf.nodeAt_of_isPrefix hb (List.prefix_rfl), if_neg heq] at hm
      exact ih _ (hwf.childAt _) hm _

theorem WellFormed.isLongestMatch_of_childAt {pre : List Bool} {n m : LpmTrieNode}
    {child0 child1 : NodePtr} (hwf : WellFormed p pre (.node n child0 child1)) {b : Bool}
    {s : List Bool} (hs : n.bits p ++ [b] <+: s)
    (h : IsLongestMatch (liveAt p (LpmTrie.childAt b child0 child1)) s m)
    : IsLongestMatch (liveAt p (.node n child0 child1)) s m := by
  rcases h with ⟨q, hq, hm, hmax⟩
  have hpre := (hwf.childAt b).prefix_of_liveAt hm
  refine ⟨q, hq, ?_, ?_⟩
  . rw [hwf.liveAt_of_isPrefix hs hq (ne_of_snoc_isPrefix hpre)]
    exact hm
  . intro q' hq' hlive
    by_cases heq : q' = n.bits p
    . have := hpre.length_le
      simp only [List.length_append, List.length_cons, List.length_nil] at this
      rw [heq]
      omega
    . rw [hwf.liveAt_of_isPrefix hs hq' heq] at hlive
      exact hmax q' hq' hlive

theorem liveAt_root (n : LpmTrieNode) (child0 child1 : NodePtr)
    : liveAt p (.node n child0 child1) (n.bits p) = if !n.isIntermediate then some n else none := by
  simp [liveAt, nodeAt_self, Option.filter]

theorem isLongestMatch_root {n : LpmTrieNode} (child0 child1 : NodePtr) {s : List Bool}
    (hs : n.bits p <+: s)
    (hrest : ∀ q, q <+: s → q ≠ n.bits p → liveAt p (.node n child0 child1) q = none)
    : if !n.isIntermediate then
        IsLongestMatch (liveAt p (.node n child0 child1)) s n
      else
        NoMatch (liveAt p (.node n child0 child1)) s := by
  split
  . next hlive =>
    refine ⟨n.bits p, hs, ?_, ?_⟩
    . rw [liveAt_root, if_pos hlive]
    . intro q hq hne
      by_cases heq : q = n.bits p
      . rw [heq]
      . exact absurd (hrest q hq heq) hne
  . next hlive =>
    intro q hq
    by_cases heq : q = n.bits p
    . rw [heq, liveAt_root, if_neg hlive]
    . exact hrest q hq heq

theorem found_root {n : LpmTrieNode} (child0 child1 : NodePtr) {s : List Bool} (hs : n.bits p <+: s)
    (hrest : ∀ q, q <+: s → q ≠ n.bits p → liveAt p (.node n child0 child1) q = none)
    (found : Option LpmTrieNode)
    : (∃ m, IsLongestMatch (liveAt p (.node n child0 child1)) s m
        ∧ (if !n.isIntermediate then some n else found) = some m)
        ∨
      (NoMatch (liveAt p (.node n child0 child1)) s
        ∧ (if !n.isIntermediate then some n else found) = found) := by
  have hroot := isLongestMatch_root child0 child1 hs hrest
  split at hroot
  next hlive => exact .inl ⟨n, hroot, by rw [if_pos hlive]⟩
  next hlive => exact .inr ⟨hroot, by rw [if_neg hlive]⟩

theorem lookupWalk_of_not_full {pre : List Bool} {t : NodePtr} (hwf : WellFormed p pre t)
    (hkey : key.prefixlen ≤ p.maxPrefixlen)
    (hfull : key.prefixlen = p.maxPrefixlen → nodeAt p key.bits t = none)
    (found : Option LpmTrieNode)
    : (∃ m, IsLongestMatch (liveAt p t) key.bits m ∧ lookupWalk p key t found = some m)
        ∨
      (NoMatch (liveAt p t) key.bits ∧ lookupWalk p key t found = found) := by
  induction t using NodePtr.childInduction generalizing pre found with
  | null =>
    right
    simp [NoMatch, liveAt, nodeAt, lookupWalk]
  | node n child0 child1 ih =>
    have hnmax : ¬ lcp (n.bits p) key.bits = p.maxPrefixlen := by
      rw [lcp_eq_maxPrefixlen_iff hwf.1 hkey]
      rintro ⟨hlen, heq⟩
      have := hfull hlen
      rw [← heq, nodeAt_self] at this
      simp at this
    rw [lookupWalk_node, if_neg hnmax]
    have hle := lcp_le_left (n.bits p) key.bits
    have hle' := lcp_le_right (n.bits p) key.bits
    simp only [LpmTrieNode.length_bits, BpfLpmTrieKey.length_bits] at hle hle'
    split
    . -- the prefix of the node is not one of the key, so nothing below the pointer is
      right
      refine ⟨?_, rfl⟩
      intro q hq
      apply liveAt_eq_none_of_nodeAt
      apply nodeAt_eq_none_of_not_isPrefix
      intro hnq
      have := (lcp_eq_length_left_iff (n.bits p) key.bits).mpr (hnq.trans hq)
      simp only [LpmTrieNode.length_bits] at this
      omega
    . have hn : n.bits p <+: key.bits := by
        rw [← lcp_eq_length_left_iff]
        simp only [LpmTrieNode.length_bits]
        omega
      split
      . have hb := snoc_extractBit_isPrefix hn (by simp only [LpmTrieNode.length_bits]; omega)
        simp only [LpmTrieNode.length_bits] at hb
        rw [hwf.nodeAt_of_isPrefix hb List.prefix_rfl, if_neg (ne_of_snoc_isPrefix hb)] at hfull
        rcases ih _ (hwf.childAt _) hfull (if !n.isIntermediate then some n else found) with
          ⟨m, hm, hwalk⟩ | ⟨hno, hwalk⟩
        . left
          exact ⟨m, hwf.isLongestMatch_of_childAt hb hm, hwalk⟩
        . rw [hwalk]
          apply found_root child0 child1 hn
          intro q hq hne
          rw [hwf.liveAt_of_isPrefix hb hq hne]
          exact hno q hq
      . -- the node stands for the prefix of the key
        have heq : n.bits p = key.bits := by
          apply hn.eq_of_length_le
          simp only [LpmTrieNode.length_bits, BpfLpmTrieKey.length_bits]
          omega
        apply found_root child0 child1 hn
        intro q hq hne
        apply liveAt_eq_none_of_nodeAt
        apply nodeAt_eq_none_of_not_isPrefix
        intro hnq
        rw [← heq] at hq
        exact hne (hq.eq_of_length_le hnq.length_le)

end Bpftime.LpmTrie
