import Bpftime.BpfMap.LpmTrie.Lemmas.Basic

namespace Bpftime.LpmTrie

open BitPrefix

variable {p : Params} {key : BpfLpmTrieKey p} {value : Value p}

structure MadeFor (key : BpfLpmTrieKey p) (n : LpmTrieNode) (prefixlen : Nat)
    (value : Option (Value p)) : Prop where
  prefixlen_eq : n.prefixlen = prefixlen
  isIntermediate_eq : n.isIntermediate = value.isNone
  data_eq : n.data = key.data.toList ++ (value.elim [] Vector.toList)

theorem createNodeFor_leaf {ok : Bool} {prefixlen : Nat} {n : LpmTrieNode}
    (h : createNodeFor p ok (some value) false prefixlen key = .ok n)
    : MadeFor key n prefixlen (some value) := by
  unfold createNodeFor createNode at h
  cases ok with
  | false => simp at h
  | true =>
    simp only [Bool.not_true, Bool.false_eq_true, ↓reduceIte, copyKeyData, copyValueData,
      Except.ok.injEq] at h
    subst h
    refine ⟨rfl, rfl, ?_⟩
    simp [Bytes.overwrite, Bytes.resize]

theorem createNodeFor_intermediate {ok : Bool} {prefixlen : Nat} {n : LpmTrieNode}
    (h : createNodeFor p ok none true prefixlen key = .ok n)
    : MadeFor key n prefixlen none := by
  unfold createNodeFor createNode at h
  cases ok with
  | false => simp at h
  | true =>
    simp only [Bool.not_true, Bool.false_eq_true, ↓reduceIte, copyKeyData, Except.ok.injEq] at h
    subst h
    refine ⟨rfl, rfl, ?_⟩
    simp [Bytes.overwrite, Bytes.resize]

namespace MadeFor

variable {n : LpmTrieNode} {prefixlen : Nat} {v : Option (Value p)}

theorem bits_eq (h : MadeFor key n prefixlen v) (hle : prefixlen ≤ key.prefixlen)
    : n.bits p = key.bits.take prefixlen := by
  rw [BpfLpmTrieKey.bits_eq, LpmTrieNode.bits, ← List.map_take, List.take_range, h.prefixlen_eq,
    Nat.min_eq_left hle]
  apply List.map_congr_left
  intro i _
  apply extractBit_congr
  rw [h.data_eq]
  simp

theorem bits_eq_key (h : MadeFor key n key.prefixlen v) : n.bits p = key.bits := by
  rw [h.bits_eq (by omega)]
  simp [← BpfLpmTrieKey.length_bits]

theorem ok (h : MadeFor key n prefixlen v) (hle : prefixlen ≤ p.maxPrefixlen) : n.Ok p := by
  refine ⟨by rw [h.prefixlen_eq]; exact hle, ?_⟩
  rw [h.data_eq, h.isIntermediate_eq]
  cases v <;> simp

theorem getNodeValueData_eq (h : MadeFor key n prefixlen (some value))
    : getNodeValueData p n = some value.toList := by
  simp [getNodeValueData, h.isIntermediate_eq, h.data_eq]

end MadeFor

structure Inserted (p : Params) (key : BpfLpmTrieKey p) (value : Value p) (t t' : NodePtr) : Prop where
  self : ∃ n, nodeAt p key.bits t' = some n ∧ getNodeValueData p n = some value.toList
  other : ∀ q, q ≠ key.bits →
    nodeAt p q t' = nodeAt p q t
      ∨ (nodeAt p q t = none ∧ q.length < key.prefixlen
          ∧ ∃ n, nodeAt p q t' = some n ∧ n.isIntermediate = true)

structure Placed (p : Params) (key : BpfLpmTrieKey p) (value : Value p) (t t' : NodePtr) : Prop
    extends Inserted p key value t t' where
  branch : ∀ q, q ≠ key.bits → nodeAt p q t' ≠ nodeAt p q t →
    ∃ b r, q ++ [b] <+: key.bits ∧ q ++ [!b] <+: r ∧ nodeAt p r t ≠ none

theorem placed_of_same {t t' : NodePtr}
    (self : ∃ n, nodeAt p key.bits t' = some n ∧ getNodeValueData p n = some value.toList)
    (same : ∀ q, q ≠ key.bits → nodeAt p q t' = nodeAt p q t)
    : Placed p key value t t' := by
  refine ⟨⟨self, ?_⟩, ?_⟩
  . intro q hq
    left
    exact same q hq
  . intro q hq hne
    exact absurd (same q hq) hne

theorem nodeAt_leaf (n : LpmTrieNode) (q : List Bool)
    : nodeAt p q (.node n .null .null) = if q = n.bits p then some n else none := by
  simp [nodeAt]

section insert

variable {flags : UInt64} {alloc : Alloc} {nEntries k : Nat} {pre : List Bool} {t : NodePtr}

theorem insertLeaf_spec (hpre : pre <+: key.bits) (hkey : key.prefixlen ≤ p.maxPrefixlen)
    (h : insertLeaf p key value flags alloc nEntries = .ok (t, k))
    : WellFormed p pre t ∧ Placed p key value .null t := by
  simp only [insertLeaf, bind_eq_ok, pure, Except.pure, Except.ok.injEq, Prod.mk.injEq] at h
  rcases h with ⟨-, -, n, hn, rfl, -⟩
  have hmade := createNodeFor_leaf hn
  have hbits := hmade.bits_eq_key
  refine ⟨⟨hmade.ok hkey, by rw [hbits]; exact hpre, trivial, trivial⟩, placed_of_same ?_ ?_⟩
  . refine ⟨n, ?_, hmade.getNodeValueData_eq⟩
    rw [nodeAt_leaf, if_pos hbits.symm]
  . intro q hq
    rw [nodeAt_leaf, hbits, if_neg hq, nodeAt]

variable {b : Bool} {child0 child1 : NodePtr}

variable {n n' : LpmTrieNode}

theorem wellFormed_branch {im : LpmTrieNode} {t₁ t₂ : NodePtr} (him : im.Ok p)
    (hpre : pre <+: im.bits p) (h1 : WellFormed p (im.bits p ++ [b]) t₁)
    (h2 : WellFormed p (im.bits p ++ [!b]) t₂)
    : WellFormed p pre (if b then .node im t₂ t₁ else .node im t₁ t₂) := by
  cases b
  . exact ⟨him, hpre, h1, h2⟩
  . exact ⟨him, hpre, h2, h1⟩

theorem nodeAt_branch {im : LpmTrieNode} {t₁ t₂ : NodePtr}
    (h1 : WellFormed p (im.bits p ++ [b]) t₁) (h2 : WellFormed p (im.bits p ++ [!b]) t₂)
    (q : List Bool)
    : nodeAt p q (if b then .node im t₂ t₁ else .node im t₁ t₂)
        =
      if q = im.bits p then some im else (nodeAt p q t₁).or (nodeAt p q t₂) := by
  by_cases hq : q = im.bits p
  . subst hq
    cases b <;> simp [nodeAt_self]
  . rw [if_neg hq]
    by_cases hb : im.bits p ++ [b] <+: q
    . have hnone := h2.nodeAt_eq_none (not_isPrefix_snoc hb)
      cases b <;> simp [nodeAt_childAt hb, childAt, hnone]
    . have hnone := h1.nodeAt_eq_none hb
      by_cases hb' : im.bits p ++ [!b] <+: q
      . cases b <;> simp [nodeAt_childAt hb', childAt, hnone]
      . have hnone' := h2.nodeAt_eq_none hb'
        cases b <;> simp_all [nodeAt]

theorem wellFormed_leaf (hok : n.Ok p) (hpre : pre <+: n.bits p)
    : WellFormed p pre (.node n .null .null) :=
  ⟨hok, hpre, trivial, trivial⟩

theorem insertSplit_ok {slot : NodePtr} {l : Nat}
    (h : insertSplit p key value flags alloc nEntries slot l = .ok (t, k))
    : ∃ new im, MadeFor key new key.prefixlen (some value) ∧ MadeFor key im l none
        ∧ t = if extractBit p key.data.toList l then .node im slot (.node new .null .null)
            else .node im (.node new .null .null) slot := by
  simp only [insertSplit, bind_eq_ok, pure, Except.pure] at h
  rcases h with ⟨-, -, new, hnew, im, him, h⟩
  refine ⟨new, im, createNodeFor_leaf hnew, createNodeFor_intermediate him, ?_⟩
  split at h
  . next hbit =>
    cases h
    rw [if_pos hbit]
  . next hbit =>
    cases h
    rw [if_neg hbit]

theorem placed_branch {new im : LpmTrieNode}
    (hnew : MadeFor key new key.prefixlen (some value)) (him : im.isIntermediate = true)
    (hkb : im.bits p ++ [b] <+: key.bits) (hnb : im.bits p ++ [!b] <+: n.bits p)
    (hwf1 : WellFormed p (im.bits p ++ [b]) (.node new .null .null))
    (hwf2 : WellFormed p (im.bits p ++ [!b]) (.node n child0 child1))
    : Placed p key value (.node n child0 child1)
        (if b then .node im (.node n child0 child1) (.node new .null .null)
          else .node im (.node new .null .null) (.node n child0 child1)) := by
  have hbits := hnew.bits_eq_key
  have hklen := hkb.length_le
  have hnlen := hnb.length_le
  simp only [List.length_append, List.length_singleton, BpfLpmTrieKey.length_bits] at hklen hnlen
  have hother : ∀ q, q ≠ key.bits → q ≠ im.bits p →
      nodeAt p q (if b then .node im (.node n child0 child1) (.node new .null .null)
        else .node im (.node new .null .null) (.node n child0 child1))
      = nodeAt p q (.node n child0 child1) := by
    intro q hq hqim
    rw [nodeAt_branch hwf1 hwf2, nodeAt_leaf, hbits, if_neg hq, if_neg hqim]
    simp
  refine ⟨⟨?_, ?_⟩, ?_⟩
  . refine ⟨new, ?_, hnew.getNodeValueData_eq⟩
    rw [nodeAt_branch hwf1 hwf2, if_neg (ne_of_snoc_isPrefix hkb), nodeAt_leaf, if_pos hbits.symm]
    rfl
  . intro q hq
    by_cases hqim : q = im.bits p
    . right
      rw [nodeAt_branch hwf1 hwf2, if_pos hqim, hqim]
      refine ⟨?_, by omega, im, rfl, him⟩
      apply nodeAt_eq_none_of_not_isPrefix
      intro hnq
      have := hnq.length_le
      omega
    . left
      exact hother q hq hqim
  . intro q hq hne
    by_cases hqim : q = im.bits p
    . subst hqim
      refine ⟨b, n.bits p, hkb, hnb, ?_⟩
      simp [nodeAt_self]
    . exact absurd (hother q hq hqim) hne

theorem insertSplit_spec
    (hwf : WellFormed p pre (.node n child0 child1)) (hpre : pre <+: key.bits)
    (hkey : key.prefixlen ≤ p.maxPrefixlen)
    (hn : lcp (n.bits p) key.bits < n.prefixlen) (hk : lcp (n.bits p) key.bits < key.prefixlen)
    (h : insertSplit p key value flags alloc nEntries (.node n child0 child1)
      (lcp (n.bits p) key.bits) = .ok (t, k))
    : WellFormed p pre t ∧ Placed p key value (.node n child0 child1) t := by
  rcases insertSplit_ok h with ⟨new, im, hnew, him, ht⟩
  have hpreim := length_le_lcp hwf.2.1 hpre
  have hk' : lcp (n.bits p) key.bits < key.bits.length := by simpa using hk
  have hn' : lcp (n.bits p) key.bits < (n.bits p).length := by simpa using hn
  -- the key and the old node part at the bit behind the common prefix
  have hparts := snoc_lcp_isPrefix hn' hk'
  have hbit : extractBit p key.data.toList (lcp (n.bits p) key.bits)
      = key.bits[lcp (n.bits p) key.bits] := by
    simp [BpfLpmTrieKey.bits_eq]
  rw [← him.bits_eq (by omega)] at hparts
  rw [hbit] at ht
  rw [ht]
  generalize lcp (n.bits p) key.bits = l at *
  have himlen : (im.bits p).length = l := by
    simp only [LpmTrieNode.length_bits, him.prefixlen_eq]
  generalize key.bits[l] = b at hparts
  have hwf1 : WellFormed p (im.bits p ++ [b]) (.node new .null .null) :=
    wellFormed_leaf (hnew.ok hkey) (by rw [hnew.bits_eq_key]; exact hparts.1)
  have hwf2 := hwf.of_isPrefix hparts.2
  have himpre : pre <+: im.bits p := by
    apply List.prefix_of_prefix_length_le hpre ((List.prefix_append _ _).trans hparts.1)
    omega
  refine ⟨wellFormed_branch (him.ok (by omega)) himpre hwf1 hwf2, ?_⟩
  exact placed_branch hnew (by rw [him.isIntermediate_eq]; rfl) hparts.1 hparts.2 hwf1 hwf2

theorem insertAncestor_spec
    (hwf : WellFormed p pre (.node n child0 child1)) (hpre : pre <+: key.bits)
    (hkey : key.prefixlen ≤ p.maxPrefixlen)
    (hk : lcp (n.bits p) key.bits = key.prefixlen) (hne : n.prefixlen ≠ key.prefixlen)
    (h : insertAncestor p key value flags alloc nEntries n (.node n child0 child1)
      (lcp (n.bits p) key.bits) = .ok (t, k))
    : WellFormed p pre t ∧ Placed p key value (.node n child0 child1) t := by
  simp only [insertAncestor, bind_eq_ok, pure, Except.pure, hk] at h
  rcases h with ⟨-, -, new, hnew, h⟩
  have hnew := createNodeFor_leaf hnew
  have hbits := hnew.bits_eq_key
  have hkn : key.bits <+: n.bits p := by
    rw [← lcp_eq_length_right_iff, hk]
    simp
  have hlen := hkn.length_le
  simp only [LpmTrieNode.length_bits, BpfLpmTrieKey.length_bits] at hlen
  have hn' : key.prefixlen < (n.bits p).length := by
    simp only [LpmTrieNode.length_bits]
    omega
  have hnb : new.bits p ++ [(n.bits p)[key.prefixlen]] <+: n.bits p := by
    have := isPrefix_snoc_of_getElem hkn (by simpa using hn')
    simpa [hbits] using this
  have hbit : extractBit p n.data key.prefixlen = (n.bits p)[key.prefixlen] := by
    simp [LpmTrieNode.bits]
  rw [hbit] at h
  generalize (n.bits p)[key.prefixlen] = b at h hnb
  have hwf1 := hwf.of_isPrefix hnb
  have hwf2 : WellFormed p (new.bits p ++ [!b]) .null := trivial
  have ht : t = if b then .node new .null (.node n child0 child1)
      else .node new (.node n child0 child1) .null := by
    split at h
    . next hb => simp_all
    . next hb => simp_all
  rw [ht]
  refine ⟨wellFormed_branch (hnew.ok hkey) (by rw [hbits]; exact hpre) hwf1 hwf2,
    placed_of_same ?_ ?_⟩
  . refine ⟨new, ?_, hnew.getNodeValueData_eq⟩
    rw [nodeAt_branch hwf1 hwf2, if_pos hbits.symm]
  . intro q hq
    rw [nodeAt_branch hwf1 hwf2, hbits, if_neg hq]
    simp [nodeAt]

theorem bits_congr (hlen : n.prefixlen = n'.prefixlen)
    (hdata : n.data.take p.dataSize = n'.data.take p.dataSize)
    : n.bits p = n'.bits p := by
  unfold LpmTrieNode.bits
  rw [hlen]
  apply List.map_congr_left
  intro i _
  exact extractBit_congr hdata i

theorem WellFormed.replace
    (hwf : WellFormed p pre (.node n child0 child1)) (hok : n'.Ok p) (hbits : n'.bits p = n.bits p)
    : WellFormed p pre (.node n' child0 child1) := by
  refine ⟨hok, ?_, ?_, ?_⟩
  . rw [hbits]
    exact hwf.2.1
  . rw [hbits]
    exact hwf.2.2.1
  . rw [hbits]
    exact hwf.2.2.2

theorem nodeAt_replace (hbits : n'.bits p = n.bits p)
    {q : List Bool} (hq : q ≠ n.bits p)
    : nodeAt p q (.node n' child0 child1) = nodeAt p q (.node n child0 child1) := by
  simp [nodeAt, hbits, hq]

theorem copyValueData_spec (hn : n.isIntermediate = false)
    (hlen : n.data.length = p.dataSize + p.valueSize) (value : Value p)
    : (copyValueData p n value).prefixlen = n.prefixlen
        ∧ (copyValueData p n value).isIntermediate = false
        ∧ (copyValueData p n value).data.length = p.dataSize + p.valueSize
        ∧ (copyValueData p n value).data.take p.dataSize = n.data.take p.dataSize
        ∧ getNodeValueData p (copyValueData p n value) = some value.toList := by
  have hread := Bytes.take_drop_overwrite n.data p.dataSize value.toList (by omega)
  simp only [Vector.length_toList] at hread
  simp only [copyValueData, hn, Bool.false_eq_true, ↓reduceIte, true_and, getNodeValueData, hread,
    and_true]
  refine ⟨?_, ?_⟩
  . rw [Bytes.length_overwrite _ _ _ (by simp; omega)]
    exact hlen
  . apply Bytes.take_overwrite
    omega

theorem replaceNode_spec
    (hwf : WellFormed p pre (.node n child0 child1)) (hbits : n.bits p = key.bits)
    (h : replaceNode p value flags nEntries n child0 child1 = .ok (t, k))
    : WellFormed p pre t ∧ Placed p key value (.node n child0 child1) t := by
  -- in both branches the node that gets the value is one for the same prefix with room for it
  obtain ⟨n', hn', hlen, hpl, hdata, rfl⟩ : ∃ n' : LpmTrieNode, n'.isIntermediate = false
      ∧ n'.data.length = p.dataSize + p.valueSize ∧ n'.prefixlen = n.prefixlen
      ∧ n'.data.take p.dataSize = n.data.take p.dataSize
      ∧ t = .node (copyValueData p n' value) child0 child1 := by
    have hnlen := hwf.1.length_data
    simp only [replaceNode] at h
    split at h
    . simp at h
    . split at h
      . simp at h
      . split at h
        . split at h
          . simp at h
          . next hint _ =>
            simp only [Except.ok.injEq, Prod.mk.injEq] at h
            refine ⟨⟨n.prefixlen, false, Bytes.resize n.data (p.dataSize + p.valueSize)⟩,
              rfl, ?_, rfl, ?_, h.1.symm⟩
            . simp
            . apply Bytes.take_resize
              . omega
              . omega
        . next hint =>
          simp only [Bool.not_not, Bool.not_eq_true] at hint
          simp only [Except.ok.injEq, Prod.mk.injEq] at h
          refine ⟨n, hint, ?_, rfl, rfl, h.1.symm⟩
          simpa [hint] using hnlen
  rcases copyValueData_spec hn' hlen value with ⟨hpl', hint', hlen', hdata', hval'⟩
  have hb : (copyValueData p n' value).bits p = n.bits p :=
    bits_congr (by omega) (by rw [hdata', hdata])
  have hok : (copyValueData p n' value).Ok p := by
    refine ⟨?_, by simp [hlen', hint']⟩
    have := hwf.1.prefixlen_le
    omega
  refine ⟨hwf.replace hok hb, placed_of_same ⟨_, ?_, hval'⟩ ?_⟩
  . rw [← hbits, ← hb, nodeAt_self]
  . intro q hq
    exact nodeAt_replace hb (by rw [hbits]; exact hq)

theorem updateSlot_spec (hwf : WellFormed p pre t) (hpre : pre <+: key.bits)
    (hkey : key.prefixlen ≤ p.maxPrefixlen) {t' : NodePtr}
    (h : updateSlot p key value flags alloc nEntries t = .ok (t', k))
    (hstop : ∀ n child0 child1, t = .node n child0 child1 →
      n.prefixlen ≠ lcp (n.bits p) key.bits ∨ n.prefixlen = key.prefixlen)
    : WellFormed p pre t' ∧ Placed p key value t t' := by
  cases t with
  | null => exact insertLeaf_spec hpre hkey h
  | node n child0 child1 =>
    have hstop := hstop n child0 child1 rfl
    have hle := lcp_le_left (n.bits p) key.bits
    have hle' := lcp_le_right (n.bits p) key.bits
    simp only [LpmTrieNode.length_bits, BpfLpmTrieKey.length_bits] at hle hle'
    simp only [updateSlot, longestPrefixMatch_eq_lcp] at h
    split at h
    . next hlen =>
      split at h
      . next hexact =>
        apply replaceNode_spec hwf _ h
        exact bits_eq_iff.mpr ⟨hlen, hexact⟩
      . exact insertSplit_spec hwf hpre hkey (by omega) (by omega) h
    . next hlen =>
      split at h
      . next hexact => exact insertAncestor_spec hwf hpre hkey hexact hlen h
      . exact insertSplit_spec hwf hpre hkey (by omega) (by omega) h

theorem Placed.of_childAt {c : NodePtr}
    (hkey : n.bits p ++ [b] <+: key.bits) (h : Placed p key value (childAt b child0 child1) c)
    : Placed p key value (.node n child0 child1) (setChild b n child0 child1 c) := by
  refine ⟨⟨?_, ?_⟩, ?_⟩
  . rcases h.self with ⟨m, hm, hval⟩
    refine ⟨m, ?_, hval⟩
    rw [nodeAt_setChild, if_pos hkey]
    exact hm
  . intro q hq
    rw [nodeAt_setChild]
    split
    . next hqb =>
      rw [nodeAt_childAt hqb]
      exact h.other q hq
    . left
      rfl
  . intro q hq hne
    rw [nodeAt_setChild] at hne
    split at hne
    . next hqb =>
      rw [nodeAt_childAt hqb] at hne
      rcases h.branch q hq hne with ⟨c, r, hk, hr, hnode⟩
      refine ⟨c, r, hk, hr, ?_⟩
      rw [nodeAt_childAt (hqb.trans ((List.prefix_append q [!c]).trans hr))]
      exact hnode
    . exact absurd rfl hne

theorem stops_of_walk (hkey : key.prefixlen ≤ p.maxPrefixlen)
    (h : n.prefixlen ≠ lcp (n.bits p) key.bits ∨ n.prefixlen = key.prefixlen
      ∨ n.prefixlen = p.maxPrefixlen)
    : ∀ m c0 c1, NodePtr.node n child0 child1 = .node m c0 c1 →
        m.prefixlen ≠ lcp (m.bits p) key.bits ∨ m.prefixlen = key.prefixlen := by
  intro m c0 c1 heq
  injection heq with hm
  subst hm
  have hle := lcp_le_right (n.bits p) key.bits
  simp only [BpfLpmTrieKey.length_bits] at hle
  omega

theorem updateWalk_node (n : LpmTrieNode) (child0 child1 : NodePtr)
    : updateWalk p key value flags alloc nEntries (.node n child0 child1)
        =
      if n.prefixlen ≠ lcp (n.bits p) key.bits ∨ n.prefixlen = key.prefixlen
          ∨ n.prefixlen = p.maxPrefixlen then
        updateSlot p key value flags alloc nEntries (.node n child0 child1)
      else do
        let b := extractBit p key.data.toList n.prefixlen
        let (c, k) ← updateWalk p key value flags alloc nEntries (childAt b child0 child1)
        return (setChild b n child0 child1 c, k) := by
  rw [updateWalk]
  simp only [longestPrefixMatch_eq_lcp]
  cases extractBit p key.data.toList n.prefixlen <;> rfl

theorem updateWalk_spec {t' : NodePtr} (hwf : WellFormed p pre t) (hpre : pre <+: key.bits)
    (hkey : key.prefixlen ≤ p.maxPrefixlen)
    (h : updateWalk p key value flags alloc nEntries t = .ok (t', k))
    : WellFormed p pre t' ∧ Placed p key value t t' := by
  induction t using NodePtr.childInduction generalizing pre t' k with
  | null => exact insertLeaf_spec hpre hkey h
  | node n child0 child1 ih =>
    rw [updateWalk_node] at h
    split at h
    . next hstop =>
      exact updateSlot_spec hwf hpre hkey h (stops_of_walk hkey hstop)
    . next hgo =>
      have hb := snoc_isPrefix_of_lcp fun h => hgo (h.imp_right .inl)
      simp only [bind_eq_ok, pure, Except.pure, Except.ok.injEq, Prod.mk.injEq] at h
      rcases h with ⟨⟨c, k'⟩, hc, rfl, -⟩
      rcases ih _ (hwf.childAt _) hb hc with ⟨hwfc, hins⟩
      exact ⟨hwf.setChild hwfc, hins.of_childAt hb⟩

theorem elemUpdate_spec {m m' : LpmTrieMapImpl} (hwf : WellFormed p [] m.root)
    (h : elemUpdate p m key value flags alloc = .ok m')
    : key.prefixlen ≤ p.maxPrefixlen
        ∧ WellFormed p [] m'.root
        ∧ Placed p key value m.root m'.root := by
  unfold elemUpdate at h
  split at h
  . simp at h
  . split at h
    . simp at h
    . next hkey =>
      have hkey : key.prefixlen ≤ p.maxPrefixlen := by omega
      refine ⟨hkey, ?_⟩
      split at h
      . next hroot =>
        simp only [bind_eq_ok, pure, Except.pure, Except.ok.injEq] at h
        rcases h with ⟨⟨t, k⟩, ht, rfl⟩
        rw [hroot]
        exact insertLeaf_spec (by simp) hkey ht
      . simp only [bind_eq_ok, pure, Except.pure, Except.ok.injEq] at h
        rcases h with ⟨⟨t, k⟩, ht, rfl⟩
        exact updateWalk_spec hwf (by simp) hkey ht

end insert

section delete

variable {pre : List Bool} {t : NodePtr}

structure Deleted (p : Params) (key : BpfLpmTrieKey p) (t t' : NodePtr) : Prop where
  before : ∃ n, nodeAt p key.bits t = some n
  self : ∃ n, nodeAt p key.bits t' = some n ∧ n.isIntermediate = true
  other : ∀ q, q ≠ key.bits → nodeAt p q t' = nodeAt p q t

theorem Deleted.of_childAt {n : LpmTrieNode} {child0 child1 c : NodePtr} {b : Bool}
    (hkey : n.bits p ++ [b] <+: key.bits) (h : Deleted p key (childAt b child0 child1) c)
    : Deleted p key (.node n child0 child1) (setChild b n child0 child1 c) := by
  constructor
  . rw [nodeAt_childAt hkey]
    exact h.before
  . rw [nodeAt_setChild, if_pos hkey]
    exact h.self
  . intro q hq
    rw [nodeAt_setChild]
    split
    . next hqb =>
      rw [nodeAt_childAt hqb]
      exact h.other q hq
    . rfl

theorem deleteSlot_spec (key : BpfLpmTrieKey p) (nEntries : Nat) {n : LpmTrieNode}
    {child0 child1 : NodePtr} (hwf : WellFormed p pre (.node n child0 child1))
    : (∀ t' k, deleteSlot p key nEntries (.node n child0 child1) = .ok (t', k) →
        WellFormed p pre t' ∧ Deleted p key (.node n child0 child1) t')
      ∧ (∀ e, deleteSlot p key nEntries (.node n child0 child1) = .error e → n.bits p = key.bits →
        n.isIntermediate = true) := by
  simp only [deleteSlot, longestPrefixMatch_eq_lcp]
  split
  . next hno =>
    refine ⟨by simp, ?_⟩
    intro e _ hbits
    rcases bits_eq_iff.mp hbits with ⟨hlen, hlcp⟩
    simpa [hlen, hlcp] using hno
  . next hyes =>
    refine ⟨?_, by simp⟩
    intro t' k h
    rcases h with ⟨rfl, -⟩
    have hbits : n.bits p = key.bits := bits_eq_iff.mpr ⟨by omega, by omega⟩
    have hlen := hwf.1.length_data
    have hb : LpmTrieNode.bits p ⟨n.prefixlen, true, Bytes.resize n.data p.dataSize⟩ = n.bits p := by
      apply bits_congr
      . rfl
      . apply Bytes.take_resize
        . omega
        . omega
    refine ⟨hwf.replace ⟨hwf.1.prefixlen_le, by simp⟩ hb, ⟨n, ?_⟩,
      ⟨⟨n.prefixlen, true, Bytes.resize n.data p.dataSize⟩, ?_, rfl⟩, ?_⟩
    . rw [← hbits, nodeAt_self]
    . rw [← hbits, ← hb, nodeAt_self]
    . intro q hq
      exact nodeAt_replace hb (by rw [hbits]; exact hq)

theorem deleteWalk_node (nEntries : Nat) (n : LpmTrieNode) (child0 child1 : NodePtr)
    : deleteWalk p key nEntries (.node n child0 child1)
        =
      if n.prefixlen ≠ lcp (n.bits p) key.bits ∨ n.prefixlen = key.prefixlen then
        deleteSlot p key nEntries (.node n child0 child1)
      else do
        let b := extractBit p key.data.toList n.prefixlen
        let (c, k) ← deleteWalk p key nEntries (childAt b child0 child1)
        return (setChild b n child0 child1 c, k) := by
  rw [deleteWalk]
  simp only [longestPrefixMatch_eq_lcp]
  cases extractBit p key.data.toList n.prefixlen <;> rfl

theorem deleteWalk_spec (key : BpfLpmTrieKey p) (nEntries : Nat) (hwf : WellFormed p pre t)
    : (∀ t' k, deleteWalk p key nEntries t = .ok (t', k) → WellFormed p pre t' ∧ Deleted p key t t')
      ∧ (∀ e, deleteWalk p key nEntries t = .error e → liveAt p t key.bits = none) := by
  induction t using NodePtr.childInduction generalizing pre with
  | null => simp [deleteWalk, deleteSlot, liveAt, nodeAt]
  | node n child0 child1 ih =>
    rw [deleteWalk_node]
    split
    . next hstop =>
      rcases deleteSlot_spec key nEntries hwf with ⟨hok, herr⟩
      refine ⟨hok, ?_⟩
      intro e he
      by_cases hbits : n.bits p = key.bits
      . rw [← hbits, liveAt]
        simp [nodeAt_self, herr e he hbits]
      . apply liveAt_eq_none_of_nodeAt
        apply nodeAt_eq_none_of_not_isPrefix
        intro hn
        exact hbits (bits_eq_of_isPrefix hstop hn)
    . next hgo =>
      have hb := snoc_isPrefix_of_lcp hgo
      rw [hwf.liveAt_of_isPrefix hb List.prefix_rfl (ne_of_snoc_isPrefix hb)]
      rcases ih _ (hwf.childAt _) with ⟨hok, herr⟩
      simp only [bind_eq_ok, bind_eq_error, pure, Except.pure, Except.ok.injEq, Prod.mk.injEq,
        reduceCtorEq, and_false, exists_false, or_false]
      refine ⟨?_, herr⟩
      rintro t' k ⟨⟨c, k'⟩, hc, rfl, -⟩
      rcases hok c k' hc with ⟨hwfc, hdel⟩
      exact ⟨hwf.setChild hwfc, hdel.of_childAt hb⟩

theorem elemDelete_spec {m : LpmTrieMapImpl} (hwf : WellFormed p [] m.root)
    (key : BpfLpmTrieKey p) (hkey : key.prefixlen ≤ p.maxPrefixlen)
    : (∀ m', elemDelete p m key = .ok m' → WellFormed p [] m'.root ∧ Deleted p key m.root m'.root)
      ∧ (∀ e, elemDelete p m key = .error e → liveAt p m.root key.bits = none) := by
  rcases deleteWalk_spec key m.nEntries hwf with ⟨hok, herr⟩
  unfold elemDelete
  rw [if_neg (by omega)]
  simp only [bind_eq_ok, bind_eq_error, pure, Except.pure, Except.ok.injEq, reduceCtorEq, and_false,
    exists_false, or_false]
  refine ⟨?_, herr⟩
  rintro m' ⟨⟨t, k⟩, ht, rfl⟩
  exact hok t k ht

end delete

end Bpftime.LpmTrie
