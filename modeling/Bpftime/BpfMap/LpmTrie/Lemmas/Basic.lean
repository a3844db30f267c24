import Bpftime.BpfMap.LpmTrie.Impl
import Bpftime.Data.BitPrefix

namespace Bpftime.LpmTrie

open BitPrefix

def BpfLpmTrieKey.bits {p : Params} (key : BpfLpmTrieKey p) : List Bool :=
  (List.range key.prefixlen).map fun i => (key.data.toList.getD (i / 8) 0).toNat.testBit (7 - i % 8)

def LpmTrieNode.bits (p : Params) (n : LpmTrieNode) : List Bool :=
  (List.range n.prefixlen).map (extractBit p n.data)

@[simp]
theorem BpfLpmTrieKey.length_bits {p : Params} (key : BpfLpmTrieKey p)
    : key.bits.length = key.prefixlen := by
  simp [bits]

@[simp]
theorem LpmTrieNode.length_bits (p : Params) (n : LpmTrieNode)
    : (n.bits p).length = n.prefixlen := by
  simp [bits]

theorem extractBit_eq_testBit {p : Params} {data : List UInt8} (h : data.length = p.dataSize)
    (i : Nat)
    : extractBit p data i = (data.getD (i / 8) 0).toNat.testBit (7 - i % 8) := by
  simp only [extractBit]
  split
  . rw [List.getD_eq_getElem?_getD, List.getElem?_eq_none (by omega)]
    simp
  . rw [Nat.and_one_is_mod, Nat.shiftRight_eq_div_pow, Nat.testBit_eq_decide_div_mod_eq]

theorem BpfLpmTrieKey.bits_eq {p : Params} (key : BpfLpmTrieKey p)
    : key.bits = (List.range key.prefixlen).map (extractBit p key.data.toList) := by
  apply List.map_congr_left
  intro i _
  rw [extractBit_eq_testBit (by simp)]

theorem extractBit_congr {p : Params} {d d' : List UInt8} (h : d.take p.dataSize = d'.take p.dataSize)
    (i : Nat)
    : extractBit p d i = extractBit p d' i := by
  simp only [extractBit]
  split
  . rfl
  . have hlt : i / 8 < p.dataSize := by omega
    have hget : d[i / 8]? = d'[i / 8]? := by
      have := congrArg (fun l => l[i / 8]?) h
      simpa [List.getElem?_take, hlt] using this
    simp only [List.getD_eq_getElem?_getD, hget]

variable (p : Params)

theorem longestPrefixMatch.go_eq_lcp (n : LpmTrieNode) (key : BpfLpmTrieKey p) (left matched : Nat)
    : go p n key left matched
        =
      matched + lcp
        ((List.range' matched left).map (extractBit p n.data))
        ((List.range' matched left).map (extractBit p key.data.toList)) := by
  induction left generalizing matched with
  | zero => simp [go, lcp]
  | succ left ih =>
    simp only [go, List.range'_succ, List.map_cons, lcp]
    by_cases h : extractBit p n.data matched = extractBit p key.data.toList matched
    . simp only [h, ne_eq, not_true_eq_false, ↓reduceIte, ih]
      omega
    . simp [h]

theorem longestPrefixMatch_eq_lcp (n : LpmTrieNode) (key : BpfLpmTrieKey p)
    : longestPrefixMatch p n key = lcp (n.bits p) key.bits := by
  unfold longestPrefixMatch
  rw [longestPrefixMatch.go_eq_lcp]
  rw [← lcp_take (n.bits p) key.bits (min n.prefixlen key.prefixlen)]
  . rw [BpfLpmTrieKey.bits_eq]
    simp only [LpmTrieNode.bits, ← List.map_take, List.take_range, Nat.zero_add,
      ← List.range_eq_range']
    congr 3 <;> omega
  . simp only [LpmTrieNode.length_bits, BpfLpmTrieKey.length_bits]
    omega

variable {q pre : List Bool} {n : LpmTrieNode} {child0 child1 : NodePtr} {b : Bool}

theorem snoc_extractBit_isPrefix {p : Params} {key : BpfLpmTrieKey p}
    (h : q <+: key.bits) (hlt : q.length < key.prefixlen)
    : q ++ [extractBit p key.data.toList q.length] <+: key.bits := by
  have := isPrefix_snoc_of_getElem h (by simpa using hlt)
  simpa [BpfLpmTrieKey.bits_eq] using this

theorem snoc_isPrefix_of_lcp {p : Params} {key : BpfLpmTrieKey p}
    (hgo : ¬ (n.prefixlen ≠ lcp (n.bits p) key.bits ∨ n.prefixlen = key.prefixlen))
    : n.bits p ++ [extractBit p key.data.toList n.prefixlen] <+: key.bits := by
  have hn : n.bits p <+: key.bits := by
    rw [← lcp_eq_length_left_iff, LpmTrieNode.length_bits]
    omega
  have hle := hn.length_le
  simp only [LpmTrieNode.length_bits, BpfLpmTrieKey.length_bits] at hle
  have hb := snoc_extractBit_isPrefix hn (by simp; omega)
  simpa using hb

theorem bits_eq_iff {p : Params} {key : BpfLpmTrieKey p} : n.bits p = key.bits
        ↔
      n.prefixlen = key.prefixlen ∧ lcp (n.bits p) key.bits = key.prefixlen := by
  constructor
  . intro heq
    have hlcp := (lcp_eq_length_right_iff (n.bits p) key.bits).mpr (by rw [heq])
    have hlen := congrArg List.length heq
    simp only [LpmTrieNode.length_bits, BpfLpmTrieKey.length_bits] at hlcp hlen
    exact ⟨hlen, hlcp⟩
  . rintro ⟨hlen, hlcp⟩
    have hn := (lcp_eq_length_left_iff (n.bits p) key.bits).mp (by simp; omega)
    exact hn.eq_of_length (by simpa using hlen)

theorem bits_eq_of_isPrefix {p : Params} {key : BpfLpmTrieKey p}
    (hstop : n.prefixlen ≠ lcp (n.bits p) key.bits ∨ n.prefixlen = key.prefixlen)
    (hn : n.bits p <+: key.bits)
    : n.bits p = key.bits := by
  have hlcp := (lcp_eq_length_left_iff (n.bits p) key.bits).mpr hn
  simp only [LpmTrieNode.length_bits] at hlcp
  apply hn.eq_of_length
  simp only [LpmTrieNode.length_bits, BpfLpmTrieKey.length_bits]
  omega

structure LpmTrieNode.Ok (n : LpmTrieNode) : Prop where
  prefixlen_le : n.prefixlen ≤ p.maxPrefixlen
  length_data : n.data.length = p.dataSize + if n.isIntermediate then 0 else p.valueSize

def WellFormed (pre : List Bool) : NodePtr → Prop
  | .null => True
  | .node n child0 child1 =>
    n.Ok p
      ∧ pre <+: n.bits p
      ∧ WellFormed (n.bits p ++ [false]) child0
      ∧ WellFormed (n.bits p ++ [true]) child1

def nodeAt (q : List Bool) : NodePtr → Option LpmTrieNode
  | .null => none
  | .node n child0 child1 =>
    if q = n.bits p then
      some n
    else if n.bits p ++ [false] <+: q then
      nodeAt q child0
    else if n.bits p ++ [true] <+: q then
      nodeAt q child1
    else
      none

variable {p}

theorem nodeAt_self (n : LpmTrieNode) (child0 child1 : NodePtr)
    : nodeAt p (n.bits p) (.node n child0 child1) = some n := by
  simp [nodeAt]

theorem nodeAt_eq_none_of_not_isPrefix (h : ¬ n.bits p <+: q)
    : nodeAt p q (.node n child0 child1) = none := by
  have hne : q ≠ n.bits p := by
    rintro rfl
    simp at h
  have hnot (b : Bool) : ¬ n.bits p ++ [b] <+: q := fun h' => h ((List.prefix_append _ _).trans h')
  simp [nodeAt, hne, hnot]

theorem prefix_cases (p : Params) (n : LpmTrieNode) (q : List Bool)
    : q = n.bits p ∨ (∃ b, n.bits p ++ [b] <+: q) ∨ ¬ n.bits p <+: q := by
  by_cases h : n.bits p <+: q
  . by_cases hq : q = n.bits p
    . exact .inl hq
    . exact .inr (.inl (exists_snoc_isPrefix h hq))
  . exact .inr (.inr h)

theorem WellFormed.prefix_of_nodeAt {t : NodePtr} (hwf : WellFormed p pre t)
    (h : nodeAt p q t ≠ none)
    : pre <+: q := by
  cases t with
  | null => simp [nodeAt] at h
  | node m child0 child1 =>
    apply hwf.2.1.trans
    by_contra hno
    exact h (nodeAt_eq_none_of_not_isPrefix hno)

theorem WellFormed.nodeAt_eq_none {t : NodePtr} (hwf : WellFormed p pre t) (h : ¬ pre <+: q)
    : nodeAt p q t = none := by
  by_contra hne
  exact h (hwf.prefix_of_nodeAt hne)

theorem WellFormed.of_isPrefix {pre' : List Bool}
    (hwf : WellFormed p pre (.node n child0 child1)) (h : pre' <+: n.bits p)
    : WellFormed p pre' (.node n child0 child1) :=
  ⟨hwf.1, h, hwf.2.2⟩

def childAt (b : Bool) (child0 child1 : NodePtr) : NodePtr :=
  if b then child1 else child0

theorem NodePtr.childInduction {motive : NodePtr → Prop} (null : motive .null)
    (node : ∀ n child0 child1, (∀ b, motive (childAt b child0 child1)) →
      motive (.node n child0 child1))
    (t : NodePtr)
    : motive t := by
  induction t with
  | null => exact null
  | node n child0 child1 ih0 ih1 =>
    apply node
    intro b
    cases b
    . exact ih0
    . exact ih1

theorem WellFormed.childAt (hwf : WellFormed p pre (.node n child0 child1)) (b : Bool)
    : WellFormed p (n.bits p ++ [b]) (childAt b child0 child1) := by
  cases b
  . exact hwf.2.2.1
  . exact hwf.2.2.2

def setChild (b : Bool) (n : LpmTrieNode) (child0 child1 c : NodePtr) : NodePtr :=
  if b then .node n child0 c else .node n c child1

theorem WellFormed.setChild {c : NodePtr} (hwf : WellFormed p pre (.node n child0 child1))
    (hc : WellFormed p (n.bits p ++ [b]) c)
    : WellFormed p pre (setChild b n child0 child1 c) := by
  cases b
  . exact ⟨hwf.1, hwf.2.1, hc, hwf.2.2.2⟩
  . exact ⟨hwf.1, hwf.2.1, hwf.2.2.1, hc⟩

theorem nodeAt_childAt (h : n.bits p ++ [b] <+: q)
    : nodeAt p q (.node n child0 child1) = nodeAt p q (childAt b child0 child1) := by
  have hne := ne_of_snoc_isPrefix h
  have hother := not_isPrefix_snoc h
  cases b
  . simp [nodeAt, hne, h, childAt]
  . simp only [Bool.not_true] at hother
    simp [nodeAt, hne, h, hother, childAt]

theorem nodeAt_setChild (b : Bool) (n : LpmTrieNode) (child0 child1 c : NodePtr) (q : List Bool)
    : nodeAt p q (setChild b n child0 child1 c)
        =
      if n.bits p ++ [b] <+: q then nodeAt p q c else nodeAt p q (.node n child0 child1) := by
  split
  . next h =>
    cases b <;> exact nodeAt_childAt h
  . next h =>
    rcases prefix_cases p n q with hq | ⟨b', hq⟩ | hq
    . subst hq
      cases b <;> simp [setChild, nodeAt_self]
    . obtain rfl : b' = !b := by
        rw [eq_comm, Bool.not_eq]
        rintro rfl
        exact h hq
      cases b <;> simp [setChild, nodeAt_childAt hq, childAt]
    . cases b <;> simp [setChild, nodeAt_eq_none_of_not_isPrefix hq]

theorem WellFormed.nodeAt_of_isPrefix
    (hwf : WellFormed p pre (.node n child0 child1)) {s : List Bool}
    (hs : n.bits p ++ [b] <+: s) (hq : q <+: s)
    : nodeAt p q (.node n child0 child1)
        =
      if q = n.bits p then some n else nodeAt p q (LpmTrie.childAt b child0 child1) := by
  by_cases heq : q = n.bits p
  . simp [heq, nodeAt_self]
  . simp only [heq, ↓reduceIte]
    by_cases hpre : n.bits p ++ [b] <+: q
    . exact nodeAt_childAt hpre
    . rw [(hwf.childAt b).nodeAt_eq_none hpre]
      apply nodeAt_eq_none_of_not_isPrefix
      intro hn
      -- `q` and `n.bits p ++ [b]` are prefixes of `s`, so the longer one extends the other
      rcases Nat.lt_or_ge n.prefixlen q.length with hlt | hge
      . exact hpre (List.prefix_of_prefix_length_le hs hq (by simp; omega))
      . exact heq (hn.eq_of_length_le (by simpa using hge)).symm

def liveAt (p : Params) (t : NodePtr) (q : List Bool) : Option LpmTrieNode :=
  (nodeAt p q t).filter (fun n => !n.isIntermediate)

theorem liveAt_eq_none_of_nodeAt {t : NodePtr} (h : nodeAt p q t = none) : liveAt p t q = none := by
  simp [liveAt, h]

theorem WellFormed.prefix_of_liveAt {t : NodePtr} (hwf : WellFormed p pre t)
    (h : liveAt p t q = some n)
    : pre <+: q := by
  rw [liveAt, Option.filter_eq_some_iff] at h
  exact hwf.prefix_of_nodeAt (by simp [h.1])

theorem WellFormed.liveAt_of_isPrefix
    (hwf : WellFormed p pre (.node n child0 child1)) {s : List Bool}
    (hs : n.bits p ++ [b] <+: s) (hq : q <+: s) (hne : q ≠ n.bits p)
    : liveAt p (.node n child0 child1) q = liveAt p (LpmTrie.childAt b child0 child1) q := by
  simp [liveAt, hwf.nodeAt_of_isPrefix hs hq, hne]

end Bpftime.LpmTrie
