import Bpftime.BpfMap.LpmTrie.Errors

namespace Bpftime.LpmTrie

open BitPrefix

def NodePtr.nodeCount : NodePtr → Nat
  | .null => 0
  | .node _ child0 child1 => 1 + child0.nodeCount + child1.nodeCount

def NodePtr.prefixes (p : Params) : NodePtr → List (List Bool)
  | .null => []
  | .node n child0 child1 => n.bits p :: (child0.prefixes p ++ child1.prefixes p)

variable {p : Params} {pre : List Bool} {t : NodePtr}

theorem length_prefixes (t : NodePtr) : (t.prefixes p).length = t.nodeCount := by
  induction t with
  | null => rfl
  | node n child0 child1 ih0 ih1 =>
    unfold NodePtr.prefixes NodePtr.nodeCount
    rw [List.length_cons, List.length_append, ih0, ih1]
    omega

theorem mem_prefixes_node {n : LpmTrieNode} {child0 child1 : NodePtr} {q : List Bool}
    : q ∈ (NodePtr.node n child0 child1).prefixes p
        ↔
      q = n.bits p ∨ ∃ b, q ∈ (childAt b child0 child1).prefixes p := by
  simp [NodePtr.prefixes, childAt]

theorem mem_prefixes_iff (hwf : WellFormed p pre t) (q : List Bool)
    : q ∈ t.prefixes p ↔ nodeAt p q t ≠ none := by
  induction t using NodePtr.childInduction generalizing pre with
  | null => simp [NodePtr.prefixes, nodeAt]
  | node n child0 child1 ih =>
    have hchild (b : Bool) := ih b (hwf.childAt b)
    rw [mem_prefixes_node]
    constructor
    . rintro (rfl | ⟨b, hb⟩)
      . simp [nodeAt_self]
      . rw [hchild] at hb
        rw [nodeAt_childAt ((hwf.childAt b).prefix_of_nodeAt hb)]
        exact hb
    . intro h
      rcases prefix_cases p n q with heq | ⟨b, hb⟩ | hno
      . exact .inl heq
      . rw [nodeAt_childAt hb, ← hchild] at h
        exact .inr ⟨b, h⟩
      . exact absurd (nodeAt_eq_none_of_not_isPrefix hno) h

theorem isPrefix_of_mem_prefixes (hwf : WellFormed p pre t) {q : List Bool} (hq : q ∈ t.prefixes p)
    : pre <+: q := by
  rw [mem_prefixes_iff hwf] at hq
  exact hwf.prefix_of_nodeAt hq

theorem nodup_prefixes (hwf : WellFormed p pre t) : (t.prefixes p).Nodup := by
  induction t generalizing pre with
  | null => exact List.nodup_nil
  | node n child0 child1 ih0 ih1 =>
    unfold NodePtr.prefixes
    rw [List.nodup_cons, List.mem_append]
    constructor
    . rintro (hmem | hmem)
      . exact ne_of_snoc_isPrefix (isPrefix_of_mem_prefixes hwf.2.2.1 hmem) rfl
      . exact ne_of_snoc_isPrefix (isPrefix_of_mem_prefixes hwf.2.2.2 hmem) rfl
    . apply List.Nodup.append (ih0 hwf.2.2.1) (ih1 hwf.2.2.2)
      intro q hq0 hq1
      have hfalse := isPrefix_of_mem_prefixes hwf.2.2.1 hq0
      exact not_isPrefix_snoc hfalse (isPrefix_of_mem_prefixes hwf.2.2.2 hq1)

def Branching (p : Params) (E : List Bool → Bool) (t : NodePtr) : Prop :=
  ∀ q ∈ t.prefixes p, E q = true
    ∨ (∃ a ∈ t.prefixes p, q ++ [false] <+: a) ∧ (∃ b ∈ t.prefixes p, q ++ [true] <+: b)

section branching

variable {E : List Bool → Bool} {n : LpmTrieNode} {child0 child1 : NodePtr}

theorem mem_prefixes_childAt (hwf : WellFormed p pre (.node n child0 child1)) {b : Bool}
    {q : List Bool} (hq : q ∈ (NodePtr.node n child0 child1).prefixes p)
    (hb : n.bits p ++ [b] <+: q)
    : q ∈ (childAt b child0 child1).prefixes p := by
  rw [mem_prefixes_iff hwf, nodeAt_childAt hb] at hq
  rw [mem_prefixes_iff (hwf.childAt b)]
  exact hq

theorem Branching.childAt (hwf : WellFormed p pre (.node n child0 child1))
    (h : Branching p E (.node n child0 child1)) (b : Bool)
    : Branching p E (childAt b child0 child1) := by
  intro q hq
  have hb := isPrefix_of_mem_prefixes (hwf.childAt b) hq
  have hmem : q ∈ (NodePtr.node n child0 child1).prefixes p := mem_prefixes_node.mpr (.inr ⟨b, hq⟩)
  have hbelow {a : List Bool} {c : Bool} (ha : q ++ [c] <+: a) : n.bits p ++ [b] <+: a :=
    hb.trans ((List.prefix_append q [c]).trans ha)
  rcases h q hmem with hE | ⟨⟨a, ha, hqa⟩, ⟨a', ha', hqa'⟩⟩
  . exact .inl hE
  . right
    exact ⟨⟨a, mem_prefixes_childAt hwf ha (hbelow hqa), hqa⟩,
      ⟨a', mem_prefixes_childAt hwf ha' (hbelow hqa'), hqa'⟩⟩

theorem nodeCount_lt_of_branching (hwf : WellFormed p pre t) (h : Branching p E t) (hne : t ≠ .null)
    : t.nodeCount < 2 * ((t.prefixes p).filter E).length := by
  induction t generalizing pre with
  | null => exact absurd rfl hne
  | node n child0 child1 ih0 ih1 =>
    have h0 : child0 ≠ .null → _ := ih0 hwf.2.2.1 (h.childAt hwf false)
    have h1 : child1 ≠ .null → _ := ih1 hwf.2.2.2 (h.childAt hwf true)
    have hle {c : NodePtr} (hc : c ≠ .null → c.nodeCount < 2 * ((c.prefixes p).filter E).length)
        : c.nodeCount ≤ 2 * ((c.prefixes p).filter E).length := by
      by_cases hnull : c = .null
      . rw [hnull]
        exact Nat.zero_le _
      . exact Nat.le_of_lt (hc hnull)
    unfold NodePtr.nodeCount NodePtr.prefixes
    rw [List.filter_cons, List.filter_append]
    rcases h (n.bits p) (by simp [NodePtr.prefixes]) with hE | ⟨⟨a, ha, hna⟩, ⟨b, hb, hnb⟩⟩
    . have hle0 := hle h0
      have hle1 := hle h1
      rw [if_pos hE, List.length_cons, List.length_append]
      omega
    . have hne {b : Bool} {q : List Bool} (hq : q ∈ (NodePtr.node n child0 child1).prefixes p)
          (hb : n.bits p ++ [b] <+: q) : LpmTrie.childAt b child0 child1 ≠ .null := by
        intro heq
        have hmem := mem_prefixes_childAt hwf hq hb
        rw [heq] at hmem
        cases hmem
      have hlt0 := h0 (hne ha hna)
      have hlt1 := h1 (hne hb hnb)
      split
      . rw [List.length_cons, List.length_append]
        omega
      . rw [List.length_append]
        omega

end branching

namespace History

def everSet (h : History) : Set (List Bool) := {q | h.ever q = true}

theorem encard_eq_length {l : List (List Bool)} (hl : l.Nodup) {S : Set (List Bool)}
    (hS : ∀ q, q ∈ l ↔ q ∈ S)
    : S.encard = l.length := by
  have heq : S = (l.toFinset : Set (List Bool)) := by
    ext q
    rw [← hS]
    simp
  rw [heq, Set.encard_coe_eq_coe_finsetCard, List.toFinset_card_of_nodup hl]

theorem Tallied.mem_prefixes_iff {h : History} (ht : Tallied p h) (q : List Bool)
    : q ∈ h.impl.root.prefixes p ↔ Marked h q := by
  rw [LpmTrie.mem_prefixes_iff ht.ok.wellFormed, ht.nodes_iff]

theorem Tallied.encard_marked {h : History} (ht : Tallied p h)
    : {q | Marked h q}.encard = h.impl.root.nodeCount := by
  rw [← length_prefixes (p := p)]
  exact encard_eq_length (nodup_prefixes ht.ok.wellFormed) ht.mem_prefixes_iff

theorem Tallied.encard_everSet {h : History} (ht : Tallied p h)
    : h.everSet.encard = ((h.impl.root.prefixes p).filter h.ever).length := by
  apply encard_eq_length ((nodup_prefixes ht.ok.wellFormed).filter _)
  intro q
  rw [List.mem_filter, ht.mem_prefixes_iff]
  constructor
  . intro ⟨_, hever⟩
    exact hever
  . intro hever
    exact ⟨.inl hever, hever⟩

theorem Tallied.branching {h : History} (ht : Tallied p h) : Branching p h.ever h.impl.root := by
  intro q hq
  rcases (ht.mem_prefixes_iff q).mp hq with hever | ⟨a, b, ha, hb, hqa, hqb⟩
  . exact .inl hever
  . right
    exact ⟨⟨a, (ht.mem_prefixes_iff a).mpr (.inl ha), hqa⟩,
      ⟨b, (ht.mem_prefixes_iff b).mpr (.inl hb), hqb⟩⟩

theorem Tallied.nodeCount_le {h : History} (ht : Tallied p h)
    : (h.impl.root.nodeCount : ℕ∞) ≤ 2 * h.everSet.encard := by
  rw [ht.encard_everSet]
  by_cases hnull : h.impl.root = .null
  . rw [hnull]
    exact zero_le
  . have hlt := nodeCount_lt_of_branching ht.ok.wellFormed ht.branching hnull
    exact_mod_cast Nat.le_of_lt hlt

theorem nodeCount_run_le (ops : List (Op p)) (hops : Uninterrupted p ops)
    : ((run p ops).impl.root.nodeCount : ℕ∞) = {q | Marked (run p ops) q}.encard
        ∧ ((run p ops).impl.root.nodeCount : ℕ∞) ≤ 2 * (run p ops).everSet.encard := by
  have ht := tallied_run hops
  exact ⟨ht.encard_marked.symm, ht.nodeCount_le⟩

def replaceOnly : List (Op ⟨1, 1, 1⟩) :=
  [.update ⟨1, .replicate _ 0x00⟩ (.replicate _ 7) BPF_ANY ⟨true, true⟩ true,
   .delete ⟨1, .replicate _ 0x00⟩,
   .update ⟨1, .replicate _ 0x80⟩ (.replicate _ 9) BPF_ANY ⟨true, true⟩ true]

theorem nodeCount_run_le_replaceOnly
    : ((run ⟨1, 1, 1⟩ replaceOnly).impl.root.nodeCount : ℕ∞)
          = {q | Marked (run ⟨1, 1, 1⟩ replaceOnly) q}.encard
        ∧ ((run ⟨1, 1, 1⟩ replaceOnly).impl.root.nodeCount : ℕ∞)
          ≤ 2 * (run ⟨1, 1, 1⟩ replaceOnly).everSet.encard :=
  nodeCount_run_le replaceOnly (uninterrupted_of_grows (by decide))

theorem nodeCount_replaceOnly : (run ⟨1, 1, 1⟩ replaceOnly).impl.root.nodeCount = 3
        ∧ ¬ (run ⟨1, 1, 1⟩ replaceOnly).impl.root.nodeCount ≤ 2 * 1 := by
  decide

end History

end Bpftime.LpmTrie
