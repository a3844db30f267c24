import Bpftime.BpfMap.LpmTrie.NodeCount

/-!
This module contains the shape of the trie in every state of a history, which an update that runs
out of memory breaks.
-/

namespace Bpftime.LpmTrie

open BitPrefix

structure Link where
  parent : LpmTrieNode
  slot : Bool
  child : LpmTrieNode

namespace NodePtr

def nodes : NodePtr → List LpmTrieNode
  | .null => []
  | .node n child0 child1 => n :: (child0.nodes ++ child1.nodes)

def linksTo (parent : LpmTrieNode) (slot : Bool) : NodePtr → List Link
  | .null => []
  | .node n _ _ => [⟨parent, slot, n⟩]

def links : NodePtr → List Link
  | .null => []
  | .node n child0 child1 =>
    child0.linksTo n false ++ child1.linksTo n true ++ (child0.links ++ child1.links)

def storedCount (t : NodePtr) : Nat := t.nodes.countP (!·.isIntermediate)

end NodePtr

variable (p : Params)

/-- Children extend their parents in their slots, and stored nodes are counted. -/
structure Shaped (m : LpmTrieMapImpl) : Prop where
  longer : ∀ l ∈ m.root.links, l.parent.prefixlen < l.child.prefixlen
  agrees : ∀ l ∈ m.root.links, ∀ i < l.parent.prefixlen,
    extractBit p l.child.data i = extractBit p l.parent.data i
  slots : ∀ l ∈ m.root.links, extractBit p l.child.data l.parent.prefixlen = l.slot
  distinct : (m.root.nodes.map (LpmTrieNode.bits p)).Nodup
  counted : m.nEntries = m.root.storedCount
  bounded : m.nEntries ≤ p.maxEntries

variable {p} {pre : List Bool} {t : NodePtr}

section Links

theorem map_bits_nodes (t : NodePtr) : t.nodes.map (LpmTrieNode.bits p) = t.prefixes p := by
  induction t with
  | null => rfl
  | node n child0 child1 ih0 ih1 =>
    unfold NodePtr.nodes NodePtr.prefixes
    rw [List.map_cons, List.map_append, ih0, ih1]

theorem WellFormed.isPrefix_of_mem_links (hwf : WellFormed p pre t) {l : Link} (hl : l ∈ t.links)
    : l.parent.bits p ++ [l.slot] <+: l.child.bits p := by
  induction t generalizing pre with
  | null => cases hl
  | node n child0 child1 ih0 ih1 =>
    have hto {b : Bool} {c : NodePtr} (hc : WellFormed p (n.bits p ++ [b]) c)
        (hl : l ∈ c.linksTo n b) : l.parent.bits p ++ [l.slot] <+: l.child.bits p := by
      cases c with
      | null => cases hl
      | node m _ _ =>
        obtain rfl := List.mem_singleton.mp hl
        exact hc.2.1
    unfold NodePtr.links at hl
    simp only [List.mem_append] at hl
    rcases hl with (hl | hl) | hl | hl
    . exact hto hwf.2.2.1 hl
    . exact hto hwf.2.2.2 hl
    . exact ih0 hwf.2.2.1 hl
    . exact ih1 hwf.2.2.2 hl

theorem extractBit_of_isPrefix {n m : LpmTrieNode} {b : Bool} (h : n.bits p ++ [b] <+: m.bits p)
    : n.prefixlen < m.prefixlen
        ∧ (∀ i < n.prefixlen, extractBit p m.data i = extractBit p n.data i)
        ∧ extractBit p m.data n.prefixlen = b := by
  have hlen := h.length_le
  simp only [List.length_append, LpmTrieNode.length_bits, List.length_singleton] at hlen
  have hget : ∀ i ≤ n.prefixlen, some (extractBit p m.data i) = (n.bits p ++ [b])[i]? := by
    intro i hi
    obtain ⟨rest, hrest⟩ := h
    have hi' : i < (n.bits p ++ [b]).length := by
      simp only [List.length_append, LpmTrieNode.length_bits, List.length_singleton]
      omega
    have hleft : (n.bits p ++ [b] ++ rest)[i]? = (n.bits p ++ [b])[i]? :=
      List.getElem?_append_left hi'
    rw [← hleft, hrest]
    simp [LpmTrieNode.bits, show i < m.prefixlen by omega]
  refine ⟨by omega, ?_, ?_⟩
  . intro i hi
    have hbit := hget i (by omega)
    rw [List.getElem?_append_left (by simpa using hi)] at hbit
    simpa [LpmTrieNode.bits, hi] using hbit
  . have hbit := hget n.prefixlen (Nat.le_refl _)
    rw [List.getElem?_append_right (by simp)] at hbit
    simpa using hbit

end Links

section Count

theorem mem_nodes_node {n m : LpmTrieNode} {child0 child1 : NodePtr}
    : m ∈ (NodePtr.node n child0 child1).nodes
        ↔
      m = n ∨ ∃ b, m ∈ (childAt b child0 child1).nodes := by
  simp [NodePtr.nodes, childAt]

theorem mem_nodes_of_nodeAt {q : List Bool} {n : LpmTrieNode} (h : nodeAt p q t = some n)
    : n ∈ t.nodes ∧ n.bits p = q := by
  induction t using NodePtr.childInduction with
  | null => cases h
  | node m child0 child1 ih =>
    rw [mem_nodes_node]
    rcases prefix_cases p m q with hq | ⟨b, hq⟩ | hq
    . rw [hq, nodeAt_self] at h
      cases h
      exact ⟨.inl rfl, hq.symm⟩
    . rw [nodeAt_childAt hq] at h
      exact ⟨.inr ⟨b, (ih b h).1⟩, (ih b h).2⟩
    . rw [nodeAt_eq_none_of_not_isPrefix hq] at h
      cases h

theorem WellFormed.nodeAt_of_mem_nodes (hwf : WellFormed p pre t) {n : LpmTrieNode}
    (hn : n ∈ t.nodes)
    : nodeAt p (n.bits p) t = some n := by
  induction t using NodePtr.childInduction generalizing pre with
  | null => cases hn
  | node m child0 child1 ih =>
    rcases mem_nodes_node.mp hn with rfl | ⟨b, hn⟩
    . exact nodeAt_self n child0 child1
    . have hat := ih b (hwf.childAt b) hn
      rw [nodeAt_childAt ((hwf.childAt b).prefix_of_nodeAt (by simp [hat])), hat]

theorem WellFormed.liveAt_ne_none_iff (hwf : WellFormed p pre t) (q : List Bool)
    : liveAt p t q ≠ none ↔ q ∈ (t.nodes.filter (!·.isIntermediate)).map (LpmTrieNode.bits p) := by
  rw [List.mem_map, Option.ne_none_iff_exists']
  unfold liveAt
  constructor
  . rintro ⟨n, hn⟩
    rw [Option.filter_eq_some_iff] at hn
    obtain ⟨hmem, hbits⟩ := mem_nodes_of_nodeAt hn.1
    exact ⟨n, List.mem_filter.mpr ⟨hmem, hn.2⟩, hbits⟩
  . rintro ⟨n, hn, rfl⟩
    rw [List.mem_filter] at hn
    refine ⟨n, ?_⟩
    rw [Option.filter_eq_some_iff]
    exact ⟨hwf.nodeAt_of_mem_nodes hn.1, hn.2⟩

theorem WellFormed.nodup_bits (hwf : WellFormed p pre t)
    : (t.nodes.map (LpmTrieNode.bits p)).Nodup := by
  rw [map_bits_nodes]
  exact nodup_prefixes hwf

end Count

section Mark

variable {key : BpfLpmTrieKey p}

theorem storedCount_node (n : LpmTrieNode) (child0 child1 : NodePtr)
    : (NodePtr.node n child0 child1).storedCount
        = child0.storedCount + child1.storedCount + if n.isIntermediate then 0 else 1 := by
  unfold NodePtr.storedCount
  rw [NodePtr.nodes, List.countP_cons, List.countP_append]
  cases n.isIntermediate <;> simp

theorem storedCount_markWalk {t' : NodePtr} (h : markWalk p key t = some t')
    : t'.storedCount = t.storedCount + 1 := by
  induction t generalizing t' with
  | null => cases h
  | node n child0 child1 ih0 ih1 =>
    unfold markWalk at h
    dsimp only at h
    split at h
    . split at h
      next hhere =>
        cases h
        rw [storedCount_node, storedCount_node, hhere.2.2]
        rfl
      . cases h
    . split at h
      . obtain ⟨c, hc, rfl⟩ := Option.map_eq_some_iff.mp h
        rw [storedCount_node, storedCount_node, ih0 hc]
        omega
      . obtain ⟨c, hc, rfl⟩ := Option.map_eq_some_iff.mp h
        rw [storedCount_node, storedCount_node, ih1 hc]
        omega

end Mark

namespace History

variable {h : History}

theorem Tallied.storedCount_eq (ht : Tallied p h) : h.impl.root.storedCount = h.impl.nEntries := by
  have hwf := ht.ok.wellFormed
  have hcard : h.storedSet.encard
      = ((h.impl.root.nodes.filter (!·.isIntermediate)).map (LpmTrieNode.bits p)).length := by
    apply encard_eq_length
    . exact hwf.nodup_bits.sublist (List.filter_sublist.map _)
    . intro q
      rw [← hwf.liveAt_ne_none_iff, ← ht.ok.mem_storedSet_iff]
  rw [ht.encard_storedSet, List.length_map, ← List.countP_eq_length_filter] at hcard
  exact_mod_cast hcard.symm

theorem Tallied.shaped (ht : Tallied p h) : Shaped p h.impl := by
  have hwf := ht.ok.wellFormed
  have hlink := fun l hl => extractBit_of_isPrefix (hwf.isPrefix_of_mem_links (l := l) hl)
  exact {
    longer := fun l hl => (hlink l hl).1
    agrees := fun l hl => (hlink l hl).2.1
    slots := fun l hl => (hlink l hl).2.2
    distinct := hwf.nodup_bits
    counted := ht.storedCount_eq.symm
    bounded := ht.nEntries_le }

theorem storedCount_interruption {key : BpfLpmTrieKey p} {flags : UInt64} {grows : Bool}
    {impl : LpmTrieMapImpl} (ht : Tallied p h) (himpl : h.interruption p key flags grows = some impl)
    : impl.root.storedCount = impl.nEntries + 1 := by
  unfold interruption at himpl
  split at himpl
  . unfold interruptedUpdate at himpl
    split at himpl
    . cases himpl
    . obtain ⟨root, hroot, rfl⟩ := Option.map_eq_some_iff.mp himpl
      dsimp only
      rw [storedCount_markWalk hroot, ht.storedCount_eq]
  . cases himpl

theorem Tallied.shaped_step_iff (ht : Tallied p h) (op : Op p)
    : Shaped p (History.step p h op).impl ↔ ¬ Interrupts p h op := by
  constructor
  . intro hshaped hint
    cases op with
    | update key value flags alloc grows =>
      rw [ht.interrupts_iff] at hint
      obtain ⟨impl, himpl⟩ := Option.isSome_iff_exists.mp hint
      have hcount := storedCount_interruption ht himpl
      have hcounted := hshaped.counted
      simp only [History.step, himpl] at hcounted
      omega
    | delete key => exact hint
  . intro hop
    exact (ht.step hop).shaped

theorem shaped_run_iff (ops : List (Op p))
    : (∀ before, before <+: ops → Shaped p (run p before).impl) ↔ Uninterrupted p ops := by
  have hiff := Run.along_iff_of_invariant (Tallied p) (fun _ _ ht hop => ht.step hop)
    (fun _ op ht => ht.shaped_step_iff op) ops empty tallied_empty
  rw [Run.along_iff_foldl, Run.along_iff_foldl] at hiff
  refine Iff.trans ?_ hiff
  constructor
  . intro h before op hbefore
    have hshaped := h (before ++ [op]) hbefore
    rw [run, List.foldl_concat] at hshaped
    exact hshaped
  . intro h before hbefore
    cases before using List.reverseRecOn with
    | nil => exact tallied_empty.shaped
    | append_singleton before op =>
      rw [run, List.foldl_concat]
      exact h before op hbefore

def outOfMemory : List (Op ⟨1, 64, 4⟩) :=
  [.update ⟨2, .replicate _ 0x80⟩ (.replicate _ 1) BPF_ANY ⟨true, true⟩ true,
   .update ⟨2, .replicate _ 0xC0⟩ (.replicate _ 2) BPF_ANY ⟨true, true⟩ true,
   .update ⟨1, .replicate _ 0x80⟩ (.replicate _ 3) BPF_ANY ⟨true, true⟩ false]

theorem not_shaped_outOfMemory
    : ¬ ∀ before, before <+: outOfMemory → Shaped ⟨1, 64, 4⟩ (run _ before).impl := by
  intro h
  have hcounted := (h outOfMemory List.prefix_rfl).counted
  revert hcounted
  decide

end History

end Bpftime.LpmTrie
