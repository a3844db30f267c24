import Bpftime.BpfMap.LpmTrie.History
import Bpftime.Data.Run

/-!
This module contains which error an update gives, in terms of what is stored.
-/

namespace Bpftime.LpmTrie

open BitPrefix

variable {p : Params} {key : BpfLpmTrieKey p} {value : Value p}

section answer

variable {flags : UInt64} {alloc : Alloc} {nEntries : Nat} {pre : List Bool} {t : NodePtr}

def verdict (p : Params) (flags : UInt64) (nEntries : Nat) : Option LpmTrieNode → Except Errno Nat
  | none => do
    checkInsert p flags nEntries
    return nEntries + 1
  | some n =>
    if flags = BPF_NOEXIST then
      .error .EEXIST
    else if n.isIntermediate then do
      checkInsert p flags nEntries
      return nEntries + 1
    else
      .ok nEntries

def Answers (alloc : Alloc) (answer : Except Errno Nat) (res : Except Errno (NodePtr × Nat)) : Prop :=
  res.map Prod.snd = answer ∨ (alloc ≠ ⟨true, true⟩ ∧ res = .error .ENOMEM)

theorem Answers.ok_of {answer : Except Errno Nat} {r : NodePtr × Nat} (h : answer = .ok r.2)
    : Answers alloc answer (.ok r) := by
  left
  rw [h]
  rfl

theorem Answers.bind_createNodeFor {answer : Except Errno Nat} {ok : Bool}
    {v : Option (Value p)} {isIntermediate : Bool} {prefixlen : Nat}
    {f : LpmTrieNode → Except Errno (NodePtr × Nat)} (h : ∀ n, Answers alloc answer (f n))
    (hok : ok = false → alloc ≠ ⟨true, true⟩ := by rintro h rfl; cases h)
    : Answers alloc answer (createNodeFor p ok v isIntermediate prefixlen key >>= f) := by
  cases ok with
  | false => exact .inr ⟨hok rfl, rfl⟩
  | true => cases isIntermediate <;> cases v <;> exact h _

theorem Answers.bind_checkInsert {f : Unit → Except Errno (NodePtr × Nat)}
    (h : Answers alloc (.ok (nEntries + 1)) (f ()))
    : Answers alloc (verdict p flags nEntries none) (checkInsert p flags nEntries >>= f) := by
  unfold verdict
  cases checkInsert p flags nEntries with
  | error e =>
    left
    rfl
  | ok _ => exact h

theorem insertLeaf_answers
    : Answers alloc (verdict p flags nEntries none) (insertLeaf p key value flags alloc nEntries) := by
  apply Answers.bind_checkInsert
  refine .bind_createNodeFor ?_
  intro new
  exact .ok_of rfl

theorem insertAncestor_answers {n : LpmTrieNode} {slot : NodePtr} {matchlen : Nat}
    : Answers alloc (verdict p flags nEntries none)
        (insertAncestor p key value flags alloc nEntries n slot matchlen) := by
  apply Answers.bind_checkInsert
  refine .bind_createNodeFor ?_
  intro new
  split <;> exact .ok_of rfl

theorem insertSplit_answers {slot : NodePtr} {matchlen : Nat}
    : Answers alloc (verdict p flags nEntries none)
        (insertSplit p key value flags alloc nEntries slot matchlen) := by
  apply Answers.bind_checkInsert
  refine .bind_createNodeFor ?_
  intro new
  refine .bind_createNodeFor ?_
  intro im
  split <;> exact .ok_of rfl

theorem replaceNode_answers {n : LpmTrieNode} {child0 child1 : NodePtr}
    : Answers alloc (verdict p flags nEntries (some n))
        (replaceNode p value flags nEntries n child0 child1) := by
  left
  simp only [replaceNode, verdict, checkInsert]
  cases n.isIntermediate with
  | false =>
    simp only [Bool.not_false, Bool.not_true, Bool.false_eq_true, and_false, ↓reduceIte]
    split <;> rfl
  | true =>
    simp only [Bool.not_false, Bool.not_true, and_true, ↓reduceIte]
    split
    . rfl
    . split
      . rfl
      . split <;> rfl

theorem updateSlot_answers (hstop : ∀ n child0 child1, t = .node n child0 child1 →
      n.prefixlen ≠ lcp (n.bits p) key.bits ∨ n.prefixlen = key.prefixlen)
    : Answers alloc (verdict p flags nEntries (nodeAt p key.bits t))
        (updateSlot p key value flags alloc nEntries t) := by
  cases t with
  | null => exact insertLeaf_answers
  | node n child0 child1 =>
    have hstop := hstop n child0 child1 rfl
    have hnone (hne : n.bits p ≠ key.bits) : nodeAt p key.bits (.node n child0 child1) = none := by
      apply nodeAt_eq_none_of_not_isPrefix
      intro hn
      exact hne (bits_eq_of_isPrefix hstop hn)
    simp only [updateSlot, longestPrefixMatch_eq_lcp]
    split
    . next hlen =>
      split
      . next hexact =>
        rw [← bits_eq_iff.mpr ⟨hlen, hexact⟩, nodeAt_self]
        exact replaceNode_answers
      . next hexact =>
        rw [hnone (fun heq => hexact (bits_eq_iff.mp heq).2)]
        exact insertSplit_answers
    . next hlen =>
      rw [hnone (fun heq => hlen (bits_eq_iff.mp heq).1)]
      split
      . exact insertAncestor_answers
      . exact insertSplit_answers

theorem Answers.of_child {answer : Except Errno Nat} {res : Except Errno (NodePtr × Nat)}
    (h : Answers alloc answer res) (f : NodePtr → NodePtr)
    : Answers alloc answer (do
        let (c, nEntries) ← res
        return (f c, nEntries)) := by
  rcases h with h | ⟨hno, h⟩
  . left
    rw [← h]
    cases res <;> rfl
  . right
    rw [h]
    exact ⟨hno, rfl⟩

theorem updateWalk_answers (hwf : WellFormed p pre t) (hkey : key.prefixlen ≤ p.maxPrefixlen)
    : Answers alloc (verdict p flags nEntries (nodeAt p key.bits t))
        (updateWalk p key value flags alloc nEntries t) := by
  induction t using NodePtr.childInduction generalizing pre with
  | null => exact insertLeaf_answers
  | node n child0 child1 ih =>
    rw [updateWalk_node]
    split
    . next hstop =>
      apply updateSlot_answers
      exact stops_of_walk hkey hstop
    . next hgo =>
      rw [nodeAt_childAt (snoc_isPrefix_of_lcp fun h => hgo (h.imp_right .inl))]
      exact (ih _ (hwf.childAt _)).of_child _

theorem elemUpdate_answers {m : LpmTrieMapImpl} (hwf : WellFormed p [] m.root)
    (hflags : flags = BPF_ANY ∨ flags = BPF_NOEXIST ∨ flags = BPF_EXIST)
    (hkey : key.prefixlen ≤ p.maxPrefixlen)
    : (elemUpdate p m key value flags alloc).map (·.nEntries)
        = verdict p flags m.nEntries (nodeAt p key.bits m.root)
      ∨ (alloc ≠ ⟨true, true⟩ ∧ elemUpdate p m key value flags alloc = .error .ENOMEM) := by
  have hslot : Answers alloc (verdict p flags m.nEntries (nodeAt p key.bits m.root))
      (updateWalk p key value flags alloc m.nEntries m.root) :=
    updateWalk_answers hwf hkey
  have hupdate : elemUpdate p m key value flags alloc = (do
      let (root, nEntries) ← updateWalk p key value flags alloc m.nEntries m.root
      return ⟨root, nEntries⟩) := by
    unfold elemUpdate
    rw [if_neg, if_neg (by omega)]
    . cases m.root <;> rfl
    . rintro ⟨hany, hnoexist, hexist⟩
      rcases hflags with heq | heq | heq
      . exact hany heq
      . exact hnoexist heq
      . exact hexist heq
  rw [hupdate]
  rcases hslot with h | ⟨hno, h⟩
  . left
    rw [← h]
    cases updateWalk p key value flags alloc m.nEntries m.root <;> rfl
  . right
    rw [h]
    exact ⟨hno, rfl⟩

theorem lt_of_checkInsert (h : checkInsert p flags nEntries = .ok ()) : nEntries < p.maxEntries := by
  unfold checkInsert at h
  split at h
  . simp at h
  . split at h
    . simp at h
    . omega

theorem verdict_eq_ok {found : Option LpmTrieNode} {k : Nat}
    (h : verdict p flags nEntries found = .ok k)
    : (found.filter (fun n => !n.isIntermediate) = none ∧ nEntries < p.maxEntries
        ∧ k = nEntries + 1)
      ∨ (found.filter (fun n => !n.isIntermediate) ≠ none ∧ k = nEntries) := by
  have hinsert (h : (do checkInsert p flags nEntries; return nEntries + 1) = .ok k)
      : nEntries < p.maxEntries ∧ k = nEntries + 1 := by
    simp only [bind_eq_ok, pure, Except.pure, Except.ok.injEq] at h
    rcases h with ⟨_, hcheck, hk⟩
    exact ⟨lt_of_checkInsert hcheck, hk.symm⟩
  cases found with
  | none =>
    left
    exact ⟨rfl, hinsert h⟩
  | some n =>
    simp only [verdict] at h
    split at h
    . simp at h
    . split at h
      . next hint =>
        left
        exact ⟨by simp [hint], hinsert h⟩
      . next hint =>
        right
        exact ⟨by simpa [Option.filter_some] using hint, (Except.ok.inj h).symm⟩

theorem elemUpdate_nEntries {m m' : LpmTrieMapImpl} (hwf : WellFormed p [] m.root)
    (h : elemUpdate p m key value flags alloc = .ok m')
    : (liveAt p m.root key.bits = none ∧ m.nEntries < p.maxEntries ∧ m'.nEntries = m.nEntries + 1)
      ∨ (liveAt p m.root key.bits ≠ none ∧ m'.nEntries = m.nEntries) := by
  have hkey := (elemUpdate_spec hwf h).1
  have hflags : flags = BPF_ANY ∨ flags = BPF_NOEXIST ∨ flags = BPF_EXIST := by
    by_contra hno
    unfold elemUpdate at h
    rw [if_pos (by simpa using hno)] at h
    simp at h
  apply verdict_eq_ok
  rcases elemUpdate_answers hwf hflags hkey with heq | ⟨-, herr⟩
  . rw [← heq, h]
    rfl
  . rw [h] at herr
    simp at herr

theorem deleteWalk_nEntries {t' : NodePtr} {k : Nat} (h : deleteWalk p key nEntries t = .ok (t', k))
    : liveAt p t key.bits ≠ none ∧ k = nEntries - 1 := by
  induction t using NodePtr.childInduction generalizing t' k with
  | null => simp [deleteWalk, deleteSlot] at h
  | node n child0 child1 ih =>
    rw [deleteWalk_node] at h
    split at h
    . simp only [deleteSlot, longestPrefixMatch_eq_lcp] at h
      split at h
      . simp at h
      . next hyes =>
        simp only [ne_eq, not_or, not_not, Bool.not_eq_true] at hyes
        simp only [Except.ok.injEq, Prod.mk.injEq] at h
        have hbits : n.bits p = key.bits := bits_eq_iff.mpr ⟨by omega, by omega⟩
        refine ⟨?_, ?_⟩
        . rw [← hbits, liveAt, nodeAt_self]
          simp [hyes]
        . rw [← h.2]
          split
          . rfl
          . omega
    . next hgo =>
      rw [liveAt, nodeAt_childAt (snoc_isPrefix_of_lcp hgo)]
      simp only [bind_eq_ok, pure, Except.pure, Except.ok.injEq, Prod.mk.injEq] at h
      rcases h with ⟨⟨c, k'⟩, hc, -, rfl⟩
      exact ih _ hc

theorem elemDelete_nEntries {m m' : LpmTrieMapImpl} (h : elemDelete p m key = .ok m')
    : liveAt p m.root key.bits ≠ none ∧ m'.nEntries = m.nEntries - 1 := by
  unfold elemDelete at h
  split at h
  . simp at h
  . simp only [bind_eq_ok, pure, Except.pure, Except.ok.injEq] at h
    rcases h with ⟨⟨t, k⟩, ht, rfl⟩
    exact deleteWalk_nEntries ht

end answer

theorem WellFormed.markWalk_isSome_iff {pre : List Bool} {t : NodePtr} (hwf : WellFormed p pre t)
    (hkey : key.prefixlen ≤ p.maxPrefixlen)
    : (markWalk p key t).isSome ↔ ∃ n, nodeAt p key.bits t = some n ∧ n.isIntermediate = true := by
  induction t using NodePtr.childInduction generalizing pre with
  | null => simp [markWalk, nodeAt]
  | node n child0 child1 ih =>
    unfold markWalk
    simp only [longestPrefixMatch_eq_lcp]
    split
    next hstop =>
      by_cases hbits : n.bits p = key.bits
      . obtain ⟨hlen, hlcp⟩ := bits_eq_iff.mp hbits
        have hat : nodeAt p key.bits (.node n child0 child1) = some n := by
          rw [← hbits, nodeAt_self]
        simp only [hat, hlen, hlcp, true_and, Option.some.injEq, exists_eq_left']
        split
        next hint => simp [hint]
        next hint => simpa using hint
      . have hnot : ¬ n.bits p <+: key.bits := fun hn =>
          hbits (bits_eq_of_isPrefix (stops_of_walk hkey hstop n child0 child1 rfl) hn)
        have hne : ¬(n.prefixlen = key.prefixlen ∧ lcp (n.bits p) key.bits = key.prefixlen) :=
          fun h => hbits (bits_eq_iff.mpr h)
        rw [nodeAt_eq_none_of_not_isPrefix hnot, if_neg (by tauto)]
        simp
    next hgo =>
      rw [nodeAt_childAt (snoc_isPrefix_of_lcp fun h => hgo (h.imp_right .inl))]
      cases extractBit p key.data.toList n.prefixlen with
      | false =>
        simp only [Option.isSome_map]
        exact ih false (hwf.childAt false)
      | true =>
        simp only [Option.isSome_map]
        exact ih true (hwf.childAt true)

theorem WellFormed.nodeAt_of_parting {pre : List Bool} {t : NodePtr} (hwf : WellFormed p pre t)
    {q a b : List Bool} (ha : nodeAt p a t ≠ none) (hb : nodeAt p b t ≠ none)
    (hqa : q ++ [false] <+: a) (hqb : q ++ [true] <+: b)
    : nodeAt p q t ≠ none := by
  induction t using NodePtr.childInduction generalizing pre with
  | null => simp [nodeAt] at ha
  | node n child0 child1 ih =>
    have hna : n.bits p <+: a := by
      by_contra hno
      exact ha (nodeAt_eq_none_of_not_isPrefix hno)
    have hnb : n.bits p <+: b := by
      by_contra hno
      exact hb (nodeAt_eq_none_of_not_isPrefix hno)
    have hnq : n.bits p <+: q := by
      have hq := (List.prefix_append q [false]).trans hqa
      rcases Nat.lt_or_ge q.length (n.bits p).length with hlt | hge
      . have hf := List.prefix_of_prefix_length_le hqa hna (by simpa using hlt)
        have ht := List.prefix_of_prefix_length_le hqb hnb (by simpa using hlt)
        exact absurd ht (not_isPrefix_snoc hf)
      . exact List.prefix_of_prefix_length_le hna hq hge
    by_cases heq : q = n.bits p
    . rw [heq, nodeAt_self]
      simp
    . obtain ⟨c, hc⟩ := exists_snoc_isPrefix hnq heq
      rw [nodeAt_childAt (hc.trans ((List.prefix_append q [false]).trans hqa))] at ha
      rw [nodeAt_childAt (hc.trans ((List.prefix_append q [true]).trans hqb))] at hb
      rw [nodeAt_childAt hc]
      exact ih c (hwf.childAt c) ha hb

namespace History

structure Tallied (p : Params) (h : History) : Prop where
  ok : Ok p h
  nodes_iff : ∀ q, nodeAt p q h.impl.root ≠ none ↔ Marked h q
  encard_storedSet : h.storedSet.encard = h.impl.nEntries
  nEntries_le : h.impl.nEntries ≤ p.maxEntries
  ever_of_stored : ∀ q ∈ h.storedSet, h.ever q = true

theorem tallied_empty : Tallied p empty := by
  refine ⟨ok_empty, ?_, ?_, ?_, ?_⟩
  . simp [empty, LpmTrieMapImpl.empty, nodeAt, Marked]
  . simp [empty, LpmTrieMapImpl.empty, storedSet]
  . simp [empty, LpmTrieMapImpl.empty]
  . simp [empty, storedSet]

variable {h : History} {q : List Bool} {flags : UInt64} {alloc : Alloc}

theorem Marked.mono {h' : History} (hq : Marked h q)
    (hever : ∀ r, h.ever r = true → h'.ever r = true)
    : Marked h' q := by
  rcases hq with hq | ⟨a, b, ha, hb, hqa, hqb⟩
  . left
    exact hever q hq
  . right
    exact ⟨a, b, hever a ha, hever b hb, hqa, hqb⟩

theorem Marked.ever_below (hq : Marked h q) : ∃ a, h.ever a = true ∧ q <+: a := by
  rcases hq with hq | ⟨a, -, ha, -, hqa, -⟩
  . exact ⟨q, hq, List.prefix_rfl⟩
  . exact ⟨a, ha, (List.prefix_append q [false]).trans hqa⟩

theorem storedSet_update_some (h : History) (impl : LpmTrieMapImpl) (q : List Bool) (v : List UInt8)
    (ever : List Bool → Bool)
    : storedSet ⟨impl, Function.update h.stored q (some v), ever⟩ = insert q h.storedSet := by
  ext r
  by_cases hr : r = q <;> simp [storedSet, hr]

theorem storedSet_update_none (h : History) (impl : LpmTrieMapImpl) (q : List Bool)
    (ever : List Bool → Bool)
    : storedSet ⟨impl, Function.update h.stored q none, ever⟩ = h.storedSet \ {q} := by
  ext r
  by_cases hr : r = q <;> simp [storedSet, hr]

theorem Ok.mem_storedSet_iff (hok : Ok p h) (q : List Bool)
    : q ∈ h.storedSet ↔ liveAt p h.impl.root q ≠ none := by
  simp only [storedSet, Set.mem_ofPred_eq, hok.stored_eq_bind_liveAt]
  cases hlive : liveAt p h.impl.root q with
  | none => simp
  | some n =>
    simp only [liveAt, Option.filter_eq_some_iff, Bool.not_eq_true'] at hlive
    simp [getNodeValueData, hlive.2]

theorem Tallied.marked_update (ht : Tallied p h) {impl : LpmTrieMapImpl}
    (hwf : WellFormed p [] impl.root) (hplaced : Placed p key value h.impl.root impl.root)
    (q : List Bool)
    : nodeAt p q impl.root ≠ none
        ↔
      Marked ⟨impl, Function.update h.stored key.bits (some value.toList),
        Function.update h.ever key.bits true⟩ q := by
  have hmono : ∀ r, h.ever r = true → Function.update h.ever key.bits true r = true := by
    intro r hr
    by_cases heq : r = key.bits <;> simp [heq, hr]
  have hself : nodeAt p key.bits impl.root ≠ none := by
    rcases hplaced.self with ⟨n, hn, -⟩
    simp [hn]
  have hkept : ∀ r, nodeAt p r h.impl.root ≠ none → nodeAt p r impl.root ≠ none := by
    intro r hr
    by_cases heq : r = key.bits
    . rw [heq]
      exact hself
    . rcases hplaced.other r heq with hsame | ⟨hnone, -⟩
      . rw [hsame]
        exact hr
      . exact absurd hnone hr
  have hnode : ∀ r, Function.update h.ever key.bits true r = true → nodeAt p r impl.root ≠ none := by
    intro r hr
    by_cases heq : r = key.bits
    . rw [heq]
      exact hself
    . rw [Function.update_of_ne heq] at hr
      exact hkept r ((ht.nodes_iff r).mpr (.inl hr))
  constructor
  . intro hq
    by_cases heq : q = key.bits
    . left
      simp [heq]
    . by_cases hsame : nodeAt p q impl.root = nodeAt p q h.impl.root
      . rw [hsame] at hq
        exact ((ht.nodes_iff q).mp hq).mono hmono
      . -- a new node: below it the key on one side, an older prefix on the other
        rcases hplaced.branch q heq hsame with ⟨b, r, hk, hr, hold⟩
        rcases ((ht.nodes_iff r).mp hold).ever_below with ⟨a, ha, hra⟩
        right
        cases b with
        | false => exact ⟨key.bits, a, by simp, hmono a ha, hk, hr.trans hra⟩
        | true => exact ⟨a, key.bits, hmono a ha, by simp, hr.trans hra, hk⟩
  . rintro (hq | ⟨a, b, ha, hb, hqa, hqb⟩)
    . exact hnode q hq
    . exact hwf.nodeAt_of_parting (hnode a ha) (hnode b hb) hqa hqb

theorem Tallied.update (ht : Tallied p h)
    {impl : LpmTrieMapImpl} (himpl : elemUpdate p h.impl key value flags alloc = .ok impl)
    : Tallied p ⟨impl, Function.update h.stored key.bits (some value.toList),
        Function.update h.ever key.bits true⟩ := by
  rcases elemUpdate_spec ht.ok.wellFormed himpl with ⟨hkey, hwf, hplaced⟩
  have hmem := ht.ok.mem_storedSet_iff key.bits
  have hcard := ht.encard_storedSet
  have hle := ht.nEntries_le
  refine ⟨ht.ok.update hkey hwf hplaced.toInserted, ht.marked_update hwf hplaced, ?_, ?_, ?_⟩
  . rw [storedSet_update_some]
    rcases elemUpdate_nEntries ht.ok.wellFormed himpl with ⟨hlive, -, hn⟩ | ⟨hlive, hn⟩
    . rw [Set.encard_insert_of_notMem (by simp [hmem, hlive]), hcard, hn]
      rfl
    . rw [Set.insert_eq_of_mem (hmem.mpr hlive), hcard, hn]
  . rcases elemUpdate_nEntries ht.ok.wellFormed himpl with ⟨-, hlt, hn⟩ | ⟨-, hn⟩
    . simp only [hn]
      omega
    . simp only [hn]
      exact hle
  . intro q hq
    rw [storedSet_update_some, Set.mem_insert_iff] at hq
    by_cases heq : q = key.bits
    . simp [heq]
    . simpa [heq] using ht.ever_of_stored q (hq.resolve_left heq)

theorem Tallied.delete (ht : Tallied p h) {impl : LpmTrieMapImpl}
    (hkey : key.prefixlen ≤ p.maxPrefixlen) (himpl : elemDelete p h.impl key = .ok impl)
    : Tallied p ⟨impl, Function.update h.stored key.bits none, h.ever⟩ := by
  rcases (elemDelete_spec ht.ok.wellFormed key hkey).1 impl himpl with ⟨hwf, hdel⟩
  rcases elemDelete_nEntries himpl with ⟨hlive, hn⟩
  have hcard := ht.encard_storedSet
  have hle := ht.nEntries_le
  refine ⟨ht.ok.delete hwf hdel, ?_, ?_, ?_, ?_⟩
  . intro q
    have hq := ht.nodes_iff q
    by_cases heq : q = key.bits
    . rcases hdel.before with ⟨n, hbefore⟩
      rcases hdel.self with ⟨n', hafter, -⟩
      simp only [heq, hbefore, hafter, ne_eq, reduceCtorEq, not_false_eq_true, true_iff] at hq ⊢
      exact hq
    . simp only [hdel.other q heq]
      exact hq
  . rw [storedSet_update_none]
    have hmem := (ht.ok.mem_storedSet_iff key.bits).mpr hlive
    rw [Set.encard_sdiff_singleton_of_mem hmem, hcard, hn]
    rfl
  . simp only [hn]
    omega
  . intro q hq
    rw [storedSet_update_none] at hq
    exact ht.ever_of_stored q hq.1

theorem Tallied.put (ht : Tallied p h) (key : BpfLpmTrieKey p) (value : Value p) (flags : UInt64)
    (alloc : Alloc)
    : Tallied p (h.put p key value flags alloc) := by
  unfold History.put
  split
  . exact ht
  . next impl himpl => exact ht.update himpl

theorem Tallied.remove (ht : Tallied p h) (key : BpfLpmTrieKey p) : Tallied p (h.remove p key) := by
  unfold History.remove
  split
  . exact ht
  . next hkey =>
    have hkey : key.prefixlen ≤ p.maxPrefixlen := by omega
    split
    . next e he =>
      -- nothing was stored under the key, so removing it changes nothing
      have hnone := ht.ok.stored_eq_none ((elemDelete_spec ht.ok.wellFormed key hkey).2 e he)
      rw [← hnone, Function.update_eq_self]
      exact ht
    . next impl himpl => exact ht.delete hkey himpl

theorem Tallied.intermediate_iff (ht : Tallied p h) (hq : h.ever q = false)
    : (∃ n, nodeAt p q h.impl.root = some n ∧ n.isIntermediate = true) ↔ Marked h q := by
  rw [← ht.nodes_iff, Option.ne_none_iff_exists']
  apply exists_congr
  intro n
  rw [and_iff_left_iff_imp]
  intro hn
  by_contra hlive
  have hstored : q ∈ h.storedSet := by
    rw [ht.ok.mem_storedSet_iff]
    simp [liveAt, hn, hlive]
  rw [ht.ever_of_stored q hstored] at hq
  cases hq

theorem Tallied.interruptedUpdate_isSome_iff (ht : Tallied p h) (flags : UInt64)
    (hever : h.ever key.bits = false)
    : (interruptedUpdate p h.impl key flags).isSome
        ↔ flags = BPF_ANY ∧ key.prefixlen ≤ p.maxPrefixlen ∧ h.storedSet.encard < p.maxEntries
          ∧ Marked h key.bits := by
  unfold interruptedUpdate
  rw [ht.encard_storedSet, Nat.cast_lt]
  split
  next hrefused =>
    simp only [Option.isSome_none, Bool.false_eq_true, false_iff]
    rintro ⟨hflags, hkey, hfull, _⟩
    rcases hrefused with h | h | h
    . exact h hflags
    . omega
    . omega
  next hrefused =>
    simp only [not_or, not_not, gt_iff_lt, Nat.not_lt, ge_iff_le, Nat.not_le] at hrefused
    obtain ⟨hflags, hkey, hfull⟩ := hrefused
    rw [Option.isSome_map, ht.ok.wellFormed.markWalk_isSome_iff hkey, ht.intermediate_iff hever]
    simp [hflags, hkey, hfull]

theorem Tallied.interrupts_iff (ht : Tallied p h) {grows : Bool}
    : Interrupts p h (.update key value flags alloc grows)
        ↔
      (h.interruption p key flags grows).isSome := by
  simp only [Interrupts, interruption]
  split
  next hgrow =>
    rw [ht.interruptedUpdate_isSome_iff flags hgrow.2]
    tauto
  next hgrow =>
    simp only [Option.isSome_none, Bool.false_eq_true, iff_false]
    tauto

theorem Tallied.step (ht : Tallied p h) {op : Op p} (hop : ¬ Interrupts p h op)
    : Tallied p (step p h op) := by
  cases op with
  | update key value flags alloc grows =>
    rw [ht.interrupts_iff, Option.not_isSome_iff_eq_none] at hop
    simp only [History.step, hop]
    exact ht.put key value flags alloc
  | delete key => exact ht.remove key

theorem tallied_run {ops : List (Op p)} (hops : Uninterrupted p ops) : Tallied p (run p ops) := by
  have halong : Run.Along (step p) (fun h op => ¬ Interrupts p h op) empty ops :=
    (Run.along_iff_foldl ops empty).mpr hops
  exact halong.invariant (fun _ _ ht hop => ht.step hop) tallied_empty

/-- Which error an update gives, and that a failed one changes nothing. -/
structure UpdateMeets (h : History) (key : BpfLpmTrieKey p) (flags : UInt64)
    (res : Except Errno LpmTrieMapImpl) (h' : History) : Prop where
  eexist : res = .error .EEXIST ↔ flags = BPF_NOEXIST ∧ key.bits ∈ h.storedSet
  enoent : res = .error .ENOENT ↔ flags = BPF_EXIST ∧ key.bits ∉ h.storedSet
  enospc : res = .error .ENOSPC ↔
    key.bits ∉ h.storedSet ∧ (flags = BPF_ANY ∨ flags = BPF_NOEXIST)
      ∧ h.storedSet.encard = p.maxEntries
  unchanged : ∀ e, res = .error e → h'.stored = h.stored ∧ h'.impl = h.impl

theorem checkInsert_eq_error_iff {nEntries : Nat} {e : Errno}
    : checkInsert p flags nEntries = .error e
        ↔
      (flags = BPF_EXIST ∧ e = .ENOENT)
        ∨ (flags ≠ BPF_EXIST ∧ p.maxEntries ≤ nEntries ∧ e = .ENOSPC) := by
  unfold checkInsert
  split
  . next h => simp [h, eq_comm]
  . next h =>
    split
    . next hfull => simp [h, hfull, eq_comm]
    . next hroom => simp [h, hroom]

theorem elemUpdate_answer_eq_error_iff {m : LpmTrieMapImpl} (hwf : WellFormed p [] m.root)
    (hflags : flags = BPF_ANY ∨ flags = BPF_NOEXIST ∨ flags = BPF_EXIST)
    (hkey : key.prefixlen ≤ p.maxPrefixlen) (e : Errno)
    : elemUpdate p m key value flags ⟨true, true⟩ = .error e
        ↔
      verdict p flags m.nEntries (nodeAt p key.bits m.root) = .error e := by
  rcases elemUpdate_answers hwf hflags hkey with h | ⟨hno, -⟩
  . rw [← h]
    cases elemUpdate p m key value flags ⟨true, true⟩ <;> simp [Except.map]
  . exact absurd rfl hno

theorem verdict_eq_error_iff {nEntries : Nat} {found : Option LpmTrieNode} {e : Errno}
    : verdict p flags nEntries found = .error e
        ↔
      (flags = BPF_NOEXIST ∧ found ≠ none ∧ e = .EEXIST)
        ∨ (¬ (flags = BPF_NOEXIST ∧ found ≠ none) ∧ found.filter (fun n => !n.isIntermediate) = none
          ∧ checkInsert p flags nEntries = .error e) := by
  cases found with
  | none => simp [verdict, bind_eq_error, pure, Except.pure]
  | some n =>
    simp only [verdict]
    split
    . next h => simp [h, eq_comm]
    . next h =>
      cases hint : n.isIntermediate <;> simp [h, hint, bind_eq_error, pure, Except.pure]

theorem Tallied.elemUpdate_eq_error_iff (ht : Tallied p h)
    (value : Value p) (hflags : flags = BPF_ANY ∨ flags = BPF_NOEXIST ∨ flags = BPF_EXIST)
    (hkey : key.prefixlen ≤ p.maxPrefixlen) (e : Errno)
    : elemUpdate p h.impl key value flags ⟨true, true⟩ = .error e
        ↔
      (flags = BPF_NOEXIST ∧ Marked h key.bits ∧ e = .EEXIST)
        ∨ (¬ (flags = BPF_NOEXIST ∧ Marked h key.bits) ∧ key.bits ∉ h.storedSet
          ∧ ((flags = BPF_EXIST ∧ e = .ENOENT)
            ∨ (flags ≠ BPF_EXIST ∧ h.storedSet.encard = p.maxEntries ∧ e = .ENOSPC))) := by
  have hfull : h.storedSet.encard = p.maxEntries ↔ p.maxEntries ≤ h.impl.nEntries := by
    have hle := ht.nEntries_le
    rw [ht.encard_storedSet, Nat.cast_inj]
    omega
  rw [elemUpdate_answer_eq_error_iff ht.ok.wellFormed hflags hkey, verdict_eq_error_iff,
    checkInsert_eq_error_iff, ht.nodes_iff, ← liveAt, hfull, ht.ok.mem_storedSet_iff, not_not]

theorem unchanged_of_error (e : Errno)
    (he : elemUpdate p h.impl key value flags alloc = .error e)
    : (h.put p key value flags alloc).stored = h.stored
      ∧ (h.put p key value flags alloc).impl = h.impl := by
  unfold History.put
  rw [he]
  exact ⟨rfl, rfl⟩

theorem Tallied.marked_of_mem (ht : Tallied p h) (hmem : q ∈ h.storedSet)
    : Marked h q := by
  rw [← ht.nodes_iff]
  intro hnone
  exact (ht.ok.mem_storedSet_iff q).mp hmem (liveAt_eq_none_of_nodeAt hnone)

theorem updateMeets_of_einval
    (hflags : ¬ (flags = BPF_ANY ∨ flags = BPF_NOEXIST ∨ flags = BPF_EXIST))
    : UpdateMeets h key flags (elemUpdate p h.impl key value flags alloc)
        (h.put p key value flags alloc) := by
  have hres : elemUpdate p h.impl key value flags alloc = .error .EINVAL := by
    unfold elemUpdate
    rw [if_pos (by simpa using hflags)]
  simp only [not_or] at hflags
  refine ⟨?_, ?_, ?_, unchanged_of_error⟩ <;> simp [hres, hflags]

theorem Tallied.updateMeets (ht : Tallied p h)
    (hflags : flags = BPF_ANY ∨ flags = BPF_NOEXIST ∨ flags = BPF_EXIST)
    (hkey : key.prefixlen ≤ p.maxPrefixlen)
    (hcond : ¬ (flags = BPF_NOEXIST ∧ key.bits ∉ h.storedSet ∧ Marked h key.bits))
    : UpdateMeets h key flags (elemUpdate p h.impl key value flags ⟨true, true⟩)
        (h.put p key value flags ⟨true, true⟩) := by
  have herr := ht.elemUpdate_eq_error_iff value hflags hkey
  have hflag : BPF_NOEXIST ≠ BPF_EXIST := by decide
  refine ⟨?_, ?_, ?_, unchanged_of_error⟩
  . rw [herr]
    simp only [and_true, reduceCtorEq, and_false, or_self, or_false]
    constructor
    . rintro ⟨hnoexist, hmark⟩
      refine ⟨hnoexist, ?_⟩
      by_contra hnot
      exact hcond ⟨hnoexist, hnot, hmark⟩
    . rintro ⟨hnoexist, hmem⟩
      exact ⟨hnoexist, ht.marked_of_mem hmem⟩
  . rw [herr]
    simp only [and_true, reduceCtorEq, and_false, or_false, false_or]
    constructor
    . rintro ⟨-, hnot, hexist⟩
      exact ⟨hexist, hnot⟩
    . rintro ⟨hexist, hnot⟩
      refine ⟨?_, hnot, hexist⟩
      rintro ⟨hnoexist, -⟩
      exact hflag (hnoexist.symm.trans hexist)
  . rw [herr]
    simp only [and_true, reduceCtorEq, and_false, false_or]
    constructor
    . rintro ⟨-, hnot, hne, hfull⟩
      refine ⟨hnot, ?_, hfull⟩
      rcases hflags with hany | hnoexist | hexist
      . exact .inl hany
      . exact .inr hnoexist
      . exact absurd hexist hne
    . rintro ⟨hnot, hcreate, hfull⟩
      refine ⟨fun h => hcond ⟨h.1, hnot, h.2⟩, hnot, ?_, hfull⟩
      rcases hcreate with rfl | rfl <;> decide

theorem updateMeets_iff (ops : List (Op p)) (hops : Uninterrupted p ops) (key : BpfLpmTrieKey p)
    (value : Value p) (flags : UInt64) (hkey : key.prefixlen ≤ p.maxPrefixlen)
    : UpdateMeets (run p ops) key flags (elemUpdate p (run p ops).impl key value flags ⟨true, true⟩)
        (run p (ops ++ [.update key value flags ⟨true, true⟩ true]))
        ↔
      ¬ (flags = BPF_NOEXIST ∧ key.bits ∉ (run p ops).storedSet ∧ Marked (run p ops) key.bits) := by
  have hrun : run p (ops ++ [.update key value flags ⟨true, true⟩ true])
      = (run p ops).put p key value flags ⟨true, true⟩ := by
    simp [run, step, interruption]
  have ht := tallied_run hops
  rw [hrun]
  by_cases hflags : flags = BPF_ANY ∨ flags = BPF_NOEXIST ∨ flags = BPF_EXIST
  . constructor
    . rintro hmeets ⟨hflag, hnot, hmark⟩
      have hexists := (ht.elemUpdate_eq_error_iff value hflags hkey .EEXIST).mpr
        (.inl ⟨hflag, hmark, rfl⟩)
      exact hnot (hmeets.eexist.mp hexists).2
    . exact ht.updateMeets hflags hkey
  . apply iff_of_true (updateMeets_of_einval hflags)
    rintro ⟨hflag, -⟩
    exact hflags (.inr (.inl hflag))

theorem updateMeets_iff_deleteLong : longKey.prefixlen ≤ byteParams.maxPrefixlen
      ∧ (UpdateMeets (run byteParams (deleteLong.take 2)) longKey BPF_NOEXIST
          (elemUpdate byteParams (run byteParams (deleteLong.take 2)).impl longKey #v[5] BPF_NOEXIST
            ⟨true, true⟩)
          (run byteParams
            (deleteLong.take 2 ++ [.update longKey #v[5] BPF_NOEXIST ⟨true, true⟩ true]))
        ↔
        ¬ (BPF_NOEXIST = BPF_NOEXIST
          ∧ longKey.bits ∉ (run byteParams (deleteLong.take 2)).storedSet
          ∧ Marked (run byteParams (deleteLong.take 2)) longKey.bits)) :=
  ⟨by decide, updateMeets_iff (deleteLong.take 2) (uninterrupted_of_grows (by decide)) longKey #v[5]
    BPF_NOEXIST (by decide)⟩

theorem not_updateMeets_deleteLong : ¬ UpdateMeets (run byteParams deleteLong) longKey BPF_NOEXIST
        (elemUpdate byteParams (run byteParams deleteLong).impl longKey #v[5] BPF_NOEXIST
          ⟨true, true⟩)
        (run byteParams (deleteLong ++ [.update longKey #v[5] BPF_NOEXIST ⟨true, true⟩ true])) := by
  intro h
  have hmem := (h.eexist.mp (by decide)).2
  have hnone : (run byteParams deleteLong).stored longKey.bits = none := by decide
  exact hmem hnone

end History

end Bpftime.LpmTrie
