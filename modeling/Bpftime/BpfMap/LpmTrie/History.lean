import Bpftime.BpfMap.LpmTrie.Lemmas.Lookup
import Bpftime.BpfMap.LpmTrie.Lemmas.Update
import Mathlib.Data.Set.Card

/-!
This module contains the histories of an LPM trie map, with every outcome of the allocations, and
what the trie says about the prefixes that are stored.
-/

namespace Bpftime.LpmTrie

open BitPrefix

variable (p : Params)

inductive Op where
  /-- `alloc` are the allocations of new nodes, `grows` is that of a vector in the trie. -/
  | update (key : BpfLpmTrieKey p) (value : Value p) (flags : UInt64) (alloc : Alloc) (grows : Bool)
  | delete (key : BpfLpmTrieKey p)

def Op.grows {p : Params} : Op p → Bool
  | .update _ _ _ _ grows => grows
  | .delete _ => true

structure History where
  impl : LpmTrieMapImpl
  stored : List Bool → Option (List UInt8)
  ever : List Bool → Bool

namespace History

def empty : History := ⟨.empty, fun _ => none, fun _ => false⟩

def put (h : History) (key : BpfLpmTrieKey p) (value : Value p) (flags : UInt64) (alloc : Alloc)
    : History :=
  match elemUpdate p h.impl key value flags alloc with
  | .error _ => h
  | .ok impl =>
    ⟨impl, Function.update h.stored key.bits (some value.toList), Function.update h.ever key.bits true⟩

def remove (h : History) (key : BpfLpmTrieKey p) : History :=
  if key.prefixlen > p.maxPrefixlen then
    h
  else
    let stored := Function.update h.stored key.bits none
    match elemDelete p h.impl key with
    | .error _ => ⟨h.impl, stored, h.ever⟩
    | .ok impl => ⟨impl, stored, h.ever⟩

/-- The trie that an update leaves behind when its vector does not grow. A vector that has held a
value once keeps its capacity. -/
def interruption (h : History) (key : BpfLpmTrieKey p) (flags : UInt64) (grows : Bool)
    : Option LpmTrieMapImpl :=
  if grows = false ∧ h.ever key.bits = false then interruptedUpdate p h.impl key flags else none

def step (h : History) : Op p → History
  | .update key value flags alloc grows =>
    match h.interruption p key flags grows with
    | some impl => { h with impl }
    | none => h.put p key value flags alloc
  | .delete key => h.remove p key

def run (ops : List (Op p)) : History := ops.foldl (step p) empty

def storedSet (h : History) : Set (List Bool) := {q | h.stored q ≠ none}

/-- The prefixes at which the trie has a node. -/
def Marked (h : History) (q : List Bool) : Prop :=
  h.ever q = true
    ∨ ∃ a b, h.ever a = true ∧ h.ever b = true ∧ q ++ [false] <+: a ∧ q ++ [true] <+: b

/-- The update runs out of memory for the value of an intermediate node that never had one. -/
def Interrupts (h : History) : Op p → Prop
  | .update key _ flags _ grows =>
    grows = false ∧ flags = BPF_ANY ∧ key.prefixlen ≤ p.maxPrefixlen
      ∧ h.storedSet.encard < p.maxEntries ∧ h.ever key.bits = false ∧ Marked h key.bits
  | .delete _ => False

/-- No update throws between clearing the mark of a node and storing its value. -/
def Uninterrupted (ops : List (Op p)) : Prop :=
  ∀ before op, before ++ [op] <+: ops → ¬ Interrupts p (run p before) op

structure Ok (h : History) : Prop where
  wellFormed : WellFormed p [] h.impl.root
  stored_eq : ∀ q, h.stored q = (nodeAt p q h.impl.root).bind (getNodeValueData p)
  ever_iff : ∀ q, q.length = p.maxPrefixlen →
    (h.ever q = true ↔ ∃ n, nodeAt p q h.impl.root = some n)

variable {p}

theorem ok_empty : Ok p empty := by
  constructor
  . trivial
  . simp [empty, LpmTrieMapImpl.empty, nodeAt]
  . simp [empty, LpmTrieMapImpl.empty, nodeAt]

theorem getNodeValueData_of_isIntermediate {n : LpmTrieNode} (h : n.isIntermediate = true)
    : getNodeValueData p n = none := by
  simp [getNodeValueData, h]

variable {h : History} {key : BpfLpmTrieKey p}

theorem Ok.update (hok : Ok p h) {value : Value p}
    {impl : LpmTrieMapImpl} (hkey : key.prefixlen ≤ p.maxPrefixlen)
    (hwf : WellFormed p [] impl.root) (hins : Inserted p key value h.impl.root impl.root)
    : Ok p ⟨impl, Function.update h.stored key.bits (some value.toList),
        Function.update h.ever key.bits true⟩ := by
  rcases hins.self with ⟨n, hn, hval⟩
  refine ⟨hwf, ?_, ?_⟩
  . intro q
    by_cases hq : q = key.bits
    . simp [hq, hn, hval]
    . simp only [ne_eq, hq, not_false_eq_true, Function.update_of_ne, hok.stored_eq]
      rcases hins.other q hq with heq | ⟨hnone, -, m, hm, hint⟩
      . rw [heq]
      . simp [hnone, hm, getNodeValueData_of_isIntermediate hint]
  . intro q hlen
    by_cases hq : q = key.bits
    . simp [hq, hn]
    . simp only [ne_eq, hq, not_false_eq_true, Function.update_of_ne, hok.ever_iff q hlen]
      rcases hins.other q hq with heq | ⟨-, hlt, -⟩
      . rw [heq]
      . omega

theorem Ok.delete (hok : Ok p h) {impl : LpmTrieMapImpl}
    (hwf : WellFormed p [] impl.root) (hdel : Deleted p key h.impl.root impl.root)
    : Ok p ⟨impl, Function.update h.stored key.bits none, h.ever⟩ := by
  rcases hdel.self with ⟨n, hn, hint⟩
  refine ⟨hwf, ?_, ?_⟩
  . intro q
    by_cases hq : q = key.bits
    . simp [hq, hn, getNodeValueData_of_isIntermediate hint]
    . simp only [ne_eq, hq, not_false_eq_true, Function.update_of_ne, hok.stored_eq]
      rw [hdel.other q hq]
  . intro q hlen
    rw [hok.ever_iff q hlen]
    by_cases hq : q = key.bits
    . simp [hq, hn, hdel.before]
    . rw [hdel.other q hq]

theorem Ok.stored_eq_none (hok : Ok p h) {q : List Bool} (hlive : liveAt p h.impl.root q = none)
    : h.stored q = none := by
  rw [hok.stored_eq]
  cases hn : nodeAt p q h.impl.root with
  | none => rfl
  | some n =>
    apply getNodeValueData_of_isIntermediate
    simpa [liveAt, hn, Option.filter] using hlive

theorem uninterrupted_of_grows {ops : List (Op p)} (h : ops.all Op.grows) : Uninterrupted p ops := by
  intro before op hbefore hint
  have hgrows := List.all_eq_true.mp h op (hbefore.subset (by simp))
  cases op with
  | update key value flags alloc grows =>
    rw [Interrupts] at hint
    rw [hint.1] at hgrows
    cases hgrows
  | delete key => exact hint

/-- The value is that of the longest stored prefix. -/
def LookupMeets (stored : List Bool → Option (List UInt8)) (key : BpfLpmTrieKey p)
    (res : Except Errno (List UInt8)) : Prop :=
  (∀ v, res = .ok v ↔ IsLongestMatch stored key.bits v)
    ∧ (res = .error .ENOENT ↔ NoMatch stored key.bits)

def HiddenByDeleted (h : History) (key : BpfLpmTrieKey p) : Prop :=
  key.prefixlen = p.maxPrefixlen
    ∧ h.ever key.bits = true
    ∧ h.stored key.bits = none
    ∧ ∃ q, q <+: key.bits ∧ h.stored q ≠ none

theorem lookupMeets_of_isLongestMatch {stored : List Bool → Option (List UInt8)}
    {v : List UInt8} (h : IsLongestMatch stored key.bits v)
    : LookupMeets stored key (.ok v) := by
  refine ⟨?_, ?_⟩
  . intro w
    simp only [Except.ok.injEq]
    constructor
    . rintro rfl
      exact h
    . exact h.unique
  . simpa using h.not_noMatch

theorem lookupMeets_of_noMatch {stored : List Bool → Option (List UInt8)}
    (h : NoMatch stored key.bits)
    : LookupMeets stored key (.error .ENOENT) := by
  refine ⟨?_, by simpa using h⟩
  intro v
  simp only [reduceCtorEq, false_iff]
  intro hv
  exact hv.not_noMatch h

theorem Ok.stored_eq_bind_liveAt (hok : Ok p h) (q : List Bool)
    : h.stored q = (liveAt p h.impl.root q).bind (getNodeValueData p) := by
  rw [hok.stored_eq]
  cases hn : nodeAt p q h.impl.root with
  | none => simp [liveAt, hn]
  | some n => cases hint : n.isIntermediate <;> simp [liveAt, hn, hint, getNodeValueData, Option.filter]

theorem Ok.isLongestMatch_stored (hok : Ok p h) {q : List Bool} {n : LpmTrieNode}
    (hn : IsLongestMatch (liveAt p h.impl.root) q n)
    : ∃ v, getNodeValueData p n = some v ∧ IsLongestMatch h.stored q v := by
  rcases hn with ⟨r, hr, hlive, hmax⟩
  have hint : n.isIntermediate = false := by
    simp only [liveAt, Option.filter_eq_some_iff] at hlive
    simpa using hlive.2
  refine ⟨(n.data.drop p.dataSize).take p.valueSize, by simp [getNodeValueData, hint], r, hr, ?_, ?_⟩
  . simp [hok.stored_eq_bind_liveAt, hlive, getNodeValueData, hint]
  . intro r' hr' hne
    apply hmax r' hr'
    intro hnone
    simp [hok.stored_eq_bind_liveAt, hnone] at hne

theorem Ok.noMatch_stored (hok : Ok p h) {q : List Bool} (hn : NoMatch (liveAt p h.impl.root) q)
    : NoMatch h.stored q := by
  intro r hr
  simp [hok.stored_eq_bind_liveAt, hn r hr]

theorem Ok.elemLookup_of_ever (hok : Ok p h)
    (hfull : key.prefixlen = p.maxPrefixlen) (hever : h.ever key.bits = true)
    : elemLookup p h.impl key
        =
      match h.stored key.bits with
      | some v => .ok v
      | none => .error .ENOENT := by
  rcases (hok.ever_iff key.bits (by simpa using hfull)).mp hever with ⟨n, hn⟩
  unfold elemLookup
  rw [if_neg (by omega), lookupWalk_eq_of_full hok.wellFormed hfull hn, hok.stored_eq, hn]
  simp only [Option.bind_some]
  cases getNodeValueData p n <;> rfl

theorem Ok.elemLookup_meets (hok : Ok p h) (hkey : key.prefixlen ≤ p.maxPrefixlen)
    (hever : key.prefixlen = p.maxPrefixlen → h.ever key.bits = false)
    : LookupMeets h.stored key (elemLookup p h.impl key) := by
  have hnone : key.prefixlen = p.maxPrefixlen → nodeAt p key.bits h.impl.root = none := by
    intro hfull
    have := hok.ever_iff key.bits (by simpa using hfull)
    rw [hever hfull] at this
    cases hn : nodeAt p key.bits h.impl.root with
    | none => rfl
    | some n => simp [hn] at this
  unfold elemLookup
  rw [if_neg (by omega)]
  rcases lookupWalk_of_not_full hok.wellFormed hkey hnone none with ⟨n, hn, hwalk⟩ | ⟨hno, hwalk⟩
  . rcases hok.isLongestMatch_stored hn with ⟨v, hv, hmatch⟩
    simp only [hwalk, hv]
    exact lookupMeets_of_isLongestMatch hmatch
  . simp only [hwalk]
    exact lookupMeets_of_noMatch (hok.noMatch_stored hno)

def byteParams : Params := ⟨1, 1, 4⟩

def longKey : BpfLpmTrieKey byteParams := ⟨8, #v[0xAA]⟩

def deleteLong : List (Op byteParams) :=
  [.update ⟨0, #v[0]⟩ #v[7] BPF_ANY ⟨true, true⟩ true,
   .update longKey #v[9] BPF_ANY ⟨true, true⟩ true,
   .delete longKey]

end History

end Bpftime.LpmTrie
