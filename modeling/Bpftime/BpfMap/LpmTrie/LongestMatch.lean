import Bpftime.BpfMap.LpmTrie.Errors

/-!
This module contains what a lookup returns after a history: the value of the longest stored prefix,
unless a deleted one of full length hides it.
-/

namespace Bpftime.LpmTrie

open BitPrefix

namespace History

variable {p : Params}

theorem elemLookup_meets_iff (ops : List (Op p)) (hops : Uninterrupted p ops)
    (key : BpfLpmTrieKey p) (hkey : key.prefixlen ≤ p.maxPrefixlen)
    : LookupMeets (run p ops).stored key (elemLookup p (run p ops).impl key)
        ↔
      ¬ HiddenByDeleted (run p ops) key := by
  have hok := (tallied_run hops).ok
  generalize run p ops = h at hok
  by_cases hever : key.prefixlen = p.maxPrefixlen ∧ h.ever key.bits = true
  . rcases hever with ⟨hfull, hever⟩
    rw [hok.elemLookup_of_ever hfull hever]
    cases hst : h.stored key.bits with
    | some v =>
      -- the key itself is stored, and no prefix of it is longer
      have hlong : IsLongestMatch h.stored key.bits v :=
        ⟨key.bits, List.prefix_rfl, hst, fun q hq _ => hq.length_le⟩
      simp only [HiddenByDeleted, hst, reduceCtorEq, false_and, and_false, not_false_eq_true,
        iff_true]
      exact lookupMeets_of_isLongestMatch hlong
    | none =>
      simp only [HiddenByDeleted, hfull, hever, hst, true_and, not_exists, not_and, not_not]
      constructor
      . intro hmeets q hq
        exact hmeets.2.mp rfl q hq
      . intro hno
        exact lookupMeets_of_noMatch hno
  . have hmeets := hok.elemLookup_meets hkey (by
      intro hfull
      simpa [hfull] using hever)
    simp only [hmeets, true_iff, HiddenByDeleted]
    rintro ⟨hfull, hever', -⟩
    exact hever ⟨hfull, hever'⟩

theorem elemLookup_meets_deleteLong : longKey.prefixlen ≤ byteParams.maxPrefixlen
      ∧ (LookupMeets (run byteParams (deleteLong.take 2)).stored longKey
          (elemLookup byteParams (run byteParams (deleteLong.take 2)).impl longKey)
        ↔
        ¬ HiddenByDeleted (run byteParams (deleteLong.take 2)) longKey) :=
  ⟨by decide, elemLookup_meets_iff (deleteLong.take 2) (uninterrupted_of_grows (by decide)) longKey
    (by decide)⟩

theorem not_lookupMeets_deleteLong : ¬ LookupMeets (run byteParams deleteLong).stored longKey
        (elemLookup byteParams (run byteParams deleteLong).impl longKey) := by
  intro h
  have hnone := h.2.mp (by decide) [] (by simp)
  have hsome : (run byteParams deleteLong).stored [] = some [7] := by decide
  rw [hsome] at hnone
  simp at hnone

theorem isLongestMatch_of_elemLookup (ops : List (Op p)) (hops : Uninterrupted p ops)
    {key : BpfLpmTrieKey p} {v : List UInt8}
    (h : elemLookup p (run p ops).impl key = .ok v)
    : IsLongestMatch (run p ops).stored key.bits v := by
  have hok := (tallied_run hops).ok
  generalize run p ops = s at h hok
  have hkey : key.prefixlen ≤ p.maxPrefixlen := by
    by_contra hgt
    unfold elemLookup at h
    rw [if_pos (by omega)] at h
    cases h
  by_cases hever : key.prefixlen = p.maxPrefixlen ∧ s.ever key.bits = true
  . rw [hok.elemLookup_of_ever hever.1 hever.2] at h
    split at h
    next w hst =>
      cases h
      exact ⟨key.bits, List.prefix_rfl, hst, fun q hq _ => hq.length_le⟩
    next => cases h
  . have hmeets := hok.elemLookup_meets hkey (by
      intro hfull
      simpa [hfull] using hever)
    exact (hmeets.1 v).mp h

theorem isLongestMatch_deleteLong
    : elemLookup byteParams (run byteParams deleteLong).impl ⟨7, #v[0xAA]⟩ = .ok [7]
        ∧ IsLongestMatch (run byteParams deleteLong).stored
          (⟨7, #v[0xAA]⟩ : BpfLpmTrieKey byteParams).bits [7] :=
  ⟨by decide, isLongestMatch_of_elemLookup deleteLong (uninterrupted_of_grows (by decide)) (by decide)⟩

end History

end Bpftime.LpmTrie
