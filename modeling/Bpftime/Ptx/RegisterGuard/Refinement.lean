import Bpftime.Ptx.RegisterGuard.Blocks

namespace Bpftime.Ptx

open Instrumented

namespace RegisterGuard

def own (op : Op) : Bool :=
  op.any fun t => t = tempBaseReg || t = tempAddrReg || t = registerSaveAreaName

def number (digits : Token) : ℕ := digits.foldl (fun n c => 10 * n + (c.toNat - '0'.toNat)) 0

def declaredNames : List Token → List Token
  | [','] :: rest => declaredNames rest
  | name :: ['<'] :: count :: ['>'] :: rest =>
    (List.range (number count)).map (name ++ Nat.toDigits 10 ·) ++ declaredNames rest
  | name :: rest => name :: declaredNames rest
  | [] => []

/-- The registers that the statements declare with a floating-point type. -/
def floatRegisters (P : List Instr) : List Token :=
  P.flatMap fun i =>
    match i.op with
    | reg :: type :: rest =>
      if reg = ".reg".toList && ".f".toList.isPrefixOf type then declaredNames rest else []
    | _ => []

variable {floats : List Token}

theorem Scratch.own {op : Op} (h : Scratch floats op) : own op := by
  cases h <;> simp [RegisterGuard.own]

theorem Restore.own {op : Op} (h : Restore floats op) : RegisterGuard.own op := by
  cases h
  simp [RegisterGuard.own]

theorem not_own_of_isReturn {op : Op} (h : isReturn op) : own op = false := by
  unfold isReturn at h
  simp only [Bool.or_eq_true, decide_eq_true_eq] at h
  obtain rfl | rfl := h <;> decide

theorem not_isReturn_of_own {op : Op} (h : own op) : isReturn op = false := by
  by_contra hreturn
  rw [Bool.not_eq_false] at hreturn
  rw [not_own_of_isReturn hreturn] at h
  cases h

def scheme (floats : List Token) : Scheme Op (List Token) Token where
  isReturn := isReturn
  own := own
  neutral := Scratch floats
  final ops := ∀ op ∈ ops, Scratch floats op ∨ Restore floats op
  keep i := own i.op = false

/-- The second machine is the first one with the scratch registers and the save area. It accesses
the area through integer registers only. -/
structure AddsScratch (floats : List Token) {ω σ : Type} (M : Machine ω) (M' : Machine σ) (π : σ → ω)
    : Prop where
  same : M.Extends M' π own
  scratch_falls : ∀ op, Scratch floats op → ∀ s, (M'.exec op s).2 = .fall
  scratch_hidden : ∀ op, Scratch floats op → ∀ s, π (M'.exec op s).1 = π s
  restore_falls : ∀ op, Restore floats op → ∀ s, (M'.exec op s).2 = .fall

/-- Both programs execute the same original operations in the same states, and a register is
restored only if the original program has returned. -/
def SameUntilReturn (P P' : List Instr) : Prop :=
  ∀ (ω σ : Type) (M : Machine ω) (M' : Machine σ) (π : σ → ω),
    AddsScratch (floatRegisters P) M M' π
    → ∀ s n, ∃ m, n ≤ m
      ∧ (M'.run isReturn P' m (.start s)).status = (M.run isReturn P n (.start (π s))).status
      ∧ ((M'.run isReturn P' m (.start s)).events.filter (!own ·.1)).map (Prod.map id π)
        = (M.run isReturn P n (.start (π s))).events
      ∧ ∀ e ∈ (M'.run isReturn P' m (.start s)).events, Restore (floatRegisters P) e.1
        → (M.run isReturn P n (.start (π s))).status = .returned

theorem not_restore_of_scratch {op : Op} (h : Scratch floats op) : ¬ Restore floats op := by
  intro hrestore
  cases hrestore with
  | load modifier name _ =>
    generalize hop : ("ld.local".toList ++ modifier)
      :: (name ++ [[','], ['['], tempAddrReg, [']']]) = op at h
    cases h <;> simp at hop

theorem sameUntilReturn_of_inserted {P P' : List Instr}
    (h : Inserted (scheme (floatRegisters P)) P P')
    : SameUntilReturn P P' := by
  intro ω σ M M' π hM s n
  have hown : ∀ ops, (scheme (floatRegisters P)).final ops → ∀ op ∈ ops, own op := by
    intro ops hops op hop
    obtain hop | hop := hops op hop <;> exact hop.own
  have hadmits : M'.Admits (scheme (floatRegisters P)) π := by
    refine ⟨?_, ?_, hM.scratch_falls, hM.scratch_hidden, ?_, ?_⟩
    . intro op hop
      exact Scratch.own hop
    . intro op hop
      exact not_isReturn_of_own (Scratch.own hop)
    . intro ops hops op hop
      exact not_isReturn_of_own (hown ops hops op hop)
    . intro ops hops op hop
      obtain hop | hop := hops op hop
      . exact hM.scratch_falls op hop
      . exact hM.restore_falls op hop
  obtain ⟨m, hm, hmatches⟩ := h.run_matches hM.same hadmits (fun _ hi => hi) s n
  obtain ⟨seen, last, hevents, hseen, hlast⟩ := hmatches.events
  refine ⟨m, hm, hmatches.status, ?_, ?_⟩
  . have hnone : last.filter (!own ·.1) = [] := by
      rw [List.filter_eq_nil_iff]
      intro e he
      obtain ⟨rfl, _⟩ | ⟨_, hfinal⟩ := hlast
      . cases he
      . simp [hown _ hfinal e.1 (List.mem_map_of_mem he)]
    have hfilter := hseen.same
    rw [show (M'.run isReturn P' m (.start s)).events = seen ++ last from hevents]
    rw [List.filter_append]
    rw [hnone]
    rw [List.append_nil]
    exact hfilter
  . intro e he hrestore
    rw [show (M'.run isReturn P' m (.start s)).events = seen ++ last from hevents] at he
    obtain he | he := List.mem_append.mp he
    . exact absurd hrestore (not_restore_of_scratch (hseen.neutral e he hrestore.own))
    . obtain ⟨rfl, _⟩ | ⟨hreturned, _⟩ := hlast
      . cases he
      . exact hreturned

end RegisterGuard
end Bpftime.Ptx
