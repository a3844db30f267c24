import Bpftime.Pgas.Stalker.Load

/-!
This module contains which items of the emitted range check are reached and with what state: the
check decides as it should only where the carry flag of the program happens to say the same, and it
keeps the red zone only where the pushed words are there already.
-/

namespace Bpftime.Pgas.Stalker

open WordMem (Mem shift put)

def visits (P : Platform) (skip : Option ℕ) (items : List Item) (s : Machine)
    : List (Item × Machine) :=
  match items with
  | [] => []
  | item :: items =>
    match skip with
    | none => (item, s) :: visits P (item.branch s) items (execItem P s item)
    | some target => visits P (if item.isLabel target then none else some target) items s

def checkedInsn (cd : MovCalloutData) (insn : CsInsn) (m : X86OpMem) (size : ℕ) (isLoad : Bool)
    : List Item :=
  emitInlineRangeCheck (.ofMem m size isLoad) cd isLoad ++ [.keep insn]

/-- The callout runs for addresses inside only, the instruction for all. -/
structure ChecksRange (P : Platform) (cd : MovCalloutData) (insn : CsInsn) (m : X86OpMem) (size : ℕ)
    (isLoad : Bool) (s : Machine) : Prop where
  callout_iff : ∀ t, (callout cd isLoad, t) ∈ visits P none (checkedInsn cd insn m size isLoad) s
    ↔ cd.config.Inside (insn.address m s) ∧ t = s
  keep_iff : ∀ t, (.keep insn, t) ∈ visits P none (checkedInsn cd insn m size isLoad) s
    ↔ (cd.config.Inside (insn.address m s) ∧ t = execItem P s (callout cd isLoad))
      ∨ (¬cd.config.Inside (insn.address m s) ∧ t = s)

namespace Machine

def word (s : Machine) (a : UInt64) : UInt64 :=
  .ofNat (LittleEndian.value (fun i => s.mem (shift a i)) 8)

end Machine

def KeepsRedZone (c : Config) (insn : CsInsn) (m : X86OpMem) (scratch : Gpr) (s : Machine) : Prop :=
  (s.regs.carry = true ↔ c.Inside (insn.address m s))
    ∧ s.word (s.regs.gpr .rsp - 8) = s.regs.rflags
    ∧ s.word (s.regs.gpr .rsp - 8 - 8) = s.regs.gpr scratch

section Visits

variable {P : Platform}

theorem mem_of_mem_visits {item : Item} {t : Machine} (items : List Item)
    : ∀ skip s, (item, t) ∈ visits P skip items s → item ∈ items := by
  induction items with
  | nil =>
    intro skip s h
    cases h
  | cons first items ih =>
    intro skip s h
    cases skip with
    | some target => exact List.mem_cons_of_mem _ (ih _ _ h)
    | none =>
      cases h with
      | head => exact List.mem_cons_self
      | tail _ h => exact List.mem_cons_of_mem _ (ih _ _ h)

theorem visits_append (straight : List Item)
    (hstraight : ∀ item ∈ straight, ∀ s, item.branch s = none) (items : List Item)
    : ∀ s, visits P none (straight ++ items) s
        = visits P none straight s ++ visits P none items (exec P none straight s) := by
  induction straight with
  | nil =>
    intro s
    rfl
  | cons first straight ih =>
    intro s
    have hfirst := hstraight first List.mem_cons_self s
    simp only [List.cons_append, visits, exec, hfirst]
    rw [ih fun item hitem => hstraight item (List.mem_cons_of_mem _ hitem)]

end Visits

def compareCode (c : Config) (info : MovMemInfo) : List Item :=
  let scratch := scratchReg info
  .pushfx :: .pushReg scratch :: .movRegReg scratch (csToGumReg info.baseReg)
    :: ((if info.disp ≠ 0 then [.addRegImm scratch info.disp] else [])
      ++ [.subRegImm scratch c.base, .cmpRegI32 scratch c.size.toUInt32, .popReg scratch, .popfx])

section Emitted

variable {P : Platform} {cd : MovCalloutData} {info : MovMemInfo} {isLoad : Bool} {s : Machine}

theorem emitInlineRangeCheck_eq (h : Inlined cd.config info) : emitInlineRangeCheck info cd isLoad
        = compareCode cd.config info ++ [.jae cd.index, callout cd isLoad, .label cd.index] := by
  have hemit := (inlined_iff _ _).mp h
  unfold emitInlineRangeCheck compareCode
  rw [hemit, if_neg Bool.false_ne_true]
  simp

theorem exec_compareCode (h : Inlined cd.config info)
    : exec P none (compareCode cd.config info) s = checked cd.config info s := by
  have hscratch := scratchReg_ne_rsp info
  unfold compareCode checked
  dsimp only
  rw [if_pos h, exec_pushes P s hscratch]
  rcases exec_compare P s (scratchReg info) (csToGumReg info.baseReg) info.disp cd.config.base
    cd.config.size.toUInt32 [.popReg (scratchReg info), .popfx] with ⟨v, flags, hcompare⟩
  rw [hcompare]
  exact Machine.popfx_popReg hscratch v flags P

theorem branch_compareCode (c : Config)
    : ∀ item ∈ compareCode c info, ∀ s, item.branch s = none := by
  unfold compareCode
  split <;> simp [Item.branch]

theorem callout_notMem_compareCode (c : Config) : callout cd isLoad ∉ compareCode c info := by
  unfold compareCode callout
  cases isLoad <;> split <;> simp

theorem keep_notMem_compareCode (c : Config) (insn : CsInsn) : .keep insn ∉ compareCode c info := by
  unfold compareCode
  split <;> simp

theorem visits_jae (insn : CsInsn) (c : Machine)
    : visits P none [.jae cd.index, callout cd isLoad, .label cd.index, .keep insn] c
        =
      if c.regs.carry then
        let c' := execItem P c (callout cd isLoad)
        [(.jae cd.index, c), (callout cd isLoad, c), (.label cd.index, c'), (.keep insn, c')]
      else
        [(.jae cd.index, c), (.keep insn, c)] := by
  cases hcarry : c.regs.carry with
  | true => cases isLoad <;> simp [visits, execItem, Item.branch, callout, hcarry]
  | false => cases isLoad <;>
      simp [visits, execItem, Item.branch, Item.isLabel, callout, hcarry]

end Emitted

namespace Machine

variable {s : Machine}

theorem put_word (m : Mem) (a : UInt64)
    : put m a (LittleEndian.byte (LittleEndian.value (fun i => m (shift a i)) 8)) 8 = m := by
  have hvalue : ∀ i < 8, LittleEndian.byte (LittleEndian.value (fun i => m (shift a i)) 8) i
      = m (shift a i) := by
    apply LittleEndian.value_inj.mp
    rw [LittleEndian.value_byte, Nat.mod_eq_of_lt (LittleEndian.value_lt _ _)]
  funext x
  by_cases h : ∃ i < 8, x = shift a i
  . rcases h with ⟨i, hi, rfl⟩
    rw [WordMem.put_shift hi (by decide), hvalue i hi]
  . apply WordMem.put_of_ne
    intro i hi heq
    exact h ⟨i, hi, heq⟩

theorem toNat_word (a : UInt64)
    : (s.word a).toNat = LittleEndian.value (fun i => s.mem (shift a i)) 8 := by
  apply UInt64.toNat_ofNat_of_lt'
  exact LittleEndian.value_lt _ _

theorem pushed_eq_iff (scratch : Gpr) : s.pushed scratch = s.mem
        ↔
      s.word (s.regs.gpr .rsp - 8) = s.regs.rflags
        ∧ s.word (s.regs.gpr .rsp - 8 - 8) = s.regs.gpr scratch := by
  constructor
  . intro h
    unfold word
    rw [← h]
    unfold pushed
    refine ⟨?_, value_put _ _ _⟩
    rw [value_put_below]
    apply value_put
  . rintro ⟨hflags, hscratch⟩
    unfold pushed
    dsimp only
    rw [← hflags, toNat_word, put_word, ← hscratch, toNat_word, put_word]

end Machine

theorem checked_eq_iff {c : Config} {info : MovMemInfo} (h : Inlined c info) (s : Machine)
    : checked c info s = s
        ↔
      s.word (s.regs.gpr .rsp - 8) = s.regs.rflags
        ∧ s.word (s.regs.gpr .rsp - 8 - 8) = s.regs.gpr (scratchReg info) := by
  rw [← Machine.pushed_eq_iff, checked, if_pos h]
  constructor
  . intro heq
    exact congrArg Machine.mem heq
  . intro heq
    rw [heq]

section Check

variable {P : Platform} {cd : MovCalloutData} {insn : CsInsn} {m : X86OpMem} {size : ℕ}
  {isLoad : Bool} {s : Machine}

theorem visits_checkedInsn (h : Inlined cd.config (.ofMem m size isLoad))
    : visits P none (checkedInsn cd insn m size isLoad) s
        =
      visits P none (compareCode cd.config (.ofMem m size isLoad)) s
        ++ visits P none [.jae cd.index, callout cd isLoad, .label cd.index, .keep insn]
          (checked cd.config (.ofMem m size isLoad) s) := by
  unfold checkedInsn
  rw [emitInlineRangeCheck_eq h, List.append_assoc]
  rw [visits_append _ (branch_compareCode _), exec_compareCode h]
  rfl

theorem carry_checked (c : Config) (info : MovMemInfo) (s : Machine)
    : (checked c info s).regs.carry = s.regs.carry := by
  unfold checked
  split <;> rfl

theorem callout_mem_visits_iff (h : Inlined cd.config (.ofMem m size isLoad)) (t : Machine)
    : (callout cd isLoad, t) ∈ visits P none (checkedInsn cd insn m size isLoad) s
        ↔ s.regs.carry = true ∧ t = checked cd.config (.ofMem m size isLoad) s := by
  rw [visits_checkedInsn h, List.mem_append]
  rw [or_iff_right fun hmem => callout_notMem_compareCode _ (mem_of_mem_visits _ _ _ hmem)]
  rw [visits_jae, carry_checked]
  cases hcarry : s.regs.carry <;> cases isLoad <;> simp [callout]

theorem keep_mem_visits_iff (h : Inlined cd.config (.ofMem m size isLoad)) (t : Machine)
    : (.keep insn, t) ∈ visits P none (checkedInsn cd insn m size isLoad) s
        ↔
      t = if s.regs.carry then
          execItem P (checked cd.config (.ofMem m size isLoad) s) (callout cd isLoad)
        else
          checked cd.config (.ofMem m size isLoad) s := by
  rw [visits_checkedInsn h, List.mem_append]
  rw [or_iff_right fun hmem => keep_notMem_compareCode _ _ (mem_of_mem_visits _ _ _ hmem)]
  rw [visits_jae, carry_checked]
  cases hcarry : s.regs.carry <;> cases isLoad <;> simp [callout]

theorem checksRange_iff (P : Platform) (cd : MovCalloutData) (insn : CsInsn) (m : X86OpMem)
    (size : ℕ) (isLoad : Bool) (s : Machine) (h : Inlined cd.config (.ofMem m size isLoad))
    : ChecksRange P cd insn m size isLoad s
        ↔ KeepsRedZone cd.config insn m (scratchReg (.ofMem m size isLoad)) s := by
  unfold KeepsRedZone
  rw [← checked_eq_iff h]
  constructor
  . rintro ⟨hcallout, hkeep⟩
    simp only [callout_mem_visits_iff h] at hcallout
    simp only [keep_mem_visits_iff h] at hkeep
    by_cases hinside : cd.config.Inside (insn.address m s)
    . rcases (hcallout s).mpr ⟨hinside, rfl⟩ with ⟨hcarry, heq⟩
      exact ⟨iff_of_true hcarry hinside, heq.symm⟩
    . have hcarry : ¬s.regs.carry = true := fun hcarry => hinside ((hcallout _).mp ⟨hcarry, rfl⟩).1
      have heq := (hkeep s).mpr (Or.inr ⟨hinside, rfl⟩)
      rw [if_neg hcarry] at heq
      exact ⟨iff_of_false hcarry hinside, heq.symm⟩
  . rintro ⟨hcarry, heq⟩
    constructor
    . intro t
      rw [callout_mem_visits_iff h, hcarry, heq]
    . intro t
      rw [keep_mem_visits_iff h, heq]
      by_cases hinside : cd.config.Inside (insn.address m s)
      . simp [hcarry.mpr hinside, hinside]
      . have hclear : s.regs.carry = false := by
          rw [← Bool.not_eq_true]
          exact fun hset => hinside (hcarry.mp hset)
        simp [hclear, hinside]

end Check

def loadRaxData : MovCalloutData where
  index := 0
  config := twoNodes.toConfig
  info := .ofMem atRdi 8 true
  destReg := .gp .rax .qword
  srcReg := .invalid

theorem inlined_loadRax : Inlined loadRaxData.config (.ofMem atRdi 8 true) := by
  refine ⟨?_, ?_, ?_⟩ <;> decide

def prepared : Machine := { pointing 0 0 with mem := (pointing 0 0).pushed .rcx }

theorem checksRange_prepared : Inlined loadRaxData.config (.ofMem atRdi 8 true)
        ∧ ChecksRange plainPlatform loadRaxData loadRax atRdi 8 true prepared := by
  refine ⟨inlined_loadRax, ?_⟩
  rw [checksRange_iff _ _ _ _ _ _ _ inlined_loadRax]
  refine ⟨iff_of_true (by decide) (remotePart_loadRax 0 0).inside, ?_, ?_⟩ <;> decide

def carryClear : Machine := (pointing 0 0).setFlags 2

theorem not_checksRange_carryClear : Inlined loadRaxData.config (.ofMem atRdi 8 true)
        ∧ loadRaxData.config.Inside (loadRax.address atRdi carryClear)
        ∧ ¬ChecksRange plainPlatform loadRaxData loadRax atRdi 8 true carryClear := by
  have hinside : loadRaxData.config.Inside (loadRax.address atRdi carryClear) :=
    (remotePart_loadRax 0 0).inside
  refine ⟨inlined_loadRax, hinside, ?_⟩
  intro h
  have hreached := (h.callout_iff carryClear).mpr ⟨hinside, rfl⟩
  rw [callout_mem_visits_iff inlined_loadRax] at hreached
  exact absurd hreached.1 (by decide)

end Bpftime.Pgas.Stalker
