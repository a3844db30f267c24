import Bpftime.Pgas.Stalker.Impl

/-!
This module contains what the emitted range check does: it leaves two words below the stack pointer,
and the branch to the callout depends on the carry flag of the program, which `popfq` has restored.
-/

namespace Bpftime.Pgas.Stalker

open WordMem (Mem shift put)

def Inlined (c : Config) (info : MovMemInfo) : Prop :=
  info.baseReg ≠ .invalid ∧ info.indexReg = .invalid ∧ c.size.toNat < 2 ^ 31

instance (c : Config) (info : MovMemInfo) : Decidable (Inlined c info) :=
  inferInstanceAs (Decidable (_ ∧ _))

theorem inlined_iff (c : Config) (info : MovMemInfo)
    : Inlined c info ↔ (!canInline info || c.size > 0x7fffffff) = false := by
  have hsize : c.size.toNat < 2 ^ 31 ↔ ¬ c.size > 0x7fffffff := by
    rw [gt_iff_lt, UInt64.lt_iff_toNat_lt]
    change _ ↔ ¬ 0x7fffffff < c.size.toNat
    omega
  unfold Inlined canInline
  rw [hsize]
  simp [and_assoc]

namespace Machine

variable {s : Machine}

def pushed (s : Machine) (scratch : Gpr) : Mem :=
  let flags := put s.mem (s.regs.gpr .rsp - 8) (LittleEndian.byte s.regs.rflags.toNat) 8
  put flags (s.regs.gpr .rsp - 8 - 8) (LittleEndian.byte (s.regs.gpr scratch).toNat) 8

theorem value_put (m : Mem) (a v : UInt64)
    : UInt64.ofNat (LittleEndian.value (fun i => put m a (LittleEndian.byte v.toNat) 8 (shift a i)) 8)
        = v := by
  have hbytes : ∀ i < 8, put m a (LittleEndian.byte v.toNat) 8 (shift a i)
      = LittleEndian.byte v.toNat i := by
    intro i hi
    exact WordMem.put_shift hi (by decide)
  have hlt : v.toNat < 256 ^ 8 := v.toNat_lt
  rw [LittleEndian.value_congr hbytes, LittleEndian.value_byte]
  rw [Nat.mod_eq_of_lt hlt, UInt64.ofNat_toNat]

theorem value_put_below (m : Mem) (a : UInt64) (bytes : ℕ → UInt8)
    : LittleEndian.value (fun i => put m (a - 8) bytes 8 (shift a i)) 8
        =
      LittleEndian.value (fun i => m (shift a i)) 8 := by
  apply LittleEndian.value_congr
  intro i hi
  apply WordMem.put_of_ne
  intro j hj heq
  have hshift : shift a i = shift (a - 8) (8 + i) := by
    rw [← WordMem.shift_add]
    congr 1
    exact (UInt64.sub_add_cancel a 8).symm
  rw [hshift] at heq
  have := WordMem.shift_inj (by omega) (by omega) heq
  omega

def scratched (s : Machine) (scratch : Gpr) (v flags : UInt64) : Machine :=
  (((s.push s.regs.rflags).push (s.regs.gpr scratch)).setGpr scratch v).setFlags flags

section Pops

variable {scratch : Gpr} (hscratch : scratch ≠ .rsp) (v flags : UInt64)

include hscratch

theorem rsp_scratched : (s.scratched scratch v flags).regs.gpr .rsp = s.regs.gpr .rsp - 8 - 8 := by
  simp [scratched, push, setFlags, setGpr, Regs.setGpr, Function.update, hscratch.symm]

theorem top_scratched : (s.scratched scratch v flags).top = s.regs.gpr scratch := by
  unfold top
  rw [rsp_scratched hscratch]
  apply value_put

def popped (s : Machine) (scratch : Gpr) (v flags : UInt64) : Machine :=
  (s.scratched scratch v flags).drop.setGpr scratch (s.regs.gpr scratch)

theorem rsp_popped : (s.popped scratch v flags).regs.gpr .rsp = s.regs.gpr .rsp - 8 := by
  have hrsp := @rsp_scratched s scratch hscratch v flags
  unfold popped drop
  rw [hrsp, UInt64.sub_add_cancel]
  simp [setGpr, Regs.setGpr, Function.update, hscratch.symm]

theorem top_popped : (s.popped scratch v flags).top = s.regs.rflags := by
  unfold top
  rw [rsp_popped hscratch]
  change UInt64.ofNat (LittleEndian.value (fun i => s.pushed scratch (shift (s.regs.gpr .rsp - 8) i)) 8) = _
  unfold pushed
  rw [value_put_below]
  apply value_put

theorem gpr_drop_popped : (s.popped scratch v flags).drop.regs.gpr = s.regs.gpr := by
  have hrsp := @rsp_popped s scratch hscratch v flags
  funext r
  by_cases heq : r = .rsp
  . unfold drop
    rw [hrsp, UInt64.sub_add_cancel, heq]
    simp [setGpr, Regs.setGpr]
  . by_cases hr : r = scratch
    . rw [hr]
      simp [popped, drop, setGpr, Regs.setGpr, Function.update, hscratch]
    . simp [popped, scratched, push, setFlags, drop, setGpr, Regs.setGpr, Function.update, heq, hr]

theorem popfx_popReg (P : Platform)
    : execItem P (execItem P (s.scratched scratch v flags) (.popReg scratch)) .popfx
        =
      { s with mem := s.pushed scratch } := by
  have hpop : execItem P (s.scratched scratch v flags) (.popReg scratch) = s.popped scratch v flags := by
    unfold execItem
    dsimp only
    rw [top_scratched hscratch]
    rfl
  rw [hpop]
  unfold execItem
  dsimp only
  rw [top_popped hscratch]
  have hgpr := @gpr_drop_popped s scratch hscratch v flags
  change ({ s with
    mem := s.pushed scratch
    regs := { s.regs with gpr := (s.popped scratch v flags).drop.regs.gpr } } : Machine) = _
  rw [hgpr]

end Pops

theorem scratched_setGpr (scratch : Gpr) (v flags v' flags' : UInt64)
    : ((s.scratched scratch v flags).setGpr scratch v').setFlags flags' = s.scratched scratch v' flags' := by
  simp [scratched, setGpr, setFlags, Regs.setGpr]

theorem scratched_setFlags (scratch : Gpr) (v flags flags' : UInt64)
    : (s.scratched scratch v flags).setFlags flags' = s.scratched scratch v flags' := rfl

end Machine

theorem scratchReg_ne_rsp (info : MovMemInfo) : scratchReg info ≠ .rsp := by
  unfold scratchReg
  split <;> decide

section Exec

variable (P : Platform) (s : Machine)

theorem exec_pushes {scratch : Gpr} (hscratch : scratch ≠ .rsp) (items : List Item)
    : exec P none (.pushfx :: .pushReg scratch :: items) s
        =
      exec P none items ((s.push s.regs.rflags).push (s.regs.gpr scratch)) := by
  have hgpr : (s.push s.regs.rflags).regs.gpr scratch = s.regs.gpr scratch := by
    simp [Machine.push, Machine.setGpr, Regs.setGpr, hscratch]
  rw [← hgpr]
  rfl

theorem exec_compare (scratch base : Gpr) (disp start : UInt64) (size : UInt32) (items : List Item)
    : ∃ v flags,
        exec P none (.movRegReg scratch base :: ((if disp ≠ 0 then [.addRegImm scratch disp] else [])
          ++ .subRegImm scratch start :: .cmpRegI32 scratch size :: items))
            ((s.push s.regs.rflags).push (s.regs.gpr scratch))
          =
        exec P none items (s.scratched scratch v flags) := by
  have hmov : ∃ v flags, execItem P ((s.push s.regs.rflags).push (s.regs.gpr scratch))
      (.movRegReg scratch base) = s.scratched scratch v flags := ⟨_, _, rfl⟩
  have hsub (v flags : UInt64) : ∃ v' flags', execItem P (execItem P (s.scratched scratch v flags)
      (.subRegImm scratch start)) (.cmpRegI32 scratch size) = s.scratched scratch v' flags' :=
    ⟨_, _, by
      unfold execItem
      dsimp only
      rw [Machine.scratched_setGpr, Machine.scratched_setFlags]⟩
  rcases hmov with ⟨v, flags, hmov⟩
  rw [exec, hmov]
  split
  next =>
    have hadd : ∃ v' flags', execItem P (s.scratched scratch v flags) (.addRegImm scratch disp)
        = s.scratched scratch v' flags' := ⟨_, _, Machine.scratched_setGpr ..⟩
    rcases hadd with ⟨v', flags', hadd⟩
    rcases hsub v' flags' with ⟨v'', flags'', hsub⟩
    refine ⟨v'', flags'', ?_⟩
    rw [← hsub, ← hadd]
    rfl
  next =>
    rcases hsub v flags with ⟨v', flags', hsub⟩
    refine ⟨v', flags', ?_⟩
    rw [← hsub]
    rfl

def checked (c : Config) (info : MovMemInfo) (s : Machine) : Machine :=
  if Inlined c info then { s with mem := s.pushed (scratchReg info) } else s

def ReachesCallout (c : Config) (info : MovMemInfo) (s : Machine) : Prop :=
  Inlined c info → s.regs.carry = true

instance (c : Config) (info : MovMemInfo) (s : Machine) : Decidable (ReachesCallout c info s) :=
  inferInstanceAs (Decidable (_ → _))

theorem exec_callout (cd : MovCalloutData) (isLoad : Bool) (items : List Item)
    : exec P none (callout cd isLoad :: items) s
        =
      exec P none items (execItem P s (callout cd isLoad)) := by
  cases isLoad with
  | true => rfl
  | false => rfl

theorem exec_skip_callout (cd : MovCalloutData) (isLoad : Bool) (items : List Item)
    : exec P (some cd.index) (callout cd isLoad :: .label cd.index :: items) s = exec P none items s := by
  have hlabel : exec P (some cd.index) (.label cd.index :: items) s = exec P none items s := by
    have hname : Item.isLabel cd.index (.label cd.index) = true := decide_eq_true rfl
    change exec P (if Item.isLabel cd.index (.label cd.index) then none else some cd.index) items s = _
    rw [if_pos hname]
  cases isLoad with
  | true | false => exact hlabel

theorem exec_emitInlineRangeCheck (info : MovMemInfo) (cd : MovCalloutData) (isLoad : Bool)
    (items : List Item)
    : exec P none (emitInlineRangeCheck info cd isLoad ++ items) s
        =
      exec P none items
        (if ReachesCallout cd.config info s then
          execItem P (checked cd.config info s) (callout cd isLoad)
        else
          checked cd.config info s) := by
  by_cases hinlined : Inlined cd.config info
  . have hemit := (inlined_iff _ _).mp hinlined
    have hscratch := scratchReg_ne_rsp info
    unfold emitInlineRangeCheck checked
    rw [hemit, if_neg Bool.false_ne_true, if_pos hinlined]
    dsimp only
    generalize scratchReg info = scratch at hscratch
    simp only [List.append_assoc, List.cons_append, List.nil_append]
    rw [exec_pushes P s hscratch]
    rcases exec_compare P s scratch (csToGumReg info.baseReg) info.disp cd.config.base
      cd.config.size.toUInt32 (.popReg scratch :: .popfx :: .jae cd.index :: callout cd isLoad
        :: .label cd.index :: items) with ⟨v, flags, hcompare⟩
    rw [hcompare]
    change exec P none (.jae cd.index :: callout cd isLoad :: .label cd.index :: items)
      (execItem P (execItem P (s.scratched scratch v flags) (.popReg scratch)) .popfx) = _
    rw [Machine.popfx_popReg hscratch]
    change exec P (if s.regs.carry then none else some cd.index)
      (callout cd isLoad :: .label cd.index :: items) _ = _
    cases hcarry : s.regs.carry with
    | true =>
      have hreaches : ReachesCallout cd.config info s := fun _ => hcarry
      rw [if_pos rfl, if_pos hreaches, exec_callout]
      rfl
    | false =>
      have hreaches : ¬ ReachesCallout cd.config info s := by
        intro h
        rw [h hinlined] at hcarry
        contradiction
      rw [if_neg Bool.false_ne_true, if_neg hreaches, exec_skip_callout]
      rfl
  . have hemit : emitInlineRangeCheck info cd isLoad = [callout cd isLoad] := by
      rw [inlined_iff, Bool.not_eq_false] at hinlined
      unfold emitInlineRangeCheck
      rw [if_pos hinlined]
    have hreaches : ReachesCallout cd.config info s := fun h => absurd h hinlined
    unfold checked
    rw [hemit, if_pos hreaches, if_neg hinlined]
    exact exec_callout P s cd isLoad items

end Exec

end Bpftime.Pgas.Stalker
