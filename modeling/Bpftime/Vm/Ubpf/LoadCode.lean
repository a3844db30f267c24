import Mathlib.Algebra.Group.Nat.Defs
import Mathlib.Data.Fintype.Basic
import Mathlib.Tactic.FinCases
import Bpftime.Vm.Ubpf.Impl

/-!
This module contains how `load_code` rewrites calls and wide loads.
-/

namespace Bpftime.Ubpf

def imm64 (lo hi : Int32) : ℕ := lo.toUInt32.toNat + 2 ^ 32 * hi.toUInt32.toNat

def LddwHelpers.value (lddw : LddwHelpers) (curr next : EbpfInst) : Option ℕ :=
  let fd := curr.imm.toUInt32
  let offset := UInt64.ofInt next.imm.toInt
  match curr.srcReg with
  | 0 => some (imm64 curr.imm next.imm)
  | 1 => lddw.mapByFd.map fun mapByFd => (mapByFd fd).toNat
  | 2 => lddw.mapByFd.bind fun mapByFd => lddw.mapVal.map fun mapVal =>
      (mapVal (mapByFd fd) + offset).toNat
  | 3 => lddw.varAddr.map fun varAddr => (varAddr fd).toNat
  | 4 => lddw.codeAddr.map fun codeAddr => (codeAddr fd).toNat
  | 5 => lddw.mapByIdx.map fun mapByIdx => (mapByIdx fd).toNat
  | 6 => lddw.mapByIdx.bind fun mapByIdx => lddw.mapVal.map fun mapVal =>
      (mapVal (mapByIdx fd) + offset).toNat
  | _ => none

inductive Patched (callImm : EbpfInst → Option Int32) (lddw : LddwHelpers)
    : List EbpfInst → List EbpfInst → Prop where
  | nil : Patched callImm lddw [] []
  | call {curr rest out imm} (hcode : curr.code = EBPF_OP_CALL) (himm : callImm curr = some imm)
      (hrest : Patched callImm lddw rest out)
      : Patched callImm lddw (curr :: rest) ({ curr with imm } :: out)
  | lddw {curr next rest out lo hi} (hcode : curr.code = EBPF_OP_LDDW)
      (hvalue : lddw.value curr next = some (imm64 lo hi))
      (hrest : Patched callImm lddw rest out)
      : Patched callImm lddw (curr :: next :: rest)
          ({ curr with imm := lo, srcReg := 0 } :: { next with imm := hi } :: out)
  | other {curr rest out} (hcall : curr.code ≠ EBPF_OP_CALL) (hlddw : curr.code ≠ EBPF_OP_LDDW)
      (hrest : Patched callImm lddw rest out)
      : Patched callImm lddw (curr :: rest) (curr :: out)

def calls : List EbpfInst → List EbpfInst
  | [] => []
  | curr :: rest =>
    if curr.code = EBPF_OP_CALL then
      curr :: calls rest
    else if curr.code = EBPF_OP_LDDW then
      match rest with
      | [] => []
      | _ :: rest => calls rest
    else
      calls rest

def wides : List EbpfInst → List (EbpfInst × Option EbpfInst)
  | [] => []
  | curr :: rest =>
    if curr.code = EBPF_OP_CALL then
      wides rest
    else if curr.code = EBPF_OP_LDDW then
      match rest with
      | [] => [(curr, none)]
      | next :: rest => (curr, some next) :: wides rest
    else
      wides rest

section Walk

variable {curr next : EbpfInst} {rest : List EbpfInst}

theorem not_call_of_lddw (hcode : curr.code = EBPF_OP_LDDW) : curr.code ≠ EBPF_OP_CALL := by
  rw [hcode]
  decide

theorem calls_call (hcode : curr.code = EBPF_OP_CALL)
    : calls (curr :: rest) = curr :: calls rest := by
  rw [calls.eq_def]
  simp only [hcode, ↓reduceIte]

theorem calls_lddw (hcode : curr.code = EBPF_OP_LDDW)
    : calls (curr :: next :: rest) = calls rest := by
  rw [calls.eq_def]
  simp only [if_neg (not_call_of_lddw hcode), if_pos hcode]

theorem calls_other (hcall : curr.code ≠ EBPF_OP_CALL) (hlddw : curr.code ≠ EBPF_OP_LDDW)
    : calls (curr :: rest) = calls rest := by
  rw [calls.eq_def]
  simp only [hcall, hlddw, ↓reduceIte]

theorem wides_call (hcode : curr.code = EBPF_OP_CALL) : wides (curr :: rest) = wides rest := by
  rw [wides.eq_def]
  simp only [hcode, ↓reduceIte]

theorem wides_last (hcode : curr.code = EBPF_OP_LDDW) : wides [curr] = [(curr, none)] := by
  rw [wides.eq_def]
  simp only [if_neg (not_call_of_lddw hcode), if_pos hcode]

theorem wides_lddw (hcode : curr.code = EBPF_OP_LDDW)
    : wides (curr :: next :: rest) = (curr, some next) :: wides rest := by
  rw [wides.eq_def]
  simp only [if_neg (not_call_of_lddw hcode), if_pos hcode]

theorem wides_other (hcall : curr.code ≠ EBPF_OP_CALL) (hlddw : curr.code ≠ EBPF_OP_LDDW)
    : wides (curr :: rest) = wides rest := by
  rw [wides.eq_def]
  simp only [hcall, hlddw, ↓reduceIte]

end Walk

theorem Patched.iff_of {f g : EbpfInst → Option Int32} {lddw : LddwHelpers}
    {insns out : List EbpfInst} (h : Patched f lddw insns out)
    : Patched g lddw insns out ↔ ∀ curr ∈ calls insns, f curr = g curr := by
  induction h with
  | nil => simp [calls, Patched.nil]
  | @call curr rest out imm hcode himm hrest ih =>
    rw [calls_call hcode, List.forall_mem_cons, ← ih, himm]
    constructor
    . intro h
      generalize hout : ({ curr with imm } :: out : List EbpfInst) = whole at h
      cases h with
      | @call _ _ _ imm' _ himm' hrest' =>
        simp only [List.cons.injEq, EbpfInst.mk.injEq, true_and] at hout
        rw [himm', hout.1, hout.2]
        exact ⟨rfl, hrest'⟩
      | lddw hcode' =>
        rw [hcode] at hcode'
        contradiction
      | other hcall' => contradiction
    . rintro ⟨himm', hrest'⟩
      exact Patched.call hcode himm'.symm hrest'
  | @lddw curr next rest out lo hi hcode hvalue hrest ih =>
    have hcall := not_call_of_lddw hcode
    rw [calls_lddw hcode, ← ih]
    constructor
    . intro h
      generalize hout : ({ curr with imm := lo, srcReg := 0 } :: { next with imm := hi } :: out :
        List EbpfInst) = whole at h
      cases h with
      | call hcode' | other _ hlddw' => contradiction
      | lddw _ _ hrest' =>
        simp only [List.cons.injEq] at hout
        rw [hout.2.2]
        exact hrest'
    . exact Patched.lddw hcode hvalue
  | @other curr rest out hcall hlddw hrest ih =>
    rw [calls_other hcall hlddw, ← ih]
    constructor
    . intro h
      generalize hout : (curr :: out : List EbpfInst) = whole at h
      cases h with
      | call hcode' | lddw hcode' => contradiction
      | other _ _ hrest' =>
        simp only [List.cons.injEq, true_and] at hout
        rw [hout]
        exact hrest'
    . exact Patched.other hcall hlddw

theorem imm64_split (v : UInt64)
    : imm64 (v &&& 0xffffffff).toUInt32.toInt32 (v >>> 32).toUInt32.toInt32 = v.toNat := by
  unfold imm64
  have hlt := v.toNat_lt
  have hmask : v.toNat &&& 4294967295 = v.toNat % 2 ^ 32 := Nat.and_two_pow_sub_one_eq_mod _ 32
  simp only [UInt32.toUInt32_toInt32, UInt64.toNat_toUInt32, UInt64.toNat_and,
    UInt64.toNat_shiftRight, UInt64.reduceToNat, Nat.shiftRight_eq_div_pow, Nat.reduceMod]
  rw [hmask]
  omega

theorem imm64_joined (lo hi : Int32)
    : (lo.toUInt32.toUInt64 ||| (hi.toUInt32.toUInt64 <<< 32)).toNat = imm64 lo hi := by
  unfold imm64
  have hlo := lo.toUInt32.toNat_lt
  have hhi := hi.toUInt32.toNat_lt
  have hshift : hi.toUInt32.toNat <<< 32 % 2 ^ 64 = 2 ^ 32 * hi.toUInt32.toNat := by
    rw [Nat.shiftLeft_eq]
    omega
  rw [UInt64.toNat_or, UInt64.toNat_shiftLeft, UInt32.toNat_toUInt64, UInt32.toNat_toUInt64]
  change _ ||| hi.toUInt32.toNat <<< 32 % 2 ^ 64 = _
  rw [hshift, Nat.or_comm, ← Nat.two_pow_add_eq_or_of_lt hlo, Nat.add_comm]

namespace BpftimeUbpfVm

variable {υ φ : Type}

theorem resolve_toNat (lddw : LddwHelpers) (i : ℕ) (curr next : EbpfInst)
    : (resolve lddw i curr next).toOption.map UInt64.toNat = lddw.value curr next := by
  obtain ⟨code, dstReg, srcReg, off, imm⟩ := curr
  unfold resolve LddwHelpers.value
  fin_cases srcReg
  . exact congrArg some (imm64_joined imm next.imm)
  . cases lddw.mapByFd <;> rfl
  . cases lddw.mapByFd <;> cases lddw.mapVal <;> rfl
  . cases lddw.varAddr <;> rfl
  . cases lddw.codeAddr <;> rfl
  . cases lddw.mapByIdx <;> rfl
  . cases lddw.mapByIdx <;> cases lddw.mapVal <;> rfl
  all_goals rfl

def tableImm (vm : BpftimeUbpfVm υ) (curr : EbpfInst) : Option Int32 :=
  (vm.helperIdMap (helperIndex curr)).map fun id => id.toUInt32.toInt32

theorem patched_of_patch (vm : BpftimeUbpfVm υ) {i : ℕ} {insns out : List EbpfInst}
    (h : vm.patch i insns = .ok out)
    : Patched vm.tableImm vm.lddw insns out := by
  fun_induction vm.patch i insns generalizing out with
  | case1 =>
    cases h
    exact Patched.nil
  | case2 i curr rest hcode id hid ih =>
    cases hrest : vm.patch (i + 1) rest with
    | error e =>
      rw [hrest] at h
      cases h
    | ok tail =>
      rw [hrest] at h
      cases h
      apply Patched.call hcode _ (ih hrest)
      rw [tableImm, hid]
      rfl
  | case3 => cases h
  | case4 => cases h
  | case5 i curr hcall hlddw next rest ih =>
    cases hvalue : resolve vm.lddw i curr next with
    | error e =>
      rw [hvalue] at h
      cases h
    | ok v =>
      cases hrest : vm.patch (i + 2) rest with
      | error e =>
        rw [hvalue, hrest] at h
        cases h
      | ok tail =>
        rw [hvalue, hrest] at h
        cases h
        apply Patched.lddw hlddw _ (ih hrest)
        rw [← resolve_toNat vm.lddw i, hvalue, imm64_split]
        rfl
  | case6 i curr rest hcall hlddw ih =>
    cases hrest : vm.patch (i + 1) rest with
    | error e =>
      rw [hrest] at h
      cases h
    | ok tail =>
      rw [hrest] at h
      cases h
      exact Patched.other hcall hlddw (ih hrest)

def Unresolved (lddw : LddwHelpers) (wide : EbpfInst × Option EbpfInst) : Prop :=
  wide.2.bind (lddw.value wide.1) = none

def Blocked (vm : BpftimeUbpfVm υ) (insns : List EbpfInst) : Prop :=
  (∃ curr ∈ calls insns, vm.helperIdMap (helperIndex curr) = none)
    ∨ ∃ wide ∈ wides insns, Unresolved vm.lddw wide

theorem resolve_eq_error_iff (lddw : LddwHelpers) (i : ℕ) (curr next : EbpfInst)
    : (∃ e, resolve lddw i curr next = .error e) ↔ Unresolved lddw (curr, some next) := by
  unfold Unresolved
  rw [Option.bind_some, ← resolve_toNat lddw i]
  cases resolve lddw i curr next <;> simp [Except.toOption]

theorem exists_error_bind_pure_iff {α β : Type} (x : Except String α) (f : α → β)
    : (∃ e, (do let a ← x; pure (f a)) = Except.error e) ↔ ∃ e, x = .error e := by
  cases x <;> simp [bind, Except.bind, pure, Except.pure]

theorem patch_eq_error_iff (vm : BpftimeUbpfVm υ) (i : ℕ) (insns : List EbpfInst)
    : (∃ e, vm.patch i insns = .error e) ↔ vm.Blocked insns := by
  unfold Blocked
  fun_induction vm.patch i insns with
  | case1 => simp [calls, wides]
  | case2 i curr rest hcode id hid ih =>
    rw [exists_error_bind_pure_iff, ih, calls_call hcode, wides_call hcode,
      List.exists_mem_cons_iff, hid]
    simp
  | case3 i curr rest hcode hid =>
    rw [calls_call hcode, List.exists_mem_cons_iff]
    simp [hid]
  | case4 i curr hcall hlddw =>
    rw [wides_last hlddw]
    simp [Unresolved]
  | case5 i curr hcall hlddw next rest ih =>
    rw [calls_lddw hlddw, wides_lddw hlddw, List.exists_mem_cons_iff,
      ← resolve_eq_error_iff vm.lddw i]
    cases resolve vm.lddw i curr next with
    | error e => simp [bind, Except.bind]
    | ok v =>
      apply Iff.trans (exists_error_bind_pure_iff _ _)
      rw [ih]
      simp
  | case6 i curr rest hcall hlddw ih =>
    rw [exists_error_bind_pure_iff, ih, calls_other hcall hlddw, wides_other hcall hlddw]

theorem loadCode_eq_handed_iff (vm : BpftimeUbpfVm υ) (insns out : List EbpfInst)
    : vm.loadCode insns (8 * insns.length) = .handed out ↔ vm.patch 0 insns = .ok out := by
  unfold loadCode
  rw [if_neg (by omega), Nat.mul_div_cancel_left _ (by omega), List.take_length]
  cases vm.patch 0 insns <;> simp

theorem exists_handed_iff (vm : BpftimeUbpfVm υ) (insns : List EbpfInst)
    : (∃ out, vm.loadCode insns (8 * insns.length) = .handed out) ↔ ¬vm.Blocked insns := by
  simp only [loadCode_eq_handed_iff, ← patch_eq_error_iff vm 0]
  cases vm.patch 0 insns <;> simp

end BpftimeUbpfVm

structure Registration (φ : Type) where
  index : UInt64
  name : String
  fn : φ

structure Registered (υ : Type) where
  vm : BpftimeUbpfVm υ
  ids : UInt64 → Option UInt32

namespace Registered

variable {υ φ : Type} (ubpfRegister : UbpfRegister υ φ)

def register (s : Registered υ) (reg : Registration φ) : Registered υ :=
  let (r, vm) := s.vm.registerExternalFunction ubpfRegister reg.index reg.name reg.fn
  if r = 0 then
    { vm, ids := Function.update s.ids reg.index (some s.vm.nextHelperId.toUInt32) }
  else
    { s with vm }

def start (ubpfVm : υ) (lddw : LddwHelpers) : Registered υ where
  vm := (BpftimeUbpfVm.create ubpfVm).setLddwHelpers lddw
  ids := fun _ => none

def run (ubpfVm : υ) (lddw : LddwHelpers) (regs : List (Registration φ)) : Registered υ :=
  regs.foldl (register ubpfRegister) (start ubpfVm lddw)

def callImm (ids : UInt64 → Option UInt32) (curr : EbpfInst) : Option Int32 :=
  if curr.srcReg = 0 then
    (ids (BpftimeUbpfVm.helperIndex curr)).map UInt32.toInt32
  else
    some curr.imm

def Agrees (s : Registered υ) : Prop :=
  ∀ index, (s.vm.helperIdMap index).map UInt64.toUInt32 = s.ids index

theorem Agrees.register {s : Registered υ} (h : s.Agrees) (reg : Registration φ)
    (hr : (s.vm.registerExternalFunction ubpfRegister reg.index reg.name reg.fn).1 = 0)
    : (s.register ubpfRegister reg).Agrees := by
  intro index
  simp only [Registered.register, hr, ↓reduceIte]
  simp only [BpftimeUbpfVm.registerExternalFunction, Function.update_apply]
  split
  . rfl
  . apply h

/-- Every registration of the history returns 0. -/
def Takes (s : Registered υ) : List (Registration φ) → Prop
  | [] => True
  | reg :: regs =>
    (s.vm.registerExternalFunction ubpfRegister reg.index reg.name reg.fn).1 = 0
      ∧ (s.register ubpfRegister reg).Takes regs

theorem agrees_run (ubpfVm : υ) (lddw : LddwHelpers) {regs : List (Registration φ)}
    (htakes : (start ubpfVm lddw).Takes ubpfRegister regs)
    : (run ubpfRegister ubpfVm lddw regs).Agrees := by
  unfold run
  have hstart : (start ubpfVm lddw).Agrees := fun _ => rfl
  generalize start ubpfVm lddw = s at hstart htakes
  induction regs generalizing s with
  | nil => exact hstart
  | cons reg regs ih => exact ih _ (hstart.register ubpfRegister reg htakes.1) htakes.2

/-- The ids that the code calls have kept their numbers. -/
def CallsKept (s : Registered υ) (insns : List EbpfInst) : Prop :=
  ∀ curr ∈ calls insns, s.vm.tableImm curr = callImm s.ids curr

theorem callsKept_iff_of_agrees {s : Registered υ} (h : s.Agrees) (insns : List EbpfInst)
    : s.CallsKept insns
        ↔ ∀ curr ∈ calls insns, curr.srcReg ≠ 0 → s.vm.tableImm curr = some curr.imm := by
  apply forall₂_congr
  intro curr hcurr
  unfold callImm
  split
  next hsrc =>
    have hagree := congrArg (Option.map UInt32.toInt32) (h (BpftimeUbpfVm.helperIndex curr))
    rw [Option.map_map] at hagree
    simp only [hsrc, ne_eq, not_true_eq_false, false_implies, iff_true]
    exact hagree
  next hsrc => simp only [ne_eq, hsrc, not_false_eq_true, true_implies]

theorem not_patched_of_unregistered {ids : UInt64 → Option UInt32} {lddw : LddwHelpers}
    {insns out : List EbpfInst} {curr : EbpfInst} (hcurr : curr ∈ calls insns)
    (hsrc : curr.srcReg = 0) (hids : ids (BpftimeUbpfVm.helperIndex curr) = none)
    : ¬Patched (callImm ids) lddw insns out := by
  intro h
  have hsome : ∃ imm, callImm ids curr = some imm := by
    induction h with
    | nil => cases hcurr
    | call hcode himm _ ih =>
      rw [calls_call hcode] at hcurr
      cases hcurr with
      | head => exact ⟨_, himm⟩
      | tail _ hcurr => exact ih hcurr
    | lddw hcode _ _ ih =>
      rw [calls_lddw hcode] at hcurr
      exact ih hcurr
    | other hcall hlddw _ ih =>
      rw [calls_other hcall hlddw] at hcurr
      exact ih hcurr
  obtain ⟨imm, himm⟩ := hsome
  rw [callImm, if_pos hsrc, hids] at himm
  cases himm

/-- Code is handed on patched, or refused for a helper that is missing. -/
def LoadsRight (s : Registered υ) (insns : List EbpfInst) : Prop :=
  (∀ out, s.vm.loadCode insns (8 * insns.length) = .handed out →
      Patched (callImm s.ids) s.vm.lddw insns out)
    ∧ ((∃ curr ∈ calls insns, curr.srcReg = 0 ∧ s.ids (BpftimeUbpfVm.helperIndex curr) = none) →
      ∃ r errorString, s.vm.loadCode insns (8 * insns.length) = .failed r errorString)

theorem loadCode_loadsRight_iff (ubpfVm : υ) (lddw : LddwHelpers) (regs : List (Registration φ))
    (insns : List EbpfInst)
    : (run ubpfRegister ubpfVm lddw regs).LoadsRight insns
        ↔ (run ubpfRegister ubpfVm lddw regs).vm.Blocked insns
          ∨ (run ubpfRegister ubpfVm lddw regs).CallsKept insns := by
  generalize run ubpfRegister ubpfVm lddw regs = s
  constructor
  . intro h
    by_cases hblocked : s.vm.Blocked insns
    . exact Or.inl hblocked
    . obtain ⟨out, hout⟩ := (s.vm.exists_handed_iff insns).mpr hblocked
      have hpatch := (s.vm.loadCode_eq_handed_iff insns out).mp hout
      have hiff := (s.vm.patched_of_patch hpatch).iff_of (g := callImm s.ids)
      exact Or.inr (hiff.mp (h.1 out hout))
  . intro h
    have hright : ∀ out, s.vm.loadCode insns (8 * insns.length) = .handed out →
        Patched (callImm s.ids) s.vm.lddw insns out := by
      intro out hout
      have hpatch := (s.vm.loadCode_eq_handed_iff insns out).mp hout
      cases h with
      | inl hblocked => exact absurd hblocked ((s.vm.exists_handed_iff insns).mp ⟨out, hout⟩)
      | inr hkept => exact (s.vm.patched_of_patch hpatch).iff_of.mpr hkept
    refine ⟨hright, ?_⟩
    rintro ⟨curr, hcurr, hsrc, hids⟩
    cases hload : s.vm.loadCode insns (8 * insns.length) with
    | failed r errorString => exact ⟨r, errorString, rfl⟩
    | handed out => exact absurd (hright out hload) (not_patched_of_unregistered hcurr hsrc hids)

def localCall : List EbpfInst :=
  [⟨EBPF_OP_CALL, 0, 1, 0, 1⟩, ⟨0x95, 0, 0, 0, 0⟩, ⟨0xb7, 0, 0, 0, 0⟩, ⟨0x95, 0, 0, 0, 0⟩]

def registerBelow64 : UbpfRegister Unit Unit := fun u id _ _ => (if id < 64 then 0 else -1, u)

def twoHelpers : Registered Unit :=
  run registerBelow64 () ⟨none, none, none, none, none⟩
    [⟨2, "bpf_map_update_elem", ()⟩, ⟨1, "bpf_map_lookup_elem", ()⟩]

theorem not_loadsRight_localCall : ¬twoHelpers.LoadsRight localCall := by
  intro h
  have hpatched := h.1 _ (rfl : twoHelpers.vm.loadCode localCall 32
    = .handed (⟨EBPF_OP_CALL, 0, 1, 0, 2⟩ :: localCall.tail))
  cases hpatched with
  | call _ himm _ =>
    revert himm
    decide

theorem patched_of_helperCalls (ubpfVm : υ) (lddw : LddwHelpers) {regs : List (Registration φ)}
    (htakes : (start ubpfVm lddw).Takes ubpfRegister regs)
    {insns out : List EbpfInst} (hcalls : ∀ curr ∈ calls insns, curr.srcReg = 0)
    (hload : (run ubpfRegister ubpfVm lddw regs).vm.loadCode insns (8 * insns.length) = .handed out)
    : Patched (callImm (run ubpfRegister ubpfVm lddw regs).ids)
        (run ubpfRegister ubpfVm lddw regs).vm.lddw insns out := by
  have hagrees := agrees_run ubpfRegister ubpfVm lddw htakes
  generalize run ubpfRegister ubpfVm lddw regs = s at hagrees hload ⊢
  have hkept := (callsKept_iff_of_agrees hagrees insns).mpr fun curr hcurr hsrc =>
    absurd (hcalls curr hcurr) hsrc
  have hpatch := (s.vm.loadCode_eq_handed_iff insns out).mp hload
  exact (s.vm.patched_of_patch hpatch).iff_of.mpr hkept

theorem patched_twoHelpers
    : Patched (callImm twoHelpers.ids) twoHelpers.vm.lddw [⟨EBPF_OP_CALL, 0, 0, 0, 2⟩]
        [⟨EBPF_OP_CALL, 0, 0, 0, 1⟩] :=
  patched_of_helperCalls registerBelow64 () _ (by exact ⟨rfl, rfl, trivial⟩) (by decide) rfl

end Registered

end Bpftime.Ubpf
