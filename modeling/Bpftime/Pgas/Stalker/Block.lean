import Bpftime.Pgas.Agreement
import Bpftime.Pgas.Stalker.RangeCheck

namespace Bpftime.Pgas.Stalker

variable {P : Platform} {cfg : StalkerConfig} {next : ℕ} {insn : CsInsn}

def InstrumentsLoad (P : Platform) (cfg : StalkerConfig) (next : ℕ) (insn : CsInsn) : Prop :=
  ∃ cd, .loadCallout cd ∈ (transformInsn P cfg next insn).1

def InstrumentsStore (P : Platform) (cfg : StalkerConfig) (next : ℕ) (insn : CsInsn) : Prop :=
  ∃ cd, .storeCallout cd ∈ (transformInsn P cfg next insn).1

def calloutData (P : Platform) (cfg : StalkerConfig) (next : ℕ) (insn : CsInsn) (info : MovMemInfo)
    (isLoad : Bool) : MovCalloutData :=
  if isLoad then
    ⟨next, cfg.toConfig, info, regOperand P insn info.regOpIdx, .invalid⟩
  else
    ⟨next, cfg.toConfig, info, .invalid, regOperand P insn info.regOpIdx⟩

theorem transformInsn_cases (P : Platform) (cfg : StalkerConfig) (next : ℕ) (insn : CsInsn)
    : (transformInsn P cfg next insn).1 = [.keep insn]
        ∨
      ∃ info isLoad, analyzeMov insn cfg = some info
        ∧ (transformInsn P cfg next insn).1
            = emitInlineRangeCheck info (calloutData P cfg next insn info isLoad) isLoad
              ++ [.keep insn] := by
  unfold transformInsn
  cases hanalyze : analyzeMov insn cfg with
  | none => exact Or.inl rfl
  | some info =>
    dsimp only
    split
    next => exact Or.inl rfl
    next =>
      split
      next => exact Or.inl rfl
      next =>
        split
        next => exact Or.inl rfl
        next =>
          split
          next => exact Or.inl rfl
          next =>
            split
            next => exact Or.inr ⟨info, true, rfl, rfl⟩
            next =>
              split
              next => exact Or.inr ⟨info, false, rfl, rfl⟩
              next => exact Or.inl rfl

theorem exec_transformInsn_append (items : List Item) (s : Machine)
    : exec P none ((transformInsn P cfg next insn).1 ++ items) s
        =
      exec P none items (exec P none (transformInsn P cfg next insn).1 s) := by
  rcases transformInsn_cases P cfg next insn with hkeep | ⟨info, isLoad, -, hemit⟩
  . rw [hkeep]
    rfl
  . rw [hemit, List.append_assoc]
    rw [exec_emitInlineRangeCheck, exec_emitInlineRangeCheck]
    rfl

def runInsns (P : Platform) (cfg : StalkerConfig) : ℕ → List CsInsn → Machine → Machine
  | _, [], s => s
  | next, insn :: insns, s =>
    runInsns P cfg (transformInsn P cfg next insn).2 insns
      (exec P none (transformInsn P cfg next insn).1 s)

theorem exec_transformBlock (insns : List CsInsn)
    : ∀ next s, exec P none (transformBlock P cfg next insns).1 s = runInsns P cfg next insns s := by
  induction insns with
  | nil =>
    intro next s
    rfl
  | cons insn insns ih =>
    intro next s
    unfold transformBlock runInsns
    dsimp only
    rw [exec_transformInsn_append, ih]

def MovMemInfo.ofMem (m : X86OpMem) (size : ℕ) (isLoad : Bool) : MovMemInfo where
  isLoad
  isStore := !isLoad
  regOpIdx := if isLoad then 0 else 1
  accessSize := size
  baseReg := m.base
  indexReg := m.index
  scale := m.scale
  disp := m.disp

theorem analyzeMov_eq {info : MovMemInfo} (h : analyzeMov insn cfg = some info)
    : analyzeMov.go 0 insn.operands = some info := by
  unfold analyzeMov at h
  split at h
  next => contradiction
  next =>
    split at h
    next => contradiction
    next =>
      split at h
      next => contradiction
      next =>
        split at h
        next => contradiction
        next => exact h

theorem callout_notMem_emit (info : MovMemInfo) (cd cd' : MovCalloutData) (isLoad : Bool)
    : callout cd' (!isLoad) ∉ emitInlineRangeCheck info cd isLoad := by
  unfold emitInlineRangeCheck callout
  cases isLoad with
  | true | false =>
    split
    next => simp
    next =>
      dsimp only
      split <;> simp

theorem callout_mem_emit (info : MovMemInfo) (cd : MovCalloutData) (isLoad : Bool)
    : callout cd isLoad ∈ emitInlineRangeCheck info cd isLoad := by
  unfold emitInlineRangeCheck
  split <;> simp

section Forms

variable {m : X86OpMem} {size width : ℕ} {s : Machine}

theorem exec_of_callout_mem {isLoad : Bool} {cd : MovCalloutData}
    (hmem : callout cd isLoad ∈ (transformInsn P cfg next insn).1)
    (hgo : analyzeMov.go 0 insn.operands = some (.ofMem m size isLoad)) (s : Machine)
    : let info := MovMemInfo.ofMem m size isLoad
      exec P none (transformInsn P cfg next insn).1 s
        =
      insn.execute P.rest
        (if ReachesCallout cfg.toConfig info s then
          execItem P (checked cfg.toConfig info s)
            (callout (calloutData P cfg next insn info isLoad) isLoad)
        else
          checked cfg.toConfig info s) := by
  have hkept : callout cd isLoad ∉ [.keep insn] := by
    cases isLoad with
    | true | false => simp [callout]
  rcases transformInsn_cases P cfg next insn with hkeep | ⟨info, emitted, hinfo, hemit⟩
  . rw [hkeep] at hmem
    exact absurd hmem hkept
  . have hsame : emitted = isLoad := by
      by_contra hne
      rw [hemit, List.mem_append] at hmem
      have hnot := callout_notMem_emit info (calloutData P cfg next insn info emitted) cd emitted
      rw [← Bool.eq_not.mpr (Ne.symm hne)] at hnot
      rcases hmem with hmem | hmem
      . exact hnot hmem
      . exact hkept hmem
    have hconfig : (calloutData P cfg next insn info emitted).config = cfg.toConfig := by
      unfold calloutData
      split <;> rfl
    have hofMem := Option.some_inj.mp ((analyzeMov_eq hinfo).symm.trans hgo)
    rw [hemit, exec_emitInlineRangeCheck, hconfig, hofMem, hsame]
    rfl

theorem InstrumentsLoad.exec_eq {dest : X86Reg}
    (hoperands : insn.operands = [⟨.reg dest, width⟩, ⟨.mem m, size⟩])
    (h : InstrumentsLoad P cfg next insn) (s : Machine)
    : let info := MovMemInfo.ofMem m size true
      exec P none (transformInsn P cfg next insn).1 s
        =
      insn.execute P.rest
        (if ReachesCallout cfg.toConfig info s then
          movLoadCallout ⟨next, cfg.toConfig, info, dest, .invalid⟩ (checked cfg.toConfig info s)
        else
          checked cfg.toConfig info s) := by
  rcases h with ⟨cd, hmem⟩
  have hreg : regOperand P insn (MovMemInfo.ofMem m size true).regOpIdx = dest := by
    unfold regOperand
    rw [hoperands]
    rfl
  have hgo : analyzeMov.go 0 insn.operands = some (.ofMem m size true) := by
    rw [hoperands]
    rfl
  rw [← hreg]
  exact exec_of_callout_mem hmem hgo s

theorem InstrumentsStore.exec_eq {src : X86Op}
    (hoperands : insn.operands = [⟨.mem m, size⟩, ⟨src, width⟩])
    (h : InstrumentsStore P cfg next insn) (s : Machine)
    : let info := MovMemInfo.ofMem m size false
      exec P none (transformInsn P cfg next insn).1 s
        =
      insn.execute P.rest
        (if ReachesCallout cfg.toConfig info s then
          movStoreCallout ⟨next, cfg.toConfig, info, .invalid, Operand.reg P ⟨src, width⟩⟩
            (checked cfg.toConfig info s)
        else
          checked cfg.toConfig info s) := by
  rcases h with ⟨cd, hmem⟩
  have hreg : regOperand P insn (MovMemInfo.ofMem m size false).regOpIdx = Operand.reg P ⟨src, width⟩ := by
    unfold regOperand
    rw [hoperands]
    rfl
  have hgo : analyzeMov.go 0 insn.operands = some (.ofMem m size false) := by
    rw [hoperands]
    rfl
  rw [← hreg]
  exact exec_of_callout_mem hmem hgo s

theorem checked_eq (c : Config) (info : MovMemInfo) (s : Machine)
    : checked c info s = { s with mem := (checked c info s).mem } := by
  unfold checked
  split <;> rfl

theorem transferSize_eq (cd : MovCalloutData) : transferSize cd = min cd.info.accessSize 8 := by
  unfold transferSize
  split <;> omega

def X86OpMem.sum (m : X86OpMem) (regs : Regs) : UInt64 :=
  m.disp + readReg regs m.base + readReg regs m.index * m.scale

theorem computeEa_ofMem (regs : Regs) (isLoad : Bool)
    : computeEa regs (.ofMem m size isLoad) = m.sum regs := by
  have hinvalid : readReg regs .invalid = 0 := rfl
  unfold computeEa X86OpMem.sum MovMemInfo.ofMem
  by_cases hbase : m.base = .invalid
  . by_cases hindex : m.index = .invalid <;> simp [hbase, hindex, hinvalid]
  . by_cases hindex : m.index = .invalid
    . simp [hbase, hindex, hinvalid]
    . simp [hbase, hindex]

end Forms

structure RemotePart (c : Config) (node : UInt16) (addr : UInt64) : Prop where
  inside : c.Inside addr
  nodes_pos : 1 ≤ c.numNodes.toNat
  share_ne : c.share ≠ 0
  node_eq : node = c.clamp (c.quot addr)
  remote : node ≠ c.localNodeId

theorem callout_eq_remote_iff {c : Config} {node : UInt16} {addr : UInt64}
    : StalkerMov.callout c addr = .remote node
        ↔
      (StalkerMov.callout c addr).node c = node ∧ node ≠ c.localNodeId := by
  unfold StalkerMov.callout
  cases StalkerMov.calloutNode c addr with
  | none =>
    simp only [reduceCtorEq, StalkerMov.Access.node, false_iff, not_and, not_not]
    exact Eq.symm
  | some found =>
    dsimp only
    split
    next heq =>
      simp only [reduceCtorEq, StalkerMov.Access.node, false_iff, not_and, not_not]
      exact Eq.symm
    next hne =>
      simp only [StalkerMov.Access.remote.injEq, StalkerMov.Access.node]
      constructor
      . intro heq
        exact ⟨heq, heq ▸ hne⟩
      . exact And.left

theorem RemotePart.callout_eq_iff {c : Config} {node : UInt16} {addr : UInt64}
    (h : RemotePart c node addr)
    : StalkerMov.callout c addr = .remote node ↔ c.clamp (c.quot addr % 2 ^ 16) = node := by
  rw [callout_eq_remote_iff, h.inside.callout_eq h.nodes_pos, if_neg h.share_ne]
  exact and_iff_left h.remote

def twoNodes : StalkerConfig where
  base := 0x1000
  size := 32
  numNodes := 2
  localNodeId := 0
  hookMov := true
  hookMovzx := true
  hookMovnti := true

def plainPlatform : Platform where
  regOfId _ := .invalid
  immediate := id
  rest _ s := s

def atRdi : X86OpMem where
  segment := .invalid
  base := .gp .rdi .qword
  index := .invalid
  scale := 1
  disp := 0

def pointing (shadow remote : UInt8) : Machine where
  regs :=
    { gpr := Function.update (fun _ => 0) .rdi 0x1010
      rip := 0
      rflags := 1
      xmm _ := 0
      mm _ := 0
      seg _ := 0 }
  fsBase := 0
  gsBase := 0
  mem _ := shadow
  remote _ _ := remote
  sent := []

theorem remotePart_twoNodes : RemotePart twoNodes.toConfig 1 0x1010 := by
  constructor
  . exact ⟨by decide, by decide⟩
  . decide
  . decide
  . decide
  . decide

end Bpftime.Pgas.Stalker
