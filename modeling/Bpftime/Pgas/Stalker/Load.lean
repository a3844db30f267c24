import Bpftime.Pgas.Stalker.Block

namespace Bpftime.Pgas.Stalker

open WordMem (Mem shift put)

section Extend

variable {size v v' k : ℕ} {id : InsnId}

theorem signExtend_mod (h : v < 256 ^ size) : signExtend size v % 256 ^ size = v := by
  unfold signExtend
  split
  next => exact Nat.mod_eq_of_lt h
  next =>
    have hdvd : 256 ^ size ∣ 256 ^ 8 - 256 ^ size := by
      by_cases hle : size ≤ 8
      . exact Nat.dvd_sub (Nat.pow_dvd_pow 256 hle) (Nat.dvd_refl _)
      . rw [Nat.sub_eq_zero_of_le (Nat.pow_le_pow_right (by decide) (by omega))]
        exact Nat.dvd_zero _
    rw [Nat.add_mod, Nat.mod_eq_zero_of_dvd hdvd, Nat.add_zero, Nat.mod_mod]
    exact Nat.mod_eq_of_lt h

theorem extend_mod (h : v < 256 ^ size) : extend id size v % 256 ^ size = v := by
  unfold extend
  split
  next => exact signExtend_mod h
  next => exact signExtend_mod h
  next => exact Nat.mod_eq_of_lt h

theorem extend_mod_eq_iff (hv : v < 256 ^ size) (hv' : v' < 256 ^ size) (hk : size ≤ k)
    : extend id size v % 256 ^ k = extend id size v' % 256 ^ k ↔ v = v' := by
  constructor
  . intro h
    have hmod := congrArg (· % 256 ^ size) h
    simp only [Nat.mod_mod_of_dvd _ (Nat.pow_dvd_pow 256 hk), extend_mod hv, extend_mod hv'] at hmod
    exact hmod
  . intro h
    rw [h]

end Extend

namespace Regs

variable {regs : Regs}

theorem setGpr_inj {r : Gpr} {v v' : UInt64} : regs.setGpr r v = regs.setGpr r v' ↔ v = v' := by
  unfold setGpr
  simp only [mk.injEq, (Function.update_injective regs.gpr r).eq_iff, and_true]

theorem setGpr_setGpr (r : Gpr) (v v' : UInt64) : (regs.setGpr r v).setGpr r v' = regs.setGpr r v' := by
  unfold setGpr
  dsimp only
  rw [Function.update_idem]

theorem merge_eq_iff (w : Width) (a b : UInt64) (x y : ℕ) : merge w a x = merge w b y
        ↔
      x % 256 ^ w.bytes = y % 256 ^ w.bytes
        ∧ (w.bytes ≤ 2 → a.toNat / 256 ^ w.bytes = b.toNat / 256 ^ w.bytes) := by
  have ha := a.toNat_lt
  have hb := b.toNat_lt
  rw [← UInt64.toNat_inj]
  unfold merge
  cases w with
  | byte | word | dword | qword =>
    simp only [UInt64.toNat_ofNat', Width.bytes]
    omega

theorem mergeHigh_eq_iff (a : UInt64) (x y : ℕ) : mergeHigh a x = mergeHigh a y ↔ x % 256 = y % 256 := by
  have ha := a.toNat_lt
  rw [← UInt64.toNat_inj]
  unfold mergeHigh
  simp only [UInt64.toNat_ofNat']
  omega

theorem load_eq_iff {dest : X86Reg} (hdest : dest.bytes ≠ 0) (x y : ℕ)
    : regs.load dest x = regs.load dest y ↔ x % 256 ^ dest.bytes = y % 256 ^ dest.bytes := by
  cases dest with
  | gp r w =>
    unfold load
    dsimp only
    rw [setGpr_inj, merge_eq_iff]
    simp [X86Reg.bytes]
  | high h =>
    unfold load
    dsimp only
    rw [setGpr_inj, mergeHigh_eq_iff]
    rfl
  | xmm i =>
    unfold load
    simp only [mk.injEq, (Function.update_injective regs.xmm i).eq_iff, true_and, and_true]
    rw [← BitVec.toNat_inj, BitVec.toNat_ofNat, BitVec.toNat_ofNat]
    rfl
  | mm i =>
    unfold load
    simp only [mk.injEq, (Function.update_injective regs.mm i).eq_iff, true_and, and_true]
    rw [← UInt64.toNat_inj, UInt64.toNat_ofNat', UInt64.toNat_ofNat']
    rfl
  | seg i =>
    unfold load
    simp only [mk.injEq, (Function.update_injective regs.seg i).eq_iff, true_and]
    rw [← UInt16.toNat_inj, UInt16.toNat_ofNat', UInt16.toNat_ofNat']
    rfl
  | _ => exact absurd rfl hdest

end Regs

theorem X86Reg.bytes_le (reg : X86Reg) : reg.bytes ≤ 16 := by
  cases reg with
  | gp r w =>
    cases w with
    | _ => simp [X86Reg.bytes, Width.bytes]
  | _ => simp [X86Reg.bytes]

structure IsLoad (insn : CsInsn) (dest : X86Reg) (m : X86OpMem) (size : ℕ) : Prop where
  operands_eq : ∃ width, insn.operands = [⟨.reg dest, width⟩, ⟨.mem m, size⟩]
  size_pos : 0 < size
  size_le : size ≤ dest.bytes

def remoteBytes (s : Machine) (node : UInt16) (addr : UInt64) (i : ℕ) : UInt8 :=
  s.remote node (shift addr i)

/-- The registers are those of a load of the remote bytes. -/
def LoadMatches (P : Platform) (cfg : StalkerConfig) (next : ℕ) (insn : CsInsn) (m : X86OpMem) (size : ℕ)
    (node : UInt16) (s : Machine) : Prop :=
  let addr := insn.address m s
  (exec P none (transformInsn P cfg next insn).1 s).regs
    = (insn.execute P.rest { s with mem := put s.mem addr (remoteBytes s node addr) size }).regs

def fetchNode (c : Config) (m : X86OpMem) (size : ℕ) (s : Machine) : Option UInt16 :=
  if ReachesCallout c (.ofMem m size true) s then
    match StalkerMov.callout c (m.sum s.regs) with
    | .remote node => some node
    | .passthrough => none
  else
    none

def fetched (c : Config) (dest : X86Reg) (m : X86OpMem) (size : ℕ) (s : Machine) : Regs :=
  match fetchNode c m size s with
  | none => s.regs
  | some node =>
    writeReg s.regs dest (.ofNat (LittleEndian.value (remoteBytes s node (m.sum s.regs)) (min size 8)))

/-- The memory the load then reads has the remote bytes. -/
structure ShadowAgrees (c : Config) (insn : CsInsn) (dest : X86Reg) (m : X86OpMem) (size : ℕ)
    (node : UInt16) (s : Machine) : Prop where
  bytes_eq : ∀ i < size,
    (checked c (.ofMem m size true) s).mem
        (shift (insn.address m { s with regs := fetched c dest m size s }) i)
      = s.remote node (shift (insn.address m s) i)
  upper_zero : fetchNode c m size s ≠ none → ∀ r w, dest = .gp r w → w.bytes ≤ 2 →
    (s.regs.gpr r).toNat < 256 ^ w.bytes

section Load

variable {P : Platform} {cfg : StalkerConfig} {next : ℕ} {insn : CsInsn} {dest : X86Reg} {m : X86OpMem}
  {size : ℕ} {node : UInt16} {s : Machine}

theorem called_eq (c : Config) (dest : X86Reg) (m : X86OpMem) (size next : ℕ) (s : Machine)
    : (if ReachesCallout c (.ofMem m size true) s then
          movLoadCallout ⟨next, c, .ofMem m size true, dest, .invalid⟩ (checked c (.ofMem m size true) s)
        else
          checked c (.ofMem m size true) s)
        =
      { s with
        mem := (checked c (.ofMem m size true) s).mem
        regs := fetched c dest m size s } := by
  have hchecked := checked_eq c (.ofMem m size true) s
  generalize (checked c (.ofMem m size true) s).mem = mem at hchecked
  rw [hchecked]
  unfold fetched fetchNode
  split
  next =>
    unfold movLoadCallout StalkerMov.movLoadCallout
    dsimp only
    rw [computeEa_ofMem, transferSize_eq]
    cases StalkerMov.callout c (m.sum s.regs) with
    | passthrough => rfl
    | remote found => rfl
  next => rfl

theorem IsLoad.execute_regs (h : IsLoad insn dest m size) (rest : CsInsn → Machine → Machine)
    (s : Machine)
    : (insn.execute rest s).regs
        =
      insn.loadRegs dest s.regs (fun i => s.mem (shift (insn.address m s) i)) size := by
  rcases h.operands_eq with ⟨width, hoperands⟩
  unfold CsInsn.execute
  rw [hoperands]

theorem IsLoad.bytes_ne (h : IsLoad insn dest m size) : dest.bytes ≠ 0 := by
  have := h.size_pos
  have := h.size_le
  omega

theorem IsLoad.extend_eq_iff (h : IsLoad insn dest m size) (b b' : ℕ → UInt8)
    : extend insn.id size (LittleEndian.value b' size) % 256 ^ dest.bytes
          = extend insn.id size (LittleEndian.value b size) % 256 ^ dest.bytes
        ↔
      ∀ i < size, b' i = b i := by
  rw [extend_mod_eq_iff (LittleEndian.value_lt b' size) (LittleEndian.value_lt b size) h.size_le]
  exact LittleEndian.value_inj

theorem IsLoad.load_written_iff {r : Gpr} {w : Width} (h : IsLoad insn (.gp r w) m size) (regs : Regs)
    (bytes : ℕ → UInt8) (x y : ℕ)
    : (writeReg regs (.gp r w) (.ofNat (LittleEndian.value bytes (min size 8)))).load (.gp r w) x
          = regs.load (.gp r w) y
        ↔
      x % 256 ^ w.bytes = y % 256 ^ w.bytes ∧ (w.bytes ≤ 2 → (regs.gpr r).toNat < 256 ^ w.bytes) := by
  generalize hval : UInt64.ofNat (LittleEndian.value bytes (min size 8)) = val
  have hlt : val.toNat < 256 ^ w.bytes := by
    have hvalue := LittleEndian.value_lt bytes (min size 8)
    have hpow : 256 ^ min size 8 ≤ 256 ^ w.bytes :=
      Nat.pow_le_pow_right (by decide) (Nat.le_trans (Nat.min_le_left _ _) h.size_le)
    rw [← hval, UInt64.toNat_ofNat']
    apply Nat.lt_of_le_of_lt (Nat.mod_le _ _)
    omega
  have hpos : 0 < 256 ^ w.bytes := Nat.pow_pos (by decide)
  have hload : (writeReg regs (.gp r w) val).load (.gp r w) x = regs.setGpr r (Regs.merge w val x) := by
    unfold writeReg Regs.load
    dsimp only
    rw [Regs.setGpr_setGpr]
    simp [Regs.setGpr]
  rw [hload]
  change _ = regs.setGpr r (Regs.merge w (regs.gpr r) y) ↔ _
  rw [Regs.setGpr_inj, Regs.merge_eq_iff, Nat.div_eq_of_lt hlt]
  apply and_congr_right
  intro _
  apply imp_congr_right
  intro _
  rw [eq_comm, Nat.div_eq_zero_iff]
  omega

theorem IsLoad.loadRegs_fetched_iff (h : IsLoad insn dest m size) (c : Config) (s : Machine)
    (b b' : ℕ → UInt8)
    : insn.loadRegs dest (fetched c dest m size s) b' size = insn.loadRegs dest s.regs b size
        ↔
      (∀ i < size, b' i = b i)
        ∧ (fetchNode c m size s ≠ none → ∀ r w, dest = .gp r w → w.bytes ≤ 2 →
            (s.regs.gpr r).toNat < 256 ^ w.bytes) := by
  unfold CsInsn.loadRegs fetched
  rw [← h.extend_eq_iff]
  cases hfetch : fetchNode c m size s with
  | none =>
    rw [Regs.load_eq_iff h.bytes_ne]
    simp
  | some found =>
    cases dest with
    | gp r w =>
      dsimp only
      rw [h.load_written_iff]
      simp [X86Reg.bytes]
    | _ =>
      dsimp only [writeReg]
      rw [Regs.load_eq_iff h.bytes_ne]
      simp

theorem IsLoad.loadRegs_put (h : IsLoad insn dest m size) (regs : Regs) (mem : Mem) (addr : UInt64)
    (bytes : ℕ → UInt8)
    : insn.loadRegs dest regs (fun i => put mem addr bytes size (shift addr i)) size
        =
      insn.loadRegs dest regs bytes size := by
  have hle := Nat.le_trans h.size_le dest.bytes_le
  unfold CsInsn.loadRegs
  congr 2
  apply LittleEndian.value_congr
  intro i hi
  exact WordMem.put_shift hi (by omega)

theorem loadMatches_iff (hload : IsLoad insn dest m size) (hinstruments : InstrumentsLoad P cfg next insn)
    (node : UInt16) (s : Machine)
    : LoadMatches P cfg next insn m size node s
        ↔
      ShadowAgrees cfg.toConfig insn dest m size node s := by
  rcases hload.operands_eq with ⟨width, hoperands⟩
  have hexpected : (insn.execute P.rest { s with
      mem := put s.mem (insn.address m s) (remoteBytes s node (insn.address m s)) size }).regs
      = insn.loadRegs dest s.regs (remoteBytes s node (insn.address m s)) size := by
    rw [hload.execute_regs]
    exact hload.loadRegs_put s.regs s.mem (insn.address m s) (remoteBytes s node (insn.address m s))
  unfold LoadMatches
  dsimp only
  rw [hexpected, hinstruments.exec_eq hoperands s, called_eq, hload.execute_regs]
  dsimp only
  rw [hload.loadRegs_fetched_iff]
  constructor
  . rintro ⟨hbytes, hupper⟩
    exact ⟨hbytes, hupper⟩
  . rintro ⟨hbytes, hupper⟩
    exact ⟨hbytes, hupper⟩

end Load

def loadRax : CsInsn where
  id := .mov
  nextAddress := 0
  addr32 := false
  operands := [⟨.reg (.gp .rax .qword), 8⟩, ⟨.mem atRdi, 8⟩]

theorem isLoad_loadRax : IsLoad loadRax (.gp .rax .qword) atRdi 8 :=
  ⟨⟨8, rfl⟩, by decide, by decide⟩

theorem remotePart_loadRax (shadow remote : UInt8)
    : RemotePart twoNodes.toConfig 1 (loadRax.address atRdi (pointing shadow remote)) :=
  remotePart_twoNodes

theorem instrumentsLoad_loadRax : InstrumentsLoad plainPlatform twoNodes 0 loadRax := by
  refine ⟨⟨0, twoNodes.toConfig, .ofMem atRdi 8 true, .gp .rax .qword, .invalid⟩, ?_⟩
  have hitems : (transformInsn plainPlatform twoNodes 0 loadRax).1
      = emitInlineRangeCheck (.ofMem atRdi 8 true)
          ⟨0, twoNodes.toConfig, .ofMem atRdi 8 true, .gp .rax .qword, .invalid⟩ true
        ++ [.keep loadRax] := rfl
  rw [hitems]
  exact List.mem_append_left _ (callout_mem_emit _ _ true)

theorem loadMatches_iff_shadow : InstrumentsLoad plainPlatform twoNodes 0 loadRax
        ∧ RemotePart twoNodes.toConfig 1 (loadRax.address atRdi (pointing 7 7))
        ∧ LoadMatches plainPlatform twoNodes 0 loadRax atRdi 8 1 (pointing 7 7) := by
  refine ⟨instrumentsLoad_loadRax, remotePart_loadRax 7 7, ?_⟩
  rw [loadMatches_iff isLoad_loadRax instrumentsLoad_loadRax]
  constructor
  . decide
  . intro _ r w hdest hwidth
    cases hdest
    contradiction

theorem not_loadMatches_shadow : IsLoad loadRax (.gp .rax .qword) atRdi 8
        ∧ InstrumentsLoad plainPlatform twoNodes 0 loadRax
        ∧ RemotePart twoNodes.toConfig 1 (loadRax.address atRdi (pointing 0 7))
        ∧ ¬ LoadMatches plainPlatform twoNodes 0 loadRax atRdi 8 1 (pointing 0 7) := by
  refine ⟨isLoad_loadRax, instrumentsLoad_loadRax, remotePart_loadRax 0 7, ?_⟩
  intro h
  have hrax := congrArg (fun regs => regs.gpr .rax) h
  revert hrax
  decide

end Bpftime.Pgas.Stalker
