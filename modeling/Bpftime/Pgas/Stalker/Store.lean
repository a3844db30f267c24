import Bpftime.Pgas.Stalker.Block

namespace Bpftime.Pgas.Stalker

open WordMem (Mem shift put)

def X86Op.bytes : X86Op → ℕ
  | .reg r => r.bytes
  | .imm _ => 8
  | .mem _ => 0

structure IsStore (insn : CsInsn) (src : X86Op) (m : X86OpMem) (size : ℕ) : Prop where
  operands_eq : ∃ width, insn.operands = [⟨.mem m, size⟩, ⟨src, width⟩]
  size_pos : 0 < size
  size_le : size ≤ src.bytes

def storedBytes (regs : Regs) (src : X86Op) (size : ℕ) : List UInt8 :=
  (List.range size).map (LittleEndian.byte (regs.source src))

/-- The store sends its bytes to the node, once. -/
def StoreSends (P : Platform) (cfg : StalkerConfig) (next : ℕ) (insn : CsInsn) (src : X86Op) (m : X86OpMem)
    (size : ℕ) (node : UInt16) (s : Machine) : Prop :=
  (exec P none (transformInsn P cfg next insn).1 s).sent
    = s.sent ++ [⟨node, insn.address m s, storedBytes s.regs src size⟩]

def SourceRead (P : Platform) (regs : Regs) (size : ℕ) : X86Op → Prop
  | .reg (.gp _ _) => True
  | .reg r => regs.source (.reg r) % 256 ^ size = 0
  | .imm v => v.toNat % 256 ^ size = (readReg regs (P.regOfId v.toUInt32)).toNat % 256 ^ size
  | .mem _ => False

structure SendsSource (P : Platform) (c : Config) (insn : CsInsn) (src : X86Op) (m : X86OpMem) (size : ℕ)
    (node : UInt16) (s : Machine) : Prop where
  /-- The range check of the instruction lets its callout run. -/
  reaches : ReachesCallout c (.ofMem m size false) s
  /-- No segment base and no bits that the address size cuts off. -/
  address_eq : m.sum s.regs = insn.address m s
  /-- The number of the node fits in 16 bits before it is clamped. -/
  node_eq : c.clamp (c.quot (insn.address m s) % 2 ^ 16) = node
  size_le : size ≤ 8
  source : SourceRead P s.regs size src

section Store

variable {P : Platform} {cfg : StalkerConfig} {next : ℕ} {insn : CsInsn} {src : X86Op} {m : X86OpMem}
  {size : ℕ} {node : UInt16} {s : Machine}

theorem IsStore.sent_execute (h : IsStore insn src m size) (rest : CsInsn → Machine → Machine)
    (s : Machine)
    : (insn.execute rest s).sent = s.sent := by
  rcases h.operands_eq with ⟨width, hoperands⟩
  have hpos := h.size_pos
  have hle := h.size_le
  unfold CsInsn.execute
  rw [hoperands]
  cases src with
  | reg r => rfl
  | imm v => rfl
  | mem m' =>
    simp [X86Op.bytes] at hle
    omega

theorem IsStore.sourceRead_iff (h : IsStore insn src m size) (regs : Regs) (width : ℕ)
    : (readReg regs (Operand.reg P ⟨src, width⟩)).toNat % 256 ^ size = regs.source src % 256 ^ size
        ↔
      SourceRead P regs size src := by
  have hpos := h.size_pos
  have hle := h.size_le
  cases src with
  | reg r =>
    cases r with
    | gp r w =>
      have hdvd : 256 ^ size ∣ 256 ^ w.bytes := Nat.pow_dvd_pow 256 hle
      unfold SourceRead Operand.reg readReg Regs.source
      dsimp only
      rw [Nat.mod_mod_of_dvd _ hdvd]
      exact iff_of_true rfl trivial
    | rip =>
      simp [X86Op.bytes, X86Reg.bytes] at hle
      omega
    | _ =>
      unfold SourceRead Operand.reg readReg
      dsimp only
      rw [UInt64.toNat_zero, Nat.zero_mod, eq_comm]
  | imm v =>
    exact eq_comm
  | mem m' =>
    simp [X86Op.bytes] at hle
    omega

theorem sent_called (c : Config) (src : X86Reg) (m : X86OpMem) (size next : ℕ) (s : Machine)
    : (if ReachesCallout c (.ofMem m size false) s then
          movStoreCallout ⟨next, c, .ofMem m size false, .invalid, src⟩ (checked c (.ofMem m size false) s)
        else
          checked c (.ofMem m size false) s).sent
        =
      if ReachesCallout c (.ofMem m size false) s then
        match StalkerMov.callout c (m.sum s.regs) with
        | .passthrough => s.sent
        | .remote node =>
          s.sent ++ [⟨node, m.sum s.regs,
            (List.range (min size 8)).map (LittleEndian.byte (readReg s.regs src).toNat)⟩]
      else
        s.sent := by
  rw [checked_eq c (.ofMem m size false) s]
  split
  next =>
    unfold movStoreCallout StalkerMov.movStoreCallout
    dsimp only
    rw [computeEa_ofMem, transferSize_eq]
    cases StalkerMov.callout c (m.sum s.regs) with
    | passthrough => rfl
    | remote found => rfl
  next => rfl

theorem storeSends_iff (hstore : IsStore insn src m size) (hinstruments : InstrumentsStore P cfg next insn)
    (hremote : RemotePart cfg.toConfig node (insn.address m s))
    : StoreSends P cfg next insn src m size node s
        ↔
      SendsSource P cfg.toConfig insn src m size node s := by
  rcases hstore.operands_eq with ⟨width, hoperands⟩
  unfold StoreSends storedBytes
  rw [hinstruments.exec_eq hoperands s, hstore.sent_execute, sent_called]
  constructor
  . intro h
    split at h
    next hreaches =>
      cases hcallout : StalkerMov.callout cfg.toConfig (m.sum s.regs) with
      | passthrough =>
        rw [hcallout] at h
        simp at h
      | remote found =>
        rw [hcallout] at h
        simp only [List.append_cancel_left_eq, List.cons.injEq, RemoteWrite.mk.injEq, and_true] at h
        rcases h with ⟨hfound, haddress, hbytes⟩
        rcases LittleEndian.map_byte_eq_iff.mp hbytes with ⟨hsize, hmod⟩
        rw [haddress, hfound] at hcallout
        constructor
        . exact hreaches
        . exact haddress
        . exact hremote.callout_eq_iff.mp hcallout
        . omega
        . exact (hstore.sourceRead_iff s.regs width).mp hmod
    next => simp at h
  . rintro ⟨hreaches, haddress, hnode, hsize, hsource⟩
    have hcallout := hremote.callout_eq_iff.mpr hnode
    have hmod := (hstore.sourceRead_iff s.regs width).mpr hsource
    rw [if_pos hreaches, haddress, hcallout]
    dsimp only
    rw [LittleEndian.map_byte_eq_iff.mpr ⟨Nat.min_eq_left hsize, hmod⟩]

end Store

def holding : Machine :=
  { pointing 0 0 with regs := (pointing 0 0).regs.setGpr .rax 0x100 }

def storeReg (r : X86Reg) : CsInsn where
  id := .mov
  nextAddress := 0
  addr32 := false
  operands := [⟨.mem atRdi, r.bytes⟩, ⟨.reg r, r.bytes⟩]

theorem isStore_storeReg {r : X86Reg} (h : 0 < r.bytes)
    : IsStore (storeReg r) (.reg r) atRdi r.bytes :=
  ⟨⟨r.bytes, rfl⟩, h, Nat.le_refl _⟩

theorem remotePart_storeReg (r : X86Reg)
    : RemotePart twoNodes.toConfig 1 ((storeReg r).address atRdi holding) :=
  remotePart_twoNodes

theorem instrumentsStore_storeReg (r : X86Reg)
    : InstrumentsStore plainPlatform twoNodes 0 (storeReg r) := by
  refine ⟨⟨0, twoNodes.toConfig, .ofMem atRdi r.bytes false, .invalid, r⟩, ?_⟩
  have hitems : (transformInsn plainPlatform twoNodes 0 (storeReg r)).1
      = emitInlineRangeCheck (.ofMem atRdi r.bytes false)
          ⟨0, twoNodes.toConfig, .ofMem atRdi r.bytes false, .invalid, r⟩ false
        ++ [.keep (storeReg r)] := rfl
  rw [hitems]
  exact List.mem_append_left _ (callout_mem_emit _ _ false)

theorem storeSends_iff_rax
    : RemotePart twoNodes.toConfig 1 ((storeReg (.gp .rax .qword)).address atRdi holding)
        ∧ StoreSends plainPlatform twoNodes 0 (storeReg (.gp .rax .qword)) (.reg (.gp .rax .qword)) atRdi 8 1
            holding := by
  have hstore : IsStore (storeReg (.gp .rax .qword)) (.reg (.gp .rax .qword)) atRdi 8 :=
    isStore_storeReg (by decide)
  refine ⟨remotePart_storeReg _, ?_⟩
  rw [storeSends_iff hstore (instrumentsStore_storeReg _) (remotePart_storeReg _)]
  constructor
  . decide
  . decide
  . decide
  . decide
  . trivial

theorem not_storeSends_ah : IsStore (storeReg (.high .ah)) (.reg (.high .ah)) atRdi 1
        ∧ InstrumentsStore plainPlatform twoNodes 0 (storeReg (.high .ah))
        ∧ RemotePart twoNodes.toConfig 1 ((storeReg (.high .ah)).address atRdi holding)
        ∧ ¬ StoreSends plainPlatform twoNodes 0 (storeReg (.high .ah)) (.reg (.high .ah)) atRdi 1 1 holding := by
  refine ⟨isStore_storeReg (by decide), instrumentsStore_storeReg _, remotePart_storeReg _, ?_⟩
  unfold StoreSends
  decide

end Bpftime.Pgas.Stalker
