import Bpftime.Ptx.RegisterGuard.Blocks

namespace Bpftime.Ptx.RegisterGuard

structure Access where
  slot : Text × Text
  offset : ℕ

namespace Access

def name (a : Access) : Text := a.slot.1

def storeOps (a : Access) : List Op := [addOp a.offset, storeOp a.slot]

def loadOps (a : Access) : List Op := [addOp a.offset, loadOp a.slot]

def bytes (a : Access) : Option ℕ :=
  if a.slot.2 = ".u8".toList then
    some 1
  else if a.slot.2 = ".u16".toList then
    some 2
  else if a.slot.2 = ".u32".toList then
    some 4
  else if a.slot.2 = ".u64".toList then
    some 8
  else
    none

def Apart (a b : Access) : Prop := a.offset + 8 ≤ b.offset ∨ b.offset + 8 ≤ a.offset

end Access

def blockOps (ops : Access → List Op) (accesses : List Access) : List Op :=
  match accesses with
  | [] => []
  | _ => movOp :: accesses.flatMap ops

structure Keeps (registers : List RegisterInfo) (stores loads : List Access) : Prop where
  saved : Reads (pushBlock registers) (blockOps Access.storeOps stores)
  restored : Reads (popBlock registers) (blockOps Access.loadOps loads)
  names : stores.map Access.name = registers.flatMap RegisterInfo.names
  offset : ∀ k (hk : k < stores.length), stores[k].offset = 8 * k
  /-- A register is loaded from where it was stored, with the width it was stored with. -/
  same : loads.Perm stores
  width : ∀ a ∈ stores, ∃ n ≤ 8, a.bytes = some n
  apart : stores.Pairwise Access.Apart
  inside : ∀ a ∈ stores, ∃ size, a.offset + 8 ≤ size
    ∧ Reads (newDecls registers) [areaOp size, regOp tempBaseReg, regOp tempAddrReg]

/-- Each register has a slot of its own and gets its value back. -/
def KeepsRegisters (registers : List RegisterInfo) : Prop :=
  InRange registers ∧ ∃ stores loads, Keeps registers stores loads

section Reading

theorem reads_nil_iff {ops : List Op} : Reads [] ops ↔ ops = [] := by
  constructor
  . intro h
    have hread := h (⟨.code, []⟩, ⟨.inside 0, [], [], false⟩) rfl
    cases ops with
    | nil => rfl
    | cons op ops => cases hread
  . rintro rfl
    exact reads_nil

def accesses (offset : ℕ) : List (Text × Text) → List Access
  | [] => []
  | slot :: rest => ⟨slot, offset⟩ :: accesses (offset + 8) rest

theorem reads_saves {slots : List (Text × Text)} (h : ∀ slot ∈ slots, Slot slot) (offset : ℕ)
    : Reads (saves offset slots) ((accesses offset slots).flatMap Access.storeOps) := by
  induction slots generalizing offset with
  | nil => exact reads_nil
  | cons slot slots ih =>
    have hslot := reads_store (h slot List.mem_cons_self)
    have hrest := ih (fun slot' hslot' => h slot' (List.mem_cons_of_mem slot hslot')) (offset + 8)
    exact ((reads_add offset).append hslot).append hrest

theorem restores_concat (offset : ℕ) (slots : List (Text × Text)) (slot : Text × Text)
    : restores offset (slots ++ [slot])
        =
      restores offset slots ++ (addText (offset - 8 * slots.length) ++ loadText slot) := by
  induction slots generalizing offset with
  | nil => simp [restores]
  | cons slot' slots ih =>
    have hoffset : offset - 8 - 8 * slots.length = offset - 8 * (slots.length + 1) := by omega
    rw [List.cons_append]
    rw [restores]
    rw [ih]
    rw [hoffset]
    rw [restores]
    rw [List.length_cons]
    simp only [List.append_assoc]

theorem reads_restores {slots : List (Text × Text)} (h : ∀ slot ∈ slots, Slot slot) (offset : ℕ)
    : Reads (restores (offset + 8 * slots.length - 8) slots.reverse)
        ((accesses offset slots).reverse.flatMap Access.loadOps) := by
  induction slots generalizing offset with
  | nil => exact reads_nil
  | cons slot slots ih =>
    have hslot := reads_load (h slot List.mem_cons_self)
    have hrest := ih (fun slot' hslot' => h slot' (List.mem_cons_of_mem slot hslot')) (offset + 8)
    have hstart : offset + 8 + 8 * slots.length - 8 = offset + 8 * (slots.length + 1) - 8 := by
      omega
    have hlast : offset + 8 * (slots.length + 1) - 8 - 8 * slots.length = offset := by omega
    rw [hstart] at hrest
    rw [List.reverse_cons]
    rw [List.length_cons]
    rw [restores_concat]
    rw [List.length_reverse]
    rw [hlast]
    rw [accesses]
    rw [List.reverse_cons]
    rw [List.flatMap_append]
    rw [List.flatMap_singleton]
    exact hrest.append ((reads_add offset).append hslot)

end Reading

section Accesses

theorem map_slot_accesses (offset : ℕ) (slots : List (Text × Text))
    : (accesses offset slots).map Access.slot = slots := by
  induction slots generalizing offset with
  | nil => rfl
  | cons slot slots ih =>
    rw [accesses]
    rw [List.map_cons]
    rw [ih]

theorem length_accesses (offset : ℕ) (slots : List (Text × Text))
    : (accesses offset slots).length = slots.length := by
  rw [← List.length_map Access.slot]
  rw [map_slot_accesses]

theorem getElem_accesses_offset (offset : ℕ) (slots : List (Text × Text)) (k : ℕ)
    (hk : k < (accesses offset slots).length)
    : (accesses offset slots)[k].offset = offset + 8 * k := by
  induction slots generalizing offset k with
  | nil => cases hk
  | cons slot slots ih =>
    cases k with
    | zero => rfl
    | succ k =>
      have hnext := ih (offset + 8) k (Nat.lt_of_succ_lt_succ hk)
      simp only [accesses, List.getElem_cons_succ]
      rw [hnext]
      omega

theorem offset_bounds_of_mem {offset : ℕ} {slots : List (Text × Text)} {a : Access}
    (h : a ∈ accesses offset slots)
    : offset ≤ a.offset ∧ a.offset + 8 ≤ offset + 8 * slots.length := by
  obtain ⟨k, hk, rfl⟩ := List.getElem_of_mem h
  rw [getElem_accesses_offset]
  rw [length_accesses] at hk
  omega

theorem pairwise_apart_accesses (offset : ℕ) (slots : List (Text × Text))
    : (accesses offset slots).Pairwise Access.Apart := by
  induction slots generalizing offset with
  | nil => exact List.Pairwise.nil
  | cons slot slots ih =>
    refine List.Pairwise.cons ?_ (ih (offset + 8))
    intro a ha
    exact .inl (offset_bounds_of_mem ha).1

theorem bytes_of_slot {a : Access} (h : Slot a.slot) : ∃ n ≤ 8, a.bytes = some n := by
  have hmodifier := h.modifier
  unfold Access.bytes
  simp only [List.mem_cons, List.not_mem_nil, or_false] at hmodifier
  obtain hmodifier | hmodifier | hmodifier | hmodifier := hmodifier
  . exact ⟨1, by decide, by rw [hmodifier]; decide⟩
  . exact ⟨2, by decide, by rw [hmodifier]; decide⟩
  . exact ⟨4, by decide, by rw [hmodifier]; decide⟩
  . exact ⟨8, by decide, by rw [hmodifier]; decide⟩

theorem map_fst_slots (registers : List RegisterInfo)
    : (slots registers).map Prod.fst = registers.flatMap RegisterInfo.names := by
  unfold slots
  rw [List.map_flatMap]
  simp only [List.map_map, Function.comp_def, List.map_id']

end Accesses

section Sizes

theorem length_slots_cons (r : RegisterInfo) (registers : List RegisterInfo)
    : (slots (r :: registers)).length = r.names.length + (slots registers).length := by
  unfold slots
  rw [List.flatMap_cons]
  rw [List.length_append]
  rw [List.length_map]

theorem foldl_bytes (registers : List RegisterInfo) (count : ℕ)
    (h : count + (slots registers).length < 2 ^ 28)
    : registers.foldl (fun offset r => (offset + r.names.length * 8).bmod (2 ^ 32)) (count * 8 : ℤ)
        =
      (count + (slots registers).length) * 8 := by
  induction registers generalizing count with
  | nil => simp [slots]
  | cons r registers ih =>
    rw [length_slots_cons] at h
    have hstep : ((count * 8 : ℤ) + r.names.length * 8).bmod (2 ^ 32)
        = ((count + r.names.length : ℕ) : ℤ) * 8 := by
      rw [Int.bmod_eq_of_le]
      . omega
      . omega
      . omega
    rw [List.foldl_cons]
    rw [hstep]
    rw [ih _ (by omega)]
    rw [length_slots_cons]
    omega

theorem totalBytes_eq {registers : List RegisterInfo} (h : (slots registers).length < 2 ^ 28)
    : totalBytes registers = (slots registers).length * 8 := by
  have hfold := foldl_bytes registers 0 (by omega)
  simpa [totalBytes] using hfold

theorem packedBytes_le {registers : List RegisterInfo} (h : ∀ r ∈ registers, r.sizeInBytes ≤ 8)
    : packedBytes registers ≤ (slots registers).length * 8 := by
  unfold packedBytes
  induction registers with
  | nil => simp
  | cons r registers ih =>
    have hrest := ih (fun r' hr' => h r' (List.mem_cons_of_mem r hr'))
    have hr := Nat.mul_le_mul_left r.names.length (h r List.mem_cons_self)
    rw [List.foldr_cons]
    rw [length_slots_cons]
    omega

theorem sizeInBytes_registerInfo (type baseName : Text) (number : Option Text)
    : (registerInfo type baseName number).sizeInBytes ≤ 8 := by
  have hsize : getRegisterSizeInBytes type ≤ 8 := by
    have hcases := size_cases type
    simp only [List.mem_cons, List.not_mem_nil, or_false] at hcases
    omega
  unfold registerInfo
  split <;> exact hsize

theorem sizeInBytes_collectRegisters (lines : List Text)
    : ∀ r ∈ collectRegisters lines, r.sizeInBytes ≤ 8 := by
  apply List.foldlRecOn (motive := fun registers : List RegisterInfo =>
    ∀ r ∈ registers, r.sizeInBytes ≤ 8)
  . intro r hr
    cases hr
  . intro registers h line _
    unfold addRegister
    split
    . exact h
    next type baseName number _ =>
      split
      . exact h
      . split
        . exact h
        . intro r hr
          obtain hr | hr := List.mem_append.mp hr
          . exact h r hr
          . rw [List.mem_singleton.mp hr]
            exact sizeInBytes_registerInfo type baseName number

end Sizes

theorem saveAreaSize_eq {registers : List RegisterInfo} (h : (slots registers).length < 2 ^ 28)
    (hne : slots registers ≠ []) : saveAreaSize registers = (slots registers).length * 8 := by
  have hpos := List.length_pos_of_ne_nil hne
  have hmax : (max (totalBytes registers) 8).toNat = (slots registers).length * 8 := by
    rw [totalBytes_eq h]
    omega
  unfold saveAreaSize
  simp only [hmax]
  rw [if_neg (by omega)]

theorem pushBlock_eq_nil {registers : List RegisterInfo} (h : ¬ totalBytes registers > 0)
    : pushBlock registers = [] := by
  unfold pushBlock
  rw [if_neg h]

theorem KeepsRegisters.length_lt {registers : List RegisterInfo} (h : KeepsRegisters registers)
    : (slots registers).length < 2 ^ 28 := by
  obtain ⟨hrange, stores, loads, hkeeps⟩ := h
  by_contra hmany
  -- the sum is not positive, so nothing is saved
  have htotal : ¬ totalBytes registers > 0 := by
    intro hpos
    have := hrange.2 hpos
    omega
  have hsaved := hkeeps.saved
  rw [pushBlock_eq_nil htotal] at hsaved
  rw [reads_nil_iff] at hsaved
  have hstores : stores = [] := by
    cases stores with
    | nil => rfl
    | cons a stores => cases hsaved
  have hnames := hkeeps.names
  rw [hstores] at hnames
  rw [← map_fst_slots] at hnames
  have hslots : slots registers = [] := List.map_eq_nil_iff.mp hnames.symm
  rw [hslots] at hmany
  exact hmany (by decide)

section Layout

theorem blockOps_of_ne {ops : Access → List Op} {accesses : List Access} (h : accesses ≠ [])
    : blockOps ops accesses = movOp :: accesses.flatMap ops := by
  cases accesses with
  | nil => exact absurd rfl h
  | cons a accesses => rfl

theorem accesses_ne_nil {slots : List (Text × Text)} (h : slots ≠ []) (offset : ℕ)
    : accesses offset slots ≠ [] := by
  cases slots with
  | nil => exact absurd rfl h
  | cons slot slots => exact List.cons_ne_nil _ _

variable {registers : List RegisterInfo}

theorem totalBytes_pos (h : (slots registers).length < 2 ^ 28) (hne : slots registers ≠ [])
    : totalBytes registers > 0 := by
  have hpos := List.length_pos_of_ne_nil hne
  rw [totalBytes_eq h]
  omega

theorem totalBytes_eq_zero (hnil : slots registers = []) : totalBytes registers = 0 := by
  rw [totalBytes_eq (by simp [hnil])]
  simp [hnil]

theorem reads_newDecls (h : (slots registers).length < 2 ^ 28) (hne : slots registers ≠ [])
    : Reads (newDecls registers)
        [areaOp ((slots registers).length * 8), regOp tempBaseReg, regOp tempAddrReg] := by
  unfold newDecls
  split
  next => exact absurd rfl hne
  next =>
    rw [saveAreaSize_eq h hne]
    exact ((reads_area _).append reads_regBase).append reads_regAddr

variable (hslots : ∀ slot ∈ slots registers, Slot slot) (h : (slots registers).length < 2 ^ 28)

include hslots h

theorem reads_pushBlock
    : Reads (pushBlock registers) (blockOps Access.storeOps (accesses 0 (slots registers))) := by
  unfold pushBlock
  by_cases hne : slots registers = []
  . rw [if_neg (by simp [totalBytes_eq_zero hne])]
    rw [hne]
    exact reads_nil
  . rw [if_pos (totalBytes_pos h hne)]
    rw [blockOps_of_ne (accesses_ne_nil hne 0)]
    have hbegin : Reads (noteText "BEGIN REGISTER SAVING (PUSH to ".toList) [] :=
      reads_blank (by decide)
    have hend : Reads (noteText "END REGISTER SAVING (PUSH to ".toList) [] :=
      reads_blank (by decide)
    have hblock := ((hbegin.append reads_mov).append (reads_saves hslots 0)).append hend
    rw [List.append_nil] at hblock
    exact hblock

theorem reads_popBlock : Reads (popBlock registers)
        (blockOps Access.loadOps (accesses 0 (slots registers)).reverse) := by
  unfold popBlock
  by_cases hne : slots registers = []
  . rw [if_neg (by simp [totalBytes_eq_zero hne])]
    rw [hne]
    exact reads_nil
  . have hstart : (totalBytes registers - 8).toNat = 0 + 8 * (slots registers).length - 8 := by
      rw [totalBytes_eq h]
      omega
    rw [if_pos (totalBytes_pos h hne)]
    rw [blockOps_of_ne (by simpa using accesses_ne_nil hne 0)]
    rw [hstart]
    have hbegin : Reads ("\n".toList ++ noteText "BEGIN REGISTER RESTORING (POP from ".toList) [] :=
      reads_blank (by decide)
    have hend : Reads (noteText "END REGISTER RESTORING (POP from ".toList) [] :=
      reads_blank (by decide)
    have hblock := ((hbegin.append reads_mov).append (reads_restores hslots 0)).append hend
    rw [List.append_nil] at hblock
    exact hblock

theorem keeps_accesses
    : Keeps registers (accesses 0 (slots registers)) (accesses 0 (slots registers)).reverse where
  saved := reads_pushBlock hslots h
  restored := reads_popBlock hslots h
  names := by
    rw [← map_fst_slots]
    nth_rewrite 2 [← map_slot_accesses 0 (slots registers)]
    rw [List.map_map]
    rfl
  offset k hk := by
    rw [getElem_accesses_offset]
    omega
  same := List.reverse_perm _
  width a ha := by
    apply bytes_of_slot
    apply hslots
    nth_rewrite 1 [← map_slot_accesses 0 (slots registers)]
    exact List.mem_map_of_mem ha
  apart := pairwise_apart_accesses 0 (slots registers)
  inside a ha := by
    have hbounds := offset_bounds_of_mem ha
    refine ⟨(slots registers).length * 8, by omega, reads_newDecls h ?_⟩
    intro hnil
    rw [hnil] at ha
    cases ha

end Layout

theorem keepsRegisters_collectRegisters_iff (lines : List Text)
    : KeepsRegisters (collectRegisters lines)
        ↔
      (slots (collectRegisters lines)).length < 2 ^ 28 := by
  constructor
  . exact KeepsRegisters.length_lt
  . intro h
    have hpacked := packedBytes_le (sizeInBytes_collectRegisters lines)
    have hrange : InRange (collectRegisters lines) := ⟨by omega, fun _ => by omega⟩
    exact ⟨hrange, _, _, keeps_accesses (slot_collectRegisters lines) h⟩

theorem length_slots_singleton (r : RegisterInfo) : (slots [r]).length = r.names.length := by
  rw [length_slots_cons]
  rfl

theorem length_names_registerInfo (type baseName : Text) {digits : Text} {count : ℕ}
    (h : stoi digits = some count)
    : (registerInfo type baseName (some digits)).names.length = count := by
  unfold registerInfo
  simp only [Option.bind_some, h]
  rw [List.length_map]
  rw [List.length_range]

def manyDecl : Text := "\t.reg .b16 %rs<268435456>;".toList

theorem collectRegisters_manyDecl : collectRegisters [manyDecl]
        =
      [registerInfo ".b16".toList "%rs".toList (some "268435456".toList)] := by
  have hmatch : matchRegDecl manyDecl
      = some (".b16".toList, "%rs".toList, some "268435456".toList) := by
    decide
  have hsaved : isSaved ".b16".toList "%rs".toList := by decide
  unfold collectRegisters addRegister
  simp only [List.foldl_cons, List.foldl_nil, hmatch, hsaved, Bool.not_true, List.any_nil,
    Bool.false_eq_true, if_false, List.nil_append]

theorem length_names_manyDecl
    : (registerInfo ".b16".toList "%rs".toList (some "268435456".toList)).names.length
        =
      268435456 := by
  apply length_names_registerInfo
  simp [stoi]

theorem totalBytes_manyDecl : totalBytes (collectRegisters [manyDecl]) = -2147483648 := by
  rw [collectRegisters_manyDecl]
  unfold totalBytes
  rw [List.foldl_cons]
  rw [List.foldl_nil]
  rw [length_names_manyDecl]
  simp [Int.bmod]

theorem not_keepsRegisters_manyDecl : InRange (collectRegisters [manyDecl])
        ∧
      pushBlock (collectRegisters [manyDecl]) = []
        ∧
      ¬ KeepsRegisters (collectRegisters [manyDecl]) := by
  have htotal := totalBytes_manyDecl
  refine ⟨⟨?_, by omega⟩, pushBlock_eq_nil (by omega), ?_⟩
  . rw [collectRegisters_manyDecl]
    unfold packedBytes
    rw [List.foldr_cons]
    rw [List.foldr_nil]
    rw [length_names_manyDecl]
    rw [show (registerInfo _ _ _).sizeInBytes = 2 from rfl]
    decide
  . intro h
    have hlength := h.length_lt
    rw [collectRegisters_manyDecl] at hlength
    rw [length_slots_singleton] at hlength
    rw [length_names_manyDecl] at hlength
    omega

end Bpftime.Ptx.RegisterGuard
