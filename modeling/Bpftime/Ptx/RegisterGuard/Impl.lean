import Mathlib.Algebra.Group.Nat.Defs
import Bpftime.Ptx.KernelBody

namespace Bpftime.Ptx.RegisterGuard

structure RegisterInfo where
  type : Text
  baseName : Text
  count : ℕ
  names : List Text
  sizeInBytes : ℕ
  ptxTypeModifier : Text

def getRegisterSizeInBytes (type : Text) : ℕ :=
  if type ∈ [".b8".toList, ".s8".toList, ".u8".toList] then
    1
  else if type ∈ [".b16".toList, ".s16".toList, ".u16".toList, ".f16".toList] then
    2
  else if type ∈ [".b32".toList, ".s32".toList, ".u32".toList, ".f32".toList] then
    4
  else if type ∈ [".b64".toList, ".s64".toList, ".u64".toList, ".f64".toList,
      ".f64x2".toList] then
    8
  else if type = ".pred".toList then
    1
  else
    0

def getPtxStorageTypeModifier (type : Text) (sizeInBytes : ℕ) : Text :=
  match sizeInBytes with
  | 1 => ".u8".toList
  | 2 => ".u16".toList
  | 4 => ".u32".toList
  | 8 => ".u64".toList
  | _ => type

def tempBaseReg : Text := "%rd_ptx_instr_base".toList

def tempAddrReg : Text := "%rd_ptx_instr_addr".toList

def registerSaveAreaName : Text := "__ptx_register_save_area".toList

section Patterns

def dropSpaces (line : Text) : Text := line.dropWhile isSpace

def isNameChar (c : Char) : Bool := c.isAlphanum || c = '_' || c = '@' || c = '$' || c = '.'

def matchFuncName (rest : Text) : Bool :=
  match rest with
  | [] => false
  | c :: rest =>
    (c.isAlpha || c = '_') &&
      match dropSpaces (rest.dropWhile isNameChar) with
      | [] => true
      | d :: _ => d = '('

def matchFunc (rest : Text) : Bool :=
  match ".func".toList.isPrefixOf? rest with
  | some rest => (skipSpaces rest).any matchFuncName
  | none =>
    match ".entry".toList.isPrefixOf? rest with
    | some rest => (skipSpaces rest).any matchFuncName
    | none => false

def isFuncDef (line : Text) : Bool :=
  match ".visible".toList.isPrefixOf? (dropSpaces line) with
  | some rest => (skipSpaces rest).any matchFunc
  | none => matchFunc (dropSpaces line)

def matchCount (rest : Text) : Option (Option Text × Text) :=
  match rest with
  | '<' :: rest =>
    match rest.takeWhile Char.isDigit, rest.dropWhile Char.isDigit with
    | c :: digits, '>' :: rest => some (some (c :: digits), rest)
    | _, _ => none
  | _ => some (none, rest)

def matchRegName (rest : Text) : Option (Text × Text) :=
  match rest with
  | [] => none
  | c :: rest =>
    if c.isAlpha || c = '_' || c = '%' then
      some (c :: rest.takeWhile isNameChar, rest.dropWhile isNameChar)
    else
      none

def matchRegType (rest : Text) : Option (Text × Text) :=
  match rest with
  | '.' :: rest =>
    if rest.takeWhile isIdentChar = [] then
      none
    else
      (skipSpaces (rest.dropWhile isIdentChar)).map (('.' :: rest.takeWhile isIdentChar), ·)
  | _ => none

def matchRegDecl (line : Text) : Option (Text × Text × Option Text) := do
  let rest ← ".reg".toList.isPrefixOf? (dropSpaces line)
  let rest ← skipSpaces rest
  let (type, rest) ← matchRegType rest
  let (baseName, rest) ← matchRegName rest
  let (number, rest) ← matchCount rest
  match dropSpaces rest with
  | ';' :: _ => return (type, baseName, number)
  | _ => none

def isLocalDecl (line : Text) : Bool :=
  match ".local".toList.isPrefixOf? (dropSpaces line) with
  | some rest => (skipSpaces rest).isSome
  | none => false

def isCommentOrEmpty (line : Text) : Bool :=
  match dropSpaces line with
  | [] => true
  | rest => "//".toList.isPrefixOf rest

def isBraceLine (brace : Char) (line : Text) : Bool :=
  match dropSpaces line with
  | [] => false
  | c :: rest => c = brace && dropSpaces rest = []

def matchRet (rest : Text) : Bool :=
  match "ret".toList.isPrefixOf? rest with
  | some rest =>
    match dropSpaces rest with
    | [] => false
    | c :: _ => c = ';'
  | none => false

def isRet (line : Text) : Bool :=
  match "@%p".toList.isPrefixOf? (dropSpaces line) with
  | some rest =>
    rest.takeWhile Char.isDigit ≠ [] && (skipSpaces (rest.dropWhile Char.isDigit)).any matchRet
  | none => matchRet (dropSpaces line)

def isDeclLine (line : Text) : Bool :=
  isCommentOrEmpty line || (matchRegDecl line).isSome || isLocalDecl line

end Patterns

section Registers

def stoi (digits : Text) : Option ℕ :=
  let n := digits.foldl (fun n c => 10 * n + (c.toNat - '0'.toNat)) 0
  if n < 2 ^ 31 then some n else none

def isSaved (type baseName : Text) : Bool :=
  !(type = ".pred".toList || baseName = "%SP".toList || baseName = "%SPL".toList
    || getRegisterSizeInBytes type = 0 || baseName = tempBaseReg || baseName = tempAddrReg)

def registerInfo (type baseName : Text) (number : Option Text) : RegisterInfo :=
  let sizeInBytes := getRegisterSizeInBytes type
  let ptxTypeModifier := getPtxStorageTypeModifier type sizeInBytes
  match number.bind stoi with
  | some count =>
    let names := (List.range count).map (baseName ++ Nat.toDigits 10 ·)
    ⟨type, baseName, count, names, sizeInBytes, ptxTypeModifier⟩
  | none => ⟨type, baseName, 1, [baseName], sizeInBytes, ptxTypeModifier⟩

def addRegister (registers : List RegisterInfo) (line : Text) : List RegisterInfo :=
  match matchRegDecl line with
  | none => registers
  | some (type, baseName, number) =>
    if !isSaved type baseName then
      registers
    else if registers.any fun r => r.baseName = baseName && number.isSome = decide (r.count > 1) then
      registers
    else
      registers ++ [registerInfo type baseName number]

def collectRegisters (lines : List Text) : List RegisterInfo := lines.foldl addRegister []

def slots (registers : List RegisterInfo) : List (Text × Text) :=
  registers.flatMap fun r => r.names.map (·, r.ptxTypeModifier)

end Registers

section Blocks

def totalBytes (registers : List RegisterInfo) : ℤ :=
  registers.foldl (fun offset r => (offset + r.names.length * 8).bmod (2 ^ 32)) 0

def packedBytes (registers : List RegisterInfo) : ℕ :=
  registers.foldr (fun r bytes => r.names.length * r.sizeInBytes + bytes) 0

def InRange (registers : List RegisterInfo) : Prop :=
  packedBytes registers < 2 ^ 31
    ∧ (totalBytes registers > 0 → (slots registers).length * 8 < 2 ^ 31)

def saveAreaSize (registers : List RegisterInfo) : ℕ :=
  let size := (max (totalBytes registers) 8).toNat
  if size % 8 ≠ 0 then (size + 7) / 8 * 8 else size

def areaText (size : ℕ) : Text :=
  "\t.local .align 8 .b8 \t".toList ++ registerSaveAreaName ++ "[".toList ++ Nat.toDigits 10 size
    ++ "];\n".toList

def regText (name : Text) : Text := "\t.reg .b64 ".toList ++ name ++ ";\n".toList

def newDecls (registers : List RegisterInfo) : Text :=
  match registers with
  | [] => []
  | _ => areaText (saveAreaSize registers) ++ regText tempBaseReg ++ regText tempAddrReg

def movText : Text :=
  "\tmov.u64 ".toList ++ tempBaseReg ++ ", ".toList ++ registerSaveAreaName ++ ";\n".toList

def addText (offset : ℕ) : Text :=
  "\tadd.u64 ".toList ++ tempAddrReg ++ ", ".toList ++ tempBaseReg ++ ", ".toList
    ++ Nat.toDigits 10 offset ++ ";\n".toList

def storeText (slot : Text × Text) : Text :=
  "\tst.local".toList ++ slot.2 ++ " [".toList ++ tempAddrReg ++ "], ".toList ++ slot.1
    ++ ";\n".toList

def loadText (slot : Text × Text) : Text :=
  "\tld.local".toList ++ slot.2 ++ " ".toList ++ slot.1 ++ ", [".toList ++ tempAddrReg
    ++ "];\n".toList

def saves (offset : ℕ) : List (Text × Text) → Text
  | [] => []
  | slot :: rest => addText offset ++ storeText slot ++ saves (offset + 8) rest

def restores (offset : ℕ) : List (Text × Text) → Text
  | [] => []
  | slot :: rest => addText offset ++ loadText slot ++ restores (offset - 8) rest

def noteText (note : Text) : Text :=
  "\t// --- ".toList ++ note ++ registerSaveAreaName ++ ") ---\n".toList

def pushBlock (registers : List RegisterInfo) : Text :=
  if totalBytes registers > 0 then
    noteText "BEGIN REGISTER SAVING (PUSH to ".toList ++ movText ++ saves 0 (slots registers)
      ++ noteText "END REGISTER SAVING (PUSH to ".toList
  else
    []

def popBlock (registers : List RegisterInfo) : Text :=
  if totalBytes registers > 0 then
    "\n".toList ++ noteText "BEGIN REGISTER RESTORING (POP from ".toList ++ movText
      ++ restores (totalBytes registers - 8).toNat (slots registers).reverse
      ++ noteText "END REGISTER RESTORING (POP from ".toList
  else
    []

end Blocks

section Pass

def openingBraceIdx (i : ℕ) : List Text → Option ℕ
  | [] => none
  | line :: rest =>
    if isBraceLine '{' line then
      some i
    else if isDeclLine line then
      openingBraceIdx (i + 1) rest
    else
      none

def ifNonempty (text : Text) : List Text := if text = [] then [] else [text]

def instrumentedLines (decls push pop : Text) (insertion : ℕ) (i : ℕ) : List Text → List Text
  | [] => if i = insertion then ifNonempty decls ++ ifNonempty push else []
  | line :: rest =>
    (if i = insertion then ifNonempty decls ++ ifNonempty push else [])
      ++ (if isRet line then ifNonempty pop else [])
      ++ line :: instrumentedLines decls push pop insertion (i + 1) rest

def withNewline (line : Text) : Text := line ++ "\n".toList

def emitLine (line : Text) : Text :=
  if line = [] ∨ line.getLast? = some '\n' then line else withNewline line

def guardFunction (lines : List Text) : Text :=
  let offset := if (lines.head?.any isFuncDef) then 1 else 0
  match openingBraceIdx offset (lines.drop offset) with
  | none => lines.flatMap withNewline
  | some brace =>
    let decls := (lines.drop (brace + 1)).takeWhile isDeclLine
    let registers := collectRegisters decls
    let insertion := brace + 1 + decls.length
    (instrumentedLines (newDecls registers) (pushBlock registers) (popBlock registers) insertion 0
      lines).flatMap emitLine

inductive Phase where
  | outside
  | definition
  | body
  deriving DecidableEq

structure Scan where
  phase : Phase
  current : List Text

def scanLine (s : Scan) (line : Text) : Scan × Text :=
  match s.phase with
  | .outside =>
    if isFuncDef line then
      (⟨.definition, s.current ++ [line]⟩, [])
    else
      (s, withNewline line)
  | .definition =>
    if isBraceLine '{' line then
      (⟨.body, s.current ++ [line]⟩, [])
    else
      (⟨.definition, s.current ++ [line]⟩, [])
  | .body =>
    if isBraceLine '}' line then
      (⟨.outside, []⟩, guardFunction (s.current ++ [line]))
    else
      (⟨.body, s.current ++ [line]⟩, [])

def linesFrom (line : Text) : Text → List Text
  | [] => if line = [] then [] else [line]
  | c :: rest => if c = '\n' then line :: linesFrom [] rest else linesFrom (line ++ [c]) rest

def lines (text : Text) : List Text := linesFrom [] text

def leftover (s : Scan) : Text :=
  match s.phase with
  | .outside => []
  | _ => s.current.flatMap withNewline

def addRegisterGuardForEbpfPtxFunc (ptxCode : Text) : Text :=
  let (s, resultPtx) := Transducer.run scanLine ⟨.outside, []⟩ (lines ptxCode)
  resultPtx ++ leftover s

end Pass

end Bpftime.Ptx.RegisterGuard
