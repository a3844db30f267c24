import Mathlib.Data.List.TakeWhile
import Bpftime.Ptx.RegisterGuard.Impl

namespace Bpftime.Ptx

open Instrumented

def Reads (text : Text) (ops : List Op) : Prop :=
  ∀ q, atStart q → read q text
    = ((q.1, if ops = [] then q.2 else q.2.cleared), block q.2.labels ops)

theorem block_append (labels : List Token) (ops more : List Op)
    : (block labels (ops ++ more) : List Instr)
        =
      block labels ops ++ block (if ops = [] then labels else []) more := by
  cases ops with
  | nil => rfl
  | cons op ops =>
    cases more with
    | nil => simp [block]
    | cons op' more =>
      rw [if_neg (List.cons_ne_nil op ops)]
      simp [block, plain]

theorem Reads.append {text text' : Text} {ops ops' : List Op} (h : Reads text ops)
    (h' : Reads text' ops') : Reads (text ++ text') (ops ++ ops') := by
  intro q hq
  rw [read_append]
  rw [h q hq]
  simp only
  rw [block_append]
  cases ops with
  | nil => exact h' q hq
  | cons op ops =>
    simp only [reduceCtorEq, if_false, List.cons_append]
    rw [h' _ (atStart_cleared hq)]
    simp [Reader.cleared]

theorem reads_nil : Reads [] [] := by
  intro q _
  rfl

theorem reads_statement {text : Text} {first : Token} {tokens : List Token}
    (hlex : Transducer.run lexChar ⟨.code, []⟩ text = (⟨.code, []⟩, first :: tokens ++ [[';']]))
    (h : Plain first tokens) : Reads text [first :: tokens] := by
  intro q hq
  rw [read_statement hq hlex h]
  rfl

theorem reads_blank {text : Text}
    (hlex : Transducer.run lexChar ⟨.code, []⟩ text = (⟨.code, []⟩, [])) : Reads text [] := by
  intro q hq
  obtain ⟨depth, labels, loc, rfl⟩ := exists_of_atStart hq
  rw [read_eq]
  simp only
  rw [hlex]
  rfl

namespace RegisterGuard

/-- The inserted operations that write the scratch registers and the save area. A store of this kind
takes an integer register; `floats` are those it does not take. -/
inductive Scratch (floats : List Token) : Op → Prop where
  | area (size : Token)
      : Scratch floats [".local".toList, ".align".toList, "8".toList, ".b8".toList, registerSaveAreaName,
          ['['], size, [']']]
  | base : Scratch floats [".reg".toList, ".b64".toList, tempBaseReg]
  | addr : Scratch floats [".reg".toList, ".b64".toList, tempAddrReg]
  | mov : Scratch floats ["mov.u64".toList, tempBaseReg, [','], registerSaveAreaName]
  | add (offset : Token)
      : Scratch floats ["add.u64".toList, tempAddrReg, [','], tempBaseReg, [','], offset]
  | store (modifier : Text) (name : List Token) (h : ∀ t ∈ name, t ∉ floats)
      : Scratch floats
          (("st.local".toList ++ modifier) :: ['['] :: tempAddrReg :: [']'] :: [','] :: name)

inductive Restore (floats : List Token) : Op → Prop where
  | load (modifier : Text) (name : List Token) (h : ∀ t ∈ name, t ∉ floats)
      : Restore floats (("ld.local".toList ++ modifier) :: (name ++ [[','], ['['], tempAddrReg, [']']]))

def areaOp (size : ℕ) : Op :=
  [".local".toList, ".align".toList, "8".toList, ".b8".toList, registerSaveAreaName, ['['],
    Nat.toDigits 10 size, [']']]

def regOp (name : Text) : Op := [".reg".toList, ".b64".toList, name]

def movOp : Op := ["mov.u64".toList, tempBaseReg, [','], registerSaveAreaName]

def addOp (offset : ℕ) : Op :=
  ["add.u64".toList, tempAddrReg, [','], tempBaseReg, [','], Nat.toDigits 10 offset]

def tokensOf (name : Text) : List Token :=
  let (q, tokens) := Transducer.run lexChar ⟨.code, []⟩ name
  tokens ++ flush q.word

def storeOp (slot : Text × Text) : Op :=
  ("st.local".toList ++ slot.2) :: ['['] :: tempAddrReg :: [']'] :: [','] :: tokensOf slot.1

def loadOp (slot : Text × Text) : Op :=
  ("ld.local".toList ++ slot.2) :: (tokensOf slot.1 ++ [[','], ['['], tempAddrReg, [']']])

def ReadsAll (p : Op → Prop) (text : Text) : Prop := ∃ ops, Reads text ops ∧ ∀ op ∈ ops, p op

variable {p : Op → Prop} {text : Text}

theorem ReadsAll.append {text' : Text} (h : ReadsAll p text)
    (h' : ReadsAll p text') : ReadsAll p (text ++ text') := by
  obtain ⟨ops, hreads, hops⟩ := h
  obtain ⟨ops', hreads', hops'⟩ := h'
  refine ⟨ops ++ ops', hreads.append hreads', ?_⟩
  intro op hop
  obtain hop | hop := List.mem_append.mp hop
  . exact hops op hop
  . exact hops' op hop

theorem ReadsAll.mono {p' : Op → Prop} (h : ReadsAll p text)
    (hp : ∀ op, p op → p' op) : ReadsAll p' text := by
  obtain ⟨ops, hreads, hops⟩ := h
  exact ⟨ops, hreads, fun op hop => hp op (hops op hop)⟩

theorem readsAll_nil (p : Op → Prop) : ReadsAll p [] := ⟨[], reads_nil, by simp⟩

theorem readsAll_blank (p : Op → Prop)
    (hlex : Transducer.run lexChar ⟨.code, []⟩ text = (⟨.code, []⟩, [])) : ReadsAll p text :=
  ⟨[], reads_blank hlex, by simp⟩

theorem readsAll_of_reads {op : Op} (h : Reads text [op]) (hp : p op)
    : ReadsAll p text := by
  refine ⟨[op], h, ?_⟩
  intro op' hop'
  rw [List.mem_singleton.mp hop']
  exact hp

section Lexing

theorem isWordChar_of_isDigit {c : Char} (h : c.isDigit) : isWordChar c := by
  unfold isWordChar Char.isAlphanum
  simp [h]

theorem isWordChar_toDigits (n : ℕ) : ∀ c ∈ Nat.toDigits 10 n, isWordChar c := by
  intro c hc
  exact isWordChar_of_isDigit (Nat.isDigit_of_mem_toDigits (by decide) (by decide) hc)

theorem not_delimiter_of_wordChars {word : Token} (h : ∀ c ∈ word, isWordChar c)
    : word ∉ [[';'], [':']] := by
  intro hmem
  simp only [List.mem_cons, List.not_mem_nil, or_false] at hmem
  obtain rfl | rfl := hmem
  . have := h ';' List.mem_cons_self
    cases this
  . have := h ':' List.mem_cons_self
    cases this

theorem flush_of_ne {word : List Char} (h : word ≠ []) : flush word = [word] := by
  obtain ⟨c, word, rfl⟩ := List.exists_cons_of_ne_nil h
  rfl

def isDelimiter (c : Char) : Bool := !isWordChar c && c ≠ '/' && c ≠ '"' && !isSpace c

theorem lex_delimiter {c : Char} (hc : isDelimiter c) (rest : Text) (after : List Token)
    (hrest : Transducer.run lexChar ⟨.code, []⟩ rest = (⟨.code, []⟩, after)) (word : List Char)
    : Transducer.run lexChar ⟨.code, word⟩ (c :: rest)
        =
      (⟨.code, []⟩, flush word ++ [c] :: after) := by
  have hstep : lexChar ⟨.code, word⟩ c = (⟨.code, []⟩, flush word ++ [[c]]) := by
    unfold isDelimiter at hc
    simp only [Bool.and_eq_true, Bool.not_eq_true', decide_eq_true_eq] at hc
    obtain ⟨⟨⟨hword, hslash⟩, hquote⟩, hspace⟩ := hc
    simp [lexChar, lexCode, hword, hslash, hquote, hspace]
  rw [Transducer.run_cons]
  rw [hstep]
  simp only
  rw [hrest]
  simp

theorem lex_between {text middle closing : Text} {before tokens after : List Token}
    {word : List Char} (htext : Transducer.run lexChar ⟨.code, []⟩ text = (⟨.code, []⟩, before))
    (hmiddle : Transducer.run lexChar ⟨.code, []⟩ middle = (⟨.code, word⟩, tokens))
    (hclosing : Transducer.run lexChar ⟨.code, word⟩ closing = (⟨.code, []⟩, flush word ++ after))
    : Transducer.run lexChar ⟨.code, []⟩ (text ++ middle ++ closing)
        =
      (⟨.code, []⟩, before ++ (tokens ++ flush word) ++ after) := by
  rw [Transducer.run_append]
  rw [Transducer.run_append]
  rw [htext]
  simp only
  rw [hmiddle]
  simp only
  rw [hclosing]
  simp

theorem lex_toDigits (n : ℕ)
    : Transducer.run lexChar ⟨.code, []⟩ (Nat.toDigits 10 n) = (⟨.code, Nat.toDigits 10 n⟩, []) :=
  lex_wordChars [] (isWordChar_toDigits n)

def isRegChar (c : Char) : Bool := isWordChar c || c = '@'

theorem lex_name {name : Text} (hname : ∀ c ∈ name, isRegChar c) (word : List Char)
    (hword : ∀ c ∈ word, isWordChar c)
    : ∃ tokens word', Transducer.run lexChar ⟨.code, word⟩ name = (⟨.code, word'⟩, tokens)
        ∧ ∀ t ∈ tokens ++ flush word', t ∉ [[';'], [':']] := by
  have hflush : ∀ word : List Char, (∀ c ∈ word, isWordChar c)
      → ∀ t ∈ flush word, t ∉ [[';'], [':']] := by
    intro word hword t ht
    cases word with
    | nil => cases ht
    | cons c word =>
      rw [List.mem_singleton.mp ht]
      exact not_delimiter_of_wordChars hword
  induction name generalizing word with
  | nil => exact ⟨[], word, rfl, hflush word hword⟩
  | cons c name ih =>
    have hrest := fun d hd => hname d (List.mem_cons_of_mem c hd)
    rw [Transducer.run_cons]
    have hc := hname c List.mem_cons_self
    unfold isRegChar at hc
    by_cases hw : isWordChar c
    . have hstep : lexChar ⟨.code, word⟩ c = (⟨.code, word ++ [c]⟩, []) := lexCode_wordChar word hw
      rw [hstep]
      apply ih hrest (word ++ [c])
      rw [List.forall_mem_append]
      rw [List.forall_mem_singleton]
      exact ⟨hword, hw⟩
    . obtain rfl : c = '@' := by simpa [hw] using hc
      obtain ⟨tokens, word', hrun, htokens⟩ := ih hrest [] (by simp)
      have hstep : lexChar ⟨.code, word⟩ '@' = (⟨.code, []⟩, flush word ++ [['@']]) := rfl
      rw [hstep]
      simp only
      rw [hrun]
      refine ⟨flush word ++ [['@']] ++ tokens, word', rfl, ?_⟩
      rw [List.append_assoc]
      rw [List.forall_mem_append]
      rw [List.forall_mem_append]
      rw [List.forall_mem_singleton]
      exact ⟨⟨hflush word hword, by decide⟩, htokens⟩

end Lexing

section Statements

theorem plain_middle (first : Token) (before middle after : List Token)
    (hfirst : first ∉ [[';'], ['{'], ['}'], ['@'], [','], ".loc".toList])
    (hbefore : ∀ t ∈ before, t ∉ [[';'], [':']]) (hmiddle : ∀ t ∈ middle, t ∉ [[';'], [':']])
    (hafter : ∀ t ∈ after, t ∉ [[';'], [':']]) : Plain first (before ++ middle ++ after) := by
  refine ⟨hfirst, ?_⟩
  intro t ht
  obtain ht | ht := List.mem_append.mp ht
  . obtain ht | ht := List.mem_append.mp ht
    . exact hbefore t ht
    . exact hmiddle t ht
  . exact hafter t ht

theorem toDigits_not_delimiter (n : ℕ) : ∀ t ∈ [Nat.toDigits 10 n], t ∉ [[';'], [':']] := by
  intro t ht
  rw [List.mem_singleton.mp ht]
  exact not_delimiter_of_wordChars (isWordChar_toDigits n)

theorem reads_area (size : ℕ) : Reads (areaText size) [areaOp size] := by
  have htext : Transducer.run lexChar ⟨.code, []⟩
      ("\t.local .align 8 .b8 \t".toList ++ registerSaveAreaName ++ "[".toList)
      = (⟨.code, []⟩, [".local".toList, ".align".toList, "8".toList, ".b8".toList,
        registerSaveAreaName, ['[']]) := by
    decide
  have hplain := plain_middle ".local".toList
    [".align".toList, "8".toList, ".b8".toList, registerSaveAreaName, ['[']] [Nat.toDigits 10 size]
    [[']']] (by decide) (by decide) (toDigits_not_delimiter size) (by decide)
  apply reads_statement _ hplain
  have hlex := lex_between htext (lex_toDigits size)
    (lex_delimiter (c := ']') (by decide) ";\n".toList [[';']] (by decide) _)
  rw [flush_of_ne Nat.toDigits_ne_nil] at hlex
  exact hlex

theorem reads_regBase : Reads (regText tempBaseReg) [regOp tempBaseReg] :=
  reads_statement (by decide) ⟨by decide, by decide⟩

theorem reads_regAddr : Reads (regText tempAddrReg) [regOp tempAddrReg] :=
  reads_statement (by decide) ⟨by decide, by decide⟩

theorem reads_mov : Reads movText [movOp] := reads_statement (by decide) ⟨by decide, by decide⟩

theorem reads_add (offset : ℕ) : Reads (addText offset) [addOp offset] := by
  have htext : Transducer.run lexChar ⟨.code, []⟩
      ("\tadd.u64 ".toList ++ tempAddrReg ++ ", ".toList ++ tempBaseReg ++ ", ".toList)
      = (⟨.code, []⟩, ["add.u64".toList, tempAddrReg, [','], tempBaseReg, [',']]) := by
    decide
  have hplain := plain_middle "add.u64".toList [tempAddrReg, [','], tempBaseReg, [',']]
    [Nat.toDigits 10 offset] [] (by decide) (by decide) (toDigits_not_delimiter offset) (by decide)
  apply reads_statement _ hplain
  have hlex := lex_between htext (lex_toDigits offset)
    (lex_delimiter (c := ';') (by decide) "\n".toList [] (by decide) _)
  rw [flush_of_ne Nat.toDigits_ne_nil] at hlex
  exact hlex

theorem readsAll_add (floats : List Token) (offset : ℕ)
    : ReadsAll (Scratch floats) (addText offset) :=
  readsAll_of_reads (reads_add offset) (Scratch.add (Nat.toDigits 10 offset))

structure Slot (slot : Text × Text) : Prop where
  name : ∀ c ∈ slot.1, isRegChar c
  modifier : slot.2 ∈ [".u8".toList, ".u16".toList, ".u32".toList, ".u64".toList]

theorem Slot.mnemonic {slot : Text × Text} (h : Slot slot)
    : "st.local".toList ++ slot.2 ∉ [[';'], ['{'], ['}'], ['@'], [','], ".loc".toList]
        ∧ "ld.local".toList ++ slot.2 ∉ [[';'], ['{'], ['}'], ['@'], [','], ".loc".toList] := by
  have hall : ∀ m ∈ [".u8".toList, ".u16".toList, ".u32".toList, ".u64".toList],
      "st.local".toList ++ m ∉ [[';'], ['{'], ['}'], ['@'], [','], ".loc".toList]
        ∧ "ld.local".toList ++ m ∉ [[';'], ['{'], ['}'], ['@'], [','], ".loc".toList] := by
    decide
  exact hall slot.2 h.modifier

theorem tokensOf_eq {name : Text} {tokens : List Token} {word : List Char}
    (h : Transducer.run lexChar ⟨.code, []⟩ name = (⟨.code, word⟩, tokens))
    : tokensOf name = tokens ++ flush word := by
  unfold tokensOf
  rw [h]

theorem reads_store {slot : Text × Text} (h : Slot slot)
    : Reads (storeText slot) [storeOp slot] := by
  have htext : ∀ m ∈ [".u8".toList, ".u16".toList, ".u32".toList, ".u64".toList],
      Transducer.run lexChar ⟨.code, []⟩
        ("\tst.local".toList ++ m ++ " [".toList ++ tempAddrReg ++ "], ".toList)
      = (⟨.code, []⟩, ["st.local".toList ++ m, ['['], tempAddrReg, [']'], [',']]) := by
    decide
  obtain ⟨tokens, word, hname, htokens⟩ := lex_name h.name [] (by simp)
  have hplain := plain_middle _ [['['], tempAddrReg, [']'], [',']] _ [] h.mnemonic.1 (by decide)
    htokens (by decide)
  rw [List.append_nil] at hplain
  unfold storeOp
  rw [tokensOf_eq hname]
  apply reads_statement _ hplain
  have hlex := lex_between (htext slot.2 h.modifier) hname
    (lex_delimiter (c := ';') (by decide) "\n".toList [] (by decide) word)
  exact hlex

theorem reads_load {slot : Text × Text} (h : Slot slot) : Reads (loadText slot) [loadOp slot] := by
  have htext : ∀ m ∈ [".u8".toList, ".u16".toList, ".u32".toList, ".u64".toList],
      Transducer.run lexChar ⟨.code, []⟩ ("\tld.local".toList ++ m ++ " ".toList)
      = (⟨.code, []⟩, ["ld.local".toList ++ m]) := by
    decide
  obtain ⟨tokens, word, hname, htokens⟩ := lex_name h.name [] (by simp)
  have hplain := plain_middle _ [] _ [[','], ['['], tempAddrReg, [']']] h.mnemonic.2 (by decide)
    htokens (by decide)
  rw [List.nil_append] at hplain
  unfold loadOp
  rw [tokensOf_eq hname]
  apply reads_statement _ hplain
  have hlex := lex_between (htext slot.2 h.modifier) hname
    (lex_delimiter (c := ',') (by decide) (" [".toList ++ tempAddrReg ++ "];\n".toList)
      [['['], tempAddrReg, [']'], [';']] (by decide) word)
  have hload : loadText slot = "\tld.local".toList ++ slot.2 ++ " ".toList ++ slot.1
      ++ (", [".toList ++ tempAddrReg ++ "];\n".toList) := by
    unfold loadText
    rw [List.append_assoc _ ", [".toList]
    rw [List.append_assoc _ (", [".toList ++ tempAddrReg)]
  rw [hload]
  exact hlex.trans (by simp only [List.append_assoc, List.cons_append, List.nil_append])

/-- A slot of a register that is not among `floats`. -/
structure IntSlot (floats : List Token) (slot : Text × Text) : Prop extends Slot slot where
  integer : ∀ t ∈ tokensOf slot.1, t ∉ floats

variable {floats : List Token}

theorem readsAll_saves {slots : List (Text × Text)} (h : ∀ slot ∈ slots, IntSlot floats slot)
    (offset : ℕ) : ReadsAll (Scratch floats) (saves offset slots) := by
  induction slots generalizing offset with
  | nil => exact readsAll_nil _
  | cons slot slots ih =>
    apply ReadsAll.append
    . apply ReadsAll.append
      . exact readsAll_add floats offset
      . have hslot := h slot List.mem_cons_self
        exact readsAll_of_reads (reads_store hslot.toSlot) (Scratch.store _ _ hslot.integer)
    . apply ih
      intro slot' hslot'
      exact h slot' (List.mem_cons_of_mem slot hslot')

theorem readsAll_restores {slots : List (Text × Text)} (h : ∀ slot ∈ slots, IntSlot floats slot)
    (offset : ℕ)
    : ReadsAll (fun op => Scratch floats op ∨ Restore floats op) (restores offset slots) := by
  induction slots generalizing offset with
  | nil => exact readsAll_nil _
  | cons slot slots ih =>
    apply ReadsAll.append
    . apply ReadsAll.append
      . exact (readsAll_add floats offset).mono (fun _ => .inl)
      . have hslot := h slot List.mem_cons_self
        apply readsAll_of_reads (reads_load hslot.toSlot)
        exact .inr (Restore.load _ _ hslot.integer)
    . apply ih
      intro slot' hslot'
      exact h slot' (List.mem_cons_of_mem slot hslot')

end Statements

section Collected

theorem regChar_of_nameChar {c : Char} (h : isNameChar c) : isRegChar c := by
  unfold isNameChar at h
  unfold isRegChar isWordChar
  simp only [Bool.or_eq_true, decide_eq_true_eq] at h ⊢
  obtain (((h | h) | h) | h) | h := h <;> simp [h]

theorem regChar_of_regStart {c : Char} (h : (c.isAlpha || c = '_' || c = '%') = true)
    : isRegChar c := by
  unfold isRegChar isWordChar Char.isAlphanum
  simp only [Bool.or_eq_true, decide_eq_true_eq] at h ⊢
  obtain (h | h) | h := h <;> simp [h]

theorem matchRegName_chars {rest name rest' : Text} (h : matchRegName rest = some (name, rest'))
    : ∀ c ∈ name, isRegChar c := by
  unfold matchRegName at h
  split at h
  . cases h
  next c rest =>
    split at h
    next hstart =>
      cases h
      intro d hd
      cases hd with
      | head => exact regChar_of_regStart hstart
      | tail _ hd => exact regChar_of_nameChar (List.mem_takeWhile_imp hd)
    . cases h

theorem matchRegDecl_chars {line type baseName : Text} {number : Option Text}
    (h : matchRegDecl line = some (type, baseName, number)) : ∀ c ∈ baseName, isRegChar c := by
  unfold matchRegDecl at h
  simp only [Option.bind_eq_bind, Option.bind_eq_some_iff] at h
  obtain ⟨_, _, _, _, _, _, ⟨name, _⟩, hname, _, _, h⟩ := h
  split at h
  . cases h
    exact matchRegName_chars hname
  . cases h

theorem size_cases (type : Text) : getRegisterSizeInBytes type ∈ [0, 1, 2, 4, 8] := by
  unfold getRegisterSizeInBytes
  repeat' split
  all_goals decide

theorem modifier_of_isSaved {type baseName : Text} (h : isSaved type baseName)
    : getPtxStorageTypeModifier type (getRegisterSizeInBytes type)
        ∈ [".u8".toList, ".u16".toList, ".u32".toList, ".u64".toList] := by
  have hsize : getRegisterSizeInBytes type ≠ 0 := by
    intro hzero
    simp [isSaved, hzero] at h
  have hcases := size_cases type
  simp only [List.mem_cons, List.not_mem_nil, or_false] at hcases
  obtain hcase | hcase | hcase | hcase | hcase := hcases
  . exact absurd hcase hsize
  . rw [hcase]
    exact List.mem_cons_self
  . rw [hcase]
    exact List.mem_cons_of_mem _ List.mem_cons_self
  . rw [hcase]
    exact List.mem_cons_of_mem _ (List.mem_cons_of_mem _ List.mem_cons_self)
  . rw [hcase]
    exact List.mem_cons_of_mem _
      (List.mem_cons_of_mem _ (List.mem_cons_of_mem _ List.mem_cons_self))

theorem slot_registerInfo {type baseName : Text} (hname : ∀ c ∈ baseName, isRegChar c)
    (h : isSaved type baseName) (number : Option Text)
    : ∀ slot ∈ slots [registerInfo type baseName number], Slot slot := by
  have hdigits : ∀ k, ∀ c ∈ baseName ++ Nat.toDigits 10 k, isRegChar c := by
    intro k c hc
    obtain hc | hc := List.mem_append.mp hc
    . exact hname c hc
    . unfold isRegChar
      simp [isWordChar_toDigits k c hc]
  have hmodifier := modifier_of_isSaved h
  intro slot hslot
  unfold slots registerInfo at hslot
  rw [List.flatMap_singleton] at hslot
  cases hcount : number.bind stoi with
  | none =>
    simp only [hcount, List.map_cons, List.map_nil, List.mem_singleton] at hslot
    rw [hslot]
    exact ⟨hname, hmodifier⟩
  | some count =>
    simp only [hcount, List.mem_map] at hslot
    obtain ⟨name, ⟨k, _, rfl⟩, rfl⟩ := hslot
    exact ⟨hdigits k, hmodifier⟩

theorem slots_append (registers more : List RegisterInfo)
    : slots (registers ++ more) = slots registers ++ slots more :=
  List.flatMap_append

theorem slot_addRegister {registers : List RegisterInfo} (h : ∀ slot ∈ slots registers, Slot slot)
    (line : Text) : ∀ slot ∈ slots (addRegister registers line), Slot slot := by
  unfold addRegister
  split
  . exact h
  next type baseName number hmatch =>
    split
    . exact h
    next hsaved =>
      split
      . exact h
      . rw [slots_append]
        intro slot hslot
        obtain hslot | hslot := List.mem_append.mp hslot
        . exact h slot hslot
        . apply slot_registerInfo (matchRegDecl_chars hmatch) _ number slot hslot
          simpa using hsaved

theorem slot_collectRegisters (lines : List Text)
    : ∀ slot ∈ slots (collectRegisters lines), Slot slot := by
  apply List.foldlRecOn (motive := fun registers => ∀ slot ∈ slots registers, Slot slot)
  . intro slot hslot
    cases hslot
  . intro registers h line _
    exact slot_addRegister h line

end Collected

section Blocks

variable {floats : List Token} {registers : List RegisterInfo}
  (h : ∀ slot ∈ slots registers, IntSlot floats slot)

theorem readsAll_newDecls (floats : List Token) (registers : List RegisterInfo)
    : ReadsAll (Scratch floats) (newDecls registers) := by
  unfold newDecls
  split
  . exact readsAll_nil _
  . apply ReadsAll.append
    . apply ReadsAll.append
      . exact readsAll_of_reads (reads_area _) (Scratch.area _)
      . exact readsAll_of_reads reads_regBase Scratch.base
    . exact readsAll_of_reads reads_regAddr Scratch.addr

include h

theorem readsAll_pushBlock : ReadsAll (Scratch floats) (pushBlock registers) := by
  unfold pushBlock
  split
  . apply ReadsAll.append
    . apply ReadsAll.append
      . apply ReadsAll.append
        . exact readsAll_blank _ (by decide)
        . exact readsAll_of_reads reads_mov Scratch.mov
      . exact readsAll_saves h 0
    . exact readsAll_blank _ (by decide)
  . exact readsAll_nil _

theorem readsAll_popBlock
    : ReadsAll (fun op => Scratch floats op ∨ Restore floats op) (popBlock registers) := by
  unfold popBlock
  split
  . apply ReadsAll.append
    . apply ReadsAll.append
      . apply ReadsAll.append
        . exact readsAll_blank _ (by decide)
        . exact readsAll_of_reads reads_mov (.inl Scratch.mov)
      . apply readsAll_restores
        intro slot hslot
        exact h slot (List.mem_reverse.mp hslot)
    . exact readsAll_blank _ (by decide)
  . exact readsAll_nil _

end Blocks

end RegisterGuard
end Bpftime.Ptx
