import Bpftime.Data.Instrumented
import Bpftime.Data.Transducer

/-!
This module contains how PTX text is read: a lexer, and a reader that finds the statements of the
first body in the text, with their labels and guards.
-/

namespace Bpftime.Ptx

abbrev Text := List Char

abbrev Token := List Char

abbrev Op := List Token

abbrev Instr := Instrumented.Instr Op (List Token) Token

abbrev Machine (σ : Type) := Instrumented.Machine Op (List Token) Token σ

def isSpace (c : Char) : Bool :=
  c = ' ' || c = '\t' || c = '\n' || c = '\x0b' || c = '\x0c' || c = '\r'

def isWordChar (c : Char) : Bool :=
  c.isAlphanum || c = '_' || c = '$' || c = '%' || c = '.'

inductive Mode where
  | code
  | slash
  | line
  | block
  | star
  | string
  deriving DecidableEq

structure Lexer where
  mode : Mode
  word : List Char
  deriving DecidableEq

def flush (word : List Char) : List Token :=
  match word with
  | [] => []
  | _ => [word]

def lexCode (word : List Char) (c : Char) : Lexer × List Token :=
  if isWordChar c then
    (⟨.code, word ++ [c]⟩, [])
  else if c = '/' then
    (⟨.slash, []⟩, flush word)
  else if c = '"' then
    (⟨.string, [c]⟩, flush word)
  else if isSpace c then
    (⟨.code, []⟩, flush word)
  else
    (⟨.code, []⟩, flush word ++ [[c]])

def lexChar (q : Lexer) (c : Char) : Lexer × List Token :=
  match q.mode with
  | .code => lexCode q.word c
  | .slash =>
    if c = '/' then
      (⟨.line, []⟩, [])
    else if c = '*' then
      (⟨.block, []⟩, [])
    else
      let (q, tokens) := lexCode [] c
      (q, ['/'] :: tokens)
  | .line => if c = '\n' then (⟨.code, []⟩, []) else (q, [])
  | .block => if c = '*' then (⟨.star, []⟩, []) else (q, [])
  | .star =>
    if c = '/' then
      (⟨.code, []⟩, [])
    else if c = '*' then
      (q, [])
    else
      (⟨.block, []⟩, [])
  | .string =>
    if c = '"' then
      (⟨.code, []⟩, [q.word ++ [c]])
    else if c = '\n' then
      -- a string does not go over the end of its line
      (⟨.code, []⟩, [q.word])
    else
      (⟨.string, q.word ++ [c]⟩, [])

inductive Place where
  | before
  | inside (depth : ℕ)
  | after
  deriving DecidableEq

structure Reader where
  place : Place
  labels : List Token
  /-- The tokens of the statement so far. -/
  stmt : List Token
  /-- A `.loc` with its three numbers has just been read, and may go on. -/
  loc : Bool
  deriving DecidableEq

def Reader.cleared (r : Reader) : Reader := { r with labels := [], loc := false }

def statement (labels : List Token) (stmt : List Token) : Instr :=
  match stmt with
  | ['@'] :: ['!'] :: p :: op => ⟨labels, some [['!'], p], op⟩
  | ['@'] :: p :: op => ⟨labels, some [p], op⟩
  | op => ⟨labels, none, op⟩

/-- A `.loc` has three numbers, and after a comma maybe `function_name label`, with or without an
offset, and `, inlined_at` with three numbers again; no semicolon ends it. The three numbers are
dropped when they are read, and the rest is read as a `.loc` of its own. -/
def locLength (stmt : List Token) : ℕ :=
  if stmt[1]? ≠ some [','] then 4 else if stmt[4]? ≠ some ['+'] then 9 else 11

def dropLoc (r : Reader) : Reader :=
  if r.stmt.head? = some ".loc".toList ∧ r.stmt.length = locLength r.stmt then
    { r with stmt := [], loc := r.stmt[1]? ≠ some [','] }
  else
    r

def closeBlock (depth : ℕ) : Place :=
  match depth with
  | 0 => .after
  | depth + 1 => .inside depth

def readToken (r : Reader) (t : Token) : Reader × List Instr :=
  match r.place with
  | .before => if t = ['{'] then ({ r with place := .inside 0 }, []) else (r, [])
  | .inside depth =>
    if r.stmt = [] then
      -- braces at the start of a statement are blocks, later ones are operands
      if t = [';'] then
        ({ r with loc := false }, [])
      else if t = ['{'] then
        ({ r with place := .inside (depth + 1), loc := false }, [])
      else if t = ['}'] then
        ({ r with place := closeBlock depth, loc := false }, [])
      else if r.loc ∧ t = [','] then
        ({ r with stmt := [".loc".toList, t], loc := false }, [])
      else
        ({ r with stmt := [t], loc := false }, [])
    else if t = [';'] then
      ({ r with labels := [], stmt := [] }, [statement r.labels r.stmt])
    else if t = [':'] ∧ r.stmt.length = 1 then
      ({ r with labels := r.labels ++ r.stmt, stmt := [] }, [])
    else
      (dropLoc { r with stmt := r.stmt ++ [t] }, [])
  | .after => (r, [])

def readChar : Lexer × Reader → Char → (Lexer × Reader) × List Instr :=
  Transducer.comp lexChar readToken

def read (q : Lexer × Reader) (text : Text) : (Lexer × Reader) × List Instr :=
  Transducer.run readChar q text

def start : Lexer × Reader := (⟨.code, []⟩, ⟨.before, [], [], false⟩)

def instrs (text : Text) : List Instr := (read start text).2

def isReturn (op : Op) : Bool := op = ["ret".toList] || op = ["ret.uni".toList]

def Place.isInside : Place → Bool
  | .inside _ => true
  | _ => false

def atStart (q : Lexer × Reader) : Bool :=
  q.1 = ⟨.code, []⟩ && q.2.place.isInside && q.2.stmt = []

section Lexing

theorem lexCode_wordChar (word : List Char) {c : Char} (h : isWordChar c)
    : lexCode word c = (⟨.code, word ++ [c]⟩, []) := by
  unfold lexCode
  rw [if_pos h]

theorem lex_wordChars {text : Text} (word : List Char) (h : ∀ c ∈ text, isWordChar c)
    : Transducer.run lexChar ⟨.code, word⟩ text = (⟨.code, word ++ text⟩, []) := by
  induction text generalizing word with
  | nil => simp
  | cons c text ih =>
    have hstep : lexChar ⟨.code, word⟩ c = (⟨.code, word ++ [c]⟩, []) :=
      lexCode_wordChar word (h c List.mem_cons_self)
    rw [Transducer.run_cons]
    rw [hstep]
    rw [ih (word ++ [c]) (fun d hd => h d (List.mem_cons_of_mem c hd))]
    simp

theorem not_isWordChar_of_isSpace {c : Char} (h : isSpace c) : isWordChar c = false := by
  unfold isSpace at h
  simp only [Bool.or_eq_true, decide_eq_true_eq] at h
  obtain ((((rfl | rfl) | rfl) | rfl) | rfl) | rfl := h <;> decide

theorem lexCode_space (word : List Char) {c : Char} (h : isSpace c)
    : lexCode word c = (⟨.code, []⟩, flush word) := by
  have hslash : c ≠ '/' := by
    rintro rfl
    cases h
  have hquote : c ≠ '"' := by
    rintro rfl
    cases h
  unfold lexCode
  rw [if_neg (by simp [not_isWordChar_of_isSpace h])]
  rw [if_neg hslash]
  rw [if_neg hquote]
  rw [if_pos h]

theorem lex_spaces {text : Text} (h : ∀ c ∈ text, isSpace c)
    : Transducer.run lexChar ⟨.code, []⟩ text = (⟨.code, []⟩, []) := by
  induction text with
  | nil => rfl
  | cons c text ih =>
    have hstep : lexChar ⟨.code, []⟩ c = (⟨.code, []⟩, []) :=
      lexCode_space [] (h c List.mem_cons_self)
    rw [Transducer.run_cons]
    rw [hstep]
    rw [ih (fun d hd => h d (List.mem_cons_of_mem c hd))]
    rfl

end Lexing

theorem read_append (q : Lexer × Reader) (text more : Text) : read q (text ++ more)
        =
      ((read (read q text).1 more).1, (read q text).2 ++ (read (read q text).1 more).2) :=
  Transducer.run_append readChar q text more

theorem read_read (q : Lexer × Reader) (text more : Text)
    : (read (read q text).1 more).1 = (read q (text ++ more)).1 := by
  rw [read_append]

theorem read_eq (q : Lexer × Reader) (text : Text) : read q text
        =
      (((Transducer.run lexChar q.1 text).1,
          (Transducer.run readToken q.2 (Transducer.run lexChar q.1 text).2).1),
        (Transducer.run readToken q.2 (Transducer.run lexChar q.1 text).2).2) :=
  Transducer.run_comp lexChar readToken q text

section Newline

structure Lexer.Ok (q : Lexer) : Prop where
  code : q.mode = .code → ∀ c ∈ q.word, isWordChar c
  string : q.mode = .string → q.word.head? = some '"'

theorem ok_lexCode {word : List Char} (h : ∀ c ∈ word, isWordChar c) (c : Char)
    : (lexCode word c).1.Ok := by
  unfold lexCode
  split
  next hc =>
    refine ⟨?_, by simp⟩
    intro _
    rw [List.forall_mem_append]
    rw [List.forall_mem_singleton]
    exact ⟨h, hc⟩
  next =>
    split
    . exact ⟨by simp, by simp⟩
    . split
      next hquote => exact ⟨by simp, fun _ => by rw [hquote]; rfl⟩
      next => split <;> exact ⟨by simp, by simp⟩

theorem ok_lexChar {q : Lexer} (h : q.Ok) (c : Char) : (lexChar q c).1.Ok := by
  obtain ⟨mode, word⟩ := q
  cases mode with
  | code => exact ok_lexCode (h.code rfl) c
  | slash =>
    simp only [lexChar]
    split
    . exact ⟨by simp, by simp⟩
    . split
      . exact ⟨by simp, by simp⟩
      . exact ok_lexCode (by simp) c
  | line | block =>
    simp only [lexChar]
    split
    . exact ⟨by simp, by simp⟩
    . exact h
  | star =>
    simp only [lexChar]
    split
    . exact ⟨by simp, by simp⟩
    . split
      . exact h
      . exact ⟨by simp, by simp⟩
  | string =>
    simp only [lexChar]
    split
    . exact ⟨by simp, by simp⟩
    . split
      . exact ⟨by simp, by simp⟩
      . refine ⟨by simp, ?_⟩
        intro _
        rw [List.head?_append]
        rw [h.string rfl]
        rfl

theorem ok_run_lexChar {q : Lexer} (h : q.Ok) (text : Text)
    : (Transducer.run lexChar q text).1.Ok := by
  induction text generalizing q with
  | nil => exact h
  | cons c text ih =>
    rw [Transducer.run_cons]
    exact ih (ok_lexChar h c)

theorem readToken_emits {r : Reader} {t : Token} (ht : t ≠ [';']) : (readToken r t).2 = [] := by
  unfold readToken
  split
  . split <;> rfl
  . rw [if_neg ht, if_neg ht]
    repeat' split
    all_goals rfl
  . rfl

theorem run_readToken_emits {tokens : List Token} (h : ∀ t ∈ tokens, t ≠ [';']) (r : Reader)
    : (Transducer.run readToken r tokens).2 = [] := by
  induction tokens generalizing r with
  | nil => rfl
  | cons t tokens ih =>
    rw [Transducer.run_cons]
    rw [readToken_emits (h t List.mem_cons_self)]
    exact ih (fun u hu => h u (List.mem_cons_of_mem t hu)) _

theorem lexChar_newline_tokens {q : Lexer} (h : q.Ok) : ∀ t ∈ (lexChar q '\n').2, t ≠ [';'] := by
  obtain ⟨mode, word⟩ := q
  cases mode with
  | code =>
    intro t ht
    cases word with
    | nil => cases ht
    | cons c word =>
      rw [List.mem_singleton.mp ht]
      intro hword
      have hc := h.code rfl ';' (by rw [hword]; exact List.mem_cons_self)
      cases hc
  | slash =>
    intro t ht
    rw [List.mem_singleton.mp ht]
    decide
  | line | block | star => simp [lexChar]
  | string =>
    intro t ht
    rw [List.mem_singleton.mp ht]
    intro hword
    have hhead : word.head? = some '"' := h.string rfl
    rw [show word = [';'] from hword] at hhead
    cases hhead

theorem instrs_newline (text : Text) : instrs (text ++ ['\n']) = instrs text := by
  have hok : (read start text).1.1.Ok := by
    rw [read_eq]
    exact ok_run_lexChar ⟨by simp [start], by simp [start]⟩ text
  have hread : (read (read start text).1 ['\n']).2 = [] := by
    rw [read_eq]
    rw [Transducer.run_singleton]
    exact run_readToken_emits (lexChar_newline_tokens hok) _
  unfold instrs
  rw [read_append]
  rw [hread]
  rw [List.append_nil]

def Lexer.Settled (q : Lexer) : Prop := q = ⟨.code, []⟩ ∨ q.mode = .block

theorem settled_lexChar_newline (q : Lexer) : (lexChar q '\n').1.Settled := by
  obtain ⟨mode, word⟩ := q
  cases mode with
  | code | slash | line | string => exact .inl rfl
  | block | star => exact .inr rfl

theorem read_newline_of_settled {q : Lexer × Reader} (h : q.1.Settled)
    : read q ['\n'] = (q, []) := by
  obtain ⟨⟨mode, word⟩, r⟩ := q
  obtain h | h := h
  . simp only at h
    rw [h]
    rfl
  . simp only at h
    subst h
    rfl

end Newline

section AtStart

variable {q : Lexer × Reader}

theorem exists_of_atStart (h : atStart q)
    : ∃ depth labels loc, q = (⟨.code, []⟩, ⟨.inside depth, labels, [], loc⟩) := by
  obtain ⟨lexer, place, labels, stmt, loc⟩ := q
  unfold atStart at h
  simp only [Bool.and_eq_true, decide_eq_true_eq] at h
  obtain ⟨⟨rfl, hplace⟩, rfl⟩ := h
  cases place with
  | before | after => cases hplace
  | inside depth => exact ⟨depth, labels, loc, rfl⟩

theorem read_spaces {text : Text} (hq : q.1 = ⟨.code, []⟩) (h : ∀ c ∈ text, isSpace c)
    : read q text = (q, []) := by
  rw [read_eq]
  rw [hq]
  rw [lex_spaces h]
  rw [← hq]
  rfl

structure Plain (first : Token) (tokens : List Token) : Prop where
  first_ne : first ∉ [[';'], ['{'], ['}'], ['@'], [','], ".loc".toList]
  rest_ne : ∀ t ∈ tokens, t ∉ [[';'], [':']]

variable {first : Token} {tokens : List Token}

theorem readToken_plain (depth : ℕ) (labels more : List Token) {t : Token}
    (hfirst : first ≠ ".loc".toList) (ht : t ∉ [[';'], [':']])
    : readToken ⟨.inside depth, labels, first :: more, false⟩ t
        =
      (⟨.inside depth, labels, first :: (more ++ [t]), false⟩, []) := by
  simp only [List.mem_cons, List.not_mem_nil, or_false, not_or] at ht
  have hloc : dropLoc ⟨.inside depth, labels, first :: more ++ [t], false⟩
      = ⟨.inside depth, labels, first :: (more ++ [t]), false⟩ := by
    exact if_neg fun h => hfirst (Option.some.inj h.1)
  unfold readToken
  simp only
  rw [if_neg (List.cons_ne_nil first more)]
  rw [if_neg ht.1]
  rw [if_neg (fun h => ht.2 h.1)]
  rw [hloc]

theorem run_readToken_plain (depth : ℕ) (labels more : List Token) (hfirst : first ≠ ".loc".toList)
    (htokens : ∀ t ∈ tokens, t ∉ [[';'], [':']])
    : Transducer.run readToken ⟨.inside depth, labels, first :: more, false⟩ tokens
        =
      (⟨.inside depth, labels, first :: (more ++ tokens), false⟩, []) := by
  induction tokens generalizing more with
  | nil => simp
  | cons t tokens ih =>
    rw [Transducer.run_cons]
    rw [readToken_plain depth labels more hfirst (htokens t List.mem_cons_self)]
    rw [ih (more ++ [t]) (fun u hu => htokens u (List.mem_cons_of_mem t hu))]
    simp

theorem statement_of_plain (h : Plain first tokens)
    (labels : List Token) : statement labels (first :: tokens) = ⟨labels, none, first :: tokens⟩ := by
  have hfirst : first ≠ ['@'] := by
    rintro rfl
    exact h.first_ne (by simp)
  unfold statement
  split
  next heq => exact absurd (List.cons.inj heq).1 hfirst
  next heq => exact absurd (List.cons.inj heq).1 hfirst
  next => rfl

theorem readToken_first {depth : ℕ} {labels : List Token} {loc : Bool}
    (h : first ∉ [[';'], ['{'], ['}'], ['@'], [','], ".loc".toList])
    : readToken ⟨.inside depth, labels, [], loc⟩ first
        =
      (⟨.inside depth, labels, [first], false⟩, []) := by
  simp only [List.mem_cons, List.not_mem_nil, or_false, not_or] at h
  simp [readToken, h]

theorem run_readToken_statement (depth : ℕ) (labels : List Token) (loc : Bool)
    (h : Plain first tokens)
    : Transducer.run readToken ⟨.inside depth, labels, [], loc⟩ (first :: tokens ++ [[';']])
        =
      (⟨.inside depth, [], [], false⟩, [⟨labels, none, first :: tokens⟩]) := by
  have hloc : first ≠ ".loc".toList := by
    rintro rfl
    exact h.first_ne (by simp)
  rw [List.cons_append]
  rw [Transducer.run_cons]
  rw [readToken_first h.first_ne]
  rw [Transducer.run_append]
  rw [run_readToken_plain depth labels [] hloc h.rest_ne]
  rw [Transducer.run_singleton]
  rw [← statement_of_plain h labels]
  rfl

theorem read_statement (hq : atStart q) {text : Text}
    (hlex : Transducer.run lexChar ⟨.code, []⟩ text
      = (⟨.code, []⟩, first :: tokens ++ [[';']]))
    (h : Plain first tokens)
    : read q text = ((q.1, q.2.cleared), [⟨q.2.labels, none, first :: tokens⟩]) := by
  obtain ⟨depth, labels, loc, rfl⟩ := exists_of_atStart hq
  rw [read_eq]
  simp only
  rw [hlex]
  simp only
  rw [run_readToken_statement depth labels loc h]
  rfl

theorem atStart_cleared (hq : atStart q) : atStart (q.1, q.2.cleared) := hq

end AtStart

section Rewritten

open Instrumented

structure Rewritten (S : Scheme Op (List Token) Token) (q : Lexer × Reader) (text text' : Text)
    : Prop where
  inserted : Inserted S (read q text).2 (read q text').2
  state : (read q text').1 = (read q text).1

namespace Rewritten

variable {S : Scheme Op (List Token) Token} {q : Lexer × Reader} {text text' more more' : Text}

theorem refl (h : ∀ i ∈ (read q text).2, S.keep i) : Rewritten S q text text :=
  ⟨Inserted.refl h, rfl⟩

theorem append (h : Rewritten S q text text') (hmore : Rewritten S (read q text).1 more more')
    : Rewritten S q (text ++ more) (text' ++ more') := by
  constructor
  . rw [read_append]
    rw [read_append]
    rw [h.state]
    exact h.inserted.append hmore.inserted
  . rw [read_append]
    rw [read_append]
    rw [h.state]
    exact hmore.state

end Rewritten

end Rewritten

end Bpftime.Ptx
