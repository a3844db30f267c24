import Bpftime.Ptx.RegisterGuard.Refinement

/-!
This module contains the proof that a text in which the guard takes the declarations and the returns
for what they are runs as before.
-/

namespace Bpftime.Ptx.RegisterGuard

open Instrumented

def stateAfter (before : List Text) : Lexer × Reader := (read start (before.flatMap withNewline)).1

def savedLine (line : Text) : Bool :=
  match matchRegDecl line with
  | some (type, baseName, _) => isSaved type baseName
  | none => false

structure Layout where
  decls : List Text
  /-- The lines before its first instruction. -/
  top : ℕ
  /-- The lines to the first one with a closing brace. -/
  length : ℕ

def layout (ls : List Text) : Option Layout :=
  match ls with
  | [] => none
  | defn :: rest =>
    if isFuncDef defn then
      let mid := rest.takeWhile isDeclLine
      match rest.dropWhile isDeclLine with
      | [] => none
      | brace :: rest =>
        if isBraceLine '{' brace then
          let decls := rest.takeWhile isDeclLine
          let body := rest.takeWhile (!isBraceLine '}' ·)
          if body.length < rest.length then
            some ⟨decls, 1 + mid.length + 1 + decls.length, 1 + mid.length + 1 + body.length + 1⟩
          else
            none
        else
          none
    else
      none

/-- The text does not use the names of the guard, saves no floating-point register, and has the
declarations and the returns of each function where the guard takes them to be. -/
structure Careful (text : Text) : Prop where
  unused : ∀ i ∈ instrs text, own i.op = false
  integers : ∀ k < (lines text).length, ∀ f ∈ layout ((lines text).drop k),
    (slots (collectRegisters f.decls)).all fun slot =>
      (tokensOf slot.1).all (· ∉ floatRegisters (instrs text))
  /-- No label and no `.loc` is pending where the guard saves the registers. -/
  top : ∀ k < (lines text).length, ∀ f ∈ layout ((lines text).drop k), f.decls.any savedLine
    → atStart (stateAfter ((lines text).take (k + f.top)))
      ∧ (stateAfter ((lines text).take (k + f.top))).2.cleared
        = (stateAfter ((lines text).take (k + f.top))).2
  returns : ∀ k < (lines text).length, ∀ f ∈ layout ((lines text).drop k), f.decls.any savedLine
    → ∀ j < f.length, ∀ line ∈ (lines text)[k + j]?, isRet line
      → atStart (stateAfter ((lines text).take (k + j))) ∧ matchRet (dropSpaces line)

section Lines

theorem flatMap_linesFrom (line text : Text)
    : (linesFrom line text).flatMap withNewline = line ++ text
        ∨ (linesFrom line text).flatMap withNewline = line ++ text ++ ['\n'] := by
  induction text generalizing line with
  | nil =>
    rw [linesFrom]
    split
    next h =>
      left
      simp [h]
    next =>
      right
      simp [withNewline]
  | cons c text ih =>
    rw [linesFrom]
    split
    next h =>
      subst h
      rw [List.flatMap_cons]
      obtain h | h := ih []
      . left
        rw [h]
        simp [withNewline]
      . right
        rw [h]
        simp [withNewline]
    next =>
      obtain h | h := ih (line ++ [c])
      . left
        rw [h]
        simp
      . right
        rw [h]
        simp

theorem instrs_lines (text : Text) : instrs ((lines text).flatMap withNewline) = instrs text := by
  obtain h | h := flatMap_linesFrom [] text
  . rw [lines, h]
    rfl
  . rw [lines, h]
    exact instrs_newline text

theorem newline_notMem_linesFrom {line : Text} (h : '\n' ∉ line) (text : Text)
    : ∀ l ∈ linesFrom line text, '\n' ∉ l := by
  induction text generalizing line with
  | nil =>
    rw [linesFrom]
    split
    . simp
    . simpa using h
  | cons c text ih =>
    rw [linesFrom]
    split
    next =>
      intro l hl
      cases hl with
      | head => exact h
      | tail _ hl => exact ih (by simp) l hl
    next hc =>
      apply ih
      simp [h, Ne.symm hc]

theorem newline_notMem_lines (text : Text) : ∀ l ∈ lines text, '\n' ∉ l :=
  newline_notMem_linesFrom List.not_mem_nil text

theorem stateAfter_append (before more : List Text)
    : stateAfter (before ++ more) = (read (stateAfter before) (more.flatMap withNewline)).1 := by
  unfold stateAfter
  rw [List.flatMap_append]
  rw [read_read]

theorem settled_stateAfter (before : List Text) : (stateAfter before).1.Settled := by
  obtain rfl | ⟨more, line, rfl⟩ := List.eq_nil_or_concat before
  . exact .inl rfl
  . rw [List.concat_eq_append]
    rw [stateAfter_append]
    rw [List.flatMap_singleton]
    unfold withNewline
    rw [read_append]
    rw [read_eq]
    rw [show "\n".toList = ['\n'] from rfl]
    rw [Transducer.run_singleton]
    exact settled_lexChar_newline _

end Lines

section Insertions

variable {q : Lexer × Reader} {floats : List Token}

theorem block_nil (ops : List Op) : (block [] ops : List Instr) = ops.map plain := by
  cases ops with
  | nil => rfl
  | cons op ops => rfl

theorem rewritten_scratch {text : Text} (hq : atStart q) (hclear : q.2.cleared = q.2)
    (h : ReadsAll (Scratch floats) text) : Rewritten (scheme floats) q [] text := by
  obtain ⟨ops, hreads, hops⟩ := h
  have hlabels : q.2.labels = [] := by
    rw [← hclear]
    rfl
  have hread := hreads q hq
  rw [hlabels, hclear] at hread
  constructor
  . rw [hread]
    simp only
    rw [block_nil]
    rw [← List.append_nil (ops.map plain)]
    exact Inserted.plain_append hops .nil
  . rw [hread]
    simp only [ite_self]
    rfl

theorem exists_of_matchRet {line : Text} (h : matchRet (dropSpaces line))
    : ∃ blanks gap rest, line = blanks ++ ("ret".toList ++ gap ++ [';']) ++ rest
        ∧ (∀ c ∈ blanks, isSpace c) ∧ ∀ c ∈ gap, isSpace c := by
  unfold matchRet at h
  split at h
  next rest hrest =>
    split at h
    . cases h
    next c more hmore =>
      obtain rfl : c = ';' := by simpa using h
      refine ⟨line.takeWhile isSpace, rest.takeWhile isSpace, more, ?_, ?_, ?_⟩
      . have hline : line.takeWhile isSpace ++ dropSpaces line = line := List.takeWhile_append_dropWhile
        have hrest' : rest.takeWhile isSpace ++ dropSpaces rest = rest :=
          List.takeWhile_append_dropWhile
        rw [← List.isPrefixOf?_eq_some_iff_append_eq.mp hrest] at hline
        rw [hmore] at hrest'
        nth_rewrite 1 [← hline]
        nth_rewrite 1 [← hrest']
        simp
      . intro c hc
        exact List.mem_takeWhile_imp hc
      . intro c hc
        exact List.mem_takeWhile_imp hc
  . cases h

theorem read_ret {gap : Text} (hq : atStart q) (hgap : ∀ c ∈ gap, isSpace c)
    : read q ("ret".toList ++ gap ++ [';'])
        =
      ((q.1, q.2.cleared), [⟨q.2.labels, none, ["ret".toList]⟩]) := by
  apply read_statement hq _ ⟨by decide, by simp⟩
  rw [Transducer.run_append]
  rw [Transducer.run_append]
  rw [show Transducer.run lexChar ⟨.code, []⟩ "ret".toList = (⟨.code, "ret".toList⟩, []) by decide]
  cases gap with
  | nil => rfl
  | cons c gap =>
    have hstep : lexChar ⟨.code, "ret".toList⟩ c = (⟨.code, []⟩, ["ret".toList]) :=
      lexCode_space "ret".toList (hgap c List.mem_cons_self)
    have hrun : Transducer.run lexChar ⟨.code, "ret".toList⟩ (c :: gap)
        = (⟨.code, []⟩, ["ret".toList]) := by
      rw [Transducer.run_cons]
      rw [hstep]
      rw [lex_spaces (fun d hd => hgap d (List.mem_cons_of_mem c hd))]
      rfl
    rw [hrun]
    rfl

theorem rewritten_return {line pop : Text} (hq : atStart q) (hline : matchRet (dropSpaces line))
    (h : ReadsAll (fun op => Scratch floats op ∨ Restore floats op) pop)
    (hkeep : ∀ i ∈ (read q (withNewline line)).2, (scheme floats).keep i)
    : Rewritten (scheme floats) q (withNewline line) (pop ++ withNewline line) := by
  obtain ⟨ops, hreads, hops⟩ := h
  have hread := hreads q hq
  cases ops with
  | nil =>
    have hpop : read q pop = (q, []) := hread
    constructor
    . rw [read_append]
      rw [hpop]
      exact Inserted.refl hkeep
    . rw [read_append]
      rw [hpop]
  | cons op ops =>
    obtain ⟨blanks, gap, rest, rfl, hblanks, hgap⟩ := exists_of_matchRet hline
    have hcode : q.1 = ⟨.code, []⟩ := by
      obtain ⟨depth, labels, loc, rfl⟩ := exists_of_atStart hq
      rfl
    -- the line from such a place: the return, and what else is on the line
    have hreturn : ∀ r : Reader, atStart (q.1, r) → read (q.1, r) (withNewline
        (blanks ++ ("ret".toList ++ gap ++ [';']) ++ rest))
        = ((read (q.1, r.cleared) (withNewline rest)).1,
          ⟨r.labels, none, ["ret".toList]⟩ :: (read (q.1, r.cleared) (withNewline rest)).2) := by
      intro r hr
      unfold withNewline
      rw [List.append_assoc]
      rw [List.append_assoc]
      rw [read_append]
      rw [read_spaces (q := (q.1, r)) hcode hblanks]
      simp only
      rw [read_append]
      rw [read_ret hr hgap]
      rfl
    have hsame := hreturn q.2 hq
    have hpop : read q pop = ((q.1, q.2.cleared), block q.2.labels (op :: ops)) := hread
    rw [hsame] at hkeep
    constructor
    . rw [read_append]
      rw [hpop]
      rw [hsame]
      rw [hreturn _ (atStart_cleared hq)]
      apply Inserted.final (i := ⟨q.2.labels, none, ["ret".toList]⟩) rfl rfl
        (List.cons_ne_nil op ops) hops
      apply Inserted.refl
      intro i hi
      exact hkeep i (List.mem_cons_of_mem _ hi)
    . rw [read_append]
      rw [hpop]
      rw [hsame]
      rw [hreturn _ (atStart_cleared hq)]
      rfl

end Insertions

section Emission

def Ended (text : Text) : Prop := text = [] ∨ text.getLast? = some '\n'

theorem ended_append_newline (text : Text) {last : Text} (h : last.getLast? = some '\n')
    : Ended (text ++ last) := by
  right
  rw [List.getLast?_append]
  rw [h]
  rfl

theorem flatMap_ifNonempty {text : Text} (h : Ended text)
    : (ifNonempty text).flatMap emitLine = text := by
  unfold ifNonempty
  split
  next hnil => simp [hnil]
  next =>
    rw [List.flatMap_singleton]
    exact if_pos h

theorem ended_newDecls (registers : List RegisterInfo) : Ended (newDecls registers) := by
  unfold newDecls
  split
  . exact .inl rfl
  . apply ended_append_newline
    decide

theorem ended_pushBlock (registers : List RegisterInfo) : Ended (pushBlock registers) := by
  unfold pushBlock
  split
  . apply ended_append_newline
    decide
  . exact .inl rfl

theorem ended_popBlock (registers : List RegisterInfo) : Ended (popBlock registers) := by
  unfold popBlock
  split
  . apply ended_append_newline
    decide
  . exact .inl rfl

theorem emitLine_eq {line : Text} (h : '\n' ∉ line) (hne : line ≠ [])
    : emitLine line = withNewline line := by
  unfold emitLine
  rw [if_neg]
  rintro (hnil | hlast)
  . exact hne hnil
  . exact h (List.mem_of_getLast? hlast)

end Emission

section Function

variable {q : Lexer × Reader} {floats : List Token} {registers : List RegisterInfo}
  (hslots : ∀ slot ∈ slots registers, IntSlot floats slot)

include hslots

theorem rewritten_top {i insertion : ℕ}
    (htop : registers ≠ [] → i = insertion → atStart q ∧ q.2.cleared = q.2)
    : Rewritten (scheme floats) q []
        ((if i = insertion then ifNonempty (newDecls registers) ++ ifNonempty (pushBlock registers)
          else []).flatMap emitLine) := by
  split
  next hi =>
    rw [List.flatMap_append]
    rw [flatMap_ifNonempty (ended_newDecls registers)]
    rw [flatMap_ifNonempty (ended_pushBlock registers)]
    by_cases hnone : registers = []
    . subst hnone
      exact Rewritten.refl (by simp [read])
    . obtain ⟨hq, hclear⟩ := htop hnone hi
      exact rewritten_scratch hq hclear
        ((readsAll_newDecls floats registers).append (readsAll_pushBlock hslots))
  next => exact Rewritten.refl (by simp [read])

theorem rewritten_line {line : Text} (hq : q.1.Settled) (hline : '\n' ∉ line)
    (hkeep : ∀ i ∈ (read q (withNewline line)).2, (scheme floats).keep i)
    (hret : registers ≠ [] → isRet line → atStart q ∧ matchRet (dropSpaces line))
    : Rewritten (scheme floats) q (withNewline line)
        (((if isRet line then ifNonempty (popBlock registers) else []) ++ [line]).flatMap
          emitLine) := by
  rw [List.flatMap_append]
  rw [List.flatMap_singleton]
  by_cases hnil : line = []
  . subst hnil
    have hread : read q (withNewline []) = (q, []) := read_newline_of_settled hq
    constructor
    . rw [hread]
      exact .nil
    . rw [hread]
      rfl
  . rw [emitLine_eq hline hnil]
    split
    next hisRet =>
      rw [flatMap_ifNonempty (ended_popBlock registers)]
      by_cases hnone : registers = []
      . subst hnone
        exact Rewritten.refl hkeep
      . obtain ⟨hstart, hmatch⟩ := hret hnone hisRet
        exact rewritten_return hstart hmatch (readsAll_popBlock hslots) hkeep
    next => exact Rewritten.refl hkeep

theorem rewritten_instrumentedLines (insertion : ℕ) (rest before : List Text) (i : ℕ)
    (hlines : ∀ line ∈ rest, '\n' ∉ line)
    (hkeep : ∀ x ∈ (read (stateAfter before) (rest.flatMap withNewline)).2, (scheme floats).keep x)
    (htop : registers ≠ [] → ∀ k ≤ rest.length, i + k = insertion
      → atStart (stateAfter (before ++ rest.take k))
        ∧ (stateAfter (before ++ rest.take k)).2.cleared = (stateAfter (before ++ rest.take k)).2)
    (hret : registers ≠ [] → ∀ k, ∀ line ∈ rest[k]?, isRet line
      → atStart (stateAfter (before ++ rest.take k)) ∧ matchRet (dropSpaces line))
    : Rewritten (scheme floats) (stateAfter before) (rest.flatMap withNewline)
        ((instrumentedLines (newDecls registers) (pushBlock registers) (popBlock registers) insertion
          i rest).flatMap emitLine) := by
  induction rest generalizing before i with
  | nil =>
    apply rewritten_top hslots
    intro hne hi
    simpa using htop hne 0 (Nat.zero_le _) hi
  | cons line rest ih =>
    have hstate : (read (stateAfter before) (withNewline line)).1 = stateAfter (before ++ [line]) := by
      rw [stateAfter_append]
      rw [List.flatMap_singleton]
    rw [List.flatMap_cons] at hkeep ⊢
    rw [read_append] at hkeep
    rw [instrumentedLines]
    rw [List.append_assoc]
    rw [List.flatMap_append]
    rw [← List.nil_append (withNewline line ++ _)]
    apply Rewritten.append
    . apply rewritten_top hslots
      intro hne hi
      simpa using htop hne 0 (Nat.zero_le _) hi
    rw [show ∀ ls : List Text, line :: ls = [line] ++ ls from fun _ => rfl]
    rw [← List.append_assoc]
    rw [List.flatMap_append]
    apply Rewritten.append
    . apply rewritten_line hslots (settled_stateAfter before)
      . exact hlines line List.mem_cons_self
      . intro x hx
        exact hkeep x (List.mem_append_left _ hx)
      . intro hne hisRet
        simpa using hret hne 0 line rfl hisRet
    . rw [show (read (stateAfter before) []).1 = stateAfter before from rfl]
      rw [hstate]
      apply ih
      . intro line' hline'
        exact hlines line' (List.mem_cons_of_mem line hline')
      . rw [← hstate]
        intro x hx
        exact hkeep x (List.mem_append_right _ hx)
      . intro hne k hk hi
        have := htop hne (k + 1) (by simpa using hk) (by omega)
        simpa using this
      . intro hne k line' hline' hisRet
        have := hret hne (k + 1) line' hline' hisRet
        simpa using this

end Function

section Scan

theorem not_decl_of_brace {brace : Char} (hbrace : brace ∈ ['{', '}']) {line : Text}
    (h : isBraceLine brace line) : isDeclLine line = false := by
  unfold isBraceLine at h
  split at h
  . cases h
  next c rest hrest =>
    obtain ⟨rfl, _⟩ : c = brace ∧ dropSpaces rest = [] := by simpa using h
    unfold isDeclLine isCommentOrEmpty matchRegDecl isLocalDecl
    rw [hrest]
    simp only [List.mem_cons, List.not_mem_nil, or_false] at hbrace
    obtain rfl | rfl := hbrace <;> rfl

theorem openingBraceIdx_eq {xs rest : List Text} {brace : Text}
    (hxs : ∀ x ∈ xs, isBraceLine '{' x = false) (hbrace : isBraceLine '{' brace) (i : ℕ)
    : openingBraceIdx i (xs ++ brace :: rest)
        =
      if xs.all isDeclLine then some (i + xs.length) else none := by
  induction xs generalizing i with
  | nil =>
    rw [List.nil_append]
    rw [openingBraceIdx]
    simp [hbrace]
  | cons x xs ih =>
    rw [List.cons_append]
    rw [openingBraceIdx]
    rw [hxs x List.mem_cons_self]
    rw [ih (fun y hy => hxs y (List.mem_cons_of_mem x hy))]
    cases hx : isDeclLine x with
    | false => simp [hx]
    | true =>
      simp only [Bool.false_eq_true, if_false, if_true, List.all_cons, hx, Bool.true_and,
        List.length_cons]
      rw [show i + 1 + xs.length = i + (xs.length + 1) by omega]

theorem takeWhile_append_cons {p : Text → Bool} {c : Text} (hc : p c = false) (ys rest : List Text)
    : (ys ++ c :: rest).takeWhile p = ys.takeWhile p := by
  induction ys with
  | nil => simp [hc]
  | cons y ys ih => simp [List.takeWhile_cons, ih]

theorem collectRegisters_eq_nil {decls : List Text} (h : decls.any savedLine = false)
    : collectRegisters decls = [] := by
  have hall : ∀ line ∈ decls, addRegister [] line = [] := by
    intro line hline
    have hsaved : savedLine line = false := by
      rw [List.any_eq_false] at h
      simpa using h line hline
    unfold savedLine at hsaved
    unfold addRegister
    split
    . rfl
    next type baseName number hmatch =>
      rw [hmatch] at hsaved
      simp only at hsaved
      simp [hsaved]
  apply List.foldlRecOn (motive := fun registers => registers = [])
  . rfl
  . rintro registers rfl line hline
    exact hall line hline

structure Body (defn : Text) (mid : List Text) (brace : Text) (code : List Text) : Prop where
  defn : isFuncDef defn
  mid : ∀ line ∈ mid, isBraceLine '{' line = false
  brace : isBraceLine '{' brace
  code : ∀ line ∈ code, isBraceLine '}' line = false

section Body

variable {defn brace close : Text} {mid code : List Text} (h : Body defn mid brace code)
  (hclose : isBraceLine '}' close)

include h hclose

theorem Body.layout_eq (hmid : mid.all isDeclLine) (after : List Text)
    : layout (defn :: (mid ++ brace :: (code ++ close :: after)))
        =
      some ⟨code.takeWhile isDeclLine, 1 + mid.length + 1 + (code.takeWhile isDeclLine).length,
        1 + mid.length + 1 + code.length + 1⟩ := by
  have hall : ∀ line ∈ mid, isDeclLine line := List.all_eq_true.mp hmid
  have hbrace := not_decl_of_brace (by decide) h.brace
  have htake : (mid ++ brace :: (code ++ close :: after)).takeWhile isDeclLine = mid := by
    rw [List.takeWhile_append_of_pos hall]
    simp [hbrace]
  have hdrop : (mid ++ brace :: (code ++ close :: after)).dropWhile isDeclLine
      = brace :: (code ++ close :: after) := by
    rw [List.dropWhile_append_of_pos hall]
    simp [hbrace]
  have hdecls := takeWhile_append_cons (not_decl_of_brace (by decide) hclose) code after
  have hcode : (code ++ close :: after).takeWhile (!isBraceLine '}' ·) = code := by
    rw [List.takeWhile_append_of_pos (by simpa using h.code)]
    simp [hclose]
  unfold layout
  simp only [h.defn, if_true, hdrop, htake, h.brace, hdecls, hcode]
  rw [if_pos]
  rw [List.length_append, List.length_cons]
  omega

theorem Body.guardFunction_eq : guardFunction (defn :: (mid ++ brace :: (code ++ [close])))
        =
      if mid.all isDeclLine then
        (instrumentedLines (newDecls (collectRegisters (code.takeWhile isDeclLine)))
          (pushBlock (collectRegisters (code.takeWhile isDeclLine)))
          (popBlock (collectRegisters (code.takeWhile isDeclLine)))
          (1 + mid.length + 1 + (code.takeWhile isDeclLine).length) 0
          (defn :: (mid ++ brace :: (code ++ [close])))).flatMap emitLine
      else
        (defn :: (mid ++ brace :: (code ++ [close]))).flatMap withNewline := by
  have hdecls := takeWhile_append_cons (not_decl_of_brace (by decide) hclose) code []
  have hdrop : (mid ++ brace :: (code ++ [close])).drop (1 + mid.length) = code ++ [close] := by
    rw [Nat.add_comm]
    rw [List.drop_length_add_append]
    rfl
  unfold guardFunction
  simp only [List.head?_cons, Option.any_some, h.defn, if_true, List.drop_succ_cons, List.drop_zero]
  rw [openingBraceIdx_eq h.mid h.brace]
  cases mid.all isDeclLine with
  | false => rfl
  | true =>
    simp only [if_true]
    rw [hdrop]
    rw [hdecls]

end Body

theorem keep_of_careful {text : Text} (h : Careful text) {before mid after : List Text}
    (hlines : lines text = before ++ (mid ++ after))
    : ∀ i ∈ (read (stateAfter before) (mid.flatMap withNewline)).2, own i.op = false := by
  intro i hi
  apply h.unused
  rw [← instrs_lines text]
  rw [hlines]
  rw [List.flatMap_append]
  rw [List.flatMap_append]
  unfold instrs
  rw [read_append]
  apply List.mem_append_right
  rw [read_append]
  exact List.mem_append_left _ hi

theorem rewritten_guardFunction {text : Text} (h : Careful text) {before after : List Text}
    {defn brace close : Text} {mid code : List Text} (hbody : Body defn mid brace code)
    (hclose : isBraceLine '}' close)
    (hlines : lines text = before ++ (defn :: (mid ++ brace :: (code ++ [close])) ++ after))
    : Rewritten (scheme (floatRegisters (instrs text))) (stateAfter before)
        ((defn :: (mid ++ brace :: (code ++ [close]))).flatMap withNewline)
        (guardFunction (defn :: (mid ++ brace :: (code ++ [close])))) := by
  have hkeep := keep_of_careful h hlines
  rw [hbody.guardFunction_eq hclose]
  split
  next hmid =>
    have hlayout := hbody.layout_eq hclose hmid after
    generalize hdecls : code.takeWhile isDeclLine = decls at hlayout
    generalize hfn : defn :: (mid ++ brace :: (code ++ [close])) = fn at hlines hkeep
    have hlength : fn.length = 1 + mid.length + 1 + code.length + 1 := by
      rw [← hfn]
      simp only [List.length_cons, List.length_append, List.length_nil]
      omega
    have hfound : layout ((lines text).drop before.length)
        = some ⟨decls, 1 + mid.length + 1 + decls.length, fn.length⟩ := by
      rw [hlines]
      rw [List.drop_left]
      rw [hlength]
      rw [← hlayout]
      rw [← hfn]
      simp
    have hbefore : before.length < (lines text).length := by
      rw [hlines]
      simp only [List.length_append]
      omega
    have hsaved : collectRegisters decls ≠ [] → decls.any savedLine := by
      intro hne
      by_contra hnone
      exact hne (collectRegisters_eq_nil (by simpa using hnone))
    have htake : ∀ k ≤ fn.length, (lines text).take (before.length + k) = before ++ fn.take k := by
      intro k hk
      rw [hlines]
      rw [List.take_length_add_append]
      rw [List.take_append_of_le_length hk]
    have hslots : ∀ slot ∈ slots (collectRegisters decls),
        IntSlot (floatRegisters (instrs text)) slot := by
      intro slot hslot
      have hint := List.all_eq_true.mp (h.integers before.length hbefore _ hfound) slot hslot
      exact ⟨slot_collectRegisters decls slot hslot, by simpa using hint⟩
    apply rewritten_instrumentedLines hslots
    . intro line hline
      apply newline_notMem_lines text
      rw [hlines]
      simp [hline]
    . exact hkeep
    . intro hne k hk hi
      have := h.top before.length hbefore _ hfound (hsaved hne)
      simp only at this
      rw [Nat.zero_add] at hi
      rw [← hi] at this
      rw [htake k hk] at this
      exact this
    . intro hne k line hline hisRet
      have hk : k < fn.length := (List.getElem?_eq_some_iff.mp hline).1
      have hline' : line ∈ (lines text)[before.length + k]? := by
        rw [hlines]
        rw [List.getElem?_append_right (by omega)]
        rw [Nat.add_sub_cancel_left]
        rw [List.getElem?_append_left hk]
        exact hline
      have := h.returns before.length hbefore _ hfound (hsaved hne) k hk line hline' hisRet
      rw [htake k (by omega)] at this
      exact this
  next => exact Rewritten.refl hkeep

def Scan.Ok (s : Scan) : Prop :=
  match s.phase with
  | .outside => s.current = []
  | .definition => ∃ defn mid, s.current = defn :: mid ∧ isFuncDef defn
    ∧ ∀ line ∈ mid, isBraceLine '{' line = false
  | .body => ∃ defn mid brace code, s.current = defn :: (mid ++ brace :: code)
    ∧ Body defn mid brace code

theorem Scan.Ok.scanLine {s : Scan} (hs : s.Ok) (line : Text)
    : (∃ phase, scanLine s line = (⟨phase, s.current ++ [line]⟩, [])
        ∧ Scan.Ok ⟨phase, s.current ++ [line]⟩)
      ∨ (s.current = [] ∧ scanLine s line = (⟨.outside, []⟩, withNewline line))
      ∨ ∃ defn mid brace code, s.current = defn :: (mid ++ brace :: code)
          ∧ Body defn mid brace code ∧ isBraceLine '}' line
          ∧ scanLine s line = (⟨.outside, []⟩, guardFunction (s.current ++ [line])) := by
  obtain ⟨phase, current⟩ := s
  cases phase with
  | outside =>
    obtain rfl : current = [] := hs
    cases hdef : isFuncDef line with
    | true =>
      refine Or.inl ⟨.definition, ?_, line, [], rfl, hdef, by simp⟩
      simp [RegisterGuard.scanLine, hdef]
    | false =>
      refine Or.inr (Or.inl ⟨rfl, ?_⟩)
      simp [RegisterGuard.scanLine, hdef]
  | definition =>
    obtain ⟨defn, mid, rfl, hdef, hmid⟩ := hs
    left
    cases hbrace : isBraceLine '{' line with
    | true =>
      refine ⟨.body, ?_, defn, mid, line, [], rfl, hdef, hmid, hbrace, by simp⟩
      simp [RegisterGuard.scanLine, hbrace]
    | false =>
      refine ⟨.definition, ?_, defn, mid ++ [line], rfl, hdef, ?_⟩
      . simp [RegisterGuard.scanLine, hbrace]
      . rw [List.forall_mem_append]
        rw [List.forall_mem_singleton]
        exact ⟨hmid, hbrace⟩
  | body =>
    obtain ⟨defn, mid, brace, code, rfl, hbody⟩ := hs
    cases hclose : isBraceLine '}' line with
    | true =>
      refine Or.inr (Or.inr ⟨defn, mid, brace, code, rfl, hbody, rfl, ?_⟩)
      simp [RegisterGuard.scanLine, hclose]
    | false =>
      refine Or.inl ⟨.body, ?_, defn, mid, brace, code ++ [line], by simp, hbody.defn, hbody.mid,
        hbody.brace, ?_⟩
      . simp [RegisterGuard.scanLine, hclose]
      . rw [List.forall_mem_append]
        rw [List.forall_mem_singleton]
        exact ⟨hbody.code, hclose⟩

theorem rewritten_scan {text : Text} (h : Careful text) (rest before : List Text) (s : Scan)
    (hlines : lines text = before ++ (s.current ++ rest)) (hs : s.Ok)
    : Rewritten (scheme (floatRegisters (instrs text))) (stateAfter before)
        ((s.current ++ rest).flatMap withNewline)
        ((Transducer.run scanLine s rest).2 ++ leftover (Transducer.run scanLine s rest).1) := by
  induction rest generalizing before s with
  | nil =>
    have hleftover : leftover s = s.current.flatMap withNewline := by
      unfold leftover
      split
      next hphase =>
        have : s.current = [] := by simpa [Scan.Ok, hphase] using hs
        simp [this]
      next => rfl
    have hkeep := keep_of_careful h hlines
    rw [List.append_nil]
    rw [Transducer.run_nil]
    simp only [List.nil_append]
    rw [hleftover]
    exact Rewritten.refl hkeep
  | cons line rest ih =>
    -- the line is held back
    have hheld : ∀ phase, scanLine s line = (⟨phase, s.current ++ [line]⟩, [])
        → Scan.Ok ⟨phase, s.current ++ [line]⟩
        → Rewritten (scheme (floatRegisters (instrs text))) (stateAfter before) ((s.current ++ line :: rest).flatMap withNewline)
          ((Transducer.run scanLine s (line :: rest)).2
            ++ leftover (Transducer.run scanLine s (line :: rest)).1) := by
      intro phase hstep hok
      have hnext := ih before ⟨phase, s.current ++ [line]⟩ (by simpa using hlines) hok
      rw [Transducer.run_cons]
      rw [hstep]
      simpa using hnext
    -- what was held back is written, and the rest is read from there on
    have hwritten : ∀ written, scanLine s line = (⟨.outside, []⟩, written)
        → Rewritten (scheme (floatRegisters (instrs text))) (stateAfter before) ((s.current ++ [line]).flatMap withNewline) written
        → Rewritten (scheme (floatRegisters (instrs text))) (stateAfter before) ((s.current ++ line :: rest).flatMap withNewline)
          ((Transducer.run scanLine s (line :: rest)).2
            ++ leftover (Transducer.run scanLine s (line :: rest)).1) := by
      intro written hstep hrewritten
      have hnext := ih (before ++ (s.current ++ [line])) ⟨.outside, []⟩ (by simpa using hlines) rfl
      rw [stateAfter_append] at hnext
      have happend := hrewritten.append hnext
      rw [← List.flatMap_append] at happend
      rw [Transducer.run_cons]
      rw [hstep]
      simpa using happend
    rcases hs.scanLine line with ⟨phase, hstep, hok⟩ | ⟨hnil, hstep⟩ | hfunction
    . exact hheld phase hstep hok
    . apply hwritten _ hstep
      rw [hnil] at hlines ⊢
      have hline : lines text = before ++ ([line] ++ rest) := hlines
      have hkeep := keep_of_careful h hline
      rw [List.nil_append]
      rw [List.flatMap_singleton] at hkeep ⊢
      exact Rewritten.refl hkeep
    . obtain ⟨defn, mid, brace, code, hcurrent, hbody, hclose, hstep⟩ := hfunction
      apply hwritten _ hstep
      have hfn : s.current ++ [line] = defn :: (mid ++ brace :: (code ++ [line])) := by
        simp [hcurrent]
      have hlines' : lines text
          = before ++ (defn :: (mid ++ brace :: (code ++ [line])) ++ rest) := by
        rw [hlines]
        rw [← hfn]
        simp
      rw [hfn]
      exact rewritten_guardFunction h hbody hclose hlines'

end Scan

theorem sameUntilReturn_of_careful (text : Text) (h : Careful text)
    : SameUntilReturn (instrs text) (instrs (addRegisterGuardForEbpfPtxFunc text)) := by
  have hscan := rewritten_scan h (lines text) [] ⟨.outside, []⟩ rfl rfl
  apply sameUntilReturn_of_inserted
  have hinserted := hscan.inserted
  rw [← instrs_lines text] at hinserted ⊢
  exact hinserted

def branchText : Text :=
  (".func f()\n\x7b\n\t.reg .pred %p1;\n\t.reg .b64 %rd1;\n\n\t@%p1 bra L;\n\tret;\nL:\n"
    ++ "\tmov.u64 %rd1, 7;\n\tret;\n\x7d\n").toList

theorem sameUntilReturn_branchText : Careful branchText
        ∧ SameUntilReturn (instrs branchText)
          (instrs (addRegisterGuardForEbpfPtxFunc branchText)) := by
  have hlines : lines branchText = [".func f()".toList, "\x7b".toList, "\t.reg .pred %p1;".toList,
      "\t.reg .b64 %rd1;".toList, [], "\t@%p1 bra L;".toList, "\tret;".toList, "L:".toList,
      "\tmov.u64 %rd1, 7;".toList, "\tret;".toList, "\x7d".toList] := by
    decide +kernel
  have h : Careful branchText := by
    refine ⟨by decide +kernel, ?_, ?_, ?_⟩
    . rw [hlines]
      decide +kernel
    . rw [hlines]
      decide +kernel
    . rw [hlines]
      decide +kernel
  exact ⟨h, sameUntilReturn_of_careful branchText h⟩

def guardedText : Text :=
  (".func f()\n\x7b\n\t.reg .pred %p1;\n\t.reg .b64 %rd1;\n\tmov.u64 %rd1, 7;\n\t@%p1 ret;\n"
    ++ "\tst.u64 [out], %rd1;\n\tret;\n\x7d\n").toList

def regMachine : Machine ℕ where
  holds _ _ := false
  exec op r := (if op = ["mov.u64".toList, "%rd1".toList, [','], "7".toList] then 7 else r, .fall)

def savingMachine : Machine (ℕ × ℕ) where
  holds _ _ := false
  exec op s :=
    (if op = ["st.local.u64".toList, ['['], tempAddrReg, [']'], [','], "%rd1".toList] then
      (s.1, s.1)
    else if op = ["ld.local.u64".toList, "%rd1".toList, [','], ['['], tempAddrReg, [']']] then
      (s.2, s.2)
    else
      ((regMachine.exec op s.1).1, s.2), .fall)

theorem addsScratch_savingMachine : AddsScratch [] regMachine savingMachine Prod.fst := by
  have hstore : own ["st.local.u64".toList, ['['], tempAddrReg, [']'], [','], "%rd1".toList] := by
    decide
  have hload : own ["ld.local.u64".toList, "%rd1".toList, [','], ['['], tempAddrReg, [']']] := by
    decide
  have hmov : own ["mov.u64".toList, "%rd1".toList, [','], "7".toList] = false := by
    decide
  refine ⟨⟨fun _ _ => rfl, ?_⟩, fun _ _ _ => rfl, ?_, fun _ _ _ => rfl⟩
  . intro op hop s
    simp only [savingMachine]
    split
    next heq =>
      rw [heq, hstore] at hop
      cases hop
    next =>
      split
      next heq =>
        rw [heq, hload] at hop
        cases hop
      next => rfl
  . intro op hop s
    have hop₂ : op ≠ ["ld.local.u64".toList, "%rd1".toList, [','], ['['], tempAddrReg, [']']] := by
      rintro rfl
      exact not_restore_of_scratch hop (.load ".u64".toList ["%rd1".toList] (by simp))
    have hop₃ : op ≠ ["mov.u64".toList, "%rd1".toList, [','], "7".toList] := by
      rintro rfl
      have hown := hop.own
      rw [hmov] at hown
      cases hown
    simp only [savingMachine, if_neg hop₂, regMachine, if_neg hop₃]
    split <;> rfl

theorem not_sameUntilReturn_guardedText : ¬ SameUntilReturn (instrs guardedText)
        (instrs (addRegisterGuardForEbpfPtxFunc guardedText)) := by
  intro h
  have hfloats : floatRegisters (instrs guardedText) = [] := by
    decide +kernel
  obtain ⟨m, _, _, hevents, _⟩ := h ℕ (ℕ × ℕ) regMachine savingMachine Prod.fst
    (hfloats ▸ addsScratch_savingMachine) (0, 0) 5
  have hvalues : (regMachine.run isReturn (instrs guardedText) 5 (.start 0)).events.map Prod.snd
      = [0, 0, 0, 7] := by
    decide +kernel
  -- the status and the values in one evaluation
  have hrun : (fun c : Config Op (ℕ × ℕ) => c.status ≠ .running
      ∧ ((c.events.filter (!own ·.1)).map (Prod.map id Prod.fst)).map Prod.snd = [0, 0, 0, 0])
      (savingMachine.run isReturn (instrs (addRegisterGuardForEbpfPtxFunc guardedText)) 24
        (.start (0, 0))) := by
    decide +kernel
  obtain ⟨hdone, hfinal⟩ := hrun
  have hvalues' := (((Machine.events_of_done hdone m).filter (!own ·.1)).map
    (Prod.map id Prod.fst)).map Prod.snd
  rw [hfinal] at hvalues'
  rw [hevents] at hvalues'
  rw [show (regMachine.run isReturn (instrs guardedText) 5 (.start (0, 0).1)).events.map Prod.snd
    = [0, 0, 0, 7] from hvalues] at hvalues'
  exact absurd hvalues' (by decide)

end Bpftime.Ptx.RegisterGuard
