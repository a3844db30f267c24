import Mathlib.Data.List.Count
import Bpftime.Ptx.Syntax

namespace Bpftime.Ptx

def isIdentChar (c : Char) : Bool := c.isAlphanum || c = '_'

def skipSpaces (text : Text) : Option Text :=
  match text with
  | c :: rest => if isSpace c then some (rest.dropWhile isSpace) else none
  | [] => none

def matchParams (text : Text) : Option Text :=
  match text with
  | '(' :: rest =>
    match rest.dropWhile (· ≠ ')') with
    | [] => none
    | _ :: rest => some rest
  | _ => none

def matchDecl (text : Text) : Option (Text × Text) := do
  let rest ← ".entry".toList.isPrefixOf? text
  let rest ← skipSpaces rest
  let name := rest.takeWhile isIdentChar
  if name = [] then
    none
  else
    let rest ← matchParams ((rest.dropWhile isIdentChar).dropWhile isSpace)
    return (name, rest)

def matchEntry (text : Text) : Option (Text × Text) :=
  match ".visible".toList.isPrefixOf? text with
  | some rest => (skipSpaces rest).bind matchDecl
  | none => matchDecl text

def kernelBegin (kernel : Text) : ℕ → Text → Option ℕ
  | _, [] => none
  | skip + 1, _ :: rest => (kernelBegin kernel skip rest).map (· + 1)
  | 0, c :: rest =>
    match matchEntry (c :: rest) with
    | none => (kernelBegin kernel 0 rest).map (· + 1)
    | some (name, suffix) =>
      if name = kernel then
        some 0
      else
        (kernelBegin kernel (rest.length - suffix.length) rest).map (· + 1)

def bodyLength : ℕ → Text → Option ℕ
  | _, [] => some 0
  | depth, c :: rest =>
    if c = '{' then
      (bodyLength (depth + 1) rest).map (· + 1)
    else if c = '}' then
      match depth with
      | 0 => none
      | 1 => some 1
      | depth + 2 => (bodyLength (depth + 1) rest).map (· + 1)
    else
      (bodyLength depth rest).map (· + 1)

inductive PatchError where
  /-- `pop_back` of an empty vector. -/
  | undefined
  /-- The exception "Unable to produce PTX from eBPF". -/
  | noPtx
  deriving DecidableEq

def findKernelBody (ptx kernel : Text) : Except PatchError (Option (ℕ × ℕ)) :=
  match kernelBegin kernel 0 ptx with
  | none => .ok none
  | some first =>
    match bodyLength 0 (ptx.drop first) with
    | none => .error .undefined
    | some length => .ok (some (first, first + length))

structure EntryDecl (kernel : Text) where
  visible : Text
  gap : Text
  blanks : Text
  params : Text
  attrs : Text
  name_ne : kernel ≠ []
  name : ∀ c ∈ kernel, isIdentChar c
  visible_eq : visible = [] ∨ ∃ gap, gap ≠ [] ∧ (∀ c ∈ gap, isSpace c)
    ∧ visible = ".visible".toList ++ gap
  gap_ne : gap ≠ []
  gap_spaces : ∀ c ∈ gap, isSpace c
  blanks_spaces : ∀ c ∈ blanks, isSpace c
  params_closed : ')' ∉ params
  params_open : ∀ c ∈ params, c ≠ '{' ∧ c ≠ '}'
  attrs_open : ∀ c ∈ attrs, c ≠ '{' ∧ c ≠ '}'

def EntryDecl.text {kernel : Text} (d : EntryDecl kernel) : Text :=
  d.visible ++ (".entry".toList ++ (d.gap ++ (kernel ++ (d.blanks ++
    '(' :: (d.params ++ ')' :: d.attrs)))))

def EntryDecl.sect {kernel : Text} (d : EntryDecl kernel) (body : Text) : Text :=
  d.text ++ '{' :: (body ++ ['}'])

structure Module (kernel : Text) where
  pre : Text
  decl : EntryDecl kernel
  body : Text
  post : Text
  balanced : ∀ k ≤ body.length, (body.take k).count '}' ≤ (body.take k).count '{'
  closed : body.count '}' = body.count '{'
  /-- What is declared before it is another kernel. -/
  first : ∀ k < pre.length, ∀ found ∈ matchEntry ((pre ++ (decl.sect body ++ post)).drop k),
    found.1 ≠ kernel ∧ (decl.sect body ++ post).length ≤ found.2.length

def Module.sect {kernel : Text} (m : Module kernel) : Text := m.decl.sect m.body

def Module.ptx {kernel : Text} (m : Module kernel) : Text := m.pre ++ (m.sect ++ m.post)

section Patterns

theorem isPrefixOf?_append (lit rest : Text) : lit.isPrefixOf? (lit ++ rest) = some rest := by
  induction lit with
  | nil => rfl
  | cons c lit ih => simp [List.isPrefixOf?, ih]

theorem dropWhile_append_of_all {p : Char → Bool} {text rest : Text} (htext : ∀ c ∈ text, p c)
    (hrest : ∀ c ∈ rest.head?, p c = false) : (text ++ rest).dropWhile p = rest := by
  rw [List.dropWhile_append_of_pos htext]
  cases rest with
  | nil => rfl
  | cons c rest =>
    rw [List.dropWhile_cons_of_neg]
    simp [hrest c rfl]

theorem takeWhile_append_of_all {p : Char → Bool} {text rest : Text} (htext : ∀ c ∈ text, p c)
    (hrest : ∀ c ∈ rest.head?, p c = false) : (text ++ rest).takeWhile p = text := by
  rw [List.takeWhile_append_of_pos htext]
  cases rest with
  | nil => simp
  | cons c rest =>
    rw [List.takeWhile_cons_of_neg]
    . simp
    . simp [hrest c rfl]

theorem skipSpaces_append {gap rest : Text} (hne : gap ≠ []) (hgap : ∀ c ∈ gap, isSpace c)
    (hrest : ∀ c ∈ rest.head?, isSpace c = false) : skipSpaces (gap ++ rest) = some rest := by
  obtain ⟨c, gap, rfl⟩ := List.exists_cons_of_ne_nil hne
  unfold skipSpaces
  simp only [List.cons_append]
  rw [if_pos (hgap c List.mem_cons_self)]
  rw [dropWhile_append_of_all (fun d hd => hgap d (List.mem_cons_of_mem c hd)) hrest]

theorem matchParams_append {params rest : Text} (h : ')' ∉ params)
    : matchParams ('(' :: (params ++ ')' :: rest)) = some rest := by
  have hdrop : (params ++ ')' :: rest).dropWhile (· ≠ ')') = ')' :: rest := by
    apply dropWhile_append_of_all
    . intro c hc
      simp only [decide_eq_true_eq]
      rintro rfl
      exact h hc
    . simp
  simp only [matchParams, hdrop]

theorem isIdentChar_not_space {c : Char} (h : isIdentChar c) : isSpace c = false := by
  by_contra hspace
  rw [Bool.not_eq_false] at hspace
  unfold isSpace at hspace
  simp only [Bool.or_eq_true, decide_eq_true_eq] at hspace
  obtain ((((rfl | rfl) | rfl) | rfl) | rfl) | rfl := hspace <;> cases h

theorem head?_space_or_paren {blanks : Text} (hblanks : ∀ c ∈ blanks, isSpace c) (rest : Text)
    : ∀ c ∈ (blanks ++ '(' :: rest).head?, isIdentChar c = false := by
  cases blanks with
  | nil =>
    intro c hc
    cases hc
    rfl
  | cons b blanks =>
    intro c hc
    cases hc
    by_contra hident
    rw [Bool.not_eq_false] at hident
    have hspace := isIdentChar_not_space hident
    rw [hblanks b List.mem_cons_self] at hspace
    cases hspace

variable {kernel : Text}

theorem matchDecl_append (d : EntryDecl kernel) (rest : Text)
    : matchDecl (".entry".toList ++ (d.gap ++ (kernel ++ (d.blanks ++
          '(' :: (d.params ++ ')' :: rest)))))
        =
      some (kernel, rest) := by
  have hname : ∀ c ∈ (kernel ++ (d.blanks ++ '(' :: (d.params ++ ')' :: rest))).head?,
      isSpace c = false := by
    intro c hc
    apply isIdentChar_not_space
    apply d.name
    rw [List.head?_append_of_ne_nil kernel d.name_ne] at hc
    exact List.mem_of_mem_head? hc
  have hblanks := head?_space_or_paren d.blanks_spaces (d.params ++ ')' :: rest)
  have hparen : ∀ c ∈ ('(' :: (d.params ++ ')' :: rest)).head?, isSpace c = false := by
    intro c hc
    cases hc
    rfl
  unfold matchDecl
  rw [isPrefixOf?_append]
  simp only [Option.bind_eq_bind, Option.bind_some]
  rw [skipSpaces_append d.gap_ne d.gap_spaces hname]
  simp only [Option.bind_some]
  rw [takeWhile_append_of_all d.name hblanks]
  rw [if_neg d.name_ne]
  rw [dropWhile_append_of_all d.name hblanks]
  rw [dropWhile_append_of_all d.blanks_spaces hparen]
  rw [matchParams_append d.params_closed]
  rfl

theorem matchEntry_append (d : EntryDecl kernel) (rest : Text)
    : matchEntry (d.text ++ rest) = some (kernel, d.attrs ++ rest) := by
  have hdecl := matchDecl_append d (d.attrs ++ rest)
  unfold matchEntry EntryDecl.text
  obtain hvisible | ⟨gap, hne, hgap, hvisible⟩ := d.visible_eq
  . rw [hvisible]
    simp only [List.nil_append, List.append_assoc, List.cons_append]
    exact hdecl
  . rw [hvisible]
    simp only [List.append_assoc, List.cons_append]
    rw [isPrefixOf?_append]
    simp only
    rw [skipSpaces_append hne hgap]
    . exact hdecl
    . intro c hc
      cases hc
      rfl

end Patterns

section Search

variable {kernel : Text}

theorem kernelBegin_append {tail rest : Text} (htail : matchEntry tail = some (kernel, rest))
    {pre : Text} {skip : ℕ} (hskip : skip ≤ pre.length)
    (hfirst : ∀ k < pre.length, ∀ found ∈ matchEntry ((pre ++ tail).drop k),
      found.1 ≠ kernel ∧ tail.length ≤ found.2.length)
    : kernelBegin kernel skip (pre ++ tail) = some pre.length := by
  induction pre generalizing skip with
  | nil =>
    obtain rfl : skip = 0 := Nat.le_zero.mp hskip
    cases tail with
    | nil => cases htail
    | cons c tail =>
      rw [List.nil_append]
      unfold kernelBegin
      simp only [htail]
      rfl
  | cons c pre ih =>
    have hnext : ∀ k < pre.length, ∀ found ∈ matchEntry ((pre ++ tail).drop k),
        found.1 ≠ kernel ∧ tail.length ≤ found.2.length := by
      intro k hk
      apply hfirst (k + 1)
      rw [List.length_cons]
      omega
    rw [List.cons_append]
    cases skip with
    | succ skip =>
      rw [List.length_cons] at hskip
      unfold kernelBegin
      rw [ih (by omega) hnext]
      rfl
    | zero =>
      unfold kernelBegin
      split
      next =>
        rw [ih (Nat.zero_le _) hnext]
        rfl
      next name suffix hmatch =>
        obtain ⟨hname, hlength⟩ := hfirst 0 (by simp) (name, suffix) hmatch
        rw [if_neg hname]
        rw [ih _ hnext]
        . rfl
        . simp only at hlength
          rw [List.length_append]
          omega

theorem bodyLength_brace (depth : ℕ) (rest : Text)
    : bodyLength depth ('{' :: rest) = (bodyLength (depth + 1) rest).map (· + 1) := by
  rw [bodyLength.eq_def]
  simp

theorem bodyLength_other {c : Char} (hopen : c ≠ '{') (hclose : c ≠ '}') (depth : ℕ) (rest : Text)
    : bodyLength depth (c :: rest) = (bodyLength depth rest).map (· + 1) := by
  rw [bodyLength.eq_def]
  simp only [if_neg hopen, if_neg hclose]

theorem bodyLength_open {text : Text} (h : ∀ c ∈ text, c ≠ '{' ∧ c ≠ '}') (depth : ℕ) (rest : Text)
    : bodyLength depth (text ++ rest) = (bodyLength depth rest).map (· + text.length) := by
  induction text with
  | nil => simp
  | cons c text ih =>
    have hc := h c List.mem_cons_self
    rw [List.cons_append]
    rw [bodyLength_other hc.1 hc.2]
    rw [ih (fun d hd => h d (List.mem_cons_of_mem c hd))]
    rw [Option.map_map]
    rfl

theorem bodyLength_balanced {body : Text} (depth : ℕ) (rest : Text)
    (hbalanced : ∀ k ≤ body.length, (body.take k).count '}' ≤ depth + (body.take k).count '{')
    (hclosed : body.count '}' = depth + body.count '{')
    : bodyLength (depth + 1) (body ++ '}' :: rest) = some (body.length + 1) := by
  induction body generalizing depth with
  | nil =>
    obtain rfl : depth = 0 := by simpa using hclosed.symm
    rfl
  | cons c body ih =>
    have hstep : ∀ k ≤ body.length, ((c :: body).take (k + 1)).count '}'
        ≤ depth + ((c :: body).take (k + 1)).count '{' := by
      intro k hk
      apply hbalanced
      rw [List.length_cons]
      omega
    simp only [List.take_succ_cons] at hstep
    rw [List.cons_append]
    by_cases hopen : c = '{'
    . subst hopen
      simp only [List.count_cons_self, List.count_cons_of_ne (show '{' ≠ '}' by decide)]
        at hstep hclosed
      rw [bodyLength_brace]
      rw [ih (depth + 1)]
      . rfl
      . intro k hk
        have := hstep k hk
        omega
      . omega
    . by_cases hclose : c = '}'
      . subst hclose
        simp only [List.count_cons_self, List.count_cons_of_ne (show '}' ≠ '{' by decide)]
          at hstep hclosed
        have hdepth := hstep 0 (Nat.zero_le _)
        obtain ⟨depth, rfl⟩ : ∃ d, depth = d + 1 := by
          apply Nat.exists_eq_succ_of_ne_zero
          rintro rfl
          simp at hdepth
        rw [bodyLength.eq_def]
        simp only [if_neg hopen, if_pos]
        rw [ih depth]
        . rfl
        . intro k hk
          have := hstep k hk
          omega
        . omega
      . simp only [List.count_cons_of_ne hopen, List.count_cons_of_ne hclose] at hstep hclosed
        rw [bodyLength_other hopen hclose]
        rw [ih depth hstep hclosed]
        rfl

end Search

theorem not_brace_of_isSpace {c : Char} (h : isSpace c) : c ≠ '{' ∧ c ≠ '}' := by
  constructor <;> (rintro rfl; cases h)

theorem not_brace_of_isIdentChar {c : Char} (h : isIdentChar c) : c ≠ '{' ∧ c ≠ '}' := by
  constructor <;> (rintro rfl; cases h)

theorem EntryDecl.not_brace {kernel : Text} (d : EntryDecl kernel)
    : ∀ c ∈ d.text, c ≠ '{' ∧ c ≠ '}' := by
  have hvisible : ∀ c ∈ d.visible, c ≠ '{' ∧ c ≠ '}' := by
    obtain hvisible | ⟨gap, _, hgap, hvisible⟩ := d.visible_eq
    . simp [hvisible]
    . rw [hvisible]
      intro c hc
      obtain hc | hc := List.mem_append.mp hc
      . exact ⟨ne_of_mem_of_not_mem hc (by decide), ne_of_mem_of_not_mem hc (by decide)⟩
      . exact not_brace_of_isSpace (hgap c hc)
  intro c hc
  unfold EntryDecl.text at hc
  simp only [List.mem_append, List.mem_cons] at hc
  obtain hc | hc | hc | hc | hc | rfl | hc | rfl | hc := hc
  . exact hvisible c hc
  . exact ⟨ne_of_mem_of_not_mem hc (by decide), ne_of_mem_of_not_mem hc (by decide)⟩
  . exact not_brace_of_isSpace (d.gap_spaces c hc)
  . exact not_brace_of_isIdentChar (d.name c hc)
  . exact not_brace_of_isSpace (d.blanks_spaces c hc)
  . decide
  . exact d.params_open c hc
  . decide
  . exact d.attrs_open c hc

theorem Module.findKernelBody_eq {kernel : Text} (m : Module kernel)
    : findKernelBody m.ptx kernel = .ok (some (m.pre.length, m.pre.length + m.sect.length)) := by
  have hbegin : kernelBegin kernel 0 m.ptx = some m.pre.length := by
    have hmatch := matchEntry_append m.decl ('{' :: (m.body ++ ['}']) ++ m.post)
    rw [← List.append_assoc] at hmatch
    exact kernelBegin_append hmatch (Nat.zero_le _) m.first
  have hlength : bodyLength 0 (m.ptx.drop m.pre.length) = some m.sect.length := by
    unfold Module.ptx Module.sect EntryDecl.sect
    rw [List.drop_left]
    rw [List.append_assoc]
    rw [bodyLength_open m.decl.not_brace]
    simp only [List.cons_append, List.append_assoc, List.nil_append]
    rw [bodyLength_brace]
    rw [bodyLength_balanced 0 m.post (by simpa using m.balanced) (by simpa using m.closed)]
    simp only [Option.map_some, List.length_append, List.length_cons, List.length_nil]
    congr 1
    omega
  unfold findKernelBody
  simp only [hbegin, hlength]

end Bpftime.Ptx
