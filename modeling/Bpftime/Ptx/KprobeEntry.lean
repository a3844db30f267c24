import Mathlib.Data.List.TakeWhile
import Bpftime.Ptx.KernelBody

/-!
This module contains the kprobe entry pass, which puts a call of the probe behind the opening brace
of a kernel, and for which modules the pass and `find_kernel_body` take the declaration of the
kernel for what it is.
-/

namespace Bpftime.Ptx.KprobeEntry

def probeName (kernel : Text) : Text := "__probe_func__".toList ++ kernel

def callText (fname : Text) : Text := "\n    call ".toList ++ fname ++ ";\n".toList

def findChar (c : Char) (text : Text) (pos : ℕ) : Option ℕ :=
  ((text.drop pos).idxOf? c).map (pos + ·)

def patchEntry (compile : List UInt64 → Text → Text → Bool → Bool → Option Text)
    (ptx kernel : Text) (ebpfWords : List UInt64) : Except PatchError (Text × Bool) :=
  if ebpfWords = [] then
    .ok (ptx, false)
  else do
    let fname := probeName kernel
    let funcPtx ← match compile ebpfWords "sm_60".toList fname true false with
      | some text => .ok text
      | none => .error .noPtx
    match ← findKernelBody ptx kernel with
    | none => return (ptx, false)
    | some (first, _) =>
      match findChar '{' ptx first with
      | none => return (ptx, false)
      | some brace =>
        let insertPos := brace + 1
        let insertPos := if ptx[insertPos]? = some '\n' then insertPos + 1 else insertPos
        let out := ptx.take insertPos ++ callText fname ++ ptx.drop insertPos
        return (funcPtx ++ "\n".toList ++ out, true)

section Declarations

def lex (text : Text) : Lexer × List Token := Transducer.run lexChar ⟨.code, []⟩ text

structure DeclaredAt (kernel ptx : Text) (k : ℕ) : Prop where
  between : (lex (ptx.take k)).1 = ⟨.code, []⟩
  dot : (ptx.drop k).head? = some '.'
  word : ∀ c ∈ kernel, isWordChar c
  tokens : [".entry".toList, kernel] <+: (lex (ptx.drop k)).2
    ∨ [".visible".toList, ".entry".toList, kernel] <+: (lex (ptx.drop k)).2

instance (kernel ptx : Text) (k : ℕ) : Decidable (DeclaredAt kernel ptx k) :=
  decidable_of_iff
    (((lex (ptx.take k)).1 = ⟨.code, []⟩ ∧ (ptx.drop k).head? = some '.')
      ∧ kernel.all isWordChar
      ∧ ([".entry".toList, kernel] <+: (lex (ptx.drop k)).2
        ∨ [".visible".toList, ".entry".toList, kernel] <+: (lex (ptx.drop k)).2))
    ⟨fun h => ⟨h.1.1, h.1.2, List.all_eq_true.mp h.2.1, h.2.2⟩,
      fun h => ⟨⟨h.between, h.dot⟩, List.all_eq_true.mpr h.word, h.tokens⟩⟩

def declText (header body post : Text) : Text := header ++ '{' :: (body ++ '}' :: post)

structure Declared (kernel : Text) where
  pre : Text
  header : Text
  body : Text
  post : Text
  declared : DeclaredAt kernel (pre ++ declText header body post) pre.length
  first : ∀ k < pre.length, ¬ DeclaredAt kernel (pre ++ declText header body post) k
  /-- Braces in the comments of the declaration are no tokens. -/
  header_tokens : ∀ t ∈ (lex header).2, t ≠ ['{'] ∧ t ≠ ['}']
  brace_token : ['{'] ∈ (lexChar (lex header).1 '{').2
  balanced : ∀ k ≤ body.length, (body.take k).count '}' ≤ (body.take k).count '{'
  closed : body.count '}' = body.count '{'

end Declarations

namespace Declared

variable {kernel : Text}

def ptx (d : Declared kernel) : Text := d.pre ++ declText d.header d.body d.post

def last (d : Declared kernel) : ℕ := d.pre.length + (d.header.length + (d.body.length + 2))

def patchedBody (kernel rest : Text) : Text :=
  match rest with
  | '\n' :: rest => '\n' :: (callText (probeName kernel) ++ rest)
  | rest => callText (probeName kernel) ++ rest

def patched (d : Declared kernel) : Text :=
  d.pre ++ (d.header ++ '{' :: patchedBody kernel (d.body ++ '}' :: d.post))

/-- The kernel is found, and the call is put behind its brace. -/
def Handled (d : Declared kernel) : Prop :=
  findKernelBody d.ptx kernel = .ok (some (d.pre.length, d.last))
    ∧ ∀ (compile : List UInt64 → Text → Text → Bool → Bool → Option Text)
        (ebpfWords : List UInt64) (funcPtx : Text),
      ebpfWords ≠ []
        → compile ebpfWords "sm_60".toList (probeName kernel) true false = some funcPtx
        → patchEntry compile d.ptx kernel ebpfWords
            = .ok (funcPtx ++ "\n".toList ++ d.patched, true)

end Declared

def nameAt (ptx : Text) (k : ℕ) : Option Text := (matchEntry (ptx.drop k)).map Prod.fst

def Tried (ptx : Text) (k : ℕ) : Prop :=
  ∀ m < k, (nameAt ptx m).isSome → ')' ∈ (ptx.drop m).take (k - m)

instance (ptx : Text) (k : ℕ) : Decidable (Tried ptx k) := by
  unfold Tried
  infer_instance

/-- The first match of the pattern is the declaration. -/
structure Declared.Recognised {kernel : Text} (d : Declared kernel) : Prop where
  named : nameAt d.ptx d.pre.length = some kernel
  tried : Tried d.ptx d.pre.length
  earlier : ∀ k < d.pre.length, Tried d.ptx k → nameAt d.ptx k ≠ some kernel
  no_brace : ∀ c ∈ d.header, c ≠ '{' ∧ c ≠ '}'

section Pattern

theorem exists_spaces_of_skipSpaces {text rest : Text} (h : skipSpaces text = some rest)
    : ∃ gap, text = gap ++ rest ∧ ∀ c ∈ gap, isSpace c := by
  unfold skipSpaces at h
  split at h
  next c text =>
    split at h
    next hc =>
      cases h
      refine ⟨c :: text.takeWhile isSpace, ?_, ?_⟩
      . simp
      . intro d hd
        obtain rfl | hd := List.mem_cons.mp hd
        . exact hc
        . exact List.mem_takeWhile_imp hd
    next => cases h
  next => cases h

theorem exists_params_of_matchParams {text rest : Text} (h : matchParams text = some rest)
    : ∃ params, text = '(' :: (params ++ ')' :: rest) ∧ ')' ∉ params := by
  unfold matchParams at h
  split at h
  next text =>
    split at h
    next => cases h
    next c suffix hdrop =>
      cases h
      obtain rfl : c = ')' := by
        have hhead := List.head?_dropWhile_not (· ≠ ')') text
        rw [hdrop] at hhead
        simpa using hhead
      refine ⟨text.takeWhile (· ≠ ')'), ?_, ?_⟩
      . rw [← hdrop]
        rw [List.takeWhile_append_dropWhile]
      . intro hmem
        have hne := List.mem_takeWhile_imp hmem
        simp at hne
  next => cases h

theorem not_paren_of_isSpace {c : Char} (h : isSpace c) : c ≠ ')' := by
  rintro rfl
  cases h

theorem not_paren_of_isIdentChar {c : Char} (h : isIdentChar c) : c ≠ ')' := by
  rintro rfl
  cases h

theorem exists_of_matchDecl {text name rest : Text} (h : matchDecl text = some (name, rest))
    : (∀ c ∈ name, isIdentChar c) ∧ ∃ u, text = '.' :: (u ++ ')' :: rest) ∧ ')' ∉ u := by
  unfold matchDecl at h
  simp only [Option.bind_eq_bind, Option.bind_eq_some_iff] at h
  obtain ⟨afterEntry, hentry, afterGap, hgap, h⟩ := h
  split at h
  next => cases h
  next hname =>
    obtain ⟨suffix, hparams, h⟩ := Option.bind_eq_some_iff.mp h
    cases h
    obtain ⟨gap, rfl, hspaces⟩ := exists_spaces_of_skipSpaces hgap
    obtain ⟨params, hrest, hclosed⟩ := exists_params_of_matchParams hparams
    have hident : ∀ c ∈ afterGap.takeWhile isIdentChar, isIdentChar c := by
      intro c hc
      exact List.mem_takeWhile_imp hc
    refine ⟨hident, "entry".toList ++ (gap ++ (afterGap.takeWhile isIdentChar
      ++ ((afterGap.dropWhile isIdentChar).takeWhile isSpace ++ '(' :: params))), ?_, ?_⟩
    . have htext := List.append_eq_of_isPrefixOf?_eq_some hentry
      have hsplit : afterGap = afterGap.takeWhile isIdentChar
          ++ ((afterGap.dropWhile isIdentChar).takeWhile isSpace
            ++ '(' :: (params ++ ')' :: rest)) := by
        rw [← hrest]
        rw [List.takeWhile_append_dropWhile]
        rw [List.takeWhile_append_dropWhile]
      rw [← htext]
      simp only [List.append_assoc, List.cons_append]
      rw [← hsplit]
      rfl
    . intro hmem
      simp only [List.mem_append, List.mem_cons] at hmem
      obtain hmem | hmem | hmem | hmem | hmem | hmem := hmem
      . exact absurd hmem (by decide)
      . exact not_paren_of_isSpace (hspaces _ hmem) rfl
      . exact not_paren_of_isIdentChar (hident _ hmem) rfl
      . exact not_paren_of_isSpace (List.mem_takeWhile_imp hmem) rfl
      . cases hmem
      . exact hclosed hmem

theorem exists_of_matchEntry {text name rest : Text} (h : matchEntry text = some (name, rest))
    : (∀ c ∈ name, isIdentChar c) ∧ ∃ u, text = '.' :: (u ++ ')' :: rest) ∧ ')' ∉ u := by
  unfold matchEntry at h
  split at h
  next afterVisible hvisible =>
    obtain ⟨afterGap, hgap, hdecl⟩ := Option.bind_eq_some_iff.mp h
    obtain ⟨gap, rfl, hspaces⟩ := exists_spaces_of_skipSpaces hgap
    obtain ⟨hname, u, rfl, hu⟩ := exists_of_matchDecl hdecl
    refine ⟨hname, "visible".toList ++ (gap ++ '.' :: u), ?_, ?_⟩
    . rw [← List.append_eq_of_isPrefixOf?_eq_some hvisible]
      simp
    . intro hmem
      simp only [List.mem_append, List.mem_cons] at hmem
      obtain hmem | hmem | hmem | hmem := hmem
      . exact absurd hmem (by decide)
      . exact not_paren_of_isSpace (hspaces _ hmem) rfl
      . cases hmem
      . exact hu hmem
  next => exact exists_of_matchDecl h

end Pattern

section Search

theorem tried_zero (text : Text) : Tried text 0 := by
  intro m hm
  cases hm

theorem tried_cons_iff (c : Char) (text : Text) (k : ℕ) : Tried (c :: text) (k + 1)
        ↔
      ((nameAt (c :: text) 0).isSome → ')' ∈ (c :: text).take (k + 1)) ∧ Tried text k := by
  constructor
  . intro h
    refine ⟨h 0 (Nat.succ_pos k), ?_⟩
    intro m hm hname
    have hmem := h (m + 1) (by omega) hname
    rw [Nat.add_sub_add_right] at hmem
    exact hmem
  . rintro ⟨hzero, hrest⟩ m hm hname
    cases m with
    | zero => exact hzero hname
    | succ m =>
      rw [Nat.add_sub_add_right]
      exact hrest m (by omega) hname

theorem paren_mem_take_iff {u : Text} (hu : ')' ∉ u) (rest : Text) (k : ℕ)
    : ')' ∈ (u ++ ')' :: rest).take k ↔ u.length < k := by
  induction u generalizing k with
  | nil => cases k <;> simp
  | cons c u ih =>
    rw [List.mem_cons, not_or] at hu
    cases k with
    | zero => simp
    | succ k =>
      rw [List.cons_append]
      rw [List.take_succ_cons]
      rw [List.mem_cons]
      rw [ih hu.2]
      rw [List.length_cons]
      simp [hu.1]

def Within (skip : ℕ) (text : Text) : Prop :=
  skip = 0 ∨ ∃ u rest, text = u ++ ')' :: rest ∧ ')' ∉ u ∧ skip = u.length + 1

variable {skip : ℕ} {text : Text}

theorem Within.tail {c : Char} (h : Within (skip + 1) (c :: text)) : Within skip text := by
  obtain h | ⟨u, rest, htext, hu, hskip⟩ := h
  . cases h
  . cases u with
    | nil =>
      left
      simpa using hskip
    | cons d u =>
      right
      rw [List.mem_cons, not_or] at hu
      exact ⟨u, rest, (List.cons.inj htext).2, hu.2, by simpa using hskip⟩

theorem Within.paren_mem (h : Within (skip + 1) text) {k : ℕ}
    (hk : skip + 1 ≤ k) : ')' ∈ text.take k := by
  obtain h | ⟨u, rest, rfl, hu, hskip⟩ := h
  . cases h
  . rw [paren_mem_take_iff hu]
    omega

structure FoundAt (kernel : Text) (skip : ℕ) (text : Text) (p : ℕ) : Prop where
  skip_le : skip ≤ p
  named : nameAt text p = some kernel
  tried : Tried text p
  earlier : ∀ k < p, skip ≤ k → Tried text k → nameAt text k ≠ some kernel

variable {kernel : Text}

theorem foundAt_cons_iff {next : ℕ} {c : Char} {p : ℕ}
    (hzero : skip = 0 → nameAt (c :: text) 0 ≠ some kernel)
    (hnext : ∀ k, skip ≤ k + 1 ∧ Tried (c :: text) (k + 1) ↔ next ≤ k ∧ Tried text k)
    : FoundAt kernel skip (c :: text) (p + 1) ↔ FoundAt kernel next text p := by
  constructor
  . intro h
    obtain ⟨hle, htried⟩ := (hnext p).mp ⟨h.skip_le, h.tried⟩
    refine ⟨hle, h.named, htried, ?_⟩
    intro k hk hnextk htriedk
    obtain ⟨hskip, htriedk⟩ := (hnext k).mpr ⟨hnextk, htriedk⟩
    exact h.earlier (k + 1) (by omega) hskip htriedk
  . intro h
    obtain ⟨hle, htried⟩ := (hnext p).mpr ⟨h.skip_le, h.tried⟩
    refine ⟨hle, h.named, htried, ?_⟩
    intro k hk hskip htriedk
    cases k with
    | zero => exact hzero (Nat.le_zero.mp hskip)
    | succ k =>
      obtain ⟨hnextk, htriedk⟩ := (hnext k).mp ⟨hskip, htriedk⟩
      exact h.earlier k (by omega) hnextk htriedk

theorem not_foundAt_zero
    (h : skip = 0 → nameAt text 0 ≠ some kernel) : ¬ FoundAt kernel skip text 0 := by
  intro hfound
  exact h (Nat.le_zero.mp hfound.skip_le) hfound.named

theorem map_succ_eq_some_iff {found : Option ℕ} {P Q : ℕ → Prop} (hzero : ¬ P 0)
    (hsucc : ∀ p, P (p + 1) ↔ Q p) (hfound : ∀ p, found = some p ↔ Q p) (p : ℕ)
    : found.map (· + 1) = some p ↔ P p := by
  cases p with
  | zero => simp [hzero]
  | succ p =>
    rw [hsucc]
    rw [← hfound]
    simp

theorem kernelBegin_eq_some_iff (hskip : Within skip text) (p : ℕ)
    : kernelBegin kernel skip text = some p ↔ FoundAt kernel skip text p := by
  induction text generalizing skip p with
  | nil =>
    constructor
    . intro h
      cases skip <;> cases h
    . intro h
      have hnamed := h.named
      rw [nameAt, List.drop_nil] at hnamed
      cases hnamed
  | cons c text ih =>
    cases skip with
    | succ skip =>
      -- inside a match nothing is tried, and the parenthesis of the match lies ahead
      have hzero : skip + 1 = 0 → nameAt (c :: text) 0 ≠ some kernel := by
        intro h
        cases h
      have hnext : ∀ k, skip + 1 ≤ k + 1 ∧ Tried (c :: text) (k + 1)
          ↔ skip ≤ k ∧ Tried text k := by
        intro k
        rw [tried_cons_iff]
        rw [Nat.add_le_add_iff_right]
        constructor
        . rintro ⟨hle, _, htried⟩
          exact ⟨hle, htried⟩
        . rintro ⟨hle, htried⟩
          exact ⟨hle, fun _ => hskip.paren_mem (by omega), htried⟩
      rw [kernelBegin]
      exact map_succ_eq_some_iff (not_foundAt_zero hzero)
        (fun p => foundAt_cons_iff hzero hnext) (fun p => ih hskip.tail p) p
    | zero =>
      cases hmatch : matchEntry (c :: text) with
      | none =>
        have hnone : nameAt (c :: text) 0 = none := by
          simp [nameAt, hmatch]
        have hzero : 0 = 0 → nameAt (c :: text) 0 ≠ some kernel := by
          intro _ h
          rw [hnone] at h
          cases h
        have hnext : ∀ k, 0 ≤ k + 1 ∧ Tried (c :: text) (k + 1) ↔ 0 ≤ k ∧ Tried text k := by
          intro k
          rw [tried_cons_iff]
          simp [hnone]
        rw [kernelBegin]
        simp only [hmatch]
        exact map_succ_eq_some_iff (not_foundAt_zero hzero)
          (fun p => foundAt_cons_iff hzero hnext) (fun p => ih (.inl rfl) p) p
      | some found =>
        obtain ⟨name, suffix⟩ := found
        have hsome : nameAt (c :: text) 0 = some name := by
          simp [nameAt, hmatch]
        rw [kernelBegin]
        simp only [hmatch]
        split
        next hname =>
          subst hname
          constructor
          . intro h
            cases h
            exact ⟨Nat.zero_le 0, hsome, tried_zero _, fun k hk => absurd hk (Nat.not_lt_zero k)⟩
          . intro h
            cases p with
            | zero => rfl
            | succ p =>
              exact absurd hsome (h.earlier 0 (Nat.succ_pos p) (Nat.zero_le 0) (tried_zero _))
        next hname =>
          obtain ⟨_, u, htext, hu⟩ := exists_of_matchEntry hmatch
          obtain ⟨rfl, rfl⟩ := List.cons.inj htext
          have hlength : (u ++ ')' :: suffix).length - suffix.length = u.length + 1 := by
            rw [List.length_append, List.length_cons]
            omega
          have hzero : 0 = 0 → nameAt ('.' :: (u ++ ')' :: suffix)) 0 ≠ some kernel := by
            intro _ h
            rw [hsome] at h
            exact hname (Option.some.inj h)
          have hnext : ∀ k, 0 ≤ k + 1 ∧ Tried ('.' :: (u ++ ')' :: suffix)) (k + 1)
              ↔ u.length + 1 ≤ k ∧ Tried (u ++ ')' :: suffix) k := by
            intro k
            rw [tried_cons_iff]
            rw [hsome]
            rw [List.take_succ_cons]
            rw [List.mem_cons]
            rw [paren_mem_take_iff hu]
            have hle : 0 ≤ k + 1 := Nat.zero_le _
            have hdot : ')' ≠ '.' := by decide
            simp only [hle, hdot, Option.isSome_some, true_implies, true_and, false_or]
            exact Iff.rfl
          rw [hlength]
          exact map_succ_eq_some_iff (not_foundAt_zero hzero)
            (fun p => foundAt_cons_iff hzero hnext)
            (fun p => ih (.inr ⟨u, suffix, rfl, hu, rfl⟩) p) p

theorem kernelBegin_zero_eq_some_iff (text : Text) (p : ℕ)
    : kernelBegin kernel 0 text = some p ↔ FoundAt kernel 0 text p :=
  kernelBegin_eq_some_iff (.inl rfl) p

end Search

section Pass

variable {kernel : Text}

theorem idxOf?_append_cons {c : Char} {text : Text} (h : c ∉ text) (rest : Text)
    : (text ++ c :: rest).idxOf? c = some text.length := by
  induction text with
  | nil => simp [List.idxOf?_cons]
  | cons d text ih =>
    rw [List.mem_cons, not_or] at h
    rw [List.cons_append]
    rw [List.idxOf?_cons]
    rw [ih h.2]
    simp [Ne.symm h.1]

theorem patchedBody_of_ne {rest : Text} (h : rest[0]? ≠ some '\n')
    : Declared.patchedBody kernel rest = callText (probeName kernel) ++ rest := by
  unfold Declared.patchedBody
  split
  next => exact absurd rfl h
  next => rfl

theorem patchEntry_eq {compile : List UInt64 → Text → Text → Bool → Bool → Option Text}
    {ebpfWords : List UInt64} {funcPtx pre header rest : Text} {last : ℕ}
    (hwords : ebpfWords ≠ [])
    (hcompile : compile ebpfWords "sm_60".toList (probeName kernel) true false = some funcPtx)
    (hfind : findKernelBody (pre ++ (header ++ '{' :: rest)) kernel = .ok (some (pre.length, last)))
    (hheader : '{' ∉ header)
    : patchEntry compile (pre ++ (header ++ '{' :: rest)) kernel ebpfWords
        =
      .ok (funcPtx ++ "\n".toList
        ++ (pre ++ (header ++ '{' :: Declared.patchedBody kernel rest)), true) := by
  have hbrace : findChar '{' (pre ++ (header ++ '{' :: rest)) pre.length
      = some (pre.length + header.length) := by
    unfold findChar
    rw [List.drop_left]
    rw [idxOf?_append_cons hheader]
    rfl
  have hopen : pre ++ (header ++ '{' :: rest) = (pre ++ (header ++ ['{'])) ++ rest := by simp
  have hlength : pre.length + header.length + 1 = (pre ++ (header ++ ['{'])).length := by
    simp only [List.length_append, List.length_cons, List.length_nil]
    omega
  unfold patchEntry
  rw [if_neg hwords]
  simp only [hcompile, hfind, hbrace, bind, Except.bind, pure, Except.pure]
  rw [hopen]
  rw [hlength]
  rw [List.getElem?_append_right (Nat.le_refl _)]
  rw [Nat.sub_self]
  by_cases hnewline : rest[0]? = some '\n'
  . obtain ⟨more, rfl⟩ : ∃ more, rest = '\n' :: more := by
      cases rest with
      | nil => cases hnewline
      | cons c rest =>
        cases hnewline
        exact ⟨rest, rfl⟩
    rw [if_pos hnewline]
    rw [List.take_length_add_append]
    rw [List.drop_length_add_append]
    simp [Declared.patchedBody]
  . rw [if_neg hnewline]
    rw [List.take_left]
    rw [List.drop_left]
    rw [patchedBody_of_ne hnewline]
    simp

theorem first_brace (text : Text) : (∀ c ∈ text, c ≠ '{' ∧ c ≠ '}')
        ∨
      ∃ u c v, text = u ++ c :: v ∧ (∀ d ∈ u, d ≠ '{' ∧ d ≠ '}') ∧ (c = '{' ∨ c = '}') := by
  induction text with
  | nil => simp
  | cons c text ih =>
    by_cases hc : c = '{' ∨ c = '}'
    . exact .inr ⟨[], c, text, rfl, by simp, hc⟩
    . rw [not_or] at hc
      obtain htext | ⟨u, d, v, rfl, hu, hd⟩ := ih
      . left
        intro d hd
        obtain rfl | hd := List.mem_cons.mp hd
        . exact hc
        . exact htext d hd
      . refine .inr ⟨c :: u, d, v, rfl, ?_, hd⟩
        intro e he
        obtain rfl | he := List.mem_cons.mp he
        . exact hc
        . exact hu e he

theorem brace_notMem_callText (hkernel : '{' ∉ kernel) : '{' ∉ callText (probeName kernel) := by
  unfold callText probeName
  simp only [List.mem_append, not_or]
  exact ⟨⟨by decide, by decide, hkernel⟩, by decide⟩

theorem idxOf_patchedBody (hkernel : '{' ∉ kernel) (rest : Text)
    : rest.idxOf '{' < (Declared.patchedBody kernel rest).idxOf '{' := by
  have hcall := brace_notMem_callText hkernel
  have hpos : 0 < (callText (probeName kernel)).length := by
    unfold callText
    rw [List.length_append]
    exact Nat.add_pos_right _ (by decide)
  unfold Declared.patchedBody
  split
  next rest =>
    have hne : '\n' ≠ '{' := by decide
    rw [List.idxOf_cons_ne _ hne]
    rw [List.idxOf_cons_ne _ hne]
    rw [List.idxOf_append_of_notMem hcall]
    omega
  next =>
    rw [List.idxOf_append_of_notMem hcall]
    omega

end Pass

namespace Declared

variable {kernel : Text} {d : Declared kernel}

theorem Recognised.findKernelBody_eq (h : d.Recognised)
    : findKernelBody d.ptx kernel = .ok (some (d.pre.length, d.last)) := by
  have hbegin : kernelBegin kernel 0 d.ptx = some d.pre.length := by
    rw [kernelBegin_zero_eq_some_iff]
    exact ⟨Nat.zero_le _, h.named, h.tried, fun k hk _ => h.earlier k hk⟩
  have hlength : bodyLength 0 (d.ptx.drop d.pre.length)
      = some (d.header.length + (d.body.length + 2)) := by
    unfold ptx declText
    rw [List.drop_left]
    rw [bodyLength_open h.no_brace]
    rw [bodyLength_brace]
    rw [bodyLength_balanced 0 d.post (by simpa using d.balanced) (by simpa using d.closed)]
    simp only [Option.map_some]
    congr 1
    omega
  unfold findKernelBody
  simp only [hbegin, hlength]
  rfl

theorem Recognised.handled (h : d.Recognised) : d.Handled := by
  refine ⟨h.findKernelBody_eq, ?_⟩
  intro compile ebpfWords funcPtx hwords hcompile
  apply patchEntry_eq hwords hcompile h.findKernelBody_eq
  intro hbrace
  exact (h.no_brace _ hbrace).1 rfl

theorem Handled.foundAt (h : d.Handled) : FoundAt kernel 0 d.ptx d.pre.length := by
  have hfind := h.1
  unfold findKernelBody at hfind
  split at hfind
  next => cases hfind
  next first hbegin =>
    split at hfind
    next => cases hfind
    next =>
      simp only [Except.ok.injEq, Option.some.injEq, Prod.mk.injEq] at hfind
      rw [← hfind.1]
      exact (kernelBegin_zero_eq_some_iff _ _).mp hbegin

theorem Handled.brace_notMem (h : d.Handled) : '{' ∉ kernel := by
  intro hmem
  obtain ⟨found, hmatch, hname⟩ := Option.map_eq_some_iff.mp h.foundAt.named
  obtain ⟨hident, _⟩ := exists_of_matchEntry hmatch
  rw [hname] at hident
  exact (not_brace_of_isIdentChar (hident _ hmem)).1 rfl

theorem Handled.ne_close (h : d.Handled) {u v : Text} (hu : ∀ c ∈ u, c ≠ '{' ∧ c ≠ '}')
    : d.header ≠ u ++ '}' :: v := by
  intro hheader
  have hbegin := (kernelBegin_zero_eq_some_iff _ _).mpr h.foundAt
  have hlength : bodyLength 0 (d.ptx.drop d.pre.length) = none := by
    unfold ptx declText
    rw [List.drop_left]
    rw [hheader]
    rw [List.append_assoc]
    rw [bodyLength_open hu]
    rfl
  have hfind := h.1
  unfold findKernelBody at hfind
  simp only [hbegin, hlength] at hfind
  cases hfind

theorem Handled.ne_open (h : d.Handled) {u v : Text} (hu : ∀ c ∈ u, c ≠ '{' ∧ c ≠ '}')
    : d.header ≠ u ++ '{' :: v := by
  intro hheader
  have hptx : d.ptx = d.pre ++ (u ++ '{' :: (v ++ '{' :: (d.body ++ '}' :: d.post))) := by
    unfold ptx declText
    rw [hheader]
    simp
  have hpatch := h.2 (fun _ _ _ _ _ => some []) [0] [] (by simp) rfl
  have hfind := h.1
  rw [hptx] at hpatch hfind
  rw [patchEntry_eq (by simp) rfl hfind (fun hmem => (hu _ hmem).1 rfl)] at hpatch
  have htext := congrArg Prod.fst (Except.ok.inj hpatch)
  simp only [patched, hheader, List.append_assoc, List.cons_append, List.append_cancel_left_eq,
    List.cons.injEq, true_and] at htext
  have hlt := idxOf_patchedBody h.brace_notMem (v ++ '{' :: (d.body ++ '}' :: d.post))
  rw [htext] at hlt
  have hfirst (rest : Text) : (v ++ '{' :: rest).idxOf '{' = (v ++ ['{']).idxOf '{' := by
    rw [List.append_cons]
    rw [List.idxOf_append_of_mem (by simp)]
  rw [hfirst (d.body ++ '}' :: d.post)] at hlt
  rw [hfirst (patchedBody kernel (d.body ++ '}' :: d.post))] at hlt
  exact Nat.lt_irrefl _ hlt

theorem handled_iff_recognised (d : Declared kernel) : d.Handled ↔ d.Recognised := by
  constructor
  . intro h
    have hfound := h.foundAt
    refine ⟨hfound.named, hfound.tried, fun k hk => hfound.earlier k hk (Nat.zero_le k), ?_⟩
    obtain hplain | ⟨u, c, v, hheader, hu, rfl | rfl⟩ := first_brace d.header
    . exact hplain
    . exact absurd hheader (h.ne_open hu)
    . exact absurd hheader (h.ne_close hu)
  . exact Recognised.handled

def commented : Declared ['k'] where
  pre := []
  header := ".visible .entry k(.param .u64 p /* \x7bx\x7d */)\n".toList
  body := "\n\tret;\n".toList
  post := "\n".toList
  declared := by decide
  first := by simp
  header_tokens := by decide
  brace_token := by decide
  balanced := by decide
  closed := by decide

theorem not_handled_commented : ¬ commented.Handled := by
  intro h
  have hfind : findKernelBody commented.ptx ['k'] = .ok (some (0, 38)) := by decide
  have hrange := h.1
  rw [hfind] at hrange
  exact absurd hrange (by decide)

end Declared

end Bpftime.Ptx.KprobeEntry
