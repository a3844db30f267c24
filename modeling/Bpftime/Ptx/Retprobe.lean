import Bpftime.Ptx.KernelBody

/-!
This module contains the kretprobe pass, and when its text search finds the returns.
-/

namespace Bpftime.Ptx.Retprobe

open Instrumented

def retText : Text := "ret;".toList

def callText (fname : Text) : Text := "call ".toList ++ fname ++ ";\n".toList

def replaceRet (fname : Text) : ℕ → Text → Text → Text
  | _, blanks, [] => blanks
  | skip + 1, _, c :: rest => c :: replaceRet fname skip [] rest
  | 0, blanks, c :: rest =>
    if retText.isPrefixOf (c :: rest) then
      blanks ++ callText fname ++ blanks ++ c :: replaceRet fname 3 [] rest
    else if isSpace c then
      replaceRet fname 0 (blanks ++ [c]) rest
    else
      blanks ++ c :: replaceRet fname 0 [] rest

def probeName (kernel : Text) : Text := "__retprobe_func__".toList ++ kernel

def patchRetprobe (compile : List UInt64 → Text → Text → Bool → Bool → Option Text)
    (ptx kernel : Text) (ebpfWords : List UInt64) : Except PatchError (Text × Bool) := do
  let fname := probeName kernel
  let funcPtx ← match compile ebpfWords "sm_60".toList fname true false with
    | some text => .ok text
    | none => .error .noPtx
  match ← findKernelBody ptx kernel with
  | none => return (ptx, false)
  | some (first, last) =>
    let sect := (ptx.drop first).take (last - first)
    let sect := replaceRet fname 0 [] sect
    let out := ptx.take first ++ sect ++ ptx.drop last
    return (funcPtx ++ "\n".toList ++ out, true)

def probeCall (kernel : Text) : Op := ["call".toList, probeName kernel]

def CallsProbe (kernel : Text) (P P' : List Instr) : Prop :=
  ∀ (σ : Type) (M : Machine σ), (∀ s, (M.exec (probeCall kernel) s).2 = .fall)
    → ∀ s n, ∃ m, n ≤ m
      ∧ (M.run isReturn P' m (.start s)).status = (M.run isReturn P n (.start s)).status
      ∧ ((M.run isReturn P n (.start s)).status ≠ .returned
        → (M.run isReturn P' m (.start s)).events = (M.run isReturn P n (.start s)).events)
      ∧ ((M.run isReturn P n (.start s)).status = .returned
        → ∃ t, (M.run isReturn P' m (.start s)).events
            = (M.run isReturn P n (.start s)).events ++ [(probeCall kernel, t)])

/-- The pass puts a call of the probe before every return. -/
def Patches (compile : List UInt64 → Text → Text → Bool → Bool → Option Text) (funcPtx : Text)
    {kernel : Text} (m : Module kernel) (ebpfWords : List UInt64) : Prop :=
  ∃ sect, patchRetprobe compile m.ptx kernel ebpfWords
      = .ok (funcPtx ++ "\n".toList ++ (m.pre ++ sect ++ m.post), true)
    ∧ CallsProbe kernel (instrs m.sect) (instrs sect)

def endsReturn (text : Text) (k : ℕ) : Bool :=
  (read (read start (text.take k)).1 ((text.drop k).take 1)).2.any (isReturn ·.op)

/-- The returns of the text are the places where it says `ret;`. -/
structure PlainReturns (text : Text) : Prop where
  begins : ∀ k < text.length, retText <+: text.drop k → atStart (read start (text.take k)).1
  written : ∀ k < text.length, endsReturn text k → retText <:+ text.take (k + 1)

section Replace

variable {fname : Text}

theorem replaceRet_ret (blanks rest : Text) : replaceRet fname 0 blanks (retText ++ rest)
        =
      blanks ++ (callText fname ++ (blanks ++ retText)) ++ replaceRet fname 0 [] rest := by
  unfold retText
  simp [replaceRet, retText]

theorem replaceRet_space {c : Char} {rest : Text} (hret : ¬ retText <+: c :: rest)
    (hc : isSpace c) (blanks : Text)
    : replaceRet fname 0 blanks (c :: rest) = replaceRet fname 0 (blanks ++ [c]) rest := by
  rw [replaceRet]
  rw [if_neg (by simpa using hret)]
  rw [if_pos hc]

theorem replaceRet_other {c : Char} {rest : Text} (hret : ¬ retText <+: c :: rest)
    (hc : isSpace c = false) (blanks : Text)
    : replaceRet fname 0 blanks (c :: rest) = blanks ++ [c] ++ replaceRet fname 0 [] rest := by
  rw [replaceRet]
  rw [if_neg (by simpa using hret)]
  rw [if_neg (by simp [hc])]
  simp

end Replace

def Parted (before rest : Text) : Prop :=
  ∀ x y, x ≠ [] → y ≠ [] → x ++ y = retText → x <:+ before → ¬ y <+: rest

theorem parted_nil (rest : Text) : Parted [] rest := by
  intro x y hx _ _ hbefore
  exact absurd (List.suffix_nil.mp hbefore) hx

theorem Parted.cons {before rest : Text} {c : Char} (h : Parted before (c :: rest))
    (hret : ¬ retText <+: c :: rest) : Parted (before ++ [c]) rest := by
  intro x y hx hy hxy hbefore hrest
  obtain ⟨x, d, rfl⟩ := List.eq_nil_or_concat x |>.resolve_left hx
  rw [List.concat_eq_append] at hxy hbefore
  obtain ⟨hx', rfl⟩ : x <:+ before ∧ d = c := by
    obtain ⟨z, hz⟩ := hbefore
    rw [← List.append_assoc] at hz
    obtain ⟨hz, hd⟩ := List.append_inj' hz rfl
    exact ⟨⟨z, hz⟩, (List.cons.inj hd).1⟩
  have hstart : d :: y <+: d :: rest := List.cons_prefix_cons.mpr ⟨rfl, hrest⟩
  rw [List.append_assoc] at hxy
  by_cases hnil : x = []
  . subst hnil
    apply hret
    rw [← hxy]
    exact hstart
  . exact h x (d :: y) hnil (List.cons_ne_nil d y) hxy hx' hstart

theorem Parted.ret (before rest : Text) : Parted (before ++ retText) rest := by
  intro x y hx hy hxy hbefore _
  -- the last character of what comes before is `;`, which no proper part of `ret;` ends with
  have hlast : x.getLast hx = ';' := by
    obtain ⟨z, hz⟩ := hbefore
    have := congrArg List.getLast? hz
    rw [List.getLast?_append_of_ne_nil _ hx] at this
    rw [List.getLast?_append_of_ne_nil _ (show retText ≠ [] by decide)] at this
    rw [List.getLast?_eq_getLast_of_ne_nil hx] at this
    exact Option.some.inj this
  have hmem : ';' ∈ retText.take x.length := by
    rw [← hxy]
    rw [List.take_left]
    rw [← hlast]
    exact List.getLast_mem hx
  have hlength : x.length < 4 := by
    have := congrArg List.length hxy
    have hy := List.length_pos_iff.mpr hy
    rw [List.length_append] at this
    have hfour : retText.length = 4 := by decide
    omega
  revert hmem
  generalize x.length = k at hlength
  revert k
  decide

def scheme (kernel : Text) : Scheme Op (List Token) Token where
  isReturn := isReturn
  own _ := false
  neutral _ := False
  final ops := ops = [probeCall kernel]
  keep i := isReturn i.op = false

section Text

variable {kernel : Text} (hkernel : ∀ c ∈ kernel, isIdentChar c)

include hkernel

theorem isWordChar_probeName : ∀ c ∈ probeName kernel, isWordChar c := by
  intro c hc
  obtain hc | hc := List.mem_append.mp hc
  . exact List.all_eq_true.mp (show "__retprobe_func__".toList.all isWordChar by decide) c hc
  . have hident := hkernel c hc
    unfold isIdentChar at hident
    unfold isWordChar
    simp only [Bool.or_eq_true] at hident ⊢
    obtain hident | hident := hident <;> simp [hident]

theorem lex_callText : Transducer.run lexChar ⟨.code, []⟩ (callText (probeName kernel))
        =
      (⟨.code, []⟩, "call".toList :: [probeName kernel] ++ [[';']]) := by
  have hcall : Transducer.run lexChar ⟨.code, []⟩ "call ".toList = (⟨.code, []⟩, ["call".toList]) := by
    decide
  obtain ⟨c, name, hname⟩ : ∃ c name, probeName kernel = c :: name := ⟨_, _, rfl⟩
  unfold callText
  rw [Transducer.run_append]
  rw [Transducer.run_append]
  rw [hcall]
  simp only
  rw [lex_wordChars [] (isWordChar_probeName hkernel)]
  rw [List.nil_append]
  rw [hname]
  rfl

omit hkernel in
theorem plain_probeCall : Plain "call".toList [probeName kernel] := by
  constructor
  . decide
  . intro t ht
    rw [List.mem_singleton.mp ht]
    intro hmem
    have : probeName kernel = '_' :: ("_retprobe_func__".toList ++ kernel) := rfl
    simp [this] at hmem

theorem read_callText {q : Lexer × Reader} (hq : atStart q) : read q (callText (probeName kernel))
        =
      ((q.1, q.2.cleared), [⟨q.2.labels, none, probeCall kernel⟩]) :=
  read_statement hq (lex_callText hkernel) plain_probeCall

omit hkernel in
theorem read_retText {q : Lexer × Reader} (hq : atStart q) : read q retText
        =
      ((q.1, q.2.cleared), [⟨q.2.labels, none, ["ret".toList]⟩]) := by
  apply read_statement hq
  . decide
  . exact ⟨by decide, by simp⟩

omit hkernel in
theorem PlainReturns.keeps (kernel : Text) {before rest : Text} {c : Char}
    (h : PlainReturns (before ++ c :: rest)) (hparted : Parted before (c :: rest))
    : ∀ i ∈ (read (read start before).1 [c]).2, (scheme kernel).keep i := by
  intro i hi
  by_contra hreturn
  have hends : endsReturn (before ++ c :: rest) before.length := by
    unfold endsReturn
    rw [List.take_left]
    rw [List.drop_left]
    rw [List.any_eq_true]
    exact ⟨i, hi, by simpa [scheme] using hreturn⟩
  have hwritten := h.written before.length (by simp) hends
  rw [show before ++ c :: rest = before ++ [c] ++ rest by simp] at hwritten
  rw [show before.length + 1 = (before ++ [c]).length by simp] at hwritten
  rw [List.take_left] at hwritten
  obtain ⟨z, hz⟩ := hwritten
  rw [show retText = "ret".toList ++ [';'] by decide] at hz
  rw [← List.append_assoc] at hz
  obtain ⟨hbefore, hc⟩ := List.append_inj' hz rfl
  obtain rfl := (List.cons.inj hc).1
  apply hparted "ret".toList [';']
  . decide
  . decide
  . decide
  . exact ⟨z, hbefore⟩
  . exact ⟨rest, rfl⟩

theorem rewritten_ret {q : Lexer × Reader} {blanks : Text} (hq : atStart (read q blanks).1)
    (hblanks : ∀ c ∈ blanks, isSpace c)
    (hkeep : ∀ i ∈ (read q blanks).2, (scheme kernel).keep i)
    : Rewritten (scheme kernel) q (blanks ++ retText)
        (blanks ++ (callText (probeName kernel) ++ (blanks ++ retText))) := by
  apply (Rewritten.refl hkeep).append
  generalize (read q blanks).1 = r at hq
  have hcode : r.1 = ⟨.code, []⟩ := by
    obtain ⟨depth, labels, loc, rfl⟩ := exists_of_atStart hq
    rfl
  have hcall : read r (callText (probeName kernel) ++ (blanks ++ retText))
      = ((r.1, r.2.cleared),
        [⟨r.2.labels, none, probeCall kernel⟩, ⟨[], none, ["ret".toList]⟩]) := by
    rw [read_append]
    rw [read_callText hkernel hq]
    simp only
    rw [read_append]
    rw [read_spaces (q := (r.1, r.2.cleared)) hcode hblanks]
    simp only
    rw [read_retText (atStart_cleared hq)]
    rfl
  have hfinal : (scheme kernel).final [probeCall kernel] := rfl
  constructor
  . rw [read_retText hq]
    rw [hcall]
    exact Inserted.final (i := ⟨r.2.labels, none, ["ret".toList]⟩) rfl rfl (List.cons_ne_nil _ _)
      hfinal .nil
  . rw [read_retText hq]
    rw [hcall]

theorem rewritten_replaceRet {text : Text} (h : PlainReturns text) (n : ℕ) (before blanks rest : Text)
    (hn : rest.length ≤ n) (htext : text = before ++ blanks ++ rest)
    (hblanks : ∀ c ∈ blanks, isSpace c) (hparted : Parted (before ++ blanks) rest)
    (hkeep : ∀ i ∈ (read (read start before).1 blanks).2, (scheme kernel).keep i)
    : Rewritten (scheme kernel) (read start before).1 (blanks ++ rest)
        (replaceRet (probeName kernel) 0 blanks rest) := by
  induction n generalizing before blanks rest with
  | zero =>
    obtain rfl := List.eq_nil_of_length_eq_zero (Nat.le_zero.mp hn)
    rw [replaceRet]
    rw [List.append_nil]
    exact Rewritten.refl hkeep
  | succ n ih =>
    cases rest with
    | nil =>
      rw [replaceRet]
      rw [List.append_nil]
      exact Rewritten.refl hkeep
    | cons c rest =>
      by_cases hret : retText <+: c :: rest
      . have hat : atStart (read (read start before).1 blanks).1 := by
          have hbegins := h.begins (before ++ blanks).length (by simp [htext])
          rw [htext] at hbegins
          rw [List.drop_left] at hbegins
          rw [List.take_left] at hbegins
          rw [read_read]
          exact hbegins hret
        obtain ⟨rest', hrest'⟩ := hret
        rw [← hrest'] at hn htext ⊢
        rw [replaceRet_ret]
        rw [← List.append_assoc]
        apply (rewritten_ret hkernel hat hblanks hkeep).append
        rw [read_read]
        rw [← List.append_assoc]
        apply ih (before ++ blanks ++ retText) [] rest'
        . rw [List.length_append] at hn
          have hfour : retText.length = 4 := by decide
          omega
        . simp [htext]
        . simp
        . rw [List.append_nil]
          exact Parted.ret _ _
        . intro i hi
          cases hi
      . have hkeeps := (htext ▸ h).keeps kernel hparted
        rw [← read_read] at hkeeps
        have hblank : ∀ i ∈ (read (read start before).1 (blanks ++ [c])).2,
            (scheme kernel).keep i := by
          rw [read_append]
          rw [List.forall_mem_append]
          exact ⟨hkeep, hkeeps⟩
        have hnext := hparted.cons hret
        rw [List.length_cons] at hn
        rw [show blanks ++ c :: rest = blanks ++ [c] ++ rest by simp]
        cases hc : isSpace c with
        | true =>
          rw [replaceRet_space hret hc]
          apply ih before (blanks ++ [c]) rest
          . omega
          . simp [htext]
          . rw [List.forall_mem_append]
            rw [List.forall_mem_singleton]
            exact ⟨hblanks, hc⟩
          . rw [← List.append_assoc]
            exact hnext
          . exact hblank
        | false =>
          rw [replaceRet_other hret hc]
          apply (Rewritten.refl hblank).append
          rw [read_read]
          rw [← List.append_assoc]
          apply ih (before ++ blanks ++ [c]) [] rest
          . omega
          . simp [htext]
          . simp
          . rw [List.append_nil]
            exact hnext
          . intro i hi
            cases hi

end Text

theorem inserted_of_plainReturns {kernel : Text} (hkernel : ∀ c ∈ kernel, isIdentChar c)
    {text : Text} (h : PlainReturns text)
    : Inserted (scheme kernel) (instrs text)
        (instrs (replaceRet (probeName kernel) 0 [] text)) := by
  have hrewritten := rewritten_replaceRet hkernel h text.length [] [] text (Nat.le_refl _) rfl
    (by simp) (parted_nil text)
  apply Rewritten.inserted (hrewritten _)
  intro i hi
  cases hi

theorem callsProbe_of_inserted {kernel : Text} {P P' : List Instr}
    (h : Inserted (scheme kernel) P P') : CallsProbe kernel P P' := by
  intro σ M hprobe s n
  have hextends : M.Extends M id (scheme kernel).own := ⟨fun _ _ => rfl, fun _ _ _ => rfl⟩
  have hadmits : M.Admits (scheme kernel) id := by
    refine ⟨?_, ?_, ?_, ?_, ?_, ?_⟩
    . intro _ h
      cases h
    . intro _ h
      cases h
    . intro _ h
      cases h
    . intro _ h
      cases h
    . rintro _ rfl op hop
      rw [List.mem_singleton.mp hop]
      rfl
    . rintro _ rfl op hop
      rw [List.mem_singleton.mp hop]
      exact hprobe
  obtain ⟨m, hm, hmatches⟩ := h.run_matches hextends hadmits (fun _ _ => rfl) s n
  obtain ⟨seen, last, hevents, hseen, hlast⟩ := hmatches.events
  have hsame : seen = (M.run isReturn P n (.start s)).events := by
    have := hseen.same
    simpa [scheme] using this
  refine ⟨m, hm, hmatches.status, ?_, ?_⟩
  . intro hrunning
    obtain ⟨rfl, _⟩ | ⟨hreturned, _⟩ := hlast
    . rw [← hsame]
      rw [List.append_nil] at hevents
      exact hevents
    . exact absurd hreturned hrunning
  . intro hreturned
    obtain ⟨_, hkept⟩ | ⟨_, hfinal⟩ := hlast
    . obtain ⟨i, hi, hreturn⟩ := hkept hreturned
      simp only [scheme] at hi hreturn
      rw [hi] at hreturn
      cases hreturn
    . have hcall : last.map Prod.fst = [probeCall kernel] := hfinal
      obtain ⟨⟨op, t⟩, rfl, hop⟩ := List.map_eq_singleton_iff.mp hcall
      refine ⟨t, ?_⟩
      rw [← hsame]
      rw [← hop]
      exact hevents

section Pass

variable {compile : List UInt64 → Text → Text → Bool → Bool → Option Text} {kernel : Text}
  {ebpfWords : List UInt64} {funcPtx : Text}

theorem patchRetprobe_eq (m : Module kernel)
    (hcompile : compile ebpfWords "sm_60".toList (probeName kernel) true false = some funcPtx)
    : patchRetprobe compile m.ptx kernel ebpfWords
        =
      .ok (funcPtx ++ "\n".toList
        ++ (m.pre ++ replaceRet (probeName kernel) 0 [] m.sect ++ m.post), true) := by
  have hpre : m.ptx.take m.pre.length = m.pre := List.take_left
  have hsect : (m.ptx.drop m.pre.length).take (m.pre.length + m.sect.length - m.pre.length)
      = m.sect := by
    unfold Module.ptx
    rw [List.drop_left]
    rw [Nat.add_sub_cancel_left]
    exact List.take_left
  have hpost : m.ptx.drop (m.pre.length + m.sect.length) = m.post := by
    unfold Module.ptx
    rw [List.drop_length_add_append]
    exact List.drop_left
  unfold patchRetprobe
  simp only [hcompile, m.findKernelBody_eq, bind, Except.bind, pure, Except.pure]
  rw [hpre]
  rw [hsect]
  rw [hpost]

theorem patches_of_plainReturns (m : Module kernel) (h : PlainReturns m.sect)
    (hcompile : compile ebpfWords "sm_60".toList (probeName kernel) true false = some funcPtx)
    : Patches compile funcPtx m ebpfWords :=
  ⟨_, patchRetprobe_eq m hcompile,
    callsProbe_of_inserted (inserted_of_plainReturns m.decl.name h)⟩

end Pass

def bareDecl (kernel : Text) (hne : kernel ≠ []) (hname : ∀ c ∈ kernel, isIdentChar c)
    : EntryDecl kernel where
  visible := ".visible ".toList
  gap := " ".toList
  blanks := []
  params := []
  attrs := "\n".toList
  name_ne := hne
  name := hname
  visible_eq := .inr ⟨" ".toList, by decide, List.all_eq_true.mp (by decide), by decide⟩
  gap_ne := by decide
  gap_spaces := List.all_eq_true.mp (by decide)
  blanks_spaces := by simp
  params_closed := by simp
  params_open := by simp
  attrs_open := by simp

def branchModule : Module "k".toList where
  pre := ".version 7.0\n.entry j()\n\x7b ret;\n\x7d\n".toList
  decl := bareDecl "k".toList (by decide) (List.all_eq_true.mp (by decide))
  body := "\n\t@%p1 bra L;\n\tret;\nL: st.u32 [%rd1], 7;\n\tret;\n".toList
  post := "\n".toList
  balanced := by decide +kernel
  closed := by decide +kernel
  first := by decide +kernel

def emptyProbe : Text := ".func __retprobe_func__k()\n\x7b\n\tret;\n\x7d\n".toList

theorem patches_branchModule : PlainReturns branchModule.sect
        ∧ Patches (fun _ _ _ _ _ => some emptyProbe) emptyProbe branchModule [] := by
  have h : PlainReturns branchModule.sect := ⟨by decide +kernel, by decide +kernel⟩
  exact ⟨h, patches_of_plainReturns branchModule h rfl⟩

def guardModule : Module "k".toList where
  pre := ".version 7.0\n.entry j()\n\x7b ret;\n\x7d\n".toList
  decl := bareDecl "k".toList (by decide) (List.all_eq_true.mp (by decide))
  body := "\n\t@%p1 ret;\n\tst.u32 [%rd1], 7;\n\tret;\n".toList
  post := "\n".toList
  balanced := by decide +kernel
  closed := by decide +kernel
  first := by decide +kernel

def idleMachine : Machine Unit := ⟨fun _ _ => false, fun _ _ => ((), .fall)⟩

theorem not_patches_guardModule
    : ¬ Patches (fun _ _ _ _ _ => some emptyProbe) emptyProbe guardModule [] := by
  rintro ⟨sect, hpatch, hcalls⟩
  obtain rfl : replaceRet (probeName "k".toList) 0 [] guardModule.sect = sect := by
    rw [patchRetprobe_eq guardModule rfl] at hpatch
    have hout := (Prod.mk.inj (Except.ok.inj hpatch)).1
    exact List.append_cancel_left (List.append_cancel_right (List.append_cancel_left hout))
  obtain ⟨m, hm, _, _, hreturned⟩ := hcalls Unit idleMachine (fun _ => rfl) () 5
  have hevents : (idleMachine.run isReturn (instrs guardModule.sect) 5 (.start ())).events.length
      = 1 := by
    decide +kernel
  have hdone : (idleMachine.run isReturn
      (instrs (replaceRet (probeName "k".toList) 0 [] guardModule.sect)) 5 (.start ())).status
      = .returned := by
    decide +kernel
  have hnone : (idleMachine.run isReturn
      (instrs (replaceRet (probeName "k".toList) 0 [] guardModule.sect)) 5 (.start ())).events
      = [] := by
    decide +kernel
  obtain ⟨t, ht⟩ := hreturned (by decide +kernel)
  rw [← Nat.add_sub_cancel' hm] at ht
  rw [Machine.run_add] at ht
  rw [Machine.run_of_done _ _ _ _ (by rw [hdone]; decide)] at ht
  rw [hnone] at ht
  have hlength := congrArg List.length ht
  rw [List.length_append] at hlength
  rw [hevents] at hlength
  cases hlength

end Bpftime.Ptx.Retprobe
