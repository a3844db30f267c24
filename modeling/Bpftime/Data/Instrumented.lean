import Mathlib.Data.List.Basic
import Mathlib.Logic.Function.Iterate

/-!
This module contains programs of labelled, guarded instructions and their runs, and what inserting
instructions into a program does to its runs: instructions that leave the state the program works on
alone may stand anywhere, others right before an unguarded return.
-/

namespace Instrumented

variable {α γ l ω σ : Type}

structure Instr (α γ l : Type) where
  labels : List l
  guard : Option γ
  op : α
  deriving DecidableEq

inductive Next (l : Type) where
  | fall
  | jump (label : l)
  | stop
  deriving DecidableEq

structure Machine (α γ l σ : Type) where
  holds : γ → σ → Bool
  exec : α → σ → σ × Next l

inductive Status where
  | running
  | returned
  | stopped
  deriving DecidableEq

structure Config (α σ : Type) where
  pc : ℕ
  state : σ
  events : List (α × σ)
  status : Status
  deriving DecidableEq

def Config.start (s : σ) : Config α σ := ⟨0, s, [], .running⟩

def Machine.passes (M : Machine α γ l σ) (guard : Option γ) (s : σ) : Bool :=
  match guard with
  | none => true
  | some g => M.holds g s

section Run

variable [DecidableEq l]

def target (P : List (Instr α γ l)) (label : l) : Option ℕ := P.findIdx? (label ∈ ·.labels)

variable (isReturn : α → Bool) (M : Machine α γ l σ) (P : List (Instr α γ l))

def proceed (next : Next l) (c : Config α σ) : Config α σ :=
  match next with
  | .fall => { c with pc := c.pc + 1 }
  | .stop => { c with status := .stopped }
  | .jump label =>
    match target P label with
    | some pc => { c with pc }
    | none => { c with status := .stopped }

def Machine.perform (op : α) (c : Config α σ) : Config α σ :=
  let (state, next) := M.exec op c.state
  proceed P next { c with state, events := c.events ++ [(op, c.state)] }

def Machine.step (c : Config α σ) : Config α σ :=
  match c.status with
  | .running =>
    match P[c.pc]? with
    | none => { c with status := .stopped }
    | some i =>
      if M.passes i.guard c.state then
        if isReturn i.op then
          { c with status := .returned }
        else
          M.perform P i.op c
      else
        { c with pc := c.pc + 1 }
  | _ => c

def Machine.run (n : ℕ) (c : Config α σ) : Config α σ := (M.step isReturn P)^[n] c

theorem Machine.run_add (m n : ℕ) (c : Config α σ)
    : M.run isReturn P (m + n) c = M.run isReturn P n (M.run isReturn P m c) := by
  unfold Machine.run
  rw [Nat.add_comm]
  rw [Function.iterate_add_apply]

theorem Machine.run_one (c : Config α σ) : M.run isReturn P 1 c = M.step isReturn P c := rfl

theorem Machine.step_of_done {c : Config α σ} (h : c.status ≠ .running)
    : M.step isReturn P c = c := by
  unfold Machine.step
  split
  . contradiction
  . rfl

theorem Machine.run_of_done (n : ℕ) {c : Config α σ} (h : c.status ≠ .running)
    : M.run isReturn P n c = c := by
  exact Function.iterate_fixed (M.step_of_done isReturn P h) n

theorem Machine.events_step (c : Config α σ) : c.events <+: (M.step isReturn P c).events := by
  have hperform : ∀ op, c.events <+: (M.perform P op c).events := by
    intro op
    unfold Machine.perform proceed
    repeat' split
    all_goals exact List.prefix_append c.events [(op, c.state)]
  unfold Machine.step
  repeat' split
  all_goals first
    | exact List.prefix_refl c.events
    | exact hperform _

theorem Machine.events_run (n : ℕ) (c : Config α σ)
    : c.events <+: (M.run isReturn P n c).events := by
  induction n with
  | zero => exact List.prefix_refl c.events
  | succ n ih =>
    rw [Machine.run_add]
    rw [Machine.run_one]
    exact ih.trans (M.events_step isReturn P _)

variable {isReturn M P}

theorem Machine.events_of_done {n : ℕ} {c : Config α σ}
    (h : (M.run isReturn P n c).status ≠ .running) (m : ℕ)
    : (M.run isReturn P m c).events <+: (M.run isReturn P n c).events := by
  rw [← M.run_of_done isReturn P m h]
  rw [← Machine.run_add]
  rw [Nat.add_comm]
  rw [Machine.run_add]
  exact M.events_run isReturn P n _

theorem Machine.step_of_end {c : Config α σ} (hrun : c.status = .running)
    (hdrop : P.drop c.pc = []) : M.step isReturn P c = { c with status := .stopped } := by
  have hpc : P[c.pc]? = none := by
    rw [List.getElem?_eq_none_iff]
    exact List.drop_eq_nil_iff.mp hdrop
  unfold Machine.step
  rw [hrun]
  simp only [hpc]

theorem Machine.step_of_drop {c : Config α σ} {i : Instr α γ l} {rest : List (Instr α γ l)}
    (hrun : c.status = .running) (hdrop : P.drop c.pc = i :: rest)
    : M.step isReturn P c
        =
      if M.passes i.guard c.state then
        if isReturn i.op then { c with status := .returned } else M.perform P i.op c
      else
        { c with pc := c.pc + 1 } := by
  have hpc : P[c.pc]? = some i := by
    rw [← List.head?_drop]
    rw [hdrop]
    rfl
  unfold Machine.step
  rw [hrun]
  simp only [hpc]

omit [DecidableEq l] in
theorem drop_succ_of_drop {pc : ℕ} {i : Instr α γ l} {rest : List (Instr α γ l)}
    (hdrop : P.drop pc = i :: rest) : P.drop (pc + 1) = rest := by
  rw [← List.tail_drop]
  rw [hdrop]
  rfl

theorem Machine.run_straight {is rest : List (Instr α γ l)} {c : Config α σ}
    (hrun : c.status = .running) (hdrop : P.drop c.pc = is ++ rest)
    (hguard : ∀ i ∈ is, i.guard = none) (hreturn : ∀ i ∈ is, isReturn i.op = false)
    (hfall : ∀ i ∈ is, ∀ s, (M.exec i.op s).2 = .fall)
    : ∃ c', M.run isReturn P is.length c = c'
        ∧ c'.status = .running
        ∧ P.drop c'.pc = rest
        ∧ (∃ events, c'.events = c.events ++ events ∧ events.map Prod.fst = is.map Instr.op)
        ∧ ∀ π : σ → ω, (∀ i ∈ is, ∀ s, π (M.exec i.op s).1 = π s) → π c'.state = π c.state := by
  induction is generalizing c with
  | nil =>
    refine ⟨c, rfl, hrun, hdrop, ⟨[], ?_, rfl⟩, ?_⟩
    . rw [List.append_nil]
    . intro π _
      rfl
  | cons i is ih =>
    have hi := List.mem_cons_self (a := i) (l := is)
    have hstep : M.step isReturn P c = M.perform P i.op c := by
      rw [Machine.step_of_drop hrun hdrop]
      rw [hguard i hi]
      rw [hreturn i hi]
      rfl
    have hperform : M.perform P i.op c = ⟨c.pc + 1, (M.exec i.op c.state).1,
        c.events ++ [(i.op, c.state)], c.status⟩ := by
      unfold Machine.perform proceed
      simp only [hfall i hi]
    have hnext := drop_succ_of_drop hdrop
    obtain ⟨c', hc', hrun', hdrop', ⟨events, hevents, hops⟩, hstate⟩ :=
      ih (c := M.perform P i.op c) (by rw [hperform]; exact hrun) (by rw [hperform]; exact hnext)
        (fun j hj => hguard j (List.mem_cons_of_mem i hj))
        (fun j hj => hreturn j (List.mem_cons_of_mem i hj))
        (fun j hj => hfall j (List.mem_cons_of_mem i hj))
    refine ⟨c', ?_, hrun', hdrop', ⟨(i.op, c.state) :: events, ?_, ?_⟩, ?_⟩
    . rw [List.length_cons]
      rw [Nat.add_comm]
      rw [Machine.run_add]
      rw [Machine.run_one]
      rw [hstep]
      exact hc'
    . rw [hevents]
      rw [hperform]
      simp
    . simp [hops]
    . intro π hπ
      rw [hstate π (fun j hj => hπ j (List.mem_cons_of_mem i hj))]
      rw [hperform]
      exact hπ i hi c.state

end Run

def plain (op : α) : Instr α γ l := ⟨[], none, op⟩

def block (labels : List l) : List α → List (Instr α γ l)
  | [] => []
  | op :: ops => ⟨labels, none, op⟩ :: ops.map plain

theorem guard_of_mem_block {labels : List l} {ops : List α} {i : Instr α γ l}
    (hi : i ∈ block labels ops) : i.guard = none := by
  cases ops with
  | nil => cases hi
  | cons op ops =>
    cases hi with
    | head => rfl
    | tail _ hi =>
      obtain ⟨op', _, rfl⟩ := List.mem_map.mp hi
      rfl

theorem map_op_block (labels : List l) (ops : List α)
    : (block labels ops : List (Instr α γ l)).map Instr.op = ops := by
  cases ops with
  | nil => rfl
  | cons op ops =>
    unfold block
    rw [List.map_cons]
    rw [List.map_map]
    exact congrArg _ (List.map_id ops)

theorem map_op_plain (ops : List α) : (ops.map plain : List (Instr α γ l)).map Instr.op = ops := by
  rw [List.map_map]
  exact List.map_id ops

structure Scheme (α γ l : Type) where
  isReturn : α → Bool
  /-- The operations that are not the program's. -/
  own : α → Bool
  neutral : α → Prop
  final : List α → Prop
  keep : Instr α γ l → Prop

inductive Inserted (S : Scheme α γ l) : List (Instr α γ l) → List (Instr α γ l) → Prop where
  | nil : Inserted S [] []
  | keep {i P P'} (hkeep : S.keep i) (h : Inserted S P P')
      : Inserted S (i :: P) (i :: P')
  | neutral {op P P'} (hop : S.neutral op) (h : Inserted S P P')
      : Inserted S P (plain op :: P')
  | final {i ops P P'} (hreturn : S.isReturn i.op) (hguard : i.guard = none) (hne : ops ≠ [])
      (hops : S.final ops) (h : Inserted S P P')
      : Inserted S (i :: P) (block i.labels ops ++ plain i.op :: P')

namespace Inserted

variable {S : Scheme α γ l} {P P' Q Q' : List (Instr α γ l)}

theorem refl (hkeep : ∀ i ∈ P, S.keep i) : Inserted S P P := by
  induction P with
  | nil => exact .nil
  | cons i P ih =>
    apply Inserted.keep
    . exact hkeep i List.mem_cons_self
    . apply ih
      intro j hj
      exact hkeep j (List.mem_cons_of_mem i hj)

theorem append (h : Inserted S P P') (h' : Inserted S Q Q') : Inserted S (P ++ Q) (P' ++ Q') := by
  induction h with
  | nil => exact h'
  | keep hkeep _ ih => exact .keep hkeep ih
  | neutral hop _ ih => exact .neutral hop ih
  | final hreturn hguard hne hops _ ih =>
    rw [List.append_assoc]
    exact .final hreturn hguard hne hops ih

theorem plain_append {ops : List α} (hops : ∀ op ∈ ops, S.neutral op) (h : Inserted S P P')
    : Inserted S P (ops.map plain ++ P') := by
  induction ops with
  | nil => exact h
  | cons op ops ih =>
    apply Inserted.neutral (hops op List.mem_cons_self)
    apply ih
    intro op' hop'
    exact hops op' (List.mem_cons_of_mem op hop')

theorem front (h : Inserted S P P')
    : ∃ (ops : List α) (rest : List (Instr α γ l)), P' = ops.map plain ++ rest
        ∧ (∀ op ∈ ops, S.neutral op)
        ∧ Inserted S P rest
        ∧ ((P = [] ∧ rest = [])
          ∨ (∃ i Q Q', P = i :: Q ∧ rest = i :: Q' ∧ S.keep i
              ∧ Inserted S Q Q')
          ∨ (∃ i Q Q' last, P = i :: Q ∧ rest = block i.labels last ++ plain i.op :: Q'
              ∧ S.isReturn i.op ∧ i.guard = none ∧ S.final last)) := by
  induction h with
  | nil => exact ⟨[], [], rfl, by simp, .nil, .inl ⟨rfl, rfl⟩⟩
  | @keep i P P' hkeep h _ =>
    exact ⟨[], _, rfl, by simp, .keep hkeep h, .inr (.inl ⟨i, P, P', rfl, rfl, hkeep, h⟩)⟩
  | @neutral op P P' hop _ ih =>
    obtain ⟨ops, rest, rfl, hops, hrest⟩ := ih
    refine ⟨op :: ops, rest, rfl, ?_, hrest⟩
    intro op' hop'
    cases hop' with
    | head => exact hop
    | tail _ hop' => exact hops op' hop'
  | @final i ops P P' hreturn hguard hne hops h _ =>
    refine ⟨[], _, rfl, by simp, .final hreturn hguard hne hops h, .inr (.inr ?_)⟩
    exact ⟨i, P, P', ops, rfl, rfl, hreturn, hguard, hops⟩

variable [DecidableEq l]

theorem target_cons_of_mem {i : Instr α γ l} {label : l} (h : label ∈ i.labels)
    : target (i :: P) label = some 0 := by
  unfold target
  rw [List.findIdx?_cons]
  simp [h]

theorem target_cons_of_notMem {i : Instr α γ l} {label : l} (h : label ∉ i.labels)
    : target (i :: P) label = (target P label).map (· + 1) := by
  unfold target
  rw [List.findIdx?_cons]
  simp [h]

theorem target_plain_append (ops : List α) (label : l)
    : target (ops.map plain ++ P) label = (target P label).map (· + ops.length) := by
  induction ops with
  | nil => simp
  | cons op ops ih =>
    rw [List.map_cons]
    rw [List.cons_append]
    rw [target_cons_of_notMem (List.not_mem_nil (a := label))]
    rw [ih]
    rw [Option.map_map]
    congr 1

theorem target_eq (h : Inserted S P P') (label : l)
    : (target P label = none ∧ target P' label = none)
        ∨ ∃ k k', target P label = some k ∧ target P' label = some k'
            ∧ Inserted S (P.drop k) (P'.drop k') := by
  induction h with
  | nil => exact .inl ⟨rfl, rfl⟩
  | @keep i P P' hkeep h ih =>
    by_cases hlabel : label ∈ i.labels
    . rw [target_cons_of_mem hlabel, target_cons_of_mem hlabel]
      exact .inr ⟨0, 0, rfl, rfl, .keep hkeep h⟩
    . rw [target_cons_of_notMem hlabel, target_cons_of_notMem hlabel]
      obtain ⟨hk, hk'⟩ | ⟨k, k', hk, hk', hdrop⟩ := ih
      . exact .inl (by simp [hk, hk'])
      . exact .inr ⟨k + 1, k' + 1, by simp [hk], by simp [hk'], hdrop⟩
  | @neutral op P P' hop h ih =>
    rw [target_cons_of_notMem (i := plain op) (List.not_mem_nil (a := label))]
    obtain ⟨hk, hk'⟩ | ⟨k, k', hk, hk', hdrop⟩ := ih
    . exact .inl ⟨hk, by simp [hk']⟩
    . exact .inr ⟨k, k' + 1, hk, by simp [hk'], hdrop⟩
  | @final i ops P P' hreturn hguard hne hops h ih =>
    obtain ⟨op, ops, rfl⟩ := List.exists_cons_of_ne_nil hne
    by_cases hlabel : label ∈ i.labels
    . rw [target_cons_of_mem hlabel]
      refine .inr ⟨0, 0, rfl, target_cons_of_mem hlabel, ?_⟩
      exact .final hreturn hguard hne hops h
    . rw [target_cons_of_notMem hlabel]
      unfold block
      rw [List.cons_append]
      rw [target_cons_of_notMem (i := ⟨i.labels, none, op⟩) hlabel]
      rw [target_plain_append]
      rw [target_cons_of_notMem (i := plain i.op) (List.not_mem_nil (a := label))]
      obtain ⟨hk, hk'⟩ | ⟨k, k', hk, hk', hdrop⟩ := ih
      . exact .inl (by simp [hk, hk'])
      . refine .inr ⟨k + 1, k' + 1 + ops.length + 1, by simp [hk], by simp [hk'], ?_⟩
        have hlen : (ops.map (plain : α → Instr α γ l)).length = ops.length := List.length_map _
        rw [List.drop_succ_cons]
        rw [List.drop_succ_cons]
        rw [show k' + 1 + ops.length = (ops.map (plain : α → Instr α γ l)).length + (k' + 1) by
          omega]
        rw [List.drop_length_add_append]
        exact hdrop

end Inserted

structure Machine.Extends (M : Machine α γ l ω) (M' : Machine α γ l σ) (π : σ → ω)
    (own : α → Bool) : Prop where
  holds : ∀ g s, M'.holds g s = M.holds g (π s)
  exec : ∀ op, own op = false → ∀ s, (π (M'.exec op s).1, (M'.exec op s).2) = M.exec op (π s)

structure Machine.Admits (M : Machine α γ l σ) (S : Scheme α γ l) (π : σ → ω) : Prop where
  neutral_own : ∀ op, S.neutral op → S.own op
  neutral_stays : ∀ op, S.neutral op → S.isReturn op = false
  neutral_falls : ∀ op, S.neutral op → ∀ s, (M.exec op s).2 = .fall
  neutral_hidden : ∀ op, S.neutral op → ∀ s, π (M.exec op s).1 = π s
  final_stays : ∀ ops, S.final ops → ∀ op ∈ ops, S.isReturn op = false
  final_falls : ∀ ops, S.final ops → ∀ op ∈ ops, ∀ s, (M.exec op s).2 = .fall

theorem Machine.Extends.passes {M : Machine α γ l ω} {M' : Machine α γ l σ} {π : σ → ω}
    {own : α → Bool} (h : M.Extends M' π own) (guard : Option γ) (s : σ)
    : M'.passes guard s = M.passes guard (π s) := by
  cases guard with
  | none => rfl
  | some g => exact h.holds g s

structure Seen (S : Scheme α γ l) (π : σ → ω) (events : List (α × ω))
    (events' : List (α × σ)) : Prop where
  same : (events'.filter (!S.own ·.1)).map (Prod.map id π) = events
  neutral : ∀ e ∈ events', S.own e.1 → S.neutral e.1

namespace Seen

variable {S : Scheme α γ l} {π : σ → ω} {events : List (α × ω)}
  {events' : List (α × σ)}

theorem nil : Seen S π [] [] := ⟨rfl, by simp⟩

theorem append_neutral (h : Seen S π events events') {more : List (α × σ)}
    (hown : ∀ op, S.neutral op → S.own op) (hmore : ∀ op ∈ more.map Prod.fst, S.neutral op)
    : Seen S π events (events' ++ more) := by
  have hneutral : ∀ e ∈ more, S.neutral e.1 := by
    intro e he
    exact hmore e.1 (List.mem_map_of_mem he)
  constructor
  . have hmore : more.filter (!S.own ·.1) = [] := by
      rw [List.filter_eq_nil_iff]
      intro e he
      simp [hown e.1 (hneutral e he)]
    rw [List.filter_append]
    rw [hmore]
    rw [List.append_nil]
    exact h.same
  . intro e he hown
    obtain he | he := List.mem_append.mp he
    . exact h.neutral e he hown
    . exact hneutral e he

theorem append_same (h : Seen S π events events') {op : α} (hop : S.own op = false)
    (s : σ) : Seen S π (events ++ [(op, π s)]) (events' ++ [(op, s)]) := by
  constructor
  . rw [List.filter_append]
    rw [List.map_append]
    rw [h.same]
    simp [hop]
  . intro e he hown
    obtain he | he := List.mem_append.mp he
    . exact h.neutral e he hown
    . rw [List.mem_singleton.mp he] at hown
      simp [hop] at hown

end Seen

structure Matches (S : Scheme α γ l) (π : σ → ω) (c : Config α ω) (c' : Config α σ)
    : Prop where
  status : c'.status = c.status
  events : ∃ seen last, c'.events = seen ++ last ∧ Seen S π c.events seen
    ∧ ((last = [] ∧ (c.status = .returned → ∃ i : Instr α γ l, S.keep i ∧ S.isReturn i.op))
      ∨ (c.status = .returned ∧ S.final (last.map Prod.fst)))

structure Paired (S : Scheme α γ l) (π : σ → ω) (P P' : List (Instr α γ l))
    (c : Config α ω) (c' : Config α σ) : Prop where
  status : c.status = .running
  status' : c'.status = .running
  state : π c'.state = c.state
  rest : Inserted S (P.drop c.pc) (P'.drop c'.pc)
  events : Seen S π c.events c'.events

section Simulation

variable {S : Scheme α γ l} {π : σ → ω} {P P' : List (Instr α γ l)}
  {M : Machine α γ l ω} {M' : Machine α γ l σ} {c : Config α ω} {c' : Config α σ}

theorem Paired.matches (h : Paired S π P P' c c') : Matches S π c c' := by
  constructor
  . rw [h.status, h.status']
  . refine ⟨c'.events, [], (List.append_nil _).symm, h.events, .inl ⟨rfl, ?_⟩⟩
    intro hreturned
    rw [h.status] at hreturned
    cases hreturned

def Follows (S : Scheme α γ l) (π : σ → ω) (P P' : List (Instr α γ l))
    (c : Config α ω) (c' : Config α σ) : Prop :=
  Paired S π P P' c c'
    ∨ (c.status ≠ .running ∧ Matches S π c c')

theorem Follows.matches (h : Follows S π P P' c c') : Matches S π c c' := by
  cases h with
  | inl h => exact h.matches
  | inr h => exact h.2

theorem Paired.stopped (h : Paired S π P P' c c') : Follows S π P P' { c with status := .stopped }
        { c' with status := .stopped } := by
  right
  refine ⟨by simp, rfl, c'.events, [], (List.append_nil _).symm, h.events, .inl ⟨rfl, ?_⟩⟩
  simp

variable [DecidableEq l]

theorem Paired.proceed (h : Paired S π P P' c c') (hP : Inserted S P P') (next : Next l)
    (hfall : Inserted S (P.drop (c.pc + 1)) (P'.drop (c'.pc + 1)))
    : Follows S π P P' (proceed P next c) (proceed P' next c') := by
  cases next with
  | fall => exact .inl ⟨h.status, h.status', h.state, hfall, h.events⟩
  | stop => exact h.stopped
  | jump label =>
    unfold Instrumented.proceed
    obtain ⟨hk, hk'⟩ | ⟨k, k', hk, hk', hdrop⟩ := hP.target_eq label
    . simp only [hk, hk']
      exact h.stopped
    . simp only [hk, hk']
      exact .inl ⟨h.status, h.status', h.state, hdrop, h.events⟩

theorem Paired.perform (h : Paired S π P P' c c')
    (hP : Inserted S P P') (hM : M.Extends M' π S.own) {op : α}
    (hop : S.own op = false)
    (hfall : Inserted S (P.drop (c.pc + 1)) (P'.drop (c'.pc + 1)))
    : Follows S π P P' (M.perform P op c) (M'.perform P' op c') := by
  have hexec := hM.exec op hop c'.state
  rw [h.state] at hexec
  have hpaired : Paired S π P P'
      { c with state := π (M'.exec op c'.state).1, events := c.events ++ [(op, c.state)] }
      { c' with state := (M'.exec op c'.state).1, events := c'.events ++ [(op, c'.state)] } := by
    refine ⟨h.status, h.status', rfl, h.rest, ?_⟩
    rw [← h.state]
    exact h.events.append_same hop c'.state
  unfold Machine.perform
  rw [← hexec]
  exact hpaired.proceed hP (M'.exec op c'.state).2 hfall

theorem Paired.step_keep (h : Paired S π P P' c c')
    (hP : Inserted S P P') (hM : M.Extends M' π S.own)
    {i : Instr α γ l} {Q Q' : List (Instr α γ l)} (hQ : P.drop c.pc = i :: Q)
    (hQ' : P'.drop c'.pc = i :: Q') (hi : S.keep i) (hown : S.own i.op = false)
    (hrest : Inserted S Q Q')
    : Follows S π P P' (M.step S.isReturn P c) (M'.step S.isReturn P' c') := by
  have hfall : Inserted S (P.drop (c.pc + 1)) (P'.drop (c'.pc + 1)) := by
    rw [drop_succ_of_drop hQ, drop_succ_of_drop hQ']
    exact hrest
  rw [Machine.step_of_drop h.status hQ]
  rw [Machine.step_of_drop h.status' hQ']
  rw [hM.passes]
  rw [h.state]
  split
  . split
    next hreturn =>
      right
      refine ⟨by simp, rfl, c'.events, [], (List.append_nil _).symm, h.events, .inl ⟨rfl, ?_⟩⟩
      intro _
      exact ⟨i, hi, hreturn⟩
    next => exact h.perform hP hM hown hfall
  . exact .inl ⟨h.status, h.status', h.state, hfall, h.events⟩

theorem Paired.step_final (h : Paired S π P P' c c')
    (hA : M'.Admits S π) {i : Instr α γ l} {Q Q' : List (Instr α γ l)}
    {last : List α} (hQ : P.drop c.pc = i :: Q)
    (hQ' : P'.drop c'.pc = block i.labels last ++ plain i.op :: Q') (hreturn : S.isReturn i.op)
    (hguard : i.guard = none) (hlast : S.final last)
    : ∃ m, 1 ≤ m
        ∧ Follows S π P P' (M.step S.isReturn P c) (M'.run S.isReturn P' m c') := by
  have hops : ∀ j ∈ (block i.labels last : List (Instr α γ l)), j.op ∈ last := by
    intro j hj
    rw [← map_op_block (γ := γ) i.labels last]
    exact List.mem_map_of_mem hj
  obtain ⟨d, hd, hrun, hdrop, ⟨events, hevents, hmap⟩, _⟩ :=
    Machine.run_straight (ω := Unit) h.status' hQ' (fun j hj => guard_of_mem_block hj)
      (fun j hj => hA.final_stays last hlast j.op (hops j hj))
      (fun j hj => hA.final_falls last hlast j.op (hops j hj))
  have hstep : M.step S.isReturn P c = { c with status := .returned } := by
    rw [Machine.step_of_drop h.status hQ]
    rw [hguard]
    simp [hreturn, Machine.passes]
  have hstep' : M'.step S.isReturn P' d = { d with status := .returned } := by
    rw [Machine.step_of_drop hrun hdrop]
    simp [hreturn, Machine.passes, plain]
  refine ⟨(block (γ := γ) i.labels last).length + 1, by omega, .inr ?_⟩
  rw [Machine.run_add]
  rw [hd]
  rw [Machine.run_one]
  rw [hstep, hstep']
  refine ⟨by simp, rfl, c'.events, events, hevents, h.events, .inr ⟨rfl, ?_⟩⟩
  rw [hmap]
  rw [map_op_block]
  exact hlast

theorem Paired.step (h : Paired S π P P' c c') (hP : Inserted S P P') (hM : M.Extends M' π S.own)
    (hA : M'.Admits S π) (hkeep : ∀ i, S.keep i → S.own i.op = false)
    : ∃ m, 1 ≤ m
        ∧ Follows S π P P' (M.step S.isReturn P c) (M'.run S.isReturn P' m c') := by
  obtain ⟨ops, rest, hops', hops, hrest, hfront⟩ := h.rest.front
  have hmem : ∀ i ∈ ops.map (plain : α → Instr α γ l), i.guard = none ∧ S.neutral i.op := by
    intro i hi
    obtain ⟨op, hop, rfl⟩ := List.mem_map.mp hi
    exact ⟨rfl, hops op hop⟩
  have hstays : ∀ i ∈ ops.map (plain : α → Instr α γ l), S.isReturn i.op = false := by
    intro i hi
    exact hA.neutral_stays i.op (hmem i hi).2
  obtain ⟨d, hd, hrun, hdrop, ⟨events, hevents, hmap⟩, hstate⟩ :=
    Machine.run_straight (M := M') (ω := ω) h.status' hops' (fun i hi => (hmem i hi).1) hstays
      (fun i hi => hA.neutral_falls _ (hmem i hi).2)
  rw [map_op_plain] at hmap
  have hseen : Seen S π c.events d.events := by
    rw [hevents]
    apply h.events.append_neutral hA.neutral_own
    rw [hmap]
    exact hops
  have hpi : π d.state = c.state := by
    rw [hstate π (fun i hi => hA.neutral_hidden _ (hmem i hi).2)]
    exact h.state
  have hpaired : Paired S π P P' c d := by
    refine ⟨h.status, hrun, hpi, ?_, hseen⟩
    rw [hdrop]
    exact hrest
  suffices hsuff : ∃ m, 1 ≤ m ∧ Follows S π P P'
      (M.step S.isReturn P c) (M'.run S.isReturn P' m d) by
    obtain ⟨m, hm, hfollows⟩ := hsuff
    refine ⟨(ops.map (plain : α → Instr α γ l)).length + m, by omega, ?_⟩
    rw [Machine.run_add]
    rw [hd]
    exact hfollows
  obtain ⟨hnil, rfl⟩ | ⟨i, Q, Q', hQ, rfl, hi, hrest⟩
    | ⟨i, Q, Q', last, hQ, rfl, hreturn, hguard, hlast⟩ := hfront
  . refine ⟨1, Nat.le_refl 1, ?_⟩
    rw [Machine.run_one]
    rw [Machine.step_of_end h.status hnil]
    rw [Machine.step_of_end hrun hdrop]
    exact hpaired.stopped
  . refine ⟨1, Nat.le_refl 1, ?_⟩
    rw [Machine.run_one]
    exact hpaired.step_keep hP hM hQ hdrop hi (hkeep i hi) hrest
  . exact hpaired.step_final hA hQ hdrop hreturn hguard hlast

theorem Follows.run (h : Follows S π P P' c c') (hP : Inserted S P P') (hM : M.Extends M' π S.own)
    (hA : M'.Admits S π) (hkeep : ∀ i, S.keep i → S.own i.op = false) (n : ℕ)
    : ∃ m, n ≤ m
        ∧ Follows S π P P' (M.run S.isReturn P n c) (M'.run S.isReturn P' m c') := by
  induction n with
  | zero => exact ⟨0, Nat.le_refl 0, h⟩
  | succ n ih =>
    obtain ⟨m, hm, hfollows⟩ := ih
    rw [Machine.run_add]
    rw [Machine.run_one]
    cases hfollows with
    | inl hpaired =>
      obtain ⟨k, hk, hnext⟩ := hpaired.step hP hM hA hkeep
      refine ⟨m + k, by omega, ?_⟩
      rw [Machine.run_add]
      exact hnext
    | inr hdone =>
      refine ⟨m + 1, by omega, ?_⟩
      have hdone' := hdone.1
      rw [← hdone.2.status] at hdone'
      rw [Machine.run_add]
      rw [M'.run_of_done S.isReturn P' 1 hdone']
      rw [M.step_of_done S.isReturn P hdone.1]
      exact .inr hdone

theorem Inserted.run_matches (hP : Inserted S P P') (hM : M.Extends M' π S.own) (hA : M'.Admits S π)
    (hkeep : ∀ i, S.keep i → S.own i.op = false) (s : σ) (n : ℕ)
    : ∃ m, n ≤ m ∧ Matches S π
        (M.run S.isReturn P n (.start (π s))) (M'.run S.isReturn P' m (.start s)) := by
  have hstart : Follows S π P P' (.start (π s)) (.start s) :=
    .inl ⟨rfl, rfl, rfl, hP, .nil⟩
  obtain ⟨m, hm, hfollows⟩ := hstart.run hP hM hA hkeep n
  exact ⟨m, hm, hfollows.matches⟩

end Simulation

end Instrumented
