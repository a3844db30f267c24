import Bpftime.Cuda.Request

/-!
This module contains when the exchange serves every call with its own request: the steps that copy
a request find no other pending, and each thread finds its lane active when its turn comes.
-/

namespace Bpftime.Cuda

namespace Stage

def watcherLeft : Stage → ℕ
  | .posted => 8
  | .seen => 7
  | .loadRequestId => 6
  | .loadMapId => 5
  | .loadFlags => 4
  | .execute _ => 3
  | .storeResp _ => 2
  | .storeFlag2 _ => 1
  | _ => 0

def threadLeft : Stage → ℕ
  | .clearFlag2 _ => 35
  | .readResp _ => 34
  | .spinUnlock _ _ => 33
  | _ => 36

end Stage

namespace State

variable {η : Type} {h : Host η} {s s' : State η} {c : Call} {g g' : Stage} {op : Op}
variable {mem : CommSharedMem} {ops : List Op}

theorem NextStage.watcherLeft_le (hnext : NextStage c mem g op g') (hissued : g.isIssued = true)
    : g'.watcherLeft ≤ g.watcherLeft - (if op.isWatcher then 1 else 0) := by
  cases hnext with
  | thread =>
    cases g with
    | storeRequestId | storeMapId | storeFlag1 => simp [Stage.isIssued] at hissued
    | _ => simp [Stage.threadNext, Stage.watcherLeft, Op.isWatcher]
  | watcher result =>
    cases g with
    | storeRequestId | storeMapId | storeFlag1 => simp [Stage.isIssued] at hissued
    | loadMapId =>
      dsimp only [Stage.watcherNext]
      split <;> simp [Stage.watcherLeft, Op.isWatcher]
    | _ => simp [Stage.watcherNext, Stage.watcherLeft, Op.isWatcher]
  | other _ hwatcher =>
    rw [hwatcher]
    simp

theorem NextStage.threadLeft_le (hnext : NextStage c mem g op g') (hissued : g.isIssued = true)
    (hleft : g.watcherLeft = 0)
    : g'.threadLeft ≤ g.threadLeft - (if op.isThread c.thread then 1 else 0) := by
  cases hnext with
  | thread hlast =>
    cases g with
    | answered | clearFlag2 | readResp =>
      simp [Stage.threadNext, Stage.threadLeft, Op.isThread]
    | spinUnlock => simp [Stage.unlocks] at hlast
    | storeRequestId | storeMapId | storeFlag1 => simp [Stage.isIssued] at hissued
    | _ => simp [Stage.watcherLeft] at hleft
  | watcher result =>
    cases g with
    | answered | clearFlag2 | readResp | spinUnlock =>
      simp [Stage.watcherNext, Op.isThread]
    | storeRequestId | storeMapId | storeFlag1 => simp [Stage.isIssued] at hissued
    | _ => simp [Stage.watcherLeft] at hleft
  | other hthread _ =>
    rw [hthread]
    simp

def Within (s : State η) (c : Call) (watcher thread : ℕ) : Prop :=
  s.Answered c ∨ (∃ i resp, s.threads c.thread = .rejoin c i resp ∧ 32 - i < thread) ∨
    ∃ g, s.Held c g ∧ g.isIssued = true ∧ g.watcherLeft ≤ watcher ∧
      (watcher = 0 → g.threadLeft ≤ thread)

theorem Within.step {w t : ℕ} (hw : s.Within c w t) (hstep : s.step h op = some s')
    : s'.Within c (w - (if op.isWatcher then 1 else 0))
        (if w = 0 then t - (if op.isThread c.thread then 1 else 0) else 36) := by
  rcases hw with ⟨v, hv⟩ | ⟨i, resp, hth, hleft⟩ | ⟨g, hheld, hissued, hwleft, htleft⟩
  . exact .inl ⟨v, (step_extends hstep).2.2.subset hv⟩
  . rcases step_of_rejoin hstep hth with ha | ⟨j, hth', hle⟩
    . exact .inl ha
    . refine .inr (.inl ⟨j, resp, hth', ?_⟩)
      split <;> omega
  . rcases hheld.step hstep with ⟨g', hheld', hnext⟩ | hunlocks
    . have hle := hnext.watcherLeft_le hissued
      refine .inr (.inr ⟨g', hheld', hnext.isIssued hissued, by omega, ?_⟩)
      intro hzero
      split
      next hw =>
        have hleft : g.watcherLeft = 0 := by omega
        have htleft := htleft hw
        have hle' := hnext.threadLeft_le hissued hleft
        omega
      next =>
        cases g' with
        | _ => simp [Stage.threadLeft]
    . rcases hunlocks.rejoin with ⟨result, resp, i, rfl, _, hi, hth⟩
      refine .inr (.inl ⟨i, resp, hth, ?_⟩)
      split
      next hw =>
        have htleft : 33 ≤ t := htleft hw
        split <;> omega
      next => omega

variable {C : State η → Op → Prop}

theorem Within.exec_watcher {w : ℕ} (hw : s.Within c w 36)
    (hrun : Run.Exec (State.step h) C s ops s')
    : s'.Within c (w - ops.countP Op.isWatcher) 36 := by
  induction hrun generalizing w with
  | nil s => simpa using hw
  | @cons s s₁ s' op ops _ hstep _ ih =>
    have hw₁ : s₁.Within c (w - (if op.isWatcher then 1 else 0)) 36 := by
      rcases hw.step hstep with ha | ⟨i, resp, hth, _⟩ | ⟨g, hheld, hissued, hleft, _⟩
      . exact .inl ha
      . exact .inr (.inl ⟨i, resp, hth, by omega⟩)
      . refine .inr (.inr ⟨g, hheld, hissued, hleft, ?_⟩)
        intro _
        cases g with
        | _ => simp [Stage.threadLeft]
    have hrest := ih hw₁
    rw [List.countP_cons, Nat.add_comm, ← Nat.sub_sub]
    exact hrest

theorem Within.exec_thread {t : ℕ} (hw : s.Within c 0 t)
    (hrun : Run.Exec (State.step h) C s ops s')
    : s'.Within c 0 (t - ops.countP (Op.isThread c.thread)) := by
  induction hrun generalizing t with
  | nil s => simpa using hw
  | @cons s s₁ s' op ops _ hstep _ ih =>
    have hw₁ : s₁.Within c 0 (t - (if op.isThread c.thread then 1 else 0)) := by
      simpa using hw.step hstep
    have hrest := ih hw₁
    rw [List.countP_cons, Nat.add_comm, ← Nat.sub_sub]
    exact hrest

theorem Sound.served {ops₁ ops₂ : List Op} (hs : s.Sound)
    (hc : c ∈ s.issued) (hrun : Run.Exec (State.step h) C s (ops₁ ++ ops₂) s')
    (hwatcher : 8 ≤ ops₁.countP Op.isWatcher)
    (hthread : 36 ≤ ops₂.countP (Op.isThread c.thread))
    : s'.Answered c := by
  rcases hrun.append_inv with ⟨s₁, hrun₁, hrun₂⟩
  have hw : s.Within c 8 36 := by
    rcases hs.settled c hc with ha | ⟨i, resp, hth⟩ | ⟨g, hheld, hissued⟩
    . exact .inl ha
    . exact .inr (.inl ⟨i, resp, hth, by omega⟩)
    . refine .inr (.inr ⟨g, hheld, hissued, ?_, by simp⟩)
      cases g with
      | _ => simp [Stage.watcherLeft]
  have hw₁ := hw.exec_watcher hrun₁
  rw [Nat.sub_eq_zero_of_le hwatcher] at hw₁
  have hw₂ := hw₁.exec_thread hrun₂
  rw [Nat.sub_eq_zero_of_le hthread] at hw₂
  rcases hw₂ with ha | ⟨i, _, _, hleft⟩ | ⟨g, _, _, _, hleft⟩
  . exact ha
  . exact absurd hleft (Nat.not_lt_zero _)
  . have hzero := hleft rfl
    cases g with
    | _ => simp [Stage.threadLeft] at hzero

theorem Sound.executed_length (hs : s.Sound)
    : s.executed.length ≤ s.issued.length ∧ s.issued.length ≤ s.executed.length + 1 := by
  rcases hs.turn with hfree | ⟨c, g, hheld⟩
  . have hlen := hfree.executed
    omega
  . have hlen := hheld.executed
    split at hlen <;> omega

/--
The condition on the lane loop: a thread finds its own lane active when its turn comes, and does
not return without having asked the host.
-/
def LaneActive (h : Host η) (s : State η) : Op → Prop
  | .lane t activeMask => ∀ c, s.threads t = .lane c (h.place t).laneId →
      activeMask.toNat.testBit (h.place t).laneId = true
  | _ => True

/-- No thread has passed its own lane without having entered it. -/
structure Entered (h : Host η) (s : State η) : Prop where
  lane : ∀ t c i, s.threads t = .lane c i → i ≤ (h.place t).laneId
  returned : ∀ c v, (c, v) ∈ s.returned → s.Reply c v

theorem entered_initial (maps : η) : (initial maps).Entered h := by
  constructor
  . intro t c i hth
    cases hth
  . intro c v hmem
    simp [initial] at hmem

theorem Entered.lane_step (he : s.Entered h) (hactive : s.LaneActive h op)
    (hstep : s.step h op = some s') (t : ℕ) (c : Call) (i : ℕ) (hth : s'.threads t = .lane c i)
    : i ≤ (h.place t).laneId := by
  by_cases hop : op.isThread t = true
  . cases op with
    | thread u =>
      obtain rfl : u = t := by simpa [Op.isThread] using hop
      rcases step_follows hstep u with hsame | hfollows
      . exact he.lane u c i (hsame.symm.trans hth)
      . rw [hth] at hfollows
        rcases hfollows with rfl | ⟨j, hj, _⟩
        . exact Nat.zero_le _
        . simp [step, threadStep, hj] at hstep
    | lane u activeMask =>
      obtain rfl : u = t := by simpa [Op.isThread] using hop
      cases (laneStep_inv hstep).2 with
      | pass c' j hth' _ hnot =>
        dsimp only [setThread] at hth
        rw [Function.update_self] at hth
        cases hth
        apply Nat.lt_of_le_of_ne (he.lane u c j hth')
        rintro rfl
        exact hnot ⟨hactive c hth', rfl⟩
      | _ =>
        dsimp only [setThread, helperReturn] at hth
        rw [Function.update_self] at hth
        cases hth
    | _ => simp [Op.isThread] at hop
  . rw [Bool.not_eq_true] at hop
    rcases step_threads hstep hop with hsame | ⟨c', hcopy⟩
    . exact he.lane t c i (hsame.symm.trans hth)
    . rw [hcopy] at hth
      cases hth

theorem Entered.returned_step (he : s.Entered h) (hs : s.Sound) (hstep : s.step h op = some s')
    (c : Call) (v : UInt64) (hmem : (c, v) ∈ s'.returned)
    : s'.Reply c v := by
  rcases step_returned hstep with hsame | ⟨t, c', resp, hnew, _, hth⟩
  . rw [hsame] at hmem
    exact (he.returned c v hmem).step hstep
  . rw [hnew, List.mem_append, List.mem_singleton] at hmem
    rcases hmem with hmem | heq
    . exact (he.returned c v hmem).step hstep
    . cases heq
      rcases hth with ⟨i, hth, hi, _⟩ | ⟨i, hth⟩
      . -- the loop is over, though the thread has not come to its own lane
        have hle := he.lane t c i hth
        have hlt := (h.place t).laneId_lt
        omega
      . exact (hs.rejoined t c i resp hth).step hstep

theorem Entered.step (he : s.Entered h) (hs : s.Sound) (hactive : s.LaneActive h op)
    (hstep : s.step h op = some s')
    : s'.Entered h := by
  constructor
  . exact he.lane_step hactive hstep
  . exact he.returned_step hs hstep

/-- Every call issued is executed once, with its own request, and gets its reply. -/
structure Meets (h : Host η) (s : State η) : Prop where
  nodup : s.issued.Nodup
  once : s.executed.length ≤ s.issued.length ∧ s.issued.length ≤ s.executed.length + 1
  own : ∀ (i : ℕ) (e : Execution), s.executed[i]? = some e → ∃ c : Call, s.issued[i]? = some c ∧
    e = c.request.execution h.info e.result
  returned : ∀ c v, (c, v) ∈ s.returned → s.Reply c v
  served : ∀ c ∈ s.issued, ∀ ops₁ ops₂ s',
    Run.Exec (State.step h) (fun _ _ => True) s (ops₁ ++ ops₂) s' →
    8 ≤ ops₁.countP Op.isWatcher → 36 ≤ ops₂.countP (Op.isThread c.thread) → s'.Answered c

theorem meets_of_copiesAlone (h : Host η) (maps : η) (ops : List Op) (s : State η)
    (hrun : Run.Exec (State.step h) (fun s op => s.CopiesAlone op ∧ s.LaneActive h op)
      (initial maps) ops s)
    : s.Meets h := by
  have hinv : s.Sound ∧ s.Intact h ∧ s.Entered h := by
    have hinit : (initial maps).Sound ∧ (initial maps).Intact h ∧ (initial maps).Entered h :=
      ⟨sound_initial maps, intact_initial maps, entered_initial maps⟩
    apply hrun.invariant _ hinit
    intro s op s' ⟨hs, hi, he⟩ ⟨halone, hactive⟩ hstep
    exact ⟨hs.step hstep, hi.step hs halone hstep, he.step hs hactive hstep⟩
  rcases hinv with ⟨hs, hi, he⟩
  constructor
  . exact hs.calls.nodup
  . exact hs.executed_length
  . exact hi.own
  . exact he.returned
  . intro c hc ops₁ ops₂ s' hrun' hwatcher hthread
    exact hs.served hc hrun' hwatcher hthread

theorem laneActive_of_hardwareLane (hlane : ∀ t, (h.place t).hardwareLane = (h.place t).laneId)
    (hstep : s.step h op = some s')
    : s.LaneActive h op := by
  cases op with
  | lane t activeMask =>
    intro c _
    rw [← hlane]
    exact (laneStep_inv hstep).1
  | _ => trivial

def byteHost : Host Unit where
  info := fun _ => { keySize := 1, valueSize := 1, mapType := 1 }
  exec := fun maps _ _ key _ _ => ((key.headD 0).toUInt64 + 100, maps)
  place := fun t => { blockDim := ⟨64, 1, 1⟩, threadIdx := ⟨t.toUInt32, 0, 0⟩ }

def byteLookup (key : UInt8) : Request where
  op := .mapLookup
  map := 3
  key := fun _ => key
  value := fun _ => 0
  flags := 0

theorem meets_byteHost_oneLookup
    : ∃ ops s, Run.Exec (State.step byteHost)
          (fun s op => s.CopiesAlone op ∧ s.LaneActive byteHost op) (initial ()) ops s ∧
        s.returned = [(⟨0, 0, byteLookup 7⟩, 107)] ∧ s.Meets byteHost := by
  have hrun : ∃ s, Run.Exec (State.step byteHost) CopiesAlone (initial ())
      (.call 0 (byteLookup 7) :: .thread 0 :: .lane 0 1 :: (List.replicate 4 (.thread 0) ++
        List.replicate 7 .watcher ++ List.replicate 4 (.thread 0) ++
        List.replicate 32 (.lane 0 1))) s ∧
      s.returned = [(⟨0, 0, byteLookup 7⟩, 107)] := by
    apply Exists.intro
    apply And.intro
    . apply Run.Exec.cons (fun hcopy => hcopy.elim) rfl
      apply Run.Exec.cons _ rfl
      . iterate 48 apply Run.Exec.cons (fun hcopy => hcopy.elim) rfl
        apply Run.Exec.nil
      . intro _ t ht hpending
        have hne : t ≠ 0 := by
          intro heq
          simp [heq, Op.isThread] at ht
        simp [Pending, setThread, Function.update_of_ne hne, initial] at hpending
    . rfl
  rcases hrun with ⟨s, hrun, hreturned⟩
  have hlane (t : ℕ) : (byteHost.place t).hardwareLane = (byteHost.place t).laneId :=
    Place.hardwareLane_eq_laneId _ (.inl ⟨rfl, rfl⟩)
  have hrun' := hrun.mono fun _ _ _ halone hstep =>
    And.intro halone (laneActive_of_hardwareLane hlane hstep)
  exact ⟨_, s, hrun', hreturned, meets_of_copiesAlone byteHost () _ s hrun'⟩

def twoLookups : List Op :=
  [.call 0 (byteLookup 1), .call 1 (byteLookup 2), .thread 0, .thread 1, .lane 0 3] ++
    List.replicate 4 (.thread 0) ++ List.replicate 7 .watcher ++ List.replicate 4 (.thread 0) ++
    List.replicate 32 (.lane 0 3)

theorem not_meets_twoLookups
    : ∃ s, Run.Exec (State.step byteHost) (fun _ _ => True) (initial ()) twoLookups s ∧
        s.returned = [(⟨0, 0, byteLookup 1⟩, 102)] ∧ ¬ s.Meets byteHost := by
  apply Exists.intro
  apply And.intro
  . iterate 52 apply Run.Exec.cons trivial rfl
    apply Run.Exec.nil
  . apply And.intro rfl
    intro hmeets
    rcases hmeets.own 0 _ rfl with ⟨c, hc, hexecution⟩
    cases hc
    have hkey := congrArg Execution.key hexecution
    exact absurd hkey (by decide)

/-- The same host, where the blocks of the kernel are two rows of sixteen threads. -/
def rowsHost : Host Unit :=
  { byteHost with place := fun t => { blockDim := ⟨16, 2, 1⟩, threadIdx := ⟨0, t.toUInt32, 0⟩ } }

-- The second row is in the upper half of the warp: alone, its first thread never finds lane 0 active.
example
    : ∃ s, Run.Exec (State.step rowsHost) CopiesAlone (initial ())
          (.call 1 (byteLookup 7) :: .thread 1 :: List.replicate 33 (.lane 1 0x10000)) s ∧
        s.issued.length = 0 ∧ s.returned = [(⟨0, 1, byteLookup 7⟩, 0)] := by
  apply Exists.intro
  apply And.intro
  . apply Run.Exec.cons (fun hcopy => hcopy.elim) rfl
    apply Run.Exec.cons _ rfl
    . iterate 33 apply Run.Exec.cons (fun hcopy => hcopy.elim) rfl
      apply Run.Exec.nil
    . intro _ t ht hpending
      have hne : t ≠ 1 := by
        intro heq
        simp [heq, Op.isThread] at ht
      simp [Pending, setThread, Function.update_of_ne hne, initial] at hpending
  . exact ⟨rfl, rfl⟩

end State

end Bpftime.Cuda
