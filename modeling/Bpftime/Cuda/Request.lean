import Bpftime.Cuda.Lemmas.Calls
import Bpftime.Data.Run

namespace Bpftime.Cuda

def Request.ownFlags (r : Request) : UInt64 := if r.op = .mapUpdate then r.flags else 0

def Request.execution (info : UInt64 → MapBasicInfo) (r : Request) (result : UInt64) : Execution where
  op := r.op
  mapFd := r.map.toInt64
  key := bytes (info r.map).keySize r.key
  value := if r.op = .mapUpdate then bytes (info r.map).valueSize r.value else []
  flags := r.ownFlags
  result := result

def Thread.Copied (info : UInt64 → MapBasicInfo) (mem : CommSharedMem) : Thread → Prop
  | .copyValue c => bytes (info c.request.map).keySize mem.reqKey
      = bytes (info c.request.map).keySize c.request.key
  | .storeFlags c => bytes (info c.request.map).keySize mem.reqKey
        = bytes (info c.request.map).keySize c.request.key ∧
      bytes (info c.request.map).valueSize mem.reqValue
        = bytes (info c.request.map).valueSize c.request.value
  | .lane c _ | .spinLock c | .storeRequestId c | .storeMapId c | .storeFlag1 c | .spinWait c =>
    bytes (info c.request.map).keySize mem.reqKey
        = bytes (info c.request.map).keySize c.request.key ∧
      (c.request.op = .mapUpdate →
        bytes (info c.request.map).valueSize mem.reqValue
          = bytes (info c.request.map).valueSize c.request.value ∧
        mem.reqFlags = c.request.flags)
  | _ => True

theorem bytes_simpleMemcpy (dst src : ℕ → UInt8) (n : ℕ)
    : bytes n (simpleMemcpy dst src n) = bytes n src := by
  unfold bytes simpleMemcpy
  apply List.map_congr_left
  intro i hi
  rw [if_pos (List.mem_range.mp hi)]

namespace State

variable {η : Type} {h : Host η} {s s' : State η} {c : Call} {g : Stage} {op : Op} {t : ℕ}

def Pending (s : State η) (t : ℕ) : Prop :=
  match s.threads t with
  | .copyValue _ | .storeFlags _ | .lane _ _ | .spinLock _ | .storeRequestId _ | .storeMapId _
  | .storeFlag1 _ => True
  | .spinWait _ => s.executed.length < s.issued.length
  | _ => False

def Copying (s : State η) : Op → Prop
  | .thread t =>
    match s.threads t with
    | .copyKey _ | .copyValue _ | .storeFlags _ => True
    | _ => False
  | _ => False

/-- A thread copies its request only while no other thread has one pending. -/
def CopiesAlone (s : State η) (op : Op) : Prop :=
  s.Copying op → ∀ t, op.isThread t = false → ¬ s.Pending t

structure Intact (h : Host η) (s : State η) : Prop where
  copied : ∀ t, s.Pending t → (s.threads t).Copied h.info s.mem
  flags : ∀ c flags, s.Held c (.execute flags) → flags = c.request.ownFlags
  own : ∀ (i : ℕ) (e : Execution), s.executed[i]? = some e → ∃ c : Call, s.issued[i]? = some c ∧
    e = c.request.execution h.info e.result

theorem intact_initial (maps : η) : (initial maps).Intact h := by
  constructor
  . intro t hp
    exact hp.elim
  . intro c flags hheld
    exact absurd hheld (free_initial maps).not_held
  . intro i e he
    simp [initial] at he

theorem step_request (hstep : s.step h op = some s') (hnot : ¬ s.Copying op)
    : s'.mem.reqKey = s.mem.reqKey ∧ s'.mem.reqValue = s.mem.reqValue ∧
        s'.mem.reqFlags = s.mem.reqFlags := by
  cases op with
  | call t r =>
    unfold step call at hstep
    dsimp only at hstep
    split at hstep
    next =>
      split at hstep
      next =>
        cases hstep
        exact ⟨rfl, rfl, rfl⟩
      next => simp at hstep
    next => simp at hstep
  | thread t =>
    unfold step threadStep at hstep
    unfold Copying at hnot
    cases hth : s.threads t with
    | idle | lane | rejoin => simp [hth] at hstep
    | copyKey | copyValue | storeFlags => simp [hth] at hnot
    | _ =>
      simp only [hth] at hstep
      cases hstep
      exact ⟨rfl, rfl, rfl⟩
  | lane t activeMask =>
    cases (laneStep_inv hstep).2 with
    | _ => exact ⟨rfl, rfl, rfl⟩
  | watcher =>
    cases hstep
    exact (watcherStep_watched h s).request

theorem Held.stage_eq {flags : UInt64} (hheld : s.Held c g)
    (hw : ∃ o mapFd, s.watcher = .execute o mapFd flags)
    : g = .execute flags := by
  rcases hw with ⟨o, mapFd, hw⟩
  rw [hheld.watcher] at hw
  cases g with
  | execute flags' =>
    cases hw
    rfl
  | _ => cases hw

theorem Held.pending (hheld : s.Held c g) (hissued : g.isIssued = true) (hresult : g.result? = none)
    : s.Pending c.thread ∧ (g.thread c = .spinWait c) := by
  have hth : g.thread c = .spinWait c := by
    cases g with
    | clearFlag2 | readResp | spinUnlock => simp [Stage.result?] at hresult
    | storeRequestId | storeMapId | storeFlag1 => simp [Stage.isIssued] at hissued
    | _ => rfl
  refine ⟨?_, hth⟩
  have hlen := hheld.executed
  rw [hissued, hresult] at hlen
  unfold Pending
  rw [hheld.thread, hth]
  simp at hlen
  omega

theorem Intact.request (hi : s.Intact h) (hheld : s.Held c g) (hissued : g.isIssued = true)
    (hresult : g.result? = none)
    : bytes (h.info c.request.map).keySize s.mem.reqKey
          = bytes (h.info c.request.map).keySize c.request.key ∧
      (c.request.op = .mapUpdate →
        bytes (h.info c.request.map).valueSize s.mem.reqValue
          = bytes (h.info c.request.map).valueSize c.request.value ∧
        s.mem.reqFlags = c.request.flags) := by
  rcases hheld.pending hissued hresult with ⟨hp, hth⟩
  have hcopied := hi.copied c.thread hp
  rw [hheld.thread, hth] at hcopied
  exact hcopied

theorem Intact.flags_step (hs : s.Sound) (hi : s.Intact h) (hstep : s.step h op = some s')
    (c : Call) (flags : UInt64) (hheld' : s'.Held c (.execute flags))
    : flags = c.request.ownFlags := by
  rcases hs.turn with hfree | ⟨c₀, g₀, hheld⟩
  . rcases hfree.step hs.calls hstep with hfree' | ⟨c₁, hheld₁⟩
    . exact absurd hheld' hfree'.not_held
    . have hw := hheld'.watcher
      rw [hheld₁.watcher] at hw
      cases hw
  . rcases hheld.step hstep with ⟨g₁, hheld₁, hnext⟩ | hunlocks
    . cases hheld₁.unique hheld'
      have hg₁ := hheld₁.stage_eq ⟨_, _, hheld'.watcher⟩
      rw [hg₁] at hnext
      -- the flags were there before, or the watcher has loaded them in this step
      generalize hg : Stage.execute flags = g₂ at hnext
      cases hnext with
      | thread =>
        cases g₀ with
        | execute flags₀ =>
          cases hg
          exact hi.flags c flags hheld
        | _ => cases hg
      | watcher result =>
        cases g₀ with
        | loadMapId =>
          dsimp only [Stage.watcherNext] at hg
          split at hg
          next => cases hg
          next hop =>
            cases hg
            unfold Request.ownFlags
            rw [if_neg hop]
        | loadFlags =>
          cases hg
          have hop : c.request.op = .mapUpdate := hheld.stored
          unfold Request.ownFlags
          rw [if_pos hop]
          exact ((hi.request hheld rfl rfl).2 hop).2
        | _ => cases hg
      | other =>
        rw [← hg] at hheld
        exact hi.flags c flags hheld
    . exact absurd hheld' hunlocks.free.not_held

/-- What a step has carried out is the call of the thread that is being served. -/
theorem Sound.executed_step (hs : s.Sound) (hstep : s.step h op = some s') {i : ℕ} {e : Execution}
    (he : s'.executed[i]? = some e)
    : s.executed[i]? = some e ∨ ∃ c flags result, s.Held c (.execute flags) ∧
        s'.issued[i]? = some c ∧
        e = s.execution h c.request.op c.request.map.toInt64 flags result := by
  rcases step_executed hstep with hsame | ⟨o, mapFd, flags, result, hw, hnew⟩
  . exact .inl (hsame ▸ he)
  . rcases hs.turn with hfree | ⟨c, g, hheld⟩
    . rw [hfree.watcher] at hw
      cases hw
    . obtain rfl := hheld.stage_eq ⟨o, mapFd, hw⟩
      rw [hheld.watcher] at hw
      cases hw
      have hlast := hheld.executed
      simp only [Stage.isIssued, Stage.result?, Option.isNone_none, Bool.and_self, if_true] at hlast
      rw [hnew, List.getElem?_append] at he
      split at he
      next => exact .inl he
      next hge =>
        rcases List.getElem?_eq_some_iff.mp he with ⟨hlt, rfl⟩
        rw [List.length_singleton] at hlt
        have hc : s.issued[i]? = some c := by
          rw [show i = s.issued.length - 1 by omega, ← List.getLast?_eq_getElem?]
          exact hheld.issued rfl
        refine .inr ⟨c, flags, result, hheld, ?_, by simp⟩
        exact getElem?_of_extends (step_extends hstep).1 hc

theorem Intact.own_step (hs : s.Sound) (hi : s.Intact h) (hstep : s.step h op = some s')
    (i : ℕ) (e : Execution) (he : s'.executed[i]? = some e)
    : ∃ c : Call, s'.issued[i]? = some c ∧ e = c.request.execution h.info e.result := by
  rcases hs.executed_step hstep he with he | ⟨c, flags, result, hheld, hc, rfl⟩
  . rcases hi.own i e he with ⟨c, hc, heq⟩
    exact ⟨c, getElem?_of_extends (step_extends hstep).1 hc, heq⟩
  . have hreq := hi.request hheld rfl rfl
    have hflags := hi.flags c flags hheld
    refine ⟨c, hc, ?_⟩
    unfold execution Request.execution
    simp only [UInt64.toUInt64_toInt64, hreq.1, hflags]
    congr 1
    split
    next hop => rw [(hreq.2 hop).1]
    next => rfl

theorem spinWait_or_of_pending (hp : s.Pending t)
    : (∃ c, s.threads t = .spinWait c) ∨ ∀ s' : State η, s'.threads t = s.threads t → s'.Pending t := by
  unfold Pending at hp
  cases hth : s.threads t with
  | spinWait c => exact .inl ⟨c, rfl⟩
  | idle | copyKey | clearFlag2 | readResp | spinUnlock | rejoin => simp [hth] at hp
  | _ =>
    right
    intro s' hsame
    unfold Pending
    rw [hsame]
    trivial

theorem Sound.issued_of_spinWait (hs : s.Sound) (hstep : s.step h op = some s')
    (hth : s.threads t = .spinWait c) (hop : op.isThread t = false)
    : s'.issued = s.issued := by
  rcases step_issued hstep with hsame | ⟨c', u, rfl, hu, _⟩
  . exact hsame
  . exfalso
    have ht : t = u := hs.exclusive (by rw [hth]; rfl) (by rw [hu]; rfl)
    simp [Op.isThread, ht] at hop

theorem Sound.pending_of_step (hs : s.Sound) (hstep : s.step h op = some s')
    (hop : op.isThread t = false) (hp : s'.Pending t)
    : s.Pending t ∧ s'.threads t = s.threads t := by
  rcases step_threads hstep hop with hsame | ⟨c, hcopy⟩
  . refine ⟨?_, hsame⟩
    rcases spinWait_or_of_pending hp with ⟨c, hth⟩ | hstable
    . have hissued := hs.issued_of_spinWait hstep (hsame.symm.trans hth) hop
      have hexecuted := (step_extends hstep).2.1.length_le
      unfold Pending at hp ⊢
      rw [← hsame]
      rw [hth] at hp ⊢
      dsimp only at hp ⊢
      rw [← hissued]
      omega
    . exact hstable s hsame.symm
  . unfold Pending at hp
    rw [hcopy] at hp
    exact hp.elim

theorem Copied.congr {mem mem' : CommSharedMem} {th : Thread} {info : UInt64 → MapBasicInfo}
    (hkey : mem'.reqKey = mem.reqKey) (hvalue : mem'.reqValue = mem.reqValue)
    (hflags : mem'.reqFlags = mem.reqFlags) (hcopied : th.Copied info mem)
    : th.Copied info mem' := by
  cases th with
  | copyValue | storeFlags | lane | spinLock | storeRequestId | storeMapId | storeFlag1 | spinWait =>
    simp only [Thread.Copied, hkey, hvalue, hflags] at hcopied ⊢
    exact hcopied
  | _ => trivial

theorem copied_of_copying (hi : s.Intact h) (hstep : s.step h (.thread t) = some s')
    (hcopying : s.Copying (.thread t))
    : (s'.threads t).Copied h.info s'.mem := by
  unfold step threadStep at hstep
  unfold Copying at hcopying
  cases hth : s.threads t with
  | copyKey c =>
    simp only [hth] at hstep
    split at hstep
    next =>
      cases hstep
      dsimp only [setThread]
      rw [Function.update_self]
      split
      next => exact bytes_simpleMemcpy _ _ _
      next hop => exact ⟨bytes_simpleMemcpy _ _ _, fun hop' => absurd hop' hop⟩
    next => simp at hstep
  | copyValue c =>
    have hcopied := hi.copied t (by unfold Pending; rw [hth]; trivial)
    rw [hth] at hcopied
    simp only [hth] at hstep
    split at hstep
    next =>
      cases hstep
      dsimp only [setThread]
      rw [Function.update_self]
      exact ⟨hcopied, bytes_simpleMemcpy _ _ _⟩
    next => simp at hstep
  | storeFlags c =>
    have hcopied := hi.copied t (by unfold Pending; rw [hth]; trivial)
    rw [hth] at hcopied
    simp only [hth] at hstep
    cases hstep
    dsimp only [setThread]
    rw [Function.update_self]
    exact ⟨hcopied.1, fun _ => ⟨hcopied.2, rfl⟩⟩
  | _ => simp [hth] at hcopying

theorem copied_of_moving (hi : s.Intact h) (hstep : s.step h (.thread t) = some s')
    (hnot : ¬ s.Copying (.thread t)) (hp : s'.Pending t)
    : (s'.threads t).Copied h.info s'.mem := by
  rcases step_request hstep hnot with ⟨hkey, hvalue, hflags⟩
  apply Copied.congr hkey hvalue hflags
  have hcopied := hi.copied t
  unfold step threadStep at hstep
  unfold Copying at hnot
  unfold Pending at hcopied hp
  cases hth : s.threads t with
  | idle | lane | rejoin => simp [hth] at hstep
  | copyKey | copyValue | storeFlags => simp [hth] at hnot
  | spinLock c =>
    simp only [hth] at hstep hcopied
    cases hstep
    dsimp only [setThread]
    rw [Function.update_self]
    split <;> exact hcopied trivial
  | storeRequestId c | storeMapId c | storeFlag1 c =>
    simp only [hth] at hstep hcopied
    cases hstep
    dsimp only [setThread]
    rw [Function.update_self]
    exact hcopied trivial
  | spinWait c =>
    simp only [hth] at hstep hcopied
    cases hstep
    dsimp only [setThread] at hp ⊢
    rw [Function.update_self] at hp ⊢
    by_cases hflag2 : s.mem.flag2 = 0
    . rw [if_pos hflag2] at hp ⊢
      exact hcopied hp
    . rw [if_neg hflag2] at hp
      exact hp.elim
  | clearFlag2 c | readResp c | spinUnlock c =>
    simp only [hth] at hstep
    cases hstep
    dsimp only [setThread] at hp
    rw [Function.update_self] at hp
    exact hp.elim

theorem copied_of_lane {activeMask : UInt32} (hi : s.Intact h)
    (hstep : s.step h (.lane t activeMask) = some s')
    : (s'.threads t).Copied h.info s'.mem := by
  cases (laneStep_inv hstep).2 with
  | enter c hth | pass c _ hth =>
    have hcopied := hi.copied t (by unfold Pending; rw [hth]; trivial)
    dsimp only [setThread]
    rw [Function.update_self]
    rw [hth] at hcopied
    exact hcopied
  | unserved | rejoin | served =>
    dsimp only [setThread, helperReturn]
    rw [Function.update_self]
    trivial

theorem Intact.step (hs : s.Sound) (hi : s.Intact h) (halone : s.CopiesAlone op)
    (hstep : s.step h op = some s')
    : s'.Intact h := by
  constructor
  . intro t hp
    by_cases hop : op.isThread t = true
    . cases op with
      | thread u =>
        obtain rfl : u = t := by simpa [Op.isThread] using hop
        by_cases hcopying : s.Copying (.thread u)
        . exact copied_of_copying hi hstep hcopying
        . exact copied_of_moving hi hstep hcopying hp
      | lane u activeMask =>
        obtain rfl : u = t := by simpa [Op.isThread] using hop
        exact copied_of_lane hi hstep
      | _ => simp [Op.isThread] at hop
    . rw [Bool.not_eq_true] at hop
      rcases hs.pending_of_step hstep hop hp with ⟨hp₀, hsame⟩
      have hnot : ¬ s.Copying op := fun hcopying => halone hcopying t hop hp₀
      rcases step_request hstep hnot with ⟨hkey, hvalue, hflags⟩
      rw [hsame]
      exact Copied.congr hkey hvalue hflags (hi.copied t hp₀)
  . exact hi.flags_step hs hstep
  . exact hi.own_step hs hstep

end State

end Bpftime.Cuda
