import Bpftime.Cuda.Lemmas.Protocol
import Mathlib.Data.List.Nodup

namespace Bpftime.Cuda

def Thread.call? : Thread → Option Call
  | .idle => none
  | .copyKey c | .copyValue c | .storeFlags c | .lane c _ | .spinLock c | .storeRequestId c
  | .storeMapId c | .storeFlag1 c | .spinWait c | .clearFlag2 c | .readResp c | .spinUnlock c _
  | .rejoin c _ _ => some c

def Thread.unissued? : Thread → Option Call
  | .copyKey c | .copyValue c | .storeFlags c | .lane c _ | .spinLock c | .storeRequestId c
  | .storeMapId c | .storeFlag1 c => some c
  | _ => none

/-- How a thread comes to the start of a call and to a turn of the lane loop. -/
def Thread.Follows (th₀ : Thread) : Thread → Prop
  | .copyKey _ => th₀ = .idle
  | .lane c i => i = 0 ∨ ∃ j, th₀ = .lane c j ∧ i = j + 1
  | .rejoin c _ resp => th₀ = .spinUnlock c resp ∨ ∃ j, th₀ = .rejoin c j resp
  | _ => True

theorem call?_of_unissued? {th : Thread} {c : Call} (h : th.unissued? = some c)
    : th.call? = some c := by
  cases th with
  | idle | spinWait | clearFlag2 | readResp | spinUnlock | rejoin =>
    simp [Thread.unissued?] at h
  | _ => exact h

namespace State

variable {η : Type} {h : Host η} {s s' : State η} {c : Call} {g : Stage} {op : Op} {t : ℕ}

/-- A step of thread `t`, or a call by it, which puts it into the state `th`. -/
structure Moved (s s' : State η) (op : Op) (t : ℕ) (th : Thread) : Prop where
  threads : s'.threads = Function.update s.threads t th
  actor : op.isThread t = true ∨ ∃ c, th = .copyKey c
  call : ∀ c, th.call? = some c →
    (s.threads t).call? = some c ∨ (c.thread = t ∧ s.nextId ≤ c.id ∧ c.id < s'.nextId)
  unissued : ∀ c, th.unissued? = some c →
    (s.threads t).unissued? = some c ∨ s.nextId ≤ c.id
  follows : (s.threads t).Follows th
  nextId : s.nextId ≤ s'.nextId
  issued : s'.issued = s.issued ∨
    ∃ c, op = .thread t ∧ s.threads t = .storeFlag1 c ∧ th = .spinWait c ∧
      s'.issued = s.issued ++ [c]
  executed : s'.executed = s.executed
  returned : s'.returned = s.returned ∨
    ∃ c resp, th = .idle ∧ s'.returned = s.returned ++ [(c, resp.read c.request.op)] ∧
      ((∃ i, s.threads t = .lane c i ∧ 32 ≤ i ∧ resp = ⟨0, 0⟩) ∨
        ∃ i, s.threads t = .rejoin c i resp)

theorem moved_setThread {th₀ th : Thread} (hop : op.isThread t = true) (hth : s.threads t = th₀)
    (mem : CommSharedMem) (hcall : th.call? = th₀.call? := by rfl)
    (hunissued : ∀ c, th.unissued? = some c → th₀.unissued? = some c := by exact fun _ hc => hc)
    (hfollows : th₀.Follows th := by trivial)
    : s.Moved { s.setThread t th with mem := mem } op t th := by
  cases hth
  refine ⟨rfl, .inl hop, ?_, ?_, hfollows, Nat.le_refl _, .inl rfl, rfl, .inl rfl⟩
  . exact fun c hc => .inl (hcall.symm.trans hc)
  . exact fun c hc => .inl (hunissued c hc)

theorem call_moved {r : Request} (hcall : s.call h t r = some s')
    : ∃ th, s.Moved s' (.call t r) t th := by
  unfold State.call at hcall
  split at hcall
  next hidle =>
    split at hcall
    next =>
      cases hcall
      refine ⟨_, rfl, .inr ⟨_, rfl⟩, ?_, ?_, hidle, Nat.le_succ _, .inl rfl, rfl, .inl rfl⟩
      . intro c hc
        cases hc
        exact .inr ⟨rfl, Nat.le_refl _, Nat.lt_succ_self _⟩
      . intro c hc
        cases hc
        exact .inr (Nat.le_refl _)
    next => simp at hcall
  next => simp at hcall

theorem threadStep_moved (hstep : s.threadStep h t = some s')
    : ∃ th, s.Moved s' (.thread t) t th := by
  have hop : (Op.thread t).isThread t = true := by simp [Op.isThread]
  unfold threadStep at hstep
  cases hth : s.threads t with
  | idle | lane | rejoin => simp [hth] at hstep
  | copyKey c =>
    simp only [hth] at hstep
    split at hstep
    next =>
      cases hstep
      refine ⟨_, moved_setThread hop hth _ ?_ ?_ ?_⟩
      . split <;> rfl
      . split <;> exact fun _ hc => hc
      . split
        next => trivial
        next => exact .inl rfl
    next => simp at hstep
  | copyValue c =>
    simp only [hth] at hstep
    split at hstep
    next =>
      cases hstep
      exact ⟨_, moved_setThread hop hth _⟩
    next => simp at hstep
  | spinLock c | spinWait c =>
    simp only [hth] at hstep
    cases hstep
    refine ⟨_, moved_setThread hop hth _ ?_ ?_ ?_⟩
    . split <;> rfl
    . split <;> exact fun _ hc => hc
    . split <;> trivial
  | storeFlag1 c =>
    simp only [hth] at hstep
    cases hstep
    refine ⟨_, rfl, .inl hop, ?_, nofun, trivial, Nat.le_refl _, ?_, rfl, .inl rfl⟩
    . exact fun _ hc => .inl (by rw [hth]; exact hc)
    . exact .inr ⟨c, rfl, hth, rfl, rfl⟩
  | spinUnlock c resp =>
    simp only [hth] at hstep
    cases hstep
    refine ⟨_, moved_setThread hop hth _ ?_ nofun ?_⟩
    . rfl
    . exact .inl rfl
  | storeFlags c =>
    simp only [hth] at hstep
    cases hstep
    refine ⟨_, moved_setThread hop hth _ ?_ ?_ (.inl rfl)⟩
    . rfl
    . exact fun _ hc => hc
  | _ =>
    simp only [hth] at hstep
    cases hstep
    exact ⟨_, moved_setThread hop hth _⟩

theorem LaneStep.moved {activeMask : UInt32} (hl : LaneStep h s t activeMask s')
    : ∃ th, s.Moved s' (.lane t activeMask) t th := by
  have hop : (Op.lane t activeMask).isThread t = true := by simp [Op.isThread]
  cases hl with
  | enter c hth => exact ⟨_, moved_setThread hop hth _⟩
  | pass c i hth =>
    refine ⟨_, moved_setThread hop hth _ ?_ ?_ (.inr ⟨i, rfl, rfl⟩)⟩
    . rfl
    . exact fun _ hc => hc
  | rejoin c i resp hth =>
    refine ⟨_, moved_setThread hop hth _ ?_ nofun (.inr ⟨i, rfl⟩)⟩
    rfl
  | unserved c i hth hi =>
    refine ⟨_, rfl, .inl hop, nofun, nofun, trivial, Nat.le_refl _, .inl rfl, rfl, ?_⟩
    exact .inr ⟨c, _, rfl, rfl, .inl ⟨i, hth, hi, rfl⟩⟩
  | served c i resp hth =>
    refine ⟨_, rfl, .inl hop, nofun, nofun, trivial, Nat.le_refl _, .inl rfl, rfl, ?_⟩
    exact .inr ⟨c, _, rfl, rfl, .inr ⟨i, hth⟩⟩

structure Watched (h : Host η) (s s' : State η) : Prop where
  threads : s'.threads = s.threads
  nextId : s'.nextId = s.nextId
  issued : s'.issued = s.issued
  executed : s'.executed = s.executed ∨ ∃ op mapFd flags result,
    s.watcher = .execute op mapFd flags ∧
      s'.executed = s.executed ++ [s.execution h op mapFd flags result]
  returned : s'.returned = s.returned
  request : s'.mem.reqKey = s.mem.reqKey ∧ s'.mem.reqValue = s.mem.reqValue ∧
    s'.mem.reqFlags = s.mem.reqFlags

theorem watcherStep_watched (h : Host η) (s : State η) : s.Watched h (s.watcherStep h) := by
  unfold watcherStep
  cases hw : s.watcher with
  | execute op mapFd flags =>
    exact ⟨rfl, rfl, rfl, .inr ⟨op, mapFd, flags, _, hw, rfl⟩, rfl, rfl, rfl, rfl⟩
  | loadMapId reqId =>
    dsimp only
    repeat' split
    all_goals exact ⟨rfl, rfl, rfl, .inl rfl, rfl, rfl, rfl, rfl⟩
  | _ => exact ⟨rfl, rfl, rfl, .inl rfl, rfl, rfl, rfl, rfl⟩

theorem step_inv (hstep : s.step h op = some s')
    : (∃ t th, s.Moved s' op t th) ∨ (op = .watcher ∧ s.Watched h s') := by
  cases op with
  | call t r => exact .inl ⟨t, call_moved hstep⟩
  | thread t => exact .inl ⟨t, threadStep_moved hstep⟩
  | lane t activeMask => exact .inl ⟨t, (laneStep_inv hstep).2.moved⟩
  | watcher =>
    cases hstep
    exact .inr ⟨rfl, watcherStep_watched h s⟩

theorem Moved.threads_or {th : Thread} (hm : s.Moved s' op t th) (u : ℕ)
    : (u = t ∧ s'.threads u = th) ∨ (u ≠ t ∧ s'.threads u = s.threads u) := by
  rw [hm.threads]
  by_cases heq : u = t
  . exact .inl ⟨heq, by rw [heq, Function.update_self]⟩
  . exact .inr ⟨heq, Function.update_of_ne heq _ _⟩

structure Calls (s : State η) : Prop where
  own : ∀ t c, (s.threads t).call? = some c → c.thread = t ∧ c.id < s.nextId
  fresh : ∀ t c, (s.threads t).unissued? = some c → c ∉ s.issued
  issued : ∀ c ∈ s.issued, c.id < s.nextId
  nodup : s.issued.Nodup
  done : ∀ c v, (c, v) ∈ s.returned → c.id < s.nextId ∧ ∀ t, (s.threads t).call? ≠ some c

theorem calls_initial (maps : η) : (initial maps).Calls := by
  constructor
  . intro t c hc
    simp [initial, Thread.call?] at hc
  . intro t c hc
    simp [initial, Thread.unissued?] at hc
  . simp [initial]
  . simp [initial]
  . simp [initial]

theorem Calls.own_moved {th : Thread} (hcalls : s.Calls) (hm : s.Moved s' op t th) (u : ℕ) (c : Call)
    (hc : (s'.threads u).call? = some c)
    : c.thread = u ∧ c.id < s'.nextId ∧
        ((s.threads u).call? = some c ∨ (u = t ∧ s.nextId ≤ c.id)) := by
  have hold (hc : (s.threads u).call? = some c) : c.thread = u ∧ c.id < s'.nextId ∧
      ((s.threads u).call? = some c ∨ (u = t ∧ s.nextId ≤ c.id)) := by
    have hown := hcalls.own u c hc
    exact ⟨hown.1, Nat.lt_of_lt_of_le hown.2 hm.nextId, .inl hc⟩
  rcases hm.threads_or u with ⟨rfl, hth⟩ | ⟨_, hth⟩
  . rw [hth] at hc
    rcases hm.call c hc with hc | ⟨hthread, hle, hlt⟩
    . exact hold hc
    . exact ⟨hthread, hlt, .inr ⟨rfl, hle⟩⟩
  . rw [hth] at hc
    exact hold hc

theorem Calls.fresh_moved {th : Thread} (hcalls : s.Calls) (hm : s.Moved s' op t th) (u : ℕ)
    (c : Call) (hc : (s'.threads u).unissued? = some c)
    : c ∉ s.issued := by
  intro hmem
  have hlt := hcalls.issued c hmem
  rcases hm.threads_or u with ⟨rfl, hth⟩ | ⟨_, hth⟩
  . rw [hth] at hc
    rcases hm.unissued c hc with hc | hle
    . exact hcalls.fresh u c hc hmem
    . omega
  . rw [hth] at hc
    exact hcalls.fresh u c hc hmem

theorem Calls.done_moved {th : Thread} (hcalls : s.Calls) (hm : s.Moved s' op t th) (c : Call)
    (v : UInt64) (hmem : (c, v) ∈ s'.returned)
    : c.id < s'.nextId ∧ ∀ u, (s'.threads u).call? ≠ some c := by
  have hold (hmem : (c, v) ∈ s.returned)
      : c.id < s'.nextId ∧ ∀ u, (s'.threads u).call? ≠ some c := by
    rcases hcalls.done c v hmem with ⟨hlt, hcarried⟩
    refine ⟨Nat.lt_of_lt_of_le hlt hm.nextId, ?_⟩
    intro u hc
    rcases (hcalls.own_moved hm u c hc).2.2 with hc | ⟨_, hle⟩
    . exact hcarried u hc
    . omega
  rcases hm.returned with hsame | ⟨c', resp, hidle, hnew, hth⟩
  . rw [hsame] at hmem
    exact hold hmem
  . rw [hnew, List.mem_append, List.mem_singleton] at hmem
    rcases hmem with hmem | heq
    . exact hold hmem
    . cases heq
      have hcall : (s.threads t).call? = some c := by
        rcases hth with ⟨i, hth, _⟩ | ⟨i, hth⟩
        . rw [hth]
          rfl
        . rw [hth]
          rfl
      rcases hcalls.own t c hcall with ⟨hthread, hlt⟩
      refine ⟨Nat.lt_of_lt_of_le hlt hm.nextId, ?_⟩
      intro u hc
      obtain rfl : t = u := hthread.symm.trans (hcalls.own_moved hm u c hc).1
      rw [hm.threads, Function.update_self, hidle] at hc
      cases hc

theorem Calls.moved {th : Thread} (hcalls : s.Calls) (hm : s.Moved s' op t th) : s'.Calls := by
  have hown (u : ℕ) (c : Call) (hc : (s'.threads u).call? = some c)
      : c.thread = u ∧ c.id < s'.nextId := by
    have h := hcalls.own_moved hm u c hc
    exact ⟨h.1, h.2.1⟩
  have hissued (c : Call) (hc : c ∈ s.issued) : c.id < s'.nextId :=
    Nat.lt_of_lt_of_le (hcalls.issued c hc) hm.nextId
  rcases hm.issued with hsame | ⟨c, _, hth, hspin, hnew⟩
  . refine ⟨hown, ?_, ?_, ?_, hcalls.done_moved hm⟩
    . rw [hsame]
      exact hcalls.fresh_moved hm
    . rw [hsame]
      exact hissued
    . rw [hsame]
      exact hcalls.nodup
  . have hc : c.thread = t ∧ c.id < s.nextId := by
      apply hcalls.own t c
      rw [hth]
      rfl
    refine ⟨hown, ?_, ?_, ?_, hcalls.done_moved hm⟩
    . intro u c' hc' hmem
      rw [hnew, List.mem_append, List.mem_singleton] at hmem
      rcases hmem with hmem | rfl
      . exact hcalls.fresh_moved hm u c' hc' hmem
      . -- the call that has just been issued is carried by `t`, which waits for the answer
        obtain rfl : t = u := hc.1.symm.trans (hown u c' (call?_of_unissued? hc')).1
        rw [hm.threads, Function.update_self, hspin] at hc'
        cases hc'
    . intro c' hc'
      rw [hnew, List.mem_append, List.mem_singleton] at hc'
      rcases hc' with hc' | rfl
      . exact hissued c' hc'
      . exact Nat.lt_of_lt_of_le hc.2 hm.nextId
    . rw [hnew]
      apply List.Nodup.append hcalls.nodup (List.nodup_singleton c)
      rw [List.disjoint_singleton]
      apply hcalls.fresh t c
      rw [hth]
      rfl

theorem Calls.step (hcalls : s.Calls) (hstep : s.step h op = some s') : s'.Calls := by
  rcases step_inv hstep with ⟨t, th, hm⟩ | ⟨_, hw⟩
  . exact hcalls.moved hm
  . constructor
    . rw [hw.threads, hw.nextId]
      exact hcalls.own
    . rw [hw.threads, hw.issued]
      exact hcalls.fresh
    . rw [hw.issued, hw.nextId]
      exact hcalls.issued
    . rw [hw.issued]
      exact hcalls.nodup
    . rw [hw.returned, hw.nextId, hw.threads]
      exact hcalls.done

inductive NextStage (c : Call) (mem : CommSharedMem) (g : Stage) : Op → Stage → Prop where
  | thread (hlast : g.unlocks = false)
    : NextStage c mem g (.thread c.thread) (g.threadNext mem.resp)
  | watcher (result : UInt64) : NextStage c mem g .watcher (g.watcherNext c mem.reqFlags result)
  | other {op : Op} (hthread : op.isThread c.thread = false) (hwatcher : op.isWatcher = false)
    : NextStage c mem g op g

theorem Held.step (hheld : s.Held c g) (hstep : s.step h op = some s')
    : (∃ g', s'.Held c g' ∧ NextStage c s.mem g op g') ∨ s'.Unlocks c g := by
  have hcritical : (s.threads c.thread).critical = true := by
    rw [hheld.thread]
    exact critical_thread c g
  cases op with
  | call t r =>
    have ho := call_outside hstep
    have hne : t ≠ c.thread := by
      rintro rfl
      unfold step call at hstep
      cases hth : s.threads c.thread with
      | idle => simp [hth, Thread.critical] at hcritical
      | _ => simp [hth] at hstep
    exact .inl ⟨g, hheld.outside ho hne, .other rfl rfl⟩
  | thread t =>
    by_cases heq : t = c.thread
    . rw [heq] at hstep ⊢
      rcases hheld.threadStep hstep with ⟨hnext, hlast⟩ | hunlocks
      . exact .inl ⟨_, hnext, .thread hlast⟩
      . exact .inr hunlocks
    . have hout := hheld.others t heq
      rcases threadStep_outside (.inr hheld.occupyFlag) hout hstep with ho | ⟨c', ha⟩
      . exact .inl ⟨g, hheld.outside ho heq, .other (by simp [Op.isThread, heq]) rfl⟩
      . have hzero := ha.unlocked
        rw [hheld.occupyFlag] at hzero
        simp at hzero
  | lane t activeMask =>
    have hl := (laneStep_inv hstep).2
    have hne : t ≠ c.thread := by
      intro heq
      rw [← heq, hl.not_critical] at hcritical
      cases hcritical
    exact .inl ⟨g, hheld.outside hl.outside hne, .other (by simp [Op.isThread, hne]) rfl⟩
  | watcher =>
    cases hstep
    rcases hheld.watcherStep with ⟨result, hnext⟩
    exact .inl ⟨_, hnext, .watcher result⟩

theorem Free.watcherStep (hfree : s.Free) : s.watcherStep h = s := by
  unfold State.watcherStep
  rw [hfree.watcher]
  dsimp only
  rw [if_neg (by rw [hfree.flag1]; decide), ← hfree.watcher]

theorem Free.acquired (hfree : s.Free) (ha : s.Acquired s' c t) (hc : c.thread = t)
    : s'.Held c .storeRequestId := by
  rw [ha.eq]
  refine ⟨⟨rfl, hfree.watcher, hfree.flag1, hfree.flag2, trivial, nofun, hfree.executed, nofun⟩,
    ?_, ?_⟩
  . dsimp only [setThread]
    rw [hc, Function.update_self]
    rfl
  . intro u hne
    dsimp only [setThread]
    rw [Function.update_of_ne (by rw [← hc]; exact hne)]
    exact hfree.threads u

theorem Free.step (hcalls : s.Calls) (hfree : s.Free) (hstep : s.step h op = some s')
    : s'.Free ∨ ∃ c, s'.Held c .storeRequestId := by
  cases op with
  | call t r => exact .inl (hfree.outside (call_outside hstep))
  | thread t =>
    rcases threadStep_outside (.inl hfree.occupyFlag) (hfree.threads t) hstep with ho | ⟨c, ha⟩
    . exact .inl (hfree.outside ho)
    . have hc : c.thread = t := by
        apply (hcalls.own t c _).1
        rw [ha.before]
        rfl
      exact .inr ⟨c, hfree.acquired ha hc⟩
  | lane t activeMask => exact .inl (hfree.outside (laneStep_inv hstep).2.outside)
  | watcher =>
    cases hstep
    rw [hfree.watcherStep]
    exact .inl hfree

theorem step_executed (hstep : s.step h op = some s') : s'.executed = s.executed ∨
      ∃ o mapFd flags result, s.watcher = .execute o mapFd flags ∧
        s'.executed = s.executed ++ [s.execution h o mapFd flags result] := by
  rcases step_inv hstep with ⟨t, th, hm⟩ | ⟨_, hw⟩
  . exact .inl hm.executed
  . exact hw.executed

theorem step_issued (hstep : s.step h op = some s') : s'.issued = s.issued ∨
      ∃ c t, op = .thread t ∧ s.threads t = .storeFlag1 c ∧ s'.issued = s.issued ++ [c] := by
  rcases step_inv hstep with ⟨t, th, hm⟩ | ⟨_, hw⟩
  . exact hm.issued.imp_right fun ⟨c, hop, hth, _, hnew⟩ => ⟨c, t, hop, hth, hnew⟩
  . exact .inl hw.issued

theorem step_returned (hstep : s.step h op = some s') : s'.returned = s.returned ∨
      ∃ t c resp, s'.returned = s.returned ++ [(c, resp.read c.request.op)] ∧
        s'.issued = s.issued ∧
        ((∃ i, s.threads t = .lane c i ∧ 32 ≤ i ∧ resp = ⟨0, 0⟩) ∨
          ∃ i, s.threads t = .rejoin c i resp) := by
  rcases step_inv hstep with ⟨t, th, hm⟩ | ⟨_, hw⟩
  . apply hm.returned.imp_right
    intro ⟨c, resp, hidle, hnew, hth⟩
    refine ⟨t, c, resp, hnew, hm.issued.resolve_right ?_, hth⟩
    rintro ⟨_, _, _, hspin, _⟩
    rw [hidle] at hspin
    cases hspin
  . exact .inl hw.returned

theorem step_follows (hstep : s.step h op = some s') (t : ℕ)
    : s'.threads t = s.threads t ∨ (s.threads t).Follows (s'.threads t) := by
  rcases step_inv hstep with ⟨u, th, hm⟩ | ⟨_, hw⟩
  . rcases hm.threads_or t with ⟨rfl, hth⟩ | ⟨_, hth⟩
    . rw [hth]
      exact .inr hm.follows
    . exact .inl hth
  . exact .inl (by rw [hw.threads])

theorem step_threads (hstep : s.step h op = some s') (hop : op.isThread t = false)
    : s'.threads t = s.threads t ∨ ∃ c, s'.threads t = .copyKey c := by
  rcases step_inv hstep with ⟨u, th, hm⟩ | ⟨_, hw⟩
  . rcases hm.threads_or t with ⟨rfl, hth⟩ | ⟨_, hth⟩
    . rw [hth]
      exact .inr (hm.actor.resolve_left (by simp [hop]))
    . exact .inl hth
  . exact .inl (by rw [hw.threads])

theorem isPrefix_of_eq_or {α : Type} {l l' : List α} (h : l' = l ∨ ∃ a, l' = l ++ [a])
    : l <+: l' := by
  rcases h with rfl | ⟨a, rfl⟩
  . exact List.prefix_rfl
  . exact List.prefix_append _ _

theorem step_extends (hstep : s.step h op = some s')
    : s.issued <+: s'.issued ∧ s.executed <+: s'.executed ∧ s.returned <+: s'.returned := by
  refine ⟨isPrefix_of_eq_or ?_, isPrefix_of_eq_or ?_, isPrefix_of_eq_or ?_⟩
  . exact (step_issued hstep).imp_right fun ⟨c, _, _, _, hnew⟩ => ⟨c, hnew⟩
  . exact (step_executed hstep).imp_right fun ⟨_, _, _, _, _, hnew⟩ => ⟨_, hnew⟩
  . exact (step_returned hstep).imp_right fun ⟨_, _, _, hnew, _⟩ => ⟨_, hnew⟩

/--
The call was issued, the watcher has carried it out, and `v` is the reply to what came of it.
-/
def Reply (s : State η) (c : Call) (v : UInt64) : Prop :=
  ∃ (i : ℕ) (e : Execution), s.issued[i]? = some c ∧ s.executed[i]? = some e ∧
    v = c.request.op.reply e.result

def Answered (s : State η) (c : Call) : Prop := ∃ v, (c, v) ∈ s.returned

def Rejoins (s : State η) (c : Call) : Prop := ∃ i resp, s.threads c.thread = .rejoin c i resp

/-- A call that was issued has returned, is on its way back, or has the lock. -/
def Settled (s : State η) (c : Call) : Prop :=
  s.Answered c ∨ s.Rejoins c ∨ ∃ g, s.Held c g ∧ g.isIssued = true

structure Sound (s : State η) : Prop where
  calls : s.Calls
  turn : s.Free ∨ ∃ c g, s.Held c g
  rejoined : ∀ t c i resp, s.threads t = .rejoin c i resp → s.Reply c (resp.read c.request.op)
  returned : ∀ c v, (c, v) ∈ s.returned → s.Reply c v ∨ (c ∉ s.issued ∧ v = 0)
  settled : ∀ c ∈ s.issued, s.Settled c

theorem sound_initial (maps : η) : (initial maps).Sound := by
  constructor
  . exact calls_initial maps
  . exact .inl (free_initial maps)
  . intro t c i resp hth
    cases hth
  . intro c v hmem
    simp [initial] at hmem
  . intro c hmem
    simp [initial] at hmem

theorem Free.not_held (hfree : s.Free) : ¬ s.Held c g := by
  intro hheld
  have hlock := hheld.occupyFlag
  rw [hfree.occupyFlag] at hlock
  simp at hlock

theorem Sound.held_of_critical (hs : s.Sound) (hcritical : (s.threads t).critical = true)
    : ∃ c g, s.Held c g ∧ c.thread = t := by
  rcases hs.turn with hfree | ⟨c, g, hheld⟩
  . rw [hfree.threads] at hcritical
    cases hcritical
  . refine ⟨c, g, hheld, ?_⟩
    by_contra hne
    rw [hheld.others t (Ne.symm hne)] at hcritical
    cases hcritical

theorem Sound.exclusive (hs : s.Sound) {t u : ℕ} (ht : (s.threads t).critical = true)
    (hu : (s.threads u).critical = true)
    : t = u := by
  rcases hs.held_of_critical ht with ⟨c, g, hheld, rfl⟩
  by_contra hne
  rw [hheld.others u (Ne.symm hne)] at hu
  cases hu

theorem Held.unique {c' : Call} {g' : Stage} (hheld : s.Held c g) (hheld' : s.Held c' g')
    : c' = c := by
  have hthread : c'.thread = c.thread := by
    by_contra hne
    have hout := hheld.others _ hne
    rw [hheld'.thread, critical_thread] at hout
    simp at hout
  have hcall (c : Call) (g : Stage) : (g.thread c).call? = some c := by
    cases g with
    | _ => rfl
  have heq : (g.thread c).call? = (g'.thread c').call? := by
    rw [← hheld.thread, ← hheld'.thread, hthread]
  rw [hcall, hcall] at heq
  exact (Option.some.inj heq).symm

theorem NextStage.isIssued {g' : Stage} {mem : CommSharedMem} (hnext : NextStage c mem g op g')
    (hissued : g.isIssued = true)
    : g'.isIssued = true := by
  cases hnext with
  | thread =>
    cases g with
    | storeRequestId | storeMapId | storeFlag1 => simp [Stage.isIssued] at hissued
    | _ => rfl
  | watcher result =>
    cases g with
    | storeRequestId | storeMapId | storeFlag1 => simp [Stage.isIssued] at hissued
    | loadMapId =>
      dsimp only [Stage.watcherNext]
      split <;> rfl
    | _ => rfl
  | other => exact hissued

theorem Sound.turn_step (hs : s.Sound) (hstep : s.step h op = some s')
    : s'.Free ∨ ∃ c g, s'.Held c g := by
  rcases hs.turn with hfree | ⟨c, g, hheld⟩
  . rcases hfree.step hs.calls hstep with hfree' | ⟨c, hheld'⟩
    . exact .inl hfree'
    . exact .inr ⟨c, _, hheld'⟩
  . rcases hheld.step hstep with ⟨g', hheld', _⟩ | hunlocks
    . exact .inr ⟨c, g', hheld'⟩
    . exact .inl hunlocks.free

theorem getElem?_of_extends {α : Type} {l l' : List α} {i : ℕ} {a : α} (hp : l <+: l')
    (ha : l[i]? = some a)
    : l'[i]? = some a := by
  rcases hp with ⟨t, rfl⟩
  rw [List.getElem?_append_left (List.getElem?_eq_some_iff.mp ha).1]
  exact ha

theorem Held.executed_last {result : UInt64} (hheld : s.Held c g) (hissued : g.isIssued = true)
    (hresult : g.result? = some result)
    : ∃ (i : ℕ) (e : Execution), s.issued[i]? = some c ∧ s.executed[i]? = some e ∧
        e.result = result := by
  have hlast := hheld.result result hresult
  have hlen := hheld.executed
  rw [hresult] at hlen
  simp only [Option.isNone_some, Bool.and_false, Bool.false_eq_true, ↓reduceIte] at hlen
  rcases Option.map_eq_some_iff.mp hlast with ⟨e, he, heq⟩
  refine ⟨s.issued.length - 1, e, ?_, ?_, heq⟩
  . rw [← List.getLast?_eq_getElem?]
    exact hheld.issued hissued
  . rw [← hlen, Nat.add_zero, ← List.getLast?_eq_getElem?]
    exact he

theorem Reply.step {v : UInt64} (hr : s.Reply c v) (hstep : s.step h op = some s')
    : s'.Reply c v := by
  rcases step_extends hstep with ⟨hissued, hexecuted, _⟩
  rcases hr with ⟨i, e, hi, he, hv⟩
  exact ⟨i, e, getElem?_of_extends hissued hi, getElem?_of_extends hexecuted he, hv⟩

theorem Sound.reply_of_spinUnlock {resp : HelperCallResponse} (hs : s.Sound)
    (hth : s.threads t = .spinUnlock c resp)
    : s.Reply c (resp.read c.request.op) := by
  rcases hs.held_of_critical (by rw [hth]; rfl) with ⟨c', g, hheld, rfl⟩
  rw [hheld.thread] at hth
  cases g with
  | spinUnlock result resp' =>
    cases hth
    rcases hheld.executed_last rfl rfl with ⟨i, e, hi, he, hresult⟩
    refine ⟨i, e, hi, he, ?_⟩
    rw [hresult]
    exact hheld.stored
  | _ => cases hth

theorem step_rejoin {i : ℕ} {resp : HelperCallResponse} (hstep : s.step h op = some s')
    (hth : s'.threads t = .rejoin c i resp)
    : s.threads t = .spinUnlock c resp ∨ ∃ j, s.threads t = .rejoin c j resp := by
  rcases step_follows hstep t with hsame | hfollows
  . exact .inr ⟨i, hsame.symm.trans hth⟩
  . rw [hth] at hfollows
    exact hfollows

theorem Sound.rejoined_step (hs : s.Sound) (hstep : s.step h op = some s') (t : ℕ) (c : Call)
    (i : ℕ) (resp : HelperCallResponse) (hth : s'.threads t = .rejoin c i resp)
    : s'.Reply c (resp.read c.request.op) := by
  rcases step_rejoin hstep hth with hunlock | ⟨j, hrejoin⟩
  . exact (hs.reply_of_spinUnlock hunlock).step hstep
  . exact (hs.rejoined t c j resp hrejoin).step hstep

theorem Sound.returned_step (hs : s.Sound) (hstep : s.step h op = some s') (c : Call) (v : UInt64)
    (hmem : (c, v) ∈ s'.returned)
    : s'.Reply c v ∨ (c ∉ s'.issued ∧ v = 0) := by
  have hold (hmem : (c, v) ∈ s.returned) : s'.Reply c v ∨ (c ∉ s'.issued ∧ v = 0) := by
    rcases hs.returned c v hmem with hreply | ⟨hc, hv⟩
    . exact .inl (hreply.step hstep)
    . refine .inr ⟨?_, hv⟩
      rcases step_issued hstep with hsame | ⟨c', t, _, hth, hnew⟩
      . rw [hsame]
        exact hc
      . -- a call that has returned is carried by no thread, so that none can issue it
        have hne : c ≠ c' := by
          rintro rfl
          apply (hs.calls.done c v hmem).2 t
          rw [hth]
          rfl
        rw [hnew, List.mem_append, List.mem_singleton]
        exact fun hin => hin.elim hc hne
  rcases step_returned hstep with hsame | ⟨t, c', resp, hnew, hissued, hth⟩
  . rw [hsame] at hmem
    exact hold hmem
  . rw [hnew, List.mem_append, List.mem_singleton] at hmem
    rcases hmem with hmem | heq
    . exact hold hmem
    . cases heq
      rcases hth with ⟨i, hth, _, rfl⟩ | ⟨i, hth⟩
      . right
        refine ⟨?_, HelperCallResponse.read_zero _⟩
        rw [hissued]
        exact hs.calls.fresh t c (by rw [hth]; rfl)
      . exact .inl ((hs.rejoined t c i resp hth).step hstep)

theorem Held.of_storeFlag1 {c₁ : Call} (hheld : s.Held c g) (hth : s.threads t = .storeFlag1 c₁)
    : t = c.thread ∧ g = .storeFlag1 ∧ c₁ = c := by
  have ht : t = c.thread := by
    by_contra hne
    have hout := hheld.others t hne
    rw [hth] at hout
    simp [Thread.critical] at hout
  refine ⟨ht, ?_⟩
  rw [ht, hheld.thread] at hth
  cases g with
  | storeFlag1 =>
    cases hth
    exact ⟨rfl, rfl⟩
  | _ => cases hth

theorem Sound.settled_of_issued {c' : Call} (hs : s.Sound)
    (hstep : s.step h (.thread t) = some s') (hth : s.threads t = .storeFlag1 c')
    : s'.Settled c' := by
  rcases hs.held_of_critical (by rw [hth]; rfl) with ⟨c, g, hheld, rfl⟩
  rcases hheld.of_storeFlag1 hth with ⟨_, rfl, rfl⟩
  rcases hheld.step hstep with ⟨g', hheld', hnext⟩ | hunlocks
  . refine .inr (.inr ⟨g', hheld', ?_⟩)
    cases hnext with
    | thread => rfl
    | other hthread => simp [Op.isThread] at hthread
  . rcases hunlocks.rejoin with ⟨_, _, _, hstage, _⟩
    cases hstage

/-- The rest of the lane loop, one turn at a time, and the return at its end. -/
theorem step_of_rejoin {i : ℕ} {resp : HelperCallResponse} (hstep : s.step h op = some s')
    (hth : s.threads c.thread = .rejoin c i resp)
    : s'.Answered c ∨ ∃ j, s'.threads c.thread = .rejoin c j resp ∧
        32 - j + (if op.isThread c.thread then 1 else 0) ≤ 32 - i := by
  by_cases hop : op.isThread c.thread = true
  . cases op with
    | thread t =>
      obtain rfl : t = c.thread := by simpa [Op.isThread] using hop
      simp [step, threadStep, hth] at hstep
    | lane t activeMask =>
      obtain rfl : t = c.thread := by simpa [Op.isThread] using hop
      cases (laneStep_inv hstep).2 with
      | enter _ hth' | pass _ _ hth' | unserved _ _ hth' =>
        rw [hth] at hth'
        cases hth'
      | rejoin c' j resp' hth' hj =>
        rw [hth] at hth'
        cases hth'
        right
        refine ⟨i + 1, Function.update_self _ _ _, ?_⟩
        rw [if_pos hop]
        omega
      | served c' j resp' hth' =>
        rw [hth] at hth'
        cases hth'
        exact .inl ⟨_, List.mem_append_right _ (List.mem_singleton_self _)⟩
    | _ => simp [Op.isThread] at hop
  . right
    refine ⟨i, ?_, Nat.le_of_eq (by rw [if_neg hop, Nat.add_zero])⟩
    rw [Bool.not_eq_true] at hop
    rcases step_threads hstep hop with hsame | ⟨c', hcopy⟩
    . rw [hsame, hth]
    . rcases step_follows hstep c.thread with hsame | hidle
      . rw [hsame, hth]
      . rw [hcopy, hth] at hidle
        cases hidle

theorem Sound.settled_step (hs : s.Sound) (hstep : s.step h op = some s') (c : Call)
    (hmem : c ∈ s'.issued)
    : s'.Settled c := by
  have hold (hmem : c ∈ s.issued) : s'.Settled c := by
    rcases hs.settled c hmem with ⟨v, hv⟩ | ⟨i, resp, hth⟩ | ⟨g, hheld, hissued⟩
    . exact .inl ⟨v, (step_extends hstep).2.2.subset hv⟩
    . rcases step_of_rejoin hstep hth with ha | ⟨j, hth', _⟩
      . exact .inl ha
      . exact .inr (.inl ⟨j, resp, hth'⟩)
    . rcases hheld.step hstep with ⟨g', hheld', hnext⟩ | hunlocks
      . exact .inr (.inr ⟨g', hheld', hnext.isIssued hissued⟩)
      . rcases hunlocks.rejoin with ⟨_, resp, i, _, _, _, hth⟩
        exact .inr (.inl ⟨i, resp, hth⟩)
  rcases step_issued hstep with hsame | ⟨c', t, rfl, hth, hnew⟩
  . rw [hsame] at hmem
    exact hold hmem
  . rw [hnew, List.mem_append, List.mem_singleton] at hmem
    rcases hmem with hmem | rfl
    . exact hold hmem
    . exact hs.settled_of_issued hstep hth

theorem Sound.step (hs : s.Sound) (hstep : s.step h op = some s') : s'.Sound := by
  constructor
  . exact hs.calls.step hstep
  . exact hs.turn_step hstep
  . exact hs.rejoined_step hstep
  . exact hs.returned_step hstep
  . exact hs.settled_step hstep

end State

end Bpftime.Cuda
