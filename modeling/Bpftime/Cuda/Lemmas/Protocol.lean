import Bpftime.Cuda.Impl

namespace Bpftime.Cuda

def HelperOperation.reply : HelperOperation → UInt64 → UInt64
  | .mapLookup, result => result
  | .mapUpdate, result | .mapDelete, result => result.toUInt32.toInt32.toInt64.toUInt64

theorem HelperCallResponse.value_ofValue (v : UInt64) : (ofValue v).value = v := by
  have hv := v.toNat_lt
  have h32 : (32 : UInt64).toNat % 64 = 32 := by decide
  unfold value ofValue
  rw [← UInt64.toNat_inj]
  simp only [UInt64.toNat_or, UInt64.toNat_shiftLeft, UInt32.toNat_toUInt64,
    UInt64.toNat_toUInt32, UInt64.toNat_shiftRight]
  rw [h32, Nat.shiftRight_eq_div_pow, Nat.mod_eq_of_lt (show v.toNat / 2 ^ 32 < 2 ^ 32 by omega)]
  rw [Nat.mod_eq_of_lt (by rw [Nat.shiftLeft_eq]; omega)]
  rw [← Nat.shiftLeft_add_eq_or_of_lt (by omega), Nat.shiftLeft_eq]
  omega

theorem HelperCallResponse.read_store (r : HelperCallResponse) (result : UInt64)
    (op : HelperOperation)
    : (r.store result op).read op = op.reply result := by
  cases op with
  | mapLookup => exact value_ofValue result
  | mapUpdate => rfl
  | mapDelete => rfl

theorem HelperCallResponse.read_zero (op : HelperOperation)
    : HelperCallResponse.read ⟨0, 0⟩ op = 0 := by
  cases op with
  | _ => decide

namespace Place

theorem laneId_eq (p : Place) : p.laneId = p.threadIdx.x.toNat % 32 := by
  unfold laneId
  rw [UInt32.toNat_and]
  exact Nat.and_two_pow_sub_one_eq_mod _ 5

theorem laneId_lt (p : Place) : p.laneId < 32 := by
  rw [laneId_eq]
  exact Nat.mod_lt _ (by decide)

theorem hardwareLane_eq_laneId (p : Place)
    (h : (p.threadIdx.y = 0 ∧ p.threadIdx.z = 0) ∨ 32 ∣ p.blockDim.x.toNat)
    : p.hardwareLane = p.laneId := by
  rw [laneId_eq]
  unfold hardwareLane
  rcases h with ⟨hy, hz⟩ | ⟨n, hn⟩
  . simp [hy, hz]
  . rw [hn, Nat.mul_assoc, Nat.add_mul_mod_self_left]

end Place

def Thread.critical : Thread → Bool
  | .idle | .copyKey _ | .copyValue _ | .storeFlags _ | .lane _ _ | .spinLock _
  | .rejoin _ _ _ => false
  | _ => true

inductive Stage where
  | storeRequestId
  | storeMapId
  | storeFlag1
  | posted
  | seen
  | loadRequestId
  | loadMapId
  | loadFlags
  | execute (flags : UInt64)
  | storeResp (result : UInt64)
  | storeFlag2 (result : UInt64)
  | answered (result : UInt64)
  | clearFlag2 (result : UInt64)
  | readResp (result : UInt64)
  | spinUnlock (result : UInt64) (resp : HelperCallResponse)

namespace Stage

def thread (c : Call) : Stage → Thread
  | .storeRequestId => .storeRequestId c
  | .storeMapId => .storeMapId c
  | .storeFlag1 => .storeFlag1 c
  | .clearFlag2 _ => .clearFlag2 c
  | .readResp _ => .readResp c
  | .spinUnlock _ resp => .spinUnlock c resp
  | _ => .spinWait c

def watcher (c : Call) : Stage → Watcher
  | .seen => .clearFlag1
  | .loadRequestId => .loadRequestId
  | .loadMapId => .loadMapId c.request.op.code
  | .loadFlags => .loadFlags c.request.map.toInt64
  | .execute flags => .execute c.request.op c.request.map.toInt64 flags
  | .storeResp result => .storeResp c.request.op result
  | .storeFlag2 _ => .storeFlag2
  | _ => .poll

def flag1 : Stage → Int32
  | .posted | .seen => 1
  | _ => 0

def flag2 : Stage → Int32
  | .answered _ | .clearFlag2 _ => 1
  | _ => 0

def isIssued : Stage → Bool
  | .storeRequestId | .storeMapId | .storeFlag1 => false
  | _ => true

def unlocks : Stage → Bool
  | .spinUnlock _ _ => true
  | _ => false

def result? : Stage → Option UInt64
  | .storeResp result | .storeFlag2 result | .answered result | .clearFlag2 result
  | .readResp result | .spinUnlock result _ => some result
  | _ => none

def Stored (c : Call) (mem : CommSharedMem) : Stage → Prop
  | .storeRequestId => True
  | .storeMapId => mem.requestId = c.request.op.code
  | .loadFlags => c.request.op = .mapUpdate
  | .execute _ | .storeResp _ => True
  | .storeFlag2 result | .answered result | .clearFlag2 result | .readResp result =>
    mem.resp.read c.request.op = c.request.op.reply result
  | .spinUnlock result resp => resp.read c.request.op = c.request.op.reply result
  | .loadMapId => mem.mapId = c.request.map.toInt64
  | .storeFlag1 | .posted | .seen | .loadRequestId =>
    mem.requestId = c.request.op.code ∧ mem.mapId = c.request.map.toInt64

def threadNext (resp : HelperCallResponse) : Stage → Stage
  | .storeRequestId => .storeMapId
  | .storeMapId => .storeFlag1
  | .storeFlag1 => .posted
  | .answered result => .clearFlag2 result
  | .clearFlag2 result => .readResp result
  | .readResp result => .spinUnlock result resp
  | g => g

def watcherNext (c : Call) (reqFlags result : UInt64) : Stage → Stage
  | .posted => .seen
  | .seen => .loadRequestId
  | .loadRequestId => .loadMapId
  | .loadMapId => if c.request.op = .mapUpdate then .loadFlags else .execute 0
  | .loadFlags => .execute reqFlags
  | .execute _ => .storeResp result
  | .storeResp result => .storeFlag2 result
  | .storeFlag2 result => .answered result
  | g => g

end Stage

namespace State

variable {η : Type} {h : Host η} {s s' : State η} {c : Call} {g : Stage} {op : Op}

structure Free (s : State η) : Prop where
  occupyFlag : s.mem.occupyFlag = 0
  threads : ∀ t, (s.threads t).critical = false
  watcher : s.watcher = .poll
  flag1 : s.mem.flag1 = 0
  flag2 : s.mem.flag2 = 0
  executed : s.executed.length = s.issued.length

structure Exchange (s : State η) (c : Call) (g : Stage) : Prop where
  occupyFlag : s.mem.occupyFlag = 1
  watcher : s.watcher = g.watcher c
  flag1 : s.mem.flag1 = g.flag1
  flag2 : s.mem.flag2 = g.flag2
  stored : g.Stored c s.mem
  issued : g.isIssued = true → s.issued.getLast? = some c
  executed : s.executed.length + (if g.isIssued && g.result?.isNone then 1 else 0) = s.issued.length
  result : ∀ r, g.result? = some r → (s.executed.getLast?).map Execution.result = some r

structure Held (s : State η) (c : Call) (g : Stage) : Prop extends Exchange s c g where
  thread : s.threads c.thread = g.thread c
  others : ∀ t, t ≠ c.thread → (s.threads t).critical = false

theorem critical_thread (c : Call) (g : Stage) : (g.thread c).critical = true := by
  cases g with
  | _ => rfl

theorem free_initial (maps : η) : Free (initial maps) := by
  constructor
  . rfl
  . intro t
    rfl
  . rfl
  . rfl
  . rfl
  . rfl

/-- A step of `t` without the lock changes only the state of `t` and the request. -/
inductive Outside (s : State η) (t : ℕ) : State η → Prop where
  | mk {th : Thread} (hth : th.critical = false) (key value : ℕ → UInt8) (flags : UInt64)
      (nextId : ℕ) (returned : List (Call × UInt64))
    : Outside s t
        { s.setThread t th with
          mem := { s.mem with reqKey := key, reqValue := value, reqFlags := flags },
          nextId := nextId, returned := returned }

theorem critical_setThread {t : ℕ} {th : Thread} (hth : th.critical = false)
    {u : ℕ} (hu : u ≠ t → (s.threads u).critical = false)
    : ((s.setThread t th).threads u).critical = false := by
  unfold setThread
  dsimp only
  rw [Function.update_apply]
  split
  next => exact hth
  next hne => exact hu hne

theorem call_outside {t : ℕ} {r : Request} (hcall : s.call h t r = some s') : s.Outside t s' := by
  unfold call at hcall
  split at hcall
  next =>
    split at hcall
    next =>
      cases hcall
      exact .mk rfl _ _ _ _ _
    next => simp at hcall
  next => simp at hcall

structure Acquired (s s' : State η) (c : Call) (t : ℕ) : Prop where
  before : s.threads t = .spinLock c
  unlocked : s.mem.occupyFlag = 0
  eq : s' = { s.setThread t (.storeRequestId c) with mem := { s.mem with occupyFlag := 1 } }

theorem threadStep_outside {t : ℕ} (hlock : s.mem.occupyFlag = 0 ∨ s.mem.occupyFlag = 1)
    (hcritical : (s.threads t).critical = false) (hstep : s.threadStep h t = some s')
    : s.Outside t s' ∨ ∃ c, s.Acquired s' c t := by
  unfold threadStep at hstep
  cases hth : s.threads t with
  | idle | lane | rejoin => simp [hth] at hstep
  | copyKey c =>
    left
    simp only [hth] at hstep
    split at hstep
    next =>
      cases hstep
      refine .mk ?_ _ _ _ _ _
      split <;> rfl
    next => simp at hstep
  | copyValue c =>
    left
    simp only [hth] at hstep
    split at hstep
    next =>
      cases hstep
      exact .mk rfl _ _ _ _ _
    next => simp at hstep
  | storeFlags c =>
    left
    simp only [hth] at hstep
    cases hstep
    exact .mk rfl _ _ _ _ _
  | spinLock c =>
    simp only [hth] at hstep
    cases hstep
    rcases hlock with hzero | hone
    . right
      refine ⟨c, hth, hzero, ?_⟩
      rw [hzero]
      rfl
    . left
      rw [if_pos hone, if_neg (by rw [hone]; decide)]
      exact .mk rfl _ _ _ _ _
  | _ => simp [hth, Thread.critical] at hcritical

inductive LaneStep (h : Host η) (s : State η) (t : ℕ) (activeMask : UInt32) : State η → Prop where
  | enter (c : Call) (hth : s.threads t = .lane c (h.place t).laneId)
    : LaneStep h s t activeMask (s.setThread t (.spinLock c))
  | pass (c : Call) (i : ℕ) (hth : s.threads t = .lane c i) (hi : i < 32)
      (hnot : ¬ (activeMask.toNat.testBit i = true ∧ (h.place t).laneId = i))
    : LaneStep h s t activeMask (s.setThread t (.lane c (i + 1)))
  | unserved (c : Call) (i : ℕ) (hth : s.threads t = .lane c i) (hi : 32 ≤ i)
    : LaneStep h s t activeMask (s.helperReturn t c ⟨0, 0⟩)
  | rejoin (c : Call) (i : ℕ) (resp : HelperCallResponse) (hth : s.threads t = .rejoin c i resp)
      (hi : i < 32)
    : LaneStep h s t activeMask (s.setThread t (.rejoin c (i + 1) resp))
  | served (c : Call) (i : ℕ) (resp : HelperCallResponse) (hth : s.threads t = .rejoin c i resp)
      (hi : 32 ≤ i)
    : LaneStep h s t activeMask (s.helperReturn t c resp)

theorem laneStep_inv {t : ℕ} {activeMask : UInt32} (hstep : s.laneStep h t activeMask = some s')
    : activeMask.toNat.testBit (h.place t).hardwareLane = true ∧ LaneStep h s t activeMask s' := by
  unfold laneStep at hstep
  split at hstep
  next hmask =>
    refine ⟨hmask, ?_⟩
    cases hth : s.threads t with
    | lane c i =>
      simp only [hth] at hstep
      split at hstep
      next hi =>
        cases hstep
        split
        next henter =>
          apply LaneStep.enter
          rw [hth, henter.2]
        next hnot => exact .pass c i hth hi hnot
      next hi =>
        cases hstep
        exact .unserved c i hth (Nat.le_of_not_lt hi)
    | rejoin c i resp =>
      simp only [hth] at hstep
      split at hstep
      next hi =>
        cases hstep
        exact .rejoin c i resp hth hi
      next hi =>
        cases hstep
        exact .served c i resp hth (Nat.le_of_not_lt hi)
    | _ => simp [hth] at hstep
  next => simp at hstep

theorem LaneStep.outside {t : ℕ} {activeMask : UInt32} (hl : LaneStep h s t activeMask s')
    : s.Outside t s' := by
  cases hl with
  | _ => exact .mk rfl _ _ _ _ _

theorem LaneStep.not_critical {t : ℕ} {activeMask : UInt32} (hl : LaneStep h s t activeMask s')
    : (s.threads t).critical = false := by
  cases hl with
  | enter _ hth | pass _ _ hth | unserved _ _ hth | rejoin _ _ _ hth | served _ _ _ hth =>
    rw [hth]
    rfl

theorem Free.outside {t : ℕ} (hfree : s.Free) (ho : s.Outside t s') : s'.Free := by
  cases ho with
  | mk hth =>
    refine { hfree with threads := ?_ }
    exact fun u => critical_setThread hth fun _ => hfree.threads u

theorem stored_request {key value : ℕ → UInt8} {flags : UInt64} {mem : CommSharedMem}
    (hstored : g.Stored c mem)
    : g.Stored c { mem with reqKey := key, reqValue := value, reqFlags := flags } := by
  cases g with
  | _ => exact hstored

theorem Held.outside {t : ℕ} (hheld : s.Held c g) (ho : s.Outside t s') (hne : t ≠ c.thread)
    : s'.Held c g := by
  cases ho with
  | mk hth =>
    refine { hheld with stored := stored_request hheld.stored, thread := ?_, others := ?_ }
    . exact (Function.update_of_ne hne.symm _ _).trans hheld.thread
    . exact fun u hu => critical_setThread hth fun _ => hheld.others u hu

theorem Exchange.held {g' : Stage} (he : s'.Exchange c g') (hheld : s.Held c g)
    (hthreads : s'.threads = Function.update s.threads c.thread (g'.thread c))
    : s'.Held c g' := by
  constructor
  . exact he
  . rw [hthreads, Function.update_self]
  . intro t hne
    rw [hthreads, Function.update_of_ne hne]
    exact hheld.others t hne

theorem Held.update_self (hheld : s.Held c g)
    : s.threads = Function.update s.threads c.thread (g.thread c) := by
  rw [← hheld.thread, Function.update_eq_self]

theorem Held.unlock {result : UInt64} {resp : HelperCallResponse}
    (hheld : s.Held c (.spinUnlock result resp))
    {i : ℕ}
    : Free { s.setThread c.thread (.rejoin c i resp) with
        mem := { s.mem with occupyFlag := 0 } } := by
  refine { hheld with occupyFlag := rfl, threads := ?_ }
  exact fun u => critical_setThread rfl (hheld.others u)

/--
The step after which the thread that had the lock goes on with the other lanes, with the response.
-/
structure Unlocks (s' : State η) (c : Call) (g : Stage) : Prop where
  free : s'.Free
  rejoin : ∃ result resp i, g = .spinUnlock result resp ∧
    resp.read c.request.op = c.request.op.reply result ∧
    0 < i ∧ s'.threads c.thread = .rejoin c i resp

theorem Held.threadStep (hheld : s.Held c g) (hstep : s.threadStep h c.thread = some s')
    : (s'.Held c (g.threadNext s.mem.resp) ∧ g.unlocks = false) ∨ s'.Unlocks c g := by
  have hx := hheld.toExchange
  unfold State.threadStep at hstep
  rw [hheld.thread] at hstep
  -- while the watcher works, the thread finds the second flag at zero
  have hspin (hflag2 : g.flag2 = 0) (heq : s' = s.setThread c.thread
      (if s.mem.flag2 = 0 then .spinWait c else .clearFlag2 c)) (hth : g.thread c = .spinWait c)
      (hnext : g.threadNext s.mem.resp = g)
      : s'.Held c (g.threadNext s.mem.resp) := by
    rw [hnext]
    rw [if_pos (hheld.flag2.trans hflag2), ← hth] at heq
    have hself : s' = s := by
      rw [heq]
      unfold setThread
      rw [← hheld.update_self]
    rw [hself]
    exact hheld
  cases g with
  | storeRequestId =>
    cases hstep
    refine .inl ⟨Exchange.held ?_ hheld rfl, rfl⟩
    exact { hx with stored := rfl }
  | storeMapId =>
    cases hstep
    refine .inl ⟨Exchange.held ?_ hheld rfl, rfl⟩
    exact { hx with stored := ⟨hx.stored, rfl⟩ }
  | storeFlag1 =>
    cases hstep
    refine .inl ⟨Exchange.held ?_ hheld rfl, rfl⟩
    refine { hx with flag1 := rfl, issued := ?_, executed := ?_ }
    . intro _
      exact List.getLast?_concat
    . have hexec := hx.executed
      simp only [Stage.isIssued, Stage.result?, Stage.threadNext, setThread] at hexec ⊢
      simpa using hexec
  | answered result =>
    have hflag2 : s.mem.flag2 = 1 := hheld.flag2
    dsimp only [Stage.thread] at hstep
    rw [if_neg (by rw [hflag2]; decide)] at hstep
    cases hstep
    refine .inl ⟨Exchange.held ?_ hheld rfl, rfl⟩
    exact { hx with }
  | clearFlag2 result =>
    cases hstep
    refine .inl ⟨Exchange.held ?_ hheld rfl, rfl⟩
    exact { hx with flag2 := rfl }
  | readResp result =>
    cases hstep
    refine .inl ⟨Exchange.held ?_ hheld rfl, rfl⟩
    exact { hx with }
  | spinUnlock result resp =>
    cases hstep
    refine .inr ⟨hheld.unlock, result, resp, (h.place c.thread).laneId + 1, rfl, hx.stored, ?_, ?_⟩
    . exact Nat.succ_pos _
    . exact Function.update_self _ _ _
  | _ =>
    cases hstep
    exact .inl ⟨hspin rfl rfl rfl rfl, rfl⟩

theorem Held.watcherStep (hheld : s.Held c g)
    : ∃ result, (s.watcherStep h).Held c (g.watcherNext c s.mem.reqFlags result) := by
  have hx := hheld.toExchange
  unfold State.watcherStep
  rw [hx.watcher]
  cases g with
  | posted =>
    refine ⟨0, Exchange.held ?_ hheld hheld.update_self⟩
    refine { hx with watcher := ?_ }
    dsimp only [Stage.watcher]
    rw [if_pos (show s.mem.flag1 = 1 from hx.flag1)]
    rfl
  | seen =>
    refine ⟨0, Exchange.held ?_ hheld hheld.update_self⟩
    exact { hx with watcher := rfl, flag1 := rfl }
  | loadRequestId =>
    refine ⟨0, Exchange.held ?_ hheld hheld.update_self⟩
    refine { hx with watcher := ?_, stored := hx.stored.2 }
    dsimp only [Stage.watcher, Stage.watcherNext]
    rw [hx.stored.1]
  | loadMapId =>
    refine ⟨0, ?_⟩
    have hmap : s.mem.mapId = c.request.map.toInt64 := hx.stored
    dsimp only [Stage.watcher, Stage.watcherNext]
    rw [hmap]
    cases hop : c.request.op with
    | mapLookup | mapDelete =>
      refine Exchange.held ?_ hheld hheld.update_self
      refine { hx with watcher := ?_, stored := trivial }
      dsimp only [Stage.watcher]
      rw [hop]
      rfl
    | mapUpdate =>
      refine Exchange.held ?_ hheld hheld.update_self
      exact { hx with watcher := rfl, stored := hop }
  | loadFlags =>
    refine ⟨0, Exchange.held ?_ hheld hheld.update_self⟩
    refine { hx with watcher := ?_, stored := trivial }
    have hop : c.request.op = .mapUpdate := hx.stored
    dsimp only [Stage.watcher, Stage.watcherNext]
    rw [hop]
  | execute flags =>
    let e := s.execution h c.request.op c.request.map.toInt64 flags 0
    let result := (h.exec s.maps c.request.op c.request.map.toInt64 e.key e.value flags).1
    dsimp only [Stage.watcher]
    refine ⟨result, Exchange.held ?_ hheld hheld.update_self⟩
    refine { hx with watcher := rfl, stored := trivial, executed := ?_, result := ?_ }
    . have hexec := hx.executed
      simp only [Stage.isIssued, Stage.result?, Stage.watcherNext] at hexec ⊢
      simpa using hexec
    . intro r hr
      cases hr
      dsimp only
      rw [List.getLast?_concat]
      rfl
  | storeResp result =>
    refine ⟨0, Exchange.held ?_ hheld hheld.update_self⟩
    refine { hx with watcher := rfl, stored := ?_ }
    exact HelperCallResponse.read_store _ _ _
  | storeFlag2 result =>
    refine ⟨0, Exchange.held ?_ hheld hheld.update_self⟩
    exact { hx with watcher := rfl, flag2 := rfl }
  | _ =>
    refine ⟨0, Exchange.held ?_ hheld hheld.update_self⟩
    refine { hx with watcher := ?_ }
    have hflag1 : s.mem.flag1 = 0 := hx.flag1
    dsimp only [Stage.watcher]
    rw [if_neg (by rw [hflag1]; decide)]
    rfl

end State

end Bpftime.Cuda
