import Bpftime.Data.Registry
import Bpftime.Data.Run
import Bpftime.Pgas.Attach.Impl

namespace Bpftime.Pgas.Attach

structure Attached where
  id : ℤ
  func : UInt64
  ptr : ℕ
  deriving DecidableEq

structure Tracked where
  impl : PgasAttachImpl
  attached : List Attached
  dropped : List UInt64

namespace Tracked

def start : Tracked where
  impl := .empty
  attached := []
  dropped := []

def Live (s : Tracked) (f : UInt64) : Prop := ∃ a ∈ s.attached, a.func = f

def observe (resolveSymbol : ResolveSymbol) (s : Tracked) (impl : PgasAttachImpl) : Op → ℤ → Tracked
  | .create priv ptr, reply =>
    match priv.target resolveSymbol with
    | some func =>
      if 0 < reply then
        { s with impl, attached := s.attached ++ [⟨reply, func, ptr⟩] }
      else
        { s with impl }
    | none => { s with impl }
  | .detach id, reply =>
    if reply = 0 then
      let attached := s.attached.filter (·.id ≠ id)
      let lost := (s.attached.map Attached.func).filter (· ∉ attached.map Attached.func)
      { impl, attached, dropped := s.dropped ++ lost }
    else
      { s with impl }

def step (resolveSymbol : ResolveSymbol) (s : Tracked) (op : Op) : Option Tracked := do
  let (reply, impl) ← s.impl.step resolveSymbol op
  return s.observe resolveSymbol impl op reply

def run (resolveSymbol : ResolveSymbol) (ops : List Op) : Option Tracked :=
  ops.foldlM (step resolveSymbol) start

/-- The functions replaced are those of the live attaches. -/
def Matches (s : Tracked) : Prop := ∀ f, (s.impl.interceptor f).isSome = true ↔ s.Live f

end Tracked

namespace PgasAttachImpl

variable (s : PgasAttachImpl) (target f : UInt64) (opType : PgasOpType) (ptr : ℕ)

def hook : PgasAttachImpl :=
  ((s.getOrCreateInternalEntry target opType).addAttach target ptr).addEntry ptr opType

theorem hook_frame : (s.hook target opType ptr).nextId = s.nextId + 1
      ∧ (s.hook target opType ptr).attaches = Function.update s.attaches s.nextId (some ptr)
      ∧ (s.hook target opType ptr).heap
        = Function.update s.heap ptr (some ⟨s.nextId, opType⟩) := by
  unfold hook getOrCreateInternalEntry
  split <;> exact ⟨rfl, rfl, rfl⟩

theorem internalAttaches_hook : (s.hook target opType ptr).internalAttaches f
        =
      if f = target then
        some ((s.internalAttaches target).getD [] ++ [ptr])
      else
        s.internalAttaches f := by
  change Function.update (s.getOrCreateInternalEntry target opType).internalAttaches target
    (some (((s.getOrCreateInternalEntry target opType).internalAttaches target).getD [] ++ [ptr])) f
      = _
  rw [Function.update_apply]
  unfold getOrCreateInternalEntry
  split
  . cases h : s.internalAttaches target <;> simp [h]
  next hne =>
    split
    . rfl
    . simp only [Function.update_apply, if_neg hne]

theorem interceptor_hook : (s.hook target opType ptr).interceptor f
        =
      if f = target ∧ s.internalAttaches target = none then
        some (overrideHandler opType)
      else
        s.interceptor f := by
  change (s.getOrCreateInternalEntry target opType).interceptor f = _
  unfold getOrCreateInternalEntry
  cases h : s.internalAttaches target with
  | some l => simp
  | none => simp [Function.update_apply]

theorem createPgasHook_cases {resolveSymbol : ResolveSymbol} {s s' : PgasAttachImpl}
    {priv : PgasAttachPrivateData} {ptr : ℕ} {reply : ℤ}
    (h : s.createPgasHook resolveSymbol priv ptr = some (reply, s'))
    : (priv.target resolveSymbol = none ∧ s' = s)
      ∨ ∃ target, priv.target resolveSymbol = some target ∧ s.heap ptr = none
          ∧ reply = s.nextId ∧ s' = s.hook target priv.opType ptr := by
  unfold createPgasHook at h
  split at h
  next htarget =>
    cases h
    exact Or.inl ⟨htarget, rfl⟩
  next target htarget =>
    split at h
    . cases h
    next hdefined =>
      rw [not_or, Option.not_isSome_iff_eq_none] at hdefined
      cases h
      exact Or.inr ⟨target, htarget, hdefined.2, rfl, rfl⟩

theorem detachById_cases {s s' : PgasAttachImpl} {id reply : ℤ} (h : s.detachById id = (reply, s'))
    : (reply ≠ 0 ∧ s' = s)
      ∨ ∃ ptr, s.attaches id = some ptr ∧ reply = 0
          ∧ s' = (s.removeAttach ptr).removeEntry id ptr := by
  unfold detachById at h
  split at h
  . cases h
    exact Or.inl ⟨by decide, rfl⟩
  next ptr hptr =>
    cases h
    exact Or.inr ⟨ptr, hptr, rfl, rfl⟩

end PgasAttachImpl

namespace Tracked

structure Inv (s : Tracked) : Prop where
  registered : Registry.Holds Attached.id Attached.ptr (fun _ _ => True) s.attached s.impl.nextId
    s.impl.attaches s.impl.heap
  known : ∀ f, s.Live f → (s.impl.internalAttaches f).isSome = true
  lists : ∀ f l, s.impl.internalAttaches f = some l →
    ∀ p, p ∈ l ↔ ∃ a ∈ s.attached, a.func = f ∧ a.ptr = p

structure Reverts (s : Tracked) : Prop where
  live : ∀ f, (s.impl.interceptor f).isSome = true → s.Live f
  kept : ∀ f, (s.impl.internalAttaches f).isSome = true →
    (s.impl.interceptor f).isSome = true ∨ f ∈ s.dropped
  reverted : ∀ f ∈ s.dropped,
    (s.impl.internalAttaches f).isSome = true ∧ s.impl.interceptor f = none

theorem inv_start : start.Inv where
  registered := Registry.holds_empty
  known := by simp [start, Live]
  lists := by simp [start, PgasAttachImpl.empty]

theorem reverts_start : start.Reverts where
  live := by simp [start, PgasAttachImpl.empty]
  kept := by simp [start, PgasAttachImpl.empty]
  reverted := by simp [start]

variable {s : Tracked}

theorem Inv.eq_nil_iff (h : s.Inv) {f : UInt64} {l : List ℕ}
    (hl : s.impl.internalAttaches f = some l)
    : l = [] ↔ ¬s.Live f := by
  rw [List.eq_nil_iff_forall_not_mem]
  constructor
  . rintro hnil ⟨a, ha, hfunc⟩
    exact hnil a.ptr ((h.lists f l hl a.ptr).mpr ⟨a, ha, hfunc, rfl⟩)
  . intro hlive p hp
    rcases (h.lists f l hl p).mp hp with ⟨a, ha, hfunc, -⟩
    exact hlive ⟨a, ha, hfunc⟩

theorem matches_iff (h : s.Inv) (hrev : s.Reverts) : s.Matches ↔ ∀ f, s.Live f → f ∉ s.dropped := by
  constructor
  . intro hmatches f hlive hdropped
    have hreplaced := (hmatches f).mpr hlive
    rw [(hrev.reverted f hdropped).2] at hreplaced
    contradiction
  . intro hcond f
    constructor
    . exact hrev.live f
    . intro hlive
      cases hrev.kept f (h.known f hlive) with
      | inl hreplaced => exact hreplaced
      | inr hdropped => exact absurd hdropped (hcond f hlive)

section Create

variable (s) (target : UInt64) (opType : PgasOpType) (ptr : ℕ)

def created : Tracked :=
  { s with
    impl := s.impl.hook target opType ptr
    attached := s.attached ++ [⟨s.impl.nextId, target, ptr⟩] }

theorem mem_created {a : Attached} : a ∈ (s.created target opType ptr).attached
        ↔ a ∈ s.attached ∨ a = ⟨s.impl.nextId, target, ptr⟩ := by
  rw [created, List.mem_append, List.mem_singleton]

theorem live_created {f : UInt64}
    : (s.created target opType ptr).Live f ↔ s.Live f ∨ f = target := by
  unfold Live
  simp only [mem_created, or_and_right, exists_or, exists_eq_left]
  rw [eq_comm (a := target)]

end Create

theorem Inv.lists_create (h : s.Inv) (target : UInt64) (opType : PgasOpType) (ptr : ℕ)
    : ∀ f l, (s.created target opType ptr).impl.internalAttaches f = some l →
        ∀ p, p ∈ l ↔ ∃ a ∈ (s.created target opType ptr).attached, a.func = f ∧ a.ptr = p := by
  intro f l hl p
  change (s.impl.hook target opType ptr).internalAttaches f = some l at hl
  rw [PgasAttachImpl.internalAttaches_hook] at hl
  simp only [mem_created, or_and_right, exists_or, exists_eq_left]
  split at hl
  next heq =>
    subst heq
    cases hl
    rw [List.mem_append, List.mem_singleton, eq_comm (a := p)]
    apply or_congr _ (by simp)
    cases hold : s.impl.internalAttaches f with
    | some l => exact h.lists f l hold p
    | none =>
      -- A function without an internal entry has no live attach.
      simp only [Option.getD_none, List.not_mem_nil, false_iff]
      rintro ⟨a, ha, hfunc, -⟩
      have hknown := h.known f ⟨a, ha, hfunc⟩
      rw [hold] at hknown
      contradiction
  next hne =>
    rw [h.lists f l hl p]
    simp [Ne.symm hne]

theorem Inv.create (h : s.Inv) {ptr : ℕ} (hfree : s.impl.heap ptr = none) (target : UInt64)
    (opType : PgasOpType)
    : (s.created target opType ptr).Inv := by
  constructor
  case registered =>
    rcases s.impl.hook_frame target opType ptr with ⟨hnextId, hattaches, hheap⟩
    unfold created
    rw [hnextId, hattaches, hheap]
    exact h.registered.add (a := ⟨s.impl.nextId, target, ptr⟩) rfl hfree trivial
  case known =>
    intro f hlive
    change ((s.impl.hook target opType ptr).internalAttaches f).isSome = true
    rw [PgasAttachImpl.internalAttaches_hook]
    split
    . rfl
    next hne =>
      rcases (live_created ..).mp hlive with hlive | heq
      . exact h.known f hlive
      . exact absurd heq hne
  case lists => exact h.lists_create target opType ptr

theorem Reverts.create (hrev : s.Reverts) (target : UInt64) (opType : PgasOpType) (ptr : ℕ)
    : (s.created target opType ptr).Reverts := by
  have hnew : ∀ f, (f = target ∧ s.impl.internalAttaches target = none) → f ∉ s.dropped := by
    rintro f ⟨rfl, hnone⟩ hdropped
    have hknown := (hrev.reverted f hdropped).1
    rw [hnone] at hknown
    contradiction
  constructor
  case live =>
    intro f hreplaced
    change ((s.impl.hook target opType ptr).interceptor f).isSome = true at hreplaced
    rw [PgasAttachImpl.interceptor_hook] at hreplaced
    rw [live_created]
    split at hreplaced
    next hfresh => exact Or.inr hfresh.1
    . exact Or.inl (hrev.live f hreplaced)
  case kept =>
    intro f hknown
    change ((s.impl.hook target opType ptr).internalAttaches f).isSome = true at hknown
    change ((s.impl.hook target opType ptr).interceptor f).isSome = true ∨ f ∈ s.dropped
    rw [PgasAttachImpl.internalAttaches_hook] at hknown
    rw [PgasAttachImpl.interceptor_hook]
    by_cases hfresh : f = target ∧ s.impl.internalAttaches target = none
    . rw [if_pos hfresh]
      exact Or.inl rfl
    . rw [if_neg hfresh]
      apply hrev.kept
      split at hknown
      next heq =>
        rw [← Option.ne_none_iff_isSome, heq]
        exact fun hnone => hfresh ⟨heq, hnone⟩
      . exact hknown
  case reverted =>
    intro f hdropped
    change ((s.impl.hook target opType ptr).internalAttaches f).isSome = true
      ∧ (s.impl.hook target opType ptr).interceptor f = none
    rw [PgasAttachImpl.internalAttaches_hook, PgasAttachImpl.interceptor_hook]
    rw [if_neg fun hfresh => hnew f hfresh hdropped]
    refine ⟨?_, (hrev.reverted f hdropped).2⟩
    split
    . rfl
    . exact (hrev.reverted f hdropped).1

section Detach

variable (s) (id : ℤ) (ptr : ℕ)

def detached : Tracked :=
  s.observe (fun _ _ => 0) ((s.impl.removeAttach ptr).removeEntry id ptr) (.detach id) 0

theorem mem_detached {a : Attached}
    : a ∈ (s.detached id ptr).attached ↔ a ∈ s.attached ∧ a.id ≠ id := by
  simp [detached, observe]

theorem mem_dropped_detached {f : UInt64} : f ∈ (s.detached id ptr).dropped
        ↔ f ∈ s.dropped ∨ s.Live f ∧ ¬(s.detached id ptr).Live f := by
  unfold Live
  simp [detached, observe]

theorem internalAttaches_detached (f : UInt64) : (s.detached id ptr).impl.internalAttaches f
        = (s.impl.internalAttaches f).map (·.filter (· ≠ ptr)) := rfl

theorem interceptor_detached (f : UInt64) : (s.detached id ptr).impl.interceptor f
        =
      if (s.detached id ptr).impl.internalAttaches f = some [] then
        none
      else
        s.impl.interceptor f := rfl

end Detach

theorem Inv.detach (h : s.Inv) {id : ℤ} {ptr : ℕ} (hid : s.impl.attaches id = some ptr)
    : (s.detached id ptr).Inv := by
  obtain ⟨b, hb, rfl, rfl⟩ := h.registered.entries id ptr hid
  -- The id and the address name the same attach.
  have hptr (a) (ha : a ∈ s.attached) : a.id ≠ b.id ↔ a.ptr ≠ b.ptr :=
    not_congr (h.registered.id_eq_iff ha hb)
  constructor
  case registered => exact h.registered.remove hb
  case known =>
    rintro f ⟨a, ha, hfunc⟩
    rw [internalAttaches_detached, Option.isSome_map]
    exact h.known f ⟨a, ((mem_detached ..).mp ha).1, hfunc⟩
  case lists =>
    intro f l hl p
    rw [internalAttaches_detached, Option.map_eq_some_iff] at hl
    rcases hl with ⟨l, hl, rfl⟩
    rw [List.mem_filter, h.lists f l hl p]
    simp only [mem_detached, decide_eq_true_eq]
    constructor
    . rintro ⟨⟨a, ha, hfunc, rfl⟩, hne⟩
      exact ⟨a, ⟨ha, (hptr a ha).mpr hne⟩, hfunc, rfl⟩
    . rintro ⟨a, ⟨ha, hne⟩, hfunc, rfl⟩
      exact ⟨⟨a, ha, hfunc, rfl⟩, (hptr a ha).mp hne⟩

theorem Reverts.detach (hrev : s.Reverts) (h : s.Inv) {id : ℤ} {ptr : ℕ}
    (h' : (s.detached id ptr).Inv)
    : (s.detached id ptr).Reverts := by
  -- The functions that are reverted are those without a live attach.
  have hnil : ∀ f, (s.impl.internalAttaches f).isSome = true →
      ((s.detached id ptr).impl.internalAttaches f = some [] ↔ ¬(s.detached id ptr).Live f) := by
    intro f hknown
    rcases Option.isSome_iff_exists.mp hknown with ⟨l, hl⟩
    have hl' := s.internalAttaches_detached id ptr f
    rw [hl, Option.map_some] at hl'
    rw [← h'.eq_nil_iff hl', hl', Option.some_inj]
  have hknown : ∀ f, ((s.detached id ptr).impl.internalAttaches f).isSome = true
      ↔ (s.impl.internalAttaches f).isSome = true := by
    intro f
    rw [internalAttaches_detached, Option.isSome_map]
  constructor
  case live =>
    intro f hreplaced
    rw [interceptor_detached] at hreplaced
    split at hreplaced
    . contradiction
    next hne =>
      have hlive := hrev.live f hreplaced
      by_contra hdead
      exact hne ((hnil f (h.known f hlive)).mpr hdead)
  case kept =>
    intro f hf
    rw [hknown] at hf
    rw [interceptor_detached, mem_dropped_detached]
    cases hrev.kept f hf with
    | inr hdropped => exact Or.inr (Or.inl hdropped)
    | inl hreplaced =>
      split
      next heq => exact Or.inr (Or.inr ⟨hrev.live f hreplaced, (hnil f hf).mp heq⟩)
      . exact Or.inl hreplaced
  case reverted =>
    intro f hf
    rw [hknown, interceptor_detached]
    rcases (mem_dropped_detached ..).mp hf with hdropped | ⟨hlive, hdead⟩
    . rw [(hrev.reverted f hdropped).2, ite_self]
      exact ⟨(hrev.reverted f hdropped).1, rfl⟩
    . rw [if_pos ((hnil f (h.known f hlive)).mpr hdead)]
      exact ⟨h.known f hlive, rfl⟩

variable {resolveSymbol : ResolveSymbol}

theorem invariant_step {s' : Tracked} (h : s.Inv ∧ s.Reverts) {op : Op}
    (hstep : s.step resolveSymbol op = some s')
    : s'.Inv ∧ s'.Reverts := by
  obtain ⟨⟨reply, impl⟩, himpl, hs'⟩ := Option.bind_eq_some_iff.mp hstep
  cases hs'
  cases op with
  | create priv ptr =>
    rcases PgasAttachImpl.createPgasHook_cases himpl with ⟨hnone, rfl⟩ | ⟨f, hf, hfree, rfl, rfl⟩
    . simp only [observe, hnone]
      exact h
    . simp only [observe, hf, if_pos h.1.registered.pos]
      exact ⟨h.1.create hfree f priv.opType, h.2.create f priv.opType ptr⟩
  | detach id =>
    rcases PgasAttachImpl.detachById_cases (Option.some.inj himpl) with
      ⟨hreply, rfl⟩ | ⟨ptr, hptr, rfl, rfl⟩
    . rw [observe, if_neg hreply]
      exact h
    . have h' := h.1.detach hptr
      exact ⟨h', h.2.detach h.1 h'⟩

theorem invariant_run {ops : List Op} (hrun : run resolveSymbol ops = some s)
    : s.Inv ∧ s.Reverts := by
  have hstep : ∀ (s : Tracked) op s', s.Inv ∧ s.Reverts → True → s.step resolveSymbol op = some s' →
      s'.Inv ∧ s'.Reverts := by
    intro s op s' h _ hstep
    exact invariant_step h hstep
  exact (Run.exec_of_foldlM hrun).invariant hstep ⟨inv_start, reverts_start⟩

theorem matches_run_iff (resolveSymbol : ResolveSymbol) (ops : List Op) (s : Tracked)
    (hrun : run resolveSymbol ops = some s)
    : s.Matches ↔ ∀ f, s.Live f → f ∉ s.dropped := by
  rcases invariant_run hrun with ⟨h, hrev⟩
  exact matches_iff h hrev

def memcpyHook (func : UInt64) : PgasAttachPrivateData :=
  { targetAddress := func, opType := .memcpy }

def leftHook : List Op :=
  [.create (memcpyHook 4096) 0, .create (memcpyHook 8192) 1, .detach 1]

theorem matches_run_leftHook : ∃ s, run (fun _ _ => 0) leftHook = some s ∧ s.Matches := by
  refine ⟨_, rfl, (matches_run_iff (fun _ _ => 0) leftHook _ rfl).mpr ?_⟩
  rintro f ⟨a, ha, rfl⟩
  revert a
  decide

def recreatedHook : List Op :=
  [.create (memcpyHook 4096) 0, .detach 1, .create (memcpyHook 4096) 0]

theorem not_matches_run_recreatedHook : ∃ s, run (fun _ _ => 0) recreatedHook = some s
        ∧ s.impl.interceptor 4096 = none ∧ s.Live 4096 ∧ ¬s.Matches := by
  have hlive : ∃ a ∈ [(⟨2, 4096, 0⟩ : Attached)], a.func = 4096 := by decide
  refine ⟨_, rfl, rfl, hlive, ?_⟩
  intro hmatches
  have hreplaced := (hmatches 4096).mpr hlive
  contradiction

end Tracked

end Bpftime.Pgas.Attach
