import Bpftime.Shm.Links

namespace Bpftime.Shm

def BPF_PERF_EVENT : UInt32 := 41

structure LinkCreateAttr where
  progFd : UInt32
  targetFd : UInt32
  attachType : UInt32
  bpfCookie : UInt64

namespace LinkCreateAttr

def prog (attr : LinkCreateAttr) : Int32 := attr.progFd.toInt32

def target (attr : LinkCreateAttr) : Int32 := attr.targetFd.toInt32

def args (attr : LinkCreateAttr) : BpfLinkCreateArgs := ⟨attr.progFd, attr.targetFd⟩

def cookie (attr : LinkCreateAttr) : Option UInt64 :=
  if attr.attachType = BPF_PERF_EVENT then some attr.bpfCookie else none

end LinkCreateAttr

namespace BpftimeShm

def attachPerfEvent (env : Env) (s : BpftimeShm) (fake : Int32) (attr : LinkCreateAttr)
    (created : Outcome) : Option (Outcome × BpftimeShm) :=
  if s.isProgFd attr.prog && s.isPerfFd attr.target && attr.attachType == BPF_PERF_EVENT then
    match s.attachPerfToBpf env fake attr.target attr.prog (some attr.bpfCookie) with
    | none => none
    | some (_, s) => some (created, s)
  else
    some (created, s)

def handleLinkCreate (env : Env) (runWithKernel : Bool) (kernel : Outcome) (s : BpftimeShm)
    (fake fake' : Int32) (attr : LinkCreateAttr) : Option (Outcome × BpftimeShm) :=
  if runWithKernel && !s.isPerfFd attr.target then
    some (kernel, s)
  else
    match s.addBpfLink env fake (-1) attr.args with
    | none => none
    | some (.thrown, s) => some (.thrown, s)
    | some (created, s) => s.attachPerfEvent env fake' attr created

def LinkAt (s : BpftimeShm) (fd : Int32) (l : BpfLinkHandler) : Prop := s.slot? fd = some (.link l)

def AddsOneLink (s s' : BpftimeShm) (attr : LinkCreateAttr) : Prop :=
  ∃ fd l, (∀ l', ¬ s.LinkAt fd l')
    ∧ (∀ fd' l', s'.LinkAt fd' l' ↔ s.LinkAt fd' l' ∨ fd' = fd ∧ l' = l)
    ∧ l.progId = attr.prog ∧ l.attachTargetId = attr.target ∧ l.attachCookie = attr.cookie

def ClosesLinks (env : Env) (s s' : BpftimeShm) (attr : LinkCreateAttr) (id : Int32) : Prop :=
  ∃ s'', s'.closeFd env id = some s'' ∧
    ∀ fd l, s''.LinkAt fd l → l.progId = attr.prog → l.attachTargetId = attr.target → s.LinkAt fd l

def CreatesLink (env : Env) (s s' : BpftimeShm) (attr : LinkCreateAttr) (id : Int32) : Prop :=
  s.AddsOneLink s' attr ∧ s.ClosesLinks env s' attr id

section Create

variable {env : Env} {s s' : BpftimeShm} {fake fake' : Int32} {attr : LinkCreateAttr}

theorem linkAt_setSlot_link {h : BpfLinkHandler} (hfree : s.slot? fake = some .unused) (fd : Int32)
    (l : BpfLinkHandler)
    : (s.setSlot fake (.link h)).LinkAt fd l ↔ s.LinkAt fd l ∨ fd = fake ∧ l = h := by
  unfold LinkAt
  rw [slot?_setSlot hfree]
  by_cases heq : fd = fake
  . rw [if_pos heq, heq, hfree]
    simp [eq_comm]
  . rw [if_neg heq]
    simp [heq]

theorem addBpfLink_of_success {id : Int32} {e : Option Errno}
    (hprog : s.isProgFd attr.prog = true) (hid : ¬ id < 0)
    (h : s.addBpfLink env fake (-1) attr.args = some (.ret id e, s'))
    : s.slot? fake = some .unused ∧ id = fake
        ∧ s' = s.setSlot fake (.link (.ofArgs attr.args)) := by
  unfold addBpfLink at h
  have horFake : orFake (-1) fake = fake := if_pos (by decide)
  rw [horFake] at h
  change (if s.isProgFd attr.prog = true then _ else _) = _ at h
  rw [if_pos hprog] at h
  cases hslot : s.slot? fake with
  | none =>
    rw [setHandler_of_outside hslot (by simp [Handler.kind])] at h
    contradiction
  | some taken =>
    by_cases hkind : taken.kind = .unused
    . rw [Handler.kind_eq_unused.mp hkind] at hslot ⊢
      rw [setHandler_of_free hslot (by simp [Handler.kind]) (by simp [Handler.kind])] at h
      cases h
      exact ⟨rfl, rfl, rfl⟩
    . rw [setHandler_of_taken hslot hkind] at h
      cases h
      exact absurd (by decide) hid

theorem slot?_attachPerfToBpf {fd perfFd bpfFd : Int32} {cookie : Option UInt64} {taken : Handler}
    {o : Outcome} (hslot : s.slot? fd = some taken) (hkind : taken.kind ≠ .unused)
    (h : s.attachPerfToBpf env fake perfFd bpfFd cookie = some (o, s'))
    : s'.slot? fd = some taken := by
  rcases attachPerfToBpf_cases h with rfl | ⟨-, -, _, hset⟩
  . exact hslot
  . exact slot?_setHandler_of_taken hslot hkind hset

theorem attachPerfEvent_spec {o o' : Outcome}
    (h : s.attachPerfEvent env fake' attr o = some (o', s'))
    : o' = o ∧ ∀ fd l, s.slot? fd = some (.link l) → s'.slot? fd = some (.link l) := by
  unfold attachPerfEvent at h
  split at h
  next =>
    split at h
    next => contradiction
    next hattach =>
      cases h
      refine ⟨rfl, ?_⟩
      intro fd l hslot
      exact slot?_attachPerfToBpf hslot (by simp [Handler.kind]) hattach
  next =>
    cases h
    exact ⟨rfl, fun _ _ hslot => hslot⟩

theorem attachPerfEvent_of_other (o : Outcome) (h : attr.attachType ≠ BPF_PERF_EVENT)
    : s.attachPerfEvent env fake' attr o = some (o, s) := by
  unfold attachPerfEvent
  rw [if_neg]
  simp [h]

theorem handleLinkCreate_of_success {runWithKernel : Bool} {kernel : Outcome} {id : Int32}
    {e : Option Errno} (hprog : s.isProgFd attr.prog = true)
    (htarget : s.isPerfFd attr.target = true) (hid : ¬ id < 0)
    (h : s.handleLinkCreate env runWithKernel kernel fake fake' attr = some (.ret id e, s'))
    : s.slot? fake = some .unused ∧ id = fake
        ∧ (s.setSlot fake (.link (.ofArgs attr.args))).attachPerfEvent env fake' attr (.ret id e)
            =
          some (.ret id e, s') := by
  unfold handleLinkCreate at h
  rw [if_neg (by simp [htarget])] at h
  cases hadd : s.addBpfLink env fake (-1) attr.args with
  | none => simp [hadd] at h
  | some added =>
    rcases added with ⟨created, s₁⟩
    rw [hadd] at h
    cases created with
    | thrown => simp at h
    | ret id' e' =>
      rcases attachPerfEvent_spec h with ⟨heq, -⟩
      cases heq
      rcases addBpfLink_of_success hprog hid hadd with ⟨hfree, rfl, rfl⟩
      exact ⟨hfree, rfl, h⟩

theorem closeFd_link {fd : Int32} {l : BpfLinkHandler} (h : s.slot? fd = some (.link l))
    : s.closeFd env fd = some (s.setSlot fd .unused) := by
  unfold closeFd clearIdAt
  rw [h]
  rfl

theorem addsOneLink_setSlot (hfree : s.slot? fake = some .unused)
    (hother : attr.attachType ≠ BPF_PERF_EVENT)
    : s.AddsOneLink (s.setSlot fake (.link (.ofArgs attr.args))) attr := by
  refine ⟨fake, .ofArgs attr.args, ?_, linkAt_setSlot_link hfree, rfl, rfl, ?_⟩
  . intro l hl
    unfold LinkAt at hl
    rw [hfree] at hl
    cases hl
  . unfold LinkCreateAttr.cookie
    rw [if_neg hother]
    rfl

theorem closesLinks_setSlot (hfree : s.slot? fake = some .unused) (h : BpfLinkHandler)
    : s.ClosesLinks env (s.setSlot fake (.link h)) attr fake := by
  have hslot : (s.setSlot fake (.link h)).slot? fake = some (.link h) := by
    rw [slot?_setSlot hfree, if_pos rfl]
  refine ⟨_, closeFd_link hslot, ?_⟩
  intro fd l hl _ _
  unfold LinkAt at hl ⊢
  rw [slot?_setSlot hslot] at hl
  split at hl
  next => cases hl
  next hne =>
    rw [slot?_setSlot hfree, if_neg hne] at hl
    exact hl

theorem not_addsOneLink_of_perfEvent (hperf : attr.attachType = BPF_PERF_EVENT)
    (hfree : s.slot? fake = some .unused)
    (hslot : s'.slot? fake = some (.link (.ofArgs attr.args)))
    : ¬ s.AddsOneLink s' attr := by
  -- the link in the slot that is returned carries no cookie
  rintro ⟨fd, l, -, hlinks, -, -, hcookie⟩
  rcases (hlinks fake (.ofArgs attr.args)).mp hslot with hbefore | ⟨-, heq⟩
  . unfold LinkAt at hbefore
    rw [hfree] at hbefore
    cases hbefore
  . rw [← heq] at hcookie
    unfold LinkCreateAttr.cookie at hcookie
    rw [if_pos hperf] at hcookie
    cases hcookie

end Create

theorem createsLink_iff (env : Env) (runWithKernel : Bool) (kernel : Outcome) (s s' : BpftimeShm)
    (fake fake' : Int32) (attr : LinkCreateAttr) (id : Int32) (e : Option Errno)
    (hprog : s.isProgFd attr.prog = true) (htarget : s.isPerfFd attr.target = true)
    (hcall : s.handleLinkCreate env runWithKernel kernel fake fake' attr = some (.ret id e, s'))
    (hid : ¬ id < 0)
    : s.CreatesLink env s' attr id ↔ attr.attachType ≠ BPF_PERF_EVENT := by
  rcases handleLinkCreate_of_success hprog htarget hid hcall with ⟨hfree, rfl, hattach⟩
  constructor
  . intro h hperf
    apply not_addsOneLink_of_perfEvent hperf hfree _ h.1
    apply (attachPerfEvent_spec hattach).2
    rw [slot?_setSlot hfree, if_pos rfl]
  . intro hother
    rw [attachPerfEvent_of_other _ hother] at hattach
    cases hattach
    constructor
    . exact addsOneLink_setSlot hfree hother
    . exact closesLinks_setSlot hfree (.ofArgs attr.args)

def progAndPerf : BpftimeShm where
  handlers := [.unused, .unused, .unused, .prog ⟨0, [], []⟩, .perfEvent (.tracepoint 1 2), .unused,
    .unused]
  segment := []

theorem createsLink_iff_rawTracepoint : let attr : LinkCreateAttr := ⟨3, 4, 23, 7⟩
      ∃ s', progAndPerf.handleLinkCreate plainEnv false (.ret 0 none) 5 6 attr
            = some (.ret 5 none, s')
        ∧ progAndPerf.CreatesLink plainEnv s' attr 5 := by
  intro attr
  refine ⟨progAndPerf.setSlot 5 (.link ⟨3, 4, none⟩), rfl, ?_⟩
  apply (createsLink_iff plainEnv false (.ret 0 none) progAndPerf _ 5 6 attr 5 none (by decide)
    (by decide) rfl (by decide)).mpr
  decide

theorem not_createsLink_perfEvent : let attr : LinkCreateAttr := ⟨3, 4, BPF_PERF_EVENT, 7⟩
      let s' := (progAndPerf.setSlot 5 (.link ⟨3, 4, none⟩)).setSlot 6 (.link ⟨3, 4, some 7⟩)
      progAndPerf.handleLinkCreate plainEnv false (.ret 0 none) 5 6 attr = some (.ret 5 none, s')
        ∧ ¬ progAndPerf.AddsOneLink s' attr
        ∧ ¬ progAndPerf.ClosesLinks plainEnv s' attr 5 := by
  intro attr s'
  refine ⟨rfl, ?_, ?_⟩
  . have hfree : progAndPerf.slot? 5 = some .unused := rfl
    exact not_addsOneLink_of_perfEvent rfl hfree rfl
  . rintro ⟨s'', hclose, hlinks⟩
    have heq : s'.closeFd plainEnv 5 = some (s'.setSlot 5 .unused) := closeFd_link rfl
    rw [heq] at hclose
    cases hclose
    have hleft := hlinks 6 ⟨3, 4, some 7⟩ rfl rfl rfl
    have hbefore : progAndPerf.slot? 6 = some .unused := rfl
    unfold LinkAt at hleft
    rw [hbefore] at hleft
    cases hleft

end BpftimeShm

end Bpftime.Shm
