import Bpftime.Shm.Containers.Isolation

/-!
This module contains the lifetime of containers over whole runs of creations, closings and accesses:
when the containers in the segment are at all times those of the maps that are live.
-/

namespace Bpftime.Shm

namespace ShmState

variable {α ε ρ : Type} {env : Env} {ops : MapOps α ε ρ} {s s' : ShmState α ε} {fd : Int32}

/-- A call, and for one on a map whether the segment has room for a container at that time. -/
inductive LifeOp where
  | map (op : MapOp) (room : Bool)
  | access (fd : Int32) (cmd : Cmd)

def withRoom (env : Env) (room : Bool) : Env := { env with room := fun _ => room }

def lifeStep (env : Env) (ops : MapOps α ε ρ) (s : ShmState α ε) : LifeOp → Option (ShmState α ε)
  | .map op room => s.step (withRoom env room) ops (.table op.op)
  | .access fd cmd => s.step env ops (.access fd cmd)

def Live (s : ShmState α ε) (fd : Int32) (h : BpfMapHandler) : Prop :=
  s.shm.slot? fd = some (.map h)

def NamesAgree (s : ShmState α ε) : Prop :=
  ∀ name, name ∈ s.heap.names ↔ ∃ fd h, s.Live fd h ∧ h.getContainerName = name

def Fresh (ops : MapOps α ε ρ) (s : ShmState α ε) (fd : Int32) (h : BpfMapHandler) : Prop :=
  ∃ id, s.deref fd = some ⟨id, h.getContainerName, ops.construct h.attr⟩

/-- The live map objects and the named containers agree after the call, and a created map has a
container of its own that was constructed by this call. -/
def Kept (env : Env) (ops : MapOps α ε ρ) (s : ShmState α ε) : LifeOp → Prop
  | .map (.create fake fd name attr) room =>
    ∃ s', s.call (withRoom env room) ops (.addBpfMap fake fd name attr)
          = some (.ret (BpftimeShm.orFake fd fake) none, s') ∧
        s'.NamesAgree ∧ s'.Fresh ops (BpftimeShm.orFake fd fake) ⟨name, attr⟩
  | .map (.close fd) room =>
    ∃ o s', s.call (withRoom env room) ops (.closeFd fd) = some (o, s') ∧ s'.NamesAgree
  | .access fd cmd => ∀ r s', s.access env ops fd cmd = some (r, s') → s'.NamesAgree

/-- A map is created of a builtin type, under a name no live map has. -/
def Admissible (env : Env) (s : ShmState α ε) : LifeOp → Prop
  | .map (.create fake fd name attr) _ =>
    BpfMapHandler.initKind env ⟨name, attr⟩ ≠ .nonBuiltin ∧
      ∀ fd' h', fd' ≠ BpftimeShm.orFake fd fake → s.Live fd' h' → h'.name ≠ name
  | _ => True

def FreesAt (env : Env) (s : ShmState α ε) (fd : Int32) : Prop :=
  ∀ h, s.Live fd h → h.freesContainer env = true

/-- Closing frees the container, and creating constructs one: the branch of `map_init` does it, the
constructor accepts the sizes and the segment has room. -/
def Tidy (env : Env) (s : ShmState α ε) : LifeOp → Prop
  | .map (.create fake fd name attr) room =>
    (∃ handler, s.shm.slot? (BpftimeShm.orFake fd fake) = some handler) ∧
      s.FreesAt (withRoom env room) (BpftimeShm.orFake fd fake) ∧
      BpfMapHandler.initKind (withRoom env room) ⟨name, attr⟩ = .construct ∧
      BpfMapHandler.constructorAccepts (withRoom env room) ⟨name, attr⟩ = true
  | .map (.close fd) room => s.FreesAt (withRoom env room) fd
  | .access _ _ => True

structure LifeInv (s : ShmState α ε) : Prop where
  agree : s.NamesAgree
  distinct : ∀ fd fd' h h', s.Live fd h → s.Live fd' h' → h.name = h'.name → fd = fd'
  onlyMaps : ∀ fd handler, s.shm.slot? fd = some handler → handler = .unused ∨ ∃ h, s.Live fd h

variable {h : BpfMapHandler} {o : Outcome}

theorem Live.congr (heq : s'.shm.slot? = s.shm.slot?) : s'.Live fd h ↔ s.Live fd h := by
  unfold Live
  rw [heq]

theorem Live.inj {h' : BpfMapHandler} (hlive : s.Live fd h) (hlive' : s.Live fd h') : h' = h := by
  unfold Live at hlive hlive'
  rw [hlive] at hlive'
  cases hlive'
  rfl

theorem LifeInv.congr (hinv : LifeInv s) (hnames : s'.heap.names = s.heap.names)
    (hslots : s'.shm.slot? = s.shm.slot?)
    : LifeInv s' := by
  constructor
  . intro name
    rw [hnames, hinv.agree name]
    simp only [Live.congr hslots]
  . intro fd fd' h h' hlive hlive'
    exact hinv.distinct fd fd' h h' ((Live.congr hslots).mp hlive) ((Live.congr hslots).mp hlive')
  . intro fd handler hslot
    rw [hslots] at hslot
    simp only [Live.congr hslots]
    exact hinv.onlyMaps fd handler hslot

theorem not_live_of_replicate {n : Nat} (hunused : s.handlers = List.replicate n .unused)
    : ¬ s.Live fd h := by
  intro hlive
  unfold Live BpftimeShm.slot? shm at hlive
  dsimp only at hlive
  rw [hunused] at hlive
  split at hlive
  . simp at hlive
  . have := List.eq_of_mem_replicate (List.mem_of_getElem? hlive)
    simp at this

theorem lifeInv_construct (maxFdCount : Nat) (ext : Extern → ε)
    : LifeInv (construct maxFdCount ext : ShmState α ε) := by
  have hunused : (construct maxFdCount ext : ShmState α ε).handlers
      = List.replicate maxFdCount .unused := rfl
  constructor
  . intro name
    simp only [not_live_of_replicate hunused, false_and, exists_false, iff_false]
    exact List.not_mem_nil
  . intro fd _ h _ hlive
    exact absurd hlive (not_live_of_replicate hunused)
  . intro fd handler hslot
    unfold BpftimeShm.slot? at hslot
    split at hslot
    . simp at hslot
    . exact .inl (List.eq_of_mem_replicate (List.mem_of_getElem? hslot))

theorem Cleared.names_eq (hc : Cleared env ops s fd s') (hlive : s.Live fd h) : s'.heap.names
        =
      if h.freesContainer env then s.heap.names.erase h.getContainerName else s.heap.names := by
  rcases BpftimeShm.clearIdAt_spec hlive hc.shm_eq with ⟨-, -, hfree, -⟩
  have hfree : h.mapFree env s.heap.names = some s'.heap.names := hfree h rfl
  unfold BpfMapHandler.mapFree at hfree
  split
  . next hfrees =>
    rw [if_pos hfrees] at hfree
    exact (Option.some.inj hfree).symm
  . next hkeeps =>
    rw [if_neg hkeeps] at hfree
    split at hfree
    . exact (Option.some.inj hfree).symm
    . simp at hfree

theorem Cleared.live_iff (hc : Cleared env ops s fd s') {fd' : Int32}
    : s'.Live fd' h ↔ fd' ≠ fd ∧ s.Live fd' h := by
  unfold Live
  by_cases hfd : fd' = fd
  . rw [hfd, hc.slot_self]
    simp
  . rw [hc.slot_other fd' h hfd]
    simp [hfd]

theorem LifeInv.name_ne (hinv : LifeInv s) (hlive : s.Live fd h) (hc : Cleared env ops s fd s')
    {fd' : Int32} {h' : BpfMapHandler} (hlive' : s'.Live fd' h')
    : h'.getContainerName ≠ h.getContainerName := by
  intro hname
  rcases hc.live_iff.mp hlive' with ⟨hne, hlive'⟩
  apply hne
  exact hinv.distinct fd' fd h' h hlive' hlive (BpfMapHandler.getContainerName_inj.mp hname)

theorem LifeInv.cleared (hinv : LifeInv s) (hlive : s.Live fd h)
    (hfrees : h.freesContainer env = true) (hc : Cleared env ops s fd s')
    : LifeInv s' := by
  constructor
  . intro name
    have hnodup : s.heap.names.Nodup := s.heap.nodup_names
    rw [hc.names_eq hlive, if_pos hfrees, hnodup.mem_erase_iff, hinv.agree name]
    constructor
    . intro ⟨hne, fd', h', hlive', hname⟩
      refine ⟨fd', h', hc.live_iff.mpr ⟨?_, hlive'⟩, hname⟩
      rintro rfl
      rw [hlive.inj hlive'] at hname
      exact hne hname.symm
    . intro ⟨fd', h', hlive', hname⟩
      refine ⟨?_, fd', h', (hc.live_iff.mp hlive').2, hname⟩
      rw [← hname]
      exact hinv.name_ne hlive hc hlive'
  . intro fd₁ fd₂ h₁ h₂ hlive₁ hlive₂
    exact hinv.distinct fd₁ fd₂ h₁ h₂ (hc.live_iff.mp hlive₁).2 (hc.live_iff.mp hlive₂).2
  . intro fd' handler hslot
    rw [BpftimeShm.slot?_clearIdAt hlive hc.shm_eq] at hslot
    split at hslot
    . cases hslot
      exact .inl rfl
    . next hne =>
      rcases Option.map_eq_some_iff.mp hslot with ⟨handler', hslot', rfl⟩
      rcases hinv.onlyMaps fd' handler' hslot' with rfl | ⟨h', hlive'⟩
      . exact .inl rfl
      . exact .inr ⟨h', hc.live_iff.mpr ⟨hne, hlive'⟩⟩

theorem Made.live_iff {h' : BpfMapHandler} (hm : Made env ops s fd h o s')
    (hfree : s.shm.slot? fd = some .unused) {fd' : Int32}
    : s'.Live fd' h' ↔ (fd' = fd ∧ h' = h) ∨ s.Live fd' h' := by
  unfold Live
  by_cases hfd : fd' = fd
  . rw [hfd, hm.slot_self, hfree]
    simp [eq_comm]
  . rw [hm.slot_other fd' hfd]
    simp [hfd]

theorem Made.names_eq (hm : Made env ops s fd h o s') (hnew : Constructs env s h)
    : s'.heap.names = h.getContainerName :: s.heap.names := by
  rw [hm.heap_eq, mapInit_of_constructs hnew.kind hnew.free hnew.accepts]
  exact NamedHeap.names_construct _ hnew.free

theorem LifeInv.made (hinv : LifeInv s)
    (hfree : s.shm.slot? fd = some .unused) (hnew : Constructs env s h)
    (hm : Made env ops s fd h o s')
    : LifeInv s' := by
  have hother : ∀ fd' h', s.Live fd' h' → h'.name ≠ h.name := by
    intro fd' h' hlive hname
    apply hnew.free
    exact (hinv.agree _).mpr ⟨fd', h', hlive, BpfMapHandler.getContainerName_inj.mpr hname⟩
  constructor
  . intro name
    rw [hm.names_eq hnew, List.mem_cons, hinv.agree name]
    simp only [hm.live_iff hfree]
    constructor
    . rintro (rfl | ⟨fd', h', hlive, hname⟩)
      . exact ⟨fd, h, .inl ⟨rfl, rfl⟩, rfl⟩
      . exact ⟨fd', h', .inr hlive, hname⟩
    . rintro ⟨fd', h', ⟨rfl, rfl⟩ | hlive, hname⟩
      . exact .inl hname.symm
      . exact .inr ⟨fd', h', hlive, hname⟩
  . intro fd₁ fd₂ h₁ h₂ hlive₁ hlive₂ hname
    rcases (hm.live_iff hfree).mp hlive₁ with ⟨rfl, rfl⟩ | hlive₁
    . rcases (hm.live_iff hfree).mp hlive₂ with ⟨rfl, rfl⟩ | hlive₂
      . rfl
      . exact absurd hname.symm (hother fd₂ h₂ hlive₂)
    . rcases (hm.live_iff hfree).mp hlive₂ with ⟨rfl, rfl⟩ | hlive₂
      . exact absurd hname (hother fd₁ h₁ hlive₁)
      . exact hinv.distinct fd₁ fd₂ h₁ h₂ hlive₁ hlive₂ hname
  . intro fd' handler hslot
    by_cases hfd : fd' = fd
    . exact .inr ⟨h, (hm.live_iff hfree).mpr (.inl ⟨hfd, rfl⟩)⟩
    . rw [hm.slot_other fd' hfd] at hslot
      simp only [hm.live_iff hfree, hfd, false_and, false_or]
      exact hinv.onlyMaps fd' handler hslot

theorem LifeInv.setMap (ops : MapOps α ε ρ) (hinv : LifeInv s)
    (hfree : s.shm.slot? fd = some .unused) (hname : ∀ fd' h', s.Live fd' h' → h'.name ≠ h.name)
    (hkind : h.initKind env = .construct) (haccepts : h.constructorAccepts env = true)
    : ∃ s', s.setMap env ops fd h = some (.ret fd none, s') ∧ LifeInv s' ∧ s'.Fresh ops fd h := by
  have hnew : Constructs env s h := by
    refine ⟨hkind, ?_, haccepts⟩
    intro hmem
    rcases (hinv.agree _).mp hmem with ⟨fd', h', hlive, heq⟩
    exact hname fd' h' hlive (BpfMapHandler.getContainerName_inj.mp heq)
  have hdefined : InitDefined env h := by
    intro hnon
    rw [hkind] at hnon
    simp at hnon
  rcases (setMap_defined hfree).mpr hdefined with ⟨⟨o, s'⟩, hset⟩
  have hm := setMap_made hfree hset
  rcases hm.outcome with ⟨-, -, hnot⟩ | ⟨rfl, -⟩
  . exact absurd hnew hnot
  . exact ⟨s', hset, hinv.made hfree hnew hm, ⟨_, hm.deref_of_constructs hnew⟩⟩

theorem Made.constructs_of_fresh (hm : Made env ops s fd h o s') (hfresh : s'.Fresh ops fd h)
    : Constructs env s h := by
  by_contra hnot
  rcases hfresh with ⟨id, hderef⟩
  rw [hm.deref_of_not_constructs hnot] at hderef
  simp at hderef

theorem LifeInv.clears (ops : MapOps α ε ρ) {handler : Handler} (hinv : LifeInv s)
    (hslot : s.shm.slot? fd = some handler) (hfrees : s.FreesAt env fd)
    : ∃ t, s.clearIdAt env ops fd = some t ∧ Cleared env ops s fd t ∧ LifeInv t := by
  have hdefined : s.FreeDefined env fd := fun h hlive => .inl (hfrees h hlive)
  rcases (clearIdAt_defined ops hslot).mpr hdefined with ⟨t, hclear⟩
  have hc := clearIdAt_cleared hslot hclear
  refine ⟨t, hclear, hc, ?_⟩
  rcases hinv.onlyMaps fd handler hslot with rfl | ⟨h, hlive⟩
  . rw [clearIdAt_of_unused hslot] at hclear
    cases hclear
    exact hinv
  . exact hinv.cleared hlive (hfrees h hlive) hc

def Makes (env : Env) (ops : MapOps α ε ρ) (s : ShmState α ε) (fd : Int32) (h : BpfMapHandler)
    (s' : ShmState α ε) : Prop :=
  s.replaceByMap env ops fd h = some (.ret fd none, s') ∧ s'.NamesAgree ∧ s'.Fresh ops fd h

theorem LifeInv.makes (ops : MapOps α ε ρ) {handler : Handler} (hinv : LifeInv s)
    (hname : ∀ fd' h', fd' ≠ fd → s.Live fd' h' → h'.name ≠ h.name)
    (hslot : s.shm.slot? fd = some handler) (hfrees : s.FreesAt env fd)
    (hkind : h.initKind env = .construct) (haccepts : h.constructorAccepts env = true)
    : ∃ s', s.Makes env ops fd h s' ∧ LifeInv s' := by
  rcases hinv.clears ops hslot hfrees with ⟨t, hclear, hc, htinv⟩
  have hnames : ∀ fd' h', t.Live fd' h' → h'.name ≠ h.name := by
    intro fd' h' hlive'
    rcases hc.live_iff.mp hlive' with ⟨hne, hlive'⟩
    exact hname fd' h' hne hlive'
  rcases htinv.setMap ops hc.slot_self hnames hkind haccepts with ⟨s', hset, hinv', hfresh⟩
  refine ⟨s', ⟨?_, hinv'.agree, hfresh⟩, hinv'⟩
  rw [replaceByMap_eq hslot, hclear]
  exact hset

theorem Made.freesContainer_of_agree {h₀ : BpfMapHandler} {t : ShmState α ε}
    (hinv : LifeInv s) (hlive : s.Live fd h₀) (hc : Cleared env ops s fd t)
    (hnew : Constructs env t h) (hm : Made env ops t fd h o s') (hagree : s'.NamesAgree)
    : h₀.freesContainer env = true := by
  by_contra hkeeps
  have hmem : h₀.getContainerName ∈ t.heap.names := by
    rw [hc.names_eq hlive, if_neg hkeeps]
    exact (hinv.agree _).mpr ⟨fd, h₀, hlive, rfl⟩
  have hmem' : h₀.getContainerName ∈ s'.heap.names := by
    rw [hm.names_eq hnew]
    exact List.mem_cons_of_mem _ hmem
  rcases (hagree _).mp hmem' with ⟨fd', h', hlive', hname⟩
  rcases (hm.live_iff hc.slot_self).mp hlive' with ⟨-, rfl⟩ | hlive'
  . apply hnew.free
    rw [hname]
    exact hmem
  . exact hinv.name_ne hlive hc hlive' hname

theorem LifeInv.of_makes (hinv : LifeInv s) (hmakes : s.Makes env ops fd h s')
    : (∃ handler, s.shm.slot? fd = some handler) ∧ s.FreesAt env fd ∧
        h.initKind env = .construct ∧ h.constructorAccepts env = true := by
  rcases hmakes with ⟨hrep, hagree, hfresh⟩
  cases hslot : s.shm.slot? fd with
  | none =>
    simp [replaceByMap, hslot] at hrep
  | some handler =>
    refine ⟨⟨handler, rfl⟩, ?_⟩
    rcases replaceByMap_steps hrep with ⟨t, hc, hm⟩
    have hnew := hm.constructs_of_fresh hfresh
    refine ⟨?_, hnew.kind, hnew.accepts⟩
    intro h₀ hlive
    exact hm.freesContainer_of_agree hinv hlive hc hnew hagree

theorem LifeInv.closes (ops : MapOps α ε ρ) (hinv : LifeInv s) (hfrees : s.FreesAt env fd)
    : ∃ s', s.clearIdAt env ops fd = some s' ∧ LifeInv s' := by
  cases hslot : s.shm.slot? fd with
  | none => exact ⟨s, clearIdAt_of_outside hslot, hinv⟩
  | some handler =>
    rcases hinv.clears ops hslot hfrees with ⟨t, hclear, -, htinv⟩
    exact ⟨t, hclear, htinv⟩

theorem LifeInv.of_closes (hinv : LifeInv s) (hclear : s.clearIdAt env ops fd = some s')
    (hagree : s'.NamesAgree)
    : s.FreesAt env fd := by
  intro h hlive
  have hc := clearIdAt_cleared hlive hclear
  by_contra hkeeps
  have hmem : h.getContainerName ∈ s'.heap.names := by
    rw [hc.names_eq hlive, if_neg hkeeps]
    exact (hinv.agree _).mpr ⟨fd, h, hlive, rfl⟩
  rcases (hagree _).mp hmem with ⟨fd', h', hlive', hname⟩
  exact hinv.name_ne hlive hc hlive' hname

theorem LifeInv.access {cmd : Cmd} {r : ρ} (hinv : LifeInv s)
    (haccess : s.access env ops fd cmd = some (r, s'))
    : LifeInv s' := by
  have hshm := shm_access haccess
  apply hinv.congr
  . exact congrArg BpftimeShm.segment hshm
  . rw [hshm]

theorem LifeInv.kept_iff {op : LifeOp} (hinv : LifeInv s) (hop : s.Admissible env op)
    : s.Kept env ops op ↔ s.Tidy env op := by
  cases op with
  | map op room =>
    cases op with
    | create fake fd name attr =>
      constructor
      . intro ⟨s', hmakes⟩
        exact hinv.of_makes hmakes
      . intro ⟨⟨handler, hslot⟩, hfrees, hkind, haccepts⟩
        rcases hinv.makes ops hop.2 hslot hfrees hkind haccepts with ⟨s', hmakes, -⟩
        exact ⟨s', hmakes⟩
    | close fd =>
      constructor
      . intro ⟨o, s', hcall, hagree⟩
        rcases Option.map_eq_some_iff.mp hcall with ⟨t, hclear, heq⟩
        cases heq
        exact hinv.of_closes hclear hagree
      . intro hfrees
        rcases hinv.closes ops hfrees with ⟨s', hclear, hinv'⟩
        refine ⟨.ret 0 none, s', ?_, hinv'.agree⟩
        unfold call
        dsimp only
        rw [hclear]
        rfl
  | access fd cmd =>
    constructor
    . intro _
      trivial
    . intro _ r s' haccess
      exact (hinv.access haccess).agree

theorem LifeInv.step {op : LifeOp} (hinv : LifeInv s) (hop : s.Admissible env op)
    (htidy : s.Tidy env op) (hstep : s.lifeStep env ops op = some s')
    : LifeInv s' := by
  cases op with
  | map op room =>
    rcases Option.map_eq_some_iff.mp hstep with ⟨⟨o, t⟩, hcall, rfl⟩
    cases op with
    | create fake fd name attr =>
      rcases htidy with ⟨⟨handler, hslot⟩, hfrees, hkind, haccepts⟩
      rcases hinv.makes ops hop.2 hslot hfrees hkind haccepts with ⟨s', hmakes, hinv'⟩
      have heq : some (o, t) = some (.ret _ none, s') := hcall.symm.trans hmakes.1
      cases heq
      exact hinv'
    | close fd =>
      rcases Option.map_eq_some_iff.mp hcall with ⟨u, hclear, heq⟩
      cases heq
      rcases hinv.closes ops htidy with ⟨s', hclear', hinv'⟩
      rw [hclear] at hclear'
      cases hclear'
      exact hinv'
  | access fd cmd =>
    rcases Option.map_eq_some_iff.mp hstep with ⟨⟨r, t⟩, haccess, rfl⟩
    exact hinv.access haccess

theorem kept_run_iff (env : Env) (ops : MapOps α ε ρ) (maxFdCount : Nat) (ext : Extern → ε)
    (history : List LifeOp)
    (hadmissible : Run.AlongDefined (lifeStep env ops) (Admissible env) (construct maxFdCount ext)
      history)
    : Run.AlongDefined (lifeStep env ops) (Kept env ops) (construct maxFdCount ext) history
        ↔
      Run.AlongDefined (lifeStep env ops) (Tidy env) (construct maxFdCount ext) history := by
  apply Run.alongDefined_iff_of_invariant_of LifeInv _ _ (lifeInv_construct maxFdCount ext)
    hadmissible
  . intro s op s' hinv hop htidy hstep
    exact hinv.step hop htidy hstep
  . intro s op hinv hop
    exact hinv.kept_iff hop

def recreate (attr : BpfMapAttr) : List LifeOp :=
  [.map (.create 9 0 [109] attr) true, .map (.close 0) true,
    .map (.create 9 0 [109] attr) true]

def RecreateStates (env : Env) (ops : MapOps α ε ρ) (s : ShmState α ε) (attr : BpfMapAttr)
    (s₁ s₂ : ShmState α ε) : Prop :=
  s.lifeStep env ops (.map (.create 9 0 [109] attr) true) = some s₁ ∧
    s₁.lifeStep env ops (.map (.close 0) true) = some s₂ ∧ s₁.Live 0 ⟨[109], attr⟩ ∧
    s₂.handlers = List.replicate 4 .unused

theorem exists_recreateStates {attr : BpfMapAttr}
    (heval : (((s.lifeStep env ops (.map (.create 9 0 [109] attr) true)).bind fun s₁ =>
      (s₁.lifeStep env ops (.map (.close 0) true)).map fun s₂ => (s₁.handlers, s₂.handlers)))
        = some (.map ⟨[109], attr⟩ :: List.replicate 3 .unused, List.replicate 4 .unused))
    : ∃ s₁ s₂, RecreateStates env ops s attr s₁ s₂ := by
  rcases Option.bind_eq_some_iff.mp heval with ⟨s₁, hs₁, heval⟩
  rcases Option.map_eq_some_iff.mp heval with ⟨s₂, hs₂, heval⟩
  simp only [Prod.mk.injEq] at heval
  refine ⟨s₁, s₂, hs₁, hs₂, ?_, heval.2⟩
  unfold Live BpftimeShm.slot? shm
  dsimp only
  rw [heval.1]
  rfl

theorem admissible_recreate {attr : BpfMapAttr}
    {s₁ s₂ : ShmState ((p : HashMap.Params) × HashMap.FixSizeHashMapImpl p) Unit}
    (hstates : RecreateStates BpftimeShm.plainEnv hashOps startState attr s₁ s₂)
    (hkind : BpfMapHandler.initKind BpftimeShm.plainEnv ⟨[109], attr⟩ ≠ .nonBuiltin)
    : Run.AlongDefined (lifeStep BpftimeShm.plainEnv hashOps) (Admissible BpftimeShm.plainEnv)
        startState (recreate attr) := by
  rcases hstates with ⟨hs₁, hs₂, -, hunused⟩
  refine ⟨⟨hkind, fun _ _ _ h => absurd h (not_live_of_replicate (n := 4) rfl)⟩, ?_⟩
  intro t ht
  rw [hs₁] at ht
  cases ht
  refine ⟨trivial, ?_⟩
  intro t ht
  rw [hs₂] at ht
  cases ht
  exact ⟨⟨hkind, fun _ _ _ h => absurd h (not_live_of_replicate hunused)⟩, fun _ _ => trivial⟩

theorem kept_recreate_hash
    : Run.AlongDefined (lifeStep BpftimeShm.plainEnv hashOps) (Kept BpftimeShm.plainEnv hashOps)
        startState (recreate hashAttr) := by
  have hstates : ∃ s₁ s₂, RecreateStates BpftimeShm.plainEnv hashOps startState hashAttr s₁ s₂ :=
    exists_recreateStates (by decide +kernel)
  rcases hstates with ⟨s₁, s₂, hstates⟩
  apply (kept_run_iff BpftimeShm.plainEnv hashOps 4 (fun _ => ()) (recreate hashAttr)
    (admissible_recreate hstates (by decide))).mpr
  rcases hstates with ⟨hs₁, hs₂, hlive, hunused⟩
  refine ⟨⟨⟨.unused, rfl⟩, ?_, rfl, rfl⟩, ?_⟩
  . intro h hl
    exact absurd hl (not_live_of_replicate (n := 4) rfl)
  intro t ht
  have heq : t = s₁ := Option.some.inj (ht.symm.trans hs₁)
  subst heq
  constructor
  . intro h hl
    rw [hlive.inj hl]
    rfl
  intro t ht
  rw [hs₂] at ht
  cases ht
  refine ⟨⟨?_, ?_, rfl, rfl⟩, fun _ _ => trivial⟩
  . refine ⟨.unused, ?_⟩
    unfold BpftimeShm.slot? shm
    dsimp only
    rw [hunused]
    rfl
  . intro h hl
    exact absurd hl (not_live_of_replicate hunused)

def arrayOfMapsAttr : BpfMapAttr := { type := 12, keySize := 4, valueSize := 4, maxEnts := 2 }

theorem not_kept_recreate_arrayOfMaps
    : Run.AlongDefined (lifeStep BpftimeShm.plainEnv hashOps) (Admissible BpftimeShm.plainEnv)
          startState (recreate arrayOfMapsAttr) ∧
        ¬ Run.AlongDefined (lifeStep BpftimeShm.plainEnv hashOps)
          (Kept BpftimeShm.plainEnv hashOps) startState (recreate arrayOfMapsAttr) := by
  have hstates : ∃ s₁ s₂,
      RecreateStates BpftimeShm.plainEnv hashOps startState arrayOfMapsAttr s₁ s₂ :=
    exists_recreateStates (by decide +kernel)
  rcases hstates with ⟨s₁, s₂, hstates⟩
  have hadmissible := admissible_recreate hstates (by decide)
  refine ⟨hadmissible, ?_⟩
  intro hkept
  rcases hstates with ⟨hs₁, hs₂, hlive, -⟩
  have hstart : LifeInv startState := lifeInv_construct 4 _
  have hinv : LifeInv s₁ := hstart.step hadmissible.1 ((hstart.kept_iff hadmissible.1).mp hkept.1) hs₁
  rcases (hkept.2 s₁ hs₁).1 with ⟨o, t, hcall, hagree⟩
  rcases Option.map_eq_some_iff.mp hcall with ⟨u, hclear, heq⟩
  cases heq
  have hfrees := hinv.of_closes hclear hagree _ hlive
  exact absurd hfrees (by decide)

end ShmState

end Bpftime.Shm
