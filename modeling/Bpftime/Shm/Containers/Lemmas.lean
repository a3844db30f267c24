import Bpftime.Shm.Containers.Impl
import Bpftime.Shm.Lemmas

namespace Bpftime.Shm

namespace BpfMapHandler

theorem target_ne_registered {env : Env} {h : BpfMapHandler} (hinit : h.initKind env = .construct)
    : h.target env ≠ .registered := by
  unfold initKind at hinit
  unfold target
  cases htype : h.type with
  | kernelUserHash | kernelUserArray | kernelUserPerfEventArray | kernelUserPercpuArray
  | progArray | stackTrace =>
    rw [htype] at hinit
    cases hlib : env.libbpf <;> cases hmap : env.mmapable h.attr.kernelBpfMapId <;> simp_all
  | pergputdArrayMap | gpuArrayMap | gpuRingbufMap =>
    rw [htype] at hinit
    cases hcuda : env.cuda <;> simp_all
  | other =>
    rw [htype] at hinit
    simp at hinit
  | _ => simp

end BpfMapHandler

namespace BpftimeShm

variable {env : Env} {s s' : BpftimeShm} {fd fd' : Int32} {h' : BpfMapHandler}

theorem unlinked_eq_map {p : BpfLinkHandler → Bool} {handler : Handler}
    : unlinked p handler = .map h' ↔ handler = .map h' := by
  cases handler with
  | link h =>
    simp only [unlinked, reduceCtorEq, iff_false]
    split <;> simp
  | _ => simp [unlinked]

theorem clearIdAt_spec {handler : Handler} (hslot : s.slot? fd = some handler)
    (h : s.clearIdAt env fd = some s')
    : s'.slot? fd = some .unused
        ∧ (∀ fd' h', fd' ≠ fd → (s'.slot? fd' = some (.map h') ↔ s.slot? fd' = some (.map h')))
        ∧ (∀ hm, handler = .map hm → hm.mapFree env s.segment = some s'.segment)
        ∧ (handler.kind ≠ .map → s'.segment = s.segment) := by
  refine ⟨?_, ?_, ?_⟩
  . rw [slot?_clearIdAt hslot h, if_pos rfl]
  . intro fd' h' hne
    rw [slot?_clearIdAt hslot h, if_neg hne]
    cases s.slot? fd' with
    | none => simp
    | some handler' => simp [unlinked_eq_map]
  . unfold clearIdAt at h
    rw [hslot] at h
    rcases Option.map_eq_some_iff.mp h with ⟨t, hrelease, rfl⟩
    exact (release_spec hrelease).2

theorem clearIdAt_defined (env : Env) {handler : Handler} (hslot : s.slot? fd = some handler)
    : (∃ s', s.clearIdAt env fd = some s')
        ↔
      ∀ hm, handler = .map hm → hm.freesContainer env = true ∨ hm.hasOps = true := by
  unfold clearIdAt
  rw [hslot]
  cases handler with
  | map hm =>
    simp only [release, BpfMapHandler.mapFree, Handler.map.injEq,
      forall_eq']
    cases hm.freesContainer env <;> cases hm.hasOps <;> simp
  | _ => simp [release]

structure MapsKept (s s' : BpftimeShm) : Prop where
  segment_eq : s'.segment = s.segment
  slot_iff : ∀ fd' h', s'.slot? fd' = some (.map h') ↔ s.slot? fd' = some (.map h')

theorem MapsKept.refl (s : BpftimeShm) : MapsKept s s := ⟨rfl, fun _ _ => Iff.rfl⟩

theorem mapsKept_setSlot {old new : Handler} (hslot : s.slot? fd = some old)
    (hold : old.kind ≠ .map) (hnew : new.kind ≠ .map)
    : MapsKept s (s.setSlot fd new) := by
  refine ⟨rfl, ?_⟩
  intro fd' h'
  rw [slot?_setSlot hslot]
  split
  . next heq =>
    rw [heq, hslot]
    apply iff_of_false
    . intro hmap
      cases hmap
      exact hnew rfl
    . intro hmap
      cases hmap
      exact hold rfl
  . rfl

theorem mapsKept_setHandler {handler : Handler} {o : Outcome} (hkind : handler.kind ≠ .map)
    (h : s.setHandler env fd handler = some (o, s'))
    : MapsKept s s' := by
  rcases setHandler_cases h with rfl | ⟨hfree, hused, -⟩
  . exact .refl s'
  . rw [setHandler_of_free hfree hused hkind] at h
    cases h
    exact mapsKept_setSlot hfree (by simp [Handler.kind]) hkind

theorem mapsKept_setEnabled (enabled : Bool) : MapsKept s (s.setEnabled fd enabled) := by
  unfold setEnabled
  split
  . next hslot => exact mapsKept_setSlot hslot (by simp [Handler.kind]) (by simp [Handler.kind])
  . exact .refl s

theorem mapsKept_call {op : Op} {o : Outcome} (hop : ¬ op.OnMaps) (h : s.call env op = some (o, s'))
    : MapsKept s s' := by
  cases call_effect h with
  | same => exact .refl s
  | put _ hkind hset => exact mapsKept_setHandler hkind hset
  | attach _ _ hset | link _ hset => exact mapsKept_setHandler (by simp [Handler.kind]) hset
  | enable => apply mapsKept_setEnabled
  | clear hmaps | replace hmaps => exact absurd hmaps hop

end BpftimeShm

namespace ShmState

variable {α ε ρ : Type} {env : Env} {ops : MapOps α ε ρ} {s s' : ShmState α ε} {fd : Int32}

def freedName (env : Env) (s : ShmState α ε) (fd : Int32) : Option CString :=
  match s.shm.slot? fd with
  | some (.map h) => if h.freesContainer env then some h.getContainerName else none
  | _ => none

def extFreed (env : Env) (ops : MapOps α ε ρ) (s : ShmState α ε) (fd : Int32) : Extern → ε :=
  match s.shm.slot? fd with
  | some (.map h) => (s.mapFree env ops h).ext
  | _ => s.ext

def FreeDefined (env : Env) (s : ShmState α ε) (fd : Int32) : Prop :=
  ∀ h, s.shm.slot? fd = some (.map h) → h.freesContainer env = true ∨ h.hasOps = true

structure Cleared (env : Env) (ops : MapOps α ε ρ) (s : ShmState α ε) (fd : Int32)
    (s' : ShmState α ε) : Prop where
  shm_eq : s.shm.clearIdAt env fd = some s'.shm
  slot_self : s'.shm.slot? fd = some .unused
  slot_other : ∀ fd' h', fd' ≠ fd →
    (s'.shm.slot? fd' = some (.map h') ↔ s.shm.slot? fd' = some (.map h'))
  deref_other : ∀ fd', fd' ≠ fd →
    s'.deref fd' = (s.deref fd').filter (fun o => s.freedName env fd ≠ some o.name)
  ptr_of_some : ∀ fd' id, s'.mapImplPtr fd' = some id → s.mapImplPtr fd' = some id
  nextId_eq : s'.heap.nextId = s.heap.nextId
  ext_eq : s'.ext = s.extFreed env ops fd

theorem clearIdAt_defined (ops : MapOps α ε ρ) {handler : Handler}
    (hslot : s.shm.slot? fd = some handler)
    : (∃ s', s.clearIdAt env ops fd = some s') ↔ s.FreeDefined env fd := by
  have hshm := BpftimeShm.clearIdAt_defined env hslot
  unfold FreeDefined clearIdAt
  rw [hslot]
  simp only [Option.some.injEq]
  rw [← hshm]
  cases s.shm.clearIdAt env fd with
  | none => simp
  | some shm => cases handler <;> simp

variable {h : BpfMapHandler} {o : Outcome}

theorem freedName_of_map (hslot : s.shm.slot? fd = some (.map h))
    : s.freedName env fd = if h.freesContainer env then some h.getContainerName else none := by
  unfold freedName
  rw [hslot]

theorem freedName_of_not_map (hslot : ∀ h, s.shm.slot? fd ≠ some (.map h))
    : s.freedName env fd = none := by
  unfold freedName
  split
  . next h heq => exact absurd heq (hslot h)
  . rfl

theorem extFreed_of_map (hslot : s.shm.slot? fd = some (.map h))
    : s.extFreed env ops fd = (s.mapFree env ops h).ext := by
  unfold extFreed
  rw [hslot]

theorem extFreed_of_not_map (hslot : ∀ h, s.shm.slot? fd ≠ some (.map h))
    : s.extFreed env ops fd = s.ext := by
  unfold extFreed
  split
  . next h heq => exact absurd heq (hslot h)
  . rfl

theorem clearIdAt_of_map (hslot : s.shm.slot? fd = some (.map h)) : s.clearIdAt env ops fd
        =
      (s.shm.clearIdAt env fd).map fun shm =>
        { s.mapFree env ops h with
          handlers := shm.handlers
          mapImplPtr := Function.update s.mapImplPtr fd none } := by
  unfold clearIdAt
  rw [hslot]
  cases s.shm.clearIdAt env fd <;> rfl

theorem clearIdAt_of_not_map {handler : Handler} (hslot : s.shm.slot? fd = some handler)
    (hkind : handler.kind ≠ .map)
    : s.clearIdAt env ops fd
        =
      (s.shm.clearIdAt env fd).map fun shm => { s with handlers := shm.handlers } := by
  unfold clearIdAt
  rw [hslot]
  cases s.shm.clearIdAt env fd with
  | none => rfl
  | some shm =>
    cases handler with
    | map => simp [Handler.kind] at hkind
    | _ => rfl

theorem get?_mapFree (h : BpfMapHandler) (id : Nat) : (s.mapFree env ops h).heap.get? id
        =
      (s.heap.get? id).filter (fun o =>
        (if h.freesContainer env then some h.getContainerName else none) ≠ some o.name) := by
  unfold mapFree
  cases h.freesContainer env with
  | false =>
    simp only [Bool.false_eq_true, ↓reduceIte]
    cases s.heap.get? id <;> rfl
  | true =>
    simp only [↓reduceIte, NamedHeap.get?_destroy]
    congr 1
    funext o
    simp [eq_comm]

theorem names_mapFree {memory : Memory} (hfree : h.mapFree env s.heap.names = some memory)
    : (s.mapFree env ops h).heap.names = memory := by
  unfold BpfMapHandler.mapFree at hfree
  unfold mapFree
  cases hfrees : h.freesContainer env with
  | false =>
    simp only [hfrees, Bool.false_eq_true, ↓reduceIte, Option.ite_none_right_eq_some, Option.some.injEq] at hfree ⊢
    exact hfree.2
  | true =>
    simp only [hfrees, ↓reduceIte, Option.some.injEq] at hfree ⊢
    rw [NamedHeap.names_destroy]
    exact hfree

theorem clearIdAt_cleared {handler : Handler} (hslot : s.shm.slot? fd = some handler)
    (h : s.clearIdAt env ops fd = some s')
    : Cleared env ops s fd s' := by
  cases handler with
  | map hm =>
    rw [clearIdAt_of_map hslot] at h
    rcases Option.map_eq_some_iff.mp h with ⟨shm, hshm, rfl⟩
    rcases BpftimeShm.clearIdAt_spec hslot hshm with ⟨hself, hother, hfree, -⟩
    have hnames : shm = ⟨shm.handlers, (s.mapFree env ops hm).heap.names⟩ := by
      rw [names_mapFree (hfree hm rfl)]
    refine ⟨hnames ▸ hshm, hnames ▸ hself, hnames ▸ hother, ?_, ?_, ?_, ?_⟩
    . intro fd' hne
      unfold deref
      dsimp only
      rw [Function.update_of_ne hne, freedName_of_map hslot]
      cases s.mapImplPtr fd' with
      | none => rfl
      | some id => exact get?_mapFree hm id
    . intro fd' id hptr
      dsimp only at hptr
      by_cases hfd : fd' = fd
      . rw [hfd, Function.update_self] at hptr
        simp at hptr
      . rw [Function.update_of_ne hfd] at hptr
        exact hptr
    . unfold mapFree
      split <;> rfl
    . exact (extFreed_of_map hslot).symm
  | _ =>
    have hnot : ∀ h, s.shm.slot? fd ≠ some (.map h) := by simp [hslot]
    rw [clearIdAt_of_not_map hslot (by simp [Handler.kind])] at h
    rcases Option.map_eq_some_iff.mp h with ⟨shm, hshm, rfl⟩
    rcases BpftimeShm.clearIdAt_spec hslot hshm with ⟨hself, hother, -, hkeep⟩
    have hnames : shm = ⟨shm.handlers, s.heap.names⟩ := by
      rw [← show s.shm.segment = s.heap.names from rfl, ← hkeep (by simp [Handler.kind])]
    refine ⟨hnames ▸ hshm, hnames ▸ hself, hnames ▸ hother, ?_, fun _ _ hptr => hptr, rfl, ?_⟩
    . intro fd' _
      rw [freedName_of_not_map hnot]
      change s.deref fd' = _
      cases s.deref fd' <;> rfl
    . exact (extFreed_of_not_map hnot).symm

structure Constructs (env : Env) (s : ShmState α ε) (h : BpfMapHandler) : Prop where
  kind : h.initKind env = .construct
  free : h.getContainerName ∉ s.heap.names
  accepts : h.constructorAccepts env = true

def InitDefined (env : Env) (h : BpfMapHandler) : Prop :=
  h.initKind env = .nonBuiltin → env.allowNonBuildinMapTypes = true → h.hasOps = true

def extInit (env : Env) (ops : MapOps α ε ρ) (ext : Extern → ε) (h : BpfMapHandler) : Extern → ε :=
  if h.initKind env = .nonBuiltin ∧ env.allowNonBuildinMapTypes = true then
    Function.update ext (.registered h.attr.type)
      (ops.allocMap h.attr.type h.name h.attr (ext (.registered h.attr.type)))
  else
    ext

theorem mapInit_of_constructs (hkind : h.initKind env = .construct)
    (hfree : h.getContainerName ∉ s.heap.names) (haccepts : h.constructorAccepts env = true)
    : s.mapInit env ops fd h
        =
      { s with
        heap := s.heap.construct h.getContainerName (ops.construct h.attr) hfree
        mapImplPtr := Function.update s.mapImplPtr fd (some s.heap.nextId) } := by
  unfold mapInit
  simp only [hkind]
  rw [dif_neg hfree, if_pos haccepts]

theorem mapInit_of_not_constructs (hnot : ¬ Constructs env s h) : s.mapInit env ops fd h
        =
      { s with
        mapImplPtr := Function.update s.mapImplPtr fd none
        ext := extInit env ops s.ext h } := by
  unfold mapInit extInit
  cases hkind : h.initKind env with
  | construct =>
    simp only [reduceCtorEq, false_and, ↓reduceIte]
    split
    . rfl
    . next hfree =>
      rw [if_neg]
      intro haccepts
      exact hnot ⟨hkind, hfree, haccepts⟩
  | refuse => simp
  | nonBuiltin =>
    simp only [true_and]
    split <;> rfl

theorem extInit_of_construct (hkind : h.initKind env = .construct) (ext : Extern → ε)
    : extInit env ops ext h = ext := by
  unfold extInit
  rw [hkind]
  simp

theorem mapInit_eq_none_iff (env : Env) (h : BpfMapHandler) (memory : Memory)
    : h.mapInit env memory = none ↔ ¬ InitDefined env h := by
  unfold BpfMapHandler.mapInit
  unfold InitDefined
  cases h.initKind env with
  | construct => simp
  | refuse => simp
  | nonBuiltin =>
    simp only [BpfMapHandler.initNonBuiltin]
    cases env.allowNonBuildinMapTypes <;> cases h.hasOps <;> simp

theorem names_mapInit (ops : MapOps α ε ρ) (fd : Int32)
    {memory : Memory} (hinit : h.mapInit env s.heap.names = some (o, memory))
    : (s.mapInit env ops fd h).heap.names = memory
        ∧ (o = .thrown ↔ h.initKind env = .construct ∧ ¬ Constructs env s h) := by
  unfold BpfMapHandler.mapInit at hinit
  by_cases hnew : Constructs env s h
  . rw [mapInit_of_constructs hnew.kind hnew.free hnew.accepts]
    simp only [hnew.kind, BpfMapHandler.construct] at hinit
    rw [if_neg hnew.free, if_pos hnew.accepts] at hinit
    cases hinit
    simp [NamedHeap.names_construct, hnew]
  . rw [mapInit_of_not_constructs hnew]
    cases hkind : h.initKind env with
    | construct =>
      simp only [hkind, BpfMapHandler.construct] at hinit
      split at hinit
      . cases hinit
        simp [hnew]
      . next hfree =>
        rw [if_neg (fun haccepts => hnew ⟨hkind, hfree, haccepts⟩)] at hinit
        cases hinit
        simp [hnew]
    | refuse =>
      simp only [hkind] at hinit
      cases hinit
      simp
    | nonBuiltin =>
      simp only [hkind, BpfMapHandler.initNonBuiltin] at hinit
      split at hinit
      . split at hinit
        . cases hinit
          simp
        . simp at hinit
      . cases hinit
        simp

structure Made (env : Env) (ops : MapOps α ε ρ) (s : ShmState α ε) (fd : Int32) (h : BpfMapHandler)
    (o : Outcome) (s' : ShmState α ε) : Prop where
  shm_eq : s.shm.setHandler env fd (.map h) = some (o, s'.shm)
  slot_self : s'.shm.slot? fd = some (.map h)
  slot_other : ∀ fd', fd' ≠ fd → s'.shm.slot? fd' = s.shm.slot? fd'
  heap_eq : s'.heap = (s.mapInit env ops fd h).heap
  ptr_eq : s'.mapImplPtr = (s.mapInit env ops fd h).mapImplPtr
  ext_eq : s'.ext = extInit env ops s.ext h
  outcome : (o = .thrown ∧ h.initKind env = .construct ∧ ¬ Constructs env s h)
    ∨ (o = .ret fd none ∧ (h.initKind env = .construct → Constructs env s h))

theorem ext_mapInit : (s.mapInit env ops fd h).ext = extInit env ops s.ext h := by
  by_cases hnew : Constructs env s h
  . rw [mapInit_of_constructs hnew.kind hnew.free hnew.accepts, extInit_of_construct hnew.kind]
  . rw [mapInit_of_not_constructs hnew]

theorem setMap_of_free (hslot : s.shm.slot? fd = some .unused) : s.setMap env ops fd h
        =
      (s.shm.setHandler env fd (.map h)).map fun r =>
        (r.1, { s.mapInit env ops fd h with handlers := r.2.handlers }) := by
  have hfree : s.shm.isAllocated fd = false := by
    simp [BpftimeShm.isAllocated, hslot, Handler.kind]
  unfold setMap
  rw [hfree]
  cases s.shm.setHandler env fd (.map h) <;> rfl

theorem setMap_made (hslot : s.shm.slot? fd = some .unused)
    (hset : s.setMap env ops fd h = some (o, s'))
    : Made env ops s fd h o s' := by
  rw [setMap_of_free hslot] at hset
  rcases Option.map_eq_some_iff.mp hset with ⟨⟨o', shm⟩, hshm, heq⟩
  cases heq
  have hself (fd' : Int32) : (s.shm.setSlot fd (.map h)).slot? fd'
      = if fd' = fd then some (.map h) else s.shm.slot? fd' :=
    BpftimeShm.slot?_setSlot hslot fd'
  -- the segment of the table is the one of the heap, in each of the ways `map_init` ends
  obtain ⟨hshm', houtcome⟩ : shm = ⟨(s.shm.setSlot fd (.map h)).handlers,
        (s.mapInit env ops fd h).heap.names⟩
      ∧ ((o' = .thrown ∧ h.initKind env = .construct ∧ ¬ Constructs env s h)
        ∨ (o' = .ret fd none ∧ (h.initKind env = .construct → Constructs env s h))) := by
    have hset' := hshm
    rw [BpftimeShm.setHandler_map_of_free hslot] at hset'
    rcases Option.map_eq_some_iff.mp hset' with ⟨⟨r, memory⟩, hinit, heq⟩
    cases heq
    rcases names_mapInit ops fd hinit with ⟨hnames, hthrown⟩
    rw [hnames]
    refine ⟨rfl, ?_⟩
    cases r with
    | thrown => exact .inl ⟨rfl, hthrown.mp rfl⟩
    | ret r errno =>
      refine .inr ⟨rfl, ?_⟩
      intro hkind
      by_contra hnot
      exact absurd (hthrown.mpr ⟨hkind, hnot⟩) (by simp)
  subst hshm'
  refine ⟨hshm, ?_, ?_, rfl, rfl, ext_mapInit, houtcome⟩
  . have := hself fd
    rw [if_pos rfl] at this
    exact this
  . intro fd' hne
    have := hself fd'
    rw [if_neg hne] at this
    exact this

theorem clearIdAt_of_outside (hslot : s.shm.slot? fd = none) : s.clearIdAt env ops fd = some s := by
  unfold clearIdAt
  rw [BpftimeShm.clearIdAt_of_outside hslot, hslot]
  rfl

theorem clearIdAt_of_unused (hslot : s.shm.slot? fd = some .unused)
    : s.clearIdAt env ops fd = some s := by
  unfold clearIdAt
  rw [BpftimeShm.clearIdAt_of_unused hslot, hslot]
  rfl

theorem replaceByMap_eq {handler : Handler} (hslot : s.shm.slot? fd = some handler)
    : s.replaceByMap env ops fd h
        =
      (s.clearIdAt env ops fd).bind fun s => s.setMap env ops fd h := by
  unfold replaceByMap
  rw [hslot]
  cases handler with
  | unused =>
    rw [clearIdAt_of_unused hslot]
    rfl
  | _ => rfl

theorem replaceByMap_steps (hrep : s.replaceByMap env ops fd h = some (o, s'))
    : ∃ t, Cleared env ops s fd t ∧ Made env ops t fd h o s' := by
  cases hslot : s.shm.slot? fd with
  | none => simp [replaceByMap, hslot] at hrep
  | some handler =>
    rw [replaceByMap_eq hslot] at hrep
    rcases Option.bind_eq_some_iff.mp hrep with ⟨t, hclear, hset⟩
    have hc := clearIdAt_cleared hslot hclear
    exact ⟨t, hc, setMap_made hc.slot_self hset⟩

theorem setMap_defined (hslot : s.shm.slot? fd = some .unused)
    : (∃ r, s.setMap env ops fd h = some r) ↔ InitDefined env h := by
  rw [setMap_of_free hslot, BpftimeShm.setHandler_map_of_free hslot]
  have hnone := mapInit_eq_none_iff env h s.shm.segment
  cases hinit : h.mapInit env s.shm.segment with
  | none =>
    simp only [hinit, true_iff] at hnone
    simp [hnone]
  | some r =>
    simp only [hinit, reduceCtorEq, false_iff, not_not] at hnone
    simp [hnone]

theorem Made.deref_of_constructs (hm : Made env ops s fd h o s') (hnew : Constructs env s h)
    : s'.deref fd = some ⟨s.heap.nextId, h.getContainerName, ops.construct h.attr⟩ := by
  unfold deref
  rw [hm.ptr_eq, hm.heap_eq, mapInit_of_constructs hnew.kind hnew.free hnew.accepts]
  simp [NamedHeap.get?_construct]

theorem Made.deref_of_not_constructs (hm : Made env ops s fd h o s') (hnot : ¬ Constructs env s h)
    : s'.deref fd = none := by
  unfold deref
  rw [hm.ptr_eq, mapInit_of_not_constructs hnot]
  simp

end ShmState

end Bpftime.Shm
