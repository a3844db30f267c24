import Bpftime.Shm.Containers.Isolation

/-!
This module contains when a duplicated descriptor shares the map of the old one.
-/

namespace Bpftime.Shm

namespace ShmState

variable {α ε ρ : Type} {env : Env} {ops : MapOps α ε ρ} {s s' t : ShmState α ε}
variable {fd old new : Int32} {h h' : BpfMapHandler}

def useBoth (env : Env) (ops : MapOps α ε ρ) (old new : Int32) (s : ShmState α ε)
    (cs : List (Bool × Cmd)) : Option (ShmState α ε) :=
  cs.foldlM (fun s c => (s.access env ops (if c.1 then old else new) c.2).map Prod.snd) s

def lookupAt (env : Env) (ops : MapOps α ε ρ) (s : ShmState α ε) (fd : Int32) (key : List UInt8)
    (fromSyscall : Bool) : Option ρ :=
  (s.access env ops fd (.lookup key fromSyscall)).map Prod.fst

/-- Both descriptors see the same map, whatever is done through either. -/
def Agree (env : Env) (ops : MapOps α ε ρ) (s : ShmState α ε) (old new : Int32) : Prop :=
  ∀ cs, ∃ t, useBoth env ops old new s cs = some t
    ∧ ∀ key fromSyscall, ∃ r, t.lookupAt env ops old key fromSyscall = some r
      ∧ t.lookupAt env ops new key fromSyscall = some r

def execAll (ops : MapOps α ε ρ) (attr : BpfMapAttr) (cs : List Cmd) (contents : α) : α :=
  cs.foldl (fun a cmd => (ops.exec attr cmd a).2) contents

def found (ops : MapOps α ε ρ) (attr : BpfMapAttr) (contents : α) (key : List UInt8)
    (fromSyscall : Bool) : ρ :=
  (ops.exec attr (.lookup key fromSyscall) contents).1

structure Inert (ops : MapOps α ε ρ) (attr : BpfMapAttr) (contents : α) : Prop where
  self : ∀ cs key fromSyscall, found ops attr (execAll ops attr cs contents) key fromSyscall
    = found ops attr (ops.construct attr) key fromSyscall
  fresh : ∀ cs key fromSyscall,
    found ops attr (execAll ops attr cs (ops.construct attr)) key fromSyscall
      = found ops attr (ops.construct attr) key fromSyscall

def Survives (env : Env) (s : ShmState α ε) (old new : Int32)
    (o : NamedHeap.Object CString α) : Prop :=
  s.deref old = some o ∧ s.freedName env new ≠ some o.name

/-- They use one store, or a container that no call changes. -/
def Shared (env : Env) (ops : MapOps α ε ρ) (s : ShmState α ε) (old new : Int32)
    (h : BpfMapHandler) : Prop :=
  match h.target env with
  | .registered => h.hasOps = true
  | .kernel => ∃ o, Survives env s old new o
  | .container => ∃ o, Survives env s old new o ∧ Inert ops h.attr o.contents

section outside

def place (env : Env) (h : BpfMapHandler) : Extern :=
  match h.target env with
  | .kernel => .kernel h.attr.kernelBpfMapId
  | _ => .registered h.attr.type

def Reaches (env : Env) (s : ShmState α ε) (fd : Int32) (h : BpfMapHandler) : Prop :=
  s.shm.slot? fd = some (.map h)
    ∧ match h.target env with
      | .registered => h.hasOps = true
      | _ => ∃ o, s.deref fd = some o

theorem Reaches.access (hreach : Reaches env s fd h) (htarget : h.target env ≠ .container)
    (ops : MapOps α ε ρ) (cmd : Cmd)
    : s.access env ops fd cmd
        =
      some ((ops.outside (place env h) cmd (s.ext (place env h))).1,
        { s with
          ext := Function.update s.ext (place env h)
            (ops.outside (place env h) cmd (s.ext (place env h))).2 }) := by
  rcases hreach with ⟨hslot, hreach⟩
  unfold ShmState.access place
  rw [hslot]
  cases ht : h.target env with
  | container => exact absurd ht htarget
  | kernel =>
    rw [ht] at hreach
    rcases hreach with ⟨o, ho⟩
    simp only [ht, ho]
  | registered =>
    rw [ht] at hreach
    simp only [ht, hreach, ↓reduceIte]

theorem Reaches.ext (hreach : Reaches env s fd h) (ext : Extern → ε)
    : Reaches env { s with ext } fd h := hreach

theorem agree_of_place (hold : Reaches env s old h) (hnew : Reaches env s new h')
    (htarget : h.target env ≠ .container) (htarget' : h'.target env ≠ .container)
    (hplace : place env h' = place env h)
    : Agree env ops s old new := by
  intro cs
  induction cs generalizing s with
  | nil =>
    refine ⟨s, rfl, ?_⟩
    intro key fromSyscall
    unfold lookupAt
    rw [hold.access htarget, hnew.access htarget', hplace]
    exact ⟨_, rfl, rfl⟩
  | cons c cs ih =>
    rcases c with ⟨isOld, cmd⟩
    have huse (ext : Extern → ε)
        (haccess : (s.access env ops (if isOld then old else new) cmd).map Prod.snd
          = some { s with ext })
        : ∃ t, useBoth env ops old new s ((isOld, cmd) :: cs) = some t
          ∧ ∀ key fromSyscall, ∃ r, t.lookupAt env ops old key fromSyscall = some r
            ∧ t.lookupAt env ops new key fromSyscall = some r := by
      rcases ih (hold.ext ext) (hnew.ext ext) with ⟨t, ht, hlookup⟩
      refine ⟨t, ?_, hlookup⟩
      unfold useBoth
      rw [List.foldlM_cons, haccess]
      exact ht
    cases isOld with
    | true =>
      apply huse
      simp only [↓reduceIte, hold.access htarget]
      rfl
    | false =>
      apply huse
      simp only [Bool.false_eq_true, ↓reduceIte, hnew.access htarget']
      rfl

end outside

section container

theorem access_container {o : NamedHeap.Object CString α} (hslot : s.shm.slot? fd = some (.map h))
    (htarget : h.target env = .container) (hderef : s.deref fd = some o) (cmd : Cmd)
    : s.access env ops fd cmd
        =
      some ((ops.exec h.attr cmd o.contents).1,
        { s with heap := s.heap.put o.id (ops.exec h.attr cmd o.contents).2 }) := by
  unfold access
  rw [hslot]
  simp only [htarget, hderef]

structure Apart (env : Env) (s : ShmState α ε) (old new : Int32) (h h' : BpfMapHandler) (a b : α)
    : Prop where
  slot_old : s.shm.slot? old = some (.map h)
  slot_new : s.shm.slot? new = some (.map h')
  target_old : h.target env = .container
  target_new : h'.target env = .container
  containers : ∃ o o', s.deref old = some o ∧ s.deref new = some o' ∧ o.contents = a
    ∧ o'.contents = b ∧ o.id ≠ o'.id

variable {a b : α}

theorem Apart.symm (hp : Apart env s old new h h' a b) : Apart env s new old h' h b a := by
  rcases hp.containers with ⟨o, o', ho, ho', ha, hb, hne⟩
  exact ⟨hp.slot_new, hp.slot_old, hp.target_new, hp.target_old,
    ⟨o', o, ho', ho, hb, ha, hne.symm⟩⟩

theorem Apart.access (hp : Apart env s old new h h' a b) (ops : MapOps α ε ρ) (cmd : Cmd)
    : ∃ t, s.access env ops old cmd = some ((ops.exec h.attr cmd a).1, t)
      ∧ Apart env t old new h h' (ops.exec h.attr cmd a).2 b := by
  rcases hp.containers with ⟨o, o', ho, ho', rfl, rfl, hne⟩
  refine ⟨_, access_container hp.slot_old hp.target_old ho cmd, ?_⟩
  refine ⟨?_, ?_, hp.target_old, hp.target_new, ?_⟩
  . rw [shm_put]
    exact hp.slot_old
  . rw [shm_put]
    exact hp.slot_new
  . refine ⟨o.put o.id (ops.exec h.attr cmd o.contents).2, o', ?_, ?_, ?_, rfl, ?_⟩
    . rw [deref_put, ho]
      rfl
    . rw [deref_put, ho']
      simp [NamedHeap.Object.put, hne.symm]
    . simp [NamedHeap.Object.put]
    . rw [NamedHeap.Object.id_put]
      exact hne

theorem Apart.lookupAt (hp : Apart env s old new h h' a b) (key : List UInt8) (fromSyscall : Bool)
    : s.lookupAt env ops old key fromSyscall = some (found ops h.attr a key fromSyscall) := by
  rcases hp.access ops (.lookup key fromSyscall) with ⟨t, ht, -⟩
  unfold ShmState.lookupAt
  rw [ht]
  rfl

def cmdsOf (isOld : Bool) (cs : List (Bool × Cmd)) : List Cmd :=
  (cs.filter (fun c => c.1 == isOld)).map Prod.snd

theorem Apart.useBoth (hp : Apart env s old new h h' a b) (ops : MapOps α ε ρ)
    (cs : List (Bool × Cmd))
    : ∃ t, useBoth env ops old new s cs = some t
      ∧ Apart env t old new h h' (execAll ops h.attr (cmdsOf true cs) a)
        (execAll ops h'.attr (cmdsOf false cs) b) := by
  induction cs generalizing s a b with
  | nil => exact ⟨s, rfl, hp⟩
  | cons c cs ih =>
    rcases c with ⟨isOld, cmd⟩
    cases isOld with
    | true =>
      rcases hp.access ops cmd with ⟨t, haccess, hp'⟩
      rcases ih hp' with ⟨t', ht', hp''⟩
      refine ⟨t', ?_, hp''⟩
      unfold ShmState.useBoth
      rw [List.foldlM_cons]
      simp only [↓reduceIte, haccess]
      exact ht'
    | false =>
      rcases hp.symm.access ops cmd with ⟨t, haccess, hp'⟩
      rcases ih hp'.symm with ⟨t', ht', hp''⟩
      refine ⟨t', ?_, hp''⟩
      unfold ShmState.useBoth
      rw [List.foldlM_cons]
      simp only [Bool.false_eq_true, ↓reduceIte, haccess]
      exact ht'

theorem cmdsOf_map (isOld isOld' : Bool) (cs : List Cmd)
    : cmdsOf isOld (cs.map (isOld', ·)) = if isOld' = isOld then cs else [] := by
  unfold cmdsOf
  cases isOld <;> cases isOld' <;> simp [List.filter_map, Function.comp_def]

theorem Apart.agree_iff (hattr : h'.attr = h.attr)
    (hp : Apart env s old new h h' a (ops.construct h.attr))
    : Agree env ops s old new ↔ Inert ops h.attr a := by
  constructor
  . intro hagree
    -- the commands of one descriptor are not seen by the other one
    have hfound (cs : List (Bool × Cmd)) (key : List UInt8) (fromSyscall : Bool)
        : found ops h.attr (execAll ops h.attr (cmdsOf true cs) a) key fromSyscall
          = found ops h.attr (execAll ops h.attr (cmdsOf false cs) (ops.construct h.attr)) key
            fromSyscall := by
      rcases hagree cs with ⟨t, ht, hlookup⟩
      rcases hp.useBoth ops cs with ⟨t', ht', hp'⟩
      rw [ht] at ht'
      cases ht'
      rcases hlookup key fromSyscall with ⟨r, hr, hr'⟩
      rw [hp'.lookupAt] at hr
      rw [hp'.symm.lookupAt, hattr] at hr'
      rw [Option.some.inj hr, Option.some.inj hr']
    constructor
    . intro cs key fromSyscall
      have := hfound (cs.map (true, ·)) key fromSyscall
      simpa [cmdsOf_map, execAll] using this
    . intro cs key fromSyscall
      have hcs := hfound (cs.map (false, ·)) key fromSyscall
      have hnil := hfound [] key fromSyscall
      rw [cmdsOf_map, cmdsOf_map] at hcs
      simp only [Bool.false_eq_true, ↓reduceIte] at hcs
      rw [← hcs]
      exact hnil
  . intro hinert cs
    rcases hp.useBoth ops cs with ⟨t, ht, hp'⟩
    refine ⟨t, ht, ?_⟩
    intro key fromSyscall
    refine ⟨_, hp'.lookupAt key fromSyscall, ?_⟩
    rw [hp'.symm.lookupAt, hattr, hinert.self, hinert.fresh]

end container

theorem id_of_deref {o : NamedHeap.Object CString α} (hderef : s.deref fd = some o)
    : s.mapImplPtr fd = some o.id := by
  rcases Option.bind_eq_some_iff.mp hderef with ⟨id, hptr, hget⟩
  rw [hptr, (s.heap.mem_of_get? hget).2]

structure Duped (env : Env) (ops : MapOps α ε ρ) (s : ShmState α ε) (old new : Int32)
    (h h' : BpfMapHandler) (s' : ShmState α ε) : Prop where
  attr_eq : h'.attr = h.attr
  slot_old : s'.shm.slot? old = some (.map h)
  slot_new : s'.shm.slot? new = some (.map h')
  deref_old : s'.deref old = (s.deref old).filter (fun o => s.freedName env new ≠ some o.name)
  deref_new : h.initKind env = .construct → ∃ o', s'.deref new = some o'
    ∧ o'.contents = ops.construct h.attr ∧ ∀ o, s'.deref old = some o → o.id ≠ o'.id

theorem initKind_congr (hattr : h'.attr = h.attr) : h'.initKind env = h.initKind env := by
  unfold BpfMapHandler.initKind BpfMapHandler.type
  rw [hattr]

theorem target_congr (hattr : h'.attr = h.attr) : h'.target env = h.target env := by
  unfold BpfMapHandler.target BpfMapHandler.type
  rw [hattr]

theorem Inv.duped {fake oldfd newfd : Int32} (hinv : Inv env s)
    (hslot : s.shm.slot? oldfd = some (.map h))
    (hdup : s.call env ops (.dupBpfMap fake oldfd newfd)
      = some (.ret (BpftimeShm.orFake newfd fake) none, s'))
    : ∃ h', Duped env ops s oldfd (BpftimeShm.orFake newfd fake) h h' s' := by
  dsimp only [ShmState.call, ShmState.dupBpfMap] at hdup
  rw [hslot] at hdup
  dsimp only at hdup
  split at hdup
  . simp at hdup
  . next hne =>
    have hne : oldfd ≠ BpftimeShm.orFake newfd fake := fun heq => hne heq.symm
    have hafter := hinv.after_create hdup
    rcases replaceByMap_steps hdup with ⟨t, hc, hm⟩
    have htinv := hinv.cleared hc
    refine ⟨⟨"dup_".toUTF8.toList ++ h.name, h.attr⟩, rfl,
      (hafter.slot_other oldfd h hne).mpr hslot, hm.slot_self, hafter.deref_other oldfd hne, ?_⟩
    intro hkind
    -- the call has not thrown, so it has made a container
    have hnew : Constructs env t ⟨"dup_".toUTF8.toList ++ h.name, h.attr⟩ := by
      rcases hm.outcome with ⟨hthrown, -⟩ | ⟨-, hmade⟩
      . simp at hthrown
      . exact hmade ((initKind_congr rfl).trans hkind)
    refine ⟨_, hm.deref_of_constructs hnew, rfl, ?_⟩
    intro o ho heq
    rw [hm.deref_other htinv hne] at ho
    have hlt := htinv.ptr_lt oldfd o.id (id_of_deref ho)
    simp only at heq
    omega

theorem Duped.deref_old_iff (hd : Duped env ops s old new h h' s') (o : NamedHeap.Object CString α)
    : s'.deref old = some o ↔ Survives env s old new o := by
  rw [hd.deref_old, Option.filter_eq_some_iff]
  simp [Survives]

theorem Agree.reaches (hagree : Agree env ops s old new) (hslot : s.shm.slot? old = some (.map h))
    : Reaches env s old h := by
  rcases hagree [] with ⟨t, ht, hlookup⟩
  cases ht
  rcases hlookup [] false with ⟨r, hr, -⟩
  refine ⟨hslot, ?_⟩
  unfold lookupAt access at hr
  rw [hslot] at hr
  cases ht : h.target env with
  | container | kernel =>
    simp only [ht] at hr
    cases hderef : s.deref old with
    | none => simp [hderef] at hr
    | some o => exact ⟨o, rfl⟩
  | registered =>
    simp only [ht] at hr
    cases hops : h.hasOps with
    | false => simp [hops] at hr
    | true => rfl

theorem place_congr (hattr : h'.attr = h.attr) : place env h' = place env h := by
  unfold place
  rw [target_congr hattr, hattr]

theorem Duped.reaches_new (hd : Duped env ops s old new h h' s')
    (hkind : ∀ {o}, Survives env s old new o → h.initKind env = .construct)
    (hold : Reaches env s' old h)
    : Reaches env s' new h' := by
  refine ⟨hd.slot_new, ?_⟩
  have hreach := hold.2
  rw [target_congr hd.attr_eq]
  cases ht : h.target env with
  | registered =>
    rw [ht] at hreach
    unfold BpfMapHandler.hasOps at hreach ⊢
    rw [hd.attr_eq]
    exact hreach
  | container | kernel =>
    rw [ht] at hreach
    rcases hreach with ⟨o, ho⟩
    rcases hd.deref_new (hkind ((hd.deref_old_iff o).mp ho)) with ⟨o', ho', -⟩
    exact ⟨o', ho'⟩

theorem Duped.agree_iff_reaches (hd : Duped env ops s old new h h' s')
    (hkind : ∀ {o}, Survives env s old new o → h.initKind env = .construct)
    (htarget : h.target env ≠ .container)
    : Agree env ops s' old new ↔ Reaches env s' old h := by
  constructor
  . intro hagree
    exact hagree.reaches hd.slot_old
  . intro hold
    apply agree_of_place hold (hd.reaches_new hkind hold) htarget
    . rw [target_congr hd.attr_eq]
      exact htarget
    . exact place_congr hd.attr_eq

theorem Duped.agree_iff_inert (hd : Duped env ops s old new h h' s')
    (hkind : ∀ {o}, Survives env s old new o → h.initKind env = .construct)
    (htarget : h.target env = .container)
    : Agree env ops s' old new ↔ ∃ o, Survives env s old new o ∧ Inert ops h.attr o.contents := by
  have hapart {o : NamedHeap.Object CString α} (hs : Survives env s old new o)
      : Apart env s' old new h h' o.contents (ops.construct h.attr) := by
    have ho := (hd.deref_old_iff o).mpr hs
    rcases hd.deref_new (hkind hs) with ⟨o', ho', hcontents, hne⟩
    exact ⟨hd.slot_old, hd.slot_new, htarget, (target_congr hd.attr_eq).trans htarget,
      ⟨o, o', ho, ho', rfl, hcontents, hne o ho⟩⟩
  constructor
  . intro hagree
    have hreach := (hagree.reaches hd.slot_old).2
    rw [htarget] at hreach
    rcases hreach with ⟨o, ho⟩
    have hs := (hd.deref_old_iff o).mp ho
    exact ⟨o, hs, ((hapart hs).agree_iff hd.attr_eq).mp hagree⟩
  . rintro ⟨o, hs, hinert⟩
    exact ((hapart hs).agree_iff hd.attr_eq).mpr hinert

theorem Duped.agree_iff (hd : Duped env ops s old new h h' s')
    (hkind : ∀ {o}, Survives env s old new o → h.initKind env = .construct)
    : Agree env ops s' old new ↔ Shared env ops s old new h := by
  unfold Shared
  cases ht : h.target env with
  | registered =>
    rw [hd.agree_iff_reaches hkind (by simp [ht])]
    unfold Reaches
    rw [ht]
    exact and_iff_right hd.slot_old
  | kernel =>
    rw [hd.agree_iff_reaches hkind (by simp [ht])]
    unfold Reaches
    rw [ht]
    simp only [hd.slot_old, hd.deref_old_iff, true_and]
  | container => exact hd.agree_iff_inert hkind ht

theorem dupBpfMap_agree_iff (env : Env) (ops : MapOps α ε ρ) (maxFdCount : Nat) (ext : Extern → ε)
    (history : List RunOp) (s s' : ShmState α ε) (fake oldfd newfd : Int32) (h : BpfMapHandler)
    (hrun : Run.Exec (step env ops) (fun _ _ => True) (construct maxFdCount ext) history s)
    (hslot : s.shm.slot? oldfd = some (.map h))
    (hdup : s.call env ops (.dupBpfMap fake oldfd newfd)
      = some (.ret (BpftimeShm.orFake newfd fake) none, s'))
    : Agree env ops s' oldfd (BpftimeShm.orFake newfd fake)
        ↔
      Shared env ops s oldfd (BpftimeShm.orFake newfd fake) h := by
  have hinv := inv_run hrun
  rcases hinv.duped hslot hdup with ⟨h', hd⟩
  have hkind {o : NamedHeap.Object CString α} (hs : Survives env s oldfd (BpftimeShm.orFake newfd fake) o)
      : h.initKind env = .construct := (hinv.container oldfd h o hslot hs.1).2
  generalize BpftimeShm.orFake newfd fake = new at hd hkind ⊢
  exact hd.agree_iff hkind

def oneMap : List RunOp := [.table (.addBpfMap 9 0 [109] hashAttr)]

theorem dupBpfMap_agree_iff_oneMap
    : ∃ s s', Run.Exec (step BpftimeShm.plainEnv hashOps) (fun _ _ => True) startState oneMap s
        ∧ s.shm.slot? 0 = some (.map ⟨[109], hashAttr⟩)
        ∧ s.call BpftimeShm.plainEnv hashOps (.dupBpfMap 9 0 1) = some (.ret 1 none, s')
        ∧ (Agree BpftimeShm.plainEnv hashOps s' 0 1
          ↔ Shared BpftimeShm.plainEnv hashOps s 0 1 ⟨[109], hashAttr⟩) := by
  have heval : ((oneMap.foldlM (step BpftimeShm.plainEnv hashOps) startState).bind fun s =>
      (s.call BpftimeShm.plainEnv hashOps (.dupBpfMap 9 0 1)).map fun r =>
        (s.shm.slot? 0, r.1))
      = some (some (.map ⟨[109], hashAttr⟩), .ret 1 none) := by
    decide +kernel
  rcases Option.bind_eq_some_iff.mp heval with ⟨s, hs, heval⟩
  rcases Option.map_eq_some_iff.mp heval with ⟨⟨o, s'⟩, hdup, heq⟩
  simp only [Prod.mk.injEq] at heq
  rcases heq with ⟨hslot, rfl⟩
  have hrun := Run.exec_of_foldlM hs
  exact ⟨s, s', hrun, hslot, hdup, dupBpfMap_agree_iff _ _ _ _ _ s s' 9 0 1 _ hrun hslot hdup⟩

theorem shm_run_oneMap
    : ∃ s, Run.Exec (step BpftimeShm.plainEnv hashOps) (fun _ _ => True) startState
          (oneMap ++ [.access 0 (.update [5] [7] 0 true)]) s
        ∧ Run.Exec (BpftimeShm.step BpftimeShm.plainEnv) (fun _ _ => True) startState.shm
          [.addBpfMap 9 0 [109] hashAttr] s.shm := by
  have heval : ((oneMap ++ [RunOp.access 0 (.update [5] [7] 0 true)]).foldlM
      (step BpftimeShm.plainEnv hashOps) startState).isSome := by
    decide +kernel
  rcases Option.isSome_iff_exists.mp heval with ⟨s, hs⟩
  have hrun := Run.exec_of_foldlM hs
  exact ⟨s, hrun, shm_run hrun⟩

theorem not_agree_oneMap
    : ∃ s s', Run.Exec (step BpftimeShm.plainEnv hashOps) (fun _ _ => True) startState oneMap s
        ∧ s.shm.slot? 0 = some (.map ⟨[109], hashAttr⟩)
        ∧ s.call BpftimeShm.plainEnv hashOps (.dupBpfMap 9 0 1) = some (.ret 1 none, s')
        ∧ ¬ Agree BpftimeShm.plainEnv hashOps s' 0 1 := by
  have heval : ((oneMap.foldlM (step BpftimeShm.plainEnv hashOps) startState).bind fun s =>
      (s.call BpftimeShm.plainEnv hashOps (.dupBpfMap 9 0 1)).bind fun r =>
        (useBoth BpftimeShm.plainEnv hashOps 0 1 r.2 [(true, .update [5] [7] 0 true)]).map fun t =>
          (s.shm.slot? 0, r.1,
            (t.lookupAt BpftimeShm.plainEnv hashOps 0 [5] true).any (fun res => res.2.isSome),
            (t.lookupAt BpftimeShm.plainEnv hashOps 1 [5] true).any (fun res => res.2.isSome)))
      = some (some (.map ⟨[109], hashAttr⟩), .ret 1 none, true, false) := by
    decide +kernel
  rcases Option.bind_eq_some_iff.mp heval with ⟨s, hs, heval⟩
  rcases Option.bind_eq_some_iff.mp heval with ⟨⟨o, s'⟩, hdup, heval⟩
  rcases Option.map_eq_some_iff.mp heval with ⟨t, ht, heq⟩
  simp only [Prod.mk.injEq] at heq
  rcases heq with ⟨hslot, rfl, hold, hnew⟩
  refine ⟨s, s', Run.exec_of_foldlM hs, hslot, hdup, ?_⟩
  intro hagree
  rcases hagree [(true, .update [5] [7] 0 true)] with ⟨t', ht', hlookup⟩
  rw [ht] at ht'
  cases ht'
  rcases hlookup [5] true with ⟨r, hr, hr'⟩
  rw [hr] at hold
  rw [hr'] at hnew
  exact absurd (hold.symm.trans hnew) (by simp)

end ShmState

end Bpftime.Shm
