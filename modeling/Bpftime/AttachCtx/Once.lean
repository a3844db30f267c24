import Bpftime.AttachCtx.Impl
import Mathlib.Data.Finset.Card

/-!
This module contains that each link is attached at most once, after its program was loaded.
-/

namespace Bpftime.AttachCtx

open Shm

variable {ω π κ : Type} {env : Env ω π κ} {table : List Handler} {config : κ} {nv : Bool}

def Inside (table : List Handler) (id : ℤ) : Prop := 0 ≤ id ∧ id < table.length

/-- Every link refers to slots of the table. -/
def LinksInside (table : List Handler) : Prop :=
  ∀ h, .link h ∈ table → Inside table h.progId.toInt ∧ Inside table h.attachTargetId.toInt

instance (table : List Handler) (id : ℤ) : Decidable (Inside table id) :=
  inferInstanceAs (Decidable (_ ∧ _))

/-- A link is attached after its program was loaded. -/
def Ordered (table : List Handler) (trace : List Event) : Prop :=
  ∀ newer older id, trace = newer ++ .attached id :: older →
    ∃ h, getHandler table id = some (.link h) ∧ .loaded h.progId.toInt ∈ older

structure Inv (table : List Handler) (s : State ω π) : Prop where
  once : ∀ id, s.trace.count (.attached id) ≤ 1
  ordered : Ordered table s.trace
  instantiated : ∀ id, .attached id ∈ s.trace → id ∈ s.instantiatedHandlers
  loaded : ∀ id h, getHandler table id = some (.prog h) → id ∈ s.instantiatedHandlers →
    .loaded id ∈ s.trace
  isProg : ∀ id, s.instantiatedProgs id ≠ none → ∃ h, getHandler table id = some (.prog h)

structure Same (s s' : State ω π) : Prop where
  stk : s'.stk = s.stk
  trace : s'.trace = s.trace
  instantiatedHandlers : s'.instantiatedHandlers = s.instantiatedHandlers
  instantiatedProgs : s'.instantiatedProgs = s.instantiatedProgs

variable {s s' : State ω π} {id : ℤ}

theorem inv_start (world : ω) : Inv table (State.start world : State ω π) where
  once := by simp [State.start]
  ordered := by simp [Ordered, State.start]
  instantiated := by simp [State.start]
  loaded := by simp [State.start]
  isProg := by simp [State.start]

section Inv

theorem Ordered.cons {trace : List Event} {e : Event} (h : Ordered table trace)
    (hlink : ∀ id, e = .attached id →
      ∃ h, getHandler table id = some (.link h) ∧ .loaded h.progId.toInt ∈ trace)
    : Ordered table (e :: trace) := by
  intro newer older x heq
  cases newer with
  | nil =>
    rw [List.nil_append, List.cons.injEq] at heq
    exact heq.2 ▸ hlink x heq.1
  | cons e newer =>
    rw [List.cons_append, List.cons.injEq] at heq
    exact h newer older x heq.2

theorem Inv.of_same (hs : Inv table s) (h : Same s s') : Inv table s' where
  once := h.trace ▸ hs.once
  ordered := h.trace ▸ hs.ordered
  instantiated := h.trace ▸ h.instantiatedHandlers ▸ hs.instantiated
  loaded := h.trace ▸ h.instantiatedHandlers ▸ hs.loaded
  isProg := h.instantiatedProgs ▸ hs.isProg

theorem Inv.setStk (hs : Inv table s) (stk : Finset ℤ) : Inv table { s with stk } := { hs with }

theorem Inv.newProg {h : BpfProgHandler} (hs : Inv table s)
    (hprog : getHandler table id = some (.prog h))
    : Inv table { s with
        instantiatedProgs := Function.update s.instantiatedProgs id (some h) } := by
  refine { hs with isProg := ?_ }
  intro x hx
  dsimp only at hx
  rw [Function.update_apply] at hx
  split at hx
  next heq => exact ⟨h, heq ▸ hprog⟩
  next => exact hs.isProg x hx

theorem Inv.load (hs : Inv table s) : Inv table { s with
        instantiatedHandlers := insert id s.instantiatedHandlers
        trace := .loaded id :: s.trace } where
  once := by
    intro x
    rw [List.count_cons_of_ne (by simp)]
    exact hs.once x
  ordered := hs.ordered.cons (by simp)
  instantiated := by
    intro x hx
    rw [List.mem_cons] at hx
    exact Finset.mem_insert_of_mem (hs.instantiated x (hx.resolve_left (by simp)))
  loaded := by
    intro x h hx hmem
    rw [Finset.mem_insert] at hmem
    rcases hmem with rfl | hmem
    . exact List.mem_cons_self
    . exact List.mem_cons_of_mem _ (hs.loaded x h hx hmem)
  isProg := hs.isProg

theorem Inv.attach {h : BpfLinkHandler} (hs : Inv table s)
    (hlink : getHandler table id = some (.link h)) (hnot : id ∉ s.instantiatedHandlers)
    (hloaded : .loaded h.progId.toInt ∈ s.trace)
    : Inv table { s with
        instantiatedHandlers := insert id s.instantiatedHandlers
        trace := .attached id :: s.trace } where
  once := by
    intro x
    by_cases hx : x = id
    . have hzero : s.trace.count (.attached id) = 0 :=
        List.count_eq_zero.mpr fun hmem => hnot (hs.instantiated id hmem)
      rw [hx, List.count_cons_self, hzero]
    . rw [List.count_cons_of_ne (by simpa using Ne.symm hx)]
      exact hs.once x
  ordered := by
    refine hs.ordered.cons ?_
    rintro x ⟨⟩
    exact ⟨h, hlink, hloaded⟩
  instantiated := by
    intro x hx
    rw [List.mem_cons, Event.attached.injEq] at hx
    rw [Finset.mem_insert]
    exact hx.imp_right (hs.instantiated x)
  loaded := by
    intro x h' hx hmem
    rw [Finset.mem_insert] at hmem
    rcases hmem with rfl | hmem
    . rw [hlink] at hx
      cases hx
    . exact List.mem_cons_of_mem _ (hs.loaded x h' hx hmem)
  isProg := hs.isProg

theorem Inv.instantiate (hs : Inv table s) (hnot : ∀ h, getHandler table id ≠ some (.prog h))
    : Inv table { s with instantiatedHandlers := insert id s.instantiatedHandlers } := by
  refine { hs with
    instantiated := fun x hx => Finset.mem_insert_of_mem (hs.instantiated x hx)
    loaded := ?_ }
  intro x h hx hmem
  rw [Finset.mem_insert] at hmem
  rcases hmem with rfl | hmem
  . exact absurd hx (hnot h)
  . exact hs.loaded x h hx hmem

end Inv

/-- The run is neither out of fuel nor outside the table. -/
def Ends (r : Result ω π) : Prop := r.1 ≠ .error .outOfFuel ∧ r.1 ≠ .error .outOfTable

@[simp] theorem ends_ok (err : ℤ) (s : State ω π) : Ends (.ok err, s) := by simp [Ends]

@[simp] theorem ends_thrown (what : String) (s : State ω π) : Ends (.error (.thrown what), s) := by
  simp [Ends]

@[simp] theorem ends_nullPrivateData (s : State ω π) : Ends (.error .nullPrivateData, s) := by
  simp [Ends]

structure Leaf (table : List Handler) (id : ℤ) (s : State ω π) (r : Result ω π) : Prop where
  stk : r.2.stk = s.stk
  mono : s.instantiatedHandlers ⊆ r.2.instantiatedHandlers
  only : r.2.instantiatedHandlers ⊆ insert id s.instantiatedHandlers
  inv : Inv table r.2
  loads : ∀ err h, r.1 = .ok err → 0 ≤ err → getHandler table id = some (.prog h) →
    id ∈ r.2.instantiatedHandlers
  ends : Ends r

theorem Leaf.of_same {r : Result ω π} (hs : Inv table s)
    (hloads : ∀ err h, r.1 = .ok err → 0 ≤ err → getHandler table id ≠ some (.prog h))
    (hends : Ends r := by simp) (hsame : Same s r.2 := by exact ⟨rfl, rfl, rfl, rfl⟩)
    : Leaf table id s r where
  stk := hsame.stk
  mono := by rw [hsame.instantiatedHandlers]
  only := by
    rw [hsame.instantiatedHandlers]
    exact Finset.subset_insert _ _
  inv := hs.of_same hsame
  loads := fun err h herr hpos hprog => absurd hprog (hloads err h herr hpos)
  ends := hends

theorem Leaf.of_insert (hstk : s'.stk = s.stk)
    (hinst : s'.instantiatedHandlers = insert id s.instantiatedHandlers) (hs' : Inv table s')
    : Leaf table id s (.ok 0, s') where
  stk := hstk
  mono := by
    rw [hinst]
    exact Finset.subset_insert _ _
  only := by rw [hinst]
  inv := hs'
  loads := by
    intro _ _ _ _ _
    rw [hinst]
    exact Finset.mem_insert_self _ _
  ends := ends_ok 0 s'

theorem Leaf.of_state {r : Result ω π} (h : Leaf table id s' r) (hstk : s'.stk = s.stk)
    (hinst : s'.instantiatedHandlers = s.instantiatedHandlers)
    : Leaf table id s r :=
  { h with stk := h.stk.trans hstk, mono := hinst ▸ h.mono, only := hinst ▸ h.only }

section Leaf

theorem Inv.call_leaf {α : Type} {f : Foreign ω α} {rest : α → State ω π → Result ω π}
    (hs : Inv table s) (hrest : ∀ a world, Leaf table id s (rest a { s with world }))
    : Leaf table id s (call f s rest) := by
  unfold call
  split
  . exact .of_same hs (by simp)
  next a world _ => exact hrest a world

theorem Inv.prog_leaf {h : BpfProgHandler} (hs : Inv table s)
    (hprog : getHandler table id = some (.prog h))
    : Leaf table id s (instantiateProgHandlerAt env config id h s) := by
  unfold instantiateProgHandlerAt
  refine hs.call_leaf fun _ world => ?_
  have hs' : Inv table { s with
      world, instantiatedProgs := Function.update s.instantiatedProgs id (some h) } :=
    (hs.newProg hprog).of_same ⟨rfl, rfl, rfl, rfl⟩
  refine Leaf.of_state (hs'.call_leaf fun err world => ?_) rfl rfl
  split
  next hneg =>
    refine .of_same hs' ?_
    intro err' _ herr hpos
    cases herr
    omega
  next => exact .of_insert rfl rfl (hs'.load.of_same ⟨rfl, rfl, rfl, rfl⟩)

theorem Leaf.of_not_prog {r : Result ω π} (hs : Inv table s)
    (hnot : ∀ h, getHandler table id ≠ some (.prog h)) (hends : Ends r := by simp)
    (hsame : Same s r.2 := by exact ⟨rfl, rfl, rfl, rfl⟩)
    : Leaf table id s r :=
  .of_same hs (fun _ h _ _ => hnot h) hends hsame

theorem Inv.perfEvent_leaf {h : BpfPerfEventHandler} (hs : Inv table s)
    (hperf : getHandler table id = some (.perfEvent h))
    : Leaf table id s (instantiatePerfEventHandlerAt env id h s) := by
  have hnot : ∀ h', getHandler table id ≠ some (.prog h') := by simp [hperf]
  unfold instantiatePerfEventHandlerAt
  split
  . exact .of_not_prog hs hnot
  . split
    . exact .of_not_prog hs hnot
    . split
      . exact .of_not_prog hs hnot
      . refine hs.call_leaf fun r world => ?_
        split
        . exact .of_not_prog hs hnot
        . exact .of_insert rfl rfl ((hs.instantiate hnot).of_same ⟨rfl, rfl, rfl, rfl⟩)

variable {h : BpfLinkHandler}

theorem Inv.createAttach_leaf (env : Env ω π κ) (hs : Inv table s)
    (hlink : getHandler table id = some (.link h)) (hnot : id ∉ s.instantiatedHandlers)
    (hloaded : .loaded h.progId.toInt ∈ s.trace) (impl : ℕ) (prog : BpfProgHandler)
    (cookie : Option UInt64) (priv : π) (attachType : Int32)
    : Leaf table id s (createAttach env id impl prog cookie priv attachType s) := by
  have hprog : ∀ h', getHandler table id ≠ some (.prog h') := by simp [hlink]
  unfold createAttach
  refine hs.call_leaf fun attachId world => ?_
  split
  . exact .of_not_prog hs hprog
  . exact .of_insert rfl rfl ((hs.attach hlink hnot hloaded).of_same ⟨rfl, rfl, rfl, rfl⟩)

theorem same_perfEventAt (target : ℤ) (s : State ω π) : Same s (perfEventAt target s).2 := by
  unfold perfEventAt
  split <;> exact ⟨rfl, rfl, rfl, rfl⟩

theorem Inv.link_leaf (hs : Inv table s) (hlink : getHandler table id = some (.link h))
    (hnot : id ∉ s.instantiatedHandlers)
    (hready : ∀ h', getHandler table h.progId.toInt = some (.prog h') →
      h.progId.toInt ∈ s.instantiatedHandlers)
    : Leaf table id s (instantiateBpfLinkHandlerAt env id h nv s) := by
  have hprog : ∀ h', getHandler table id ≠ some (.prog h') := by simp [hlink]
  unfold instantiateBpfLinkHandlerAt
  dsimp only
  have hsame := same_perfEventAt h.attachTargetId.toInt s
  generalize perfEventAt h.attachTargetId.toInt s = found at hsame ⊢
  obtain ⟨⟨privData, attachType⟩, s₁⟩ := found
  refine Leaf.of_state ?_ hsame.stk hsame.instantiatedHandlers
  rw [← hsame.instantiatedHandlers] at hnot hready
  have hs := hs.of_same hsame
  dsimp only at hs hnot hready ⊢
  clear hsame
  split
  . exact .of_not_prog hs hprog
  next impl _ =>
    split
    . exact .of_not_prog hs hprog
    next prog hfound =>
      have hloaded : .loaded h.progId.toInt ∈ s₁.trace := by
        obtain ⟨h', hh'⟩ := hs.isProg h.progId.toInt (by rw [hfound]; simp)
        exact hs.loaded _ h' hh' (hready h' hh')
      split
      . split
        . cases privData with
          | none => exact .of_not_prog hs hprog
          | some priv =>
            dsimp only
            split
            . refine hs.call_leaf fun priv' world => ?_
              refine Leaf.of_state (Inv.createAttach_leaf env (hs.of_same ?_) hlink ?_ ?_ _ _ _ _ _)
                rfl rfl
              . exact ⟨rfl, rfl, rfl, rfl⟩
              . exact hnot
              . exact hloaded
            . exact .of_not_prog hs hprog
        . exact .of_not_prog hs hprog
      . split
        . exact .of_not_prog hs hprog
        . cases privData with
          | none => exact .of_not_prog hs hprog
          | some priv => exact hs.createAttach_leaf env hlink hnot hloaded _ _ _ _ _

end Leaf

structure Spec (table : List Handler) (K : Finset ℤ) (id : ℤ) (s : State ω π) (r : Result ω π)
    : Prop where
  stk : s.stk ⊆ r.2.stk
  mono : s.instantiatedHandlers ⊆ r.2.instantiatedHandlers
  fresh : ∀ x ∈ K, x ∈ r.2.instantiatedHandlers → x ∈ s.instantiatedHandlers
  inv : Inv table r.2
  loads : ∀ err h, r.1 = .ok err → 0 ≤ err → getHandler table id = some (.prog h) →
    id ∈ r.2.instantiatedHandlers

section Spec

variable {K : Finset ℤ} {r : Result ω π}

theorem Leaf.spec (h : Leaf table id s r) (hid : id ∉ K) : Spec table K id s r := by
  refine { h with stk := by rw [h.stk], fresh := ?_ }
  intro x hx hmem
  rcases Finset.mem_insert.mp (h.only hmem) with rfl | hmem
  . exact absurd hx hid
  . exact hmem

theorem Spec.trans {id' : ℤ} {r' : Result ω π} (h : Spec table K id' s r)
    (h' : Spec table K id r.2 r')
    : Spec table K id s r' :=
  { h' with
    stk := h.stk.trans h'.stk
    mono := h.mono.trans h'.mono
    fresh := fun x hx hmem => h.fresh x hx (h'.fresh x hx hmem) }

theorem Spec.stop {id' : ℤ} (h : Spec table K id' s r) (herr : ∀ err, r.1 = .ok err → err < 0)
    : Spec table K id s r := by
  refine { h with loads := ?_ }
  intro err _ hok hpos
  have := herr err hok
  omega

theorem Spec.weaken {K' : Finset ℤ} (h : Spec table K' id s r) (hK : K ⊆ K')
    : Spec table K id s r :=
  { h with fresh := fun x hx => h.fresh x (hK hx) }

theorem andThen_cases (r : Result ω π) (rest : State ω π → Result ω π)
    : (andThen r rest = r ∧ ∀ err, r.1 = .ok err → err < 0)
      ∨ ∃ err, r.1 = .ok err ∧ 0 ≤ err ∧ andThen r rest = rest r.2 := by
  obtain ⟨res, s⟩ := r
  unfold andThen
  cases res with
  | error e => exact .inl ⟨rfl, by simp⟩
  | ok err =>
    by_cases hneg : err < 0
    . left
      refine ⟨by simp [hneg], ?_⟩
      intro err' heq
      cases heq
      exact hneg
    . right
      exact ⟨err, rfl, by omega, by simp [hneg]⟩

theorem Spec.link_leaf {h : BpfLinkHandler} {r' : Result ω π} {err : ℤ}
    (hprog : Spec table s.stk h.progId.toInt s r)
    (htarget : Spec table r.2.stk h.attachTargetId.toInt r.2 r') (hok : r.1 = .ok err)
    (hpos : 0 ≤ err) (hlink : getHandler table id = some (.link h)) (hid : id ∈ s.stk)
    (hnot : id ∉ s.instantiatedHandlers)
    : Leaf table id r'.2 (instantiateBpfLinkHandlerAt env id h nv r'.2) := by
  refine htarget.inv.link_leaf hlink ?_ ?_
  . intro hmem
    exact hnot (hprog.fresh id hid (htarget.fresh id (hprog.stk hid) hmem))
  . intro h' hh'
    exact htarget.mono (hprog.loads err h' hok hpos hh')

theorem Inv.link_spec {h : BpfLinkHandler} {visit : ℤ → State ω π → Result ω π} (hs : Inv table s)
    (hvisit : ∀ id s, Inv table s → Spec table s.stk id s (visit id s))
    (hlink : getHandler table id = some (.link h)) (hid : id ∈ s.stk)
    (hnot : id ∉ s.instantiatedHandlers)
    : Spec table (s.stk.erase id) id s
        (andThen (visit h.progId.toInt s) fun s =>
          andThen (visit h.attachTargetId.toInt s) fun s =>
            instantiateBpfLinkHandlerAt env id h nv s) := by
  have hprog := hvisit h.progId.toInt s hs
  have hweak := hprog.weaken (Finset.erase_subset id s.stk)
  obtain ⟨heq, herr⟩ | ⟨err, hok, hpos, heq⟩ := andThen_cases (visit h.progId.toInt s) _
  . rw [heq]
    exact hweak.stop herr
  . rw [heq]
    apply hweak.trans
    generalize visit h.progId.toInt s = r₁ at hprog hok
    have htarget := hvisit h.attachTargetId.toInt r₁.2 hprog.inv
    have hweak' := htarget.weaken ((Finset.erase_subset id s.stk).trans hprog.stk)
    obtain ⟨heq, herr⟩ | ⟨err', _, _, heq⟩ := andThen_cases (visit h.attachTargetId.toInt r₁.2) _
    . rw [heq]
      exact hweak'.stop herr
    . rw [heq]
      apply hweak'.trans
      exact (hprog.link_leaf htarget hok hpos hlink hid hnot).spec (Finset.notMem_erase id s.stk)

theorem Inv.instantiateKind_spec (env : Env ω π κ) (config : κ) (nv : Bool)
    {visit : ℤ → State ω π → Result ω π} (hs : Inv table s)
    (hvisit : ∀ id s, Inv table s → Spec table s.stk id s (visit id s)) {handler : Handler}
    (hget : getHandler table id = some handler) (hid : id ∈ s.stk)
    (hnot : id ∉ s.instantiatedHandlers)
    : Spec table (s.stk.erase id) id s (instantiateKind env config nv visit id s handler) := by
  have hother (hno : ∀ h, getHandler table id ≠ some (.prog h))
      : Spec table (s.stk.erase id) id s (.ok 0, s) :=
    (Leaf.of_not_prog hs hno).spec (Finset.notMem_erase id s.stk)
  cases handler with
  | prog h => exact (hs.prog_leaf hget).spec (Finset.notMem_erase id s.stk)
  | perfEvent h => exact (hs.perfEvent_leaf hget).spec (Finset.notMem_erase id s.stk)
  | link h => exact hs.link_spec hvisit hget hid hnot
  | unused | map h | epoll | memfd h => exact hother (by simp [hget])

theorem Inv.unchanged_spec (hs : Inv table s) {res : Except Exit ℤ}
    (hloads : ∀ err, res = .ok err → 0 ≤ err → id ∈ s.instantiatedHandlers)
    : Spec table K id s (res, s) where
  stk := Finset.Subset.refl _
  mono := Finset.Subset.refl _
  fresh := fun _ _ hmem => hmem
  inv := hs
  loads := fun err _ herr hpos _ => hloads err herr hpos

theorem Spec.enter (hid : id ∉ s.stk) (h : Spec table s.stk id { s with stk := insert id s.stk } r)
    : Spec table s.stk id s r
        ∧ (∀ err, r.1 = .ok err → 0 ≤ err →
            Spec table s.stk id s (.ok 0, { r.2 with stk := r.2.stk.erase id })) := by
  have hstk : s.stk ⊆ r.2.stk := (Finset.subset_insert id s.stk).trans h.stk
  refine ⟨{ h with stk := hstk }, ?_⟩
  intro err herr hpos
  refine ⟨?_, h.mono, h.fresh, h.inv.setStk _, fun _ h' _ _ => h.loads err h' herr hpos⟩
  intro x hx
  refine Finset.mem_erase.mpr ⟨?_, hstk hx⟩
  rintro rfl
  exact hid hx

theorem Inv.instantiateHandlerAt_spec (env : Env ω π κ) (config : κ) (nv : Bool) (fuel : ℕ)
    : ∀ (id : ℤ) (s : State ω π), Inv table s →
        Spec table s.stk id s (instantiateHandlerAt env table config nv fuel id s) := by
  induction fuel with
  | zero =>
    intro id s hs
    exact hs.unchanged_spec (by simp)
  | succ fuel ih =>
    intro id s hs
    unfold instantiateHandlerAt
    split
    next hmem => exact hs.unchanged_spec fun _ _ _ => hmem
    next hnot =>
      split
      next hstk =>
        refine hs.unchanged_spec ?_
        intro err herr hpos
        cases herr
        omega
      next hstk =>
        have hs' := hs.setStk (insert id s.stk)
        split
        . exact (Spec.enter hstk (hs'.unchanged_spec (by simp))).1
        next handler hget =>
          have hkind := hs'.instantiateKind_spec env config nv ih hget
            (Finset.mem_insert_self id s.stk) hnot
          rw [Finset.erase_insert hstk] at hkind
          obtain ⟨hspec, hdone⟩ := hkind.enter hstk
          obtain ⟨heq, _⟩ | ⟨err, hok, hpos, heq⟩ := andThen_cases
            (instantiateKind env config nv (instantiateHandlerAt env table config nv fuel) id
              { s with stk := insert id s.stk } handler) _
          . rw [heq]
            exact hspec
          . rw [heq]
            exact hdone err hok hpos

end Spec

section Ends

theorem Ends.andThen {r : Result ω π} {rest : State ω π → Result ω π} (h : Ends r)
    (hrest : ∀ err, r.1 = .ok err → 0 ≤ err → Ends (rest r.2))
    : Ends (AttachCtx.andThen r rest) := by
  obtain ⟨heq, _⟩ | ⟨err, hok, hpos, heq⟩ := andThen_cases r rest
  . rw [heq]
    exact h
  . rw [heq]
    exact hrest err hok hpos

def remaining (table : List Handler) (stk : Finset ℤ) : Finset ℤ :=
  (Finset.range table.length).image Int.ofNat \ stk

theorem mem_remaining {stk : Finset ℤ} (hid : Inside table id) (hstk : id ∉ stk)
    : id ∈ remaining table stk := by
  unfold remaining
  rw [Finset.mem_sdiff, Finset.mem_image]
  refine ⟨⟨id.toNat, ?_, Int.toNat_of_nonneg hid.1⟩, hstk⟩
  have := hid.1
  have := hid.2
  rw [Finset.mem_range]
  omega

theorem card_remaining_insert_lt {stk : Finset ℤ} (hid : Inside table id) (hstk : id ∉ stk)
    : (remaining table (insert id stk)).card < (remaining table stk).card := by
  apply Finset.card_lt_card
  rw [Finset.ssubset_iff_of_subset]
  . refine ⟨id, mem_remaining hid hstk, ?_⟩
    simp [remaining]
  . exact Finset.sdiff_subset_sdiff (Finset.Subset.refl _) (Finset.subset_insert id stk)

theorem card_remaining_le (table : List Handler) {stk stk' : Finset ℤ} (h : stk ⊆ stk')
    : (remaining table stk').card ≤ (remaining table stk).card :=
  Finset.card_le_card (Finset.sdiff_subset_sdiff (Finset.Subset.refl _) h)

theorem card_remaining_empty_le : (remaining table ∅).card ≤ table.length := by
  unfold remaining
  rw [Finset.sdiff_empty]
  exact Finset.card_image_le.trans (Finset.card_range _).le

theorem getHandler_of_inside (h : Inside table id)
    : ∃ handler, getHandler table id = some handler := by
  have := h.1
  have := h.2
  unfold getHandler
  rw [if_neg (by omega)]
  exact ⟨_, List.getElem?_eq_getElem (by omega)⟩

theorem mem_of_getHandler {handler : Handler} (h : getHandler table id = some handler)
    : handler ∈ table := by
  unfold getHandler at h
  split at h
  . cases h
  . exact List.mem_of_getElem? h

theorem Inv.instantiateHandlerAt_ends (env : Env ω π κ) (config : κ) (nv : Bool)
    (hinside : LinksInside table) (fuel : ℕ)
    : ∀ (id : ℤ) (s : State ω π), Inv table s → Inside table id →
        (remaining table s.stk).card < fuel →
        Ends (instantiateHandlerAt env table config nv fuel id s) := by
  induction fuel with
  | zero =>
    intro id s _ _ hfuel
    omega
  | succ fuel ih =>
    intro id s hs hid hfuel
    unfold instantiateHandlerAt
    split
    . simp
    next hnot =>
      split
      . simp
      next hstk =>
        have hs' := hs.setStk (insert id s.stk)
        have hfewer := card_remaining_insert_lt hid hstk
        obtain ⟨handler, hget⟩ := getHandler_of_inside hid
        rw [hget]
        refine Ends.andThen ?_ (by simp)
        cases handler with
        | prog h => exact (hs'.prog_leaf hget).ends
        | perfEvent h => exact (hs'.perfEvent_leaf hget).ends
        | link h =>
          obtain ⟨hprog, htarget⟩ := hinside h (mem_of_getHandler hget)
          have hspec := hs'.instantiateHandlerAt_spec env config nv fuel h.progId.toInt
          refine (ih _ _ hs' hprog (by dsimp only; omega)).andThen ?_
          intro err hok hpos
          have hless := card_remaining_le table hspec.stk
          dsimp only at hless
          refine (ih _ _ hspec.inv htarget (by omega)).andThen ?_
          intro err' _ _
          have hspec' := hspec.inv.instantiateHandlerAt_spec env config nv fuel
            h.attachTargetId.toInt
          exact (hspec.link_leaf hspec' hok hpos hget (Finset.mem_insert_self id s.stk) hnot).ends
        | unused | map h | epoll | memfd h => simp [instantiateKind]

theorem inside_of_isAllocated (h : isAllocated table id = true) : Inside table id := by
  unfold isAllocated getHandler at h
  unfold Inside
  split at h
  . cases h
  next handler hget =>
    split at hget
    . cases hget
    . have := (List.getElem?_eq_some_iff.mp hget).1
      omega

theorem Inv.instantiateAll (env : Env ω π κ) (config : κ) (nv : Bool)
    (hinside : LinksInside table) {fuel : ℕ} (hfuel : table.length < fuel) (ids : List ℕ)
    : ∀ s : State ω π, Inv table s →
        Inv table (instantiateAll env table config nv fuel ids s).2
          ∧ Ends (AttachCtx.instantiateAll env table config nv fuel ids s) := by
  induction ids with
  | nil =>
    intro s hs
    exact ⟨hs, ends_ok 0 s⟩
  | cons i is ih =>
    intro s hs
    unfold AttachCtx.instantiateAll
    split
    next hi =>
      have hs' := hs.setStk ∅
      have hspec := hs'.instantiateHandlerAt_spec env config nv fuel i
      have hinv := hspec.inv
      have hends := hs'.instantiateHandlerAt_ends env config nv hinside fuel i _
        (inside_of_isAllocated hi) (card_remaining_empty_le.trans_lt hfuel)
      generalize instantiateHandlerAt env table config nv fuel i { s with stk := ∅ } = r
        at hinv hends
      obtain ⟨res, s₁⟩ := r
      cases res with
      | error e => exact ⟨hinv, hends⟩
      | ok err => exact ih s₁ hinv
    next => exact ih s hs

theorem Inv.init (hinside : LinksInside table) {fuel : ℕ} (hfuel : table.length < fuel)
    (hs : Inv table s)
    : Inv table (initAttachCtxFromHandlers env table config fuel s).2
        ∧ Ends (initAttachCtxFromHandlers env table config fuel s) := by
  unfold initAttachCtxFromHandlers
  dsimp only
  obtain ⟨hinv, hends⟩ := Inv.instantiateAll env config false hinside hfuel
    (List.range (Int32.ofNat table.length).toInt.toNat) s hs
  generalize AttachCtx.instantiateAll env table config false fuel _ s = r at hinv hends
  obtain ⟨res, s₁⟩ := r
  cases res with
  | error e => exact ⟨hinv, hends⟩
  | ok err => exact Inv.instantiateAll env config _ hinside hfuel _ s₁ hinv

end Ends

theorem Inv.initRepeatedly (env : Env ω π κ) (hinside : LinksInside table) {fuel : ℕ}
    (hfuel : table.length < fuel) (configs : List κ)
    : ∀ s : State ω π, Inv table s → Inv table (initRepeatedly env table fuel configs s) := by
  induction configs with
  | nil => exact fun s hs => hs
  | cons config configs ih =>
    intro s hs
    exact ih _ (hs.init hinside hfuel).1

theorem attached_once_after_loaded (env : Env ω π κ) (table : List Handler)
    (hinside : LinksInside table) (fuel : ℕ) (hfuel : table.length < fuel) (configs : List κ)
    (world : ω)
    : (∀ config, Ends (initAttachCtxFromHandlers env table config fuel
          (initRepeatedly env table fuel configs (.start world))))
        ∧ (∀ id,
            (initRepeatedly env table fuel configs (.start world)).trace.count (.attached id) ≤ 1)
        ∧ Ordered table (initRepeatedly env table fuel configs (.start world)).trace := by
  have hs := (inv_start (π := π) world).initRepeatedly env hinside hfuel configs
  exact ⟨fun config => (hs.init hinside hfuel).2, hs.once, hs.ordered⟩

def plainEnv : Env Unit Unit Unit where
  cuda := false
  attachImpls := fun type => if type = BPF_TYPE_UPROBE then some 0 else none
  newProg := fun _ world => (.ok (), world)
  loadProgAndHelpers := fun _ _ world => (.ok 0, world)
  privateDataGen := fun _ _ world => (.ok (some (), 0), world)
  isNvAttachPrivateData := fun _ => false
  setNvProgram := fun _ priv world => (.ok priv, world)
  createAttachWithEbpfCallback := fun _ _ _ _ _ world => (.ok 1, world)

def cyclicTable : List Handler :=
  [.link ⟨2, 1, none⟩, .perfEvent (.uprobe false 0 0 [] 0), .prog ⟨0, [], []⟩, .link ⟨3, 3, none⟩,
    .link ⟨2, 5, none⟩, .link ⟨2, 4, none⟩]

theorem attached_once_after_loaded_cyclic
    : (initRepeatedly plainEnv cyclicTable 7 [(), ()] (.start ())).trace = [.attached 0, .loaded 2]
        ∧ Ordered cyclicTable
            (initRepeatedly plainEnv cyclicTable 7 [(), ()] (.start ())).trace := by
  have hinside : LinksInside cyclicTable := by
    intro h hh
    simp only [cyclicTable, List.mem_cons, Handler.link.injEq, reduceCtorEq, List.not_mem_nil,
      or_false, false_or] at hh
    rcases hh with rfl | rfl | rfl | rfl <;> decide
  refine ⟨by decide, ?_⟩
  exact (attached_once_after_loaded plainEnv cyclicTable hinside 7 (by decide) [(), ()] ()).2.2

end Bpftime.AttachCtx
