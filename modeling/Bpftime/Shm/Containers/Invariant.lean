import Bpftime.Data.Run
import Bpftime.Shm.Containers.Lemmas

namespace Bpftime.Shm

namespace ShmState

variable {α ε ρ : Type} {env : Env} {ops : MapOps α ε ρ} {s s' : ShmState α ε} {fd : Int32}

structure Inv (env : Env) (s : ShmState α ε) : Prop where
  ptr_lt : ∀ fd id, s.mapImplPtr fd = some id → id < s.heap.nextId
  container : ∀ fd h o, s.shm.slot? fd = some (.map h) → s.deref fd = some o →
    o.name = h.getContainerName ∧ h.initKind env = .construct

variable {h : BpfMapHandler} {o : Outcome}

theorem Made.deref_other (hm : Made env ops s fd h o s')
    (hinv : Inv env s) {fd' : Int32} (hne : fd' ≠ fd)
    : s'.deref fd' = s.deref fd' := by
  unfold deref
  rw [hm.ptr_eq, hm.heap_eq]
  by_cases hnew : Constructs env s h
  . rw [mapInit_of_constructs hnew.kind hnew.free hnew.accepts]
    simp only [ne_eq, hne, not_false_eq_true, Function.update_of_ne]
    cases hptr : s.mapImplPtr fd' with
    | none => rfl
    | some id =>
      have hlt := hinv.ptr_lt fd' id hptr
      simp only [Option.bind_some, NamedHeap.get?_construct]
      rw [if_neg (by omega)]
  . rw [mapInit_of_not_constructs hnew]
    simp only [ne_eq, hne, not_false_eq_true, Function.update_of_ne]

theorem inv_construct (maxFdCount : Nat) (ext : Extern → ε)
    : Inv env (construct maxFdCount ext : ShmState α ε) := by
  constructor
  . simp [construct]
  . simp [construct, deref]

theorem Inv.cleared (hinv : Inv env s) (hc : Cleared env ops s fd s') : Inv env s' := by
  constructor
  . intro fd' id hptr
    rw [hc.nextId_eq]
    exact hinv.ptr_lt fd' id (hc.ptr_of_some fd' id hptr)
  . intro fd' h o hslot hderef
    by_cases hfd : fd' = fd
    . rw [hfd, hc.slot_self] at hslot
      simp at hslot
    . rw [hc.deref_other fd' hfd, Option.filter_eq_some_iff] at hderef
      exact hinv.container fd' h o ((hc.slot_other fd' h hfd).mp hslot) hderef.1

theorem Inv.made (hinv : Inv env s) (hm : Made env ops s fd h o s') : Inv env s' := by
  constructor
  . intro fd' id hptr
    rw [hm.ptr_eq] at hptr
    rw [hm.heap_eq]
    by_cases hnew : Constructs env s h
    . rw [mapInit_of_constructs hnew.kind hnew.free hnew.accepts] at hptr ⊢
      change id < s.heap.nextId + 1
      dsimp only at hptr
      by_cases hfd : fd' = fd
      . rw [hfd, Function.update_self] at hptr
        cases hptr
        exact Nat.lt_succ_self _
      . rw [Function.update_of_ne hfd] at hptr
        exact Nat.lt_succ_of_lt (hinv.ptr_lt fd' id hptr)
    . rw [mapInit_of_not_constructs hnew] at hptr ⊢
      dsimp only at hptr
      by_cases hfd : fd' = fd
      . rw [hfd, Function.update_self] at hptr
        simp at hptr
      . rw [Function.update_of_ne hfd] at hptr
        exact hinv.ptr_lt fd' id hptr
  . intro fd' h' o' hslot hderef
    by_cases hfd : fd' = fd
    . subst hfd
      rw [hm.slot_self] at hslot
      cases hslot
      by_cases hnew : Constructs env s h
      . rw [hm.deref_of_constructs hnew] at hderef
        cases hderef
        exact ⟨rfl, hnew.kind⟩
      . rw [hm.deref_of_not_constructs hnew] at hderef
        simp at hderef
    . rw [hm.slot_other fd' hfd] at hslot
      rw [hm.deref_other hinv hfd] at hderef
      exact hinv.container fd' h' o' hslot hderef

theorem Inv.replaceByMap (hinv : Inv env s) (hrep : s.replaceByMap env ops fd h = some (o, s'))
    : Inv env s' := by
  rcases replaceByMap_steps hrep with ⟨t, hc, hm⟩
  exact (hinv.cleared hc).made hm

theorem deref_put (id : Nat) (contents : α) (fd' : Int32)
    : ({ s with heap := s.heap.put id contents } : ShmState α ε).deref fd'
        =
      (s.deref fd').map (NamedHeap.Object.put id contents) := by
  unfold deref
  cases s.mapImplPtr fd' with
  | none => rfl
  | some id' => exact s.heap.get?_put id contents id'

theorem shm_put (id : Nat) (contents : α)
    : ({ s with heap := s.heap.put id contents } : ShmState α ε).shm = s.shm := by
  unfold shm
  rw [NamedHeap.names_put]

theorem Inv.put (hinv : Inv env s) (id : Nat) (contents : α)
    : Inv env { s with heap := s.heap.put id contents } := by
  constructor
  . exact hinv.ptr_lt
  . intro fd' h o hslot hderef
    rw [shm_put] at hslot
    rw [deref_put] at hderef
    rcases Option.map_eq_some_iff.mp hderef with ⟨o', ho', rfl⟩
    rw [NamedHeap.Object.name_put]
    exact hinv.container fd' h o' hslot ho'

theorem call_of_not_onMaps {op : Op} (hop : ¬ op.OnMaps) : s.call env ops op
        =
      (s.shm.call env op).map fun r => (r.1, { s with handlers := r.2.handlers }) := by
  cases op with
  | closeFd | addBpfMap | dupBpfMap => exact absurd trivial hop
  | _ => rfl

theorem shm_of_mapsKept {shm : BpftimeShm} (hkept : BpftimeShm.MapsKept s.shm shm)
    : shm = ({ s with handlers := shm.handlers } : ShmState α ε).shm := by
  change shm = ⟨shm.handlers, s.shm.segment⟩
  rw [← hkept.segment_eq]

theorem Inv.call {op : Op} (hinv : Inv env s) (hcall : s.call env ops op = some (o, s'))
    : Inv env s' := by
  by_cases hop : op.OnMaps
  . cases op with
    | closeFd fd =>
      rcases Option.map_eq_some_iff.mp hcall with ⟨t, hclear, heq⟩
      cases heq
      cases hslot : s.shm.slot? fd with
      | none =>
        rw [clearIdAt_of_outside hslot] at hclear
        cases hclear
        exact hinv
      | some handler => exact hinv.cleared (clearIdAt_cleared hslot hclear)
    | addBpfMap fake fd name attr => exact hinv.replaceByMap hcall
    | dupBpfMap fake oldfd newfd =>
      dsimp only [ShmState.call, ShmState.dupBpfMap] at hcall
      split at hcall
      . split at hcall
        . simp at hcall
        . exact hinv.replaceByMap hcall
      . cases hcall
        exact hinv
    | _ => exact absurd hop id
  . rw [call_of_not_onMaps hop] at hcall
    rcases Option.map_eq_some_iff.mp hcall with ⟨⟨o', shm⟩, hshm, heq⟩
    cases heq
    have hkept := BpftimeShm.mapsKept_call hop hshm
    constructor
    . exact hinv.ptr_lt
    . intro fd' h o' hslot hderef
      rw [← shm_of_mapsKept hkept, hkept.slot_iff] at hslot
      exact hinv.container fd' h o' hslot hderef

theorem access_cases {cmd : Cmd} {r : ρ} (haccess : s.access env ops fd cmd = some (r, s'))
    : (∃ id contents, s' = { s with heap := s.heap.put id contents }) ∨ ∃ ext, s' = { s with ext } := by
  unfold access at haccess
  split at haccess
  . split at haccess
    . split at haccess
      . simp at haccess
      . cases haccess
        exact .inl ⟨_, _, rfl⟩
    . split at haccess
      . simp at haccess
      . cases haccess
        exact .inr ⟨_, rfl⟩
    . split at haccess
      . cases haccess
        exact .inr ⟨_, rfl⟩
      . simp at haccess
  . simp at haccess

theorem Inv.access {cmd : Cmd} {r : ρ} (hinv : Inv env s)
    (haccess : s.access env ops fd cmd = some (r, s'))
    : Inv env s' := by
  rcases access_cases haccess with ⟨id, contents, rfl⟩ | ⟨ext, rfl⟩
  . exact hinv.put id contents
  . exact ⟨hinv.ptr_lt, hinv.container⟩

theorem Inv.step {op : RunOp} (hinv : Inv env s) (hstep : s.step env ops op = some s')
    : Inv env s' := by
  cases op with
  | table op =>
    rcases Option.map_eq_some_iff.mp hstep with ⟨⟨o, t⟩, hcall, rfl⟩
    exact hinv.call hcall
  | access fd cmd =>
    rcases Option.map_eq_some_iff.mp hstep with ⟨⟨r, t⟩, haccess, rfl⟩
    exact hinv.access haccess

theorem inv_run {maxFdCount : Nat} {ext : Extern → ε} {history : List RunOp}
    (hrun : Run.Exec (step env ops) (fun _ _ => True) (construct maxFdCount ext) history s)
    : Inv env s := by
  refine hrun.invariant ?_ (inv_construct maxFdCount ext)
  intro t op t' ht _ hstep
  exact ht.step hstep

theorem shm_clearIdAt (ops : MapOps α ε ρ) (s : ShmState α ε) (fd : Int32)
    : (s.clearIdAt env ops fd).map shm = s.shm.clearIdAt env fd := by
  cases hslot : s.shm.slot? fd with
  | none =>
    rw [clearIdAt_of_outside hslot, BpftimeShm.clearIdAt_of_outside hslot]
    rfl
  | some handler =>
    cases hclear : s.clearIdAt env ops fd with
    | some s' => exact (clearIdAt_cleared hslot hclear).shm_eq.symm
    | none =>
      have hundefined : ¬ ∃ shm, s.shm.clearIdAt env fd = some shm := by
        rw [BpftimeShm.clearIdAt_defined env hslot]
        intro hdefined
        have : s.FreeDefined env fd := by
          intro hm hmap
          rw [hslot] at hmap
          exact hdefined hm (Option.some.inj hmap)
        rcases (clearIdAt_defined ops hslot).mpr this with ⟨s', hs'⟩
        rw [hclear] at hs'
        simp at hs'
      cases hshm : s.shm.clearIdAt env fd with
      | none => rfl
      | some shm => exact absurd ⟨shm, hshm⟩ hundefined

theorem shm_setMap (hslot : s.shm.slot? fd = some .unused)
    : (s.setMap env ops fd h).map (fun r => (r.1, r.2.shm)) = s.shm.setHandler env fd (.map h) := by
  cases hset : s.setMap env ops fd h with
  | some r => exact (setMap_made hslot hset).shm_eq.symm
  | none =>
    rw [setMap_of_free hslot, Option.map_eq_none_iff] at hset
    rw [hset]
    rfl

theorem shm_replaceByMap (s : ShmState α ε) (fd : Int32) (h : BpfMapHandler)
    : (s.replaceByMap env ops fd h).map (fun r => (r.1, r.2.shm)) = s.shm.replaceByMap env fd h := by
  cases hslot : s.shm.slot? fd with
  | none => simp [replaceByMap, BpftimeShm.replaceByMap, hslot]
  | some handler =>
    rw [replaceByMap_eq hslot, BpftimeShm.replaceByMap_eq env hslot, ← shm_clearIdAt ops]
    cases hclear : s.clearIdAt env ops fd with
    | none => rfl
    | some t => exact shm_setMap (clearIdAt_cleared hslot hclear).slot_self

theorem shm_call (s : ShmState α ε) (op : Op)
    : (s.call env ops op).map (fun r => (r.1, r.2.shm)) = s.shm.call env op := by
  by_cases hop : op.OnMaps
  . cases op with
    | closeFd fd =>
      simp only [call, BpftimeShm.call, BpftimeShm.closeFd, ← shm_clearIdAt ops, Option.map_map]
      rfl
    | addBpfMap fake fd name attr => exact shm_replaceByMap s _ _
    | dupBpfMap fake oldfd newfd =>
      dsimp only [call, BpftimeShm.call]
      unfold dupBpfMap BpftimeShm.dupBpfMap
      cases s.shm.slot? oldfd with
      | none => rfl
      | some handler =>
        cases handler with
        | map h =>
          dsimp only
          split
          . rfl
          . exact shm_replaceByMap s _ _
        | _ => rfl
    | _ => exact absurd hop id
  . rw [call_of_not_onMaps hop]
    cases hcall : s.shm.call env op with
    | none => rfl
    | some r =>
      have hkept := BpftimeShm.mapsKept_call hop hcall
      simp only [Option.map_some, ← shm_of_mapsKept hkept]

theorem shm_access {cmd : Cmd} {r : ρ} (haccess : s.access env ops fd cmd = some (r, s'))
    : s'.shm = s.shm := by
  rcases access_cases haccess with ⟨id, contents, rfl⟩ | ⟨ext, rfl⟩
  . exact shm_put id contents
  . rfl

def RunOp.tableOp : RunOp → Option Op
  | .table op => some op
  | .access _ _ => none

theorem shm_run {history : List RunOp}
    (hrun : Run.Exec (step env ops) (fun _ _ => True) s history s')
    : Run.Exec (BpftimeShm.step env) (fun _ _ => True) s.shm (history.filterMap RunOp.tableOp)
        s'.shm := by
  apply hrun.project
  . intro t op t' hstep hop
    cases op with
    | table op => simp [RunOp.tableOp] at hop
    | access fd cmd =>
      rcases Option.map_eq_some_iff.mp hstep with ⟨r, haccess, rfl⟩
      exact shm_access haccess
  . intro t op t' op' hstep hop
    cases op with
    | table op =>
      cases hop
      rcases Option.map_eq_some_iff.mp hstep with ⟨r, hcall, rfl⟩
      unfold BpftimeShm.step
      rw [← @shm_call _ _ _ env ops, hcall]
      rfl
    | access fd cmd => simp [RunOp.tableOp] at hop

end ShmState

end Bpftime.Shm
