import Bpftime.Shm.Containers.Lemmas
import Bpftime.Shm.Links

/-!
This module contains the proof that no map whose `map_init` fails is rejected: the handler is in its
slot before `map_init` is called, and the result of the call is not looked at.
-/

namespace Bpftime.Shm

namespace BpfMapHandler

/-- `map_init` throws or returns a negative value. -/
def InitFails (env : Env) (h : BpfMapHandler) (memory : Memory) : Prop :=
  ∃ o memory', h.mapInit env memory = some (o, memory') ∧
    (o = .thrown ∨ ∃ r errno, o = .ret r errno ∧ r < 0)

/-- `map_init` succeeds. -/
def Initialises (env : Env) (h : BpfMapHandler) (memory : Memory) : Prop :=
  match h.initKind env with
  | .construct => h.getContainerName ∉ memory ∧ h.constructorAccepts env = true
  | .refuse => False
  | .nonBuiltin =>
    env.allowNonBuildinMapTypes = true ∧
      (h.hasOps = true → 0 ≤ (env.allocMap h.attr.type h.name h.attr).getD 0)

theorem initFails_iff {env : Env} {h : BpfMapHandler} {memory : Memory}
    : h.InitFails env memory ↔ ¬ h.Initialises env memory := by
  unfold InitFails Initialises mapInit
  cases h.initKind env with
  | construct =>
    simp only [Option.some.injEq, construct]
    by_cases hmem : h.getContainerName ∈ memory
    . simp [hmem]
    . cases h.constructorAccepts env with
      | true | false => simp [hmem]
  | refuse => simp
  | nonBuiltin =>
    unfold initNonBuiltin
    cases env.allowNonBuildinMapTypes with
    | false => simp
    | true =>
      cases h.hasOps with
      | false => simp
      | true => simp [Int32.not_le]

end BpfMapHandler

namespace BpftimeShm

variable {env : Env} {s s' : BpftimeShm} {fd : Int32} {h : BpfMapHandler}

/-- The call returns a negative value and leaves every slot as it is. -/
def Rejected (s : BpftimeShm) (out : Option (Outcome × BpftimeShm)) : Prop :=
  ∃ r errno s', out = some (.ret r errno, s') ∧ r < 0 ∧ s'.handlers = s.handlers

theorem setHandler_of_initFails (hfree : s.slot? fd = some .unused)
    (hfails : h.InitFails env s.segment)
    : ∃ o s', s.setHandler env fd (.map h) = some (o, s') ∧ (o = .thrown ∨ o = .ret fd none) ∧
        s'.slot? fd = some (.map h) := by
  rcases hfails with ⟨o, memory, hinit, -⟩
  rw [setHandler_map_of_free hfree, hinit]
  refine ⟨_, _, rfl, ?_, ?_⟩
  . split
    . exact .inl rfl
    . exact .inr rfl
  . have hself : (s.setSlot fd (.map h)).slot? fd = _ := slot?_setSlot hfree fd
    rw [if_pos rfl] at hself
    exact hself

theorem not_rejected_of_initFails (hfree : s.slot? fd = some .unused)
    (hfails : h.InitFails env s.segment)
    : ¬ Rejected s (s.setHandler env fd (.map h)) := by
  intro ⟨r, errno, s', hset, _, hsame⟩
  rcases setHandler_of_initFails hfree hfails with ⟨o, t, hset', -, hslot⟩
  rw [hset] at hset'
  cases hset'
  rw [slot?_congr hsame, hfree] at hslot
  simp at hslot

theorem rejected_iff (env : Env) (s : BpftimeShm) (fd fake : Int32)
    (h : BpfMapHandler) (hfree : s.slot? fd = some .unused)
    : (h.InitFails env s.segment →
          Rejected s (s.setHandler env fd (.map h)) ∧
            Rejected s (s.call env (.addBpfMap fake fd h.name h.attr)))
        ↔
      h.Initialises env s.segment := by
  constructor
  . intro hrejects
    by_contra hnot
    have hfails := BpfMapHandler.initFails_iff.mpr hnot
    exact not_rejected_of_initFails hfree hfails (hrejects hfails).1
  . intro hinit hfails
    exact absurd hinit (BpfMapHandler.initFails_iff.mp hfails)

def smallHash : BpfMapHandler where
  name := [109]
  attr := { type := 1, keySize := 4, valueSize := 4, maxEnts := 2 }

theorem rejected_iff_smallHash : smallHash.Initialises plainEnv [] ∧
        (smallHash.InitFails plainEnv [] →
          Rejected (construct 2) ((construct 2).setHandler plainEnv 1 (.map smallHash)) ∧
            Rejected (construct 2)
              ((construct 2).call plainEnv (.addBpfMap 9 1 smallHash.name smallHash.attr))) := by
  have hinit : smallHash.Initialises plainEnv [] := by
    exact ⟨List.not_mem_nil, rfl⟩
  exact ⟨hinit, (rejected_iff plainEnv (construct 2) 1 9 smallHash rfl).mpr hinit⟩

def oddRing : BpfMapHandler where
  name := [109]
  attr := { type := 27, maxEnts := 3 }

theorem not_rejected_oddRing : oddRing.InitFails plainEnv [] ∧
        (construct 2).setHandler plainEnv 1 (.map oddRing)
          = some (.ret 1 none, ⟨[.unused, .map oddRing], []⟩) ∧
        ¬ Rejected (construct 2) ((construct 2).setHandler plainEnv 1 (.map oddRing)) := by
  have hfails : oddRing.InitFails plainEnv [] :=
    ⟨.ret (-1) none, [], rfl, .inr ⟨-1, none, rfl, by decide⟩⟩
  exact ⟨hfails, rfl, not_rejected_of_initFails rfl hfails⟩

end BpftimeShm

end Bpftime.Shm
