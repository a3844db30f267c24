import Bpftime.Shm.Links

namespace Bpftime.Shm

namespace BpftimeShm

/-- The slot returned has the handler asked for, or nothing changed. -/
def PutsRequested (s : BpftimeShm) (requested : Handler) (result : Option (Outcome × BpftimeShm))
    : Prop :=
  ∃ r errno s', result = some (.ret r errno, s') ∧
    if 0 ≤ r then s'.slot? r = some requested else s' = s

def Available (s : BpftimeShm) (fd : Int32) (requested : Handler) : Prop :=
  s.slot? fd = some .unused ∨ s.slot? fd = some requested

variable {env : Env} {s : BpftimeShm} {fake : Int32} {requested : Handler}

theorem putsRequested_ret_iff {r : Int32} {errno : Option Errno} {s' : BpftimeShm}
    : s.PutsRequested requested (some (.ret r errno, s'))
        ↔
      if 0 ≤ r then s'.slot? r = some requested else s' = s := by
  constructor
  . intro ⟨_, _, _, heq, h⟩
    cases heq
    exact h
  . intro h
    exact ⟨r, errno, s', rfl, h⟩

theorem putsRequested_of_neg {r : Int32} {errno : Option Errno} (h : r < 0)
    : s.PutsRequested requested (some (.ret r errno, s)) := by
  rw [putsRequested_ret_iff, if_neg (Int32.not_le.mpr h)]

theorem putsRequested_setHandler_iff (hfake : ¬ fake < 0) (hunused : requested.kind ≠ .unused)
    (hmap : requested.kind ≠ .map)
    : s.PutsRequested requested
          ((s.setHandler env fake requested).map fun (_, s) => (.ret fake none, s))
        ↔
      s.Available fake requested := by
  have hle : 0 ≤ fake := Int32.not_lt.mp hfake
  unfold Available
  cases hslot : s.slot? fake with
  | none =>
    rw [setHandler_of_outside hslot hunused]
    simp [PutsRequested]
  | some handler =>
    by_cases hfree : handler = .unused
    . rw [hfree] at hslot
      rw [setHandler_of_free hslot hunused hmap, Option.map_some, putsRequested_ret_iff]
      rw [if_pos hle, slot?_setSlot hslot]
      simp [hfree]
    . have hkind : handler.kind ≠ .unused := fun h => hfree (Handler.kind_eq_unused.mp h)
      rw [setHandler_of_taken hslot hkind, Option.map_some, putsRequested_ret_iff]
      rw [if_pos hle, hslot]
      simp [hfree]

theorem addCustomPerfEvent_eq {type : Int32} {attachArgument : CString}
    : s.addCustomPerfEvent env fake type attachArgument
        =
      if fake < 0 then
        some (.ret fake none, s)
      else
        (s.setHandler env fake (.perfEvent (.custom type attachArgument))).map
          fun (_, s) => (.ret fake none, s) := by
  unfold addCustomPerfEvent
  split
  . rfl
  . cases s.setHandler env fake (.perfEvent (.custom type attachArgument)) with
    | none => rfl
    | some out => rfl

theorem attachPerfToBpf_eq {perfFd bpfFd : Int32} {cookie : Option UInt64}
    (h : s.isPerfFd perfFd ∧ s.isProgFd bpfFd ∧ ¬ fake < 0)
    : s.attachPerfToBpf env fake perfFd bpfFd cookie
        =
      (s.setHandler env fake (.link ⟨bpfFd, perfFd, cookie⟩)).map
        fun (_, s) => (.ret fake none, s) := by
  unfold attachPerfToBpf addBpfProgAttachTarget
  rw [if_pos h.1, if_pos h.2.1, if_neg h.2.2]
  cases s.setHandler env fake (.link ⟨bpfFd, perfFd, cookie⟩) with
  | none => rfl
  | some out => rfl

theorem attachPerfToBpf_of_refused (env : Env) {perfFd bpfFd : Int32} (cookie : Option UInt64)
    (h : ¬ (s.isPerfFd perfFd ∧ s.isProgFd bpfFd ∧ ¬ fake < 0))
    : ∃ r errno,
        s.attachPerfToBpf env fake perfFd bpfFd cookie = some (.ret r errno, s) ∧ r < 0 := by
  unfold attachPerfToBpf addBpfProgAttachTarget
  split
  next hperf =>
    split
    next hprog =>
      split
      . exact ⟨_, _, rfl, by decide⟩
      next hneg => exact absurd ⟨hperf, hprog, hneg⟩ h
    . exact ⟨_, _, rfl, by decide⟩
  . exact ⟨_, _, rfl, by decide⟩

theorem putsRequested_iff (env : Env) (s : BpftimeShm) (fake : Int32) : (∀ perfFd bpfFd cookie,
        s.PutsRequested (.link ⟨bpfFd, perfFd, cookie⟩)
            (s.attachPerfToBpf env fake perfFd bpfFd cookie)
          ↔
        (s.isPerfFd perfFd ∧ s.isProgFd bpfFd ∧ ¬ fake < 0 →
          s.Available fake (.link ⟨bpfFd, perfFd, cookie⟩)))
        ∧
      (∀ type attachArgument,
        s.PutsRequested (.perfEvent (.custom type attachArgument))
            (s.addCustomPerfEvent env fake type attachArgument)
          ↔
        (¬ fake < 0 → s.Available fake (.perfEvent (.custom type attachArgument)))) := by
  constructor
  . intro perfFd bpfFd cookie
    by_cases h : s.isPerfFd perfFd ∧ s.isProgFd bpfFd ∧ ¬ fake < 0
    . rw [attachPerfToBpf_eq h]
      rw [putsRequested_setHandler_iff h.2.2 (by simp [Handler.kind]) (by simp [Handler.kind])]
      exact ⟨fun havailable _ => havailable, fun havailable => havailable h⟩
    . rcases attachPerfToBpf_of_refused env cookie h with ⟨r, errno, heq, hr⟩
      rw [heq]
      exact ⟨fun _ hgranted => absurd hgranted h, fun _ => putsRequested_of_neg hr⟩
  . intro type attachArgument
    rw [addCustomPerfEvent_eq]
    split
    next hneg => exact ⟨fun _ h => absurd hneg h, fun _ => putsRequested_of_neg hneg⟩
    next hneg =>
      rw [putsRequested_setHandler_iff hneg (by simp [Handler.kind]) (by simp [Handler.kind])]
      exact ⟨fun havailable _ => havailable, fun havailable => havailable hneg⟩

def collision : BpftimeShm where
  handlers := [.unused, .unused, .unused, .prog ⟨0, [], []⟩, .perfEvent (.tracepoint 1 2)]
  segment := []

theorem collision_returns_taken
    : collision.attachPerfToBpf plainEnv 3 4 3 none = some (.ret 3 none, collision)
        ∧ collision.addCustomPerfEvent plainEnv 3 9 [] = some (.ret 3 none, collision)
        ∧ ¬ collision.PutsRequested (.link ⟨3, 4, none⟩)
              (collision.attachPerfToBpf plainEnv 3 4 3 none)
        ∧ ¬ collision.PutsRequested (.perfEvent (.custom 9 []))
              (collision.addCustomPerfEvent plainEnv 3 9 []) := by
  have hattach : collision.attachPerfToBpf plainEnv 3 4 3 none = some (.ret 3 none, collision) := by
    rfl
  have hcustom : collision.addCustomPerfEvent plainEnv 3 9 [] = some (.ret 3 none, collision) := rfl
  refine ⟨hattach, hcustom, ?_, ?_⟩
  . rw [hattach, putsRequested_ret_iff, if_pos (by decide)]
    simp [collision, slot?]
  . rw [hcustom, putsRequested_ret_iff, if_pos (by decide)]
    simp [collision, slot?]

end BpftimeShm

end Bpftime.Shm
