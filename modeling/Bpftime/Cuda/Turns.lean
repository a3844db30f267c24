import Bpftime.Cuda.Exchange

/-!
This module contains what the exchange keeps in all runs, also where threads write over the keys and
values of each other: one thread at a time is served, its operation is carried out once on the map
it named, and the result goes back to it; a call that finds its lane idle returns zero unserved.
-/

namespace Bpftime.Cuda.State

variable {η : Type} {h : Host η} {s s' : State η} {op : Op}

def Named (s : State η) : Prop :=
  ∀ (i : ℕ) (e : Execution), s.executed[i]? = some e → ∃ c : Call, s.issued[i]? = some c
    ∧ e.op = c.request.op ∧ e.mapFd = c.request.map.toInt64

theorem Named.step (hn : s.Named) (hs : s.Sound) (hstep : s.step h op = some s') : s'.Named := by
  intro i e he
  rcases hs.executed_step hstep he with he | ⟨c, flags, result, _, hc, rfl⟩
  . exact (hn i e he).imp fun _ hc => ⟨getElem?_of_extends (step_extends hstep).1 hc.1, hc.2⟩
  . exact ⟨c, hc, by simp [execution], by simp [execution]⟩

/-- One thread at a time has the buffer, and every call issued is served. -/
structure TakesTurns (h : Host η) (s : State η) : Prop where
  exclusive : ∀ t u, (s.threads t).critical = true → (s.threads u).critical = true → t = u
  nodup : s.issued.Nodup
  once : s.executed.length ≤ s.issued.length ∧ s.issued.length ≤ s.executed.length + 1
  named : s.Named
  returned : ∀ c v, (c, v) ∈ s.returned → s.Reply c v ∨ (c ∉ s.issued ∧ v = 0)
  served : ∀ c ∈ s.issued, ∀ ops₁ ops₂ s',
    Run.Exec (State.step h) (fun _ _ => True) s (ops₁ ++ ops₂) s' →
    8 ≤ ops₁.countP Op.isWatcher → 36 ≤ ops₂.countP (Op.isThread c.thread) → s'.Answered c

theorem takesTurns_run (h : Host η) (maps : η) (ops : List Op) (s : State η)
    (hrun : Run.Exec (State.step h) (fun _ _ => True) (initial maps) ops s)
    : s.TakesTurns h := by
  have hinv : s.Sound ∧ s.Named := by
    have hinit : (initial maps).Sound ∧ (initial maps).Named :=
      ⟨sound_initial maps, by simp [Named, initial]⟩
    apply hrun.invariant _ hinit
    intro s op s' hs _ hstep
    exact ⟨hs.1.step hstep, hs.2.step hs.1 hstep⟩
  rcases hinv with ⟨hs, hn⟩
  constructor
  . intro t u ht hu
    exact hs.exclusive ht hu
  . exact hs.calls.nodup
  . exact hs.executed_length
  . exact hn
  . exact hs.returned
  . intro c hc ops₁ ops₂ s' hrun' hwatcher hthread
    exact hs.served hc hrun' hwatcher hthread

theorem takesTurns_twoLookups
    : ∃ s, Run.Exec (State.step byteHost) (fun _ _ => True) (initial ()) twoLookups s
        ∧ s.TakesTurns byteHost := by
  have hrun : ∃ s, Run.Exec (State.step byteHost) (fun _ _ => True) (initial ()) twoLookups s := by
    apply Exists.intro
    iterate 52 apply Run.Exec.cons trivial rfl
    apply Run.Exec.nil
  rcases hrun with ⟨s, hrun⟩
  exact ⟨s, hrun, takesTurns_run byteHost () twoLookups s hrun⟩

end Bpftime.Cuda.State
