import Bpftime.Epoll.Wait

namespace Bpftime.Epoll

section loop

variable {w : World} {maxEvt timeout : Int} {orig sigmask : SigSet} {fuel i : Nat}
variable {outEvts : List EpollEvent} {res : Returned}

theorem sigmask_waitLoop (htimeout : timeout ≠ 0)
    (h : waitLoop w maxEvt timeout orig fuel i outEvts sigmask = some res)
    : res.sigmask = orig := by
  induction fuel generalizing i outEvts sigmask with
  | zero => simp [waitLoop] at h
  | succ fuel ih =>
    unfold waitLoop at h
    split at h
    . split at h
      . cases h
        rfl
      . dsimp only at h
        split at h
        . exact ih h
        . split at h
          . cases h
            rfl
          . exact ih h
    . cases h
      rfl

theorem waitLoop_of_zero (hroom : outEvts.length < maxEvt)
    : waitLoop w maxEvt 0 orig (fuel + 1) i outEvts sigmask
        =
      some ⟨0, none, outEvts, sigmask, none⟩ := by
  unfold waitLoop
  rw [if_pos hroom, if_pos rfl]

theorem exists_waitLoop_eq_some (htimeout : 0 < timeout) {n : Nat}
    (hlate : timeout < (w.moment (i + n)).elapsed)
    : ∃ res, waitLoop w maxEvt timeout orig (n + 1) i outEvts sigmask = some res := by
  induction n generalizing i outEvts sigmask with
  | zero =>
    by_cases hroom : outEvts.length < maxEvt
    . exact ⟨_, waitLoop_of_late hroom htimeout hlate⟩
    . exact ⟨_, waitLoop_of_full hroom⟩
  | succ n ih =>
    have hlate' : timeout < (w.moment (i + 1 + n)).elapsed := by
      rw [Nat.add_assoc, Nat.add_comm 1 n]
      exact hlate
    rw [waitLoop]
    split
    . rw [if_neg (by omega)]
      split
      . exact ⟨_, rfl⟩
      . dsimp only
        split
        . exact ih hlate'
        . split
          . exact ⟨_, rfl⟩
          . exact ih hlate'
    . exact ⟨_, rfl⟩

end loop

theorem block_eq_self_iff (mask set : SigSet)
    : mask.block set = mask ↔ ∀ sig, set sig = true → mask sig = true := by
  unfold SigSet.block
  rw [funext_iff]
  constructor
  . intro h sig hset
    have hsig := h sig
    rw [hset, Bool.or_true] at hsig
    exact hsig.symm
  . intro h sig
    cases hset : set sig with
    | false => exact Bool.or_false _
    | true => rw [h sig hset, Bool.or_true]

theorem toBlock_subset_iff (mask : SigSet)
    : (∀ sig, toBlock sig = true → mask sig = true) ↔ mask SIGINT = true ∧ mask SIGTERM = true := by
  unfold toBlock
  simp only [Bool.or_eq_true, decide_eq_true_eq]
  constructor
  . intro h
    exact ⟨h SIGINT (Or.inl rfl), h SIGTERM (Or.inr rfl)⟩
  . rintro ⟨hint, hterm⟩ sig (rfl | rfl)
    . exact hint
    . exact hterm

/-- Every return leaves the caller its signal mask. -/
def RestoresMask (shm : Shm.BpftimeShm) (w : World) (sigmask : SigSet) (fd : Int32)
    (maxEvt timeout : Int) : Prop :=
  ∀ fuel res, bpftimeEpollWait shm w sigmask fd maxEvt timeout fuel = some res →
    res.sigmask = sigmask

def ReturnsAtOnce (shm : Shm.BpftimeShm) (w : World) (fd : Int32) (maxEvt timeout : Int) : Prop :=
  isEpollFd shm fd = true ∧ w.blocks = true ∧ timeout = 0 ∧ 0 < maxEvt

theorem sigmask_epollWait {shm : Shm.BpftimeShm} {w : World} {sigmask : SigSet} {fd : Int32}
    {maxEvt timeout : Int} {fuel : Nat} {res : Returned}
    (hreturns : ¬ ReturnsAtOnce shm w fd maxEvt timeout)
    (h : bpftimeEpollWait shm w sigmask fd maxEvt timeout fuel = some res)
    : res.sigmask = sigmask := by
  unfold bpftimeEpollWait at h
  split at h
  . cases h
    rfl
  . split at h
    . cases h
      rfl
    . next hfd =>
      split at h
      . cases h
        rfl
      . next hblocks =>
        by_cases htimeout : timeout = 0
        . have hfull : ¬ (([] : List EpollEvent).length : Int) < maxEvt := by
            intro hmax
            exact hreturns ⟨by simpa using hfd, by simpa using hblocks, htimeout, hmax⟩
          cases fuel with
          | zero => simp [waitLoop] at h
          | succ fuel =>
            rw [waitLoop_of_full hfull] at h
            cases h
            rfl
        . exact sigmask_waitLoop htimeout h

theorem epollWait_of_returnsAtOnce {shm : Shm.BpftimeShm} {w : World} {fd : Int32}
    {maxEvt timeout : Int} (h : ReturnsAtOnce shm w fd maxEvt timeout) (sigmask : SigSet)
    (fuel : Nat)
    : bpftimeEpollWait shm w sigmask fd maxEvt timeout (fuel + 1)
        =
      some ⟨0, none, [], sigmask.block toBlock, none⟩ := by
  rcases h with ⟨hfd, hblocks, rfl, hmax⟩
  unfold bpftimeEpollWait
  rw [if_neg (by decide), if_neg (by simp [hfd]), if_neg (by simp [hblocks])]
  exact waitLoop_of_zero hmax

theorem restoresMask_iff (shm : Shm.BpftimeShm) (w : World) (sigmask : SigSet) (fd : Int32)
    (maxEvt timeout : Int)
    : RestoresMask shm w sigmask fd maxEvt timeout
        ↔
      (ReturnsAtOnce shm w fd maxEvt timeout → sigmask SIGINT = true ∧ sigmask SIGTERM = true) := by
  rw [← toBlock_subset_iff, ← block_eq_self_iff]
  constructor
  . intro h hreturns
    exact h 1 _ (epollWait_of_returnsAtOnce hreturns sigmask 0)
  . intro h fuel res hres
    by_cases hreturns : ReturnsAtOnce shm w fd maxEvt timeout
    . cases fuel with
      | zero =>
        rcases hreturns with ⟨hfd, hblocks, rfl, -⟩
        unfold bpftimeEpollWait at hres
        rw [if_neg (by decide), if_neg (by simp [hfd]), if_neg (by simp [hblocks])] at hres
        simp [waitLoop] at hres
      | succ fuel =>
        rw [epollWait_of_returnsAtOnce hreturns] at hres
        cases hres
        exact h hreturns
    . exact sigmask_epollWait hreturns hres

theorem not_restoresMask_poll : bpftimeEpollWait oneEpoll (steadyWorld 1) (fun _ => false) 0 1 0 1
          = some ⟨0, none, [], toBlock, none⟩
        ∧ ¬ RestoresMask oneEpoll (steadyWorld 1) (fun _ => false) 0 1 0 := by
  have hpoll : bpftimeEpollWait oneEpoll (steadyWorld 1) (fun _ => false) 0 1 0 1
      = some ⟨0, none, [], toBlock, none⟩ := rfl
  refine ⟨hpoll, ?_⟩
  intro h
  have hint := congrFun (h 1 _ hpoll) SIGINT
  exact absurd hint (by decide)

theorem exists_epollWait_eq_some (shm : Shm.BpftimeShm) (w : World) (sigmask : SigSet) (fd : Int32)
    (maxEvt timeout : Int) (htimeout : 0 < timeout) (hlate : ∃ i, timeout < (w.moment i).elapsed)
    : ∃ fuel res, bpftimeEpollWait shm w sigmask fd maxEvt timeout fuel = some res := by
  rcases hlate with ⟨n, hlate⟩
  refine ⟨n + 1, ?_⟩
  unfold bpftimeEpollWait
  split
  . exact ⟨_, rfl⟩
  . split
    . exact ⟨_, rfl⟩
    . split
      . exact ⟨_, rfl⟩
      . apply exists_waitLoop_eq_some htimeout
        rw [Nat.zero_add]
        exact hlate

theorem exists_epollWait_oneEpoll : (0 : Int) < 10 ∧ ∃ fuel res,
      bpftimeEpollWait oneEpoll (steadyWorld 1) (fun _ => false) 0 5 10 fuel = some res :=
  ⟨by decide, exists_epollWait_eq_some _ _ _ 0 5 10 (by decide) ⟨11, by decide⟩⟩

end Bpftime.Epoll
