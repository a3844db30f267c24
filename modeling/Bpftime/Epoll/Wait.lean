import Bpftime.Epoll.Impl
import Mathlib.Data.List.Perm.Subperm

namespace Bpftime.Epoll

def readyEvents (files : List EpollFile) : List EpollEvent :=
  (files.filter (fun f => f.file.hasData)).map EpollFile.event

theorem scan_eq (maxEvt : Int) (files : List EpollFile) (outEvts : List EpollEvent)
    : scan maxEvt files outEvts
        =
      outEvts ++ (readyEvents files).take (maxEvt.toNat - outEvts.length) := by
  induction files generalizing outEvts with
  | nil => simp [scan, readyEvents]
  | cons f files ih =>
    have hcons : scan maxEvt (f :: files) outEvts = scan maxEvt files (scanFile maxEvt outEvts f) := rfl
    rw [hcons, ih]
    unfold scanFile
    split
    . next h =>
      have hleft : maxEvt.toNat - outEvts.length
          = maxEvt.toNat - (outEvts ++ [f.event]).length + 1 := by
        simp only [List.length_append, List.length_cons, List.length_nil]
        omega
      rw [hleft]
      simp [readyEvents, h.1]
    . next h =>
      cases hdata : f.file.hasData with
      | false => simp [readyEvents, hdata]
      | true =>
        -- the array is full
        have hfull : maxEvt.toNat - outEvts.length = 0 := by
          simp only [hdata, true_and] at h
          omega
        simp [hfull]

theorem length_scan (maxEvt : Int) (files : List EpollFile) (outEvts : List EpollEvent)
    : (scan maxEvt files outEvts).length
        =
      outEvts.length + min (maxEvt.toNat - outEvts.length) (readyEvents files).length := by
  rw [scan_eq]
  simp

def EpollFile.view (f : EpollFile) : Bool × UInt64 := (f.file.hasData, f.data)

theorem readyEvents_eq (files : List EpollFile) : readyEvents files
        =
      ((files.map EpollFile.view).filter (fun v => v.1)).map (fun v => ⟨EPOLLIN, v.2⟩) := by
  rw [List.filter_map, List.map_map]
  rfl

def Steady (w : World) (files : List EpollFile) : Prop :=
  ∀ i, (w.moment i).files.map EpollFile.view = files.map EpollFile.view

theorem Steady.readyEvents_eq {w : World} {files : List EpollFile} (h : Steady w files) (i : Nat)
    : readyEvents (w.moment i).files = readyEvents files := by
  rw [Epoll.readyEvents_eq, Epoll.readyEvents_eq, h i]

/-- The events are ready ones, as many as there are or fit. -/
structure Reports (files : List EpollFile) (maxEvt : Int) (res : Returned) : Prop where
  ret_eq : res.ret = min maxEvt (readyEvents files).length
  length_eq : (res.outEvts.length : Int) = res.ret
  subperm : res.outEvts.Subperm (readyEvents files)

section loop

variable {w : World} {maxEvt timeout : Int} {orig sigmask : SigSet} {fuel i : Nat}
variable {outEvts : List EpollEvent}

theorem waitLoop_of_full (h : ¬ outEvts.length < maxEvt)
    : waitLoop w maxEvt timeout orig (fuel + 1) i outEvts sigmask
        =
      some ⟨outEvts.length, none, outEvts, orig, none⟩ := by
  unfold waitLoop
  rw [if_neg h]

theorem waitLoop_of_late (hroom : outEvts.length < maxEvt) (ht : 0 < timeout)
    (h : timeout < (w.moment i).elapsed)
    : waitLoop w maxEvt timeout orig (fuel + 1) i outEvts sigmask
        =
      some ⟨outEvts.length, none, outEvts, orig, none⟩ := by
  unfold waitLoop
  rw [if_pos hroom, if_neg (by omega), if_pos ⟨ht, h⟩]

theorem waitLoop_of_ready (hroom : outEvts.length < maxEvt) (ht : 0 < timeout)
    (h : (w.moment i).elapsed ≤ timeout) (hready : 0 < (readyEvents (w.moment i).files).length)
    : waitLoop w maxEvt timeout orig (fuel + 1) i outEvts sigmask
        =
      waitLoop w maxEvt timeout orig fuel (i + 1) (scan maxEvt (w.moment i).files outEvts)
        sigmask := by
  have hpos : (scan maxEvt (w.moment i).files outEvts).length > 0 := by
    rw [length_scan]
    omega
  rw [waitLoop, if_pos hroom, if_neg (by omega), if_neg (by omega)]
  simp only [hpos, ↓reduceIte]

theorem waitLoop_length_le {res : Returned}
    (h : waitLoop w maxEvt timeout orig fuel i outEvts sigmask = some res)
    : outEvts.length ≤ res.outEvts.length := by
  induction fuel generalizing i outEvts sigmask with
  | zero => simp [waitLoop] at h
  | succ fuel ih =>
    have hscan := length_scan maxEvt (w.moment i).files outEvts
    unfold waitLoop at h
    split at h
    . split at h
      . cases h
        exact Nat.le_refl _
      . split at h
        . cases h
          exact Nat.le_refl _
        . dsimp only at h
          split at h
          . have := ih h
            omega
          . split at h
            . cases h
              omega
            . have := ih h
              omega
    . cases h
      exact Nat.le_refl _

end loop

def InTime (w : World) (maxEvt timeout : Int) (ready : Nat) : Prop :=
  w.blocks = true
    ∧ timeout ≠ 0
    ∧ (w.moment 0).elapsed ≤ timeout
    ∧ (maxEvt ≤ ready ∨ timeout < (w.moment 1).elapsed)

theorem reports_scan {files : List EpollFile} {maxEvt : Int} (hmax : 1 ≤ maxEvt) (orig : SigSet)
    : Reports files maxEvt
        ⟨((readyEvents files).take maxEvt.toNat).length, none, (readyEvents files).take maxEvt.toNat,
          orig, none⟩ := by
  refine ⟨?_, rfl, ?_⟩
  . simp only [List.length_take]
    omega
  . apply List.Sublist.subperm
    apply List.take_sublist

section steady

variable {w : World} {files : List EpollFile} {maxEvt timeout : Int} {orig sigmask : SigSet}

theorem Steady.scan_eq (hsteady : Steady w files) (maxEvt : Int) (i : Nat)
    : scan maxEvt (w.moment i).files [] = (readyEvents files).take maxEvt.toNat := by
  rw [Epoll.scan_eq, hsteady.readyEvents_eq]
  simp

theorem Steady.length_scan (hsteady : Steady w files) (maxEvt : Int) (i : Nat)
    : (scan maxEvt (w.moment i).files []).length = min maxEvt.toNat (readyEvents files).length := by
  rw [hsteady.scan_eq]
  simp

theorem Steady.ready (hsteady : Steady w files) (hready : 1 ≤ (readyEvents files).length) (i : Nat)
    : 0 < (readyEvents (w.moment i).files).length := by
  rw [hsteady.readyEvents_eq]
  omega

theorem length_nil_lt (hmax : 1 ≤ maxEvt) : (([] : List EpollEvent).length : Int) < maxEvt := by
  simp only [List.length_nil]
  omega

theorem waitLoop_of_inTime (hmax : 1 ≤ maxEvt) (htimeout : 0 ≤ timeout) (hsteady : Steady w files)
    (hready : 1 ≤ (readyEvents files).length)
    (h : InTime w maxEvt timeout (readyEvents files).length)
    : waitLoop w maxEvt timeout orig 2 0 [] sigmask
        =
      some ⟨((readyEvents files).take maxEvt.toNat).length, none,
        (readyEvents files).take maxEvt.toNat, orig, none⟩ := by
  rcases h with ⟨-, htimeout', hin, hend⟩
  rw [waitLoop_of_ready (length_nil_lt hmax) (by omega) hin (hsteady.ready hready 0),
    ← hsteady.scan_eq maxEvt 0]
  by_cases hroom : ((scan maxEvt (w.moment 0).files []).length : Int) < maxEvt
  . have hlate : timeout < (w.moment 1).elapsed := by
      rw [hsteady.length_scan] at hroom
      omega
    rw [waitLoop_of_late hroom (by omega) hlate]
  . rw [waitLoop_of_full hroom]

theorem ready_lt_length_of_waitLoop {fuel : Nat} {res : Returned} (htimeout : 0 < timeout)
    (hsteady : Steady w files) (hready : 1 ≤ (readyEvents files).length)
    (hroom : (readyEvents files).length < maxEvt) (hin : (w.moment 0).elapsed ≤ timeout)
    (hin' : (w.moment 1).elapsed ≤ timeout)
    (h : waitLoop w maxEvt timeout orig fuel 0 [] sigmask = some res)
    : (readyEvents files).length < res.outEvts.length := by
  have hlen := hsteady.length_scan maxEvt 0
  have hroom' : ((scan maxEvt (w.moment 0).files []).length : Int) < maxEvt := by
    rw [hlen]
    omega
  rcases fuel with _ | _ | fuel
  . simp [waitLoop] at h
  . rw [waitLoop_of_ready (length_nil_lt (by omega)) htimeout hin (hsteady.ready hready 0)] at h
    simp [waitLoop] at h
  . rw [waitLoop_of_ready (length_nil_lt (by omega)) htimeout hin (hsteady.ready hready 0),
      waitLoop_of_ready hroom' htimeout hin' (hsteady.ready hready 1)] at h
    have hle := waitLoop_length_le h
    rw [Epoll.length_scan, hlen, hsteady.readyEvents_eq] at hle
    omega

theorem in_time_of_waitLoop {fuel : Nat} {res : Returned} (hmax : 1 ≤ maxEvt)
    (htimeout : 0 ≤ timeout) (h : waitLoop w maxEvt timeout orig fuel 0 [] sigmask = some res)
    (hpos : 1 ≤ res.ret)
    : timeout ≠ 0 ∧ (w.moment 0).elapsed ≤ timeout := by
  cases fuel with
  | zero => simp [waitLoop] at h
  | succ fuel =>
    have htimeout' : timeout ≠ 0 := by
      rintro rfl
      unfold waitLoop at h
      rw [if_pos (length_nil_lt hmax), if_pos rfl] at h
      cases h
      simp at hpos
    refine ⟨htimeout', ?_⟩
    by_contra hlate
    rw [waitLoop_of_late (length_nil_lt hmax) (by omega) (by omega)] at h
    cases h
    simp at hpos

end steady

theorem epollWait_reports_iff (shm : Shm.BpftimeShm) (w : World) (sigmask : SigSet) (fd : Int32)
    (files : List EpollFile) (maxEvt timeout : Int) (hfd : isEpollFd shm fd = true)
    (hmax : 1 ≤ maxEvt) (htimeout : 0 ≤ timeout) (hsteady : Steady w files)
    (hready : 1 ≤ (readyEvents files).length)
    : (∃ fuel res, bpftimeEpollWait shm w sigmask fd maxEvt timeout fuel = some res
        ∧ Reports files maxEvt res)
        ↔
      InTime w maxEvt timeout (readyEvents files).length := by
  constructor
  . rintro ⟨fuel, res, h, hret, hlength, -⟩
    have hpos : 1 ≤ res.ret := by omega
    unfold bpftimeEpollWait at h
    rw [if_neg (by omega), if_neg (by simp [hfd])] at h
    split at h
    . cases h
      simp at hpos
    . next hblocks =>
      rcases in_time_of_waitLoop hmax htimeout h hpos with ⟨htimeout', hin⟩
      refine ⟨by simpa using hblocks, htimeout', hin, ?_⟩
      by_contra hmore
      simp only [not_or, Int.not_le, Int.not_lt] at hmore
      have hlt := ready_lt_length_of_waitLoop (by omega) hsteady hready hmore.1 hin hmore.2 h
      omega
  . intro h
    refine ⟨2, _, ?_, reports_scan hmax sigmask⟩
    unfold bpftimeEpollWait
    rw [if_neg (by omega), if_neg (by simp [hfd]), if_neg (by simp [h.1])]
    exact waitLoop_of_inTime hmax htimeout hsteady hready h

def oneEpoll : Shm.BpftimeShm := ⟨[.epoll], []⟩

def readyFile : EpollFile where
  file := .softwarePerfEvent (some
    { PerfEvent.SoftwarePerfEventData.construct 4096 with
      header := { dataHead := 16, dataTail := 0, dataOffset := 4096, dataSize := 4096 } })
  data := 7

def steadyWorld (tick : Int) : World where
  blocks := true
  moment i := ⟨tick * i, [readyFile], 0⟩

theorem steady_steadyWorld (tick : Int) : Steady (steadyWorld tick) [readyFile] := fun _ => rfl

theorem epollWait_reports_iff_slow
    : isEpollFd oneEpoll 0 = true ∧ Steady (steadyWorld 20) [readyFile]
      ∧ ((∃ fuel res,
            bpftimeEpollWait oneEpoll (steadyWorld 20) (fun _ => false) 0 2 10 fuel = some res
              ∧ Reports [readyFile] 2 res)
          ↔
        InTime (steadyWorld 20) 2 10 (readyEvents [readyFile]).length) :=
  ⟨by decide, steady_steadyWorld 20,
    epollWait_reports_iff oneEpoll (steadyWorld 20) (fun _ => false) 0 [readyFile] 2 10 (by decide)
      (by decide) (by decide) (steady_steadyWorld 20) (by decide)⟩

theorem not_reports_twice_zero
    : (¬ ∃ fuel res, bpftimeEpollWait oneEpoll (steadyWorld 1) (fun _ => false) 0 2 10 fuel = some res
          ∧ Reports [readyFile] 2 res)
      ∧ ¬ ∃ fuel res, bpftimeEpollWait oneEpoll (steadyWorld 1) (fun _ => false) 0 2 0 fuel = some res
          ∧ Reports [readyFile] 2 res := by
  have hmin : min 2 ((readyEvents [readyFile]).length : Int) = 1 := by decide
  constructor
  . rintro ⟨fuel, res, h, hret, -, -⟩
    rw [hmin] at hret
    rcases fuel with _ | _ | _ | fuel
    . cases h
    . cases h
    . cases h
    . cases h
      exact absurd hret (by decide)
  . rintro ⟨fuel, res, h, hret, -, -⟩
    rw [hmin] at hret
    cases fuel with
    | zero => cases h
    | succ fuel =>
      cases h
      simp at hret

end Bpftime.Epoll
