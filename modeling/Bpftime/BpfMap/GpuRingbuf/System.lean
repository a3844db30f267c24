import Bpftime.BpfMap.GpuRingbuf.Invariant

namespace Bpftime.GpuRingbuf

open Run GpuArray

structure State.Inv (p : Params) (s : State) : Prop where
  cells : ∀ tid, (s.cell tid).Inv p
  host : ∀ i stage, s.host = some (i, stage) → i < p.threadCount
  others : ∀ tid, p.threadCount ≤ tid → s.returned tid = []
  runs : ∀ tid, s.devices tid ≠ .idle → ∃ t, p.launch.Runs t ∧ linear p.launch t = tid

theorem inv_start (p : Params) : (start p).Inv p where
  cells := by
    intro tid
    constructor
    case slots =>
      intro k data _ hdata
      cases hdata
    case room => exact Nat.zero_le _
    case bound => exact Nat.two_pow_pos 64
    case head_le => exact Nat.le_refl 0
    case device => trivial
    case host => trivial
    all_goals rfl
  host := by
    intro i stage h
    cases h
  others := fun _ _ => rfl
  runs := fun _ h => absurd rfl h

theorem loop_cases (p : Params) (i : ℕ) : loop p i = none ∧ p.threadCount ≤ i
      ∨ loop p i = some (i, .readDirty) ∧ i < p.threadCount := by
  unfold loop
  split
  next hlt => exact Or.inr ⟨rfl, hlt⟩
  next hge => exact Or.inl ⟨rfl, Nat.le_of_not_lt hge⟩

theorem stageAt_self (i : ℕ) (stage : Stage) : stageAt (some (i, stage)) i = some stage :=
  if_pos rfl

theorem stageAt_of_ne {i tid : ℕ} (hne : i ≠ tid) (stage : Stage)
    : stageAt (some (i, stage)) tid = none :=
  if_neg hne

theorem stageAt_loop (p : Params) (i tid : ℕ)
    : stageAt (loop p i) tid = none ∨ stageAt (loop p i) tid = some .readDirty := by
  rcases loop_cases p i with ⟨hloop, _⟩ | ⟨hloop, _⟩
  . rw [hloop]
    exact Or.inl rfl
  . rw [hloop]
    by_cases hne : i = tid
    . rw [hne]
      exact Or.inr (stageAt_self tid _)
    . exact Or.inl (stageAt_of_ne hne _)

theorem After.stageAt_host (p : Params) (i : ℕ) (after : After)
    : stageAt (after.host p i) i = Cell.stageAfter after := by
  cases after with
  | stay stage => exact stageAt_self i stage
  | stop => rfl
  | next =>
    rcases loop_cases p (i + 1) with ⟨hloop, _⟩ | ⟨hloop, _⟩
    . rw [After.host, hloop]
      rfl
    . rw [After.host, hloop]
      exact stageAt_of_ne (by omega) _

theorem After.stageAt_host_of_ne (p : Params) {i tid : ℕ} (hne : i ≠ tid) (after : After)
    : stageAt (after.host p i) tid = none ∨ stageAt (after.host p i) tid = some .readDirty := by
  cases after with
  | stay stage => exact Or.inl (stageAt_of_ne hne stage)
  | stop => exact Or.inl rfl
  | next => exact stageAt_loop p (i + 1) tid

theorem Cell.Inv.hostArrived {p : Params} {c : Cell} (h : c.Inv p) (hstage : c.stage = none)
    {stage : Option Stage} (harrived : stage = none ∨ stage = some .readDirty)
    : Cell.Inv p { c with stage } := by
  apply h.hostLooked
  . rw [taken, taken, hstage]
    rcases harrived with rfl | rfl <;> rfl
  . rcases harrived with rfl | rfl <;> trivial

section Step

variable {p : Params} {s s' : State} {t : Thread}

theorem step_device_cases (h : step p s (.device t) = some s')
    : ∃ tid ring device ret, linear p.launch t = tid ∧ p.launch.Runs t
        ∧ (s.devices tid).step p (s.rings tid) = some (ring, device, ret)
        ∧ s' = { s with
          rings := Function.update s.rings tid ring
          devices := Function.update s.devices tid device
          returned := Function.update s.returned tid (s.returned tid ++ ret.toList) } := by
  simp only [step] at h
  split at h
  next hreach =>
    obtain ⟨⟨ring, device, ret⟩, hstep, h⟩ := Option.bind_eq_some_iff.mp h
    cases h
    exact ⟨_, ring, device, ret, rfl, hreach.1, hstep, rfl⟩
  . cases h

theorem step_host_cases (h : step p s .host = some s')
    : ∃ i stage ring after sample, s.host = some (i, stage)
        ∧ stage.step p (s.rings i) = (ring, after, sample)
        ∧ s' = { s with
          rings := Function.update s.rings i ring
          host := after.host p i
          delivered := Function.update s.delivered i (s.delivered i ++ sample.toList) } := by
  obtain ⟨⟨i, stage⟩, hhost, h⟩ := Option.bind_eq_some_iff.mp h
  dsimp only at h
  split at h
  . cases h
    exact ⟨i, stage, _, _, _, hhost, rfl, rfl⟩
  . cases h

theorem State.Inv.step_device_eq (h : s.Inv p) (hfits : p.Fits) (ht : p.launch.Runs t) {tid : ℕ}
    (htid : linear p.launch t = tid) {ring : Ring} {device : Device} {ret : Option (List UInt8)}
    (hstep : (s.devices tid).step p (s.rings tid) = some (ring, device, ret))
    : step p s (.device t) = some { s with
        rings := Function.update s.rings tid ring
        devices := Function.update s.devices tid device
        returned := Function.update s.returned tid (s.returned tid ++ ret.toList) } := by
  subst htid
  have hslot : ∀ k, (s.devices (linear p.launch t)).writing = some k → k < p.maxEntries := by
    intro k hk
    have hknows := (h.cells (linear p.launch t)).device
    unfold Cell.DeviceKnows State.cell at hknows
    cases hdevice : s.devices (linear p.launch t) with
    | writeSize =>
      rw [hdevice] at hk hknows
      cases hk
      rw [hknows]
      exact Nat.mod_lt _ hfits.maxEntries_pos
    | writeData =>
      rw [hdevice] at hk hknows
      cases hk
      rw [hknows.1]
      exact Nat.mod_lt _ hfits.maxEntries_pos
    | _ =>
      rw [hdevice] at hk
      cases hk
  simp only [step]
  rw [if_pos ⟨ht, hfits.reaches_device ht hslot⟩, hstep]
  rfl

theorem State.Inv.step_host_eq (h : s.Inv p) (hfits : p.Fits) {i : ℕ} {stage : Stage} {ring : Ring}
    {after : After} {sample : Option (ℕ × List UInt8)} (hhost : s.host = some (i, stage))
    (hstep : stage.step p (s.rings i) = (ring, after, sample))
    : step p s .host = some { s with
        rings := Function.update s.rings i ring
        host := after.host p i
        delivered := Function.update s.delivered i (s.delivered i ++ sample.toList) } := by
  have hslot : ∀ k, stage.reading = some k → k < p.maxEntries := by
    intro k hk
    have hknows := (h.cells i).host
    unfold Cell.HostKnows State.cell at hknows
    dsimp only at hknows
    rw [hhost, stageAt_self] at hknows
    cases stage with
    | readSize =>
      cases hk
      rw [hknows]
      exact Nat.mod_lt _ hfits.maxEntries_pos
    | callback =>
      cases hk
      rw [hknows.1]
      exact Nat.mod_lt _ hfits.maxEntries_pos
    | _ => cases hk
  rw [step, hhost]
  dsimp only [bind, Option.bind]
  rw [if_pos (hfits.reaches_host (h.host i stage hhost) hslot), hstep]
  rfl

theorem step_call_cases {data : List UInt8} (h : step p s (.call t data) = some s')
    : ∃ tid, linear p.launch t = tid ∧ p.launch.Runs t ∧ s.devices tid = .idle
      ∧ s' = { s with devices := Function.update s.devices tid (.readTail data) } := by
  simp only [step] at h
  split at h
  next hcall =>
    cases h
    exact ⟨_, rfl, hcall.1, hcall.2.2, rfl⟩
  . cases h

theorem step_drain_cases (h : step p s .drain = some s')
    : s.host = none ∧ s' = { s with host := loop p 0 } := by
  rw [step] at h
  split at h
  next hhost =>
    cases h
    exact ⟨hhost, rfl⟩
  . cases h

theorem State.Inv.runs_update (h : s.Inv p) {tid : ℕ} (htid : linear p.launch t = tid)
    (hruns : p.launch.Runs t) {device : Device} (u : ℕ)
    (hbusy : Function.update s.devices tid device u ≠ .idle)
    : ∃ t, p.launch.Runs t ∧ linear p.launch t = u := by
  by_cases hu : u = tid
  . rw [hu]
    exact ⟨t, hruns, htid⟩
  . rw [Function.update_of_ne hu] at hbusy
    exact h.runs u hbusy

theorem State.Inv.call (h : s.Inv p) {data : List UInt8}
    (hbound : (s.rings (linear p.launch t)).tail + 1 < 2 ^ 64)
    (hstep : step p s (.call t data) = some s')
    : s'.Inv p := by
  obtain ⟨tid, htid, hruns, hidle, rfl⟩ := step_call_cases hstep
  refine { h with cells := ?cells, runs := ?runs }
  case cells =>
    intro u
    by_cases hu : u = tid
    . rw [hu]
      have hlooked := (h.cells tid).deviceLooked hidle (.readTail data) rfl rfl rfl
        (by rw [← htid]; exact hbound)
      unfold State.cell
      dsimp only
      rw [Function.update_self]
      exact hlooked
    . unfold State.cell
      dsimp only
      rw [Function.update_of_ne hu]
      exact h.cells u
  case runs => exact h.runs_update htid hruns

theorem State.Inv.device (hfits : p.Fits) (h : s.Inv p)
    (hcareful : (s.cell (linear p.launch t)).CarefulDevice)
    (hstep : step p s (.device t) = some s')
    : s'.Inv p := by
  obtain ⟨tid, ring, device, ret, htid, hruns, hdevice, rfl⟩ := step_device_cases hstep
  rw [htid] at hcareful
  refine { h with cells := ?cells, others := ?others, runs := h.runs_update htid hruns }
  case cells =>
    intro u
    unfold State.cell
    dsimp only
    by_cases hu : u = tid
    . rw [hu, Function.update_self, Function.update_self, Function.update_self]
      exact (h.cells tid).deviceStep hfits hcareful hdevice
    . rw [Function.update_of_ne hu, Function.update_of_ne hu, Function.update_of_ne hu]
      exact h.cells u
  case others =>
    intro u hu
    have hlt := linear_lt hruns
    have hle := hfits.threads_le
    dsimp only
    rw [Function.update_of_ne (by omega)]
    exact h.others u hu

theorem State.Inv.drain (h : s.Inv p) (hstep : step p s .drain = some s') : s'.Inv p := by
  obtain ⟨hhost, rfl⟩ := step_drain_cases hstep
  refine { h with cells := ?cells, host := ?host }
  case cells =>
    intro t
    have hstage : (s.cell t).stage = none := by
      unfold State.cell
      rw [hhost]
      rfl
    exact (h.cells t).hostArrived hstage (stageAt_loop p 0 t)
  case host =>
    intro i stage hloop
    rcases loop_cases p 0 with ⟨hnone, _⟩ | ⟨hsome, hlt⟩
    . dsimp only at hloop
      rw [hnone] at hloop
      cases hloop
    . dsimp only at hloop
      rw [hsome] at hloop
      cases hloop
      exact hlt

theorem After.host_lt {i j : ℕ} {after : After} {stage : Stage} (hi : i < p.threadCount)
    (h : after.host p i = some (j, stage))
    : j < p.threadCount := by
  cases after with
  | stay =>
    cases h
    exact hi
  | stop => cases h
  | next =>
    rcases loop_cases p (i + 1) with ⟨hnone, _⟩ | ⟨hsome, hlt⟩
    . rw [After.host, hnone] at h
      cases h
    . rw [After.host, hsome] at h
      cases h
      exact hlt

theorem State.Inv.hostStep (h : s.Inv p) (hstep : step p s .host = some s') : s'.Inv p := by
  obtain ⟨i, stage, ring, after, sample, hhost, hstage, rfl⟩ := step_host_cases hstep
  refine { h with cells := ?cells, host := ?host }
  case cells =>
    intro t
    unfold State.cell
    dsimp only
    by_cases ht : t = i
    . have hat : (s.cell i).stage = some stage := by
        unfold State.cell
        rw [hhost]
        exact stageAt_self i stage
      rw [ht, Function.update_self, Function.update_self, After.stageAt_host]
      exact (h.cells i).hostStep hat hstage
    . have hat : (s.cell t).stage = none := by
        unfold State.cell
        rw [hhost]
        exact stageAt_of_ne (Ne.symm ht) stage
      rw [Function.update_of_ne ht, Function.update_of_ne ht]
      exact (h.cells t).hostArrived hat (After.stageAt_host_of_ne p (Ne.symm ht) after)
  case host =>
    intro j stage' hj
    exact After.host_lt (h.host i stage hhost) hj

theorem State.Inv.step (hfits : p.Fits) (h : s.Inv p) {move : Move} (hcareful : Careful p s move)
    (hstep : GpuRingbuf.step p s move = some s')
    : s'.Inv p := by
  cases move with
  | call t data => exact h.call hcareful hstep
  | device t => exact h.device hfits hcareful hstep
  | drain => exact h.drain hstep
  | host => exact h.hostStep hstep

theorem State.Inv.exec (hfits : p.Fits) (h : s.Inv p) {moves : List Move}
    (hrun : Exec (GpuRingbuf.step p) (Careful p) s moves s')
    : s'.Inv p :=
  hrun.invariant (fun _ _ _ hinv hcareful hstep => hinv.step hfits hcareful hstep) h

end Step

end Bpftime.GpuRingbuf
