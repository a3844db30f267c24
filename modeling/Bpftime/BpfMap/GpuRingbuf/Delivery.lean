import Bpftime.BpfMap.GpuRingbuf.System

namespace Bpftime.GpuRingbuf

open Run GpuArray

section Progress

variable {p : Params} {s : State}

def Stage.rank : Stage → ℕ
  | .readDirty => 0
  | .readHead => 1
  | .readTail _ => 2
  | .readSlot => 3
  | .advance _ => 4
  | .readSize _ => 5
  | .callback _ _ => 6

def hostLeft (p : Params) (host : Option (ℕ × Stage)) : ℕ :=
  match host with
  | none => 0
  | some (i, stage) => 8 * (p.threadCount - i) - stage.rank

theorem Stage.step_cases {r r' : Ring} {stage : Stage} {after : After}
    {sample : Option (ℕ × List UInt8)} (h : stage.step p r = (r', after, sample))
    : (∃ stage', after = .stay stage' ∧ stage'.rank = stage.rank + 1 ∧ sample = none)
      ∨ (after = .stop ∧ r.dirty = true)
      ∨ (after = .next ∧ stage = .readTail r.tail ∧ sample = none)
      ∨ (after = .next ∧ ∃ taken, sample = some taken) := by
  cases stage with
  | readDirty =>
    simp only [Stage.step] at h
    split at h
    next hdirty =>
      cases h
      exact Or.inr (Or.inl ⟨rfl, hdirty⟩)
    . cases h
      exact Or.inl ⟨_, rfl, rfl, rfl⟩
  | readTail head =>
    simp only [Stage.step] at h
    split at h
    . cases h
      exact Or.inl ⟨_, rfl, rfl, rfl⟩
    next hempty =>
      cases h
      rw [not_not] at hempty
      exact Or.inr (Or.inr (Or.inl ⟨rfl, by rw [hempty], rfl⟩))
  | callback k size =>
    cases h
    exact Or.inr (Or.inr (Or.inr ⟨rfl, _, rfl⟩))
  | _ =>
    cases h
    exact Or.inl ⟨_, rfl, rfl, rfl⟩

theorem Stage.rank_le (stage : Stage) : stage.rank ≤ 6 := by
  cases stage <;> simp [Stage.rank]

theorem hostLeft_lt {i : ℕ} {stage : Stage} (hi : i < p.threadCount) {r r' : Ring} {after : After}
    {sample : Option (ℕ × List UInt8)} (h : stage.step p r = (r', after, sample))
    : hostLeft p (after.host p i) < hostLeft p (some (i, stage)) := by
  have hrank := stage.rank_le
  unfold hostLeft
  cases after with
  | stay stage' =>
    have hrank' : stage'.rank = stage.rank + 1 := by
      rcases Stage.step_cases h with ⟨stage'', heq, hrank', _⟩ | ⟨heq, _⟩ | ⟨heq, _⟩ | ⟨heq, _⟩
      . cases heq
        exact hrank'
      all_goals cases heq
    dsimp only [After.host]
    omega
  | stop =>
    dsimp only [After.host]
    omega
  | next =>
    rcases loop_cases p (i + 1) with ⟨hloop, _⟩ | ⟨hloop, hlt⟩
    . rw [After.host, hloop]
      dsimp only
      omega
    . rw [After.host, hloop]
      have hfirst : Stage.readDirty.rank = 0 := rfl
      dsimp only
      omega

theorem State.Inv.hostFinishes (hfits : p.Fits) (h : s.Inv p)
    : ∃ moves s', Exec (GpuRingbuf.step p) (Careful p) s moves s' ∧ s'.host = none
        ∧ s'.devices = s.devices ∧ s'.returned = s.returned := by
  generalize hn : hostLeft p s.host = n
  induction n using Nat.strong_induction_on generalizing s with
  | _ n ih =>
    cases hhost : s.host with
    | none => exact ⟨[], s, .nil s, hhost, rfl, rfl⟩
    | some at_ =>
      obtain ⟨i, stage⟩ := at_
      obtain ⟨r, after, sample, hstage⟩ : ∃ r after sample,
          stage.step p (s.rings i) = (r, after, sample) := ⟨_, _, _, rfl⟩
      have hstep := h.step_host_eq hfits hhost hstage
      have hlt := hostLeft_lt (h.host i stage hhost) hstage
      rw [← hhost, hn] at hlt
      obtain ⟨moves, s', hrun, hidle, hdevices, hreturned⟩ :=
        ih _ hlt (h.hostStep hstep) rfl
      exact ⟨.host :: moves, s', .cons trivial hstep hrun, hidle, hdevices, hreturned⟩

def Device.rank : Device → ℕ
  | .idle => 0
  | .clearDirty _ => 1
  | .writeData _ _ => 2
  | .writeSize _ _ => 3
  | .fetchAdd _ => 4
  | .setDirty _ => 5
  | .readHead _ _ => 6
  | .readTail _ => 7

theorem Device.exists_step (r : Ring) {device : Device} (hbusy : device ≠ .idle)
    : ∃ r' device' ret, device.step p r = some (r', device', ret)
        ∧ device'.rank < device.rank := by
  cases device with
  | idle => exact absurd rfl hbusy
  | readHead data tail =>
    simp only [Device.step]
    split <;> exact ⟨_, _, _, rfl, by simp [Device.rank]⟩
  | _ => exact ⟨_, _, _, rfl, by simp [Device.rank]⟩

theorem State.careful_of_idle (hhost : s.host = none) (tid : ℕ) : (s.cell tid).CarefulDevice := by
  have hstage : (s.cell tid).stage = none := by
    unfold State.cell
    rw [hhost]
    rfl
  unfold Cell.CarefulDevice
  rw [hstage]
  split <;> simp

theorem State.Inv.deviceFinishes (hfits : p.Fits) (h : s.Inv p) (hhost : s.host = none) (tid : ℕ)
    : ∃ moves s', Exec (GpuRingbuf.step p) (Careful p) s moves s' ∧ s'.host = none
        ∧ s'.devices = Function.update s.devices tid .idle
        ∧ ∀ t, s.returned t <+: s'.returned t := by
  generalize hn : (s.devices tid).rank = n
  induction n using Nat.strong_induction_on generalizing s with
  | _ n ih =>
    by_cases hidle : s.devices tid = .idle
    . refine ⟨[], s, .nil s, hhost, ?_, fun _ => List.prefix_refl _⟩
      rw [← hidle, Function.update_eq_self]
    . obtain ⟨r, device, ret, hdevice, hlt⟩ := Device.exists_step (p := p) (s.rings tid) hidle
      obtain ⟨t, ht, htid⟩ := h.runs tid hidle
      have hcareful := State.careful_of_idle hhost (linear p.launch t)
      have hstep := h.step_device_eq hfits ht htid hdevice
      rw [hn] at hlt
      obtain ⟨moves, s', hrun, hhost', hdevices, hreturned⟩ :=
        ih _ hlt (h.device hfits hcareful hstep) hhost
          (by dsimp only; rw [Function.update_self])
      refine ⟨.device t :: moves, s', .cons hcareful hstep hrun, hhost', ?_, ?_⟩
      . rw [hdevices, Function.update_idem]
      . intro t
        apply List.IsPrefix.trans _ (hreturned t)
        dsimp only
        by_cases ht : t = tid
        . rw [ht, Function.update_self]
          apply List.prefix_append
        . simp only [Function.update_of_ne ht, List.prefix_refl]

structure State.Quiet (s : State) : Prop where
  host : s.host = none
  devices : ∀ tid, s.devices tid = .idle

theorem State.Inv.devicesFinish (hfits : p.Fits) (h : s.Inv p) (hhost : s.host = none) (n : ℕ)
    : ∃ moves s', Exec (GpuRingbuf.step p) (Careful p) s moves s' ∧ s'.host = none
        ∧ (∀ tid, tid < n ∨ p.threadCount ≤ tid → s'.devices tid = .idle)
        ∧ ∀ t, s.returned t <+: s'.returned t := by
  induction n with
  | zero =>
    refine ⟨[], s, .nil s, hhost, ?_, fun _ => List.prefix_refl _⟩
    intro tid htid
    by_contra hbusy
    obtain ⟨t, ht, htid'⟩ := h.runs tid hbusy
    have hlt := linear_lt ht
    have hle := hfits.threads_le
    omega
  | succ n ih =>
    obtain ⟨moves, s₁, hrun, hhost₁, hidle, hreturned⟩ := ih
    obtain ⟨moves', s₂, hrun', hhost₂, hdevices, hreturned'⟩ :=
      (h.exec hfits hrun).deviceFinishes hfits hhost₁ n
    refine ⟨_, s₂, hrun.append hrun', hhost₂, ?_, fun t => (hreturned t).trans (hreturned' t)⟩
    intro tid htid
    rw [hdevices, Function.update_apply]
    split
    . rfl
    . exact hidle tid (by omega)

theorem State.Inv.rests (hfits : p.Fits) (h : s.Inv p)
    : ∃ moves s', Exec (GpuRingbuf.step p) (Careful p) s moves s' ∧ s'.Quiet
        ∧ ∀ t, s.returned t <+: s'.returned t := by
  obtain ⟨moves, s₁, hrun, hhost, _, hreturned⟩ := h.hostFinishes hfits
  obtain ⟨moves', s₂, hrun', hhost', hidle, hreturned'⟩ :=
    (h.exec hfits hrun).devicesFinish hfits hhost p.threadCount
  refine ⟨_, s₂, hrun.append hrun', ⟨hhost', fun tid => hidle tid (by omega)⟩, ?_⟩
  intro t
  rw [← hreturned]
  exact hreturned' t

structure Drained (s s' : State) (i : ℕ) : Prop where
  devices : s'.devices = s.devices
  returned : s'.returned = s.returned
  others : ∀ tid, tid ≠ i → s'.delivered tid = s.delivered tid
  more : (s.returned i).length = (s.delivered i).length ∧ s'.delivered i = s.delivered i
    ∨ (s'.delivered i).length = (s.delivered i).length + 1

theorem State.Inv.passes (hfits : p.Fits) {i : ℕ} {stage : Stage} (h : s.Inv p) (hidle : s.devices i = .idle)
    (hhost : s.host = some (i, stage))
    : ∃ moves s', Exec (GpuRingbuf.step p) (Careful p) s moves s' ∧ s'.host = loop p (i + 1)
        ∧ Drained s s' i := by
  generalize hn : 6 - stage.rank = n
  induction n using Nat.strong_induction_on generalizing s stage with
  | _ n ih =>
    obtain ⟨r, after, sample, hstage⟩ : ∃ r after sample,
        stage.step p (s.rings i) = (r, after, sample) := ⟨_, _, _, rfl⟩
    have hstep := h.step_host_eq hfits hhost hstage
    have hcell := h.cells i
    rcases Stage.step_cases hstage with ⟨stage', rfl, hrank, rfl⟩ | ⟨rfl, hdirty⟩
      | ⟨rfl, rfl, rfl⟩ | ⟨rfl, taken, rfl⟩
    . have hle := stage'.rank_le
      obtain ⟨moves, s', hrun, hnext, hdrained⟩ :=
        ih (6 - stage'.rank) (by omega) (h.hostStep hstep) hidle rfl rfl
      refine ⟨.host :: moves, s', .cons trivial hstep hrun, hnext, hdrained.devices,
        hdrained.returned, ?_, ?_⟩
      . intro tid htid
        rw [hdrained.others tid htid]
        exact Function.update_of_ne htid ..
      . have hmore := hdrained.more
        dsimp only at hmore
        rw [Function.update_self, Option.toList_none, List.append_nil] at hmore
        exact hmore
    . have hclean := hcell.dirty
      dsimp only [State.cell] at hclean
      rw [hidle, hdirty] at hclean
      cases hclean
    . refine ⟨[.host], _, .cons trivial hstep (.nil _), rfl, rfl, rfl, ?_, ?_⟩
      . intro tid htid
        exact Function.update_of_ne htid ..
      . -- the ring is empty: its head is at its tail
        have hknows := hcell.host
        have htail := hcell.tail_eq
        have hhead := hcell.head_eq
        have hat : (s.cell i).stage = some (.readTail (s.rings i).tail) := by
          unfold State.cell
          rw [hhost]
          exact stageAt_self i _
        unfold Cell.HostKnows at hknows
        unfold Cell.taken at hhead
        rw [hat] at hknows hhead
        dsimp only [State.cell] at hknows htail hhead
        rw [hidle] at htail
        dsimp only [Device.inFlight] at htail
        left
        refine ⟨by omega, ?_⟩
        dsimp only
        rw [Function.update_self, Option.toList_none, List.append_nil]
    . refine ⟨[.host], _, .cons trivial hstep (.nil _), rfl, rfl, rfl, ?_, ?_⟩
      . intro tid htid
        exact Function.update_of_ne htid ..
      . right
        dsimp only
        rw [Function.update_self, List.length_append]
        rfl

structure Round (p : Params) (s s' : State) (i : ℕ) : Prop where
  devices : s'.devices = s.devices
  returned : s'.returned = s.returned
  mono : ∀ tid, (s.delivered tid).length ≤ (s'.delivered tid).length
  more : ∀ tid, i ≤ tid → tid < p.threadCount →
    (s.returned tid).length = (s.delivered tid).length
      ∨ (s.delivered tid).length < (s'.delivered tid).length

theorem State.Inv.round (hfits : p.Fits) (h : s.Inv p) (hidle : ∀ tid, s.devices tid = .idle)
    {i : ℕ} (hhost : s.host = loop p i)
    : ∃ moves s', Exec (GpuRingbuf.step p) (Careful p) s moves s' ∧ s'.host = none
        ∧ Round p s s' i := by
  generalize hn : p.threadCount - i = n
  induction n generalizing s i with
  | zero =>
    rcases loop_cases p i with ⟨hloop, hge⟩ | ⟨_, hlt⟩
    . rw [hloop] at hhost
      exact ⟨[], s, .nil s, hhost, rfl, rfl, fun _ => Nat.le_refl _, by omega⟩
    . omega
  | succ n ih =>
    rcases loop_cases p i with ⟨_, hge⟩ | ⟨hloop, hlt⟩
    . omega
    . rw [hloop] at hhost
      obtain ⟨moves, s₁, hrun, hnext, hdrained⟩ := h.passes hfits (hidle i) hhost
      obtain ⟨moves', s₂, hrun', hnone, hround⟩ := ih (h.exec hfits hrun)
        (by rw [hdrained.devices]; exact hidle) hnext (by omega)
      refine ⟨_, s₂, hrun.append hrun', hnone, hround.devices.trans hdrained.devices,
        hround.returned.trans hdrained.returned, ?_, ?_⟩
      . intro tid
        have hmono := hround.mono tid
        by_cases htid : tid = i
        . rw [htid] at hmono ⊢
          rcases hdrained.more with ⟨_, hsame⟩ | hmore
          . rw [hsame] at hmono
            exact hmono
          . omega
        . rw [hdrained.others tid htid] at hmono
          exact hmono
      . intro tid hge htid
        by_cases heq : tid = i
        . have hmono := hround.mono tid
          rw [heq] at hmono ⊢
          rcases hdrained.more with ⟨hsame, _⟩ | hmore
          . exact Or.inl hsame
          . exact Or.inr (by omega)
        . have hmore := hround.more tid (by omega) htid
          rw [hdrained.others tid heq, hdrained.returned] at hmore
          exact hmore

theorem Cell.Inv.delivered_le {c : Cell} (h : c.Inv p)
    : c.delivered.length ≤ c.returned.length := by
  have hhead := h.head_eq
  have hle := h.head_le
  omega

theorem State.Inv.drains (hfits : p.Fits) (h : s.Inv p) (hquiet : s.Quiet) (n : ℕ)
    (hn : ∀ tid, (s.returned tid).length ≤ (s.delivered tid).length + n)
    : ∃ moves s', Exec (GpuRingbuf.step p) (Careful p) s moves s' ∧ s'.returned = s.returned
        ∧ ∀ tid, (s'.delivered tid).length = (s'.returned tid).length := by
  induction n generalizing s with
  | zero =>
    refine ⟨[], s, .nil s, rfl, ?_⟩
    intro tid
    exact Nat.le_antisymm (h.cells tid).delivered_le (hn tid)
  | succ n ih =>
    have hstep : GpuRingbuf.step p s .drain = some { s with host := loop p 0 } := by
      rw [GpuRingbuf.step, if_pos hquiet.host]
    have hdrain := h.drain hstep
    obtain ⟨moves, s₁, hrun, hnone, hround⟩ := hdrain.round hfits hquiet.devices rfl
    have hinv := hdrain.exec hfits hrun
    have hquiet₁ : s₁.Quiet := ⟨hnone, by rw [hround.devices]; exact hquiet.devices⟩
    obtain ⟨moves', s₂, hrun', hreturned, hall⟩ := ih hinv hquiet₁ (by
      intro tid
      have hmono := hround.mono tid
      have hgap := hn tid
      rw [hround.returned]
      dsimp only at hmono ⊢
      by_cases htid : tid < p.threadCount
      . rcases hround.more tid (Nat.zero_le _) htid with hsame | hmore
        . dsimp only at hsame
          omega
        . dsimp only at hmore
          omega
      . rw [h.others tid (by omega)]
        exact Nat.zero_le _)
    exact ⟨.drain :: (moves ++ moves'), s₂, .cons trivial hstep (hrun.append hrun'),
      hreturned.trans hround.returned, hall⟩

theorem exists_bound (f : ℕ → ℕ) (n : ℕ) : ∃ b, ∀ tid < n, f tid ≤ b := by
  induction n with
  | zero => exact ⟨0, by omega⟩
  | succ n ih =>
    obtain ⟨b, hb⟩ := ih
    refine ⟨max b (f n), ?_⟩
    intro tid htid
    by_cases heq : tid = n
    . rw [heq]
      apply Nat.le_max_right
    . exact (hb tid (by omega)).trans (Nat.le_max_left ..)

end Progress

def sample (data : List UInt8) : ℕ × List UInt8 := (data.length, data)

/-- The samples delivered begin those sent, and the rest can still be delivered. -/
def Delivers (p : Params) (s : State) : Prop :=
  (∀ tid, s.delivered tid <+: (s.returned tid).map sample)
    ∧ ∃ moves s', Exec (step p) (Careful p) s moves s'
      ∧ ∀ tid, (s.returned tid).map sample <+: s'.delivered tid
        ∧ s'.delivered tid <+: (s'.returned tid).map sample

theorem State.Inv.delivered_first {p : Params} {s : State} (h : s.Inv p) (tid : ℕ)
    : s.delivered tid <+: (s.returned tid).map sample := by
  have hdelivered := (h.cells tid).delivered
  change s.delivered tid = ((s.returned tid).take _).map sample at hdelivered
  rw [hdelivered]
  apply List.IsPrefix.map
  apply List.take_prefix

theorem State.Inv.delivers {p : Params} (hfits : p.Fits) {s : State} (h : s.Inv p)
    : Delivers p s := by
  refine ⟨h.delivered_first, ?_⟩
  obtain ⟨moves, s₁, hrun, hquiet, hreturned⟩ := h.rests hfits
  have hinv₁ := h.exec hfits hrun
  obtain ⟨n, hn⟩ := exists_bound (fun tid => (s₁.returned tid).length) p.threadCount
  obtain ⟨moves', s₂, hrun', hsame, hall⟩ := hinv₁.drains hfits hquiet n (by
    intro tid
    by_cases htid : tid < p.threadCount
    . have hle := hn tid htid
      omega
    . rw [hinv₁.others tid (by omega)]
      exact Nat.zero_le _)
  have hinv₂ := hinv₁.exec hfits hrun'
  refine ⟨_, s₂, hrun.append hrun', ?_⟩
  intro tid
  have hfirst := hinv₂.delivered_first tid
  refine ⟨?_, hfirst⟩
  rw [hfirst.eq_of_length (by rw [hall, List.length_map]), hsame]
  exact (hreturned tid).map sample

theorem delivers_of_careful {p : Params} (hfits : p.Fits) {moves : List Move} {s : State}
    (hrun : Exec (step p) (Careful p) (start p) moves s)
    : Delivers p s := by
  apply State.Inv.delivers hfits
  exact (inv_start p).exec hfits hrun

def oneThread : Params := ⟨8, 2, 1, ⟨⟨1, 1, 1⟩, ⟨1, 1, 1⟩⟩⟩

def firstThread : Thread := ⟨⟨0, 0, 0⟩, ⟨0, 0, 0⟩⟩

theorem oneThread_fits : oneThread.Fits := by constructor <;> decide

theorem exec_devices {p : Params} {s s' : State} (hhost : s.host = none) {ts : List Thread}
    (h : (ts.map Move.device).foldlM (step p) s = some s')
    : Exec (step p) (Careful p) s (ts.map .device) s' := by
  induction ts generalizing s with
  | nil =>
    cases h
    exact .nil _
  | cons t ts ih =>
    rw [List.map_cons, List.foldlM_cons] at h
    obtain ⟨s₁, hstep, hrest⟩ := Option.bind_eq_some_iff.mp h
    have hhost₁ : s₁.host = none := by
      obtain ⟨_, _, _, _, _, _, _, rfl⟩ := step_device_cases hstep
      exact hhost
    exact .cons (State.careful_of_idle hhost _) hstep (ih hhost₁ hrest)

theorem delivers_oneThread : ∃ s, Exec (step oneThread) (Careful oneThread) (start oneThread)
          (.call firstThread [7] :: (List.replicate 7 firstThread).map .device) s
        ∧ s.returned 0 = [[7]] ∧ Delivers oneThread s := by
  have hcall : ∃ s, step oneThread (start oneThread) (.call firstThread [7]) = some s
      ∧ s.host = none
      ∧ (((List.replicate 7 firstThread).map Move.device).foldlM (step oneThread) s).map
          (·.returned 0) = some [[7]] := ⟨_, rfl, rfl, by decide +kernel⟩
  obtain ⟨s₁, hcall, hhost, hdevices⟩ := hcall
  obtain ⟨s, hdevices, hreturned⟩ := Option.map_eq_some_iff.mp hdevices
  have hcareful : Careful oneThread (start oneThread) (.call firstThread [7]) :=
    show 0 + 1 < 2 ^ 64 by decide
  have hrun := Exec.cons hcareful hcall (exec_devices hhost hdevices)
  exact ⟨s, hrun, hreturned, delivers_of_careful oneThread_fits hrun⟩

def overtaken : List Move :=
  [.call firstThread [7], .device firstThread, .device firstThread, .drain, .host,
    .device firstThread, .device firstThread] ++ List.replicate 6 .host

theorem not_delivers_overtaken : ∃ s, overtaken.foldlM (step oneThread) (start oneThread) = some s
        ∧ ¬Delivers oneThread s := by
  have hrun : (overtaken.foldlM (step oneThread) (start oneThread)).map
      (fun s => (s.delivered 0, s.returned 0)) = some ([(0, [])], []) := by decide +kernel
  obtain ⟨s, hrun, hseen⟩ := Option.map_eq_some_iff.mp hrun
  obtain ⟨hdelivered, hreturned⟩ := Prod.mk.inj hseen
  refine ⟨s, hrun, ?_⟩
  intro h
  have hfirst := h.1 0
  rw [hdelivered, hreturned] at hfirst
  exact absurd hfirst (by decide)

end Bpftime.GpuRingbuf
