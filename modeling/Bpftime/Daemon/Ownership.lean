import Bpftime.Daemon.Lemmas

namespace Bpftime.Daemon

open Shm

structure Created where
  pid : Int32
  fd : Int32
  uprobe : BpfPerfEventHandler
  deriving DecidableEq

def Op.created? : Op → Option Created
  | .uprobeCreate _ serverPid fd targetPid name offset retprobe refCtrOff =>
    some ⟨serverPid, fd, .uprobe retprobe offset targetPid name refCtrOff⟩
  | _ => none

structure Tracked where
  driver : Driver
  created : Int32 → Option Created

namespace Tracked

def construct (maxFdCount : Nat) : Tracked where
  driver := .construct maxFdCount
  created := fun _ => none

def observe (created : Int32 → Option Created) (op : Op) (o : Outcome)
    : Int32 → Option Created :=
  match op.created?, o with
  | some c, .ret id _ => if id < 0 then created else Function.update created id (some c)
  | _, _ => created

def step (env : Env) (t : Tracked) (op : Op) : Option Tracked :=
  (t.driver.call env op).map fun (o, d) => { driver := d, created := observe t.created op o }

def Holds (t : Tracked) (id : Int32) (c : Created) : Prop :=
  t.created id = some c ∧
    ∃ enabled, t.driver.shm.slot? id = some (.perfEvent { c.uprobe with enabled := enabled })

/-- Every id in the map is that of the event of its pid and fd, and of no other. -/
structure Kept (t : Tracked) : Prop where
  refers : ∀ pid fd id, t.driver.pidFdToIdMap (getPidFdKey pid fd) = some id →
    ∃ uprobe, t.Holds id ⟨pid, fd, uprobe⟩
  distinct : ∀ key key' id, t.driver.pidFdToIdMap key = some id →
    t.driver.pidFdToIdMap key' = some id → key = key'

/-- A close leaves the events of every other pid and fd. -/
def ClosesOnly (env : Env) (t : Tracked) : Prop :=
  ∀ pid fd t', t.step env (.close pid fd) = some t' →
    ∀ id c, t.Holds id c → (c.pid, c.fd) ≠ (pid, fd) → t'.Holds id c

/-- The operation gives no id in the map another meaning. -/
def Safe (t : Tracked) (op : Op) : Prop :=
  match op with
  | .uprobeCreate _ _ fd .. => t.driver.shm.findMinimalUnusedIdx < 0 ∨ ¬ fd < 0
  | .btfLoad .. => t.driver.shm.findMinimalUnusedIdx < 0
  | op => ∀ id ∈ op.mapSlots t.driver, ∀ key, t.driver.pidFdToIdMap key ≠ some id

def Inv (t : Tracked) : Prop :=
  ∀ key id, t.driver.pidFdToIdMap key = some id →
    ∃ c, ¬ c.fd < 0 ∧ key = getPidFdKey c.pid c.fd ∧ t.Holds id c

variable {env : Env} {t t' : Tracked} {id pid fd : Int32}

theorem Inv.exists_of_entry (h : Inv t)
    (hentry : t.driver.pidFdToIdMap (getPidFdKey pid fd) = some id)
    : ∃ uprobe, ¬ fd < 0 ∧ t.Holds id ⟨pid, fd, uprobe⟩ := by
  rcases h _ _ hentry with ⟨c, hfd, hkey, hholds⟩
  rcases getPidFdKey_inj hfd hkey with ⟨rfl, rfl⟩
  exact ⟨c.uprobe, hfd, hholds⟩

theorem Inv.eq_of_entry (h : Inv t) {key key' : UInt64} (hkey : t.driver.pidFdToIdMap key = some id)
    (hkey' : t.driver.pidFdToIdMap key' = some id)
    : key = key' := by
  rcases h _ _ hkey with ⟨c, -, rfl, hcreated, -⟩
  rcases h _ _ hkey' with ⟨c', -, rfl, hcreated', -⟩
  rw [hcreated] at hcreated'
  cases hcreated'
  rfl

theorem Inv.kept (h : Inv t) : Kept t where
  refers := by
    intro pid fd id hentry
    rcases h.exists_of_entry hentry with ⟨uprobe, -, hholds⟩
    exact ⟨uprobe, hholds⟩
  distinct := fun _ _ _ hkey hkey' => h.eq_of_entry hkey hkey'

theorem Holds.of_keepsPerf {c : Created} (h : t.Holds id c)
    (hcreated : t'.created id = t.created id)
    (hkeeps : t.driver.shm.KeepsPerf t'.driver.shm id)
    : t'.Holds id c := by
  rcases h with ⟨hid, enabled, hslot⟩
  rcases hkeeps _ hslot with ⟨enabled', hslot'⟩
  exact ⟨hcreated.trans hid, enabled', hslot'⟩

theorem Inv.frame (h : Inv t) {slots : List Int32} {d : Driver} (hframe : t.driver.Frame slots d)
    (hslots : ∀ id ∈ slots, ∀ key, t.driver.pidFdToIdMap key ≠ some id)
    : Inv { t with driver := d } := by
  intro key id hentry
  rw [hframe.entries] at hentry
  rcases h key id hentry with ⟨c, hfd, hkey, hholds⟩
  refine ⟨c, hfd, hkey, hholds.of_keepsPerf rfl ?_⟩
  apply hframe.perf
  intro hid
  exact hslots id hid key hentry

theorem Inv.uprobeCreate (h : Inv t) {fake targetPid : Int32} {name : CString} {offset : UInt64}
    {retprobe : Bool} {refCtrOff : UInt64}
    (hsafe : t.Safe (.uprobeCreate fake pid fd targetPid name offset retprobe refCtrOff))
    (hstep : t.step env (.uprobeCreate fake pid fd targetPid name offset retprobe refCtrOff)
      = some t')
    : Inv t' := by
  rcases Option.map_eq_some_iff.mp hstep with ⟨⟨o, d⟩, hcall, rfl⟩
  dsimp only [Driver.call, Driver.bpftimeUprobeCreateServer] at hcall
  split at hcall
  . cases hcall
    exact h
  . next hid =>
    have hfd := hsafe.resolve_left hid
    have hfree := BpftimeShm.slot?_findMinimalUnusedIdx hid
    generalize hnew : t.driver.shm.findMinimalUnusedIdx = new at hid hfree hcall
    dsimp only [Driver.onShm, BpftimeShm.addUprobe, BpftimeShm.orFake] at hcall
    rw [if_neg hid, BpftimeShm.setHandler_of_free hfree (by simp [Handler.kind])
      (by simp [Handler.kind])] at hcall
    simp only [Option.map_some, Driver.checked] at hcall
    rw [if_neg hid] at hcall
    cases hcall
    intro key id hentry
    dsimp only [Driver.record] at hentry
    by_cases hkey : key = getPidFdKey pid fd
    . rw [hkey, Function.update_self] at hentry
      cases hentry
      refine ⟨⟨pid, fd, .uprobe retprobe offset targetPid name refCtrOff⟩, hfd, hkey, ?_, false, ?_⟩
      . simp [observe, Op.created?, hid]
      . dsimp only [Driver.record]
        rw [BpftimeShm.slot?_setSlot hfree, if_pos rfl]
        rfl
    . rw [Function.update_of_ne hkey] at hentry
      rcases h key id hentry with ⟨c, hcfd, hckey, hcreated, enabled, hslot⟩
      -- the new uprobe went to an unused slot, where no entry refers to
      have hne : id ≠ new := by
        rintro rfl
        rw [hfree] at hslot
        cases hslot
      refine ⟨c, hcfd, hckey, ?_, enabled, ?_⟩
      . simp [observe, Op.created?, hid, hne, hcreated]
      . dsimp only [Driver.record]
        rw [BpftimeShm.slot?_setSlot hfree, if_neg hne, hslot]

theorem Inv.close (h : Inv t) (hstep : t.step env (.close pid fd) = some t')
    : Inv t' ∧ ∀ id c, t.Holds id c → (c.pid, c.fd) ≠ (pid, fd) → t'.Holds id c := by
  rcases Option.map_eq_some_iff.mp hstep with ⟨⟨o, d⟩, hcall, rfl⟩
  dsimp only [Driver.call, Driver.bpftimeCloseServer] at hcall
  cases hentry : t.driver.pidFdToIdMap (getPidFdKey pid fd) with
  | none =>
    rw [Driver.checkAndGetPidFd_of_none hentry, if_pos (by decide)] at hcall
    cases hcall
    exact ⟨h, fun _ _ hholds _ => hholds⟩
  | some closed =>
    rcases h.exists_of_entry hentry with ⟨uprobe, -, hcreated, enabled, hslot⟩
    rw [Driver.checkAndGetPidFd_of_some hentry, if_neg (BpftimeShm.not_neg_of_slot? hslot)] at hcall
    rcases Option.map_eq_some_iff.mp hcall with ⟨d', hclose, heq⟩
    rcases Option.map_eq_some_iff.mp hclose with ⟨shm, hclear, rfl⟩
    cases heq
    constructor
    . intro key id hkey
      dsimp only at hkey
      by_cases heq : key = getPidFdKey pid fd
      . rw [heq, Function.update_self] at hkey
        cases hkey
      . rw [Function.update_of_ne heq] at hkey
        rcases h key id hkey with ⟨c, hfd, hckey, hholds⟩
        refine ⟨c, hfd, hckey, hholds.of_keepsPerf rfl ?_⟩
        apply BpftimeShm.KeepsPerf.of_clearIdAt hclear
        rintro rfl
        exact heq (h.eq_of_entry hkey hentry)
    . intro id c hholds hne
      refine hholds.of_keepsPerf rfl ?_
      apply BpftimeShm.KeepsPerf.of_clearIdAt hclear
      rintro rfl
      rw [hholds.1] at hcreated
      cases hcreated
      exact hne rfl

theorem Inv.step {op : Op} (h : Inv t) (hsafe : t.Safe op) (hstep : t.step env op = some t')
    : Inv t' := by
  cases op with
  | uprobeCreate => exact h.uprobeCreate hsafe hstep
  | close => exact (h.close hstep).1
  | btfLoad =>
    rcases Option.map_eq_some_iff.mp hstep with ⟨⟨o, d⟩, hcall, rfl⟩
    have hfull : t.driver.shm.findMinimalUnusedIdx < 0 := hsafe
    dsimp only [Driver.call, Driver.bpftimeBtfLoadServer] at hcall
    rw [if_pos hfull] at hcall
    cases hcall
    exact h
  | _ =>
    rcases Option.map_eq_some_iff.mp hstep with ⟨⟨o, d⟩, hcall, rfl⟩
    exact h.frame (Driver.framed_call env _ (by simp [Op.OnEntries]) o d hcall) hsafe

theorem inv_construct (maxFdCount : Nat) : Inv (construct maxFdCount) := by
  intro key id hentry
  cases hentry

theorem kept_closesOnly_run {maxFdCount : Nat} {ops : List Op}
    (h : Run.Exec (Tracked.step env) Safe (construct maxFdCount) ops t)
    : t.Kept ∧ t.ClosesOnly env := by
  have hinv : Inv t := by
    apply h.invariant _ (inv_construct maxFdCount)
    intro s op s' hs hsafe hstep
    exact hs.step hsafe hstep
  refine ⟨hinv.kept, ?_⟩
  intro pid fd t' hstep
  exact (hinv.close hstep).2

def probe (fd : Int32) : Op := .uprobeCreate 0 7 fd 7 [] 64 false 0

def hashAnswers : MapAnswers where
  fd := 5
  info := some
    { name := [], type := 1, keySize := 4, valueSize := 8, maxEntries := 16, mapFlags := 0
      btfId := 0, btfKeyTypeId := 0, btfValueTypeId := 0, btfVmlinuxValueTypeId := 0, ifindex := 0 }
  fake := 0

theorem kept_probe_map_close : ∃ t, Run.Exec (Tracked.step BpftimeShm.plainEnv) Safe (construct 4)
        [probe 4, .mapsCreate hashAnswers 2, probe 5, .close 7 4] t
      ∧ t.Kept ∧ t.ClosesOnly BpftimeShm.plainEnv := by
  have hmap (t : Tracked) (h : (construct 4).step BpftimeShm.plainEnv (probe 4) = some t)
      : t.Safe (.mapsCreate hashAnswers 2) := by
    cases h
    intro id hid key hkey
    have hid : id = 2 := List.mem_singleton.mp hid
    change Function.update (fun _ => none) (getPidFdKey 7 4) (some 0) key = some id at hkey
    rw [Function.update_apply, hid] at hkey
    split at hkey
    . exact absurd hkey (by decide)
    . cases hkey
  have h : Run.Exec (Tracked.step BpftimeShm.plainEnv) Safe (construct 4)
      [probe 4, .mapsCreate hashAnswers 2, probe 5, .close 7 4] _ :=
    .cons (.inr (by decide)) rfl (.cons (hmap _ rfl) rfl
      (.cons (.inr (by decide)) rfl (.cons (by simp [Safe, Op.mapSlots]) rfl (.nil _))))
  exact ⟨_, h, kept_closesOnly_run h⟩

theorem not_kept_btf_and_map
    : (∃ t, Run.Exec (Tracked.step BpftimeShm.plainEnv) (fun _ _ => True) (construct 4)
        [.btfLoad 7 3, probe 4] t
      ∧ ¬ t.Kept ∧ ¬ t.ClosesOnly BpftimeShm.plainEnv)
      ∧ ∃ t, Run.Exec (Tracked.step BpftimeShm.plainEnv) (fun _ _ => True) (construct 4)
          [probe 4, probe 5, .mapsCreate hashAnswers 1] t
        ∧ ¬ t.Kept := by
  constructor
  . refine ⟨_, .cons trivial rfl (.cons trivial rfl (.nil _)), ?_, ?_⟩
    . intro hkept
      have heq := hkept.distinct (getPidFdKey 7 3) (getPidFdKey 7 4) 0 (by decide) (by decide)
      exact absurd heq (by decide)
    . intro hcloses
      have hholds := hcloses 7 3 _ rfl 0 ⟨7, 4, .uprobe false 64 7 [] 0⟩
        ⟨by decide, false, by decide⟩ (by decide)
      rcases hholds.2 with ⟨enabled, hslot⟩
      cases hslot
  . refine ⟨_, .cons trivial rfl (.cons trivial rfl (.cons trivial rfl (.nil _))), ?_⟩
    intro hkept
    rcases hkept.refers 7 5 1 (by decide) with ⟨uprobe, -, enabled, hslot⟩
    cases hslot

end Tracked

end Bpftime.Daemon
