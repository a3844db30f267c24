import Bpftime.Data.Rebuild
import Bpftime.Shm.Json.Export

/-!
This module contains the round trip of the handler table through JSON: which tables come back from
the file that they were exported to.
-/

namespace Bpftime.Shm

open Numeral

namespace BpftimeShm

variable {env : Env} {sur : Surroundings} {s s' t : BpftimeShm} {fd : Int32} {handler : Handler}

/-- Export and import succeed, and the imported table has the same handlers at the same ids. -/
def RoundTrips (lib : JsonLibrary) (env : Env) (sur : Surroundings) (s : BpftimeShm) (size : ℕ)
    : Prop :=
  ∃ text s', s.bpftimeExportShmToJson lib = (some 0, some text) ∧
    (construct size).bpftimeImportShmFromJson lib env sur text = some (some 0, s') ∧
    s'.entry = s.entry

/-- What a handler must be for its own entry of the file to bring it back. -/
def Survives (env : Env) (sur : Surroundings) (fd : Int32) : Handler → Prop
  | .prog h =>
    Utf8.valid h.name = true ∧ (h.insns.length < 2 ^ 31 ∧ sur.room fd = true) ∧
      sur.unset fd = h.type
  | .map h => Utf8.valid h.name = true ∧ h.attr.gpuThreadCount = 1000 ∧ h.starts env = true
  | .perfEvent h => ∃ pid tracepointId, h.data = .tracepoint pid tracepointId
  | .link h => h.attachCookie = none ∧ idKey h.progId < idKey fd
  | _ => True

/-- Every handler survives, and no two maps ask for a container of the same name. -/
structure Portable (env : Env) (sur : Surroundings) (s : BpftimeShm) : Prop where
  survives : ∀ fd handler, s.entry fd = some handler → Survives env sur fd handler
  containers : ∀ fd fd' h h', fd ≠ fd' → s.entry fd = some (.map h) → s.entry fd' = some (.map h') →
    h.hasContainer env = true → h'.hasContainer env = true → h.name ≠ h'.name

def Comes (env : Env) (sur : Surroundings) (s : BpftimeShm) (done : Int32 → Prop) (fd : Int32)
    : Prop :=
  match s.entry fd with
  | some (.prog h) => (h.insns.length < 2 ^ 31 ∧ sur.room fd = true) ∧ sur.unset fd = h.type
  | some (.map h) =>
    h.attr.gpuThreadCount = 1000 ∧ h.starts env = true ∧
      (h.hasContainer env = true → ∀ fd' h', done fd' → s.entry fd' = some (.map h') →
        h'.hasContainer env = true → h.name ≠ h'.name)
  | some (.perfEvent h) => ∃ pid tracepointId, h.data = .tracepoint pid tracepointId
  | some (.link h) => h.attachCookie = none ∧ done h.progId
  | _ => False

def Room (s : BpftimeShm) (done : Int32 → Prop) (t : BpftimeShm) : Prop :=
  ∀ fd handler, s.entry fd = some handler → ¬ done fd → t.slot? fd = some .unused

structure Halfway (env : Env) (s : BpftimeShm) (done : Int32 → Prop) (t : BpftimeShm) : Prop where
  room : s.Room done t
  restored : ∀ fd, done fd → t.entry fd = s.entry fd
  free : ∀ fd, ¬ done fd → t.entry fd = none
  segment : ∀ name, name ∈ t.segment ↔ ∃ fd h, done fd ∧ s.entry fd = some (.map h) ∧
    h.hasContainer env = true ∧ name = h.getContainerName

def restored (env : Env) (sur : Surroundings) (fd : Int32) (t : BpftimeShm)
    : Handler → Option (Handler × Memory)
  | .prog h =>
    if h.insns.length < 2 ^ 31 ∧ sur.room fd = true then
      some (.prog ⟨sur.unset fd, h.insns, cStr h.name⟩, t.segment)
    else
      none
  | .map h => (h.imported.made env t.segment).map (.map h.imported, ·)
  | .perfEvent h =>
    match h.data with
    | .tracepoint _ _ => some (.perfEvent h, t.segment)
    | _ => none
  | .link h =>
    some (if t.isProgFd h.progId then .link { h with attachCookie := none } else .unused, t.segment)
  | _ => none

theorem Supported.importStep_eq (hs : s.Supported) (hentry : s.entry fd = some handler)
    (hfree : t.slot? fd = some .unused)
    : t.importStep env sur fd (s.jsonOf fd)
        =
      (t.restored env sur fd handler).map fun r => { t.setSlot fd r.1 with segment := r.2 } := by
  have hvalue := hs.handlerToJson_eq hentry
  unfold restored
  cases hs.exportable hentry with
  | prog h =>
    rw [importStep_prog h hfree hvalue]
    dsimp only
    split <;> rfl
  | map h =>
    rw [importStep_map h hfree hvalue, Option.map_map]
    rfl
  | perfEvent h hevent =>
    dsimp only
    cases hdata : h.data with
    | tracepoint pid tracepointId =>
      have htype : h.type = PERF_TYPE_TRACEPOINT := by
        simpa [BpfPerfEventHandler.Supported, hdata] using hevent
      rw [importStep_tracepoint h hfree hvalue htype hdata]
      rfl
    | _ =>
      rw [importStep_of_not_tracepoint h hvalue (by simp [hdata])]
      rfl
  | link h =>
    rw [importStep_link h hfree hvalue]
    dsimp only
    split
    next => rfl
    next =>
      rw [Option.map_some, setSlot_self hfree]

theorem Supported.importStep_slot? (hs : s.Supported) (hentry : s.entry fd = some handler)
    (hfree : t.slot? fd = some .unused)
    (hstep : t.importStep env sur fd (s.jsonOf fd) = some s')
    : ∃ new, ∀ fd', s'.slot? fd' = if fd' = fd then some new else t.slot? fd' := by
  rw [hs.importStep_eq hentry hfree] at hstep
  rcases Option.map_eq_some_iff.mp hstep with ⟨r, _, rfl⟩
  exact ⟨r.1, slot?_setSlot hfree⟩

theorem Supported.frame (hs : s.Supported) {ids : List Int32}
    (hids : ∀ fd ∈ ids, s.isAllocated fd = true)
    : Rebuild.Frame (fun t fd => t.importStep env sur fd (s.jsonOf fd)) entry s.Room ids := by
  intro done t fd t' hfd hroom hnot hstep
  rcases isAllocated_iff.mp (hids fd hfd) with ⟨handler, hentry⟩
  have hfree := hroom fd handler hentry hnot
  rcases hs.importStep_slot? hentry hfree hstep with ⟨new, hslot⟩
  constructor
  . intro fd' handler' hentry' hnot'
    rw [not_or] at hnot'
    rw [hslot, if_neg hnot'.2]
    exact hroom fd' handler' hentry' hnot'.1
  . intro fd' hne
    unfold entry
    rw [hslot, if_neg hne]

section StepIff

variable {done : Int32 → Prop}

theorem Supported.comes_iff_restored (hs : s.Supported) (hentry : s.entry fd = some handler)
    (hfree : t.slot? fd = some .unused)
    : (∃ t', t.importStep env sur fd (s.jsonOf fd) = some t' ∧ t'.entry fd = s.entry fd)
        ↔
      ∃ memory, t.restored env sur fd handler = some (handler, memory) := by
  have hkind := (entry_eq_some_iff.mp hentry).2
  have hself : ∀ new memory, slot? { t.setSlot fd new with segment := memory } fd = some new := by
    intro new memory
    exact (slot?_setSlot hfree fd).trans (if_pos rfl)
  simp only [hs.importStep_eq hentry hfree, hentry, Option.map_eq_some_iff, entry_eq_some_iff]
  constructor
  . rintro ⟨_, ⟨⟨new, memory⟩, hr, rfl⟩, hslot, _⟩
    rw [hself] at hslot
    cases hslot
    exact ⟨memory, hr⟩
  . rintro ⟨memory, hr⟩
    exact ⟨_, ⟨_, hr, rfl⟩, hself handler memory, hkind⟩

theorem Halfway.isProgFd_iff (ht : s.Halfway env done t) {fd : Int32} (hprog : s.isProgFd fd = true)
    : t.isProgFd fd = true ↔ done fd := by
  have hprog := (resolved_entry_iff (by simp)).mpr hprog
  constructor
  . intro hfound
    have hfound := (resolved_entry_iff (by simp)).mpr hfound
    unfold RefTable.Resolved at hfound
    by_contra hnot
    rw [ht.free fd hnot] at hfound
    simp at hfound
  . intro hdone
    apply (resolved_entry_iff (by simp)).mp
    unfold RefTable.Resolved at hprog ⊢
    rw [ht.restored fd hdone]
    exact hprog

theorem imported_eq_iff {h : BpfMapHandler} (hname : cStr h.name = h.name)
    : h.imported = h ↔ h.attr.gpuThreadCount = 1000 := by
  rcases h with ⟨name, attr⟩
  rcases attr
  simp [BpfMapHandler.imported, hname, eq_comm]

theorem Halfway.made_iff (ht : s.Halfway env done t) {h : BpfMapHandler}
    : (h.made env t.segment).isSome = true
        ↔
      h.starts env = true ∧ (h.hasContainer env = true → ∀ fd' h', done fd' →
        s.entry fd' = some (.map h') → h'.hasContainer env = true → h.name ≠ h'.name) := by
  have hclash : h.getContainerName ∉ t.segment ↔ ∀ fd' h', done fd' →
      s.entry fd' = some (.map h') → h'.hasContainer env = true → h.name ≠ h'.name := by
    rw [ht.segment]
    constructor
    . intro hnot fd' h' hdone hentry hcontainer heq
      exact hnot ⟨fd', h', hdone, hentry, hcontainer, BpfMapHandler.getContainerName_inj.mpr heq⟩
    . intro hall ⟨fd', h', hdone, hentry, hcontainer, heq⟩
      exact hall fd' h' hdone hentry hcontainer (BpfMapHandler.getContainerName_inj.mp heq)
  rw [h.made_eq, ← hclash]
  split
  next hcond => exact iff_of_true rfl hcond
  next hcond => exact iff_of_false (by simp) hcond

theorem Halfway.comes_iff (ht : s.Halfway env done t) (hs : s.Supported)
    (hentry : s.entry fd = some handler) (hnot : ¬ done fd)
    : (∃ t', t.importStep env sur fd (s.jsonOf fd) = some t' ∧ t'.entry fd = s.entry fd)
        ↔
      s.Comes env sur done fd := by
  rw [hs.comes_iff_restored hentry (ht.room fd handler hentry hnot)]
  unfold Comes BpftimeShm.restored
  rw [hentry]
  cases hs.exportable hentry with
  | prog h hname =>
    rcases h with ⟨type, insns, name⟩
    dsimp only at hname ⊢
    rw [hname]
    simp
  | map h hname =>
    dsimp only
    rw [← ht.made_iff, ← imported_eq_iff hname, Option.isSome_iff_exists]
    simp only [Option.map_eq_some_iff, Prod.mk.injEq, Handler.map.injEq]
    constructor
    . rintro ⟨_, memory, hmade, heq, rfl⟩
      exact ⟨heq, memory, heq ▸ hmade⟩
    . rintro ⟨heq, memory, hmade⟩
      exact ⟨memory, memory, heq.symm ▸ hmade, heq, rfl⟩
  | perfEvent h =>
    dsimp only
    cases h.data with
    | tracepoint pid tracepointId => simp
    | _ => simp
  | link h hprog =>
    dsimp only
    rw [← ht.isProgFd_iff hprog]
    rcases h with ⟨progId, attachTargetId, cookie⟩
    by_cases hfound : t.isProgFd progId = true
    . simp [hfound, eq_comm]
    . simp [hfound]

end StepIff

section Keeps

variable {done : Int32 → Prop} {t' : BpftimeShm}

theorem mem_segment_restored {memory : Memory}
    (h : t.restored env sur fd handler = some (handler, memory)) (name : CString)
    : name ∈ memory
        ↔
      name ∈ t.segment ∨ ∃ h, handler = .map h ∧ h.hasContainer env = true ∧
        name = h.getContainerName := by
  unfold restored at h
  cases handler with
  | prog h' | perfEvent h' =>
    dsimp only at h
    split at h
    next => simp_all
    next => cases h
  | map h' =>
    rcases Option.map_eq_some_iff.mp h with ⟨memory, hmade, heq⟩
    simp only [Prod.mk.injEq, Handler.map.injEq] at heq
    rw [heq.1, h'.made_eq] at hmade
    rw [← heq.2]
    split at hmade
    next =>
      cases hmade
      by_cases hcontainer : h'.hasContainer env = true
      . simp [hcontainer, or_comm]
      . simp [hcontainer]
    next => cases hmade
  | link h' => simp_all
  | _ => cases h

theorem Halfway.segment_importStep (ht : s.Halfway env done t) (hs : s.Supported)
    (hentry : s.entry fd = some handler) (hnot : ¬ done fd)
    (hstep : t.importStep env sur fd (s.jsonOf fd) = some t') (hback : t'.entry fd = s.entry fd)
    (name : CString)
    : name ∈ t'.segment
        ↔
      name ∈ t.segment ∨ ∃ h, handler = .map h ∧ h.hasContainer env = true ∧
        name = h.getContainerName := by
  have hfree := ht.room fd handler hentry hnot
  rcases (hs.comes_iff_restored hentry hfree).mp ⟨t', hstep, hback⟩ with ⟨memory, hr⟩
  rw [hs.importStep_eq hentry hfree, hr] at hstep
  cases hstep
  exact mem_segment_restored hr name

theorem Halfway.importStep (ht : s.Halfway env done t) (hs : s.Supported)
    (hentry : s.entry fd = some handler) (hnot : ¬ done fd)
    (hstep : t.importStep env sur fd (s.jsonOf fd) = some t') (hback : t'.entry fd = s.entry fd)
    : s.Halfway env (fun fd' => done fd' ∨ fd' = fd) t' := by
  have hfree := ht.room fd handler hentry hnot
  rcases hs.importStep_slot? hentry hfree hstep with ⟨new, hslot⟩
  have hothers : ∀ fd', fd' ≠ fd → t'.entry fd' = t.entry fd' := by
    intro fd' hne
    unfold entry
    rw [hslot, if_neg hne]
  constructor
  . intro fd' handler' hentry' hnot'
    rw [not_or] at hnot'
    rw [hslot, if_neg hnot'.2]
    exact ht.room fd' handler' hentry' hnot'.1
  . intro fd' hdone
    by_cases heq : fd' = fd
    . rw [heq, hback]
    . rw [hothers fd' heq]
      exact ht.restored fd' (hdone.resolve_right heq)
  . intro fd' hnot'
    rw [not_or] at hnot'
    rw [hothers fd' hnot'.2]
    exact ht.free fd' hnot'.1
  . intro name
    rw [ht.segment_importStep hs hentry hnot hstep hback, ht.segment]
    constructor
    . rintro (⟨fd', h, hdone, hentry', hcontainer⟩ | ⟨h, hmap, hcontainer⟩)
      . exact ⟨fd', h, .inl hdone, hentry', hcontainer⟩
      . exact ⟨fd, h, .inr rfl, hmap ▸ hentry, hcontainer⟩
    . rintro ⟨fd', h, hdone | rfl, hentry', hcontainer⟩
      . exact .inl ⟨fd', h, hdone, hentry', hcontainer⟩
      . rw [hentry] at hentry'
        exact .inr ⟨h, Option.some.inj hentry', hcontainer⟩

theorem halfway_construct (env : Env) {size : ℕ} (hsize : s.handlers.length ≤ size)
    : s.Halfway env (fun _ => False) (construct size) := by
  have hempty : ∀ fd handler, (construct size).slot? fd = some handler → handler = .unused := by
    intro fd handler hslot
    unfold slot? construct at hslot
    split at hslot
    next => simp at hslot
    next =>
      rw [List.getElem?_replicate] at hslot
      split at hslot
      next => exact (Option.some.inj hslot).symm
      next => simp at hslot
  constructor
  . intro fd handler hentry _
    have hslot := (entry_eq_some_iff.mp hentry).1
    have hlt := lt_length_of_slot? hslot
    unfold slot? construct
    rw [if_neg (not_neg_of_slot? hslot), List.getElem?_replicate, if_pos (by omega)]
  . intro fd hfalse
    exact hfalse.elim
  . intro fd _
    cases hslot : (construct size).slot? fd with
    | none => simp [entry, hslot]
    | some handler =>
      rw [hempty fd handler hslot] at hslot
      exact entry_of_unused hslot
  . simp [construct]

theorem Supported.rule (hs : s.Supported) (env : Env) (sur : Surroundings) {ids : List Int32}
    (hids : ∀ fd, fd ∈ ids ↔ s.isAllocated fd = true)
    : Rebuild.Rule (fun t fd => t.importStep env sur fd (s.jsonOf fd)) entry s.entry s.Room
        (s.Halfway env) (s.Comes env sur) ids where
  frame := hs.frame fun fd hfd => (hids fd).mp hfd
  room := fun _ _ ht => ht.room
  step_iff := by
    intro done t fd hfd ht hnot
    rcases isAllocated_iff.mp ((hids fd).mp hfd) with ⟨handler, hentry⟩
    exact ht.comes_iff hs hentry hnot
  keeps := by
    intro done t fd t' hfd ht hnot hstep hback
    rcases isAllocated_iff.mp ((hids fd).mp hfd) with ⟨handler, hentry⟩
    exact ht.importStep hs hentry hnot hstep hback

end Keeps

def Earlier (s : BpftimeShm) (fd fd' : Int32) : Prop :=
  s.isAllocated fd' = true ∧ idKey fd' < idKey fd

theorem idKey_asymm (fd fd' : Int32) (h : idKey fd < idKey fd') : ¬ idKey fd' < idKey fd := by
  intro h'
  exact Std.lt_irrefl (Std.lt_trans h h')

theorem Supported.import_iff (hs : s.Supported) {lib : JsonLibrary} {text : lib.Text} {size : ℕ}
    (hsize : s.handlers.length ≤ size) (htext : lib.dump (.ofPairs s.exported) = some text)
    : (∃ s', (construct size).bpftimeImportShmFromJson lib env sur text = some (some 0, s') ∧
          s'.entry = s.entry)
        ↔
      ∀ fd handler, s.entry fd = some handler → s.Comes env sur (s.Earlier fd) fd := by
  rcases hs.items_exported with ⟨ids, hitems, hsorted, hids⟩
  have hrule := hs.rule env sur hids
  have hstart := halfway_construct env hsize
  have himport : ∀ s', (construct size).bpftimeImportShmFromJson lib env sur text
        = some (some 0, s') ↔
      ids.foldlM (fun t fd => t.importStep env sur fd (s.jsonOf fd)) (construct size)
        = some s' := by
    intro s'
    unfold bpftimeImportShmFromJson
    rw [lib.parse_of_dump _ _ htext]
    simp only [reading]
    rw [hitems]
    apply importItems_map_iff
    intro fd hfd
    exact stoi_idKey (not_neg_of_isAllocated ((hids fd).mp hfd))
  have hback : ∀ s', ids.foldlM (fun t fd => t.importStep env sur fd (s.jsonOf fd)) (construct size)
      = some s' → (s'.entry = s.entry ↔ ∀ fd ∈ ids, s'.entry fd = s.entry fd) := by
    intro s' hfold
    constructor
    . intro heq fd _
      rw [heq]
    . intro hall
      funext fd
      by_cases hfd : fd ∈ ids
      . exact hall fd hfd
      . have hnodup := Rebuild.nodup_of_sorted idKey_asymm hsorted
        rw [hrule.frame.entry_foldlM hnodup hfd (by simp) hstart.room hfold]
        rw [hstart.free fd (by simp)]
        have hnone : ¬ ∃ handler, s.entry fd = some handler := by
          rw [← isAllocated_iff, ← hids]
          exact hfd
        cases hentry : s.entry fd with
        | none => rfl
        | some handler => exact absurd ⟨handler, hentry⟩ hnone
  have hearlier : ∀ fd, (fun fd' => fd' ∈ ids ∧ idKey fd' < idKey fd) = s.Earlier fd := by
    intro fd
    funext fd'
    unfold Earlier
    rw [hids]
  have hiff := hrule.exists_foldlM_sorted_iff idKey_asymm hsorted hstart
  simp only [hearlier] at hiff
  simp only [hids, isAllocated_iff, forall_exists_index] at hiff
  rw [← hiff]
  apply exists_congr
  intro s'
  rw [himport]
  apply and_congr_right
  intro hfold
  rw [hback s' hfold]
  simp only [hids, isAllocated_iff, forall_exists_index]

theorem Supported.roundTrips_iff_comes (hs : s.Supported) (lib : JsonLibrary) {size : ℕ}
    (hsize : s.handlers.length ≤ size)
    : s.RoundTrips lib env sur size
        ↔
      (∀ fd handler, s.entry fd = some handler → (s.jsonOf fd).wellEncoded = true) ∧
        ∀ fd handler, s.entry fd = some handler → s.Comes env sur (s.Earlier fd) fd := by
  rw [← hs.wellEncoded_exported, ← lib.dump_isSome]
  unfold RoundTrips bpftimeExportShmToJson
  rw [hs.export_eq]
  dsimp only
  cases htext : lib.dump (.ofPairs s.exported) with
  | none => simp
  | some text =>
    rw [← hs.import_iff hsize htext]
    simp

theorem Supported.portable (hs : s.Supported)
    (hvalid : ∀ fd handler, s.entry fd = some handler → (s.jsonOf fd).wellEncoded = true)
    (hcomes : ∀ fd handler, s.entry fd = some handler → s.Comes env sur (s.Earlier fd) fd)
    : s.Portable env sur := by
  have hmap : ∀ fd h, s.entry fd = some (.map h) → h.hasContainer env = true →
      ∀ fd' h', s.Earlier fd fd' → s.entry fd' = some (.map h') → h'.hasContainer env = true →
        h.name ≠ h'.name := by
    intro fd h hentry
    have hcome := hcomes fd _ hentry
    unfold Comes at hcome
    rw [hentry] at hcome
    exact hcome.2.2
  constructor
  . intro fd handler hentry
    have hvalue := hs.handlerToJson_eq hentry
    have hutf8 := hvalid fd handler hentry
    have hcome := hcomes fd handler hentry
    unfold Comes at hcome
    rw [hentry] at hcome
    cases hs.exportable hentry with
    | prog h hname =>
      rw [wellEncoded_prog hvalue, hname] at hutf8
      exact ⟨hutf8, hcome⟩
    | map h hname =>
      rw [wellEncoded_map hvalue, hname] at hutf8
      exact ⟨hutf8, hcome.1, hcome.2.1⟩
    | perfEvent h => exact hcome
    | link h => exact ⟨hcome.1, hcome.2.2⟩
  -- of two maps, the one with the larger key is imported while the other is there
  . intro fd fd' h h' hne hentry hentry' hcontainer hcontainer'
    have hkeys : idKey fd ≠ idKey fd' := fun heq => hne
      (idKey_inj (not_neg_of_slot? (entry_eq_some_iff.mp hentry).1)
        (not_neg_of_slot? (entry_eq_some_iff.mp hentry').1) heq)
    by_cases hlt : idKey fd' < idKey fd
    . apply hmap fd h hentry hcontainer fd' h' _ hentry' hcontainer'
      exact ⟨isAllocated_iff.mpr ⟨_, hentry'⟩, hlt⟩
    . apply Ne.symm
      apply hmap fd' h' hentry' hcontainer' fd h _ hentry hcontainer
      exact ⟨isAllocated_iff.mpr ⟨_, hentry⟩, Std.lt_of_le_of_ne (Std.not_lt.mp hlt) hkeys⟩

theorem Portable.wellEncoded (hp : s.Portable env sur) (hs : s.Supported)
    (hentry : s.entry fd = some handler)
    : (s.jsonOf fd).wellEncoded = true := by
  have hvalue := hs.handlerToJson_eq hentry
  have hsurvives := hp.survives fd handler hentry
  cases hs.exportable hentry with
  | prog h hname =>
    rw [wellEncoded_prog hvalue, hname]
    exact hsurvives.1
  | map h hname =>
    rw [wellEncoded_map hvalue, hname]
    exact hsurvives.1
  | perfEvent h =>
    rcases hsurvives with ⟨pid, tracepointId, hdata⟩
    exact wellEncoded_tracepoint hvalue hdata
  | link h => exact wellEncoded_link hvalue

theorem Portable.comes (hp : s.Portable env sur) (hs : s.Supported)
    (hentry : s.entry fd = some handler)
    : s.Comes env sur (s.Earlier fd) fd := by
  have hsurvives := hp.survives fd handler hentry
  unfold Comes
  rw [hentry]
  cases hs.exportable hentry with
  | prog h => exact hsurvives.2
  | map h =>
    rcases hsurvives with ⟨_, hcount, hstarts⟩
    refine ⟨hcount, hstarts, ?_⟩
    intro hcontainer fd' h' hearlier hentry' hcontainer'
    apply hp.containers fd fd' h h' _ hentry hentry' hcontainer hcontainer'
    intro heq
    subst heq
    exact Std.lt_irrefl hearlier.2
  | perfEvent h => exact hsurvives
  | link h hprog =>
    rcases hsurvives with ⟨hcookie, hlt⟩
    have hprog := (resolved_entry_iff (by simp)).mpr hprog
    rcases Option.map_eq_some_iff.mp hprog with ⟨handler, hentry', _⟩
    exact ⟨hcookie, isAllocated_iff.mpr ⟨handler, hentry'⟩, hlt⟩

theorem roundTrips_iff_portable (lib : JsonLibrary) (env : Env) (sur : Surroundings)
    (s : BpftimeShm) (size : ℕ) (hs : s.Supported) (hsize : s.handlers.length ≤ size)
    : s.RoundTrips lib env sur size ↔ s.Portable env sur := by
  rw [hs.roundTrips_iff_comes lib hsize]
  constructor
  . intro ⟨hvalid, hcomes⟩
    exact hs.portable hvalid hcomes
  . intro hp
    exact ⟨fun _ _ => hp.wellEncoded hs, fun _ _ => hp.comes hs⟩

theorem slot?_mem_zipIdx (h : s.slot? fd = some handler)
    : ∃ i, fd = .ofNat i ∧ (handler, i) ∈ s.handlers.zipIdx := by
  have hfd := not_neg_of_slot? h
  refine ⟨fd.toNatClampNeg, (ofNat_toNatClampNeg hfd).symm, ?_⟩
  unfold slot? at h
  rw [if_neg hfd] at h
  exact List.mem_zipIdx_iff_getElem?.mpr h

def fourHandlers (event : BpfPerfEventHandler) : BpftimeShm where
  handlers := [
    .prog ⟨5, [], utf8 "p"⟩,
    .perfEvent event,
    .link ⟨0, 1, none⟩,
    .map ⟨utf8 "m", { type := 2, keySize := 4, valueSize := 4, maxEnts := 10 }⟩]
  segment := []

theorem fourHandlers_slot? {event : BpfPerfEventHandler}
    (h : (fourHandlers event).slot? fd = some handler)
    : (fd = 0 ∧ handler = .prog ⟨5, [], utf8 "p"⟩) ∨
        (fd = 1 ∧ handler = .perfEvent event) ∨
        (fd = 2 ∧ handler = .link ⟨0, 1, none⟩) ∨
        (fd = 3 ∧ handler
          = .map ⟨utf8 "m", { type := 2, keySize := 4, valueSize := 4, maxEnts := 10 }⟩) := by
  rcases slot?_mem_zipIdx h with ⟨i, rfl, hi⟩
  simp only [fourHandlers, List.zipIdx_cons, List.zipIdx_nil, List.mem_cons, Prod.mk.injEq,
    List.not_mem_nil, or_false] at hi
  rcases hi with ⟨rfl, rfl⟩ | ⟨rfl, rfl⟩ | ⟨rfl, rfl⟩ | ⟨rfl, rfl⟩ <;> simp

theorem supported_fourHandlers {event : BpfPerfEventHandler} (hevent : event.Supported)
    : (fourHandlers event).Supported := by
  constructor
  . simp [fourHandlers]
  . intro fd handler hslot
    rcases fourHandlers_slot? hslot with ⟨_, rfl⟩ | ⟨_, rfl⟩ | ⟨_, rfl⟩ | ⟨_, rfl⟩
    . exact show cStr (utf8 "p") = utf8 "p" by decide
    . exact hevent
    . trivial
    . exact show cStr (utf8 "m") = utf8 "m" by decide
  . intro fd h hslot
    rcases fourHandlers_slot? hslot with ⟨_, h'⟩ | ⟨_, h'⟩ | ⟨_, h'⟩ | ⟨_, h'⟩
    . simp at h'
    . simp at h'
    . cases h'
      exact ⟨rfl, rfl⟩
    . simp at h'

def quietSurroundings : Surroundings where
  fake := fun _ _ => 9
  unset := fun _ => 5
  room := fun _ => true

def tracepointEvent : BpfPerfEventHandler where
  type := PERF_TYPE_TRACEPOINT
  enabled := true
  data := .tracepoint 7 9

theorem portable_fourHandlers
    : (fourHandlers tracepointEvent).Portable plainEnv quietSurroundings := by
  constructor
  . intro fd handler hentry
    rcases fourHandlers_slot? (entry_eq_some_iff.mp hentry).1 with
      ⟨rfl, rfl⟩ | ⟨rfl, rfl⟩ | ⟨rfl, rfl⟩ | ⟨rfl, rfl⟩
    . unfold Survives
      decide
    . exact ⟨7, 9, rfl⟩
    . unfold Survives
      decide
    . unfold Survives
      decide
  . intro fd fd' h h' hne hentry hentry' _ _
    have hmap : ∀ fd h, (fourHandlers tracepointEvent).entry fd = some (.map h) → fd = 3 := by
      intro fd h hentry
      rcases fourHandlers_slot? (entry_eq_some_iff.mp hentry).1 with
        ⟨_, h'⟩ | ⟨_, h'⟩ | ⟨_, h'⟩ | ⟨hfd, _⟩
      . simp at h'
      . simp at h'
      . simp at h'
      . exact hfd
    exact absurd ((hmap fd h hentry).trans (hmap fd' h' hentry').symm) hne

theorem roundTrips_tracepoint : (fourHandlers tracepointEvent).Supported ∧
        (fourHandlers tracepointEvent).RoundTrips .direct plainEnv quietSurroundings 8 := by
  have hs : (fourHandlers tracepointEvent).Supported := supported_fourHandlers rfl
  refine ⟨hs, ?_⟩
  apply (roundTrips_iff_portable .direct plainEnv quietSurroundings _ 8 hs (by decide)).mpr
  exact portable_fourHandlers

def uprobeEvent : BpfPerfEventHandler := .uprobe false 64 7 (utf8 "m.so") 0

theorem not_roundTrips_uprobe : (fourHandlers uprobeEvent).Supported ∧
        ¬ (fourHandlers uprobeEvent).RoundTrips .direct plainEnv quietSurroundings 8 := by
  have hs : (fourHandlers uprobeEvent).Supported := supported_fourHandlers (.inl rfl)
  refine ⟨hs, ?_⟩
  intro hround
  have hcomes := ((hs.roundTrips_iff_comes .direct (by decide)).mp hround).2 1 _ rfl
  rcases hcomes with ⟨pid, tracepointId, hdata⟩
  simp [uprobeEvent, BpfPerfEventHandler.uprobe] at hdata

end BpftimeShm

end Bpftime.Shm
