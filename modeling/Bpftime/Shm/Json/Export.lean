import Bpftime.Shm.Json.Lemmas
import Mathlib.Data.List.Nodup
import Mathlib.Data.Set.List

namespace Bpftime.Shm

open Numeral

def BpfPerfEventHandler.Supported (h : BpfPerfEventHandler) : Prop :=
  match h.data with
  | .uprobe _ _ _ _ => h.type = BPF_TYPE_UPROBE ∨ h.type = BPF_TYPE_URETPROBE
  | .tracepoint _ _ => h.type = PERF_TYPE_TRACEPOINT
  | .software _ _ _ => h.type = PERF_TYPE_SOFTWARE
  | .custom _ | .kprobe _ _ _ => False

def Handler.Supported : Handler → Prop
  | .prog h => cStr h.name = h.name
  | .map h => cStr h.name = h.name
  | .perfEvent h => h.Supported
  | .link _ | .unused => True
  | .epoll | .memfd _ => False

def idKey (fd : Int32) : List UInt8 := numeral 10 fd.toNatClampNeg

theorem toNatClampNeg_lt (fd : Int32) : fd.toNatClampNeg < 2 ^ 31 := by
  have hlt := fd.toInt_lt
  rw [← Int32.toNat_toInt]
  omega

theorem ofNat_toNatClampNeg {fd : Int32} (hfd : ¬ fd < 0) : Int32.ofNat fd.toNatClampNeg = fd := by
  have hcount := (@ofInt_count_iff fd.toNatClampNeg).mpr (toNatClampNeg_lt fd)
  rw [Int32.ofInt_eq_ofNat] at hcount
  exact toNatClampNeg_inj hcount.1 hfd hcount.2

theorem toNatClampNeg_ofNat {i : ℕ} (hi : i < 2 ^ 31) : (Int32.ofNat i).toNatClampNeg = i := by
  have hcount := ofInt_count_iff.mpr hi
  rw [Int32.ofInt_eq_ofNat] at hcount
  exact hcount.2

theorem stoi_idKey {fd : Int32} (hfd : ¬ fd < 0) : stoi 10 (idKey fd) = some fd := by
  unfold idKey
  rw [stoi_numeral (by omega) (by omega) (toNatClampNeg_lt fd), ofNat_toNatClampNeg hfd]

theorem idKey_inj {fd fd' : Int32} (hfd : ¬ fd < 0) (hfd' : ¬ fd' < 0) (h : idKey fd = idKey fd')
    : fd = fd' := by
  have hkeys := congrArg (stoi 10) h
  rw [stoi_idKey hfd, stoi_idKey hfd'] at hkeys
  exact Option.some.inj hkeys

theorem valid_idKey (fd : Int32) : Utf8.valid (idKey fd) = true := by
  apply Utf8.valid_of_ascii
  exact ascii_numeral (by omega) (by omega)

theorem valid_bufferToHexString (buffer : List UInt8)
    : Utf8.valid (bufferToHexString buffer) = true := by
  apply Utf8.valid_of_ascii
  intro c hc
  rcases List.mem_flatMap.mp hc with ⟨b, _, hb⟩
  exact ascii_hexByte b c hb

theorem wellEncoded_prog {h : BpfProgHandler} {value : Json}
    (hvalue : handlerToJson (.prog h) = some value)
    : value.wellEncoded = true ↔ Utf8.valid (cStr h.name) = true := by
  cases hvalue
  simp +decide [Json.wellEncoded_ofPairs, Json.wellEncoded, valid_bufferToHexString]

theorem wellEncoded_map {h : BpfMapHandler} {value : Json}
    (hvalue : handlerToJson (.map h) = some value)
    : value.wellEncoded = true ↔ Utf8.valid (cStr h.name) = true := by
  cases hvalue
  simp +decide [Json.wellEncoded_ofPairs, Json.wellEncoded, bpfMapAttrToJson]

theorem wellEncoded_link {h : BpfLinkHandler} {value : Json}
    (hvalue : handlerToJson (.link h) = some value)
    : value.wellEncoded = true := by
  cases hvalue
  simp +decide [Json.wellEncoded_ofPairs, Json.wellEncoded]

theorem wellEncoded_tracepoint {h : BpfPerfEventHandler} {pid tracepointId : Int32} {value : Json}
    (hvalue : handlerToJson (.perfEvent h) = some value)
    (hdata : h.data = .tracepoint pid tracepointId)
    : value.wellEncoded = true := by
  cases hvalue
  unfold bpfPerfEventHandlerAttrToJson bpfPerfEventHandlerAttrToJson.data
  rw [hdata]
  simp +decide [Json.wellEncoded_ofPairs, Json.wellEncoded]

namespace BpftimeShm

variable {s : BpftimeShm} {fd : Int32} {handler : Handler}

/-- The tables whose export says all that an import needs. -/
structure Supported (s : BpftimeShm) : Prop where
  size : s.handlers.length ≤ 2 ^ 31
  handlers : ∀ fd handler, s.slot? fd = some handler → handler.Supported
  links : s.LinksResolved

theorem lt_length_of_slot? (h : s.slot? fd = some handler)
    : fd.toNatClampNeg < s.handlers.length := by
  have hfd := not_neg_of_slot? h
  unfold slot? at h
  rw [if_neg hfd] at h
  exact (List.getElem?_eq_some_iff.mp h).1

theorem isAllocated_iff : s.isAllocated fd = true ↔ ∃ handler, s.entry fd = some handler := by
  unfold isAllocated
  simp only [entry_eq_some_iff]
  cases s.slot? fd with
  | none => simp
  | some handler => simp

def jsonOf (s : BpftimeShm) (fd : Int32) : Json := ((s.slot? fd).bind handlerToJson).getD .null

def exported (s : BpftimeShm) : List (List UInt8 × Json) :=
  ((List.range s.handlers.length).filter fun i => s.isAllocated (.ofNat i)).map fun i =>
    (numeral 10 i, s.jsonOf (.ofNat i))

inductive Exportable (s : BpftimeShm) : Handler → Prop
  | prog (h : BpfProgHandler) (hname : cStr h.name = h.name) : Exportable s (.prog h)
  | map (h : BpfMapHandler) (hname : cStr h.name = h.name) : Exportable s (.map h)
  | perfEvent (h : BpfPerfEventHandler) (hevent : h.Supported) : Exportable s (.perfEvent h)
  | link (h : BpfLinkHandler) (hprog : s.isProgFd h.progId = true) : Exportable s (.link h)

theorem Supported.exportable (hs : s.Supported) (hentry : s.entry fd = some handler)
    : s.Exportable handler := by
  rcases entry_eq_some_iff.mp hentry with ⟨hslot, hkind⟩
  have hsupported := hs.handlers fd handler hslot
  cases handler with
  | prog h => exact .prog h hsupported
  | map h => exact .map h hsupported
  | perfEvent h => exact .perfEvent h hsupported
  | link h => exact .link h (hs.links fd h hslot).1
  | unused => simp [Handler.kind] at hkind
  | epoll | memfd => simp [Handler.Supported] at hsupported

theorem Supported.handlerToJson_eq (hs : s.Supported) (h : s.entry fd = some handler)
    : handlerToJson handler = some (s.jsonOf fd) := by
  unfold jsonOf
  rw [(entry_eq_some_iff.mp h).1]
  cases hs.exportable h <;> rfl

theorem Supported.exportAt_eq (hs : s.Supported) (j : Json) (i : ℕ) : s.exportAt j i
        =
      some (if s.isAllocated (.ofNat i) then j.set (numeral 10 i) (s.jsonOf (.ofNat i)) else j) := by
  by_cases halloc : s.isAllocated (.ofNat i) = true
  . rcases isAllocated_iff.mp halloc with ⟨handler, hentry⟩
    have hjson := hs.handlerToJson_eq hentry
    rcases entry_eq_some_iff.mp hentry with ⟨hslot, hkind⟩
    rw [if_pos halloc]
    unfold exportAt
    rw [hslot]
    cases handler with
    | unused => simp [Handler.kind] at hkind
    | _ =>
      dsimp only
      rw [hjson]
      rfl
  . rw [if_neg halloc]
    unfold exportAt
    cases hslot : s.slot? (.ofNat i) with
    | none => rfl
    | some handler =>
      cases handler with
      | unused => rfl
      | _ => simp [isAllocated, hslot, Handler.kind] at halloc

theorem Supported.foldlM_exportAt (hs : s.Supported) (l : List ℕ) : ∀ j, l.foldlM s.exportAt j
        =
      some (((l.filter fun i => s.isAllocated (.ofNat i)).map fun i =>
        (numeral 10 i, s.jsonOf (.ofNat i))).foldl (fun j e => Json.set j e.1 e.2) j) := by
  induction l with
  | nil =>
    intro j
    rfl
  | cons i l ih =>
    intro j
    rw [List.foldlM_cons, hs.exportAt_eq, List.filter_cons]
    by_cases halloc : s.isAllocated (.ofNat i) = true
    . rw [if_pos halloc, if_pos halloc]
      exact ih _
    . rw [if_neg halloc, if_neg halloc]
      exact ih j

theorem Supported.export_eq (hs : s.Supported)
    : (List.range s.handlers.length).foldlM s.exportAt .null = some (.ofPairs s.exported) :=
  hs.foldlM_exportAt _ .null

theorem Supported.mem_exported_iff (hs : s.Supported) {m : List UInt8 × Json}
    : m ∈ s.exported ↔ ∃ fd, s.isAllocated fd = true ∧ m = (idKey fd, s.jsonOf fd) := by
  have hsize := hs.size
  unfold exported
  simp only [List.mem_map, List.mem_filter, List.mem_range]
  constructor
  . intro ⟨i, ⟨hi, halloc⟩, hm⟩
    refine ⟨.ofNat i, halloc, ?_⟩
    unfold idKey
    rw [toNatClampNeg_ofNat (by omega), hm]
  . intro ⟨fd, halloc, hm⟩
    rcases isAllocated_iff.mp halloc with ⟨handler, hentry⟩
    have hslot := (entry_eq_some_iff.mp hentry).1
    refine ⟨fd.toNatClampNeg, ⟨lt_length_of_slot? hslot, ?_⟩, ?_⟩
    . rw [ofNat_toNatClampNeg (not_neg_of_slot? hslot)]
      exact halloc
    . rw [ofNat_toNatClampNeg (not_neg_of_slot? hslot), hm]
      rfl

theorem Supported.nodup_exported (hs : s.Supported) : (s.exported.map Prod.fst).Nodup := by
  have hsize := hs.size
  unfold exported
  rw [List.map_map]
  apply List.Nodup.map_on
  . intro i hi j hj heq
    simp only [List.mem_filter, List.mem_range] at hi hj
    simp only [Function.comp_apply] at heq
    have hstoi := stoi_numeral (n := i) (show 1 < 10 by omega) (by omega) (by omega)
    rw [heq, stoi_numeral (by omega) (by omega) (by omega)] at hstoi
    have heq' := congrArg Int32.toNatClampNeg (Option.some.inj hstoi)
    rw [toNatClampNeg_ofNat (by omega), toNatClampNeg_ofNat (by omega)] at heq'
    exact heq'.symm
  . exact List.Nodup.filter _ List.nodup_range

theorem Supported.wellEncoded_exported (hs : s.Supported)
    : (Json.ofPairs s.exported).wellEncoded = true
        ↔
      ∀ fd handler, s.entry fd = some handler → (s.jsonOf fd).wellEncoded = true := by
  rw [Json.wellEncoded_ofPairs hs.nodup_exported]
  simp only [hs.mem_exported_iff, isAllocated_iff]
  constructor
  . intro h fd handler hentry
    exact (h _ ⟨fd, ⟨handler, hentry⟩, rfl⟩).2
  . rintro h _ ⟨fd, ⟨handler, hentry⟩, rfl⟩
    exact ⟨valid_idKey fd, h fd handler hentry⟩

theorem not_neg_of_isAllocated (h : s.isAllocated fd = true) : ¬ fd < 0 := by
  rcases isAllocated_iff.mp h with ⟨handler, hentry⟩
  exact not_neg_of_slot? (entry_eq_some_iff.mp hentry).1

theorem Supported.items_exported (hs : s.Supported)
    : ∃ ids : List Int32, (Json.ofPairs s.exported).items (numeral 10)
          = ids.map (fun fd => (idKey fd, s.jsonOf fd)) ∧
        ids.Pairwise (fun a b => idKey a < idKey b) ∧
        ∀ fd, fd ∈ ids ↔ s.isAllocated fd = true := by
  rw [Json.items_ofPairs]
  have hmem : ∀ m, m ∈ OrderedMap.ofList s.exported ↔
      ∃ fd, s.isAllocated fd = true ∧ m = (idKey fd, s.jsonOf fd) := by
    intro m
    rw [OrderedMap.mem_ofList hs.nodup_exported, hs.mem_exported_iff]
  -- the keys are lifted to occupied file descriptors: a negative one would have the key of zero
  have hrange : OrderedMap.ofList s.exported
      ∈ Set.range (List.map fun fd : { fd // s.isAllocated fd = true } =>
        (idKey fd, s.jsonOf fd)) := by
    rw [Set.range_list_map]
    intro m hm
    rcases (hmem m).mp hm with ⟨fd, halloc, rfl⟩
    exact ⟨⟨fd, halloc⟩, rfl⟩
  rcases hrange with ⟨ids, hids⟩
  have hsorted := OrderedMap.ascending_ofList s.exported
  unfold OrderedMap.Ascending at hsorted
  rw [← hids, List.pairwise_map] at hsorted
  refine ⟨ids.map Subtype.val, ?_, List.pairwise_map.mpr hsorted, ?_⟩
  . rw [← hids, List.map_map]
    rfl
  . intro fd
    simp only [List.mem_map]
    constructor
    . rintro ⟨fd, _, rfl⟩
      exact fd.property
    . intro halloc
      have hin := (hmem _).mpr ⟨fd, halloc, rfl⟩
      rw [← hids] at hin
      rcases List.mem_map.mp hin with ⟨fd', hfd', heq⟩
      refine ⟨fd', hfd', ?_⟩
      exact idKey_inj (not_neg_of_isAllocated fd'.property) (not_neg_of_isAllocated halloc)
        (congrArg Prod.fst heq)

end BpftimeShm

end Bpftime.Shm
