import Bpftime.Data.Registry
import Bpftime.Data.Run
import Bpftime.SyscallTrace.Impl

namespace Bpftime.SyscallTrace

variable {ω : Type}

structure Attached (ω : Type) where
  id : ℤ
  ptr : ℕ
  entry : AttachEntry ω

def Attached.hasKind (isEnter : Bool) (nr : ℤ) (a : Attached ω) : Bool :=
  isEnter = a.entry.isEnter ∧ nr = a.entry.sysNr.toInt

inductive Op (ω : Type) where
  | attach (cb : Ctx → Prog ω) (privateData : Option PrivateData) (attachType : Int32) (ptr : ℕ)
  | detach (id : ℤ)

def AttachImpl.step (s : AttachImpl ω) : Op ω → Option (ℤ × AttachImpl ω)
  | .attach cb privateData attachType ptr =>
    s.createAttachWithEbpfCallback cb privateData attachType ptr
  | .detach id => s.detachById id

def observe (attached : List (Attached ω)) : Op ω → ℤ → List (Attached ω)
  | .attach cb (some priv) _ ptr, reply =>
    if 0 < reply then
      attached ++ [⟨reply, ptr, ⟨cb, priv.sysNr, priv.isEnter⟩⟩]
    else
      attached
  | .attach _ none _ _, _ => attached
  | .detach id, reply => if reply = 0 then attached.filter (·.id ≠ id) else attached

structure Traced (ω : Type) where
  impl : AttachImpl ω
  attached : List (Attached ω)

namespace Traced

def step (s : Traced ω) (op : Op ω) : Option (Traced ω) := do
  let (reply, impl) ← s.impl.step op
  return { impl, attached := observe s.attached op reply }

def start : Traced ω := { impl := .empty, attached := [] }

def run (ops : List (Op ω)) : Option (Traced ω) := ops.foldlM step start

def order (s : Traced ω) (isEnter : Bool) (nr : ℤ) : List (Attached ω) :=
  (s.attached.filter (Attached.hasKind isEnter nr)).insertionSort fun a b => a.ptr ≤ b.ptr

end Traced

namespace AttachImpl

theorem callbacks_setCallbacks (s : AttachImpl ω) (isEnter isEnter' : Bool) (nr nr' : ℤ)
    (set : List ℕ)
    : (s.setCallbacks isEnter nr set).callbacks isEnter' nr'
        =
      if isEnter' = isEnter ∧ nr' = nr then set else s.callbacks isEnter' nr' := by
  unfold setCallbacks callbacks
  by_cases hnr : nr = -1 <;> by_cases hnr' : nr' = -1 <;> cases isEnter <;> cases isEnter' <;>
    simp [hnr, hnr', Function.update_apply, Ne.symm]

section SetCallbacks

variable (s : AttachImpl ω) (isEnter : Bool) (nr : ℤ) (set : List ℕ)

@[simp] theorem nextId_setCallbacks : (s.setCallbacks isEnter nr set).nextId = s.nextId := by
  unfold setCallbacks
  split <;> rfl

@[simp] theorem heap_setCallbacks : (s.setCallbacks isEnter nr set).heap = s.heap := by
  unfold setCallbacks
  split <;> rfl

@[simp] theorem attachEntries_setCallbacks
    : (s.setCallbacks isEnter nr set).attachEntries = s.attachEntries := by
  unfold setCallbacks
  split <;> rfl

end SetCallbacks

@[simp] theorem callbacks_removeEntry (s : AttachImpl ω) (id : ℤ) (ptr : ℕ)
    : (s.removeEntry id ptr).callbacks = s.callbacks := rfl

theorem createAttach_cases {s s' : AttachImpl ω} {cb : Ctx → Prog ω}
    {privateData : Option PrivateData} {attachType : Int32} {ptr : ℕ} {reply : ℤ}
    (h : s.createAttachWithEbpfCallback cb privateData attachType ptr = some (reply, s'))
    : (reply < 0 ∧ s' = s)
      ∨ ∃ priv, privateData = some priv ∧ reply = s.nextId ∧ s.heap ptr = none
          ∧ ¬(priv.sysNr ≥ 512 ∨ priv.sysNr < -1)
          ∧ s' = (s.addEntry ptr ⟨cb, priv.sysNr, priv.isEnter⟩).setCallbacks priv.isEnter
              priv.sysNr.toInt (insertPtr ptr (s.callbacks priv.isEnter priv.sysNr.toInt)) := by
  unfold createAttachWithEbpfCallback at h
  split at h
  . cases h
    exact Or.inl ⟨by decide, rfl⟩
  . split at h
    . cases h
      exact Or.inl ⟨by decide, rfl⟩
    next priv =>
      split at h
      . cases h
        exact Or.inl ⟨by decide, rfl⟩
      next hnumber =>
        split at h
        . cases h
        next hdefined =>
          cases h
          rw [not_or, Option.not_isSome_iff_eq_none] at hdefined
          exact Or.inr ⟨priv, rfl, rfl, hdefined.2, hnumber, rfl⟩

theorem detachById_cases {s s' : AttachImpl ω} {id reply : ℤ}
    (h : s.detachById id = some (reply, s'))
    : (reply ≠ 0 ∧ s' = s)
      ∨ ∃ ptr entry, s.attachEntries id = some ptr ∧ s.heap ptr = some entry ∧ reply = 0
          ∧ s' = (s.setCallbacks entry.isEnter entry.sysNr.toInt
              ((s.callbacks entry.isEnter entry.sysNr.toInt).erase ptr)).removeEntry id ptr := by
  unfold detachById at h
  cases hptr : s.attachEntries id with
  | none =>
    rw [hptr] at h
    cases h
    exact Or.inl ⟨by decide, rfl⟩
  | some ptr =>
    rw [hptr] at h
    obtain ⟨entry, hentry, h⟩ := Option.bind_eq_some_iff.mp h
    cases h
    exact Or.inr ⟨ptr, entry, rfl, hentry, rfl, rfl⟩

end AttachImpl

theorem insertPtr_sorted {p : ℕ} {set : List ℕ} (h : set.Pairwise (· ≤ ·))
    : (insertPtr p set).Pairwise (· ≤ ·) := by
  unfold insertPtr
  split
  . exact h
  . exact h.orderedInsert p set

theorem insertPtr_perm {p : ℕ} {set : List ℕ} (h : p ∉ set)
    : (insertPtr p set).Perm (p :: set) := by
  rw [insertPtr, if_neg h]
  apply List.perm_orderedInsert

theorem perm_cons_filter {attached : List (Attached ω)} (hids : (attached.map Attached.id).Nodup)
    {a : Attached ω} (ha : a ∈ attached)
    : attached.Perm (a :: attached.filter (·.id ≠ a.id)) := by
  induction attached with
  | nil => cases ha
  | cons b rest ih =>
    rw [List.map_cons, List.nodup_cons] at hids
    cases ha with
    | head =>
      rw [List.filter_cons_of_neg (by simp)]
      have hrest : rest.filter (·.id ≠ a.id) = rest := by
        rw [List.filter_eq_self]
        intro c hc
        have hne : c.id ≠ a.id := fun h => hids.1 (h ▸ List.mem_map_of_mem hc)
        simp [hne]
      rw [hrest]
    | tail _ ha =>
      have hne : b.id ≠ a.id := fun h => hids.1 (h ▸ List.mem_map_of_mem ha)
      rw [List.filter_cons_of_pos (by simp [hne])]
      exact ((ih hids.2 ha).cons b).trans (List.Perm.swap ..)

namespace Traced

structure Inv (s : Traced ω) : Prop where
  registered : Registry.Holds Attached.id Attached.ptr (fun a entry => entry = a.entry) s.attached
    s.impl.nextId s.impl.attachEntries s.impl.heap
  sorted : ∀ isEnter nr, (s.impl.callbacks isEnter nr).Pairwise (· ≤ ·)
  perm : ∀ isEnter nr, (s.impl.callbacks isEnter nr).Perm
    ((s.attached.filter (Attached.hasKind isEnter nr)).map Attached.ptr)

theorem inv_start : (start : Traced ω).Inv where
  registered := Registry.holds_empty
  sorted := by
    intro isEnter nr
    unfold AttachImpl.callbacks
    split <;> apply List.Pairwise.nil
  perm := by
    intro isEnter nr
    unfold AttachImpl.callbacks
    split <;> apply List.Perm.nil

theorem Inv.heap {s : Traced ω} (h : s.Inv) (a : Attached ω) (ha : a ∈ s.attached)
    : s.impl.heap a.ptr = some a.entry := by
  obtain ⟨entry, hheap, rfl⟩ := h.registered.stored a ha
  exact hheap

theorem Inv.notMem_callbacks {s : Traced ω} (h : s.Inv) {ptr : ℕ}
    (hptr : ptr ∉ s.attached.map Attached.ptr) (isEnter : Bool) (nr : ℤ)
    : ptr ∉ s.impl.callbacks isEnter nr := by
  intro hmem
  apply hptr
  have hmem' := (h.perm isEnter nr).mem_iff.mp hmem
  apply List.map_subset _ _ hmem'
  apply List.filter_subset_self

theorem Inv.attach {s : Traced ω} (h : s.Inv) {ptr : ℕ} (hfree : s.impl.heap ptr = none)
    (entry : AttachEntry ω)
    : Inv {
        impl := (s.impl.addEntry ptr entry).setCallbacks entry.isEnter entry.sysNr.toInt
          (insertPtr ptr (s.impl.callbacks entry.isEnter entry.sysNr.toInt))
        attached := s.attached ++ [⟨s.impl.nextId, ptr, entry⟩] } := by
  have hptr := h.registered.ptr_notMem hfree
  constructor
  case registered =>
    rw [AttachImpl.nextId_setCallbacks, AttachImpl.attachEntries_setCallbacks,
      AttachImpl.heap_setCallbacks]
    exact h.registered.add (a := ⟨s.impl.nextId, ptr, entry⟩) rfl hfree rfl
  case sorted =>
    intro isEnter nr
    rw [AttachImpl.callbacks_setCallbacks]
    split
    . exact insertPtr_sorted (h.sorted _ _)
    . exact h.sorted isEnter nr
  case perm =>
    intro isEnter nr
    rw [AttachImpl.callbacks_setCallbacks, List.filter_append, List.map_append]
    split
    next hkind =>
      obtain ⟨rfl, rfl⟩ := hkind
      rw [List.filter_cons_of_pos (by simp [Attached.hasKind])]
      apply (insertPtr_perm (h.notMem_callbacks hptr _ _)).trans
      apply ((h.perm _ _).cons ptr).trans
      exact (List.perm_append_singleton ..).symm
    next hkind =>
      rw [List.filter_cons_of_neg (by simpa [Attached.hasKind] using hkind)]
      rw [List.filter_nil, List.map_nil, List.append_nil]
      exact h.perm isEnter nr

theorem Inv.detach {s : Traced ω} (h : s.Inv) {a : Attached ω} (ha : a ∈ s.attached) : Inv {
        impl := (s.impl.setCallbacks a.entry.isEnter a.entry.sysNr.toInt
          ((s.impl.callbacks a.entry.isEnter a.entry.sysNr.toInt).erase a.ptr)).removeEntry
          a.id a.ptr
        attached := s.attached.filter (·.id ≠ a.id) } := by
  have hrest := perm_cons_filter h.registered.ids ha
  constructor
  case registered =>
    have hremoved := h.registered.remove ha
    rw [← AttachImpl.nextId_setCallbacks, ← AttachImpl.attachEntries_setCallbacks,
      ← AttachImpl.heap_setCallbacks] at hremoved
    exact hremoved
  case sorted =>
    intro isEnter nr
    apply List.Pairwise.sublist _ (h.sorted isEnter nr)
    rw [AttachImpl.callbacks_removeEntry, AttachImpl.callbacks_setCallbacks]
    split
    next hkind =>
      rw [hkind.1, hkind.2]
      apply List.erase_sublist
    . apply List.Sublist.refl
  case perm =>
    intro isEnter nr
    have hkept := (h.perm isEnter nr).trans
      ((hrest.filter (Attached.hasKind isEnter nr)).map Attached.ptr)
    rw [AttachImpl.callbacks_removeEntry, AttachImpl.callbacks_setCallbacks]
    split
    next hkind =>
      obtain ⟨rfl, rfl⟩ := hkind
      rw [List.filter_cons_of_pos (by simp [Attached.hasKind]), List.map_cons] at hkept
      have herased := hkept.erase a.ptr
      rw [List.erase_cons_head] at herased
      exact herased
    next hkind =>
      rw [List.filter_cons_of_neg (by simpa [Attached.hasKind] using hkind)] at hkept
      exact hkept

theorem Inv.step {s s' : Traced ω} (h : s.Inv) {op : Op ω} (hstep : s.step op = some s')
    : s'.Inv := by
  obtain ⟨⟨reply, impl⟩, himpl, hs'⟩ := Option.bind_eq_some_iff.mp hstep
  cases hs'
  cases op with
  | attach cb privateData attachType ptr =>
    cases AttachImpl.createAttach_cases himpl with
    | inl hrefused =>
      obtain ⟨hreply, rfl⟩ := hrefused
      cases privateData with
      | none => exact h
      | some priv =>
        rw [observe, if_neg (by omega)]
        exact h
    | inr htaken =>
      obtain ⟨priv, rfl, rfl, hfree, _, rfl⟩ := htaken
      rw [observe, if_pos h.registered.pos]
      exact h.attach hfree ⟨cb, priv.sysNr, priv.isEnter⟩
  | detach id =>
    cases AttachImpl.detachById_cases himpl with
    | inl hunknown =>
      obtain ⟨hreply, rfl⟩ := hunknown
      rw [observe, if_neg hreply]
      exact h
    | inr hfound =>
      obtain ⟨ptr, entry, hptr, hentry, rfl, rfl⟩ := hfound
      obtain ⟨a, ha, rfl, rfl⟩ := h.registered.entries id ptr hptr
      rw [h.heap a ha] at hentry
      cases hentry
      rw [observe, if_pos rfl]
      exact h.detach ha

theorem inv_run {ops : List (Op ω)} {s : Traced ω} (h : run ops = some s) : s.Inv := by
  apply Run.Exec.invariant _ (Run.exec_of_foldlM h) inv_start
  intro s op s' hinv _ hstep
  exact hinv.step hstep

theorem Inv.callbacks_eq {s : Traced ω} (h : s.Inv) (isEnter : Bool) (nr : ℤ)
    : s.impl.callbacks isEnter nr = (s.order isEnter nr).map Attached.ptr := by
  unfold order
  rw [List.map_insertionSort (s := (· ≤ ·)) _ _ _ (fun _ _ _ _ => Iff.rfl)]
  apply List.Perm.eq_of_pairwise' (h.sorted isEnter nr) (List.pairwise_insertionSort ..)
  exact (h.perm isEnter nr).trans (List.perm_insertionSort ..).symm

end Traced

end Bpftime.SyscallTrace
