import Bpftime.Data.BackRefs
import Bpftime.Frida.Impl

/-!
This module contains what each call does to the tables of attaches.
-/

namespace Bpftime.Frida

def Answer.Rejected : Answer → Prop
  | .returned ret _ => ret < 0
  | .thrown _ => True

namespace AttachImpl

def owner (s : AttachImpl) (p : ℕ) : Option ℕ := (s.entries p).bind AttachEntry.internalAttach

def members (s : AttachImpl) (i : ℕ) : Option (List ℕ) :=
  (s.internals i).map InternalAttachEntry.userAttaches

def BackedBy (s : AttachImpl) (i : ℕ) (inner : InternalAttachEntry) : Prop :=
  if inner.hasListener then
    s.interceptor.listeners inner.function = some i
      ∧ s.interceptor.replacements inner.function = none
  else
    s.interceptor.listeners inner.function = none
      ∧ (s.interceptor.replacements inner.function = none
        ∨ s.interceptor.replacements inner.function = some i)

structure Inv (s : AttachImpl) : Prop where
  linked : BackRefs.Linked s.owner s.members
  attaches_iff : BackRefs.Indexed AttachEntry.selfId s.attaches s.entries
  selfId_lt : ∀ p e, s.entries p = some e → 0 < e.selfId ∧ e.selfId < s.nextId
  internalAttaches_iff :
    BackRefs.Indexed InternalAttachEntry.function s.internalAttaches s.internals
  same_function : ∀ p e, s.entries p = some e →
    ∃ i inner, e.internalAttach = some i ∧ s.internals i = some inner
      ∧ inner.function = e.function
  function_ne : ∀ i inner, s.internals i = some inner → inner.function ≠ 0
  backed : ∀ i inner, s.internals i = some inner → s.BackedBy i inner
  unbacked : ∀ f, s.internalAttaches f = none →
    s.interceptor.listeners f = none ∧ s.interceptor.replacements f = none
  nextId_pos : 0 < s.nextId

theorem inv_empty : Inv empty where
  linked := BackRefs.linked_empty
  attaches_iff := by simp [BackRefs.Indexed, empty]
  selfId_lt := by simp [empty]
  internalAttaches_iff := by simp [BackRefs.Indexed, empty]
  same_function := by simp [empty]
  function_ne := by simp [empty]
  backed := by simp [empty]
  unbacked := by simp [empty]
  nextId_pos := by simp [empty]

def attached (s : AttachImpl) (i : ℕ) (inner : InternalAttachEntry) (p : ℕ)
    (cb : AttachEntryCallback) (interceptor : Interceptor) : AttachImpl where
  nextId := s.nextId + 1
  entries := Function.update s.entries p (some ⟨s.nextId, cb, inner.function, some i⟩)
  internals := Function.update s.internals i
    (some { inner with userAttaches := inner.userAttaches ++ [p] })
  attaches := Function.update s.attaches s.nextId (some p)
  internalAttaches := Function.update s.internalAttaches inner.function (some i)
  interceptor

def erased (s : AttachImpl) (D : List ℕ) : AttachImpl :=
  { s with
    entries := fun p => if p ∈ D then none else s.entries p
    attaches := fun id => (s.attaches id).filter (· ∉ D) }

def detached (s : AttachImpl) (i : ℕ) (inner : InternalAttachEntry) (D : List ℕ) : AttachImpl :=
  let rest := inner.userAttaches.filter (· ∉ D)
  { s.erased D with
    internals := Function.update s.internals i
      (if rest = [] then none else some { inner with userAttaches := rest })
    internalAttaches :=
      if rest = [] then Function.update s.internalAttaches inner.function none
      else s.internalAttaches
    interceptor := if rest = [] then s.interceptor.unhook inner else s.interceptor }

inductive Place (s : AttachImpl) (f : UInt64) (type : Int32) (fresh : Fresh)
    : ℕ → InternalAttachEntry → Interceptor → Prop where
  | joins {i : ℕ} {inner : InternalAttachEntry} (hi : s.internals i = some inner)
      (hf : inner.function = f)
      (hno : ∀ p ∈ inner.userAttaches, ∀ e, s.entries p = some e →
        e.getType ≠ ATTACH_UPROBE_OVERRIDE)
      : Place s f type fresh i inner s.interceptor
  | opens {hasListener : Bool} {interceptor : Interceptor} (hf : s.internalAttaches f = none)
      (hfree : s.internals fresh.inner = none)
      (hhook : s.interceptor.hook f type fresh.inner fresh.interceptorOk
        = .ok (hasListener, interceptor))
      : Place s f type fresh fresh.inner ⟨f, [], hasListener⟩ interceptor

def Refuses (s : AttachImpl) (f : UInt64) (type : Int32) : Prop :=
  f = 0
    ∨ (∃ i inner, s.internals i = some inner ∧ inner.function = f
        ∧ ∃ p ∈ inner.userAttaches, ∃ e, s.entries p = some e
          ∧ e.getType = ATTACH_UPROBE_OVERRIDE)
    ∨ (s.internalAttaches f = none
        ∧ type ∈ [ATTACH_UPROBE, ATTACH_URETPROBE, ATTACH_UPROBE_OVERRIDE])

inductive AttachResult (s : AttachImpl) (f : UInt64) (cb : AttachEntryCallback) (fresh : Fresh)
    : Except Fault (Answer × AttachImpl) → Prop where
  | fault {e : Fault} (he : e ≠ .dangling) : AttachResult s f cb fresh (.error e)
  | refused {a : Answer} (ha : a.Rejected) (hwhy : Refuses s f cb.attachType)
      : AttachResult s f cb fresh (.ok (a, s))
  | accepted {i : ℕ} {inner : InternalAttachEntry} {interceptor : Interceptor} (hf : f ≠ 0)
      (hfree : s.entries fresh.entry = none)
      (hplace : Place s f cb.attachType fresh i inner interceptor)
      : AttachResult s f cb fresh
          (.ok (.returned s.nextId, s.attached i inner fresh.entry cb interceptor))

theorem Place.function_eq {s : AttachImpl} {f : UInt64} {type : Int32} {fresh : Fresh} {i : ℕ}
    {inner : InternalAttachEntry} {interceptor : Interceptor}
    (h : Place s f type fresh i inner interceptor)
    : inner.function = f := by
  cases h with
  | joins _ hf _ => exact hf
  | opens => rfl

variable {s : AttachImpl}

section Queries

theorem Inv.internals_unique (hs : Inv s) {i j : ℕ} {inner inner' : InternalAttachEntry}
    (hi : s.internals i = some inner) (hj : s.internals j = some inner')
    (hf : inner.function = inner'.function)
    : i = j := by
  have hi' := hs.internalAttaches_iff.find hi
  rw [hf, hs.internalAttaches_iff.find hj] at hi'
  cases hi'
  rfl

theorem Inv.entry_of_mem (hs : Inv s) {i p : ℕ} {inner : InternalAttachEntry}
    (hi : s.internals i = some inner) (hp : p ∈ inner.userAttaches)
    : ∃ e, s.entries p = some e ∧ e.internalAttach = some i ∧ e.function = inner.function := by
  have howner : s.owner p = some i :=
    hs.linked.owner_of_mem (l := inner.userAttaches) (by simp [members, hi]) hp
  obtain ⟨e, he, hei⟩ := Option.bind_eq_some_iff.mp howner
  obtain ⟨j, inner', hj, hinner', hf⟩ := hs.same_function p e he
  rw [hei] at hj
  cases hj
  rw [hi] at hinner'
  cases hinner'
  exact ⟨e, he, hei, hf.symm⟩

theorem Inv.mem_of_entry (hs : Inv s) {p i : ℕ} {e : AttachEntry} {inner : InternalAttachEntry}
    (he : s.entries p = some e) (hei : e.internalAttach = some i)
    (hi : s.internals i = some inner)
    : p ∈ inner.userAttaches := by
  have howner : s.owner p = some i := by simp [owner, he, hei]
  exact hs.linked.mem_of_owner (by simp [members, hi]) howner

theorem Inv.attaches_nextId (hs : Inv s) : s.attaches s.nextId = none := by
  by_contra hne
  obtain ⟨p, hp⟩ := Option.ne_none_iff_exists'.mp hne
  obtain ⟨e, he, hid⟩ := (hs.attaches_iff _ _).mp hp
  have := (hs.selfId_lt p e he).2
  omega

theorem hasType_spec (types : List Int32) {ps : List ℕ} (hps : ∀ p ∈ ps, ∃ e, s.entries p = some e)
    : ∃ b, s.hasType types ps = .ok b
        ∧ (b = true ↔ ∃ p ∈ ps, ∃ e, s.entries p = some e ∧ e.getType ∈ types) := by
  induction ps with
  | nil => exact ⟨false, rfl, by simp⟩
  | cons p ps ih =>
    obtain ⟨e, he⟩ := hps p List.mem_cons_self
    obtain ⟨b, hb, hiff⟩ := ih fun q hq => hps q (List.mem_cons_of_mem p hq)
    unfold hasType
    rw [he]
    by_cases htype : e.getType ∈ types
    . refine ⟨true, by simp [deref, bind, Except.bind, htype, pure, Except.pure], ?_⟩
      simp only [true_iff]
      exact ⟨p, List.mem_cons_self, e, he, htype⟩
    . refine ⟨b, by simp [deref, bind, Except.bind, htype, hb], ?_⟩
      rw [hiff]
      simp [he, htype]

end Queries

section Attach

variable {i p : ℕ} {inner : InternalAttachEntry} {f : UInt64} {cb : AttachEntryCallback}
variable {fresh : Fresh} {interceptor : Interceptor}

theorem addAttach_cases (hi : s.internals i = some inner)
    (hf : s.internalAttaches inner.function = some i) (hid : s.attaches s.nextId = none)
    (cb : AttachEntryCallback) (ptr : ℕ)
    : (∃ e, s.addAttach i inner.function cb ptr = .error e ∧ e ≠ .dangling)
      ∨ (s.entries ptr = none
          ∧ s.addAttach i inner.function cb ptr
              = .ok (.returned s.nextId, s.attached i inner ptr cb s.interceptor)) := by
  unfold addAttach
  by_cases hmax : s.nextId = INT_MAX
  . left
    exact ⟨.overflow, by simp [hmax, throw, throwThe, MonadExceptOf.throw, bind, Except.bind],
      by simp⟩
  . by_cases huse : (s.entries ptr).isSome
    . left
      exact ⟨.inUse, by simp [hmax, huse, throw, throwThe, MonadExceptOf.throw, bind,
        Except.bind], by simp⟩
    . right
      refine ⟨by simpa using huse, ?_⟩
      have hkeep : Function.update s.internalAttaches inner.function (some i)
          = s.internalAttaches := by
        rw [← hf, Function.update_eq_self]
      simp [hmax, huse, emplace, hid, link, deref, hi, bind, Except.bind, pure, Except.pure,
        attached, hkeep]

theorem hook_eq_error {ic : Interceptor} {type : Int32} {ptr : ℕ} {ok : Bool} {what : String}
    (h : ic.hook f type ptr ok = .error what)
    : type ∈ [ATTACH_UPROBE, ATTACH_URETPROBE, ATTACH_UPROBE_OVERRIDE] := by
  unfold Interceptor.hook at h
  split at h
  next htype => rcases htype with rfl | rfl <;> simp
  next =>
    split at h
    next htype => simp [htype]
    next => cases h

theorem Inv.attachAt_result (hs : Inv s) (f : UInt64) (cb : AttachEntryCallback) (fresh : Fresh)
    : AttachResult s f cb fresh (s.attachAt f cb fresh) := by
  unfold attachAt
  by_cases hf : f = 0
  . rw [if_pos hf]
    exact .refused (by simp [Answer.Rejected, EINVAL]) (.inl hf)
  . rw [if_neg hf]
    cases hinternal : s.internalAttaches f with
    | none =>
      by_cases hfree : (s.internals fresh.inner).isSome
      . rw [if_pos hfree]
        exact .fault (by simp)
      . rw [if_neg hfree]
        have hfree : s.internals fresh.inner = none := by simpa using hfree
        cases hhook : s.interceptor.hook f cb.attachType fresh.inner fresh.interceptorOk with
        | error what => exact .refused trivial (.inr (.inr ⟨hinternal, hook_eq_error hhook⟩))
        | ok r =>
          obtain ⟨hasListener, interceptor⟩ := r
          dsimp only
          have hself : Function.update s.internals fresh.inner (some ⟨f, [], hasListener⟩)
              fresh.inner = some ⟨f, [], hasListener⟩ := Function.update_self _ _ _
          obtain ⟨e, heq, he⟩ | ⟨hentry, heq⟩ := addAttach_cases
            (s := { s with
              interceptor
              internals := Function.update s.internals fresh.inner (some ⟨f, [], hasListener⟩)
              internalAttaches := Function.update s.internalAttaches f (some fresh.inner) })
            hself (Function.update_self _ _ _) hs.attaches_nextId cb fresh.entry
          . rw [heq]
            exact .fault he
          . rw [heq]
            have hplace : Place s f cb.attachType fresh fresh.inner ⟨f, [], hasListener⟩
                interceptor := .opens hinternal hfree hhook
            have hsame : AttachResult s f cb fresh _ := .accepted hf hentry hplace
            simpa only [attached, Function.update_idem] using hsame
    | some i =>
      dsimp only
      obtain ⟨inner, hi, rfl⟩ := (hs.internalAttaches_iff f i).mp hinternal
      obtain ⟨b, hb, hiff⟩ := hasType_spec [ATTACH_UPROBE_OVERRIDE] fun p hp =>
        (hs.entry_of_mem hi hp).imp fun _ he => he.1
      rw [hi]
      unfold hasOverride
      simp only [deref, hb, bind, Except.bind]
      cases b with
      | true =>
        obtain ⟨p, hp, e, he, htype⟩ := hiff.mp rfl
        exact .refused (by simp [Answer.Rejected, EEXIST])
          (.inr (.inl ⟨i, inner, hi, rfl, p, hp, e, he, List.mem_singleton.mp htype⟩))
      | false =>
        have hno : ∀ p ∈ inner.userAttaches, ∀ e, s.entries p = some e →
            e.getType ≠ ATTACH_UPROBE_OVERRIDE := by
          intro p hp e he htype
          exact absurd (hiff.mpr ⟨p, hp, e, he, by simp [htype]⟩) (by simp)
        obtain ⟨e, heq, he⟩ | ⟨hentry, heq⟩ :=
          addAttach_cases hi hinternal hs.attaches_nextId cb fresh.entry
        . rw [heq]
          exact .fault he
        . rw [heq]
          exact .accepted hf hentry (.joins hi rfl hno)

theorem Inv.members_of_place (hs : Inv s) (h : Place s f cb.attachType fresh i inner interceptor)
    : (s.members i).getD [] = inner.userAttaches
        ∧ (∀ j inner', s.internals j = some inner' → (inner'.function = f ↔ j = i)) := by
  cases h with
  | joins hi hf hno =>
    refine ⟨by simp [members, hi], ?_⟩
    intro j inner' hj
    constructor
    . intro heq
      exact hs.internals_unique hj hi (heq.trans hf.symm)
    . rintro rfl
      rw [hi] at hj
      cases hj
      exact hf
  | opens hf hfree hhook =>
    refine ⟨by simp [members, hfree], ?_⟩
    intro j inner' hj
    constructor
    . intro heq
      rw [(hs.internalAttaches_iff f j).mpr ⟨inner', hj, heq⟩] at hf
      cases hf
    . rintro rfl
      rw [hfree] at hj
      cases hj

theorem Inv.backed_of_place (hs : Inv s) (h : Place s f cb.attachType fresh i inner interceptor)
    : (s.attached i inner p cb interceptor).BackedBy i inner
        ∧ ∀ g, g ≠ f → interceptor.listeners g = s.interceptor.listeners g
            ∧ interceptor.replacements g = s.interceptor.replacements g := by
  cases h with
  | joins hi hf hno => exact ⟨hs.backed i inner hi, fun g _ => ⟨rfl, rfl⟩⟩
  | opens hf hfree hhook =>
    obtain ⟨hl, hr⟩ := hs.unbacked f hf
    unfold Interceptor.hook at hhook
    unfold BackedBy attached
    split at hhook
    . split at hhook
      . cases hhook
        refine ⟨by simp [hr], ?_⟩
        intro g hg
        simp [hg]
      . cases hhook
    . split at hhook
      . split at hhook
        . cases hhook
          refine ⟨by simp [hl], ?_⟩
          intro g hg
          simp [hg]
        . cases hhook
      . cases hhook
        exact ⟨by simp [hl, hr], fun g _ => ⟨rfl, rfl⟩⟩

section Lookup

variable (s i inner p cb interceptor)

theorem entries_attached (q : ℕ) : (s.attached i inner p cb interceptor).entries q
        = if q = p then some ⟨s.nextId, cb, inner.function, some i⟩ else s.entries q := by
  apply Function.update_apply

theorem internals_attached (j : ℕ) : (s.attached i inner p cb interceptor).internals j
        =
      if j = i then
        some { inner with userAttaches := inner.userAttaches ++ [p] }
      else
        s.internals j := by
  apply Function.update_apply

theorem attaches_attached (id : ℤ) : (s.attached i inner p cb interceptor).attaches id
        = if id = s.nextId then some p else s.attaches id := by
  apply Function.update_apply

theorem internalAttaches_attached (g : UInt64)
    : (s.attached i inner p cb interceptor).internalAttaches g
        = if g = inner.function then some i else s.internalAttaches g := by
  apply Function.update_apply

theorem nextId_attached : (s.attached i inner p cb interceptor).nextId = s.nextId + 1 := rfl

theorem owner_attached
    : (s.attached i inner p cb interceptor).owner = Function.update s.owner p (some i) := by
  funext q
  unfold owner
  rw [entries_attached, Function.update_apply]
  split <;> rfl

theorem members_attached : (s.attached i inner p cb interceptor).members
        = Function.update s.members i (some (inner.userAttaches ++ [p])) := by
  funext j
  unfold members
  rw [internals_attached, Function.update_apply]
  split <;> rfl

end Lookup

theorem Inv.attached (hs : Inv s) (hf : f ≠ 0) (hfree : s.entries p = none)
    (hplace : Place s f cb.attachType fresh i inner interceptor)
    : Inv (s.attached i inner p cb interceptor) := by
  obtain ⟨hmembers, hunique⟩ := hs.members_of_place hplace
  obtain ⟨hbacked, hother⟩ := hs.backed_of_place (p := p) hplace
  obtain rfl := hplace.function_eq
  have hpos := hs.nextId_pos
  constructor
  case linked =>
    rw [owner_attached, members_attached, ← hmembers]
    exact hs.linked.add (by simp [owner, hfree]) i
  case attaches_iff =>
    apply hs.attaches_iff.set (e := ⟨s.nextId, cb, inner.function, some i⟩)
    . simp [hs.attaches_nextId]
    . simp [hfree]
  case selfId_lt =>
    intro q e he
    rw [entries_attached] at he
    rw [nextId_attached]
    split at he
    . cases he
      dsimp only
      omega
    . have := hs.selfId_lt q e he
      omega
  case internalAttaches_iff =>
    apply hs.internalAttaches_iff.set
      (e := { inner with userAttaches := inner.userAttaches ++ [p] })
    . intro j hj
      obtain ⟨inner', hj', hfun⟩ := (hs.internalAttaches_iff _ j).mp hj
      exact (hunique j inner' hj').mp hfun
    . intro inner' hi
      exact (hunique i inner' hi).mpr rfl
  case same_function =>
    intro q e he
    rw [entries_attached] at he
    split at he
    . cases he
      exact ⟨i, _, rfl, Function.update_self _ _ _, rfl⟩
    . obtain ⟨j, inner', hej, hj, hfun⟩ := hs.same_function q e he
      by_cases hji : j = i
      . refine ⟨i, _, by rw [hej, hji], Function.update_self _ _ _, ?_⟩
        rw [← hfun]
        exact ((hunique j inner' hj).mpr hji).symm
      . exact ⟨j, inner', hej, by rw [internals_attached, if_neg hji, hj], hfun⟩
  case function_ne =>
    intro j inner' hj
    rw [internals_attached] at hj
    split at hj
    . cases hj
      exact hf
    . exact hs.function_ne j inner' hj
  case backed =>
    intro j inner' hj
    rw [internals_attached] at hj
    split at hj
    next hji =>
      cases hj
      rw [hji]
      exact hbacked
    next hji =>
      have hg : inner'.function ≠ inner.function := fun heq => hji ((hunique j inner' hj).mp heq)
      have hold := hs.backed j inner' hj
      unfold BackedBy at hold ⊢
      rw [← (hother _ hg).1, ← (hother _ hg).2] at hold
      exact hold
  case unbacked =>
    intro g hg
    rw [internalAttaches_attached] at hg
    split at hg
    . cases hg
    next hne =>
      have hold := hs.unbacked g hg
      rw [← (hother g hne).1, ← (hother g hne).2] at hold
      exact hold
  case nextId_pos =>
    rw [nextId_attached]
    omega

end Attach

section Detach

variable {i : ℕ} {inner : InternalAttachEntry} {D : List ℕ}

theorem entries_detached (p : ℕ)
    : (s.detached i inner D).entries p = if p ∈ D then none else s.entries p := rfl

theorem attaches_detached (id : ℤ)
    : (s.detached i inner D).attaches id = (s.attaches id).filter (· ∉ D) := rfl

theorem internals_detached (j : ℕ) : (s.detached i inner D).internals j
        =
      if j = i then
        if inner.userAttaches.filter (· ∉ D) = [] then
          none
        else
          some { inner with userAttaches := inner.userAttaches.filter (· ∉ D) }
      else
        s.internals j := by
  apply Function.update_apply

theorem internalAttaches_detached (g : UInt64) : (s.detached i inner D).internalAttaches g
        =
      if inner.userAttaches.filter (· ∉ D) = [] ∧ g = inner.function then
        none
      else
        s.internalAttaches g := by
  unfold detached
  dsimp only
  by_cases hrest : inner.userAttaches.filter (· ∉ D) = []
  . rw [if_pos hrest, Function.update_apply]
    simp only [hrest, true_and]
  . rw [if_neg hrest, if_neg (fun h => hrest h.1)]

theorem owner_detached
    : (s.detached i inner D).owner = fun p => if p ∈ D then none else s.owner p := by
  funext p
  unfold owner
  rw [entries_detached]
  split <;> rfl

theorem members_detached : (s.detached i inner D).members
        = Function.update s.members i
            (if inner.userAttaches.filter (· ∉ D) = [] then none
              else some (inner.userAttaches.filter (· ∉ D))) := by
  funext j
  unfold members
  rw [internals_detached, Function.update_apply]
  split
  . split <;> rfl
  . rfl

theorem interceptor_detached_of_ne {g : UInt64} (hg : g ≠ inner.function)
    : (s.detached i inner D).interceptor.listeners g = s.interceptor.listeners g
        ∧ (s.detached i inner D).interceptor.replacements g = s.interceptor.replacements g := by
  unfold detached Interceptor.unhook
  dsimp only
  split
  . split <;> simp [hg]
  . exact ⟨rfl, rfl⟩

theorem interceptor_detached_of_ne_nil (hrest : inner.userAttaches.filter (· ∉ D) ≠ [])
    : (s.detached i inner D).interceptor = s.interceptor := by
  apply if_neg hrest

theorem interceptor_detached_of_nil (h : s.BackedBy i inner)
    (hrest : inner.userAttaches.filter (· ∉ D) = [])
    : (s.detached i inner D).interceptor.listeners inner.function = none
        ∧ (s.detached i inner D).interceptor.replacements inner.function = none := by
  unfold BackedBy at h
  unfold detached Interceptor.unhook
  dsimp only
  rw [if_pos hrest]
  split
  next hl =>
    rw [if_pos hl] at h
    simp [h.2]
  next hl =>
    rw [if_neg hl] at h
    simp [h.1]

theorem internals_detached_cases {j : ℕ} {inner' : InternalAttachEntry}
    (h : (s.detached i inner D).internals j = some inner')
    : (j = i ∧ inner.userAttaches.filter (· ∉ D) ≠ []
          ∧ inner' = { inner with userAttaches := inner.userAttaches.filter (· ∉ D) })
      ∨ (j ≠ i ∧ s.internals j = some inner') := by
  rw [internals_detached] at h
  split at h
  next hj =>
    split at h
    . cases h
    next hrest =>
      cases h
      exact .inl ⟨hj, hrest, rfl⟩
  next hj => exact .inr ⟨hj, h⟩

abbrev Indexed (s : AttachImpl) : Prop :=
  BackRefs.Indexed AttachEntry.selfId s.attaches s.entries

theorem Indexed.erased (h : Indexed s) (D : List ℕ) : Indexed (s.erased D) := by
  intro id p
  unfold AttachImpl.erased
  dsimp only
  rw [Option.filter_eq_some_iff, h]
  by_cases hp : p ∈ D <;> simp [hp]

theorem Inv.detached (hs : Inv s) (hi : s.internals i = some inner) (hD : D ⊆ inner.userAttaches)
    : Inv (s.detached i inner D) := by
  have hne {j : ℕ} {inner' : InternalAttachEntry} (hj : j ≠ i)
      (hinner' : s.internals j = some inner') : inner'.function ≠ inner.function := fun heq =>
    hj (hs.internals_unique hinner' hi heq)
  constructor
  case linked =>
    rw [owner_detached, members_detached]
    exact hs.linked.remove (by simp [members, hi]) hD
  case attaches_iff => exact Indexed.erased hs.attaches_iff D
  case selfId_lt =>
    intro p e he
    rw [entries_detached] at he
    split at he
    . cases he
    . exact hs.selfId_lt p e he
  case internalAttaches_iff =>
    have hfind := hs.internalAttaches_iff.find hi
    unfold AttachImpl.detached
    dsimp only
    split
    . exact hs.internalAttaches_iff.erase hi
    . rw [← Function.update_eq_self inner.function s.internalAttaches, hfind]
      apply hs.internalAttaches_iff.set
        (e := { inner with userAttaches := inner.userAttaches.filter (· ∉ D) })
      . intro j hj
        rw [hfind] at hj
        exact (Option.some.inj hj).symm
      . intro inner' hi'
        rw [hi] at hi'
        cases hi'
        rfl
  case same_function =>
    intro p e he
    rw [entries_detached] at he
    split at he
    . cases he
    next hp =>
      obtain ⟨j, inner', hej, hj, hfun⟩ := hs.same_function p e he
      refine ⟨j, ?_⟩
      by_cases hji : j = i
      . rw [hji] at hej hj
        have hmem : p ∈ inner.userAttaches.filter (· ∉ D) := by
          simp [hs.mem_of_entry he hej hi, hp]
        rw [hi] at hj
        cases hj
        refine ⟨{ inner with userAttaches := inner.userAttaches.filter (· ∉ D) },
          by rw [hej, hji], ?_, hfun⟩
        rw [internals_detached, if_pos hji, if_neg (List.ne_nil_of_mem hmem)]
      . exact ⟨inner', hej, by rw [internals_detached, if_neg hji, hj], hfun⟩
  case function_ne =>
    intro j inner' hj
    obtain ⟨_, _, rfl⟩ | ⟨_, hj⟩ := internals_detached_cases hj
    . exact hs.function_ne i inner hi
    . exact hs.function_ne j inner' hj
  case backed =>
    intro j inner' hj
    obtain ⟨rfl, hrest, rfl⟩ | ⟨hji, hj⟩ := internals_detached_cases hj
    . have hold := hs.backed j inner hi
      unfold BackedBy at hold ⊢
      rw [interceptor_detached_of_ne_nil hrest]
      exact hold
    . have hold := hs.backed j inner' hj
      obtain ⟨hl, hr⟩ := interceptor_detached_of_ne (s := s) (i := i) (D := D) (hne hji hj)
      unfold BackedBy at hold ⊢
      rw [hl, hr]
      exact hold
  case unbacked =>
    intro g hg
    rw [internalAttaches_detached] at hg
    by_cases hgone : inner.userAttaches.filter (· ∉ D) = [] ∧ g = inner.function
    . rw [hgone.2]
      exact interceptor_detached_of_nil (hs.backed i inner hi) hgone.1
    . rw [if_neg hgone] at hg
      have hgf : g ≠ inner.function := by
        rintro rfl
        rw [hs.internalAttaches_iff.find hi] at hg
        cases hg
      obtain ⟨hl, hr⟩ := interceptor_detached_of_ne (s := s) (i := i) (D := D) hgf
      rw [hl, hr]
      exact hs.unbacked g hg
  case nextId_pos => exact hs.nextId_pos

theorem erased_nil : s.erased [] = s := by
  have hattaches : (fun id => (s.attaches id).filter (· ∉ [])) = s.attaches := by
    funext id
    cases s.attaches id <;> rfl
  unfold erased
  rw [hattaches]
  simp only [List.not_mem_nil, if_false]

theorem erased_append (D E : List ℕ) : (s.erased D).erased E = s.erased (D ++ E) := by
  have hentries : ((s.erased D).erased E).entries = (s.erased (D ++ E)).entries := by
    funext p
    simp only [erased, List.mem_append]
    by_cases hE : p ∈ E <;> simp [hE]
  have hattaches : ((s.erased D).erased E).attaches = (s.erased (D ++ E)).attaches := by
    funext id
    simp only [erased, Option.filter_filter, List.mem_append, not_or, Bool.decide_and]
  change ({ s with
    entries := ((s.erased D).erased E).entries
    attaches := ((s.erased D).erased E).attaches } : AttachImpl) = _
  rw [hentries, hattaches]
  rfl

theorem Indexed.eraseAttach (h : Indexed s) {p : ℕ} {e : AttachEntry} (he : s.entries p = some e)
    : s.eraseAttach e.selfId = s.erased [p] := by
  have hp : s.attaches e.selfId = some p := (h _ _).mpr ⟨e, he, rfl⟩
  have hentries : Function.update s.entries p none = (s.erased [p]).entries := by
    funext q
    rw [Function.update_apply]
    simp [AttachImpl.erased]
  have hattaches : Function.update s.attaches e.selfId none = (s.erased [p]).attaches := by
    funext id
    rw [Function.update_apply]
    unfold AttachImpl.erased
    dsimp only
    split
    next hid =>
      rw [hid, hp]
      simp [Option.filter]
    next hid =>
      cases hq : s.attaches id with
      | none => rfl
      | some q =>
        have hne : q ≠ p := by
          rintro rfl
          obtain ⟨e', he', hid'⟩ := (h id q).mp hq
          rw [he] at he'
          cases he'
          exact hid hid'.symm
        simp [Option.filter, hne]
  unfold AttachImpl.eraseAttach
  rw [hp]
  dsimp only
  rw [hentries, hattaches]
  rfl

theorem Indexed.eraseAttaches (h : Indexed s) {ps : List ℕ} (hnodup : ps.Nodup)
    (hps : ∀ p ∈ ps, ∃ e, s.entries p = some e)
    : s.eraseAttaches ps = .ok (s.erased ps) := by
  induction ps generalizing s with
  | nil => rw [erased_nil, AttachImpl.eraseAttaches]
  | cons p ps ih =>
    obtain ⟨hp, hnodup⟩ := List.nodup_cons.mp hnodup
    obtain ⟨e, he⟩ := hps p List.mem_cons_self
    unfold AttachImpl.eraseAttaches
    rw [he]
    simp only [deref, bind, Except.bind]
    rw [h.eraseAttach he, ih (h.erased [p]) hnodup, erased_append]
    . rfl
    . intro q hq
      obtain ⟨e', he'⟩ := hps q (List.mem_cons_of_mem p hq)
      refine ⟨e', ?_⟩
      unfold AttachImpl.erased
      dsimp only
      rw [if_neg, he']
      rintro hmem
      rw [List.mem_singleton.mp hmem] at hq
      exact hp hq

theorem Inv.detachById_eq (hs : Inv s) {id : ℤ} {p : ℕ} (hp : s.attaches id = some p)
    : ∃ i inner, s.internals i = some inner ∧ p ∈ inner.userAttaches
        ∧ s.detachById id = .ok (.returned 0, s.detached i inner [p]) := by
  obtain ⟨e, he, rfl⟩ := (hs.attaches_iff id p).mp hp
  obtain ⟨i, inner, hei, hi, hf⟩ := hs.same_function p e he
  refine ⟨i, inner, hi, hs.mem_of_entry he hei hi, ?_⟩
  have hfi := hs.internalAttaches_iff.find hi
  have hfilter : inner.userAttaches.filter (· ∉ [p]) = inner.userAttaches.filter (· ≠ p) := by
    simp
  have herase := Indexed.eraseAttach (s := { s with
    internals := Function.update s.internals i
      (some { inner with userAttaches := inner.userAttaches.filter (· ≠ p) }) })
    hs.attaches_iff he
  unfold AttachImpl.detachById
  rw [hp]
  dsimp only
  rw [he]
  simp only [deref, bind, Except.bind, hei, hi]
  rw [herase]
  unfold AttachImpl.detached
  simp only [hfilter]
  clear herase
  generalize inner.userAttaches.filter (· ≠ p) = rest
  by_cases hrest : rest = []
  . rw [if_pos ⟨hrest, hs.function_ne i inner hi⟩]
    simp [eraseInternal, erased, hfi, deref, bind, Except.bind, pure, Except.pure, hrest,
      Interceptor.unhook]
  . rw [if_neg fun h => hrest h.1]
    simp [erased, hrest, pure, Except.pure]

theorem Inv.detachByFuncAddr_eq (hs : Inv s) {i : ℕ} {inner : InternalAttachEntry}
    (hi : s.internals i = some inner)
    : s.detachByFuncAddr inner.function
        = .ok (.returned 0, s.detached i inner inner.userAttaches) := by
  have hfi := hs.internalAttaches_iff.find hi
  have herase := Indexed.eraseAttaches hs.attaches_iff
    (hs.linked.nodup i inner.userAttaches (by simp [members, hi]))
    (fun p hp => (hs.entry_of_mem hi hp).imp fun _ he => he.1)
  have hrest : inner.userAttaches.filter (· ∉ inner.userAttaches) = [] := by simp
  unfold AttachImpl.detachByFuncAddr
  rw [hfi]
  dsimp only
  rw [hi]
  simp only [deref, bind, Except.bind, herase]
  unfold AttachImpl.detached
  simp [eraseInternal, erased, hfi, hi, deref, bind, Except.bind, pure, Except.pure]

end Detach

end AttachImpl

end Bpftime.Frida
