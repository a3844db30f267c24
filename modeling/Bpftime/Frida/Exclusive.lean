import Bpftime.Data.Run
import Bpftime.Frida.Consistent

namespace Bpftime.Frida

namespace AttachImpl

def attachTypes (s : AttachImpl) (f : UInt64) : List Int32 :=
  (((s.internalAttaches f).bind s.members).getD []).filterMap fun p =>
    (s.entries p).map AttachEntry.getType

def IsProbe (type : Int32) : Prop := type = ATTACH_UPROBE ∨ type = ATTACH_URETPROBE

def Unattached (s : AttachImpl) (f : UInt64) : Prop :=
  s.attachTypes f = [] ∧ s.interceptor.listeners f = none ∧ s.interceptor.replacements f = none

def Overridden (s : AttachImpl) (f : UInt64) : Prop :=
  s.attachTypes f = [ATTACH_UPROBE_OVERRIDE]
    ∧ s.interceptor.listeners f = none ∧ s.interceptor.replacements f ≠ none

def Probed (s : AttachImpl) (f : UInt64) : Prop :=
  s.attachTypes f ≠ [] ∧ (∀ type ∈ s.attachTypes f, IsProbe type)
    ∧ s.interceptor.listeners f ≠ none ∧ s.interceptor.replacements f = none

def Exclusive (s : AttachImpl) : Prop := ∀ f, s.Unattached f ∨ s.Overridden f ∨ s.Probed f

def Mixes (s : AttachImpl) (op : Op) : Prop :=
  ∃ call, op.attachCall = some call
    ∧ ((call.cb.attachType = ATTACH_UPROBE_OVERRIDE
        ∧ ∃ type ∈ s.attachTypes call.funcAddr, IsProbe type)
      ∨ (IsProbe call.cb.attachType ∧ ATTACH_UPROBE_OVERRIDE ∈ s.attachTypes call.funcAddr))

def next (s : AttachImpl) (op : Op) : Option AttachImpl := (s.step op).toOption.map Prod.snd

/-- No override comes to stand beside a probe, and a call for that is refused. -/
def StaysExclusive (s : AttachImpl) (op : Op) : Prop :=
  ∀ a s', s.step op = .ok (a, s') → s'.Exclusive ∧ (s.Mixes op → a.Rejected ∧ s' = s)

/-- An attach that breaks the rule and that the checks let through. -/
def Offends (s : AttachImpl) (op : Op) : Prop :=
  ∃ call, op.attachCall = some call ∧ call.funcAddr ≠ 0
    ∧ ((call.cb.attachType = ATTACH_UPROBE_OVERRIDE
        ∧ ∃ type ∈ s.attachTypes call.funcAddr, IsProbe type)
      ∨ (¬ IsProbe call.cb.attachType ∧ call.cb.attachType ≠ ATTACH_UPROBE_OVERRIDE
          ∧ ATTACH_UPROBE_OVERRIDE ∉ s.attachTypes call.funcAddr))

variable {s : AttachImpl}

section Types

variable {f : UInt64} {i p : ℕ} {inner : InternalAttachEntry}

theorem attachTypes_of_none (h : s.internalAttaches f = none) : s.attachTypes f = [] := by
  simp [attachTypes, h]

theorem Inv.attachTypes_eq (hs : Inv s) (hi : s.internals i = some inner)
    : s.attachTypes inner.function
        = inner.userAttaches.filterMap fun p => (s.entries p).map AttachEntry.getType := by
  have hf := hs.internalAttaches_iff.find hi
  simp [attachTypes, hf, members, hi]

theorem Inv.mem_attachTypes_iff (hs : Inv s) (hi : s.internals i = some inner) (type : Int32)
    : type ∈ s.attachTypes inner.function
        ↔ ∃ p ∈ inner.userAttaches, ∃ e, s.entries p = some e ∧ e.getType = type := by
  rw [hs.attachTypes_eq hi, List.mem_filterMap]
  simp only [Option.map_eq_some_iff]

theorem Inv.attachTypes_ne_nil (hs : Inv s) (hi : s.internals i = some inner)
    : s.attachTypes inner.function ≠ [] := by
  obtain ⟨p, hp⟩ := List.exists_mem_of_ne_nil _
    (hs.linked.ne_nil i inner.userAttaches (by simp [members, hi]))
  obtain ⟨e, he, _⟩ := hs.entry_of_mem hi hp
  exact List.ne_nil_of_mem ((hs.mem_attachTypes_iff hi e.getType).mpr ⟨p, hp, e, he, rfl⟩)

theorem Inv.attachTypes_congr {s' : AttachImpl} (hs : Inv s)
    (hf : s'.internalAttaches f = s.internalAttaches f)
    (hinner : ∀ i, s.internalAttaches f = some i → s'.internals i = s.internals i)
    (hentries : ∀ i inner, s.internals i = some inner → inner.function = f →
      ∀ p ∈ inner.userAttaches, s'.entries p = s.entries p)
    : s'.attachTypes f = s.attachTypes f := by
  unfold attachTypes
  rw [hf]
  cases hfi : s.internalAttaches f with
  | none => rfl
  | some i =>
    obtain ⟨inner, hi, hfun⟩ := (hs.internalAttaches_iff f i).mp hfi
    simp only [Option.bind_some, members, hinner i hfi, hi, Option.map_some, Option.getD_some]
    apply List.filterMap_congr
    intro p hp
    rw [hentries i inner hi hfun p hp]

section Attach

variable {cb : AttachEntryCallback} {fresh : Fresh} {interceptor : Interceptor}

theorem Inv.attachTypes_attached_of_ne (hs : Inv s) (hfree : s.entries p = none)
    (hplace : Place s f cb.attachType fresh i inner interceptor) {g : UInt64} (hg : g ≠ f)
    : (s.attached i inner p cb interceptor).attachTypes g = s.attachTypes g := by
  obtain ⟨_, hunique⟩ := hs.members_of_place hplace
  obtain rfl := hplace.function_eq
  apply hs.attachTypes_congr
  . rw [internalAttaches_attached, if_neg hg]
  . intro j hj
    obtain ⟨inner', hj', rfl⟩ := (hs.internalAttaches_iff g j).mp hj
    rw [internals_attached, if_neg (fun hji => hg ((hunique j inner' hj').mpr hji))]
  . intro j inner' hj hfun q hq
    rw [entries_attached, if_neg]
    rintro rfl
    obtain ⟨e, he, _⟩ := hs.entry_of_mem hj hq
    rw [hfree] at he
    cases he

theorem Inv.attachTypes_of_place (hs : Inv s)
    (hplace : Place s f cb.attachType fresh i inner interceptor)
    : s.attachTypes f
        = inner.userAttaches.filterMap fun p => (s.entries p).map AttachEntry.getType := by
  cases hplace with
  | joins hi hf _ =>
    rw [← hf]
    exact hs.attachTypes_eq hi
  | opens hf _ _ => exact attachTypes_of_none hf

theorem Inv.attachTypes_attached (hs : Inv s) (hf : f ≠ 0) (hfree : s.entries p = none)
    (hplace : Place s f cb.attachType fresh i inner interceptor)
    : (s.attached i inner p cb interceptor).attachTypes f = s.attachTypes f ++ [cb.attachType] := by
  have hs' := hs.attached hf hfree hplace
  rw [hs.attachTypes_of_place hplace]
  obtain rfl := hplace.function_eq
  have hold : ∀ q ∈ inner.userAttaches, q ≠ p := by
    intro q hq heq
    have hmem : q ∈ (s.members i).getD [] := by
      rw [(hs.members_of_place hplace).1]
      exact hq
    cases hmembers : s.members i with
    | none => simp [hmembers] at hmem
    | some l =>
      rw [hmembers, Option.getD_some] at hmem
      have howner := hs.linked.owner_of_mem hmembers hmem
      simp [owner, heq, hfree] at howner
  have hself : (s.attached i inner p cb interceptor).internals i
      = some { inner with userAttaches := inner.userAttaches ++ [p] } := by
    rw [internals_attached, if_pos rfl]
  have heq := hs'.attachTypes_eq hself
  dsimp only at heq
  rw [heq, List.filterMap_append]
  congr 1
  . apply List.filterMap_congr
    intro q hq
    rw [entries_attached, if_neg (hold q hq)]
  . simp [entries_attached, AttachEntry.getType]

theorem hook_ok {ic ic' : Interceptor} {type : Int32} {ptr : ℕ} {ok hasListener : Bool}
    (h : ic.hook f type ptr ok = .ok (hasListener, ic'))
    : (IsProbe type → ic'.listeners f ≠ none ∧ ic'.replacements f = ic.replacements f)
        ∧ (type = ATTACH_UPROBE_OVERRIDE →
            ic'.replacements f ≠ none ∧ ic'.listeners f = ic.listeners f) := by
  unfold Interceptor.hook at h
  split at h
  next htype =>
    split at h
    . cases h
      refine ⟨fun _ => by simp, ?_⟩
      rintro rfl
      exact absurd htype (by decide)
    . cases h
  next htype =>
    refine ⟨fun hprobe => absurd hprobe htype, ?_⟩
    split at h
    . split at h
      . cases h
        intro _
        simp
      . cases h
    next hne => exact fun heq => absurd heq hne

end Attach

section Detach

variable {D : List ℕ}

theorem Inv.attachTypes_detached_of_ne (hs : Inv s) (hi : s.internals i = some inner)
    (hD : D ⊆ inner.userAttaches) {g : UInt64} (hg : g ≠ inner.function)
    : (s.detached i inner D).attachTypes g = s.attachTypes g := by
  have hne {j : ℕ} {inner' : InternalAttachEntry} (hj : s.internals j = some inner')
      (hfun : inner'.function = g) : j ≠ i := by
    rintro rfl
    rw [hi] at hj
    cases hj
    exact hg hfun.symm
  apply hs.attachTypes_congr
  . rw [internalAttaches_detached, if_neg fun h => hg h.2]
  . intro j hj
    obtain ⟨inner', hj', hfun⟩ := (hs.internalAttaches_iff g j).mp hj
    rw [internals_detached, if_neg (hne hj' hfun)]
  . intro j inner' hj hfun p hp
    rw [entries_detached, if_neg]
    intro hpD
    obtain ⟨e, he, hei, _⟩ := hs.entry_of_mem hj hp
    obtain ⟨e', he', hei', _⟩ := hs.entry_of_mem hi (hD hpD)
    rw [he] at he'
    cases he'
    rw [hei] at hei'
    cases hei'
    exact hne hj hfun rfl

theorem Inv.attachTypes_detached (hs : Inv s) (hi : s.internals i = some inner)
    (hD : D ⊆ inner.userAttaches) (hrest : inner.userAttaches.filter (· ∉ D) ≠ [])
    : (s.detached i inner D).attachTypes inner.function ≠ []
        ∧ List.Sublist ((s.detached i inner D).attachTypes inner.function)
            (s.attachTypes inner.function) := by
  have hs' := hs.detached hi hD
  have hi' : (s.detached i inner D).internals i
      = some { inner with userAttaches := inner.userAttaches.filter (· ∉ D) } := by
    rw [internals_detached, if_pos rfl, if_neg hrest]
  have hne := hs'.attachTypes_ne_nil hi'
  have heq := hs'.attachTypes_eq hi'
  refine ⟨hne, ?_⟩
  have hentries : (inner.userAttaches.filter (· ∉ D)).filterMap
      (fun p => ((s.detached i inner D).entries p).map AttachEntry.getType)
        = (inner.userAttaches.filter (· ∉ D)).filterMap
            fun p => (s.entries p).map AttachEntry.getType := by
    apply List.filterMap_congr
    intro p hp
    rw [entries_detached, if_neg (by simpa using (List.mem_filter.mp hp).2)]
  rw [heq, hentries, hs.attachTypes_eq hi]
  exact List.filter_sublist.filterMap _

end Detach

end Types

theorem exclusive_empty : Exclusive empty := fun _ => .inl ⟨rfl, rfl, rfl⟩

section Exclusive

variable {i : ℕ} {inner : InternalAttachEntry}

theorem Exclusive.detached {D : List ℕ} (he : Exclusive s) (hs : Inv s)
    (hi : s.internals i = some inner) (hD : D ⊆ inner.userAttaches)
    : Exclusive (s.detached i inner D) := by
  intro g
  by_cases hg : g = inner.function
  . rw [hg]
    by_cases hrest : inner.userAttaches.filter (· ∉ D) = []
    . left
      refine ⟨attachTypes_of_none ?_, interceptor_detached_of_nil (hs.backed i inner hi) hrest⟩
      rw [internalAttaches_detached, if_pos ⟨hrest, rfl⟩]
    . obtain ⟨hne, hsub⟩ := hs.attachTypes_detached hi hD hrest
      unfold Unattached Overridden Probed
      rw [interceptor_detached_of_ne_nil hrest]
      rcases he inner.function with hnone | hover | hprobe
      . exact absurd hnone.1 (hs.attachTypes_ne_nil hi)
      . right
        left
        rw [hover.1, List.sublist_singleton] at hsub
        exact ⟨hsub.resolve_left hne, hover.2⟩
      . right
        right
        exact ⟨hne, fun type htype => hprobe.2.1 type (hsub.subset htype), hprobe.2.2⟩
  . obtain ⟨hl, hr⟩ := interceptor_detached_of_ne (s := s) (i := i) (D := D) hg
    unfold Unattached Overridden Probed
    rw [hs.attachTypes_detached_of_ne hi hD hg, hl, hr]
    exact he g

section Attach

variable {f : UInt64} {p : ℕ} {cb : AttachEntryCallback} {fresh : Fresh} {interceptor : Interceptor}

theorem Exclusive.attached (he : Exclusive s) (hs : Inv s) (hf : f ≠ 0)
    (hfree : s.entries p = none) (hplace : Place s f cb.attachType fresh i inner interceptor)
    (hkind : IsProbe cb.attachType
      ∨ (cb.attachType = ATTACH_UPROBE_OVERRIDE ∧ s.attachTypes f = []))
    : Exclusive (s.attached i inner p cb interceptor) := by
  intro g
  by_cases hg : g = f
  . have htypes := hs.attachTypes_attached hf hfree hplace
    unfold Unattached Overridden Probed
    rw [hg, htypes]
    right
    cases hplace with
    | joins hi hfun hno =>
      have hne := hs.attachTypes_ne_nil hi
      rw [hfun] at hne
      have hprobe : IsProbe cb.attachType := hkind.resolve_right fun h => hne h.2
      rcases he f with hnone | hover | hprobed
      . exact absurd hnone.1 hne
      . have hmem : ATTACH_UPROBE_OVERRIDE ∈ s.attachTypes inner.function := by
          rw [hfun, hover.1]
          exact List.mem_singleton_self _
        obtain ⟨q, hq, e, heq, htype⟩ := (hs.mem_attachTypes_iff hi _).mp hmem
        exact absurd htype (hno q hq e heq)
      . right
        refine ⟨by simp, ?_, hprobed.2.2⟩
        intro type htype
        rcases List.mem_append.mp htype with htype | htype
        . exact hprobed.2.1 type htype
        . rw [List.mem_singleton.mp htype]
          exact hprobe
    | opens hnone _ hhook =>
      obtain ⟨hl, hr⟩ := hs.unbacked f hnone
      obtain ⟨hlistens, hreplaces⟩ := hook_ok hhook
      rw [attachTypes_of_none hnone]
      rcases hkind with hprobe | ⟨hover, _⟩
      . right
        refine ⟨by simp, ?_, (hlistens hprobe).1, (hlistens hprobe).2.trans hr⟩
        intro type htype
        rw [List.mem_singleton.mp htype]
        exact hprobe
      . left
        refine ⟨by rw [hover]; rfl, (hreplaces hover).2.trans hl, (hreplaces hover).1⟩
  . obtain ⟨_, hother⟩ := hs.backed_of_place (p := p) hplace
    unfold Unattached Overridden Probed
    rw [hs.attachTypes_attached_of_ne hfree hplace hg]
    change (_ ∧ interceptor.listeners g = none ∧ interceptor.replacements g = none)
      ∨ (_ ∧ interceptor.listeners g = none ∧ interceptor.replacements g ≠ none)
      ∨ (_ ∧ _ ∧ interceptor.listeners g ≠ none ∧ interceptor.replacements g = none)
    rw [(hother g hg).1, (hother g hg).2]
    exact he g

theorem Exclusive.attachTypes_cases (he : Exclusive s) {type : Int32}
    (hmem : type ∈ s.attachTypes f)
    : (type = ATTACH_UPROBE_OVERRIDE ∧ s.attachTypes f = [ATTACH_UPROBE_OVERRIDE])
      ∨ (IsProbe type ∧ ∀ type' ∈ s.attachTypes f, IsProbe type') := by
  rcases he f with hnone | hover | hprobe
  . rw [hnone.1] at hmem
    cases hmem
  . left
    rw [hover.1] at hmem
    exact ⟨List.mem_singleton.mp hmem, hover.1⟩
  . right
    exact ⟨hprobe.2.1 type hmem, hprobe.2.1⟩

theorem not_isProbe_override : ¬ IsProbe ATTACH_UPROBE_OVERRIDE := by
  unfold IsProbe
  decide

theorem Inv.not_exclusive_attached (hs : Inv s) (hf : f ≠ 0) (hfree : s.entries p = none)
    (hplace : Place s f cb.attachType fresh i inner interceptor)
    (hoff : (cb.attachType = ATTACH_UPROBE_OVERRIDE ∧ ∃ type ∈ s.attachTypes f, IsProbe type)
      ∨ (¬ IsProbe cb.attachType ∧ cb.attachType ≠ ATTACH_UPROBE_OVERRIDE))
    : ¬ Exclusive (s.attached i inner p cb interceptor) := by
  intro he'
  have htypes := hs.attachTypes_attached hf hfree hplace
  have hmem : cb.attachType ∈ (s.attached i inner p cb interceptor).attachTypes f := by
    rw [htypes]
    exact List.mem_append_right _ (List.mem_singleton_self _)
  rcases he'.attachTypes_cases hmem with ⟨hover, hall⟩ | ⟨hprobe, _⟩
  . rcases hoff with ⟨_, type, htype, hprobe⟩ | ⟨_, hne⟩
    . have hmem' : type ∈ (s.attached i inner p cb interceptor).attachTypes f := by
        rw [htypes]
        exact List.mem_append_left _ htype
      rw [hall, List.mem_singleton] at hmem'
      rw [hmem'] at hprobe
      exact not_isProbe_override hprobe
    . exact hne hover
  . rcases hoff with ⟨hover, _⟩ | ⟨hnot, _⟩
    . rw [hover] at hprobe
      exact not_isProbe_override hprobe
    . exact hnot hprobe

theorem Inv.override_not_mem_of_place (hs : Inv s)
    (hplace : Place s f cb.attachType fresh i inner interceptor)
    : ATTACH_UPROBE_OVERRIDE ∉ s.attachTypes f := by
  cases hplace with
  | joins hi hfun hno =>
    rw [← hfun, hs.mem_attachTypes_iff hi]
    rintro ⟨q, hq, e, he, htype⟩
    exact hno q hq e he htype
  | opens hnone _ _ =>
    rw [attachTypes_of_none hnone]
    exact List.not_mem_nil

end Attach

theorem offends_iff {op : Op} {call : AttachCall} (hop : op.attachCall = some call)
    (hf : call.funcAddr ≠ 0)
    : s.Offends op
        ↔ ((call.cb.attachType = ATTACH_UPROBE_OVERRIDE
              ∧ ∃ type ∈ s.attachTypes call.funcAddr, IsProbe type)
            ∨ (¬ IsProbe call.cb.attachType ∧ call.cb.attachType ≠ ATTACH_UPROBE_OVERRIDE
                ∧ ATTACH_UPROBE_OVERRIDE ∉ s.attachTypes call.funcAddr)) := by
  simp [Offends, hop, hf]

theorem Exclusive.not_offends_of_refuses (he : Exclusive s) (hs : Inv s) {op : Op}
    {call : AttachCall} (hop : op.attachCall = some call)
    (hwhy : Refuses s call.funcAddr call.cb.attachType)
    : ¬ s.Offends op := by
  by_cases hf : call.funcAddr = 0
  . rintro ⟨call', hop', hf', _⟩
    rw [hop] at hop'
    cases hop'
    exact hf' hf
  rw [offends_iff hop hf]
  rcases hwhy with hzero | ⟨i, inner, hi, hfun, hover⟩ | ⟨hnone, htype⟩
  . exact absurd hzero hf
  . have hmem : ATTACH_UPROBE_OVERRIDE ∈ s.attachTypes call.funcAddr := by
      rw [← hfun]
      exact (hs.mem_attachTypes_iff hi _).mpr hover
    rintro (⟨_, type, htype, hprobe⟩ | ⟨_, _, hnot⟩)
    . rcases he.attachTypes_cases hmem with ⟨_, hall⟩ | ⟨hprobe', _⟩
      . rw [hall, List.mem_singleton] at htype
        rw [htype] at hprobe
        exact not_isProbe_override hprobe
      . exact not_isProbe_override hprobe'
    . exact hnot hmem
  . rintro (⟨_, type, hmem, _⟩ | ⟨hnot, hne, _⟩)
    . rw [attachTypes_of_none hnone] at hmem
      cases hmem
    . unfold IsProbe at hnot
      simp only [List.mem_cons, List.not_mem_nil, or_false] at htype
      tauto

theorem Exclusive.accepted_iff (he : Exclusive s) (hs : Inv s) {op : Op} {call : AttachCall}
    (hop : op.attachCall = some call) {interceptor : Interceptor} (hf : call.funcAddr ≠ 0)
    (hfree : s.entries call.fresh.entry = none)
    (hplace : Place s call.funcAddr call.cb.attachType call.fresh i inner interceptor)
    : Exclusive (s.attached i inner call.fresh.entry call.cb interceptor) ↔ ¬ s.Offends op := by
  have hover := hs.override_not_mem_of_place hplace
  rw [offends_iff hop hf]
  constructor
  . intro he' hoff
    refine hs.not_exclusive_attached hf hfree hplace (hoff.imp_right fun h => ⟨h.1, h.2.1⟩) he'
  . intro hoff
    apply he.attached hs hf hfree hplace
    by_cases hprobe : IsProbe call.cb.attachType
    . exact .inl hprobe
    . by_cases htype : call.cb.attachType = ATTACH_UPROBE_OVERRIDE
      . refine .inr ⟨htype, List.eq_nil_iff_forall_not_mem.mpr ?_⟩
        intro type hmem
        rcases he.attachTypes_cases hmem with ⟨rfl, _⟩ | ⟨hprobe', _⟩
        . exact hover hmem
        . exact hoff (.inl ⟨htype, type, hmem, hprobe'⟩)
      . exact absurd (.inr ⟨hprobe, htype, hover⟩) hoff

theorem Exclusive.staysExclusive_iff (he : Exclusive s) (hs : Inv s) (op : Op)
    : s.StaysExclusive op ↔ ((s.next op).isSome → ¬ s.Offends op) := by
  unfold StaysExclusive next
  have hres := hs.step_result op
  generalize s.step op = r at hres ⊢
  cases hres with
  | unchanged hop hids =>
    have hno {P : AttachCall → Prop} : ¬ ∃ call, op.attachCall = some call ∧ P call := by
      simp [hop]
    refine iff_of_true ?_ (fun _ => hno)
    intro a s' heq
    cases heq
    exact ⟨he, fun hmix => absurd hmix hno⟩
  | detach hop hi hD hids =>
    have hno {P : AttachCall → Prop} : ¬ ∃ call, op.attachCall = some call ∧ P call := by
      simp [hop]
    refine iff_of_true ?_ (fun _ => hno)
    intro a s' heq
    cases heq
    exact ⟨he.detached hs hi hD, fun hmix => absurd hmix hno⟩
  | @attach call _ hop hr =>
    cases hr with
    | fault hfault => simp [Except.toOption]
    | refused ha hwhy =>
      refine iff_of_true ?_ (fun _ => he.not_offends_of_refuses hs hop hwhy)
      intro a s' heq
      cases heq
      exact ⟨he, fun _ => ⟨ha, rfl⟩⟩
    | accepted hf hfree hplace =>
      have hiff := he.accepted_iff hs hop hf hfree hplace
      constructor
      . intro h _
        exact hiff.mp (h _ _ rfl).1
      . intro h a s' heq
        cases heq
        refine ⟨hiff.mpr (h rfl), ?_⟩
        rintro ⟨call', hop', hmix⟩
        rw [hop] at hop'
        cases hop'
        rcases hmix with hmix | ⟨_, hover⟩
        . exact absurd ((offends_iff hop hf).mpr (.inl hmix)) (h rfl)
        . exact absurd hover (hs.override_not_mem_of_place hplace)

theorem Inv.next {s' : AttachImpl} (hs : Inv s) {op : Op} (h : s.next op = some s') : Inv s' := by
  unfold AttachImpl.next at h
  obtain ⟨e, heq, _⟩ | ⟨a, t, heq, ht, _⟩ := hs.step op
  . rw [heq] at h
    cases h
  . rw [heq] at h
    cases h
    exact ht

theorem staysExclusive_iff_not_offends (ops : List Op)
    : Run.AlongDefined next StaysExclusive empty ops
        ↔
      Run.AlongDefined next (fun s op => (s.next op).isSome → ¬ s.Offends op) empty ops := by
  apply Run.alongDefined_iff_of_invariant (fun s => Inv s ∧ Exclusive s)
  . intro s op s' ⟨hs, he⟩ hoff hnext
    refine ⟨hs.next hnext, ?_⟩
    have hstays := (he.staysExclusive_iff hs op).mpr hoff
    unfold next at hnext
    cases hstep : s.step op with
    | error e =>
      rw [hstep] at hnext
      cases hnext
    | ok r =>
      rw [hstep] at hnext
      cases hnext
      exact (hstays r.1 r.2 hstep).1
  . intro s op ⟨hs, he⟩
    exact he.staysExclusive_iff hs op
  . exact ⟨inv_empty, exclusive_empty⟩

def overrideProbed : List Op :=
  [.createUprobeAt 0x1000 ⟨0, 0, true⟩, .createUprobeOverrideAt 0x1000 ⟨1, 1, true⟩]

theorem not_staysExclusive_overrideProbed
    : ¬ Run.AlongDefined next StaysExclusive empty overrideProbed := by
  rintro ⟨_, h⟩
  obtain ⟨hstays, _⟩ := h _ rfl
  rcases (hstays _ _ rfl).1 0x1000 with hnone | hover | hprobed
  . exact absurd hnone.1 (by decide)
  . exact absurd hover.1 (by decide)
  . exact absurd (hprobed.2.1 ATTACH_UPROBE_OVERRIDE (by decide)) not_isProbe_override

end Exclusive

end AttachImpl

end Bpftime.Frida
