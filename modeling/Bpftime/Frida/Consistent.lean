import Bpftime.Frida.Tables

namespace Bpftime.Frida

structure AttachCall where
  funcAddr : UInt64
  cb : AttachEntryCallback
  fresh : Fresh

def Op.attachCall : Op → Option AttachCall
  | .createUprobeAt f fresh => some ⟨f, .callbackVariant .uprobeCallback, fresh⟩
  | .createUretprobeAt f fresh => some ⟨f, .callbackVariant .uretprobeCallback, fresh⟩
  | .createUprobeOverrideAt f fresh => some ⟨f, .callbackVariant .uprobeOverrideCallback, fresh⟩
  | .attachAtWithEbpfCallback f attachType fresh => some ⟨f, .ebpfCallbackArgs attachType, fresh⟩
  | .createAttachWithEbpfCallback (some sub) attachType mapped fresh =>
    if sub.moduleName = "" ∨ mapped.toOption = some true then
      if attachType ∈ [ATTACH_UPROBE, ATTACH_URETPROBE, ATTACH_UPROBE_OVERRIDE] then
        some ⟨sub.addr, .ebpfCallbackArgs attachType, fresh⟩
      else if attachType = ATTACH_UREPLACE then
        some ⟨sub.addr, .ebpfCallbackArgs ATTACH_UPROBE_OVERRIDE, fresh⟩
      else
        none
    else
      none
  | .createAttachWithEbpfCallback none _ _ _ => none
  | .detachById _ => none
  | .detachByFuncAddr _ => none

namespace AttachImpl

def Detaches (s : AttachImpl) : Op → ℤ → Prop
  | .detachById id, id' => id' = id ∧ s.attaches id' ≠ none
  | .detachByFuncAddr func, id =>
    ∃ p e, s.attaches id = some p ∧ s.entries p = some e ∧ e.function = func
  | _, _ => False

inductive StepResult (s : AttachImpl) (op : Op) : Except Fault (Answer × AttachImpl) → Prop where
  | attach {call : AttachCall} {r : Except Fault (Answer × AttachImpl)}
      (hop : op.attachCall = some call)
      (hr : AttachResult s call.funcAddr call.cb call.fresh r)
      : StepResult s op r
  | unchanged {a : Answer} (hop : op.attachCall = none) (hids : ∀ id, ¬ s.Detaches op id)
      : StepResult s op (.ok (a, s))
  | detach {a : Answer} {i : ℕ} {inner : InternalAttachEntry} {D : List ℕ}
      (hop : op.attachCall = none) (hi : s.internals i = some inner)
      (hD : D ⊆ inner.userAttaches)
      (hids : ∀ id, s.Detaches op id → ∃ p ∈ D, s.attaches id = some p)
      : StepResult s op (.ok (a, s.detached i inner D))

variable {s : AttachImpl}

theorem Inv.createAttach_result (hs : Inv s) (privateData : Option AttachPrivateData)
    (attachType : Int32) (mapped : Except String Bool) (fresh : Fresh)
    : StepResult s (.createAttachWithEbpfCallback privateData attachType mapped fresh)
        (s.createAttachWithEbpfCallback privateData attachType mapped fresh) := by
  cases privateData with
  | none => exact .unchanged rfl (fun _ => id)
  | some sub =>
    have hmodule : (if sub.moduleName ≠ "" then mapped else .ok true).toOption = some true
        ↔ sub.moduleName = "" ∨ mapped.toOption = some true := by
      by_cases hname : sub.moduleName = ""
      . simp [hname, Except.toOption]
      . simp [hname]
    unfold createAttachWithEbpfCallback
    dsimp only
    generalize hres : (if sub.moduleName ≠ "" then mapped else .ok true) = res at hmodule ⊢
    have hrefused (h : res.toOption ≠ some true) : (Op.createAttachWithEbpfCallback (some sub)
        attachType mapped fresh).attachCall = none := if_neg (fun hm => h (hmodule.mpr hm))
    cases res with
    | error what => exact .unchanged (hrefused (by simp [Except.toOption])) (fun _ => id)
    | ok found =>
      cases found with
      | false => exact .unchanged (hrefused (by simp [Except.toOption])) (fun _ => id)
      | true =>
        have hcall : (Op.createAttachWithEbpfCallback (some sub) attachType mapped fresh).attachCall
            = _ := if_pos (hmodule.mp rfl)
        dsimp only
        by_cases htype : attachType = ATTACH_UPROBE ∨ attachType = ATTACH_URETPROBE
            ∨ attachType = ATTACH_UPROBE_OVERRIDE
        . rw [if_pos (by simpa using htype)] at hcall
          rw [if_pos htype]
          exact .attach hcall (hs.attachAt_result _ _ _)
        . rw [if_neg (by simpa using htype)] at hcall
          rw [if_neg htype]
          split
          next hreplace =>
            rw [if_pos hreplace] at hcall
            exact .attach hcall (hs.attachAt_result _ _ _)
          next hreplace =>
            rw [if_neg hreplace] at hcall
            exact .unchanged hcall (fun _ => id)

theorem Inv.step_result (hs : Inv s) (op : Op) : StepResult s op (s.step op) := by
  cases op with
  | createUprobeAt f fresh | createUretprobeAt f fresh | createUprobeOverrideAt f fresh
  | attachAtWithEbpfCallback f attachType fresh => exact .attach rfl (hs.attachAt_result _ _ _)
  | createAttachWithEbpfCallback privateData attachType mapped fresh =>
    exact hs.createAttach_result privateData attachType mapped fresh
  | detachById id =>
    change StepResult s _ (s.detachById id)
    cases hp : s.attaches id with
    | none =>
      unfold detachById
      rw [hp]
      refine .unchanged rfl ?_
      rintro _ ⟨rfl, hne⟩
      exact hne hp
    | some p =>
      obtain ⟨i, inner, hi, hmem, heq⟩ := hs.detachById_eq hp
      rw [heq]
      refine .detach rfl hi (by simpa using hmem) ?_
      rintro _ ⟨rfl, _⟩
      exact ⟨p, List.mem_singleton_self p, hp⟩
  | detachByFuncAddr func =>
    change StepResult s _ (s.detachByFuncAddr func)
    have hsame {id : ℤ} (h : s.Detaches (.detachByFuncAddr func) id)
        : ∃ p i inner, s.attaches id = some p ∧ s.internals i = some inner
          ∧ p ∈ inner.userAttaches ∧ s.internalAttaches func = some i := by
      obtain ⟨p, e, hp, he, rfl⟩ := h
      obtain ⟨i, inner, hei, hi, hf⟩ := hs.same_function p e he
      exact ⟨p, i, inner, hp, hi, hs.mem_of_entry he hei hi,
        (hs.internalAttaches_iff e.function i).mpr ⟨inner, hi, hf⟩⟩
    cases hf : s.internalAttaches func with
    | none =>
      unfold detachByFuncAddr
      rw [hf]
      refine .unchanged rfl ?_
      intro id hid
      obtain ⟨_, i, _, _, _, _, hi⟩ := hsame hid
      rw [hf] at hi
      cases hi
    | some i =>
      obtain ⟨inner, hi, rfl⟩ := (hs.internalAttaches_iff func i).mp hf
      rw [hs.detachByFuncAddr_eq hi]
      refine .detach rfl hi (List.Subset.refl _) ?_
      intro id hid
      obtain ⟨p, j, inner', hp, hj, hmem, hfj⟩ := hsame hid
      rw [hf] at hfj
      cases hfj
      rw [hi] at hj
      cases hj
      exact ⟨p, hmem, hp⟩

def Reaches (s : AttachImpl) (id : ℤ) : Prop :=
  s.attaches id ≠ none
    ∨ ∃ f i inner, s.internalAttaches f = some i ∧ s.internals i = some inner
      ∧ ∃ p ∈ inner.userAttaches, ∃ e, s.entries p = some e ∧ e.selfId = id

def Gone (s : AttachImpl) (id : ℤ) : Prop := s.attaches id = none ∧ id < s.nextId

theorem Inv.not_reaches (hs : Inv s) {id : ℤ} (h : s.Gone id) : ¬ s.Reaches id := by
  rintro (hne | ⟨f, i, inner, _, _, p, _, e, he, hid⟩)
  . exact hne h.1
  . have hp := (hs.attaches_iff id p).mpr ⟨e, he, hid⟩
    rw [h.1] at hp
    cases hp

theorem attachCall_of_detaches {op : Op} {id : ℤ} (h : s.Detaches op id)
    : op.attachCall = none := by
  cases op <;> first | exact h.elim | rfl

theorem Inv.step (hs : Inv s) (op : Op) : (∃ e, s.step op = .error e ∧ e ≠ .dangling)
      ∨ ∃ a s', s.step op = .ok (a, s') ∧ Inv s'
          ∧ ∀ id, s.Gone id ∨ s.Detaches op id → s'.Gone id := by
  have hres := hs.step_result op
  generalize s.step op = r at hres ⊢
  cases hres with
  | attach hop hr =>
    have hnot {id : ℤ} : ¬ s.Detaches op id := by
      intro hid
      rw [attachCall_of_detaches hid] at hop
      cases hop
    cases hr with
    | fault he => exact .inl ⟨_, rfl, he⟩
    | refused ha => exact .inr ⟨_, _, rfl, hs, fun id hid => hid.resolve_right hnot⟩
    | accepted hf hfree hplace =>
      refine .inr ⟨_, _, rfl, hs.attached hf hfree hplace, ?_⟩
      intro id hid
      obtain ⟨hnone, hlt⟩ := hid.resolve_right hnot
      unfold Gone
      rw [attaches_attached, nextId_attached, if_neg (by omega)]
      exact ⟨hnone, by omega⟩
  | unchanged hop hids =>
    exact .inr ⟨_, _, rfl, hs, fun id hid => hid.resolve_right (hids id)⟩
  | detach hop hi hD hids =>
    refine .inr ⟨_, _, rfl, hs.detached hi hD, ?_⟩
    rintro id (⟨hnone, hlt⟩ | hdetaches)
    . refine ⟨?_, hlt⟩
      rw [attaches_detached, hnone]
      rfl
    . obtain ⟨p, hpD, hp⟩ := hids id hdetaches
      obtain ⟨e, he, rfl⟩ := (hs.attaches_iff id p).mp hp
      refine ⟨?_, (hs.selfId_lt p e he).2⟩
      rw [attaches_detached, hp]
      simp [Option.filter, hpD]

theorem run_cons (op : Op) (ops : List Op)
    : s.run (op :: ops) = s.step op >>= fun r => r.2.run ops := rfl

theorem Inv.run (hs : Inv s) (ops : List Op) : (∃ e, s.run ops = .error e ∧ e ≠ .dangling)
      ∨ ∃ s', s.run ops = .ok s' ∧ Inv s' ∧ ∀ id, s.Gone id → s'.Gone id := by
  induction ops generalizing s with
  | nil => exact .inr ⟨s, rfl, hs, fun _ => id⟩
  | cons op ops ih =>
    rw [run_cons]
    obtain ⟨e, heq, he⟩ | ⟨a, s₁, heq, hs₁, hgone⟩ := hs.step op
    . exact .inl ⟨e, by rw [heq]; rfl, he⟩
    . rw [heq]
      obtain ⟨e, heq', he⟩ | ⟨s₂, heq', hs₂, hgone'⟩ := ih hs₁
      . exact .inl ⟨e, heq', he⟩
      . exact .inr ⟨s₂, heq', hs₂, fun id hid => hgone' id (hgone id (.inl hid))⟩

theorem run_append (ops ops' : List Op)
    : s.run (ops ++ ops') = s.run ops >>= fun s' => s'.run ops' := by
  induction ops generalizing s with
  | nil => rfl
  | cons op ops ih =>
    rw [List.cons_append, run_cons, run_cons]
    cases s.step op with
    | error e => rfl
    | ok r => exact ih

/-- Ids, entries and the lists of the functions agree. -/
structure Consistent (s : AttachImpl) : Prop where
  entries_of_attaches : ∀ id p, s.attaches id = some p →
    ∃ e i inner, s.entries p = some e ∧ e.selfId = id ∧ e.internalAttach = some i
      ∧ s.internalAttaches e.function = some i ∧ s.internals i = some inner
      ∧ inner.userAttaches.count p = 1
  lists_of_internalAttaches : ∀ f i, s.internalAttaches f = some i →
    ∃ inner, s.internals i = some inner ∧ inner.function = f ∧ inner.userAttaches ≠ []
      ∧ ∀ p ∈ inner.userAttaches, ∃ id e, s.attaches id = some p ∧ s.entries p = some e
          ∧ e.function = f

theorem Inv.consistent (hs : Inv s) : Consistent s where
  entries_of_attaches := by
    intro id p hp
    obtain ⟨e, he, hid⟩ := (hs.attaches_iff id p).mp hp
    obtain ⟨i, inner, hei, hi, hf⟩ := hs.same_function p e he
    refine ⟨e, i, inner, he, hid, hei, (hs.internalAttaches_iff _ i).mpr ⟨inner, hi, hf⟩, hi, ?_⟩
    apply List.count_eq_one_of_mem
    . exact hs.linked.nodup i inner.userAttaches (by simp [members, hi])
    . exact hs.mem_of_entry he hei hi
  lists_of_internalAttaches := by
    intro f i hfi
    obtain ⟨inner, hi, hf⟩ := (hs.internalAttaches_iff f i).mp hfi
    refine ⟨inner, hi, hf, hs.linked.ne_nil i inner.userAttaches (by simp [members, hi]), ?_⟩
    intro p hp
    obtain ⟨e, he, _, hfun⟩ := hs.entry_of_mem hi hp
    exact ⟨e.selfId, e, hs.attaches_iff.find he, he, hfun.trans hf⟩

theorem consistent_run (ops : List Op) : (∃ e, empty.run ops = .error e ∧ e ≠ .dangling)
      ∨ ∃ s, empty.run ops = .ok s ∧ Consistent s
          ∧ ∀ before op after, ops = before ++ op :: after →
              ∀ s', empty.run before = .ok s' → ∀ id, s'.Detaches op id → ¬ s.Reaches id := by
  obtain herr | ⟨s, hrun, hs, _⟩ := inv_empty.run ops
  . exact .inl herr
  . refine .inr ⟨s, hrun, hs.consistent, ?_⟩
    rintro before op after rfl s' hbefore id hid
    apply hs.not_reaches
    have hs' : Inv s' := by
      obtain ⟨e, heq, _⟩ | ⟨t, heq, ht, _⟩ := inv_empty.run before
      . rw [hbefore] at heq
        cases heq
      . rw [hbefore] at heq
        cases heq
        exact ht
    rw [run_append, hbefore] at hrun
    obtain ⟨e, heq, _⟩ | ⟨a, t, heq, ht, hgone⟩ := hs'.step op
    . simp [bind, Except.bind, run_cons, heq] at hrun
    . simp only [bind, Except.bind, run_cons, heq] at hrun
      obtain ⟨e, heq', _⟩ | ⟨t', heq', _, hgone'⟩ := ht.run after
      . rw [hrun] at heq'
        cases heq'
      . rw [hrun] at heq'
        cases heq'
        exact hgone' id (hgone id (.inr hid))

end AttachImpl

end Bpftime.Frida
