import Bpftime.Data.RefTable
import Bpftime.Shm.Impl

namespace Bpftime.Shm

theorem Handler.kind_eq_unused {h : Handler} : h.kind = .unused ↔ h = .unused := by
  cases h with
  | unused => simp [kind]
  | _ => simp [kind]

def Handler.refs : Handler → List (Int32 × Kind)
  | .link h => [(h.progId, .prog), (h.attachTargetId, .perfEvent)]
  | _ => []

theorem Handler.refs_ne_kind (h : Handler) : ∀ r ∈ h.refs, r.2 ≠ h.kind := by
  intro r hr
  cases h with
  | link h =>
    simp only [refs, List.mem_cons, List.not_mem_nil, or_false] at hr
    rcases hr with rfl | rfl <;> simp [kind]
  | _ => simp [refs] at hr

theorem BpfMapHandler.getContainerName_inj {h h' : BpfMapHandler}
    : h.getContainerName = h'.getContainerName ↔ h.name = h'.name := by
  apply List.append_right_inj

theorem toNatClampNeg_inj {a b : Int32} (ha : ¬ a < 0) (hb : ¬ b < 0)
    (h : a.toNatClampNeg = b.toNatClampNeg)
    : a = b := by
  apply Int32.toInt_inj.mp
  rw [Int32.lt_iff_toInt_lt] at ha hb
  rw [← Int32.toNat_toInt, ← Int32.toNat_toInt] at h
  simp only [Int32.toInt_zero] at ha hb
  omega

def Op.OnMaps : Op → Prop
  | .closeFd _ | .addBpfMap .. | .dupBpfMap .. => True
  | _ => False

namespace BpftimeShm

variable {env : Env} {s s' : BpftimeShm} {fd : Int32} {handler : Handler}

theorem not_neg_of_slot? (h : s.slot? fd = some handler) : ¬ fd < 0 := by
  intro hneg
  unfold slot? at h
  rw [if_pos hneg] at h
  simp at h

theorem slot?_congr (h : s'.handlers = s.handlers) : s'.slot? = s.slot? := by
  funext fd
  unfold slot?
  rw [h]

theorem slot?_setSlot {new : Handler} (h : s.slot? fd = some handler) (fd' : Int32)
    : (s.setSlot fd new).slot? fd' = if fd' = fd then some new else s.slot? fd' := by
  have hneg := not_neg_of_slot? h
  unfold slot? at h
  rw [if_neg hneg] at h
  have hlt := (List.getElem?_eq_some_iff.mp h).1
  unfold slot? setSlot
  by_cases hneg' : fd' < 0
  . rw [if_pos hneg', if_pos hneg', if_neg]
    intro heq
    exact hneg (heq ▸ hneg')
  . rw [if_neg hneg', if_neg hneg']
    by_cases heq : fd' = fd
    . rw [if_pos heq, heq, List.getElem?_set_self hlt]
    . rw [if_neg heq, List.getElem?_set_ne]
      intro hnat
      exact heq (toNatClampNeg_inj hneg' hneg hnat.symm)

theorem setSlot_self (h : s.slot? fd = some handler) : s.setSlot fd handler = s := by
  have hneg := not_neg_of_slot? h
  unfold slot? at h
  rw [if_neg hneg] at h
  rcases List.getElem?_eq_some_iff.mp h with ⟨_, rfl⟩
  unfold setSlot
  rw [List.set_getElem_self]

def unlinked (p : BpfLinkHandler → Bool) : Handler → Handler
  | .link h => if p h then .unused else .link h
  | h => h

theorem getElem?_clearLinkAt (p : BpfLinkHandler → Bool) (s : BpftimeShm) (i j : Nat)
    : (clearLinkAt p s i).handlers[j]?
        =
      if i = j then s.handlers[j]?.map (unlinked p) else s.handlers[j]? := by
  unfold clearLinkAt
  split
  next h heq =>
    by_cases hp : p h = true
    . rw [if_pos hp]
      dsimp only
      rw [List.getElem?_set]
      split
      next hij =>
        subst hij
        rw [if_pos (List.getElem?_eq_some_iff.mp heq).1, heq]
        simp [unlinked, hp]
      next => rfl
    . rw [if_neg hp]
      split
      next hij =>
        rw [hij] at heq
        rw [heq]
        simp [unlinked, hp]
      next => rfl
  next hnot =>
    split
    next hij =>
      rw [← hij]
      cases hi : s.handlers[i]? with
      | none => rfl
      | some h =>
        cases h with
        | link h => exact absurd hi (hnot h)
        | _ => rfl
    next => rfl

theorem getElem?_foldl_clearLinkAt (p : BpfLinkHandler → Bool) (s : BpftimeShm) (n j : Nat)
    : ((List.range n).foldl (clearLinkAt p) s).handlers[j]?
        =
      if j < n then s.handlers[j]?.map (unlinked p) else s.handlers[j]? := by
  induction n with
  | zero => simp
  | succ n ih =>
    rw [List.range_succ, List.foldl_append]
    simp only [List.foldl_cons, List.foldl_nil]
    rw [getElem?_clearLinkAt, ih]
    by_cases heq : n = j
    . rw [if_pos heq, if_neg (by omega), if_pos (by omega)]
    . rw [if_neg heq]
      by_cases hlt : j < n
      . rw [if_pos hlt, if_pos (by omega)]
      . rw [if_neg hlt, if_neg (by omega)]

theorem getElem?_clearLinks (s : BpftimeShm) (p : BpfLinkHandler → Bool) (i : Nat)
    : (s.clearLinks p).handlers[i]? = s.handlers[i]?.map (unlinked p) := by
  unfold clearLinks
  rw [getElem?_foldl_clearLinkAt]
  split
  . rfl
  . rw [List.getElem?_eq_none (by omega)]
    rfl

theorem segment_clearLinks (s : BpftimeShm) (p : BpfLinkHandler → Bool)
    : (s.clearLinks p).segment = s.segment := by
  unfold clearLinks
  generalize List.range s.handlers.length = slots
  induction slots generalizing s with
  | nil => rfl
  | cons i slots ih =>
    rw [List.foldl_cons, ih]
    unfold clearLinkAt
    split
    . split <;> rfl
    . rfl

def refersTo (fd : Int32) (handler : Handler) (l : BpfLinkHandler) : Bool :=
  match handler with
  | .perfEvent _ => l.attachTargetId == fd
  | .prog _ => l.progId == fd
  | _ => false

theorem refersTo_of_mem_refs {l : BpfLinkHandler} (h : (fd, handler.kind) ∈ (Handler.link l).refs)
    : refersTo fd handler l = true := by
  simp only [Handler.refs, List.mem_cons, Prod.mk.injEq, List.not_mem_nil, or_false] at h
  cases handler with
  | prog _ =>
    have heq : fd = l.progId := by simpa [Handler.kind] using h
    simp [refersTo, heq]
  | perfEvent _ =>
    have heq : fd = l.attachTargetId := by simpa [Handler.kind] using h
    simp [refersTo, heq]
  | _ => simp [Handler.kind] at h

theorem unlinked_false (h : Handler) : unlinked (fun _ => false) h = h := by
  cases h with
  | link l => simp [unlinked]
  | _ => rfl

theorem release_spec (h : s.release env fd handler = some s')
    : (∀ i : Nat, s'.handlers[i]? = s.handlers[i]?.map (unlinked (refersTo fd handler)))
        ∧ (∀ hm, handler = .map hm → hm.mapFree env s.segment = some s'.segment)
        ∧ (handler.kind ≠ .map → s'.segment = s.segment) := by
  have hsame (i : Nat) : s.handlers[i]? = s.handlers[i]?.map (unlinked fun _ => false) := by
    cases s.handlers[i]? with
    | none => rfl
    | some h => rw [Option.map_some, unlinked_false]
  unfold release at h
  cases handler with
  | map hm =>
    dsimp only at h
    split at h
    . simp at h
    . next memory hmemory =>
      cases h
      refine ⟨hsame, ?_, by simp [Handler.kind]⟩
      intro hm' heq
      cases heq
      exact hmemory
  | perfEvent _ | prog _ =>
    cases h
    exact ⟨getElem?_clearLinks s _, by simp, fun _ => segment_clearLinks s _⟩
  | _ =>
    cases h
    exact ⟨hsame, by simp, fun _ => rfl⟩

theorem clearIdAt_of_outside (h : s.slot? fd = none) : s.clearIdAt env fd = some s := by
  unfold clearIdAt
  rw [h]

theorem clearIdAt_of_unused (h : s.slot? fd = some .unused) : s.clearIdAt env fd = some s := by
  unfold clearIdAt
  rw [h]
  exact congrArg some (setSlot_self h)

theorem slot?_clearIdAt (hslot : s.slot? fd = some handler) (h : s.clearIdAt env fd = some s')
    (fd' : Int32)
    : s'.slot? fd'
        =
      if fd' = fd then some .unused else (s.slot? fd').map (unlinked (refersTo fd handler)) := by
  unfold clearIdAt at h
  rw [hslot] at h
  rcases Option.map_eq_some_iff.mp h with ⟨t, hrelease, rfl⟩
  have hslots (fd' : Int32)
      : t.slot? fd' = (s.slot? fd').map (unlinked (refersTo fd handler)) := by
    unfold slot?
    rw [(release_spec hrelease).1]
    split <;> rfl
  have htaken : t.slot? fd = some (unlinked (refersTo fd handler) handler) := by
    rw [hslots, hslot]
    rfl
  rw [slot?_setSlot htaken, hslots]

theorem setHandler_cases {o : Outcome} (h : s.setHandler env fd handler = some (o, s')) : s' = s
        ∨
      (s.slot? fd = some .unused ∧ handler.kind ≠ .unused ∧
        s'.handlers = (s.setSlot fd handler).handlers) := by
  unfold setHandler at h
  split at h
  next =>
    cases h
    exact .inl rfl
  next hfree =>
    split at h
    next =>
      cases h
      exact .inl rfl
    next hkind =>
      split at h
      next => simp at h
      next hsome =>
        right
        have hunused : s.slot? fd = some .unused := by
          unfold isAllocated at hfree
          cases hslot : s.slot? fd with
          | none => simp [hslot] at hsome
          | some h =>
            rw [hslot] at hfree
            simp only [bne_iff_ne, ne_eq, not_not] at hfree
            rw [Handler.kind_eq_unused.mp hfree]
        refine ⟨hunused, hkind, ?_⟩
        split at h
        next =>
          split at h
          next => simp at h
          next =>
            cases h
            rfl
          next =>
            cases h
            rfl
        next =>
          cases h
          rfl

theorem setHandler_of_free (h : s.slot? fd = some .unused) (hkind : handler.kind ≠ .unused)
    (hmap : handler.kind ≠ .map)
    : s.setHandler env fd handler = some (.ret fd none, s.setSlot fd handler) := by
  unfold setHandler isAllocated
  rw [h]
  cases handler with
  | unused => simp [Handler.kind] at hkind
  | map => simp [Handler.kind] at hmap
  | _ => simp [Handler.kind]

theorem setHandler_map_of_free {h : BpfMapHandler} (hfree : s.slot? fd = some .unused)
    : s.setHandler env fd (.map h)
        =
      (h.mapInit env s.segment).map fun (o, memory) =>
        (if o = .thrown then .thrown else .ret fd none,
          { s.setSlot fd (.map h) with segment := memory }) := by
  unfold setHandler isAllocated
  rw [hfree]
  simp only [Handler.kind]
  rw [if_neg (by simp), if_neg (by simp), if_neg (by simp)]
  cases hinit : h.mapInit env s.segment with
  | none => rfl
  | some out =>
    rcases out with ⟨r | _, memory⟩ <;> simp

theorem setHandler_of_taken {taken : Handler} (h : s.slot? fd = some taken)
    (hkind : taken.kind ≠ .unused)
    : s.setHandler env fd handler = some (.ret (-EEXIST) none, s) := by
  unfold setHandler isAllocated
  rw [h]
  simp [hkind]

theorem slot?_setHandler_of_taken {taken : Handler} {fd' : Int32} {o : Outcome}
    (hslot : s.slot? fd' = some taken) (hkind : taken.kind ≠ .unused)
    (h : s.setHandler env fd handler = some (o, s'))
    : s'.slot? fd' = some taken := by
  rcases setHandler_cases h with rfl | ⟨hfree, -, heq⟩
  . exact hslot
  . rw [slot?_congr heq, slot?_setSlot hfree, if_neg]
    . exact hslot
    . intro hfd
      rw [hfd, hfree] at hslot
      cases hslot
      exact hkind rfl

theorem setHandler_of_outside (h : s.slot? fd = none) (hkind : handler.kind ≠ .unused)
    : s.setHandler env fd handler = none := by
  unfold setHandler isAllocated
  rw [h]
  simp [hkind]

theorem replaceByMap_eq (env : Env) (hslot : s.slot? fd = some handler) (h : BpfMapHandler)
    : s.replaceByMap env fd h
        =
      (s.clearIdAt env fd).bind fun s => s.setHandler env fd (.map h) := by
  unfold replaceByMap
  rw [hslot]
  cases handler with
  | unused =>
    rw [clearIdAt_of_unused hslot]
    rfl
  | _ => rfl

theorem replaceByMap_steps {h : BpfMapHandler} {o : Outcome}
    (hreplace : s.replaceByMap env fd h = some (o, s'))
    : ∃ t, s.clearIdAt env fd = some t ∧ t.setHandler env fd (.map h) = some (o, s') := by
  cases hslot : s.slot? fd with
  | none => simp [replaceByMap, hslot] at hreplace
  | some handler =>
    rw [replaceByMap_eq env hslot] at hreplace
    exact Option.bind_eq_some_iff.mp hreplace

inductive Effect (env : Env) (s : BpftimeShm) : Op → BpftimeShm → Prop where
  | same {op : Op} : Effect env s op s
  | put {op : Op} {fd : Int32} {handler : Handler} {o : Outcome} {s' : BpftimeShm}
      (hrefs : handler.refs = []) (hkind : handler.kind ≠ .map)
      (hset : s.setHandler env fd handler = some (o, s')) : Effect env s op s'
  | attach {op : Op} {fd : Int32} {l : BpfLinkHandler} {o : Outcome} {s' : BpftimeShm}
      (hprog : s.isProgFd l.progId = true) (hperf : s.isPerfFd l.attachTargetId = true)
      (hset : s.setHandler env fd (.link l) = some (o, s')) : Effect env s op s'
  -- the target of the link is not looked at
  | link {fake fd : Int32} {args : BpfLinkCreateArgs} {o : Outcome} {s' : BpftimeShm}
      (hprog : s.isProgFd args.progFd.toInt32 = true)
      (hset : s.setHandler env (orFake fd fake) (.link (.ofArgs args)) = some (o, s'))
      : Effect env s (.addBpfLink fake fd args) s'
  | enable {op : Op} {fd : Int32} {enabled : Bool} : Effect env s op (s.setEnabled fd enabled)
  | clear {op : Op} {fd : Int32} {s' : BpftimeShm} (hmaps : op.OnMaps)
      (hclear : s.clearIdAt env fd = some s') : Effect env s op s'
  | replace {op : Op} {fd : Int32} {h : BpfMapHandler} {o : Outcome} {s' : BpftimeShm}
      (hmaps : op.OnMaps) (hreplace : s.replaceByMap env fd h = some (o, s')) : Effect env s op s'

theorem addCustomPerfEvent_effect {op : Op} {fake type : Int32} {attachArgument : CString}
    {o : Outcome} (h : s.addCustomPerfEvent env fake type attachArgument = some (o, s'))
    : Effect env s op s' := by
  unfold addCustomPerfEvent at h
  split at h
  . cases h
    exact .same
  . split at h
    . simp at h
    . next hset =>
      cases h
      exact .put rfl (by simp [Handler.kind]) hset

theorem attachPerfToBpf_cases {fake perfFd bpfFd : Int32} {cookie : Option UInt64} {o : Outcome}
    (h : s.attachPerfToBpf env fake perfFd bpfFd cookie = some (o, s'))
    : s' = s ∨ s.isProgFd bpfFd = true ∧ s.isPerfFd perfFd = true
        ∧ ∃ o', s.setHandler env fake (.link ⟨bpfFd, perfFd, cookie⟩) = some (o', s') := by
  unfold attachPerfToBpf addBpfProgAttachTarget at h
  split at h
  . next hperf =>
    split at h
    . next hprog =>
      split at h
      . cases h
        exact .inl rfl
      . split at h
        . simp at h
        . next hset =>
          cases h
          exact .inr ⟨hprog, hperf, _, hset⟩
    . cases h
      exact .inl rfl
  . cases h
    exact .inl rfl

theorem dupBpfMap_effect {fake oldfd newfd : Int32} {o : Outcome}
    (h : s.dupBpfMap env fake oldfd newfd = some (o, s'))
    : Effect env s (.dupBpfMap fake oldfd newfd) s' := by
  unfold dupBpfMap at h
  split at h
  . split at h
    . simp at h
    . exact .replace trivial h
  . cases h
    exact .same

theorem call_effect {op : Op} {o : Outcome} (h : s.call env op = some (o, s'))
    : Effect env s op s' := by
  unfold call at h
  cases op with
  | addKprobe | addUprobe | addTracepoint | addSoftwarePerfEvent | addMemfdHandler | addBpfProg =>
    exact .put rfl (by simp [Handler.kind]) h
  | addUprobeOverride =>
    dsimp only [addUprobeOverride] at h
    split at h <;> exact .put rfl (by simp [Handler.kind]) h
  | addCustomPerfEvent => exact addCustomPerfEvent_effect h
  | attachPerfToBpf fake perfFd bpfFd cookie =>
    rcases attachPerfToBpf_cases h with rfl | ⟨hprog, hperf, _, hset⟩
    . exact .same
    . exact .attach (l := ⟨bpfFd, perfFd, cookie⟩) hprog hperf hset
  | perfEventEnable | perfEventDisable =>
    dsimp only [perfEventEnable, perfEventDisable] at h
    split at h
    . cases h
      exact .enable
    . cases h
      exact .same
  | epollCreate =>
    dsimp only [epollCreate] at h
    split at h
    . cases h
      exact .same
    . exact .put rfl (by simp [Handler.kind]) h
  | addBpfLink =>
    dsimp only [addBpfLink] at h
    split at h
    . next hprog => exact .link hprog h
    . cases h
      exact .same
  | closeFd =>
    rcases Option.map_eq_some_iff.mp h with ⟨t, hclear, heq⟩
    cases heq
    exact .clear trivial hclear
  | addBpfMap => exact .replace trivial h
  | dupBpfMap => exact dupBpfMap_effect h

end BpftimeShm

end Bpftime.Shm
