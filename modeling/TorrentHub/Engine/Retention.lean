import TorrentHub.Engine.Admission

namespace TorrentHub
open Lib RuntimePolicy ManagedTorrent

theorem transitionStep_slot {p n : RuntimePolicy} {event : StateEvent} {e : Effects}
    (h : transitionStep p event = .ok (n, e)) (hk : event.kind ≠ .slotRequested)
    (hs : n.slot = true) : p.slot = true := by
  cases hkind : event.kind with
  | slotRequested => exact absurd hkind hk
  | registered =>
    simp only [transitionStep, hkind] at h
    rw [(Prod.mk.inj (registerStep_ok h).2.2).1] at hs
    cases hs
  | activated =>
    simp only [transitionStep, hkind] at h
    rw [(Prod.mk.inj (activateStep_ok h).2.2.2.2).1] at hs
    cases hs
  | selectionObserved =>
    simp only [transitionStep, hkind, selectionStep] at h
    repeat' split at h
    all_goals cases h
    · cases hs
    · exact hs
  | verification =>
    simp only [transitionStep, hkind, verificationStep] at h
    split at h <;> cases h
    cases hs
  | other text =>
    simp only [transitionStep, hkind] at h
    cases h
  | restoreStaged =>
    simp only [transitionStep, hkind, stageStep] at h
    split at h <;> cases h
    cases hs
  | slotReleased =>
    simp only [transitionStep, hkind, slotReleaseStep] at h
    split at h <;> cases h
    cases hs
  | diskBlocked =>
    simp only [transitionStep, hkind, diskStep] at h
    split at h <;> cases h
    cases hs
  | paused =>
    simp only [transitionStep, hkind, pauseStep] at h
    cases h
    split at hs <;> cases hs
  | deleted | closed =>
    simp only [transitionStep, hkind, terminateStep] at h
    cases h
    split at hs <;> cases hs
  | applyFailed | metadataFailed | selectionInvalid | payloadMissing =>
    simp only [transitionStep, hkind, faultStep] at h
    cases h
    cases hs

namespace Runtime

variable {r s t : Runtime} {event : StateEvent} {d : StateDecision} {env : Environment}

def Shown (r : Runtime) : Prop :=
  (r.mt.rechecking, r.mt.verificationUncertain, r.mt.initializing) =
    (r.mt.policy.checking, r.mt.policy.uncertain, r.mt.policy.initializing)

/-- A section that grants nothing: the token stays, no slot appears, the policy stays consistent and
shown, and a slot goes with its place. -/
structure Retains (r s : Runtime) : Prop where
  token : s.mt.slotToken = r.mt.slotToken
  slot : s.mt.policy.slot = true → r.mt.policy.slot = true
  consistent : r.mt.policy.Consistent → s.mt.policy.Consistent
  active : (s.managed || s.registering) = true → (r.managed || r.registering) = true
  placed : r.mt.policy.Consistent → (r.mt.policy.slot = true → r.managed = true) →
    s.mt.policy.slot = true → s.managed = true
  shown : r.Shown → s.Shown

theorem Retains.refl (r : Runtime) : Retains r r := ⟨rfl, id, id, id, fun _ h => h, id⟩

theorem Retains.trans (hrs : Retains r s) (hst : Retains s t) : Retains r t where
  token := hst.token.trans hrs.token
  slot h := hrs.slot (hst.slot h)
  consistent h := hst.consistent (hrs.consistent h)
  active h := hrs.active (hst.active h)
  placed hc hp := hst.placed (hrs.consistent hc) (hrs.placed hc hp)
  shown h := hst.shown (hrs.shown h)

theorem Retains.of_policy (hp : s.mt.policy = r.mt.policy)
    (ht : s.mt.slotToken = r.mt.slotToken) (hm : s.managed = r.managed)
    (hr : s.registering = r.registering)
    (hs : (s.mt.rechecking, s.mt.verificationUncertain, s.mt.initializing) =
      (r.mt.rechecking, r.mt.verificationUncertain, r.mt.initializing)) : Retains r s where
  token := ht
  slot h := hp ▸ h
  consistent h := hp.symm ▸ h
  active h := by rwa [hm, hr] at h
  placed _ h hs := by rw [hm]; rw [hp] at hs; exact h hs
  shown h := by rw [Shown, hs, hp]; exact h

section

variable (h : r.applyStateEvent event = .ok (s, d))
include h

theorem applyStateEvent_consistent (hc : r.mt.policy.Consistent) : s.mt.policy.Consistent := by
  rw [applyStateEvent_policy h, ← step_eq (applyStateEvent_ok h).1]
  exact hc.step event

theorem applyStateEvent_shown : s.Shown := by
  obtain ⟨ht, rfl⟩ := applyStateEvent_ok h
  obtain ⟨-, -, n, e, -, rfl⟩ := runtimeTransition_ok ht
  rfl

theorem applyStateEvent_slot (hk : event.kind ≠ .slotRequested) (hs : s.mt.policy.slot = true) :
    r.mt.policy.slot = true := by
  rw [applyStateEvent_policy h] at hs
  obtain ⟨-, -, n, e, hn, rfl⟩ := runtimeTransition_ok (applyStateEvent_ok h).1
  exact transitionStep_slot hn hk hs

theorem Retains.of_event (hk : event.kind ≠ .slotRequested) : Retains r s := by
  have hplace : s.managed = r.managed ∧ s.registering = r.registering := by
    obtain ⟨-, rfl⟩ := applyStateEvent_ok h
    exact ⟨rfl, rfl⟩
  refine ⟨?_, applyStateEvent_slot h hk, applyStateEvent_consistent h, ?_, ?_,
    fun _ => applyStateEvent_shown h⟩
  · obtain ⟨-, rfl⟩ := applyStateEvent_ok h
    simp only [install, beq_eq_false_iff_ne.2 hk, Bool.and_false, Bool.false_eq_true, ↓reduceIte]
  · rw [hplace.1, hplace.2]
    exact id
  · intro _ hp hs
    rw [hplace.1]
    exact hp (applyStateEvent_slot h hk hs)

end

theorem Spares.retains (h : Spares r s) : Retains r s :=
  .of_policy h.policy h.slotToken h.managed h.registering h.shown

theorem Moves.retains (h : Moves r s) : Retains r s := by
  induction h with
  | refl => exact .refl r
  | edit _ hs ih => exact ih.trans hs.retains
  | event _ he hk ih => exact ih.trans (.of_event he hk.1)

theorem Verifies.retains (h : Verifies r s) : Retains r s := by
  induction h with
  | refl => exact .refl r
  | moves _ hm ih => exact ih.trans hm.retains
  | verification _ he ih => exact ih.trans (.of_event he nofun)
  | attempt _ attempt tickets ih => exact ih.trans (.of_policy rfl rfl rfl rfl rfl)

theorem terminate_slot (hc : r.mt.policy.Consistent) :
    (r.terminate .deleted).mt.policy.slot = false := by
  unfold terminate
  split
  next err h =>
    by_contra hs
    rw [Bool.not_eq_false] at hs
    obtain ⟨hu, -⟩ := (payloadEligible_iff _).1 (hc.slot_eligible hs)
    obtain ⟨hregistered, hterminal, -⟩ := (uploadEligible_iff _).1 hu
    simp only [applyStateEvent, applyStateEventLocked, runtimeTransition, hterminal,
      hregistered, transitionStep, Bool.false_eq_true, ↓reduceIte, Bool.not_true, Bool.false_and,
      reduceCtorEq] at h
  next s d h =>
  rw [(applyQuiesceLocked_spares s d).policy, applyStateEvent_policy h]
  obtain ⟨-, -, n, e, hn, rfl⟩ := runtimeTransition_ok (applyStateEvent_ok h).1
  simp only [transitionStep, terminateStep, Except.ok.injEq, Prod.mk.injEq] at hn
  rw [← hn.1]
  simp only [StateDecision.of]
  split <;> rfl

section

variable (r : Runtime)

theorem delete_retains (env : Environment) : Retains r (r.delete env).1 := by
  unfold delete
  split
  · exact .refl r
  split
  · exact .refl r
  split
  · exact .refl r
  next hregistering hmanaged =>
  have hkind : StateEventKind.deleted.quiesces = true := rfl
  have h := (terminate_acts hkind { r with managed := false }).moves.retains
  refine ⟨h.token, h.slot, h.consistent, ?_, ?_, h.shown⟩
  · intro _
    rw [Bool.not_eq_true', Bool.not_eq_false] at hmanaged
    simp only [hmanaged, Bool.true_or]
  · intro hc _ hs
    exact absurd hs (Bool.eq_false_iff.1 (terminate_slot (r := { r with managed := false }) hc))

theorem publish_retains (env : Environment) : Retains r (r.publish env).1 := by
  unfold publish
  split
  · exact ⟨rfl, id, id, fun h => by simp_all, fun _ h => h, id⟩
  next h =>
  simp only [Bool.or_eq_true, Bool.not_eq_true', not_or, Bool.not_eq_false] at h
  exact ⟨rfl, id, id, fun _ => by simp [h.2], fun _ _ _ => rfl, id⟩

theorem failIntentApply_retains (expected : Bool) (v : IntentVersion) :
    Retains r (r.failIntentApply expected v).1 := by
  simp only [failIntentApply]
  repeat' split
  all_goals first
    | exact .refl r
    | rename_i h
      refine (Retains.of_event h (by simp)).trans ?_
      refine .trans ?_ (applyQuiesceLocked_spares _ _).retains
      exact .of_policy rfl rfl rfl rfl rfl

theorem bindRuntime_retains (expected : Bool) (fence : RuntimeFence)
    (applied : Int) (env : Environment) :
    Retains r (r.bindRuntime expected fence applied env).1 := by
  unfold bindRuntime
  repeat' split
  all_goals exact .of_policy rfl rfl rfl rfl rfl

theorem call_retains (op : Operation) (env : Environment) : Retains r (r.call op env) := by
  by_cases hplain : op.plain = true
  · exact (call_moves hplain r env).retains
  cases op <;> try exact absurd rfl hplain
  case restoreVerificationBlock => exact (restoreVerificationBlock_checks r).verifies.retains
  case startRecheck => exact (startRecheckLocked_checks r env).verifies.retains
  case verifyInactive => exact (verifyInactive_checks r env).verifies.retains
  case finishVerification attempt result =>
    exact (completeVerificationLocked_checks r attempt result env).verifies.retains
  case failIntentApply expected v => exact failIntentApply_retains r expected v
  case bindRuntime expected fence applied => exact bindRuntime_retains r expected fence applied env
  case delete => exact delete_retains r env

end

structure Grants (m s : Runtime) : Prop where
  eligible : m.mt.policy.payloadEligible = true
  free : m.mt.policy.slot = false
  selected : m.mt.policy.selectedComplete = false
  payload : m.mt.policy.payloadComplete = false
  managed : m.managed = true
  place : s.managed = true ∧ s.registering = m.registering
  token : s.mt.slotToken = m.mt.slotToken + 1
  consistent : m.mt.policy.Consistent → s.mt.policy.Consistent
  shown : s.Shown

theorem slotRequested_grants {available : Bool} (hm : r.managed = true)
    (h : r.applyStateEvent { kind := .slotRequested, slotAvailable := available } = .ok (s, d)) :
    available = true ∧ Grants r s := by
  have hc := applyStateEvent_consistent h
  have hshown := applyStateEvent_shown h
  obtain ⟨ht, rfl⟩ := applyStateEvent_ok h
  have hslot := slotRequest_grants ht rfl
  obtain ⟨-, -, n, e, hn, rfl⟩ := runtimeTransition_ok ht
  simp only [transitionStep, slotRequestStep] at hn
  repeat' split at hn
  all_goals cases hn
  rename_i he hs hcomplete ha
  simp only [Bool.or_eq_true, not_or, Bool.not_eq_true] at he hs hcomplete ha
  refine ⟨by simpa using ha, by simpa using he, hs, hcomplete.1, hcomplete.2, hm, ⟨hm, rfl⟩, ?_, hc,
    hshown⟩
  simp only [install, hslot, beq_self_eq_true, Bool.and_self, ↓reduceIte]

theorem admitFailed_kept (h : ¬ (r.mt.policy.slot = true ∧ r.mt.slotToken = token))
    (live streams : Bool) : r.admitFailed (.scheduler token) live streams = r := by
  rw [← beq_iff_eq (a := r.mt.slotToken), ← Bool.and_eq_true] at h
  simp only [admitFailed, h, Bool.false_eq_true, ↓reduceIte]

theorem observed_retains (r : Runtime) (index : Nat) (env : Environment)
    (ticket : PayloadPreparation) : Retains r ((r.take index).observed env ticket) :=
  .trans (s := r.take index) (.of_policy rfl rfl rfl rfl rfl) (observed_moves _ env ticket).retains

theorem step_retains_or_grants (r : Runtime) (action : Action) : Retains r (r.step action) ∨
      ∃ index env ticket granted, action = .returned index env ∧
        r.work[index]? = some (.health ticket) ∧ env.slotAvailable = true ∧
        Retains r ((r.take index).observed env ticket) ∧
        Grants ((r.take index).observed env ticket) granted ∧ Retains granted (r.step action) := by
  cases action with
  | call op env => exact .inl (call_retains r op env)
  | gotInfo files | writeFailed err => exact .inl (.of_policy rfl rfl rfl rfl rfl)
  | returned index env =>
    have htake : Retains r (r.take index) := .of_policy rfl rfl rfl rfl rfl
    cases hw : r.work[index]? with
    | none =>
      simp only [step, hw]
      exact .inl (.refl r)
    | some work =>
      simp only [step, hw]
      change Retains r ((r.take index).finish work env) ∨ _
      by_cases hplain : work.plain = true
      · exact .inl (htake.trans (finish_moves hplain _ env).retains)
      cases work <;> try exact absurd rfl hplain
      case register => exact .inl (htake.trans (publish_retains _ env))
      case health ticket =>
        rcases healthReturned_cases (r.take index) env ticket with h | ⟨granted, d, hm, he, h⟩
        · exact .inl (htake.trans h.retains)
        have hmanaged := (observed_moves (r.take index) env ticket).place.1.trans hm
        obtain ⟨ha, hgrants⟩ := slotRequested_grants hmanaged he
        exact .inr ⟨index, env, ticket, granted, rfl, hw, ha, observed_retains r index env ticket,
          hgrants, h.retains⟩

theorem applyStateEvent_step (h : r.applyStateEvent event = .ok (s, d)) :
    s.mt.policy = r.mt.policy.step event := by
  rw [applyStateEvent_policy h, step_eq (applyStateEvent_ok h).1]

theorem applyStateEvent_rejected {err : StateTransitionError}
    (h : r.applyStateEvent event = .error err) : r.mt.policy = r.mt.policy.step event := by
  unfold applyStateEvent at h
  split at h
  next heq =>
    rw [← apply_policy, (apply_error (congrArg Prod.snd heq)).2]
  · cases h

theorem publish_policy (r : Runtime) (env : Environment) :
    (r.publish env).1.mt.policy = r.mt.policy := by
  unfold publish
  split <;> rfl

section

variable (spec : TorrentSpec) (restored : Option SavedTorrent) (noUpload : Bool) (env : Environment)

theorem registerTorrent_policy : (registerTorrent spec restored noUpload env).1.mt.policy =
      RuntimePolicy.step {} (registeredEvent restored) := by
  cases restored <;> simp only [registerTorrent] <;> split
  all_goals rename_i h
  all_goals first
    | exact applyStateEvent_rejected h
    | have hstep := applyStateEvent_step h
      split
      · exact hstep
      · exact (publish_policy _ env).trans hstep

theorem registerTorrent_shown : (registerTorrent spec restored noUpload env).1.Shown := by
  have hpublish : ∀ (r : Runtime) env, r.Shown → (r.publish env).1.Shown := fun r env =>
    (publish_retains r env).shown
  cases restored <;> simp only [registerTorrent] <;> split
  all_goals rename_i h
  all_goals first
    | rfl
    | have hshown := applyStateEvent_shown h
      split
      · exact hshown
      · exact hpublish _ env hshown

theorem registerTorrent_consistent :
    (registerTorrent spec restored noUpload env).1.mt.policy.Consistent := by
  rw [registerTorrent_policy]
  exact consistent_zero.step _

theorem registerTorrent_slot :
    (registerTorrent spec restored noUpload env).1.mt.policy.slot = false := by
  rw [registerTorrent_policy]
  rcases RuntimePolicy.step_cases {} (registeredEvent restored) with ⟨-, h⟩ | ⟨-, -, n, e, hn, h⟩
  · rw [h]
  rw [h]
  by_contra hs
  rw [Bool.not_eq_false] at hs
  have hk : (registeredEvent restored).kind ≠ .slotRequested := by cases restored <;> nofun
  cases transitionStep_slot hn hk hs

end

end Runtime

end TorrentHub
