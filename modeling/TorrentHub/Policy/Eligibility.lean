import TorrentHub.Policy.Restore

namespace TorrentHub

open RuntimePolicy

variable {p n : RuntimePolicy} {event : StateEvent} {d : StateDecision} {e : Effects}

def StateEventKind.scheduling : StateEventKind → Bool
  | .selectionObserved | .slotRequested | .slotReleased => true
  | _ => false

def StateEventKind.quiesces : StateEventKind → Bool
  | .paused | .restoreStaged | .applyFailed | .metadataFailed | .selectionInvalid
  | .payloadMissing | .deleted | .closed => true
  | _ => false

theorem transitionStep_scheduling (h : transitionStep p event = .ok (n, e))
    (hk : event.kind.scheduling = true) :
    n.payloadEligible = p.payloadEligible ∧ n.uploadEligible = p.uploadEligible := by
  unfold transitionStep at h
  split at h <;> rename_i hkind <;> rw [hkind] at hk
  case h_8 =>
    unfold selectionStep at h
    repeat' split at h
    all_goals cases h
    all_goals exact ⟨rfl, rfl⟩
  case h_9 =>
    unfold slotRequestStep at h
    repeat' split at h
    all_goals cases h
    all_goals exact ⟨rfl, rfl⟩
  case h_10 =>
    unfold slotReleaseStep at h
    repeat' split at h
    all_goals cases h
    all_goals exact ⟨rfl, rfl⟩
  all_goals cases hk

section

variable (h : runtimeTransition p event = .ok d)
include h

theorem decision_scheduling (hk : event.kind.scheduling = true) :
    d.policy.payloadEligible = p.payloadEligible ∧ d.policy.uploadEligible = p.uploadEligible := by
  obtain ⟨-, -, n, e, hs, rfl⟩ := runtimeTransition_ok h
  exact transitionStep_scheduling hs hk

theorem decision_disk (hk : event.kind = .diskBlocked) :
    d.policy.uploadEligible = p.uploadEligible := by
  obtain ⟨-, -, n, e, hs, rfl⟩ := runtimeTransition_ok h
  simp only [transitionStep, hk, diskStep] at hs
  split at hs
  · cases hs
  cases hs
  rfl

theorem decision_quiesces (hk : event.kind.quiesces = true) : d.toEffects = Effects.quiesce := by
  obtain ⟨-, -, n, e, hs, rfl⟩ := runtimeTransition_ok h
  unfold transitionStep at hs
  split at hs <;> rename_i hkind <;> rw [hkind] at hk
  case h_6 =>
    unfold stageStep at hs
    split at hs
    · cases hs
    cases hs
    rfl
  all_goals first | (cases hs; rfl) | cases hk

theorem decision_reopens (hk : event.kind = .verification ∨ event.kind = .activated) :
    d.toEffects = Effects.reopen d.policy := by
  obtain ⟨-, -, n, e, hs, rfl⟩ := runtimeTransition_ok h
  rcases hk with hk | hk <;> simp only [transitionStep, hk] at hs
  · unfold verificationStep at hs
    split at hs
    · cases hs
    cases hs
    rfl
  · obtain ⟨-, -, -, -, he⟩ := activateStep_ok hs
    simp only [activatePolicy, Prod.mk.injEq] at he
    obtain ⟨rfl, rfl⟩ := he
    rfl

theorem decision_activated (hk : event.kind = .activated) :
    p.terminal = false ∧ p.registered = true ∧ p.checking = false ∧ p.uncertain = false ∧
      d.next.state = d.policy.projection.1 ∧
      d.policy = (activatePolicy (activateBase p event) event).1 := by
  obtain ⟨ht, hr, n, e, hs, rfl⟩ := runtimeTransition_ok h
  simp only [transitionStep, hk] at hs
  obtain ⟨-, hc, hu, -, he⟩ := activateStep_ok hs
  have hreg : p.registered = true := by
    rcases hr with hr | hr
    · exact hr
    · rw [hk] at hr
      cases hr
  exact ⟨ht, hreg, hc, hu, rfl, congrArg Prod.fst he⟩

end

theorem resume_eligible
    (h : runtimeTransition p { kind := .activated, phase := .queued, diskRecovered := true } =
      .ok d) :
    d.policy.payloadEligible = !p.verificationFault ∧
      d.policy.uploadEligible = !p.verificationFault := by
  obtain ⟨ht, hr, hc, hu, -, hd⟩ := decision_activated h rfl
  rw [hd]
  simp [payloadEligible, uploadEligible, fault,
    activatePolicy, activateBase, installPhase, ht, hr, hc, hu]

theorem activatePolicy_run (n : RuntimePolicy) (event : StateEvent) :
    (activatePolicy n event).1.run = .paused ∨ (activatePolicy n event).1.run = .enabled := by
  simp only [activatePolicy]
  have hrun : ∀ m : RuntimePolicy, (installPhase m event.phase event.err).run = m.run := by
    intro m
    unfold installPhase
    repeat' split
    all_goals rfl
  rw [hrun]
  by_cases hp : event.phase = .paused
  · exact .inl (by simp only [hp, ↓reduceIte])
  · exact .inr (by simp only [hp, ↓reduceIte])

theorem activated_eligible (h : runtimeTransition p event = .ok d) (hk : event.kind = .activated)
    (ha : inactivePhase d.next.state = false) : d.policy.payloadEligible = true := by
  obtain ⟨ht, hr, hc, hu, hstate, hd⟩ := decision_activated h hk
  have hterminal : d.policy.terminal = false := by
    rw [hd]
    simp only [activatePolicy, installPhase_terminal]
    unfold activateBase
    split <;> exact ht
  have hregistered : d.policy.registered = true := by
    rw [hd]
    simp [activatePolicy, hr]
  have hinit : d.policy.initializing = false := by
    rw [hd]
    simp only [activatePolicy, installPhase_initializing]
    unfold activateBase
    split <;> rfl
  have hchecking : d.policy.checking = false := by
    rw [hd]
    simp [activatePolicy, hc]
  have huncertain : d.policy.uncertain = false := by
    rw [hd]
    simp [activatePolicy, hu]
  have hrun : d.policy.run = .enabled := by
    have hcases : d.policy.run = .paused ∨ d.policy.run = .enabled := by
      rw [hd]
      exact activatePolicy_run _ _
    rcases hcases with hp | he
    · rw [hstate, projection, if_pos hp] at ha
      cases ha
    · exact he
  have hfaults : ¬ (d.policy.missingFault ≠ "" ∨ d.policy.metadataFault ≠ "" ∨
      d.policy.selectionFault ≠ "" ∨ d.policy.legacyFault ≠ "" ∨
      d.policy.verificationFault = true) := by
    intro hf
    have := projection_inactive hchecking hf
    rw [← hstate, ha] at this
    cases this
  have hdisk : d.policy.disk = "" := by
    by_contra hdisk
    rw [hstate, projection, if_neg (by rw [hrun]; exact fun hp => by cases hp), if_pos hdisk] at ha
    cases ha
  simp only [not_or, not_not, Bool.not_eq_true] at hfaults
  obtain ⟨hmi, hme, hs, hl, hv⟩ := hfaults
  exact (payloadEligible_iff _).2 ⟨(uploadEligible_iff _).2
      ⟨hregistered, hterminal, hrun, hinit, hchecking, huncertain, hv, hmi, hme, hs, hl⟩, hdisk⟩

end TorrentHub
