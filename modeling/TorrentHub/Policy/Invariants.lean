import TorrentHub.Policy.Transition
import TorrentHub.Lib.Run

namespace TorrentHub
open Lib RuntimePolicy

variable {p n : RuntimePolicy} {event : StateEvent} {d : StateDecision} {e : Effects}

def RuntimePolicy.step (p : RuntimePolicy) (event : StateEvent) : RuntimePolicy :=
  match runtimeTransition p event with
  | .ok d => d.policy
  | .error _ => p

def RuntimePolicy.Accepts (p : RuntimePolicy) (event : StateEvent) : Prop :=
  ∃ d, runtimeTransition p event = .ok d

theorem runtimeTransition_ok (h : runtimeTransition p event = .ok d) :
    p.terminal = false ∧ (p.registered = true ∨ event.kind = .registered) ∧
      ∃ n e, transitionStep p event = .ok (n, e) ∧ d = StateDecision.of n e := by
  unfold runtimeTransition at h
  split at h
  · cases h
  next ht =>
  split at h
  · cases h
  next hr =>
  split at h
  · cases h
  next n e hs =>
  cases h
  refine ⟨by simpa using ht, ?_, n, e, hs, rfl⟩
  by_cases hp : p.registered = true
  · exact .inl hp
  right
  simpa [hp] using hr

theorem runtimeTransition_terminal (h : p.terminal = true) (event : StateEvent) :
    runtimeTransition p event = .error ⟨event.kind, "runtime_terminal"⟩ := by
  simp only [runtimeTransition, h, ↓reduceIte]

theorem RuntimePolicy.step_eq (h : runtimeTransition p event = .ok d) :
    p.step event = d.policy := by
  simp only [step, h]

section

variable (p : RuntimePolicy)

/-- One event either is rejected and changes nothing, or is one accepted `transitionStep`. -/
theorem RuntimePolicy.step_cases (event : StateEvent) :
    (¬ p.Accepts event ∧ p.step event = p) ∨ (p.Accepts event ∧ p.terminal = false ∧
        ∃ n e, transitionStep p event = .ok (n, e) ∧ p.step event = n) := by
  cases h : runtimeTransition p event with
  | error r =>
    refine .inl ⟨?_, by simp only [step, h]⟩
    rintro ⟨d, hd⟩
    rw [h] at hd
    cases hd
  | ok d =>
    obtain ⟨ht, -, n, e, hs, rfl⟩ := runtimeTransition_ok h
    exact .inr ⟨⟨_, h⟩, ht, n, e, hs, step_eq h⟩

@[simp] theorem fault_none_iff : p.fault.2 = ErrorReason.none ↔
      p.missingFault = "" ∧ p.metadataFault = "" ∧ p.selectionFault = "" ∧ p.legacyFault = "" := by
  unfold fault ErrorReason.none
  split
  next h => exact ⟨fun he => absurd he h, fun he => absurd he.1 h⟩
  split
  next h => exact ⟨fun he => absurd he h, fun he => absurd he.2.1 h⟩
  split
  next h => exact ⟨fun he => absurd he h, fun he => absurd he.2.2.1 h⟩
  split
  next h => exact ⟨fun he => absurd he h, fun he => absurd he.2.2.2 h⟩
  · simp_all

theorem fault_phase_none_iff : p.fault.1 = .other "" ↔ p.fault.2 = ErrorReason.none := by
  rw [fault_none_iff]
  unfold fault
  split
  · simp_all
  split
  · simp_all
  split
  · simp_all
  · split <;> simp_all

theorem uploadEligible_iff : p.uploadEligible = true ↔
      p.registered = true ∧ p.terminal = false ∧ p.run = .enabled ∧ p.initializing = false ∧
        p.checking = false ∧ p.uncertain = false ∧ p.verificationFault = false ∧
        p.missingFault = "" ∧ p.metadataFault = "" ∧ p.selectionFault = "" ∧
        p.legacyFault = "" := by
  simp only [uploadEligible, Bool.and_eq_true, Bool.not_eq_true', beq_iff_eq,
    fault_none_iff, and_assoc]

theorem payloadEligible_iff : p.payloadEligible = true ↔ p.uploadEligible = true ∧ p.disk = "" := by
  simp only [uploadEligible, payloadEligible, Bool.and_eq_true, and_assoc, beq_iff_eq]
  tauto

end

structure RuntimePolicy.Consistent (p : RuntimePolicy) : Prop where
  slot_eligible : p.slot = true → p.payloadEligible = true
  slot_selected : p.slot = true → p.selectedComplete = false
  slot_payload : p.slot = true → p.payloadComplete = false
  payload_selected : p.payloadComplete = true → p.selectedComplete = true
  checking_uncertain : p.checking = true → p.uncertain = true

theorem RuntimePolicy.Consistent.of_no_slot (hs : p.slot = false)
    (hc : p.payloadComplete = true → p.selectedComplete = true)
    (hv : p.checking = true → p.uncertain = true) : p.Consistent where
  slot_eligible h := by rw [hs] at h; cases h
  slot_selected h := by rw [hs] at h; cases h
  slot_payload h := by rw [hs] at h; cases h
  payload_selected := hc
  checking_uncertain := hv

theorem RuntimePolicy.consistent_zero : Consistent {} :=
  .of_no_slot rfl (fun h => by cases h) (fun h => by cases h)

@[simp] theorem installPhase_verification (n : RuntimePolicy) (phase : TorrentState)
    (err : ErrorReason) : (installPhase n phase err).checking = n.checking ∧
      (installPhase n phase err).uncertain = n.uncertain := by
  unfold installPhase
  split
  · exact ⟨rfl, rfl⟩
  · split
    · exact ⟨rfl, rfl⟩
    · split
      · exact ⟨rfl, rfl⟩
      · split <;> exact ⟨rfl, rfl⟩
  · split <;> exact ⟨rfl, rfl⟩
  · exact ⟨rfl, rfl⟩

theorem activatePolicy_consistent (hv : n.checking = true → n.uncertain = true)
    (event : StateEvent) : (activatePolicy n event).1.Consistent := by
  refine .of_no_slot rfl (fun h => by cases h) ?_
  simp only [activatePolicy, installPhase_verification]
  exact hv

theorem registerStep_ok (h : registerStep p event = .ok (n, e)) :
    activationPhase event.phase = true ∧ p.registered = false ∧
      (n, e) = activatePolicy (registerBase p event) event := by
  unfold registerStep at h
  split at h
  · cases h
  next ha =>
  split at h
  · cases h
  next hr => exact ⟨by simpa using ha, by simpa using hr, (Except.ok.inj h).symm⟩

theorem activateStep_ok (h : activateStep p event = .ok (n, e)) :
    activationPhase event.phase = true ∧ p.checking = false ∧ p.uncertain = false ∧
      (p.initializing = true → event.fullReconcile = true) ∧
      (n, e) = activatePolicy (activateBase p event) event := by
  unfold activateStep at h
  split at h
  · cases h
  next ha =>
  split at h
  · cases h
  split at h
  · cases h
  next hv =>
  split at h
  · cases h
  next hi =>
  simp only [Bool.or_eq_true, not_or, Bool.not_eq_true] at hv
  refine ⟨by simpa using ha, hv.1, hv.2, ?_, (Except.ok.inj h).symm⟩
  intro hp
  simpa [hp] using hi

theorem registerStep_consistent (hp : p.Consistent)
    (h : registerStep p event = .ok (n, e)) : n.Consistent := by
  obtain ⟨-, -, he⟩ := registerStep_ok h
  have hc := activatePolicy_consistent (n := registerBase p event) hp.checking_uncertain event
  rw [← he] at hc
  exact hc

@[simp] theorem activateBase_verification (p : RuntimePolicy) (event : StateEvent) :
    (activateBase p event).checking = p.checking ∧
      (activateBase p event).uncertain = p.uncertain := by
  unfold activateBase
  split <;> exact ⟨rfl, rfl⟩

section

variable (hp : p.Consistent)
include hp

theorem activateStep_consistent (h : activateStep p event = .ok (n, e)) : n.Consistent := by
  obtain ⟨-, -, -, -, he⟩ := activateStep_ok h
  have hc := activatePolicy_consistent (n := activateBase p event)
    (by simpa only [activateBase_verification] using hp.checking_uncertain) event
  rw [← he] at hc
  exact hc

theorem terminateStep_consistent : (terminateStep p).1.Consistent := by
  unfold terminateStep
  split
  · exact .of_no_slot rfl hp.payload_selected fun _ => rfl
  · exact .of_no_slot rfl hp.payload_selected hp.checking_uncertain

theorem pauseStep_consistent : (pauseStep p event).1.Consistent := by
  unfold pauseStep
  split <;> exact .of_no_slot rfl hp.payload_selected hp.checking_uncertain

theorem stageStep_consistent (h : stageStep p = .ok (n, e)) : n.Consistent := by
  unfold stageStep at h
  split at h
  · cases h
  cases h
  exact .of_no_slot rfl hp.payload_selected hp.checking_uncertain

end

theorem verificationPolicy_completion (hp : p.Consistent)
    (h : verificationPolicy p v = .ok n) : (n.payloadComplete = true → n.selectedComplete = true) ∧
      (n.checking = true → n.uncertain = true) := by
  cases v with
  | other => cases h
  | restored =>
    cases h
    exact ⟨hp.payload_selected, fun _ => rfl⟩
  | begin =>
    simp only [verificationPolicy] at h
    split at h
    · cases h
    cases h
    exact ⟨fun hc => (by cases hc), fun _ => rfl⟩
  | succeeded =>
    simp only [verificationPolicy] at h
    split at h
    · cases h
    cases h
    exact ⟨hp.payload_selected, fun hc => by cases hc⟩
  | failed | cancelled =>
    simp only [verificationPolicy] at h
    split at h
    · cases h
    cases h
    exact ⟨hp.payload_selected, fun _ => rfl⟩

section

variable (hp : p.Consistent)
include hp

theorem verificationStep_consistent (h : verificationStep p event = .ok (n, e)) : n.Consistent := by
  unfold verificationStep at h
  split at h
  · cases h
  next m hm =>
  cases h
  obtain ⟨hc, hv⟩ := verificationPolicy_completion hp hm
  exact .of_no_slot rfl hc hv

theorem selectionStep_consistent (h : selectionStep p event = .ok (n, e)) : n.Consistent := by
  unfold selectionStep at h
  split at h
  · cases h
  split at h
  · cases h
  next hc =>
  have hcomplete : event.payloadComplete = true → event.selectedComplete = true := by
    intro hpay
    simpa [hpay] using hc
  split at h
  · cases h
  split at h
  · cases h
    exact .of_no_slot rfl hcomplete hp.checking_uncertain
  next hs =>
  cases h
  simp only [Bool.or_eq_true, Bool.not_eq_true', not_or, Bool.not_eq_true, Bool.not_eq_false] at hs
  obtain ⟨hsel, helig⟩ := hs
  refine ⟨fun _ => helig, fun _ => hsel, fun _ => ?_, hcomplete, hp.checking_uncertain⟩
  change event.payloadComplete = false
  by_contra hpay
  rw [hcomplete (by simpa using hpay)] at hsel
  cases hsel

theorem slotRequestStep_consistent (h : slotRequestStep p event = .ok (n, e)) : n.Consistent := by
  unfold slotRequestStep at h
  split at h
  · cases h
  next helig =>
  split at h
  · cases h
  split at h
  · cases h
  next hc =>
  split at h
  · cases h
  cases h
  simp only [Bool.not_eq_true', Bool.not_eq_false] at helig
  simp only [Bool.or_eq_true, not_or, Bool.not_eq_true] at hc
  exact ⟨fun _ => helig, fun _ => hc.1, fun _ => hc.2, hp.payload_selected, hp.checking_uncertain⟩

theorem slotReleaseStep_consistent (h : slotReleaseStep p = .ok (n, e)) : n.Consistent := by
  unfold slotReleaseStep at h
  split at h
  · cases h
  cases h
  exact .of_no_slot rfl hp.payload_selected hp.checking_uncertain

theorem diskStep_consistent (h : diskStep p event = .ok (n, e)) : n.Consistent := by
  unfold diskStep at h
  split at h
  · cases h
  cases h
  exact .of_no_slot rfl hp.payload_selected hp.checking_uncertain

theorem faultStep_consistent (kind : StateEventKind) : (faultStep p kind).1.Consistent := by
  unfold faultStep
  split <;> exact .of_no_slot rfl hp.payload_selected hp.checking_uncertain

theorem transitionStep_consistent (h : transitionStep p event = .ok (n, e)) : n.Consistent := by
  unfold transitionStep at h
  split at h
  · exact registerStep_consistent hp h
  · exact activateStep_consistent hp h
  · cases h; exact terminateStep_consistent hp
  · cases h; exact terminateStep_consistent hp
  · cases h; exact pauseStep_consistent hp
  · exact stageStep_consistent hp h
  · exact verificationStep_consistent hp h
  · exact selectionStep_consistent hp h
  · exact slotRequestStep_consistent hp h
  · exact slotReleaseStep_consistent hp h
  · exact diskStep_consistent hp h
  · cases h; exact faultStep_consistent hp _
  · cases h; exact faultStep_consistent hp _
  · cases h; exact faultStep_consistent hp _
  · cases h; exact faultStep_consistent hp _
  · cases h

theorem RuntimePolicy.Consistent.step (event : StateEvent) : (p.step event).Consistent := by
  rcases p.step_cases event with ⟨-, he⟩ | ⟨-, -, n, e, hs, he⟩
  · rw [he]
    exact hp
  · rw [he]
    exact transitionStep_consistent hp hs

end

theorem RuntimePolicy.consistent_run (events : List StateEvent) :
    (exec step {} events).Consistent :=
  exec_invariant_forall (fun _ event hp => hp.step event) consistent_zero events

end TorrentHub
