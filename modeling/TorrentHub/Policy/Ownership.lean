import TorrentHub.Policy.Invariants

namespace TorrentHub
open Lib RuntimePolicy ErrorReason StateEvent

variable {p n m : RuntimePolicy} {event : StateEvent} {e : Effects}

def StateEvent.Succeeds (event : StateEvent) : Prop :=
  event.kind = .verification ∧ event.verification = .succeeded

def StateEvent.Recovers (event : StateEvent) : Prop :=
  event.kind = .activated ∧ event.diskRecovered = true

def StateEvent.Reconciles (event : StateEvent) : Prop :=
  event.kind = .activated ∨ event.kind = .paused ∧ event.fullReconcile = true

structure KeepsVerification (p n : RuntimePolicy) : Prop where
  uncertain : p.uncertain = true → n.uncertain = true
  fault : p.verificationFault = true → n.verificationFault = true

structure KeepsFaults (p n : RuntimePolicy) : Prop where
  disk : p.disk ≠ "" → n.disk ≠ ""
  metadata : p.metadataFault ≠ "" → n.metadataFault ≠ ""
  selection : p.selectionFault ≠ "" → n.selectionFault ≠ ""
  missing : p.missingFault ≠ "" → n.missingFault ≠ ""
  legacy : p.legacyFault ≠ "" → n.legacyFault ≠ ""

theorem KeepsVerification.refl : KeepsVerification p p := ⟨id, id⟩

theorem KeepsVerification.trans (h : KeepsVerification p n) (h' : KeepsVerification n m) :
    KeepsVerification p m :=
  ⟨fun hp => h'.uncertain (h.uncertain hp), fun hp => h'.fault (h.fault hp)⟩

theorem KeepsFaults.refl : KeepsFaults p p := ⟨id, id, id, id, id⟩

theorem KeepsFaults.trans (h : KeepsFaults p n) (h' : KeepsFaults n m) : KeepsFaults p m where
  disk hp := h'.disk (h.disk hp)
  metadata hp := h'.metadata (h.metadata hp)
  selection hp := h'.selection (h.selection hp)
  missing hp := h'.missing (h.missing hp)
  legacy hp := h'.legacy (h.legacy hp)

theorem KeepsFaults.of_zero : KeepsFaults {} n where
  disk h := absurd rfl h
  metadata h := absurd rfl h
  selection h := absurd rfl h
  missing h := absurd rfl h
  legacy h := absurd rfl h

theorem missingFiles_ne : missingFiles ≠ "" := by decide
theorem metadataPersistence_ne : metadataPersistence ≠ "" := by decide
theorem invalidSelection_ne : invalidSelection ≠ "" := by decide
theorem activationBlocked_ne : activationBlocked ≠ "" := by decide

theorem orElse_ne {err default : ErrorReason} (h : default ≠ "") :
    (if err = "" then default else err) ≠ "" := by
  split
  · exact h
  · assumption

section

variable (n : RuntimePolicy)

theorem installPhase_keepsVerification (phase : TorrentState)
    (err : ErrorReason) : KeepsVerification n (installPhase n phase err) := by
  refine ⟨fun h => by rw [(installPhase_verification n phase err).2]; exact h, ?_⟩
  intro h
  cases phase with
  | error =>
    simp only [installPhase]
    repeat' split
    all_goals first | rfl | exact h
  | diskFull =>
    simp only [installPhase]
    split <;> exact h
  | _ => exact h

theorem installPhase_keepsFaults (phase : TorrentState)
    (err : ErrorReason) : KeepsFaults n (installPhase n phase err) := by
  cases phase with
  | missingFiles => exact ⟨id, id, id, fun _ => missingFiles_ne, id⟩
  | error =>
    simp only [installPhase]
    split
    · exact ⟨id, id, id, id, id⟩
    split
    next herr => exact ⟨id, fun _ => herr ▸ metadataPersistence_ne, id, id, id⟩
    split
    next herr => exact ⟨id, id, fun _ => herr ▸ invalidSelection_ne, id, id⟩
    · exact ⟨id, id, id, id, fun _ => orElse_ne activationBlocked_ne⟩
  | diskFull =>
    simp only [installPhase]
    split
    next hd => exact ⟨fun h => absurd hd h, id, id, id, id⟩
    · exact .refl
  | _ => exact .refl

theorem activatePolicy_keepsVerification (event : StateEvent) :
    KeepsVerification n (activatePolicy n event).1 := by
  have h := installPhase_keepsVerification
    { n with run := if event.phase = .paused then .paused else .enabled } event.phase event.err
  exact ⟨h.uncertain, h.fault⟩

theorem activatePolicy_keepsFaults (event : StateEvent) :
    KeepsFaults n (activatePolicy n event).1 := by
  have h := installPhase_keepsFaults
    { n with run := if event.phase = .paused then .paused else .enabled } event.phase event.err
  exact { h with }

end

theorem activateBase_keepsVerification (p : RuntimePolicy) (event : StateEvent) :
    KeepsVerification p (activateBase p event) := by
  unfold activateBase
  split <;> exact ⟨id, id⟩

theorem activateBase_keepsFaults (h : event.diskRecovered ≠ true) :
    KeepsFaults p (activateBase p event) := by
  unfold activateBase
  rw [if_neg h]
  exact ⟨id, id, id, id, id⟩

theorem faultStep_keepsFaults (p : RuntimePolicy) (kind : StateEventKind) :
    KeepsFaults p (faultStep p kind).1 := by
  cases kind with
  | metadataFailed => exact ⟨id, fun _ => metadataPersistence_ne, id, id, id⟩
  | selectionInvalid => exact ⟨id, id, fun _ => invalidSelection_ne, id, id⟩
  | payloadMissing => exact ⟨id, id, id, fun _ => missingFiles_ne, id⟩
  | _ => exact ⟨id, id, id, id, id⟩

section

variable (h : verificationStep p event = .ok (n, e))
include h

theorem verificationStep_ok :
    ∃ m, verificationPolicy p event.verification = .ok m ∧ n = { m with slot := false } := by
  unfold verificationStep at h
  split at h
  · cases h
  next m hm =>
  cases h
  exact ⟨m, hm, rfl⟩

theorem verificationStep_keeps :
    KeepsFaults p n ∧ n.run = p.run ∧ n.initializing = p.initializing := by
  obtain ⟨m, hm, rfl⟩ := verificationStep_ok h
  cases hv : event.verification with
  | other => rw [hv] at hm; cases hm
  | restored => rw [hv] at hm; cases hm; exact ⟨⟨id, id, id, id, id⟩, rfl, rfl⟩
  | _ =>
    simp only [hv, verificationPolicy] at hm
    split at hm
    · cases hm
    cases hm
    exact ⟨⟨id, id, id, id, id⟩, rfl, rfl⟩

theorem verificationStep_keepsVerification (hs : event.verification ≠ .succeeded) :
    KeepsVerification p n ∧ n.uncertain = true := by
  obtain ⟨m, hm, rfl⟩ := verificationStep_ok h
  cases hv : event.verification with
  | other => rw [hv] at hm; cases hm
  | succeeded => exact absurd hv hs
  | restored => rw [hv] at hm; cases hm; exact ⟨⟨fun _ => rfl, id⟩, rfl⟩
  | begin =>
    simp only [hv, verificationPolicy] at hm
    split at hm
    · cases hm
    cases hm
    exact ⟨⟨fun _ => rfl, id⟩, rfl⟩
  | failed | cancelled =>
    simp only [hv, verificationPolicy] at hm
    split at hm
    · cases hm
    cases hm
    exact ⟨⟨fun _ => rfl, fun _ => rfl⟩, rfl⟩

end

structure Frame (p : RuntimePolicy) (event : StateEvent) (n : RuntimePolicy) : Prop where
  verification : ¬ event.Succeeds → KeepsVerification p n
  faults : ¬ event.Recovers → KeepsFaults p n
  initializing : ¬ event.Reconciles → p.initializing = true → n.initializing = true
  run : n.run ≠ p.run →
    event.kind = .registered ∨ event.kind = .activated ∨ event.kind = .paused
  registered : event.kind = .registered ∨ p.registered = true → n.registered = true

section

variable (n : RuntimePolicy) (phase : TorrentState) (err : ErrorReason)

@[simp] theorem installPhase_initializing :
    (installPhase n phase err).initializing = n.initializing := by
  unfold installPhase
  repeat' split
  all_goals rfl

@[simp] theorem installPhase_registered : (installPhase n phase err).registered = n.registered := by
  unfold installPhase
  repeat' split
  all_goals rfl

end

@[simp] theorem activateBase_registered (p : RuntimePolicy) (event : StateEvent) :
    (activateBase p event).registered = p.registered := by
  unfold activateBase
  split <;> rfl

theorem registerStep_frame (hz : p.registered = false → p = {})
    (h : registerStep p event = .ok (n, e)) (hk : event.kind = .registered) : Frame p event n := by
  obtain ⟨-, hr, he⟩ := registerStep_ok h
  obtain rfl := hz hr
  refine ⟨fun _ => ⟨fun hu => absurd hu Bool.false_ne_true, fun hf => absurd hf Bool.false_ne_true⟩,
    fun _ => .of_zero, fun _ hi => absurd hi Bool.false_ne_true, fun _ => .inl hk, fun _ => ?_⟩
  obtain rfl : n = (activatePolicy (registerBase {} event) event).1 := congrArg Prod.fst he
  simp only [activatePolicy, installPhase_registered, registerBase]

theorem activateStep_frame (h : activateStep p event = .ok (n, e))
    (hk : event.kind = .activated) : Frame p event n := by
  obtain ⟨-, -, -, -, he⟩ := activateStep_ok h
  obtain rfl : n = (activatePolicy (activateBase p event) event).1 := congrArg Prod.fst he
  refine ⟨fun _ => ?_, fun hr => ?_, fun hr => absurd (.inl hk) hr, fun _ => .inr (.inl hk),
    fun hp => ?_⟩
  · exact (activateBase_keepsVerification p event).trans (activatePolicy_keepsVerification _ _)
  · have hd : event.diskRecovered ≠ true := fun hd => hr ⟨hk, hd⟩
    exact (activateBase_keepsFaults hd).trans (activatePolicy_keepsFaults _ _)
  · rw [hk] at hp
    simpa [activatePolicy] using hp

theorem Frame.of_kept (hk : event.kind ≠ .registered) (hv : KeepsVerification p n)
    (hf : KeepsFaults p n) (hi : p.initializing = true → n.initializing = true)
    (hr : n.run = p.run) (hg : n.registered = p.registered) : Frame p event n :=
  ⟨fun _ => hv, fun _ => hf, fun _ => hi, fun hne => absurd hr hne,
    fun hp => hg ▸ hp.resolve_left hk⟩

theorem terminateStep_frame (hk : event.kind ≠ .registered) :
    Frame p event (terminateStep p).1 := by
  unfold terminateStep
  split
  · exact .of_kept hk ⟨fun _ => rfl, id⟩ ⟨id, id, id, id, id⟩ (fun _ => rfl) rfl rfl
  · exact .of_kept hk ⟨id, id⟩ ⟨id, id, id, id, id⟩ (fun _ => rfl) rfl rfl

theorem pauseStep_frame (hk : event.kind = .paused) : Frame p event (pauseStep p event).1 := by
  have hreg : event.kind = .registered ∨ p.registered = true → p.registered = true := by
    rw [hk]
    exact fun h => h.resolve_left (by decide)
  unfold pauseStep
  split
  next hf =>
    exact ⟨fun _ => ⟨id, id⟩, fun _ => ⟨id, id, id, id, id⟩,
      fun hr => absurd (.inr ⟨hk, hf⟩) hr, fun _ => .inr (.inr hk), hreg⟩
  · exact ⟨fun _ => ⟨id, id⟩, fun _ => ⟨id, id, id, id, id⟩, fun _ => id,
      fun _ => .inr (.inr hk), hreg⟩

theorem verificationStep_registered (h : verificationStep p event = .ok (n, e)) :
    n.registered = p.registered := by
  obtain ⟨m, hm, rfl⟩ := verificationStep_ok h
  cases hv : event.verification <;> simp only [hv, verificationPolicy] at hm
  all_goals try split at hm
  all_goals cases hm
  all_goals rfl

theorem verificationStep_frame (h : verificationStep p event = .ok (n, e))
    (hk : event.kind = .verification) : Frame p event n := by
  obtain ⟨hf, hr, hi⟩ := verificationStep_keeps h
  refine ⟨fun hs => ?_, fun _ => hf, fun _ hp => hi ▸ hp, fun hne => absurd hr hne, fun hp => ?_⟩
  · exact (verificationStep_keepsVerification h fun hv => hs ⟨hk, hv⟩).1
  rw [hk] at hp
  rw [verificationStep_registered h]
  exact hp.resolve_left (by decide)

section

variable (hk : event.kind ≠ .registered)
include hk

theorem stageStep_frame (h : stageStep p = .ok (n, e)) : Frame p event n := by
  unfold stageStep at h
  split at h
  · cases h
  cases h
  exact .of_kept hk ⟨id, id⟩ ⟨id, id, id, id, id⟩ (fun _ => rfl) rfl rfl

theorem selectionStep_frame (h : selectionStep p event = .ok (n, e)) : Frame p event n := by
  unfold selectionStep at h
  repeat' split at h
  all_goals cases h
  all_goals exact .of_kept hk ⟨id, id⟩ ⟨id, id, id, id, id⟩ id rfl rfl

theorem slotRequestStep_frame (h : slotRequestStep p event = .ok (n, e)) : Frame p event n := by
  unfold slotRequestStep at h
  repeat' split at h
  all_goals cases h
  exact .of_kept hk ⟨id, id⟩ ⟨id, id, id, id, id⟩ id rfl rfl

theorem slotReleaseStep_frame (h : slotReleaseStep p = .ok (n, e)) : Frame p event n := by
  unfold slotReleaseStep at h
  split at h
  · cases h
  cases h
  exact .of_kept hk ⟨id, id⟩ ⟨id, id, id, id, id⟩ id rfl rfl

theorem diskStep_frame (h : diskStep p event = .ok (n, e)) : Frame p event n := by
  unfold diskStep at h
  split at h
  · cases h
  next hd =>
  cases h
  exact .of_kept hk ⟨id, id⟩ ⟨fun _ => hd, id, id, id, id⟩ id rfl rfl

theorem faultStep_frame (kind : StateEventKind) : Frame p event (faultStep p kind).1 := by
  have hf := faultStep_keepsFaults p kind
  cases kind <;> exact .of_kept hk ⟨id, id⟩ hf (fun _ => rfl) rfl rfl

end

def RuntimePolicy.Pristine (p : RuntimePolicy) : Prop := p.registered = false → p = {}

theorem transitionStep_frame (hz : p.Pristine) (h : transitionStep p event = .ok (n, e)) :
    Frame p event n := by
  cases hk : event.kind with
  | other => simp only [transitionStep, hk] at h; cases h
  | registered => simp only [transitionStep, hk] at h; exact registerStep_frame hz h hk
  | activated => simp only [transitionStep, hk] at h; exact activateStep_frame h hk
  | paused => simp only [transitionStep, hk] at h; cases h; exact pauseStep_frame hk
  | verification => simp only [transitionStep, hk] at h; exact verificationStep_frame h hk
  | restoreStaged =>
    simp only [transitionStep, hk] at h
    exact stageStep_frame (by rw [hk]; decide) h
  | selectionObserved =>
    simp only [transitionStep, hk] at h
    exact selectionStep_frame (by rw [hk]; decide) h
  | slotRequested =>
    simp only [transitionStep, hk] at h
    exact slotRequestStep_frame (by rw [hk]; decide) h
  | slotReleased =>
    simp only [transitionStep, hk] at h
    exact slotReleaseStep_frame (by rw [hk]; decide) h
  | diskBlocked =>
    simp only [transitionStep, hk] at h
    exact diskStep_frame (by rw [hk]; decide) h
  | deleted | closed =>
    simp only [transitionStep, hk] at h
    cases h
    exact terminateStep_frame (by rw [hk]; decide)
  | applyFailed | metadataFailed | selectionInvalid | payloadMissing =>
    simp only [transitionStep, hk] at h
    obtain rfl : (faultStep p _).1 = n := congrArg Prod.fst (Except.ok.inj h)
    exact faultStep_frame (by rw [hk]; decide) _

theorem RuntimePolicy.step_frame (hz : p.Pristine) (ha : p.Accepts event) :
    Frame p event (p.step event) := by
  rcases p.step_cases event with ⟨hna, -⟩ | ⟨-, -, n, e, hs, he⟩
  · exact absurd ha hna
  · rw [he]
    exact transitionStep_frame hz hs

theorem RuntimePolicy.Pristine.step (hz : p.Pristine) (event : StateEvent) :
    (p.step event).Pristine := by
  intro hr
  by_cases ha : p.Accepts event
  · obtain ⟨d, hd⟩ := ha
    have hreg := (step_frame hz ⟨d, hd⟩).registered (runtimeTransition_ok hd).2.1.symm
    rw [hreg] at hr
    cases hr
  rcases p.step_cases event with ⟨-, he⟩ | ⟨ha', -⟩
  · rw [he] at hr ⊢
    exact hz hr
  · exact absurd ha' ha

theorem RuntimePolicy.pristine_run (events : List StateEvent) : (exec step {} events).Pristine :=
  exec_invariant_forall (fun _ event hz => hz.step event) (fun _ => rfl) events

/-- No event of `Owner` is accepted in the run. -/
def RuntimePolicy.Without (p : RuntimePolicy) (events : List StateEvent)
    (Owner : StateEvent → Prop) : Prop :=
  Along RuntimePolicy.step (fun p event => ¬ (p.Accepts event ∧ Owner event)) p events

/-- A key that survives every accepted event outside `Owner` survives every run without an
accepted event of `Owner`. -/
theorem RuntimePolicy.kept_run {K : RuntimePolicy → Prop} {Owner : StateEvent → Prop}
    (hkey : ∀ p event, Frame p event (p.step event) → ¬ Owner event → K p → K (p.step event))
    (hz : p.Pristine) (hp : K p) {events : List StateEvent} (h : p.Without events Owner) :
    K (exec step p events) := by
  refine (exec_invariant (I := fun p => p.Pristine ∧ K p) ?_ ⟨hz, hp⟩ h).2
  rintro p event ⟨hz, hp⟩ hn
  refine ⟨hz.step event, ?_⟩
  rcases p.step_cases event with ⟨-, he⟩ | ⟨ha, -⟩
  · rw [he]
    exact hp
  · exact hkey p event (step_frame hz ha) (fun ho => hn ⟨ha, ho⟩) hp

variable {events : List StateEvent}

section

variable (hz : p.Pristine)
include hz

theorem RuntimePolicy.keepsVerification_run (h : p.Without events Succeeds) :
    KeepsVerification p (exec step p events) := by
  refine kept_run (K := KeepsVerification p) ?_ hz .refl h
  intro q event hf hs hk
  exact hk.trans (hf.verification hs)

theorem RuntimePolicy.keepsFaults_run (h : p.Without events Recovers) :
    KeepsFaults p (exec step p events) := by
  refine kept_run (K := KeepsFaults p) ?_ hz .refl h
  intro q event hf hs hk
  exact hk.trans (hf.faults hs)

theorem RuntimePolicy.initializing_run (hp : p.initializing = true)
    (h : p.Without events Reconciles) : (exec step p events).initializing = true := by
  refine kept_run (K := fun p => p.initializing = true) ?_ hz hp h
  intro q event hf hs hk
  exact hf.initializing hs hk

theorem RuntimePolicy.run_owner (hne : (p.step event).run ≠ p.run) : p.Accepts event ∧
      (event.kind = .registered ∨ event.kind = .activated ∨ event.kind = .paused) := by
  rcases p.step_cases event with ⟨-, he⟩ | ⟨ha, -⟩
  · rw [he] at hne
    exact absurd rfl hne
  · exact ⟨ha, (step_frame hz ha).run hne⟩

end

theorem RuntimePolicy.step_uncertain (ha : p.Accepts event) (hk : event.kind = .verification)
    (hv : event.verification = .begin ∨ event.verification = .restored) :
    (p.step event).uncertain = true := by
  rcases p.step_cases event with ⟨hna, -⟩ | ⟨-, -, n, e, hs, he⟩
  · exact absurd ha hna
  rw [he]
  simp only [transitionStep, hk] at hs
  refine (verificationStep_keepsVerification hs ?_).2
  rcases hv with hv | hv <;> rw [hv] <;> decide

theorem not_eligible_of_uncertain (h : p.uncertain = true) :
    p.payloadEligible = false ∧ p.uploadEligible = false := by
  have hu : p.uploadEligible = false := by
    by_contra hu
    have hc := ((uploadEligible_iff p).1 (by simpa using hu)).2.2.2.2.2.1
    rw [h] at hc
    cases hc
  refine ⟨?_, hu⟩
  by_contra hp
  have hc := ((payloadEligible_iff p).1 (by simpa using hp)).1
  rw [hu] at hc
  cases hc

/-- Each safety key has one owner: the verification keys last until a success, the disk key and the
faults until an activation that recovered the disk, initialization until an activation or a full
pause, and only registration, activation and pause change the intent. -/
theorem safety_axes_have_single_owners (before after : List StateEvent) :
    let p := exec RuntimePolicy.step {} before
    let q := exec RuntimePolicy.step p after
    (p.Without after StateEvent.Succeeds → KeepsVerification p q) ∧
      (p.Without after StateEvent.Recovers → KeepsFaults p q) ∧
      (p.Without after StateEvent.Reconciles → p.initializing = true → q.initializing = true) ∧
      (∀ event, (p.step event).run ≠ p.run → p.Accepts event ∧
        (event.kind = .registered ∨ event.kind = .activated ∨ event.kind = .paused)) ∧
      ∀ event, p.Accepts event → event.kind = .verification →
        event.verification = .begin ∨ event.verification = .restored →
        (p.step event).Without after StateEvent.Succeeds →
        (exec RuntimePolicy.step (p.step event) after).payloadEligible = false ∧
          (exec RuntimePolicy.step (p.step event) after).uploadEligible = false := by
  intro p q
  have hz : p.Pristine := pristine_run before
  refine ⟨keepsVerification_run hz, keepsFaults_run hz,
    fun h hp => initializing_run hz hp h, fun _ => run_owner hz, ?_⟩
  intro event ha hk hv h
  apply not_eligible_of_uncertain
  exact (keepsVerification_run (hz.step event) h).uncertain (step_uncertain ha hk hv)

end TorrentHub
