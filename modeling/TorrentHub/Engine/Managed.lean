import TorrentHub.Policy.Invariants

namespace TorrentHub
open Lib RuntimePolicy

inductive FilePriority where
  | normal | high | none
  | other (value : Int)
deriving DecidableEq

def FilePriority.valid : FilePriority → Bool
  | .other _ => false
  | _ => true

/-- The ticket of work without admission. The source compares tickets by address, which `id` stands
for. -/
structure PayloadPreparation where
  id : Nat
  epoch : Nat
  fence : RuntimeFence
  slot : Nat
deriving DecidableEq

structure IntentApplyFailure where
  recordID : String
  revision : Int
  code : String
deriving DecidableEq

/-- One run of the verifier, compared by address in the source. `operation` says that a recheck
command is shown its progress. -/
structure VerificationAttempt where
  id : Nat
  operation : Bool
deriving DecidableEq

/-- What the admission functions read or write. The fields from `state` to `terminal` are
projections of the policy. The epoch and the token are `uint64` in the source; that they wrap around
after 2^64 changes is left out. -/
structure ManagedTorrent where
  policy : RuntimePolicy := {}
  policyEpoch : Nat := 0
  slotToken : Nat := 0
  state : TorrentState := .other ""
  err : ErrorReason := ErrorReason.none
  rechecking : Bool := false
  verificationUncertain : Bool := false
  initializing : Bool := false
  downloadBlock : String := ""
  selectionComplete : Bool := false
  terminal : Bool := false
  downloadAllStarted : Bool := false
  appliedIntentRevision : Int := 0
  safetyBlocks : List ActivationBlock := []
  expectedPayload : List Nat := []
  downloadBlockPersisted : Bool := false
  filePriorities : List (Int × FilePriority) := []
  queuePosition : Int := 0
  runtimeFence : RuntimeFence := {}
  intentApplyFailure : Option IntentApplyFailure := none
  preparation : Option PayloadPreparation := none
  healthProbe : Option PayloadPreparation := none
  verificationAttempt : Option VerificationAttempt := none
deriving DecidableEq

namespace ManagedTorrent

def install (mt : ManagedTorrent) (event : StateEvent) (d : StateDecision) : ManagedTorrent :=
  let recovered := event.kind == .activated && event.diskRecovered
  { mt with
    policyEpoch := if mt.policy ≠ d.policy then mt.policyEpoch + 1 else mt.policyEpoch
    policy := d.policy
    slotToken :=
      if d.policy.slot && event.kind == .slotRequested then mt.slotToken + 1 else mt.slotToken
    rechecking := d.next.checking
    verificationUncertain := d.next.uncertain
    initializing := d.next.initializing
    downloadBlock := d.next.diskBlock
    selectionComplete := d.selectionComplete
    state := d.next.state
    err := d.next.err
    terminal := d.terminal
    safetyBlocks := if recovered then [] else mt.safetyBlocks
    expectedPayload := if recovered then [] else mt.expectedPayload
    downloadAllStarted := if d.resetDownload then false else mt.downloadAllStarted
    appliedIntentRevision := if d.invalidateApplied then 0 else mt.appliedIntentRevision }

def applyStateEventLocked (mt : ManagedTorrent) (event : StateEvent) :
    ManagedTorrent × Except StateTransitionError StateDecision :=
  match runtimeTransition mt.policy event with
  | .error err => (mt, .error err)
  | .ok d => (mt.install event d, .ok d)

def applyVerificationEventLocked (mt : ManagedTorrent) (event : VerificationEvent) :
    ManagedTorrent × Except StateTransitionError StateDecision :=
  mt.applyStateEventLocked { kind := .verification, verification := event }

variable {p : RuntimePolicy} {mt : ManagedTorrent} {event : StateEvent} {d : StateDecision}

theorem apply_ok (h : (mt.applyStateEventLocked event).2 = .ok d) :
    runtimeTransition mt.policy event = .ok d ∧
      (mt.applyStateEventLocked event).1 = mt.install event d := by
  unfold applyStateEventLocked at h ⊢
  split at h
  · cases h
  next d' hd =>
  cases h
  exact ⟨hd, rfl⟩

theorem apply_error {err : StateTransitionError}
    (h : (mt.applyStateEventLocked event).2 = .error err) :
    runtimeTransition mt.policy event = .error err ∧ (mt.applyStateEventLocked event).1 = mt := by
  unfold applyStateEventLocked at h ⊢
  split at h
  next err' he =>
    cases h
    exact ⟨he, rfl⟩
  · cases h

section

variable (mt : ManagedTorrent)

theorem apply_policy (event : StateEvent) :
    (mt.applyStateEventLocked event).1.policy = mt.policy.step event := by
  cases h : runtimeTransition mt.policy event with
  | error err => simp only [applyStateEventLocked, step, h]
  | ok d => simp only [applyStateEventLocked, step, h, install]

def handle (mt : ManagedTorrent) (event : StateEvent) : ManagedTorrent :=
  (mt.applyStateEventLocked event).1

theorem exec_handle_policy (events : List StateEvent) :
    (exec handle mt events).policy = exec RuntimePolicy.step mt.policy events := by
  induction events generalizing mt with
  | nil => rfl
  | cons event events ih => rw [exec_cons, exec_cons, ih, handle, apply_policy]

theorem slotRequest_grants (h : runtimeTransition p event = .ok d)
    (hk : event.kind = .slotRequested) : d.policy.slot = true := by
  obtain ⟨-, -, n, e, hs, rfl⟩ := runtimeTransition_ok h
  simp only [transitionStep, hk, slotRequestStep] at hs
  repeat' split at hs
  all_goals cases hs
  all_goals rfl

theorem handle_epoch (event : StateEvent) : (mt.handle event).policyEpoch =
      if mt.policy ≠ mt.policy.step event then mt.policyEpoch + 1 else mt.policyEpoch := by
  cases h : runtimeTransition mt.policy event with
  | error err =>
    simp only [handle, applyStateEventLocked, step, h, ne_eq, not_true_eq_false, ↓reduceIte]
  | ok d => simp only [handle, applyStateEventLocked, step, h, install]

theorem handle_slotToken (event : StateEvent) :
    (mt.policy.Accepts event ∧ event.kind = .slotRequested ∧
      (mt.handle event).slotToken = mt.slotToken + 1) ∨
    (¬ (mt.policy.Accepts event ∧ event.kind = .slotRequested) ∧
      (mt.handle event).slotToken = mt.slotToken) := by
  cases h : runtimeTransition mt.policy event with
  | error err =>
    refine .inr ⟨?_, by simp only [handle, applyStateEventLocked, h]⟩
    rintro ⟨⟨d, hd⟩, -⟩
    rw [h] at hd
    cases hd
  | ok d =>
    have hh : mt.handle event = mt.install event d := by
      simp only [handle, applyStateEventLocked, h]
    by_cases hk : event.kind = .slotRequested
    · refine .inl ⟨⟨d, h⟩, hk, ?_⟩
      simp only [hh, install, slotRequest_grants h hk, hk, beq_self_eq_true, Bool.and_self,
        ↓reduceIte]
    refine .inr ⟨fun hc => hk hc.2, ?_⟩
    simp only [hh, install, beq_eq_false_iff_ne.2 hk, Bool.and_false, Bool.false_eq_true,
      ↓reduceIte]

end

/-- After any events: the policy is consistent, a terminal one rejects every event, a rejected event
changes no field, the epoch grows exactly at the accepted events that change the policy, and the
slot token exactly at the accepted slot requests. -/
theorem runtime_policy_invariants (start : ManagedTorrent) (events : List StateEvent)
    (event : StateEvent) :
    let mt := exec handle { start with policy := {} } events
    mt.policy.Consistent ∧
      (mt.policy.terminal = true → ¬ mt.policy.Accepts event) ∧
      (¬ mt.policy.Accepts event → (mt.applyStateEventLocked event).1 = mt) ∧
      (mt.policyEpoch < (mt.applyStateEventLocked event).1.policyEpoch ↔
        mt.policy.Accepts event ∧ (mt.applyStateEventLocked event).1.policy ≠ mt.policy) ∧
      (mt.slotToken < (mt.applyStateEventLocked event).1.slotToken ↔
        mt.policy.Accepts event ∧ event.kind = .slotRequested) := by
  intro mt
  have hrejected : ¬ mt.policy.Accepts event → (mt.applyStateEventLocked event).1 = mt := by
    intro hna
    cases h : (mt.applyStateEventLocked event).2 with
    | error err => exact (apply_error h).2
    | ok d => exact absurd ⟨d, (apply_ok h).1⟩ hna
  refine ⟨?_, ?_, hrejected, ?_, ?_⟩
  · have hp := exec_handle_policy { start with policy := {} } events
    change mt.policy = _ at hp
    rw [hp]
    exact consistent_run events
  · rintro ht ⟨d, hd⟩
    rw [runtimeTransition_terminal ht] at hd
    cases hd
  · have he := handle_epoch mt event
    rw [apply_policy]
    change mt.policyEpoch < (mt.handle event).policyEpoch ↔ _
    constructor
    · intro hlt
      have hne : mt.policy ≠ mt.policy.step event := by
        intro heq
        rw [if_neg (not_not.2 heq)] at he
        omega
      refine ⟨?_, hne.symm⟩
      by_contra hna
      have hsame := congrArg ManagedTorrent.policy (hrejected hna)
      rw [apply_policy] at hsame
      exact hne hsame.symm
    · rintro ⟨-, hne⟩
      rw [if_pos hne.symm] at he
      omega
  · change mt.slotToken < (mt.handle event).slotToken ↔ _
    rcases handle_slotToken mt event with ⟨ha, hk, he⟩ | ⟨hna, he⟩
    · exact ⟨fun _ => ⟨ha, hk⟩, fun _ => by omega⟩
    · exact ⟨fun hlt => by omega, fun h => absurd h hna⟩

end ManagedTorrent

end TorrentHub
