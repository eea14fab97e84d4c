import TorrentHub.Models

namespace TorrentHub

/-- Applied runtime authority: sixteen independent facts. Phase and error are computed from
them and never read back. -/
structure RuntimePolicy where
  selectionEmpty : Bool := false
  registered : Bool := false
  terminal : Bool := false
  run : RunIntent := .other ""
  slot : Bool := false
  checking : Bool := false
  uncertain : Bool := false
  initializing : Bool := false
  verificationFault : Bool := false
  disk : String := ""
  metadataFault : ErrorReason := ErrorReason.none
  selectionFault : ErrorReason := ErrorReason.none
  missingFault : ErrorReason := ErrorReason.none
  legacyFault : ErrorReason := ErrorReason.none
  selectedComplete : Bool := false
  payloadComplete : Bool := false
deriving DecidableEq

namespace RuntimePolicy

def fault (p : RuntimePolicy) : TorrentState × ErrorReason :=
  if p.missingFault ≠ "" then (.missingFiles, p.missingFault)
  else if p.metadataFault ≠ "" then (.error, p.metadataFault)
  else if p.selectionFault ≠ "" then (.error, p.selectionFault)
  else if p.legacyFault ≠ "" then (.error, p.legacyFault)
  else (.other "", ErrorReason.none)

def payloadEligible (p : RuntimePolicy) : Bool :=
  p.registered && !p.terminal && p.run == .enabled && !p.initializing && !p.checking &&
    !p.uncertain && !p.verificationFault && p.disk == "" && p.fault.2 == ErrorReason.none

def uploadEligible (p : RuntimePolicy) : Bool :=
  p.registered && !p.terminal && p.run == .enabled && !p.initializing && !p.checking &&
    !p.uncertain && !p.verificationFault && p.fault.2 == ErrorReason.none

def projection (p : RuntimePolicy) : TorrentState × ErrorReason :=
  if p.run = .paused then (.paused, ErrorReason.none)
  else if p.disk ≠ "" then (.diskFull, p.disk)
  else if p.fault.1 ≠ .other "" then p.fault
  else if p.verificationFault && !p.checking then (.error, ErrorReason.verificationFailed)
  else if !p.terminal && !p.initializing && !p.checking && !p.uncertain then
    if p.payloadComplete && !p.selectionEmpty then (.seeding, ErrorReason.none)
    else if p.slot then (.downloading, ErrorReason.none)
    else (.queued, ErrorReason.none)
  else (.queued, ErrorReason.none)

end RuntimePolicy

inductive VerificationEvent where
  | begin | succeeded | failed | cancelled | restored
  | other (code : UInt8)
deriving DecidableEq

inductive StateEventKind where
  | verification | selectionObserved | slotRequested | slotReleased | diskBlocked | paused
  | restoreStaged | applyFailed | metadataFailed | selectionInvalid | registered | activated
  | deleted | closed | payloadMissing
  | other (text : String)
deriving DecidableEq

structure StateEvent where
  kind : StateEventKind
  selectionEmpty : Bool := false
  verification : VerificationEvent := .other 0
  metadataKnown : Bool := false
  selectedComplete : Bool := false
  payloadComplete : Bool := false
  slotAvailable : Bool := false
  diskReason : String := ""
  fullReconcile : Bool := false
  phase : TorrentState := .other ""
  err : ErrorReason := ErrorReason.none
  staged : Bool := false
  diskRecovered : Bool := false
deriving DecidableEq

structure Effects where
  closePayload : Bool := false
  closeUpload : Bool := false
  allowUpload : Bool := false
  resetDownload : Bool := false
  clearBasePriorities : Bool := false
  closeBackgroundPayload : Bool := false
  invalidateApplied : Bool := false
deriving DecidableEq

def Effects.quiesce : Effects where
  closePayload := true
  closeUpload := true
  resetDownload := true
  clearBasePriorities := true
  invalidateApplied := true

def Effects.reopen (n : RuntimePolicy) : Effects where
  resetDownload := true
  closePayload := true
  allowUpload := n.uploadEligible
  closeUpload := !n.uploadEligible

structure VerificationFacts where
  state : TorrentState
  err : ErrorReason
  checking : Bool
  uncertain : Bool
  initializing : Bool
  diskBlock : String
deriving DecidableEq

structure StateDecision extends Effects where
  next : VerificationFacts
  policy : RuntimePolicy
  selectionComplete : Bool
  terminal : Bool
deriving DecidableEq

structure StateTransitionError where
  event : StateEventKind
  reason : String
deriving DecidableEq

def activationPhase : TorrentState → Bool
  | .other _ => false
  | _ => true

def installPhase (n : RuntimePolicy) (phase : TorrentState) (err : ErrorReason) : RuntimePolicy :=
  match phase with
  | .missingFiles => { n with missingFault := ErrorReason.missingFiles }
  | .error =>
    if err = ErrorReason.verificationFailed then { n with verificationFault := true }
    else if err = ErrorReason.metadataPersistence then { n with metadataFault := err }
    else if err = ErrorReason.invalidSelection then { n with selectionFault := err }
    else { n with legacyFault := if err = "" then ErrorReason.activationBlocked else err }
  | .diskFull =>
    if n.disk = "" then { n with disk := if err = "" then ErrorReason.diskFull else err }
    else n
  | _ => n

def activatePolicy (n : RuntimePolicy) (event : StateEvent) : RuntimePolicy × Effects :=
  let run : RunIntent := if event.phase = .paused then .paused else .enabled
  let n := installPhase { n with run } event.phase event.err
  let n := { n with slot := false, payloadComplete := false }
  (n, Effects.reopen n)

def registerBase (p : RuntimePolicy) (event : StateEvent) : RuntimePolicy :=
  { p with registered := true, initializing := event.staged, disk := event.diskReason }

def registerStep (p : RuntimePolicy) (event : StateEvent) :
    Except String (RuntimePolicy × Effects) :=
  if !activationPhase event.phase then .error "unknown_activation_phase"
  else if p.registered then .error "already_registered"
  else .ok (activatePolicy (registerBase p event) event)

def activateBase (p : RuntimePolicy) (event : StateEvent) : RuntimePolicy :=
  if event.diskRecovered then
    { p with initializing := false, disk := "", metadataFault := "", selectionFault := "",
             missingFault := "", legacyFault := "" }
  else { p with initializing := false }

def activateStep (p : RuntimePolicy) (event : StateEvent) :
    Except String (RuntimePolicy × Effects) :=
  if !activationPhase event.phase then .error "unknown_activation_phase"
  else if !p.registered then .error "not_registered"
  else if p.checking || p.uncertain then .error "verification_veto"
  else if p.initializing && !event.fullReconcile then .error "initialization_veto"
  else .ok (activatePolicy (activateBase p event) event)

def terminateStep (p : RuntimePolicy) : RuntimePolicy × Effects :=
  let n := { p with terminal := true, initializing := true, slot := false }
  let n := if p.checking then { n with checking := false, uncertain := true } else n
  (n, Effects.quiesce)

def pauseStep (p : RuntimePolicy) (event : StateEvent) : RuntimePolicy × Effects :=
  let n := { p with run := .paused, slot := false }
  let n := if event.fullReconcile then { n with initializing := false } else n
  (n, Effects.quiesce)

def stageStep (p : RuntimePolicy) : Except String (RuntimePolicy × Effects) :=
  if p.checking || p.uncertain then .error "verification_veto"
  else .ok ({ p with initializing := true, slot := false }, Effects.quiesce)

def verificationPolicy (p : RuntimePolicy) : VerificationEvent → Except String RuntimePolicy
  | .begin =>
    if p.checking || p.initializing then .error "verification_conflict"
    else .ok { p with checking := true, uncertain := true, selectedComplete := false,
                      payloadComplete := false }
  | .succeeded =>
    if !p.checking then .error "verification_conflict"
    else .ok { p with checking := false, uncertain := false, verificationFault := false }
  | .failed | .cancelled =>
    if !p.checking then .error "verification_conflict"
    else .ok { p with checking := false, uncertain := true, verificationFault := true }
  | .restored => .ok { p with uncertain := true }
  | .other _ => .error "verification_conflict"

def verificationStep (p : RuntimePolicy) (event : StateEvent) :
    Except String (RuntimePolicy × Effects) :=
  match verificationPolicy p event.verification with
  | .error reason => .error reason
  | .ok n =>
    let n := { n with slot := false }
    .ok (n, Effects.reopen n)

def selectionBase (p : RuntimePolicy) (event : StateEvent) : RuntimePolicy :=
  { p with selectedComplete := event.selectedComplete, payloadComplete := event.payloadComplete,
           selectionEmpty := event.selectionEmpty }

def selectionStep (p : RuntimePolicy) (event : StateEvent) :
    Except String (RuntimePolicy × Effects) :=
  if !event.metadataKnown then .error "metadata_unknown"
  else if event.payloadComplete && !event.selectedComplete then .error "inconsistent_completion"
  else if p.initializing || p.checking || p.uncertain then .error "runtime_veto"
  else if event.selectedComplete || !(selectionBase p event).payloadEligible then
    .ok ({ selectionBase p event with slot := false },
      { resetDownload := p.slot, clearBasePriorities := p.slot,
        closeBackgroundPayload := p.slot })
  else .ok (selectionBase p event, {})

def slotRequestStep (p : RuntimePolicy) (event : StateEvent) :
    Except String (RuntimePolicy × Effects) :=
  if !p.payloadEligible then .error "runtime_veto"
  else if p.slot then .error "slot_already_owned"
  else if p.selectedComplete || p.payloadComplete then .error "selection_complete"
  else if !event.slotAvailable then .error "capacity_unavailable"
  else .ok ({ p with slot := true }, {})

def slotReleaseStep (p : RuntimePolicy) : Except String (RuntimePolicy × Effects) :=
  if !p.slot then .error "slot_not_owned"
  else
    .ok ({ p with slot := false },
      { resetDownload := true, clearBasePriorities := true, closeBackgroundPayload := true })

def diskStep (p : RuntimePolicy) (event : StateEvent) :
    Except String (RuntimePolicy × Effects) :=
  if event.diskReason = "" then .error "empty_disk_reason"
  else
    .ok ({ p with disk := event.diskReason, slot := false },
      { resetDownload := true, closePayload := true })

def faultStep (p : RuntimePolicy) (kind : StateEventKind) : RuntimePolicy × Effects :=
  let n := { p with initializing := true, slot := false }
  let n := match kind with
    | .metadataFailed => { n with metadataFault := ErrorReason.metadataPersistence }
    | .selectionInvalid => { n with selectionFault := ErrorReason.invalidSelection }
    | .payloadMissing => { n with missingFault := ErrorReason.missingFiles }
    | _ => n
  (n, Effects.quiesce)

def transitionStep (p : RuntimePolicy) (event : StateEvent) :
    Except String (RuntimePolicy × Effects) :=
  match event.kind with
  | .registered => registerStep p event
  | .activated => activateStep p event
  | .deleted | .closed => .ok (terminateStep p)
  | .paused => .ok (pauseStep p event)
  | .restoreStaged => stageStep p
  | .verification => verificationStep p event
  | .selectionObserved => selectionStep p event
  | .slotRequested => slotRequestStep p event
  | .slotReleased => slotReleaseStep p
  | .diskBlocked => diskStep p event
  | .applyFailed | .metadataFailed | .selectionInvalid | .payloadMissing =>
    .ok (faultStep p event.kind)
  | .other _ => .error "unknown_event"

def StateDecision.of (n : RuntimePolicy) (d : Effects) : StateDecision where
  toEffects := d
  policy := n
  next := { state := n.projection.1, err := n.projection.2, checking := n.checking,
            uncertain := n.uncertain, initializing := n.initializing, diskBlock := n.disk }
  selectionComplete := n.selectedComplete
  terminal := n.terminal

def runtimeTransition (p : RuntimePolicy) (event : StateEvent) :
    Except StateTransitionError StateDecision :=
  if p.terminal then .error ⟨event.kind, "runtime_terminal"⟩
  else if !p.registered && event.kind ≠ .registered then .error ⟨event.kind, "not_registered"⟩
  else
    match transitionStep p event with
    | .error reason => .error ⟨event.kind, reason⟩
    | .ok (n, d) => .ok (StateDecision.of n d)

end TorrentHub
