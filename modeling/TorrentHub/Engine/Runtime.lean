import TorrentHub.Engine.Managed

namespace TorrentHub

inductive WriteError where
  | noSpace | other
deriving DecidableEq

def WriteError.reason : WriteError → String
  | .noSpace => "Disk full: ENOSPC from payload writer"
  | .other => "payload storage write failed"

/-- The library's torrent: the two data permissions, the number of files once known, the write-error
latch with its version, and networking. -/
structure LibraryTorrent where
  upload : Bool
  download : Bool := false
  files : Option Nat := none
  writeError : Option WriteError := none
  writeVersion : Nat := 0
  networking : Bool := true
deriving DecidableEq

inductive EngineError where
  | cancelled | conflict | notFound | taskLimit | persistence | metadata
  | blocked (reason : String)
  | transition (err : StateTransitionError)
  | message (text : String)
deriving DecidableEq

inductive VerifyResult where
  | succeeded | failed | cancelled
deriving DecidableEq

def VerifyResult.join : VerifyResult → VerifyResult → VerifyResult
  | .cancelled, _ | _, .cancelled => .cancelled
  | .succeeded, .succeeded => .succeeded
  | _, _ => .failed

def VerifyResult.event : VerifyResult → VerificationEvent
  | .succeeded => .succeeded
  | .failed => .failed
  | .cancelled => .cancelled

def VerifyResult.outcome : VerifyResult → Except EngineError Unit
  | .succeeded => .ok ()
  | .failed => .error .persistence
  | .cancelled => .error .cancelled

/-- The answers one critical section gets. Each reading of a context, and each write, is a separate
answer. -/
structure Environment where
  live : Nat → Bool := fun _ => true
  own : Nat → Bool := fun _ => true
  saved : Nat → Bool := fun _ => true
  probe : Option String := none
  metadataSaved : Bool := true
  complete : Nat → Bool := fun _ => false
  streams : Bool := false
  slotAvailable : Bool := true
  dropped : Bool := false
  missing : Bool := false
  discovery : Bool := false
  networkSpec : Bool := false
  merged : Bool := true
  taskStarted : Bool := true
  vetoed : VerifyResult := .succeeded
  recorded : VerifyResult := .succeeded

/-- The answers left after the first `k` readings of the engine's context. -/
def Environment.drop (env : Environment) (k : Nat) : Environment :=
  { env with live := fun i => env.live (i + k) }

structure Lease where
  epoch : Nat
  fence : RuntimeFence
deriving DecidableEq

inductive Caller where
  | command
  | scheduler (token : Nat)
deriving DecidableEq

inductive Work where
  | register
  | admission (ticket : PayloadPreparation) (metadata : Bool) (caller : Caller)
  | health (ticket : PayloadPreparation)
  | resume (lease : Lease) (writeVersion : Nat)
  | finishSave (lease : Lease) (phase : TorrentState) (err : ErrorReason)
      (manual metadata needsSpec : Bool)
  | finishProbe (lease : Lease) (phase : TorrentState) (err : ErrorReason) (spec : Bool)
      (writeVersion : Nat)
  | trackers (lease : Lease)
  | saveMetadata (lease : Lease)
  | missing (lease : Lease)
deriving DecidableEq

/-- `managed` says that the engine's table holds this runtime for its hash; `tickets` counts the
tickets handed out. -/
structure Runtime where
  mt : ManagedTorrent
  lib : LibraryTorrent
  noUpload : Bool := false
  registering : Bool := false
  managed : Bool := false
  work : List Work := []
  tickets : Nat := 0
deriving DecidableEq

abbrev Outcome := Runtime × Except EngineError Unit

/-- A file priority map with the entry of `index` replaced. -/
def setPriority (priorities : List (Int × FilePriority)) (index : Int) (priority : FilePriority) :
    List (Int × FilePriority) :=
  (index, priority) :: priorities.filter (·.1 ≠ index)

def priorityOf (priorities : List (Int × FilePriority)) (index : Int) : FilePriority :=
  (priorities.lookup index).getD .normal

def fillDefaults (priorities : List (Int × FilePriority)) (files : Nat) :
    List (Int × FilePriority) :=
  (List.range files).foldl
    (fun m i => if m.any (·.1 == (i : Int)) then m else setPriority m i .normal) priorities

def indexInvalid (files : Option Nat) (index : Int) : Bool :=
  index < 0 || files.any (fun n => decide ((n : Int) ≤ index))

def entryInvalid (files : Option Nat) (entry : Int × FilePriority) : Bool :=
  indexInvalid files entry.1 || !entry.2.valid

structure SavedTorrent where
  state : TorrentState := .queued
  err : ErrorReason := ErrorReason.none
  downloadBlock : String := ""
  queuePosition : Int := 0
  files : List (Int × FilePriority) := []
deriving DecidableEq

def SavedTorrent.priorities (saved : SavedTorrent) : List (Int × FilePriority) :=
  saved.files.foldl (fun m entry => setPriority m entry.1 entry.2) []

def persistedPriorities (saved : SavedTorrent) (files : Option Nat) :
    Except EngineError (List (Int × FilePriority)) :=
  if saved.files.any (entryInvalid files) then .error (.message "invalid persisted file priority")
  else .ok saved.priorities

namespace Runtime

def current (r : Runtime) (live : Bool) : Bool := r.managed && live

def allowUpload (r : Runtime) : Runtime := { r with lib := { r.lib with upload := true } }
def disallowUpload (r : Runtime) : Runtime := { r with lib := { r.lib with upload := false } }
def allowDownload (r : Runtime) : Runtime := { r with lib := { r.lib with download := true } }
def disallowDownload (r : Runtime) : Runtime := { r with lib := { r.lib with download := false } }

def applyStateEvent (r : Runtime) (event : StateEvent) :
    Except StateTransitionError (Runtime × StateDecision) :=
  match r.mt.applyStateEventLocked event with
  | (_, .error err) => .error err
  | (mt, .ok d) => .ok ({ r with mt }, d)

def applyVerificationEvent (r : Runtime) (event : VerificationEvent) :
    Except StateTransitionError (Runtime × StateDecision) :=
  r.applyStateEvent { kind := .verification, verification := event }

def applyQuiesceLocked (r : Runtime) (d : StateDecision) : Runtime :=
  let r := if d.closePayload then r.disallowDownload else r
  if d.closeUpload then r.disallowUpload else r

def safetyBlock : StateEventKind → Option ActivationBlock
  | .metadataFailed => some ⟨.metadataPersistence, ErrorReason.metadataPersistence⟩
  | .selectionInvalid => some ⟨.invalidSelection, ErrorReason.invalidSelection⟩
  | .payloadMissing => some ⟨.missingFiles, ErrorReason.missingFiles⟩
  | _ => none

def persistSafetyFaultLocked (r : Runtime) (kind : StateEventKind) (saved : Bool) : Outcome :=
  match safetyBlock kind with
  | none => (r, .ok ())
  | some block =>
    let blocks := block :: r.mt.safetyBlocks.filter (·.kind ≠ block.kind)
    let r := { r with mt := { r.mt with safetyBlocks := blocks } }
    if r.mt.runtimeFence.attachment = "" then (r, .ok ())
    else if saved then (r, .ok ())
    else (r, .error .persistence)

def quiesceFaultLocked (r : Runtime) (kind : StateEventKind) (live saved : Bool) : Outcome :=
  if !r.current live then (r, .error .conflict)
  else
    match r.applyStateEvent { kind } with
    | .error err => (r, .error (.transition err))
    | .ok (r, d) => (r.applyQuiesceLocked d).persistSafetyFaultLocked kind saved

def blockDownloadLocked (r : Runtime) (reason : String) (live saved : Bool) : Outcome :=
  if !r.current live then (r, .error .conflict)
  else
    let changed := decide (r.mt.downloadBlock ≠ reason)
    match r.applyStateEvent { kind := .diskBlocked, diskReason := reason } with
    | .error err => (r, .error (.transition err))
    | .ok (r, _) =>
      let persisted := r.mt.downloadBlockPersisted && !changed
      let r := r.disallowDownload
      let r := { r with mt := { r.mt with downloadBlockPersisted := persisted } }
      if persisted then (r, .ok ())
      else if saved then ({ r with mt := { r.mt with downloadBlockPersisted := true } }, .ok ())
      else (r, .error .persistence)

/-- A refusal for `reason`, unless blocking itself fails. -/
def blockWith (r : Runtime) (reason : String) (live saved : Bool) : Outcome :=
  match r.blockDownloadLocked reason live saved with
  | (r, .error err) => (r, .error err)
  | (r, .ok ()) => (r, .error (.blocked reason))

def applyFilePrioritiesAndDownload (r : Runtime) (saved : Bool) : Outcome :=
  match r.lib.files with
  | none => (r, .error (.message "metadata not ready"))
  | some files =>
    if r.mt.initializing then (r, .error (.message "torrent initialization is not complete"))
    else if r.mt.filePriorities.any (fun entry => indexInvalid (some files) entry.1) then
      match r.applyStateEvent { kind := .selectionInvalid } with
      | .error err => (r, .error (.transition err))
      | .ok (r, d) =>
        (((r.applyQuiesceLocked d).persistSafetyFaultLocked .selectionInvalid saved).1,
          .error (.message "persisted file index out of bounds"))
    else
      ({ r with mt := { r.mt with filePriorities := fillDefaults r.mt.filePriorities files } },
        .ok ())

def runRuntimeWorkLocked (r : Runtime) (env : Environment) (work : Lease → Work) : Outcome :=
  if !r.current (env.live 0) then (r, .error .conflict)
  else if !env.live 1 then (r, .error .cancelled)
  else
    ({ r with work := r.work ++ [work ⟨r.mt.policyEpoch, r.mt.runtimeFence⟩] }, .ok ())

def holds (r : Runtime) (lease : Lease) (live : Bool) : Bool :=
  r.mt.policyEpoch == lease.epoch && r.mt.runtimeFence == lease.fence && r.current live

def ticket (r : Runtime) (slot : Nat) : PayloadPreparation where
  id := r.tickets
  epoch := r.mt.policyEpoch
  fence := r.mt.runtimeFence
  slot := slot

def reserve (r : Runtime) (caller : Caller) : Runtime :=
  { r with
    mt := { r.mt with preparation := some (r.ticket r.mt.slotToken) }
    tickets := r.tickets + 1
    work := r.work ++ [.admission (r.ticket r.mt.slotToken) r.lib.files.isSome caller] }

/-- `admitPayloadLocked` up to the point where it releases admission. -/
def admitPayloadLocked (r : Runtime) (env : Environment) (caller : Caller) :
    Except EngineError Runtime :=
  if !env.live 0 then .error .cancelled
  else if r.mt.policy.disk ≠ "" then .error (.blocked r.mt.policy.disk)
  else if r.mt.policy.initializing || r.mt.policy.checking || r.mt.policy.uncertain then
    .error (.blocked "torrent initialization is not complete")
  else if !r.mt.policy.payloadEligible then
    .error (.blocked "torrent is not accepting payload downloads")
  else if !r.current (env.live 1) then .error .conflict
  else if r.mt.preparation.isSome then .error .conflict
  else if !env.live 2 then .error .cancelled
  else .ok (r.reserve caller)

def prepared (r : Runtime) (ticket : PayloadPreparation) (live : Bool) : Bool :=
  r.mt.policyEpoch == ticket.epoch && r.mt.runtimeFence == ticket.fence &&
    r.mt.policy.payloadEligible && r.mt.slotToken == ticket.slot && r.current live &&
    r.mt.preparation == some ticket

def clearPreparation (r : Runtime) (ticket : PayloadPreparation) : Runtime :=
  if r.mt.preparation = some ticket then { r with mt := { r.mt with preparation := none } }
  else r

/-- `admitPayloadLocked` once the probe and the metainfo write have returned. -/
def admitReturned (r : Runtime) (env : Environment) (ticket : PayloadPreparation)
    (metadata : Bool) : Outcome :=
  let valid := r.prepared ticket (env.live 0)
  let r := r.clearPreparation ticket
  if !valid then (r, .error .conflict)
  else
    match env.probe with
    | some reason => r.blockWith reason (env.live 1) (env.saved 0)
    | none =>
      if metadata && !env.metadataSaved then
        ((r.quiesceFaultLocked .metadataFailed (env.live 1) (env.saved 0)).1, .error .metadata)
      else
        match r.applyFilePrioritiesAndDownload (env.saved 0) with
        | (r, .error err) => (r, .error err)
        | (r, .ok ()) =>
          if env.dropped then r.blockWith WriteError.other.reason (env.live 1) (env.saved 1)
          else
            match r.lib.writeError with
            | some err => r.blockWith err.reason (env.live 1) (env.saved 1)
            | none => (r.allowDownload, .ok ())

def applyBackgroundReleaseLocked (r : Runtime) (d : StateDecision) (streams : Bool) : Runtime :=
  if d.clearBasePriorities && d.closeBackgroundPayload && !streams then r.disallowDownload else r

def releaseFailedSlotLocked (r : Runtime) (live streams : Bool) : Runtime :=
  if !r.current live then r
  else
    match r.applyStateEvent { kind := .slotReleased } with
    | .error _ => r
    | .ok (r, d) => r.applyBackgroundReleaseLocked d streams

def admitFailed (r : Runtime) (caller : Caller) (live streams : Bool) : Runtime :=
  match caller with
  | .command => r
  | .scheduler token =>
    if r.mt.policy.slot && r.mt.slotToken == token then
      releaseFailedSlotLocked { r with mt := { r.mt with downloadAllStarted := false } } live
        streams
    else r

def selectionEvent (r : Runtime) (files : Nat) (complete : Nat → Bool) : StateEvent where
  kind := .selectionObserved
  metadataKnown := true
  selectedComplete := (List.range files).all fun i =>
    priorityOf r.mt.filePriorities i == .none || complete i
  payloadComplete := (List.range files).all complete
  selectionEmpty := (List.range files).all fun i => priorityOf r.mt.filePriorities i == .none

def reconcileSelectionLocked (r : Runtime) (env : Environment) : Runtime :=
  if !r.current (env.live 0) then r
  else
    match r.lib.files with
    | none => r
    | some files =>
      if r.mt.initializing || r.mt.rechecking || r.mt.verificationUncertain then r
      else
        match r.applyStateEvent (r.selectionEvent files env.complete) with
        | .error _ => r
        | .ok (r, d) => r.applyBackgroundReleaseLocked d env.streams

end Runtime

end TorrentHub
