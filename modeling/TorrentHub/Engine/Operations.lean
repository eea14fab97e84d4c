import TorrentHub.Engine.Runtime
import TorrentHub.Policy.Restore

namespace TorrentHub
open Lib

structure TorrentSpec where
  disallowUpload : Bool
  files : Option Nat := none
  networking : Bool := true
deriving DecidableEq

structure IntentVersion where
  recordID : String
  revision : Int
  code : String
deriving DecidableEq

namespace Runtime

def registeredEvent (restored : Option SavedTorrent) : StateEvent :=
  match restored with
  | none => { kind := .registered, phase := .queued }
  | some saved =>
    { kind := .registered, phase := saved.state, err := saved.err,
      diskReason := saved.downloadBlock, staged := true }

variable (r : Runtime)

def publish (env : Environment) : Outcome :=
  if (r.lib.files.isSome && !env.metadataSaved) || !env.live 0 || env.dropped ||
      !r.registering then
    ({ r with registering := false }, .error .metadata)
  else ({ r with registering := false, managed := true }, .ok ())

def registerTorrent (spec : TorrentSpec) (restored : Option SavedTorrent) (noUpload : Bool)
    (env : Environment) : Outcome :=
  let mt : ManagedTorrent :=
    match restored with
    | none => {}
    | some saved =>
      { queuePosition := saved.queuePosition
        downloadBlockPersisted := decide (saved.downloadBlock ≠ "")
        filePriorities := saved.priorities }
  let r : Runtime :=
    { mt, noUpload
      lib := { upload := !spec.disallowUpload, files := spec.files,
               networking := spec.networking } }
  match r.applyStateEvent (registeredEvent restored) with
  | .error err => (r, .error (.transition err))
  | .ok (r, _) =>
    if r.lib.files.isSome then ({ r with registering := true, work := [.register] }, .ok ())
    else publish { r with registering := true } env

def payloadWriteError (env : Environment) : Outcome :=
  if !env.live 0 || !r.managed then (r, .ok ())
  else
    match r.lib.writeError with
    | none => (r, .ok ())
    | some err => r.blockDownloadLocked err.reason (env.live 1) (env.saved 0)

def checkPayloadAdmission (env : Environment) : Outcome :=
  if !r.managed then (r, .error .notFound)
  else
    match r.admitPayloadLocked env .command with
    | .error err => (r, .error err)
    | .ok r => (r, .ok ())

def manageResources (env : Environment) : Runtime :=
  if !r.current (env.live 0) || r.mt.healthProbe.isSome then r
  else
    { r with
      mt := { r.mt with healthProbe := some (r.ticket 0) }
      tickets := r.tickets + 1
      work := r.work ++ [.health (r.ticket 0)] }

def clearHealthProbe (ticket : PayloadPreparation) : Runtime :=
  if r.mt.healthProbe = some ticket then { r with mt := { r.mt with healthProbe := none } } else r

def requestSlot (available : Bool) : Except StateTransitionError Runtime :=
  if r.mt.policy.slot then .ok r
  else
    match r.applyStateEvent { kind := .slotRequested, slotAvailable := available } with
    | .error err => .error err
    | .ok (r, _) => .ok r

def prepareSlot (env : Environment) : Runtime :=
  let token := r.mt.slotToken
  if r.mt.policy.slot && r.mt.policy.payloadEligible && !r.mt.downloadAllStarted &&
      r.mt.preparation.isNone && r.lib.files.isSome then
    let r := { r with mt := { r.mt with downloadAllStarted := true } }
    match r.admitPayloadLocked env (.scheduler token) with
    | .ok r => r
    | .error _ => r.admitFailed (.scheduler token) (env.live 3) env.streams
  else r

/-- The turn of `manageResources` once the disk probe has returned. -/
def healthReturned (env : Environment) (ticket : PayloadPreparation) : Runtime :=
  let valid := r.holds ⟨ticket.epoch, ticket.fence⟩ (env.live 0) &&
    r.mt.healthProbe == some ticket
  let r := r.clearHealthProbe ticket
  if !valid then r
  else
    match env.probe with
    | some reason => (r.blockDownloadLocked reason (env.live 1) (env.saved 0)).1
    | none =>
      let r := r.reconcileSelectionLocked (env.drop 1)
      match r.requestSlot env.slotAvailable with
      | .error _ => r
      | .ok r => r.prepareSlot (env.drop 2)

def pauseWithIntent (saved : Option SavedTorrent) (env : Environment) : Outcome :=
  if !env.live 0 then (r, .error .cancelled)
  else if !r.managed then (r, .error .notFound)
  else
    match saved.mapM (persistedPriorities · r.lib.files) with
    | .error err => (r, .error err)
    | .ok priorities =>
      let r := r.disallowDownload
      match r.applyStateEvent { kind := .paused, fullReconcile := saved.isSome } with
      | .error err => (r, .error (.transition err))
      | .ok (r, d) =>
        let mt := { r.mt with
          filePriorities := priorities.getD r.mt.filePriorities
          queuePosition := (saved.map SavedTorrent.queuePosition).getD r.mt.queuePosition }
        (applyQuiesceLocked { r with mt } d, .ok ())

def stageExistingRestore (saved : SavedTorrent) (env : Environment) : Outcome :=
  if !env.live 0 then (r, .error .cancelled)
  else if !r.managed then (r, .error .notFound)
  else if r.mt.rechecking || r.mt.verificationUncertain then (r, .error .conflict)
  else
    match persistedPriorities saved r.lib.files with
    | .error err => (r, .error err)
    | .ok priorities =>
      match r.applyStateEvent { kind := .restoreStaged } with
      | .error err => (r, .error (.transition err))
      | .ok (r, d) =>
        let mt := { r.mt with filePriorities := priorities, queuePosition := saved.queuePosition }
        (applyQuiesceLocked { r with mt } d, .ok ())

/-- `ClearWriteChunkErrorIfVersion`: a write failure that arrived during the probe stays. -/
def clearWriteError (version : Nat) : Option Runtime :=
  if version ≠ r.lib.writeVersion then none
  else some { r with lib := { r.lib with writeError := none } }

def resumeFailure : String := "payload write failed during Resume"

def resumeLocked (env : Environment) : Outcome :=
  if !env.live 0 then (r, .error .cancelled)
  else if !r.managed then (r, .error .notFound)
  else if r.mt.rechecking || r.mt.verificationUncertain then (r, .error .conflict)
  else if r.mt.initializing then (r, .error (.message "torrent initialization is not complete"))
  else
    let r := r.disallowDownload
    r.runRuntimeWorkLocked (env.drop 1) (.resume · r.lib.writeVersion)

def resumeActivate (env : Environment) : Outcome :=
  match r.applyStateEvent { kind := .activated, phase := .queued, diskRecovered := true } with
  | .error err => (r, .error (.transition err))
  | .ok (r, _) =>
    let r := { r with mt := { r.mt with downloadBlockPersisted := false } }
    if r.lib.files.isSome then
      match r.applyFilePrioritiesAndDownload (env.saved 1) with
      | (r, .error err) => (r, .error err)
      | (r, .ok ()) => (r.allowUpload, .ok ())
    else (r, .ok ())

def recoverDisk (env : Environment) (writeVersion : Nat)
    (activate : Runtime → Outcome) : Outcome :=
  match env.probe with
  | some reason => r.blockWith reason (env.live 1) (env.saved 0)
  | none =>
    match r.clearWriteError writeVersion with
    | none => r.blockWith resumeFailure (env.live 1) (env.saved 0)
    | some r => if env.saved 0 then activate r else (r, .error .persistence)

def resumeReturned (env : Environment) (lease : Lease) (writeVersion : Nat) : Outcome :=
  if !r.holds lease (env.live 0) then (r, .error .conflict)
  else r.recoverDisk env writeVersion fun r => r.resumeActivate env

def restoreEvent (phase : TorrentState) (err : ErrorReason) (recovered : Bool) : StateEvent where
  kind := .activated
  phase := phase
  err := err
  fullReconcile := true
  diskRecovered := recovered

def finishRestore (phase : TorrentState) (manual : Bool) (env : Environment) : Outcome :=
  if !env.live 0 then (r, .error .cancelled)
  else if !r.managed then (r, .error .notFound)
  else
    match runtimeTransition r.mt.policy (restoreEvent phase r.mt.err false) with
    | .error err => (r, .error (.transition err))
    | .ok _ =>
      r.runRuntimeWorkLocked (env.drop 1)
        (.finishSave · phase r.mt.err manual r.lib.files.isSome (!r.lib.networking))

def openRestored (d : StateDecision) : Runtime :=
  let r := r.disallowDownload
  let r := if d.allowUpload && !r.noUpload then r.allowUpload else r
  if d.closeUpload then r.disallowUpload else r

def finishActivate (phase : TorrentState) (err : ErrorReason)
    (recovered spec : Bool) (env : Environment) : Outcome :=
  match r.applyStateEvent (restoreEvent phase err recovered) with
  | .error err => (r, .error (.transition err))
  | .ok (r, d) =>
    let persisted := r.mt.downloadBlockPersisted && !recovered
    let r := { r with mt := { r.mt with downloadBlockPersisted := persisted } }
    if inactivePhase d.next.state then (r.openRestored d, .ok ())
    else if !r.lib.networking && spec && !env.merged then
      ((r.quiesceFaultLocked .applyFailed (env.live 4) (env.saved 2)).1,
        .error (.message "merge spec"))
    else (openRestored { r with lib := { r.lib with networking := true } } d, .ok ())

def finishSaved (env : Environment) (lease : Lease) (phase : TorrentState)
    (err : ErrorReason) (manual metadata needsSpec : Bool) : Outcome :=
  if !r.holds lease (env.live 0) then (r, .error .conflict)
  else if metadata && !env.metadataSaved then
    ((r.quiesceFaultLocked .metadataFailed (env.live 1) (env.saved 0)).1, .error .metadata)
  else if r.mt.filePriorities.any (entryInvalid r.lib.files) then
    ((r.quiesceFaultLocked .selectionInvalid (env.live 1) (env.saved 0)).1,
      .error (.message "persisted file index out of bounds"))
  else
    let spec := needsSpec && env.networkSpec
    if manual then
      r.runRuntimeWorkLocked (env.drop 1) (.finishProbe · phase err spec r.lib.writeVersion)
    else r.finishActivate phase err false spec env

def finishProbed (env : Environment) (lease : Lease) (phase : TorrentState)
    (err : ErrorReason) (spec : Bool) (writeVersion : Nat) : Outcome :=
  if !r.holds lease (env.live 0) then (r, .error .conflict)
  else
    r.recoverDisk env writeVersion fun r => r.finishActivate phase err true spec env

def restoreVerificationBlock : Outcome :=
  if !r.managed then (r, .error .notFound)
  else
    match r.applyVerificationEvent .restored with
    | .error err => (r, .error (.transition err))
    | .ok (r, _) => (r.disallowDownload.disallowUpload, .ok ())

def settleVerification (result : VerifyResult) (env : Environment) : VerifyResult :=
  let result := if env.own 0 then result else result.join .cancelled
  if env.own 1 then result.join env.recorded else result

def completeVerificationLocked (attempt : VerificationAttempt)
    (result : VerifyResult) (env : Environment) : Outcome :=
  let cleared := { r with mt := { r.mt with verificationAttempt := none } }
  if !r.current (env.live 3) then
    (if r.mt.verificationAttempt = some attempt then cleared else r, .error .conflict)
  else if r.mt.verificationAttempt ≠ some attempt || !r.mt.rechecking then
    (r, .error .conflict)
  else
    let result := settleVerification result env
    match r.applyVerificationEvent result.event with
    | .error err => (cleared, .error (.transition err))
    | .ok (r, d) =>
      let r := { r with mt := { r.mt with verificationAttempt := none } }
      let r := r.applyQuiesceLocked d
      let r := if d.allowUpload && !r.noUpload && env.own 2 then r.allowUpload else r
      (r, result.outcome)

/-- What the two verification entries share. The verifier is not started unless its durable veto has
been established. -/
def beginVerification (operation started : Bool) (env : Environment) : Outcome :=
  match r.applyVerificationEvent .begin with
  | .error err => (r, .error (.transition err))
  | .ok (r, _) =>
    let attempt : VerificationAttempt := ⟨r.tickets, operation⟩
    let r := { r with mt := { r.mt with verificationAttempt := some attempt },
                      tickets := r.tickets + 1 }
    let r := r.disallowDownload.disallowUpload
    if env.vetoed ≠ .succeeded then
      ((r.completeVerificationLocked attempt env.vetoed env).1, env.vetoed.outcome)
    else if !started then
      ((r.completeVerificationLocked attempt .failed env).1, .error .taskLimit)
    else (r, .ok ())

def startRecheckLocked (env : Environment) : Outcome :=
  if !r.managed then (r, .error .notFound)
  else if !r.current (env.live 0) then (r, .error .cancelled)
  else if r.mt.rechecking then
    (r, if r.mt.verificationAttempt.any (·.operation) then .ok () else .error .conflict)
  else if r.mt.initializing || r.lib.files.isNone || env.streams then (r, .error .conflict)
  else r.beginVerification true env.taskStarted env

def verifyInactive (env : Environment) : Outcome :=
  if !env.live 0 then (r, .error .cancelled)
  else if !r.managed then (r, .error .notFound)
  else if r.mt.policy.run ≠ .paused || r.mt.policy.checking || r.mt.policy.terminal then
    (r, .error (.message "inactive verification conflicts with current operation"))
  else r.beginVerification false true env

/-- `watchMetadata` once the library has the metadata. -/
def watchMetadata (env : Environment) : Outcome :=
  if !r.managed || !env.live 0 || r.lib.files.isNone then (r, .ok ())
  else if env.discovery then r.runRuntimeWorkLocked (env.drop 1) .trackers
  else r.runRuntimeWorkLocked (env.drop 1) .saveMetadata

def trackersReturned (env : Environment) (lease : Lease) : Outcome :=
  if !r.holds lease (env.live 0) then (r, .error .conflict)
  else r.runRuntimeWorkLocked (env.drop 1) .saveMetadata

def metadataReturned (env : Environment) (lease : Lease) : Outcome :=
  if !r.holds lease (env.live 0) then (r, .error .conflict)
  else if !env.metadataSaved then
    r.quiesceFaultLocked .metadataFailed (env.live 1) (env.saved 0)
  else if r.mt.policy.slot && !r.mt.downloadAllStarted && r.mt.policy.payloadEligible then
    let r := { r with mt := { r.mt with downloadAllStarted := true } }
    match r.admitPayloadLocked (env.drop 1) .command with
    | .error err => (r, .error err)
    | .ok r => (r, .ok ())
  else (r, .ok ())

def detectMissingExpectedPayload (env : Environment) : Outcome :=
  if !r.current (env.live 0) then (r, .error .conflict)
  else if r.mt.initializing || r.mt.rechecking || r.mt.verificationUncertain then
    (r, .error .conflict)
  else r.runRuntimeWorkLocked (env.drop 1) .missing

def missingReturned (env : Environment) (lease : Lease) : Outcome :=
  if !r.holds lease (env.live 0) then (r, .error .conflict)
  else if !env.missing then (r, .ok ())
  else r.quiesceFaultLocked .payloadMissing (env.live 1) (env.saved 0)

def failIntentCodes : List String :=
  ["intent_commit_failed", "runtime_stage_failed", "runtime_apply_failed", "runtime_bind_failed"]

/-- `expected` says that the caller captured this runtime before its command. -/
def failIntentApply (expected : Bool) (v : IntentVersion) : Outcome :=
  if v.recordID = "" || v.revision < 1 then (r, .error .conflict)
  else if !failIntentCodes.contains v.code then
    (r, .error (.message "invalid intent failure code"))
  else if !r.managed || !expected then (r, .error .conflict)
  else if (r.mt.runtimeFence.recordID ≠ "" && r.mt.runtimeFence.recordID ≠ v.recordID) ||
      v.revision < r.mt.runtimeFence.revision ||
      r.mt.intentApplyFailure.any (fun f => v.revision < f.revision) then
    (r, .error .conflict)
  else
    match r.applyStateEvent { kind := .applyFailed } with
    | .error err => (r, .error (.transition err))
    | .ok (r, d) =>
      let failure : IntentApplyFailure := ⟨v.recordID, v.revision, v.code⟩
      (applyQuiesceLocked { r with mt := { r.mt with intentApplyFailure := some failure } } d,
        .ok ())

def bindRuntime (expected : Bool) (fence : RuntimeFence) (applied : Int)
    (env : Environment) : Outcome :=
  if fence.attachment = "" || fence.recordID = "" || fence.revision < 1 then
    (r, .error (.message "invalid runtime binding"))
  else if !env.live 0 then (r, .error .cancelled)
  else if !r.managed || !expected then (r, .error .conflict)
  else if decide (0 < applied) && r.mt.initializing then (r, .error .conflict)
  else if r.mt.runtimeFence.recordID ≠ "" && (r.mt.runtimeFence.recordID ≠ fence.recordID ||
      fence.revision < r.mt.runtimeFence.revision) then (r, .error .conflict)
  else if r.mt.verificationUncertain && !env.saved 0 then (r, .error .persistence)
  else if !r.mt.safetyBlocks.isEmpty && !env.saved 1 then (r, .error .persistence)
  else
    ({ r with mt := { r.mt with
        runtimeFence := fence
        appliedIntentRevision := applied
        intentApplyFailure := if 0 < applied then none else r.mt.intentApplyFailure } }, .ok ())

def installPriorities (priorities : List (Int × FilePriority)) : Runtime :=
  { r with mt := { r.mt with
      filePriorities := priorities
      policyEpoch := r.mt.policyEpoch + 1 } }

def setFilePriority (index : Int) (priority : FilePriority) (env : Environment) : Outcome :=
  if !env.live 0 then (r, .error .cancelled)
  else if index < 0 || !priority.valid then (r, .error (.message "invalid file priority"))
  else if !r.managed then (r, .error .notFound)
  else if indexInvalid r.lib.files index then (r, .error (.message "file index out of bounds"))
  else
    let r := r.installPriorities (setPriority r.mt.filePriorities index priority)
    if r.lib.files.isSome then r.applyFilePrioritiesAndDownload (env.saved 0) else (r, .ok ())

def setTorrentFilesPriority (priority : FilePriority) (env : Environment) : Outcome :=
  if !env.live 0 then (r, .error .cancelled)
  else if !priority.valid then (r, .error (.message "invalid file priority"))
  else if !r.managed then (r, .error .notFound)
  else
    let all := (List.range (r.lib.files.getD 0)).foldl
      (fun m i => setPriority m i priority) r.mt.filePriorities
    (r.installPriorities all).applyFilePrioritiesAndDownload (env.saved 0)

def setFilePriorities (entries : List (Int × FilePriority)) (env : Environment) : Outcome :=
  if !env.live 0 then (r, .error .cancelled)
  else if !r.managed then (r, .error .notFound)
  else if entries.any (entryInvalid r.lib.files) then
    (r, .error (.message "invalid file priority"))
  else
    let r := r.installPriorities
      (entries.foldl (fun m entry => setPriority m entry.1 entry.2) r.mt.filePriorities)
    if r.lib.files.isSome then r.applyFilePrioritiesAndDownload (env.saved 0) else (r, .ok ())

def restoreBasePriorities (env : Environment) : Runtime :=
  if !r.mt.policy.payloadEligible then r
  else (r.applyFilePrioritiesAndDownload (env.saved 0)).1

def refreshPeerDiscovery (downloadAll : Bool) (env : Environment) : Runtime :=
  if !r.current (env.live 0) || !r.mt.policy.uploadEligible then r
  else
    let r := if !r.noUpload then r.allowUpload else r
    if downloadAll then (r.applyFilePrioritiesAndDownload (env.saved 0)).1 else r

def setQueuePosition (position : Int) : Runtime :=
  if r.managed then { r with mt := { r.mt with queuePosition := position } } else r

def terminate (kind : StateEventKind) : Runtime :=
  match r.applyStateEvent { kind } with
  | .error _ => r
  | .ok (r, d) => r.applyQuiesceLocked d

def delete (env : Environment) : Outcome :=
  if !env.live 0 || !env.live 1 then (r, .error .cancelled)
  else if r.registering then (r, .error .conflict)
  else if !r.managed then (r, .ok ())
  else (terminate { r with managed := false } .deleted, .ok ())

def close : Runtime := if r.managed then r.terminate .closed else r

/-- Each up to its first release of admission. Verification results arrive at any time and for any
attempt. -/
inductive Operation where
  | payloadWriteError | checkPayloadAdmission | manageResources | resume
  | restoreVerificationBlock | startRecheck | verifyInactive | watchMetadata
  | detectMissingExpectedPayload | restoreBasePriorities | delete | close
  | pause (saved : Option SavedTorrent)
  | stageExistingRestore (saved : SavedTorrent)
  | finishRestore (phase : TorrentState) (manual : Bool)
  | finishVerification (attempt : VerificationAttempt) (result : VerifyResult)
  | failIntentApply (expected : Bool) (v : IntentVersion)
  | bindRuntime (expected : Bool) (fence : RuntimeFence) (applied : Int)
  | setFilePriority (index : Int) (priority : FilePriority)
  | setTorrentFilesPriority (priority : FilePriority)
  | setFilePriorities (entries : List (Int × FilePriority))
  | refreshPeerDiscovery (downloadAll : Bool)
  | setQueuePosition (position : Int)
deriving DecidableEq

def call (op : Operation) (env : Environment) : Runtime :=
  match op with
  | .payloadWriteError => (r.payloadWriteError env).1
  | .checkPayloadAdmission => (r.checkPayloadAdmission env).1
  | .manageResources => r.manageResources env
  | .resume => (r.resumeLocked env).1
  | .restoreVerificationBlock => r.restoreVerificationBlock.1
  | .startRecheck => (r.startRecheckLocked env).1
  | .verifyInactive => (r.verifyInactive env).1
  | .watchMetadata => (r.watchMetadata env).1
  | .detectMissingExpectedPayload => (r.detectMissingExpectedPayload env).1
  | .restoreBasePriorities => r.restoreBasePriorities env
  | .delete => (r.delete env).1
  | .close => r.close
  | .pause saved => (r.pauseWithIntent saved env).1
  | .stageExistingRestore saved => (r.stageExistingRestore saved env).1
  | .finishRestore phase manual => (r.finishRestore phase manual env).1
  | .finishVerification attempt result => (r.completeVerificationLocked attempt result env).1
  | .failIntentApply expected v => (r.failIntentApply expected v).1
  | .bindRuntime expected fence applied => (r.bindRuntime expected fence applied env).1
  | .setFilePriority index priority => (r.setFilePriority index priority env).1
  | .setTorrentFilesPriority priority => (r.setTorrentFilesPriority priority env).1
  | .setFilePriorities entries => (r.setFilePriorities entries env).1
  | .refreshPeerDiscovery downloadAll => r.refreshPeerDiscovery downloadAll env
  | .setQueuePosition position => r.setQueuePosition position

def admitFinish (env : Environment) (ticket : PayloadPreparation)
    (metadata : Bool) (caller : Caller) : Runtime :=
  match r.admitReturned env ticket metadata with
  | (r, .ok ()) => r
  | (r, .error _) => r.admitFailed caller (env.live 2) env.streams

/-- The unlocked phase of `work` has returned and the operation holds admission again. -/
def finish (work : Work) (env : Environment) : Runtime :=
  match work with
  | .register => (r.publish env).1
  | .admission ticket metadata caller => r.admitFinish env ticket metadata caller
  | .health ticket => r.healthReturned env ticket
  | .resume lease writeVersion => (r.resumeReturned env lease writeVersion).1
  | .finishSave lease phase err manual metadata needsSpec =>
    (r.finishSaved env lease phase err manual metadata needsSpec).1
  | .finishProbe lease phase err spec writeVersion =>
    (r.finishProbed env lease phase err spec writeVersion).1
  | .trackers lease => (r.trackersReturned env lease).1
  | .saveMetadata lease => (r.metadataReturned env lease).1
  | .missing lease => (r.missingReturned env lease).1

inductive Action where
  | call (op : Operation) (env : Environment)
  | returned (index : Nat) (env : Environment)
  | gotInfo (files : Nat)
  | writeFailed (err : WriteError)

def step : Action → Runtime
  | .call op env => r.call op env
  | .returned index env =>
    match r.work[index]? with
    | none => r
    | some work => finish { r with work := r.work.eraseIdx index } work env
  | .gotInfo files =>
    { r with lib := { r.lib with files := r.lib.files.orElse fun _ => some files } }
  | .writeFailed err =>
    { r with lib := { r.lib with writeError := some err, writeVersion := r.lib.writeVersion + 1,
                                 download := false } }

def run (spec : TorrentSpec) (restored : Option SavedTorrent) (noUpload : Bool)
    (env : Environment) (actions : List Action) : Runtime :=
  exec step (registerTorrent spec restored noUpload env).1 actions

end Runtime

end TorrentHub
