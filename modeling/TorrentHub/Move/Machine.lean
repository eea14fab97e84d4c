import TorrentHub.Move.Journal
import TorrentHub.Lib.Run

namespace TorrentHub
open Lib

/-- The journal column holds the encoded journal; the summary columns derived from it are left out.
-/
structure RecoveryRecord where
  recordID : String
  version : Nat
  reason : RecoveryReason
  stage : Stage
  error : String := ""
  failureCode : String := ""
  journal : StorageLocationJournal := {}
deriving DecidableEq

/-- A conditional update compares the record, the version, the reason and the stage, and nothing of
the journal. `fenced` is the answer of the mapping fence. -/
def updateOperation (row : Option RecoveryRecord) (v : RecoveryRecord) (stage : Stage)
    (fenced : Bool) (update : RecoveryRecord → RecoveryRecord) : Option RecoveryRecord :=
  match row with
  | none => none
  | some r =>
    if fenced && r.recordID == v.recordID && r.version == v.version && r.reason == v.reason &&
        r.stage == stage then some (update r)
    else none

def transitionStorageOperation (row : Option RecoveryRecord) (v : RecoveryRecord)
    (stage : Stage) (fenced : Bool) : Option RecoveryRecord :=
  updateOperation row v stage fenced fun r =>
    { r with stage := v.stage, journal := v.journal, error := v.error,
             failureCode := v.failureCode }

def commitStorageOperation (row : Option RecoveryRecord) (v : RecoveryRecord) (fenced : Bool) :
    Option RecoveryRecord :=
  updateOperation row v .published fenced fun r =>
    { r with stage := .committed, journal := v.journal, error := "", failureCode := "" }

def finishStorageOperation (row : Option RecoveryRecord) (v : RecoveryRecord) (stage : Stage)
    (fenced : Bool) : Option RecoveryRecord :=
  updateOperation row v stage fenced fun r =>
    { r with stage := v.stage, journal := v.journal, error := "", failureCode := "" }

def createStorageOperation (row : Option RecoveryRecord) (v : RecoveryRecord) (previous : Nat)
    (fenced : Bool) : Option RecoveryRecord :=
  if fenced && (row.map RecoveryRecord.version).getD 0 == previous &&
      v.version == previous + 1 then some v
  else none

structure Failure where
  error : String
  code : String
  cancelled : Bool := false
deriving DecidableEq

def Failure.conflict : Failure := { error := "state conflict", code := "state_conflict" }

inductive Point where
  | loop
  | copy (start : Nat)
  | move
  | clean (index : Nat)
  | finish
  | tail (cause : Option Failure)
  | cancelling (current : RecoveryRecord)
  | failing (current : RecoveryRecord) (cause : Failure)
deriving DecidableEq

/-- A location worker: its copy `v` of the row, its private journal, and where it stands. -/
structure Worker where
  v : RecoveryRecord
  journal : StorageLocationJournal
  point : Point := .loop
deriving DecidableEq

structure WorkerEnv where
  failed : Option Failure := none
  fenced : Bool := true
  boundary : Option Failure := none
  stopped : Bool := false
  plan : StorageLocationJournal.Plan := {}
  analysis : LocationAnalysis := ⟨0, 0, 0, 0⟩
  identity : String := ""
  identities : Nat → String := fun _ => ""
  targetPublished : Bool := false
  crossDevice : Bool := false
  sourceGone : Bool := false
  entryGone : Bool := false

abbrev WorkerResult := Option RecoveryRecord × Option Worker

namespace Worker

variable (w : Worker) (row : Option RecoveryRecord) (env : WorkerEnv)

def go (point : Point) : WorkerResult :=
  (row, some { w with point })

def giveUp (cause : Failure) : WorkerResult :=
  w.go row (.tail (some cause))

/-- Write the private journal under the next stage. A refused write leaves the worker's stage, but
not its journal text. -/
def locationTransition (stage : Stage) (next : Point) : WorkerResult :=
  let v := { w.v with stage, journal := w.journal }
  match transitionStorageOperation row v w.v.stage env.fenced with
  | none =>
    { w with v := { v with stage := w.v.stage } }.giveUp row .conflict
  | some r =>
    match env.boundary with
    | some cause => { w with v }.giveUp (some r) cause
    | none => { w with v }.go (some r) next

/-- The first commit of `copyLocation`, which records the staging directory. -/
def beginCopy : WorkerResult :=
  { w with journal := w.journal.ensureStaging env.identity }.locationTransition row env w.v.stage
    (.copy 0)

/-- One batch of `copyLocation`: new empty copies are recorded before any payload is written to
them. -/
def copyBatch (start : Nat) : WorkerResult :=
  let next := start + StorageLocationJournal.batchSize
  if start < w.journal.entries.length then
    if w.journal.batchChanged start then
      { w with journal := w.journal.stampBatch start env.identities }.locationTransition row env
        w.v.stage (.copy next)
    else w.go row (.copy next)
  else
    { w with journal := w.journal.completeCopies }.locationTransition row env .publishing
      (if w.v.stage = Stage.copying then .loop else .move)

def publishLocation : WorkerResult :=
  if env.targetPublished then w.locationTransition row env .published .loop
  else if w.journal.method = .copy ∧ w.journal.copiesComplete = false then w.beginCopy row env
  else w.go row .move

def publishMove : WorkerResult :=
  if w.journal.method = .rename ∧ env.crossDevice = true then
    { w with journal := w.journal.switchToCopy }.locationTransition row env .publishing .loop
  else w.locationTransition row env .published .loop

def commitMapping : WorkerResult :=
  match commitStorageOperation row w.v env.fenced with
  | none => w.giveUp row .conflict
  | some r =>
    let w := { w with v := { w.v with stage := .committed } }
    match env.boundary with
    | some cause => w.giveUp (some r) cause
    | none => w.go (some r) .loop

def beginCleanup : WorkerResult :=
  if w.journal.method = .rename ∨ env.sourceGone = true then w.go row .finish
  else
    let w := { w with journal := w.journal.withCleanupPath w.v.recordID w.v.version }
    if !w.journal.entries.all (·.removed) && w.journal.cleanupIdentity == "" then
      { w with journal := w.journal.withCleanupIdentity env.identity }.locationTransition row env
        .cleanup (.clean 0)
    else w.go row (.clean 0)

/-- One entry of the cleanup loop. One that is already gone gets no checkpoint, as every 64th
removed entry does. -/
def cleanEntry (index : Nat) : WorkerResult :=
  match w.journal.entries[index]? with
  | none => w.locationTransition row env .cleanup .finish
  | some e =>
    if e.removed then w.go row (.clean (index + 1))
    else
      let w := { w with journal := w.journal.removeEntry index }
      if !env.entryGone && (index + 1) % StorageLocationJournal.batchSize == 0 then
        w.locationTransition row env .cleanup (.clean (index + 1))
      else w.go row (.clean (index + 1))

def finishOperation (stage : Stage) (journal : StorageLocationJournal) : WorkerResult :=
  let v := { w.v with stage := .completed, journal }
  match finishStorageOperation row v stage env.fenced with
  | none => { w with v }.giveUp row .conflict
  | some r => { w with v }.go (some r) (.tail env.boundary)

/-- One turn of the loop of `executeLocation`. -/
def executeLocation : WorkerResult :=
  match w.v.stage with
  | .planning =>
    { w with journal := w.journal.planned env.plan }.locationTransition row env .planned
      (.tail none)
  | .queued => w.locationTransition row env .waitingReaders .loop
  | .waitingReaders => w.locationTransition row env .prepared .loop
  | .prepared =>
    w.locationTransition row env
      (if w.journal.method = .rename then .publishing else .copying) .loop
  | .copying => w.beginCopy row env
  | .publishing => w.publishLocation row env
  | .published => w.commitMapping row env
  | .committed => w.locationTransition row env .cleanup .loop
  | .cleanup => w.beginCleanup row env
  | .planned | .completed | .cancelled | .cancelRequested => w.go row (.tail none)
  | .analyzingLocation | .analyzed | .other _ => w.giveUp row .conflict

/-- One turn of the loop of `executeLocate`. -/
def executeLocate : WorkerResult :=
  match w.v.stage with
  | .analyzingLocation =>
    { w with journal := w.journal.analyzed env.analysis }.locationTransition row env .analyzed
      (.tail none)
  | .queued => w.locationTransition row env .waitingReaders .loop
  | .waitingReaders => w.locationTransition row env .prepared .loop
  | .prepared =>
    if locationMatches w.journal.analysis then w.locationTransition row env .publishing .loop
    else w.giveUp row .conflict
  | .publishing => w.locationTransition row env .published .loop
  | .published => w.commitMapping row env
  | .committed => w.finishOperation row env .committed w.v.journal
  | .analyzed | .completed | .cancelled | .cancelRequested => w.go row (.tail none)
  | .planning | .planned | .copying | .cleanup | .other _ => w.giveUp row .conflict

/-- The end of `processLocation`, up to its read of the row. -/
def readCurrent (cause : Option Failure) : WorkerResult :=
  match row with
  | none => (row, none)
  | some current =>
    if env.stopped || current.recordID != w.v.recordID || current.version != w.v.version ||
        current.reason != w.v.reason then (row, none)
    else if current.stage = .cancelRequested then w.go row (.cancelling current)
    else
      match cause with
      | none => (row, none)
      | some cause => w.go row (.failing current cause)

def finishLocationCancel (current : RecoveryRecord) : WorkerResult :=
  ((finishStorageOperation row { current with stage := .cancelled } .cancelRequested
    env.fenced).orElse fun _ => row, none)

def locationFailure (current : RecoveryRecord) (cause : Failure) : WorkerResult :=
  if cause.cancelled then (row, none)
  else
    ((transitionStorageOperation row
      { current with error := cause.error, failureCode := cause.code } current.stage
      env.fenced).orElse fun _ => row, none)

def step : WorkerResult :=
  match w.point, env.failed with
  | .tail cause, _ => w.readCurrent row env cause
  | .cancelling current, _ => finishLocationCancel row env current
  | .failing current cause, _ => locationFailure row env current cause
  | _, some cause => w.giveUp row cause
  | .loop, none =>
    if w.v.reason = .locate then w.executeLocate row env else w.executeLocation row env
  | .copy start, none => w.copyBatch row env start
  | .move, none => w.publishMove row env
  | .clean index, none => w.cleanEntry row env index
  | .finish, none => w.finishOperation row env .cleanup w.journal

end Worker

inductive CommandAction where
  | planMove | analyzeLocation | applyMove | applyLocation | retryStorage | cancelStorage
  | reconcileStorage
  | other (text : String)
deriving DecidableEq

structure StorageCommand where
  action : CommandAction
  recordID : String
  version : Nat
deriving DecidableEq

structure PendingCommand where
  cmd : StorageCommand
  record : Option RecoveryRecord
deriving DecidableEq

/-- The answers to a command: its other checks pass, the journal decodes, the same plan exists, the
mapping fence holds, and what a plan moves and where. -/
structure CommandEnv where
  accepted : Bool := true
  decoded : Bool := true
  samePlan : Bool := false
  fenced : Bool := true
  source : Option StorageMapping := none
  target : Layout := ⟨0, [], []⟩
  sourceRoot : String := ""
deriving DecidableEq

namespace PendingCommand

variable (c : PendingCommand) (row : Option RecoveryRecord) (env : CommandEnv)

def replaceable (r : RecoveryRecord) : Bool :=
  r.reason == .recoveryComplete ||
    (r.reason == .move || r.reason == .locate) &&
      (r.stage == .planned || r.stage == .planning || r.stage == .analyzed ||
        r.stage == .analyzingLocation || r.stage == .completed || r.stage == .cancelled)

def planOperation (reason : RecoveryReason) (stage : Stage) : Option RecoveryRecord :=
  let allowed := match c.record with
    | none => c.cmd.version == 0
    | some r => r.recordID == c.cmd.recordID && replaceable r && c.cmd.version == r.version
  if !allowed || env.samePlan then row
  else
    let previous := (c.record.map RecoveryRecord.version).getD 0
    let v : RecoveryRecord :=
      { recordID := c.cmd.recordID, version := previous + 1, reason, stage,
        journal := { source := env.source, target := env.target, sourceRoot := env.sourceRoot } }
    (createStorageOperation row v previous env.fenced).orElse fun _ => row

/-- Write the journal that was read back under `stage`. -/
def writeBack (r : RecoveryRecord) (stage : Stage) : Option RecoveryRecord :=
  (transitionStorageOperation row { r with stage, error := "", failureCode := "" } r.stage
    env.fenced).orElse fun _ => row

def applyOperation (r : RecoveryRecord) (action : CommandAction) : Option RecoveryRecord :=
  if action = .applyLocation && !locationMatches r.journal.analysis then row
  else if decide (action = .applyMove) != decide (r.reason = .move) then row
  else if r.stage ≠ .planned ∧ r.stage ≠ .analyzed then row
  else if r.error ≠ "" then row
  else
    (transitionStorageOperation row { r with stage := .queued } r.stage env.fenced).orElse
      fun _ => row

def cancelOperation (r : RecoveryRecord) : Option RecoveryRecord :=
  match r.stage with
  | .publishing | .published | .committed | .cleanup | .completed | .cancelled => row
  | _ => writeBack row env r .cancelRequested

def retryOperation (r : RecoveryRecord) : Option RecoveryRecord :=
  if r.stage = .completed ∨ r.stage = .cancelled then row else writeBack row env r r.stage

/-- The rest of `StorageCommand` after its read of the row. -/
def execute : Option RecoveryRecord :=
  if !env.accepted then row
  else
    match c.cmd.action with
    | .reconcileStorage => row
    | .planMove => c.planOperation row env .move .planning
    | .analyzeLocation => c.planOperation row env .locate .analyzingLocation
    | action =>
      match c.record with
      | none => row
      | some r =>
        if r.recordID != c.cmd.recordID || r.version != c.cmd.version ||
            (r.reason != .move && r.reason != .locate) || !env.decoded then row
        else
          match action with
          | .applyMove | .applyLocation => applyOperation row env r action
          | .retryStorage => retryOperation row env r
          | .cancelStorage => cancelOperation row env r
          | _ => row

end PendingCommand

/-- The row of one record. One worker runs at a time, and a command holds the record lock from its
read to its write. -/
structure MoveState where
  row : Option RecoveryRecord := none
  worker : Option Worker := none
  command : Option PendingCommand := none
deriving DecidableEq

/-- `start` is the locked beginning of `processLocation`, with the failure, if any, of its checks of
the journal and the mapping. -/
inductive MoveAction where
  | start (invalid : Option Failure)
  | work (env : WorkerEnv)
  | read (cmd : StorageCommand)
  | write (env : CommandEnv)
  | crash

namespace MoveState

def startWorker (s : MoveState) (invalid : Option Failure) : MoveState :=
  match s.worker, s.command, s.row with
  | none, none, some r =>
    if (r.reason = .move ∨ r.reason = .locate) ∧ r.error = "" then
      let point : Point := invalid.elim .loop (.failing r)
      { s with worker := some { v := r, journal := r.journal, point } }
    else s
  | _, _, _ => s

def step (s : MoveState) : MoveAction → MoveState
  | .start invalid => s.startWorker invalid
  | .work env =>
    match s.worker with
    | none => s
    | some w => { s with row := (w.step s.row env).1, worker := (w.step s.row env).2 }
  | .read cmd =>
    match s.command with
    | some _ => s
    | none => { s with command := some ⟨cmd, s.row⟩ }
  | .write env =>
    match s.command with
    | none => s
    | some c => { s with row := c.execute s.row env, command := none }
  | .crash => { s with worker := none, command := none }

end MoveState

end TorrentHub
