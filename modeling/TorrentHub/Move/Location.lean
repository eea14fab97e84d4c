import TorrentHub.Move.Machine
import TorrentHub.Repository.Layout

namespace TorrentHub
open Lib

def locationMappingMatches (m : Option StorageMapping) (j : StorageLocationJournal)
    (stage : Stage) : Bool :=
  match m, j.source with
  | some m, some source =>
    m.storageID == source.storageID &&
      if stage = .committed ∨ stage = .cleanup ∨ stage = .completed then
        m.revision == source.revision + 1 && m.layout == j.target
      else m.revision == source.revision && m.layout == source.layout
  | _, _ => false

def Stage.cancellable : Stage → Bool
  | .publishing | .published | .committed | .cleanup | .completed | .cancelled => false
  | _ => true

/-- A cancellation that is answered without an error: the operation was cancelled before, or
the request is written. -/
def PendingCommand.cancelAccepted (c : PendingCommand) (row : Option RecoveryRecord)
    (env : CommandEnv) : Bool :=
  env.accepted && c.cmd.action == .cancelStorage && env.decoded &&
    c.record.any fun r =>
      r.recordID == c.cmd.recordID && r.version == c.cmd.version &&
        (r.reason == .move || r.reason == .locate) &&
        (r.stage == .cancelled || r.stage.cancellable &&
          (transitionStorageOperation row
            { r with stage := .cancelRequested, error := "", failureCode := "" } r.stage
            env.fenced).isSome)

def Worker.commits (w : Worker) (row : Option RecoveryRecord) (env : WorkerEnv) : Bool :=
  w.point == .loop && env.failed.isNone && w.v.stage == .published &&
    (commitStorageOperation row w.v env.fenced).isSome

/-- The operation of one record beside the mapping rows. `held` is the mapping that
`processLocation` has read, `current` the one that its stages go on with, `looked` the one that a
command has read. -/
structure LocationState where
  hash : Bytes
  recordID : String
  deleting : Bool := false
  rows : List StorageMapping
  move : MoveState := {}
  held : Option StorageMapping := none
  current : Option StorageMapping := none
  looked : Option StorageMapping := none
deriving DecidableEq

/-- The mapping decides each fence; `fenced` in an environment only refuses a write for other
reasons, such as a reservation of another owner. -/
inductive LocationAction where
  | start (invalid : Option Failure)
  | work (env : WorkerEnv)
  | look
  | read (cmd : StorageCommand)
  | write (env : CommandEnv)
  | crash

namespace LocationState

def mapping (s : LocationState) : Option StorageMapping := mappingOf s.rows s.hash

def fence (s : LocationState) (m : Option StorageMapping) (id : String) : Bool :=
  m.any fun m =>
    checkStorageFence (s.mapping.map fun row => ⟨row, ascii s.recordID, s.deleting⟩) m (ascii id)

/-- The rows as `CommitStorageOperation` leaves them. It compares the journal's own source. -/
def relocated (s : LocationState) (w : Worker) : Option (List StorageMapping) :=
  w.journal.source.bind fun before =>
    if s.fence (some before) w.v.recordID then
      (setLayoutRows s.rows before w.journal.target).toOption
    else none

def workerFence (s : LocationState) (w : Worker) : Bool :=
  match w.point with
  | .cancelling read => s.fence s.held read.recordID
  | .failing read _ =>
    s.mapping.map StorageMapping.storageID == s.held.map StorageMapping.storageID &&
      s.fence s.mapping read.recordID
  | .loop =>
    if w.v.stage = .published then (s.relocated w).isSome else s.fence s.current w.v.recordID
  | _ => s.fence s.current w.v.recordID

def workEnv (s : LocationState) (w : Worker) (env : WorkerEnv) : WorkerEnv :=
  { env with fenced := env.fenced && s.workerFence w }

def start (s : LocationState) (invalid : Option Failure) : LocationState :=
  match s.move.worker, s.move.command, s.move.row, s.mapping with
  | none, none, some r, some m =>
    if s.recordID ≠ r.recordID ∨ s.deleting = true then s
    else
      let invalid :=
        if locationMappingMatches (some m) r.journal r.stage then invalid else some .conflict
      { s with move := s.move.step (.start invalid), held := some m, current := some m }
  | _, _, _, _ => s

def work (s : LocationState) (env : WorkerEnv) : LocationState :=
  match s.move.worker with
  | none => s
  | some w =>
    let env := s.workEnv w env
    let next := { s with move := s.move.step (.work env) }
    if w.commits s.move.row env then
      let next := { next with rows := (s.relocated w).getD s.rows }
      if env.boundary.isNone then { next with current := next.mapping } else next
    else next

section

variable (fold : Bytes → Bytes)

def planOverlaps (s : LocationState) (c : PendingCommand) (target : Layout) : Bool :=
  (c.cmd.action == .planMove || c.cmd.action == .analyzeLocation) &&
    s.looked.any fun m => overlap (collisionKey fold m.root) (collisionKey fold target.root)

def commandEnv (s : LocationState) (c : PendingCommand) (env : CommandEnv) : CommandEnv :=
  { env with
    accepted := env.accepted && s.looked.isSome && !s.planOverlaps fold c env.target
    fenced := env.fenced && s.fence s.looked c.cmd.recordID
    source := s.looked }

def step (s : LocationState) : LocationAction → LocationState
  | .start invalid => s.start invalid
  | .work env => s.work env
  | .look =>
    match s.move.command with
    | some _ => s
    | none => { s with looked := s.mapping }
  | .read cmd => { s with move := s.move.step (.read cmd) }
  | .write env =>
    match s.move.command with
    | none => s
    | some c => { s with move := s.move.step (.write (s.commandEnv fold c env)) }
  | .crash =>
    { s with move := s.move.step .crash, held := none, current := none, looked := none }

def publishes (s : LocationState) : LocationAction → Option Nat
  | .work _ => s.move.worker.bind fun w => if w.point = .move then some w.v.version else none
  | _ => none

def commitsMapping (s : LocationState) : LocationAction → Option Nat
  | .work env =>
    s.move.worker.bind fun w =>
      if w.commits s.move.row (s.workEnv w env) then some w.v.version else none
  | _ => none

def acceptsCancel (s : LocationState) : LocationAction → Option Nat
  | .write env =>
    s.move.command.bind fun c =>
      if c.cancelAccepted s.move.row (s.commandEnv fold c env) then some c.cmd.version else none
  | _ => none

def run (s : LocationState) (actions : List LocationAction) : LocationState :=
  exec (step fold) s actions

end

end LocationState

end TorrentHub
