import TorrentHub.Repository.Deletion
import TorrentHub.Lib.Run

namespace TorrentHub

open Lib

inductive DeletionCommand where
  | beginForget
  | checkPayload
  | beginCleanup (paths : List String)
  | saveCleanup (paths : List String)
  | detach
  | advance (stage : DeletionStage) (removed : Option RemovedData)
  | gate (path : Option String)
  | unlink (path : String)
  | markPartial
  | deleteRow
  | complete (version : Nat)
deriving DecidableEq

/-- `modeSet` is `deletion_mode` set from empty, `commanded` an explicit command for the run intent.
-/
inductive DeletionEvent where
  | modeSet
  | requested
  | completed
  | advanced
  | gated (path : Option String)
  | unlinked (path : String)
  | deleted
  | commanded
deriving DecidableEq

/-- One record and the goroutine that holds its lock. `waiting` are the cancellations that have made
their request and wait for the lock; the latest event is first. -/
structure DeletionState where
  record : Option DeletionRecord
  holder : Option (List DeletionCommand) := none
  removedAny : Bool := false
  waiting : List Nat := []
  log : List DeletionEvent := []
deriving DecidableEq

inductive DeletionOutcome where
  | done
  | absent
  | failed
deriving DecidableEq

/-- `paths` are what the metadata says of the payload before and after the runtime was
detached. -/
inductive DeletionAction where
  | delete (deleteFiles : Bool) (paths final : List String) (admitted : Bool)
  | retryDeletion (version : Nat) (paths final : List String) (admitted : Bool)
  | forgetRecovered (version : Nat) (admitted : Bool)
  | requestCancel (version : Nat)
  | joinCancel (version : Nat)
  | work (outcome : DeletionOutcome)
  | crash
  | command (paused : Bool)
deriving DecidableEq

def recoveryBlocksDeletion : Option DeletionRow → Bool
  | none => false
  | some row =>
    match row.reason, row.stage with
    | .cancelled, _ => true
    | _, .cancelRequested => true
    | _, .other blocks => blocks
    | _, _ => false

def refusesDeletion : Option DeletionRow → Bool
  | none => false
  | some row =>
    recoveryBlocksDeletion (some row) && !(row.reason == .cancelled && row.stage == .cancelled) &&
      row.reason != .pending

def removePaths (paths : List String) : List DeletionCommand :=
  (paths.flatMap fun p => [p, p ++ ".part"]).flatMap fun p => [.gate (some p), .unlink p]

/-- `deletePayloadLocked`: the paths of a ready manifest are removed; otherwise it is written around
the detaching. -/
def deletePayload (r : DeletionRecord) (paths final : List String) : List DeletionCommand :=
  let remove (owned : List String) : List DeletionCommand :=
    .advance .manifestReady none :: .advance .removing (some .unknown) :: removePaths owned ++
      [.advance .removingRecord none, .deleteRow]
  match r.manifest with
  | some (owned, true) =>
    .checkPayload :: .detach :: .advance .runtimeStopped none :: remove owned
  | _ =>
    .checkPayload :: .beginCleanup paths :: .detach :: .advance .runtimeStopped none ::
      .saveCleanup final :: remove final

namespace DeletionState

/-- The checks of `Delete`; `admitted` stands for those of leases, mappings and resume data. -/
def delete (r : DeletionRecord) (deleteFiles : Bool) (paths final : List String)
    (admitted : Bool) : Option (List DeletionCommand) :=
  if r.mode = .keep ∧ deleteFiles ∨ r.mode = .payload ∧ ¬ deleteFiles then none
  else if !admitted || refusesDeletion r.recovery then none
  else if deleteFiles then some (deletePayload r paths final)
  else
    some [.beginForget, .detach, .advance .removingRecord none, .gate none, .deleteRow]

def expected (r : DeletionRecord) (version : Nat) : Option DeletionRow :=
  r.recovery.filter fun row => row.version = version

def retryDeletion (r : DeletionRecord) (version : Nat) (paths final : List String)
    (admitted : Bool) : Option (List DeletionCommand) :=
  match expected r version with
  | none => none
  | some row =>
    if row.reason ≠ .pending ∨ row.stage = .cancelRequested then none
    else if !admitted then none
    else
      match r.mode with
      | .payload => some (deletePayload r paths final)
      | .keep => some [.detach, .gate none, .deleteRow]
      | .none => none

def forgetRecovered (r : DeletionRecord) (version : Nat) (admitted : Bool) :
    Option (List DeletionCommand) :=
  match expected r version with
  | none => none
  | some row =>
    if row.reason ≠ .cancelled ∨ row.stage ≠ .cancelled then none
    else if !admitted then none
    else some [.beginForget, .detach, .deleteRow]

/-- The locked part of `CancelDeletion`. -/
def joinCancel (r : DeletionRecord) (version : Nat) : Option (List DeletionCommand) :=
  match expected r version with
  | none => none
  | some _ => some [.detach, .complete version]

def enter (s : DeletionState) (checks : DeletionRecord → Option (List DeletionCommand)) :
    DeletionState :=
  match s.holder, s.record with
  | none, some r =>
    match checks r with
    | some commands => { s with holder := some commands, removedAny := false }
    | none => s
  | _, _ => s

def leave (s : DeletionState) : DeletionState := { s with holder := none }

/-- A statement that sets `deletion_mode`. -/
def setMode (s : DeletionState) (r : DeletionRecord) (stored : Option DeletionRecord)
    (rest : List DeletionCommand) : DeletionState :=
  match stored with
  | none => s.leave
  | some r' =>
    { s with
      record := some r', holder := some rest
      log := if r.mode = .none then .modeSet :: s.log else s.log }

def perform (s : DeletionState) (r : DeletionRecord) (outcome : DeletionOutcome)
    (rest : List DeletionCommand) : DeletionCommand → DeletionState
  | .beginForget => s.setMode r r.beginForget rest
  | .checkPayload =>
    if r.mode = .keep ∨ recoveryBlocksDeletion r.recovery then s.leave
    else { s with holder := some rest }
  | .beginCleanup paths => s.setMode r (r.writeCleanupPaths paths false) rest
  | .saveCleanup paths => s.setMode r (r.writeCleanupPaths paths true) rest
  | .detach => { s with holder := some rest }
  | .advance stage removed =>
    match r.advanceDeletion stage removed with
    | none => s.leave
    | some r' => { s with record := some r', holder := some rest, log := .advanced :: s.log }
  | .gate path =>
    if r.deletionGate then { s with holder := some rest, log := .gated path :: s.log }
    else s.leave
  | .unlink path =>
    if outcome = .absent then { s with holder := some rest }
    else
      { s with
        holder := some (if s.removedAny then rest else .markPartial :: rest)
        removedAny := true
        log := .unlinked path :: s.log }
  | .markPartial => { s with record := some r.markDeletionPartial, holder := some rest }
  | .deleteRow =>
    if r.deletable then { s with record := none, holder := none, log := .deleted :: s.log }
    else s.leave
  | .complete version =>
    match r.completeDeletionCancel version with
    | none => s.leave
    | some r' => { s with record := some r', holder := none, log := .completed :: s.log }

def work (s : DeletionState) (outcome : DeletionOutcome) : DeletionState :=
  match s.holder, s.record with
  | some (command :: rest), some r =>
    if outcome = .failed then s.leave else s.perform r outcome rest command
  | _, _ => s.leave

/-- The part of `CancelDeletion` that needs no lock. -/
def requestCancel (s : DeletionState) (version : Nat) : DeletionState :=
  match s.record with
  | none => s
  | some r =>
    match r.requestDeletionCancel version with
    | none => s
    | some r' =>
      { s with
        record := some r', waiting := version :: s.waiting, log := .requested :: s.log }

def step (s : DeletionState) : DeletionAction → DeletionState
  | .delete deleteFiles paths final admitted =>
    s.enter fun r => delete r deleteFiles paths final admitted
  | .retryDeletion version paths final admitted =>
    s.enter fun r => retryDeletion r version paths final admitted
  | .forgetRecovered version admitted => s.enter fun r => forgetRecovered r version admitted
  | .requestCancel version => s.requestCancel version
  | .joinCancel version =>
    if version ∈ s.waiting then s.enter fun r => joinCancel r version else s
  | .work outcome => s.work outcome
  | .crash => s.leave
  | .command paused =>
    match s.record with
    | none => s
    | some r => { s with record := some { r with paused }, log := .commanded :: s.log }

/-- A record that no deletion has touched, with whatever another operation left in its recovery
row. -/
def start (paused : Bool) (earlier : Option (Nat × Bool)) : DeletionState where
  record := some
    { mode := .none, manifest := none, paused
      recovery := earlier.map fun (version, blocks) => ⟨version, .other, .other blocks, .unknown⟩ }

def run (paused : Bool) (earlier : Option (Nat × Bool)) (actions : List DeletionAction) :
    DeletionState := exec step (start paused earlier) actions

end DeletionState

end TorrentHub
