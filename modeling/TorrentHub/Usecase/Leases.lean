import TorrentHub.Lib.Run
import TorrentHub.Lib.Table

namespace TorrentHub

open Lib

/-- The stage of a move or locate, as leases see it: `idle` is none, one in planning, and one that
is over; `preparing` is `prepared` and `copying`, which can be cancelled, `publishing` every later
stage. -/
inductive OperationStage where
  | idle
  | queued
  | waitingReaders
  | preparing
  | publishing
  | cancelRequested
deriving DecidableEq

def OperationStage.blocks : OperationStage → Bool
  | .idle => false
  | _ => true

structure LeaseRow where
  hash : String
  record : Nat
  temporary : Bool
  stage : OperationStage
  attached : Bool
deriving DecidableEq

/-- The torrents in the order of `torrent_order`. -/
abbrev LeaseTable := Table LeaseRow String LeaseRow.hash fun _ => true

structure TransferLease where
  hash : String
  record : Nat
  playback : Bool
  released : Bool
deriving DecidableEq

inductive RecordHolder where
  | granting (record : Nat) (playback : Bool)
  | deleting
  | cleaning
deriving DecidableEq

/-- Where the cleanup pass stands, with its variables `queue` and `limit`. -/
inductive CleanerPoint where
  | idle
  | limited (limit : Nat)
  | scanning (queue : List String) (limit : Nat)
  | locked (hash : String)
  | reread (hash : String) (queue : List String)
  | longer (hash : String) (queue : List String) (limit : Nat)
  | evicting (hash : String) (queue : List String) (limit : Nat)
  | evicted (hash : String) (queue : List String) (limit : Nat)
deriving DecidableEq

/-- `clear` is after the worker has seen no reader, and `leaving` after `executeLocation` or
`executeLocate` has returned. -/
inductive LocationPoint where
  | queued
  | waiting
  | clear
  | detached
  | preparing
  | publishing
  | leaving
deriving DecidableEq

def OperationStage.entry : OperationStage → LocationPoint
  | .idle => .leaving
  | .queued => .queued
  | .waitingReaders => .waiting
  | .preparing => .preparing
  | .publishing => .publishing
  | .cancelRequested => .leaving

structure LocationWorker where
  hash : String
  record : Nat
  point : LocationPoint
deriving DecidableEq

structure LeaseState where
  rows : LeaseTable := Table.empty
  nextRecord : Nat := 0
  transfers : String → Int := fun _ => 0
  transferRecords : String → Option Nat := fun _ => none
  protectedUntil : String → Option Nat := fun _ => none
  now : Nat := 0
  limit : Nat
  leases : List TransferLease := []
  locks : String → Option RecordHolder := fun _ => none
  cleaner : CleanerPoint := .idle
  worker : Option LocationWorker := none

/-- `streaming` says whether there is an active stream of the hash, `admitted` and `ok` stand for
everything else that can refuse or fail. -/
inductive LeaseAction where
  | add (hash : String) (temporary : Bool)
  | attach (hash : String)
  | makePermanent (hash : String)
  | setTemporaryLimit (limit : Nat)
  | tick
  | acquireTransfer (hash : String) (playback admitted : Bool)
  | grant (hash : String)
  | release (lease : Nat)
  | delete (hash : String) (streaming admitted : Bool)
  | deleteRecord (hash : String) (ok : Bool)
  | cancelDeletion (hash : String)
  | startCleanup
  | clean (streaming ok : Bool)
  | queueOperation (hash : String)
  | cancelOperation (hash : String)
  | startWorker (hash : String)
  | work (streaming ok : Bool)
deriving DecidableEq

def debounceDelay : Nat := 10

namespace LeaseState

variable (s : LeaseState)

def temporaryQueue : List String := (s.rows.rows.filter (·.temporary)).map (·.hash)

def transferProtected (hash : String) (streaming : Bool) : Bool :=
  decide (0 < s.transfers hash) ||
    (match s.protectedUntil hash with
      | some t => decide (s.now < t)
      | none => false) || streaming

def setLock (hash : String) (holder : Option RecordHolder) : LeaseState :=
  { s with locks := Function.update s.locks hash holder }

def adjust (hash : String) (f : LeaseRow → LeaseRow) (hf : ∀ r, (f r).hash = r.hash) :
    LeaseState :=
  { s with rows := s.rows.adjust (fun r => r.hash == hash) f hf }

def setStage (hash : String) (stage : OperationStage) : LeaseState :=
  s.adjust hash (fun r => { r with stage }) fun _ => rfl

def remove (hash : String) : LeaseState :=
  { s with rows := s.rows.remove fun r => r.hash == hash }

def add (hash : String) (temporary : Bool) : LeaseState :=
  if (s.locks hash).isSome || (s.rows.find hash).isSome then s
  else
    { s with
      rows := s.rows.put ⟨hash, s.nextRecord, temporary, .idle, true⟩
      nextRecord := s.nextRecord + 1 }

/-- `acquireTransfer` up to its section under `policyMu`. -/
def acquireTransfer (hash : String) (playback admitted : Bool) : LeaseState :=
  match s.locks hash, s.rows.find hash with
  | none, some row =>
    if row.stage.blocks || !admitted then s
    else s.setLock hash (some (.granting row.record playback))
  | _, _ => s

/-- The section under `policyMu`, and the return with the lease. -/
def grant (hash : String) : LeaseState :=
  match s.locks hash with
  | some (.granting record playback) =>
    let known := s.transferRecords hash = some record
    { s.setLock hash none with
      transfers := Function.update s.transfers hash (if known then s.transfers hash + 1 else 1)
      protectedUntil := Function.update s.protectedUntil hash
        (if known then s.protectedUntil hash else none)
      transferRecords := Function.update s.transferRecords hash (some record)
      leases := s.leases ++ [⟨hash, record, playback, false⟩] }
  | _ => s

def release (i : Nat) : LeaseState :=
  match s.leases[i]? with
  | none => s
  | some lease =>
    if lease.released then s
    else if s.transferRecords lease.hash = some lease.record then
      { s with
        leases := s.leases.set i { lease with released := true }
        transfers := Function.update s.transfers lease.hash (s.transfers lease.hash - 1)
        protectedUntil := if lease.playback then
            Function.update s.protectedUntil lease.hash (some (s.now + debounceDelay))
          else s.protectedUntil }
    else { s with leases := s.leases.set i { lease with released := true } }

/-- `Delete`, `RetryDeletion` and `ForgetRecovered` up to their look at the leases. -/
def delete (hash : String) (streaming admitted : Bool) : LeaseState :=
  match s.locks hash, s.rows.find hash with
  | none, some _ =>
    if s.transferProtected hash streaming || !admitted then s
    else s.setLock hash (some .deleting)
  | _, _ => s

/-- The look at the operation comes earlier in the source; the lock keeps an idle operation idle
until here. -/
def deleteRecord (hash : String) (ok : Bool) : LeaseState :=
  match s.locks hash, s.rows.find hash with
  | some .deleting, some row =>
    if row.stage.blocks = false ∧ ok then (s.remove hash).setLock hash none
    else s.setLock hash none
  | some .deleting, none => s.setLock hash none
  | _, _ => s

/-- `CancelDeletion` drops the runtime and looks at no lease. -/
def cancelDeletion (hash : String) : LeaseState :=
  if (s.locks hash).isSome then s
  else s.adjust hash (fun r => { r with attached := false }) fun _ => rfl

def expired (hash : String) : Bool :=
  match s.protectedUntil hash with
  | some t => decide (t < s.now)
  | none => false

def startCleanup : LeaseState :=
  match s.cleaner with
  | .idle =>
    { s with
      protectedUntil := fun hash => if s.expired hash then none else s.protectedUntil hash
      transferRecords := fun hash =>
        if s.expired hash ∧ s.transfers hash = 0 then none else s.transferRecords hash
      cleaner := .limited s.limit }
  | _ => s

def giveUp (hash : String) : LeaseState := { s.setLock hash none with cleaner := .idle }

def clean (streaming ok : Bool) : LeaseState :=
  match s.cleaner with
  | .idle => s
  | .limited limit =>
    if ok then { s with cleaner := .scanning s.temporaryQueue limit }
    else { s with cleaner := .idle }
  | .scanning queue limit =>
    match queue with
    | [] => { s with cleaner := .idle }
    | hash :: _ =>
      if queue.length > limit ∧ s.locks hash = none then
        { s.setLock hash (some .cleaning) with cleaner := .locked hash }
      else { s with cleaner := .idle }
  | .locked hash =>
    if s.temporaryQueue.head? = some hash ∧ ok then
      { s with cleaner := .reread hash s.temporaryQueue }
    else s.giveUp hash
  | .reread hash queue =>
    if queue.length ≤ s.limit then s.giveUp hash
    else { s with cleaner := .longer hash queue s.limit }
  | .longer hash queue limit =>
    if s.transferProtected hash streaming then s.giveUp hash
    else { s with cleaner := .evicting hash queue limit }
  | .evicting hash queue limit =>
    match s.rows.find hash with
    | some row =>
      if row.temporary ∧ row.stage.blocks = false ∧ ok then
        { s.remove hash with cleaner := .evicted hash queue limit }
      else s.giveUp hash
    | none => s.giveUp hash
  | .evicted hash queue limit =>
    { s.setLock hash none with
      protectedUntil := Function.update s.protectedUntil hash none
      transferRecords := Function.update s.transferRecords hash
        (if s.transfers hash = 0 then none else s.transferRecords hash)
      cleaner := .scanning queue.tail limit }

/-- `apply_move` and `apply_location`. -/
def queueOperation (hash : String) : LeaseState :=
  match s.locks hash, s.rows.find hash with
  | none, some row => if row.stage = .idle then s.setStage hash .queued else s
  | _, _ => s

/-- `cancel_storage`, which a plan that is not applied yet also accepts. -/
def cancelOperation (hash : String) : LeaseState :=
  match s.locks hash, s.rows.find hash with
  | none, some row =>
    if row.stage = .publishing then s else s.setStage hash .cancelRequested
  | _, _ => s

/-- `processLocation` takes up an operation at the stage that the journal has. -/
def startWorker (hash : String) : LeaseState :=
  match s.worker, s.locks hash, s.rows.find hash with
  | none, none, some row =>
    { s with worker := some ⟨hash, row.record, row.stage.entry⟩ }
  | _, _, _ => s

/-- A transition is made only for the worker's record and from the stage that it believes in; the
worker leaves its loop otherwise. -/
def transition (w : LocationWorker) (expected next : OperationStage) (point : LocationPoint) :
    LeaseState :=
  match s.rows.find w.hash with
  | some row =>
    if row.record = w.record ∧ row.stage = expected then
      { s.setStage w.hash next with worker := some { w with point } }
    else { s with worker := some { w with point := .leaving } }
  | none => { s with worker := some { w with point := .leaving } }

/-- The end of `processLocation`: a requested cancellation is finished. -/
def leave (w : LocationWorker) (ok : Bool) : LeaseState :=
  match s.rows.find w.hash with
  | some row =>
    if row.record = w.record ∧ row.stage = .cancelRequested ∧ ok then
      { s.setStage w.hash .idle with worker := none }
    else { s with worker := none }
  | none => { s with worker := none }

/-- One step of `processLocation`; `ok` is false where the step fails or is cancelled. -/
def work (streaming ok : Bool) : LeaseState :=
  match s.worker with
  | none => s
  | some w =>
    match w.point with
    | .leaving => s.leave w ok
    | point =>
      if !ok then { s with worker := some { w with point := .leaving } }
      else
        match point with
        | .queued => s.transition w .queued .waitingReaders .waiting
        | .waiting =>
          if s.transferProtected w.hash streaming then s
          else { s with worker := some { w with point := .clear } }
        | .clear =>
          { s.adjust w.hash (fun r => { r with attached := false }) (fun _ => rfl) with
            worker := some { w with point := .detached } }
        | .detached => s.transition w .waitingReaders .preparing .preparing
        | .preparing => s.transition w .preparing .publishing .publishing
        | .publishing => s.transition w .publishing .idle .leaving
        | .leaving => s

def step (s : LeaseState) : LeaseAction → LeaseState
  | .add hash temporary => s.add hash temporary
  | .attach hash =>
    if (s.locks hash).isSome then s
    else s.adjust hash (fun r => { r with attached := true }) fun _ => rfl
  | .makePermanent hash =>
    if (s.locks hash).isSome then s
    else s.adjust hash (fun r => { r with temporary := false }) fun _ => rfl
  | .setTemporaryLimit limit => { s with limit }
  | .tick => { s with now := s.now + 1 }
  | .acquireTransfer hash playback admitted => s.acquireTransfer hash playback admitted
  | .grant hash => s.grant hash
  | .release i => s.release i
  | .delete hash streaming admitted => s.delete hash streaming admitted
  | .deleteRecord hash ok => s.deleteRecord hash ok
  | .cancelDeletion hash => s.cancelDeletion hash
  | .startCleanup => s.startCleanup
  | .clean streaming ok => s.clean streaming ok
  | .queueOperation hash => s.queueOperation hash
  | .cancelOperation hash => s.cancelOperation hash
  | .startWorker hash => s.startWorker hash
  | .work streaming ok => s.work streaming ok

def run (limit : Nat) (actions : List LeaseAction) : LeaseState :=
  exec step { limit } actions

end LeaseState

end TorrentHub
