import TorrentHub.Lib.Run

namespace TorrentHub

def maxPendingOwners : Nat := 64

def maxOwnerLength : Nat := 256

structure SealRequest where
  owner : String
  dirty : Bool
deriving DecidableEq

/-- Where the worker stands between critical sections: `drain` tells the batch of the shutdown from
that of a tick, `left` counts its rounds. -/
inductive SealPoint where
  | top
  | waiting
  | begin (drain : Bool)
  | next (drain : Bool) (left : Nat)
  | checked (drain : Bool) (left : Nat)
  | sealing (drain : Bool) (left : Nat) (owner : String)
  | sealed (drain : Bool) (left : Nat) (owner : String) (failed : Bool)
  | finishing
  | ended
  | panicked
deriving DecidableEq

/-- A mark that was accepted, the first shutdown, the start and the return of a callback, and the
closing of the done channel. -/
inductive SealEvent where
  | marked (owner : String)
  | shutdown
  | started (owner : String)
  | returned (owner : String) (failed : Bool)
  | done
deriving DecidableEq

structure SealWorker where
  owners : List SealRequest := []
  queue : List String := []
  closing : Bool := false
  drainCancelled : Bool := false
  jobCancelled : Bool := false
  point : SealPoint := .top
  log : List SealEvent := []
deriving DecidableEq

inductive SealAction where
  | markDirty (owner : String)
  | shutdown
  | cancelDrain
  | cancelJob
  | tick
  | work
  | returns (failed : Bool)
deriving DecidableEq

namespace SealWorker

def keys (s : SealWorker) : List String := s.owners.map (·.owner)

def setDirty (owners : List SealRequest) (owner : String) (dirty : Bool) : List SealRequest :=
  owners.map fun r => if r.owner = owner then { r with dirty } else r

def isDirty (owners : List SealRequest) (owner : String) : Bool :=
  owners.any fun r => r.owner == owner && r.dirty

def markDirty (s : SealWorker) (owner : String) : SealWorker :=
  if s.closing || owner == "" || decide (owner.utf8ByteSize > maxOwnerLength) then s
  else if owner ∈ s.keys then
    { s with owners := setDirty s.owners owner true, log := .marked owner :: s.log }
  else if s.owners.length ≥ maxPendingOwners then s
  else
    { s with
      owners := s.owners ++ [⟨owner, true⟩], queue := s.queue ++ [owner]
      log := .marked owner :: s.log }

def shutdown (s : SealWorker) : SealWorker :=
  if s.closing then s else { s with closing := true, log := .shutdown :: s.log }

/-- The batch of a shutdown runs under the context of the first shutdown, the others under the
job's. -/
def cancelled (s : SealWorker) (drain : Bool) : Bool :=
  if drain then s.drainCancelled else s.jobCancelled

def leave (s : SealWorker) (drain : Bool) : SealWorker :=
  { s with point := if drain then .finishing else .top }

def take (s : SealWorker) (drain : Bool) (left : Nat) : SealWorker :=
  if !drain && s.closing then s.leave drain
  else
    match s.queue with
    | [] => { s with point := .panicked }
    | owner :: queue =>
      if owner ∈ s.keys then
        { s with
          owners := setDirty s.owners owner false, queue, point := .sealing drain left owner
          log := .started owner :: s.log }
      else { s with point := .panicked }

def settle (s : SealWorker) (drain : Bool) (left : Nat) (owner : String) (failed : Bool) :
    SealWorker :=
  if failed || isDirty s.owners owner then
    { s with queue := s.queue ++ [owner], point := .next drain left }
  else
    { s with owners := s.owners.filter fun r => r.owner ≠ owner, point := .next drain left }

def work (s : SealWorker) : SealWorker :=
  match s.point with
  | .top => { s with point := if s.closing then .begin true else .waiting }
  | .waiting => if s.closing then { s with point := .top } else s
  | .begin drain => { s with point := .next drain s.queue.length }
  | .next drain 0 => s.leave drain
  | .next drain (left + 1) =>
    if s.cancelled drain then s.leave drain else { s with point := .checked drain left }
  | .checked drain left => s.take drain left
  | .sealed drain left owner failed => s.settle drain left owner failed
  | .finishing => { s with point := .ended, log := .done :: s.log }
  | .sealing _ _ _ | .ended | .panicked => s

def step (s : SealWorker) : SealAction → SealWorker
  | .markDirty owner => s.markDirty owner
  | .shutdown => s.shutdown
  | .cancelDrain => if s.closing then { s with drainCancelled := true } else s
  | .cancelJob => if s.drainCancelled then { s with jobCancelled := true } else s
  | .tick => if s.point = .waiting then { s with point := .begin false } else s
  | .work => s.work
  | .returns failed =>
    match s.point with
    | .sealing drain left owner =>
      { s with point := .sealed drain left owner failed, log := .returned owner failed :: s.log }
    | _ => s

def run (as : List SealAction) : SealWorker := Lib.exec step {} as

end SealWorker

end TorrentHub
