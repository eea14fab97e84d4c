import Mathlib.Data.List.Basic

namespace TorrentHub

/-- The column `deletion_mode`; `none` is the empty text. -/
inductive DeletionMode where
  | none
  | keep
  | payload
deriving DecidableEq

/-- Why a recovery row is there. Every reason that is no deletion is `other`. -/
inductive DeletionReason where
  | pending
  | cancelled
  | other
deriving DecidableEq

/-- Of the stages of other operations only it matters whether they block the record. -/
inductive DeletionStage where
  | intent
  | runtimeStopped
  | manifestReady
  | removing
  | removingRecord
  | cancelRequested
  | cancelled
  | other (blocks : Bool)
deriving DecidableEq

inductive RemovedData where
  | none
  | unknown
  | part
deriving DecidableEq

structure DeletionRow where
  version : Nat
  reason : DeletionReason
  stage : DeletionStage
  removed : RemovedData
deriving DecidableEq

/-- `manifest` has the cleanup paths and whether they are ready, and is `none` for the empty text.
-/
structure DeletionRecord where
  mode : DeletionMode
  manifest : Option (List String × Bool)
  paused : Bool
  recovery : Option DeletionRow
deriving DecidableEq

namespace DeletionRecord

variable (r : DeletionRecord)

/-- The trigger `recovery_deletion_intent`: `deletion_mode` is set from empty. -/
def deletionIntent : Option DeletionRow :=
  match r.mode with
  | .none =>
    match r.recovery with
    | none => some ⟨1, .pending, .intent, .none⟩
    | some row => some ⟨row.version + 1, .pending, .intent, .none⟩
  | _ => r.recovery

def beginForget : Option DeletionRecord :=
  if r.mode = .payload then none
  else some { r with mode := .keep, manifest := some ([], true), recovery := r.deletionIntent }

/-- `BeginCleanup` and `SaveCleanupPaths`, which differ in `ready`. -/
def writeCleanupPaths (paths : List String) (ready : Bool) : Option DeletionRecord :=
  if r.mode = .keep then none
  else
    some { r with mode := .payload, manifest := some (paths, ready), recovery := r.deletionIntent }

def deletionGate : Bool :=
  match r.recovery with
  | some row => row.reason == .pending && row.stage != .cancelRequested && row.stage != .cancelled
  | none => false

def advanceDeletion (stage : DeletionStage) (removed : Option RemovedData) :
    Option DeletionRecord :=
  match r.recovery with
  | some row =>
    if row.reason = .pending ∧ row.stage ≠ .cancelRequested ∧ row.stage ≠ .cancelled then
      some { r with recovery := some { row with stage, removed := removed.getD row.removed } }
    else none
  | none => none

def markDeletionPartial : DeletionRecord :=
  match r.recovery with
  | some row =>
    if row.reason = .pending then { r with recovery := some { row with removed := .part } } else r
  | none => r

def requestDeletionCancel (version : Nat) : Option DeletionRecord :=
  match r.recovery with
  | some row =>
    if row.version = version ∧
        (row.reason = .pending ∨ row.reason = .cancelled ∧ row.stage = .cancelled) then
      some
        { r with
          recovery := some
            { row with stage := if row.stage = .cancelled then row.stage else .cancelRequested }
          paused := true }
    else none
  | none => none

def completeDeletionCancel (version : Nat) : Option DeletionRecord :=
  match r.recovery with
  | some row =>
    if row.version = version ∧ (row.stage = .cancelRequested ∨ row.stage = .cancelled) then
      some
        { r with
          recovery := some { row with reason := .cancelled, stage := .cancelled }
          mode := .none
          manifest := none }
    else none
  | none => none

def deletable : Bool :=
  r.mode = .none ||
    match r.recovery with
    | some row => row.stage != .cancelRequested
    | none => true

end DeletionRecord

end TorrentHub
