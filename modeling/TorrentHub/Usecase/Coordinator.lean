import Mathlib.Data.List.Sort
import Mathlib.Data.String.Basic
import TorrentHub.Lib.Registry
import TorrentHub.Lib.Run

namespace TorrentHub

open Lib

inductive CommandMode where
  | plain
  | trying
  | drain (d : Nat)
deriving DecidableEq

/-- The life of one acquisition: in the select, with the permit at the first and then the second
check, a reservation, about to put the permit back, about to drop its reference, and over. -/
inductive SlotPhase where
  | waiting
  | taken
  | checked
  | reserved
  | returning
  | settling
  | over
deriving DecidableEq

structure Slot where
  key : String
  entry : Nat
  mode : CommandMode
  caller : Nat
  phase : SlotPhase
deriving DecidableEq

/-- Where a call stands: before its next key, past the first look at its context, waiting for the
slot of its key, releasing because of an error, or returned with its reservations or an error. -/
inductive CallPoint where
  | next
  | entering
  | awaiting (slot : Nat)
  | failing
  | holding
  | failed
deriving DecidableEq

/-- `todo` has the keys that are still to be acquired, the present one included, and `held` the
reservations so far. -/
structure KeyCall where
  goroutine : Nat
  mode : CommandMode
  cancelled : Bool
  todo : List String
  held : List Nat
  point : CallPoint
deriving DecidableEq

structure CoordinatorDrain where
  cancelled : Bool
  closed : Bool
deriving DecidableEq

/-- All calls, slots and drain capabilities there have been. `cancelled` is the context, and
`drainedCloses` counts the closings of the drained channel. -/
structure Coordinator where
  registry : Registry String := {}
  slots : List Slot := []
  calls : List KeyCall := []
  cancelled : Bool := false
  closed : Bool := false
  drainClosed : Bool := false
  drainedCloses : Nat := 0
  drainOwner : Option Nat := none
  drains : List CoordinatorDrain := []

inductive AcquireRequest where
  | acquire (key : String)
  | tryAcquire (key : String)
  | acquireKeys (keys : List String)
  | drainAcquire (d : Nat) (key : String)
  | drainAcquireKeys (d : Nat) (keys : List String)
deriving DecidableEq

def skipRepeats (last : Option String) : List String → List String
  | [] => []
  | key :: keys =>
    if last = some key then skipRepeats (some key) keys
    else key :: skipRepeats (some key) keys

def AcquireRequest.keys : AcquireRequest → List String
  | .acquire key | .tryAcquire key | .drainAcquire _ key => [key]
  | .acquireKeys keys | .drainAcquireKeys _ keys =>
    skipRepeats none (keys.insertionSort (· ≤ ·))

def AcquireRequest.mode : AcquireRequest → CommandMode
  | .acquire _ | .acquireKeys _ => .plain
  | .tryAcquire _ => .trying
  | .drainAcquire d _ | .drainAcquireKeys d _ => .drain d

inductive CoordinatorAction where
  | call (goroutine : Nat) (request : AcquireRequest)
  | cancelCall (t : Nat)
  | advance (t : Nat)
  | takePermit (i : Nat)
  | giveUp (i : Nat)
  | attend (i : Nat)
  | release (i : Nat)
  | cancelParent
  | close
  | issueDrain
  | cancelDrain (d : Nat)
  | finish (d : Nat)
deriving DecidableEq

namespace Coordinator

def setCall (c : Coordinator) (t : Nat) (call : KeyCall) : Coordinator :=
  { c with calls := c.calls.set t call }

def setPhase (c : Coordinator) (i : Nat) (slot : Slot) (phase : SlotPhase) : Coordinator :=
  { c with slots := c.slots.set i { slot with phase } }

def callCancelled (c : Coordinator) (t : Nat) : Bool :=
  match c.calls[t]? with
  | some call => call.cancelled
  | none => false

def drainCancelled (c : Coordinator) (d : Nat) : Bool :=
  match c.drains[d]? with
  | some drain => drain.cancelled
  | none => false

def drainValid (c : Coordinator) (d : Nat) : Bool :=
  match c.drains[d]? with
  | some drain => !drain.closed && c.drainOwner == some d
  | none => false

def admits (c : Coordinator) : CommandMode → Bool
  | .plain | .trying => !(c.closed || c.cancelled)
  | .drain d => !c.drainCancelled d && c.drainValid d

def canGiveUp (c : Coordinator) (slot : Slot) : Bool :=
  match slot.mode with
  | .plain => c.callCancelled slot.caller || c.cancelled
  | .trying => !(c.registry.heap slot.entry).permit
  | .drain d => c.callCancelled slot.caller || c.drainCancelled d

def firstCheck (c : Coordinator) (slot : Slot) : Bool :=
  match slot.mode with
  | .plain => !c.callCancelled slot.caller
  | .trying => true
  | .drain d => c.drainValid d && !c.callCancelled slot.caller

def secondCheck (c : Coordinator) (slot : Slot) : Bool :=
  match slot.mode with
  | .plain | .trying => !c.cancelled
  | .drain d => !c.drainCancelled d

def closeDrained (c : Coordinator) : Coordinator :=
  if c.closed ∧ c.registry.refs = 0 ∧ c.drainClosed = false then
    { c with drainClosed := true, drainedCloses := c.drainedCloses + 1 }
  else c

def reference (c : Coordinator) (t : Nat) (call : KeyCall) (key : String) : Coordinator :=
  { c with
    registry := (c.registry.reference key).1
    slots := c.slots ++ [⟨key, (c.registry.reference key).2, call.mode, t, .waiting⟩]
    calls := c.calls.set t { call with point := .awaiting c.slots.length } }

def unreference (c : Coordinator) (i : Nat) (slot : Slot) : Coordinator :=
  closeDrained
    { c with
      registry := c.registry.unreference slot.key slot.entry
      slots := c.slots.set i { slot with phase := .over } }

def call (c : Coordinator) (goroutine : Nat) (request : AcquireRequest) : Coordinator :=
  { c with calls := c.calls ++ [⟨goroutine, request.mode, false, request.keys, [], .next⟩] }

def advance (c : Coordinator) (t : Nat) : Coordinator :=
  match c.calls[t]? with
  | none => c
  | some call =>
    match call.point with
    | .next =>
      match call.todo with
      | [] => c.setCall t { call with point := .holding }
      | _ :: _ =>
        if call.cancelled ∧ call.mode ≠ .trying then c.setCall t { call with point := .failing }
        else c.setCall t { call with point := .entering }
    | .entering =>
      match call.todo with
      | [] => c
      | key :: _ =>
        if c.admits call.mode then c.reference t call key
        else c.setCall t { call with point := .failing }
    | .awaiting i =>
      match c.slots[i]? with
      | none => c
      | some slot =>
        match slot.phase with
        | .reserved =>
          c.setCall t { call with held := call.held ++ [i], todo := call.todo.tail, point := .next }
        | .over => c.setCall t { call with point := .failing }
        | _ => c
    | .failing =>
      match call.held.getLast? with
      | none => c.setCall t { call with point := .failed }
      | some i =>
        match c.slots[i]? with
        | none => c
        | some slot =>
          match slot.phase with
          | .reserved => c.setPhase i slot .returning
          | .over => c.setCall t { call with held := call.held.dropLast }
          | _ => c
    | .holding => c
    | .failed => c

def takePermit (c : Coordinator) (i : Nat) : Coordinator :=
  match c.slots[i]? with
  | some slot =>
    if slot.phase = .waiting ∧ (c.registry.heap slot.entry).permit then
      { c with
        registry := c.registry.take slot.entry
        slots := c.slots.set i { slot with phase := .taken } }
    else c
  | none => c

def giveUp (c : Coordinator) (i : Nat) : Coordinator :=
  match c.slots[i]? with
  | some slot =>
    if slot.phase = .waiting ∧ c.canGiveUp slot then c.setPhase i slot .settling else c
  | none => c

/-- The next step past a select, or past the once of a release. Putting the permit back waits while
the channel is full. -/
def attend (c : Coordinator) (i : Nat) : Coordinator :=
  match c.slots[i]? with
  | none => c
  | some slot =>
    match slot.phase with
    | .taken => c.setPhase i slot (if c.firstCheck slot then .checked else .returning)
    | .checked => c.setPhase i slot (if c.secondCheck slot then .reserved else .returning)
    | .returning =>
      if (c.registry.heap slot.entry).permit then c
      else
        { c with
          registry := c.registry.give slot.entry
          slots := c.slots.set i { slot with phase := .settling } }
    | .settling => c.unreference i slot
    | _ => c

def release (c : Coordinator) (i : Nat) : Coordinator :=
  match c.slots[i]? with
  | some slot =>
    match c.calls[slot.caller]? with
    | some call =>
      if slot.phase = .reserved ∧ call.point = .holding then c.setPhase i slot .returning else c
    | none => c
  | none => c

def close (c : Coordinator) : Coordinator :=
  if c.closed then c else closeDrained { c with closed := true, cancelled := true }

/-- The second critical section of `beginDrain`, after `close` has returned because the drained
channel is closed. -/
def issueDrain (c : Coordinator) : Coordinator :=
  if c.drainClosed ∧ c.drainOwner = none then
    { c with drainOwner := some c.drains.length, drains := c.drains ++ [⟨false, false⟩] }
  else c

def finish (c : Coordinator) (d : Nat) : Coordinator :=
  match c.drains[d]? with
  | some drain =>
    if c.registry.refs ≠ 0 then c
    else { c with drains := c.drains.set d { drain with closed := true } }
  | none => c

def step (c : Coordinator) : CoordinatorAction → Coordinator
  | .call goroutine request => c.call goroutine request
  | .cancelCall t =>
    match c.calls[t]? with
    | some call => c.setCall t { call with cancelled := true }
    | none => c
  | .advance t => c.advance t
  | .takePermit i => c.takePermit i
  | .giveUp i => c.giveUp i
  | .attend i => c.attend i
  | .release i => c.release i
  | .cancelParent => { c with cancelled := true }
  | .close => c.close
  | .issueDrain => c.issueDrain
  | .cancelDrain d =>
    match c.drains[d]? with
    | some drain => { c with drains := c.drains.set d { drain with cancelled := true } }
    | none => c
  | .finish d => c.finish d

def run (actions : List CoordinatorAction) : Coordinator := exec step {} actions

end Coordinator

end TorrentHub
