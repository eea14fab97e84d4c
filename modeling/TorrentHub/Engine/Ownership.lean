import TorrentHub.Lib.Run
import TorrentHub.Lib.Table

namespace TorrentHub

open Lib

/-- How far the goroutine of a runtime has come: it persists the metainfo without the lock, has
published the runtime, waits for `Drop`, has to take the runtime out of the detaching map, or is
through. -/
inductive GenerationPoint where
  | persisting
  | managed
  | dropping
  | retiring
  | ended
deriving DecidableEq

/-- A managed torrent object. `raw` is the library's torrent. -/
structure Generation where
  hash : String
  raw : Nat
  point : GenerationPoint
deriving DecidableEq

structure OwnerRow where
  hash : String
  runtime : Nat
deriving DecidableEq

abbrev OwnerMap := Table OwnerRow String OwnerRow.hash fun _ => true

/-- A registration succeeded for its hash, or lost to an owner and did or did not drop its own raw
torrent. -/
inductive OwnershipEvent where
  | succeeded (hash : String) (raw : Nat)
  | lost (owner : Nat) (raw : Nat) (dropped : Bool)
deriving DecidableEq

/-- `lock` is the object whose registration goes on without having released the admission lock; the
latest event is first. -/
structure Ownership where
  generations : List Generation := []
  registering : OwnerMap := Table.empty
  managed : OwnerMap := Table.empty
  detaching : OwnerMap := Table.empty
  closedRaws : List Nat := []
  stopped : Bool := false
  lock : Option Nat := none
  log : List OwnershipEvent := []

/-- `pick` is the position at which the iteration over a map comes upon its conflicts. -/
inductive OwnershipAction where
  | register (raw : Nat) (identity : String) (hasInfo : Bool) (refused : Bool) (pick : Nat)
  | settle (runtime : Nat) (failed : Bool)
  | delete (hash : String)
  | dropped (runtime : Nat)
  | retire (runtime : Nat)
  | closeRaw (raw : Nat)
  | stop
deriving DecidableEq

namespace Ownership

variable (infoHash : Nat → String)

def rawOf (s : Ownership) (runtime : Nat) : Option Nat := (s.generations[runtime]?).map (·.raw)

def conflicts (s : Ownership) (hash : String) (raw : Nat) (row : OwnerRow) : Bool :=
  row.hash == hash || s.rawOf row.runtime == some raw ||
    (s.rawOf row.runtime).map infoHash == some (infoHash raw)

def loses (s : Ownership) (map : OwnerMap) (hash : String) (raw pick : Nat) : Option OwnerRow :=
  let owners := map.rows.filter (s.conflicts infoHash hash raw)
  owners[pick % owners.length]?

def setPoint (s : Ownership) (i : Nat) (g : Generation) (point : GenerationPoint) : Ownership :=
  { s with generations := s.generations.set i { g with point } }

/-- `delete` of a Go map. -/
def without (map : OwnerMap) (hash : String) : OwnerMap := map.remove fun row => row.hash == hash

def withoutOwn (map : OwnerMap) (hash : String) (i : Nat) : OwnerMap :=
  if map.find hash = some ⟨hash, i⟩ then without map hash else map

def requestedHash (raw : Nat) (identity : String) : String :=
  if identity = "" then infoHash raw else identity

def managedHash (s : Ownership) (hash : String) (raw : Nat) : String :=
  match s.managed.rows.find? fun row => s.rawOf row.runtime == some raw with
  | some row => row.hash
  | none => hash

def lose (s : Ownership) (owner : OwnerRow) (raw : Nat) : Ownership :=
  { s with log := .lost owner.runtime raw (s.rawOf owner.runtime != some raw) :: s.log }

/-- The first critical section of `registerTorrent`. -/
def register (s : Ownership) (raw : Nat) (identity : String) (hasInfo refused : Bool)
    (pick : Nat) : Ownership :=
  if s.lock.isSome || s.stopped || decide (raw ∈ s.closedRaws) then s
  else
    let hash := requestedHash infoHash raw identity
    match s.loses infoHash s.detaching hash raw pick with
    | some owner => s.lose owner raw
    | none =>
      match s.loses infoHash s.registering hash raw pick with
      | some owner => s.lose owner raw
      | none =>
        if (s.managed.find (s.managedHash hash raw)).isSome then
          { s with log := .succeeded hash raw :: s.log }
        else
          let i := s.generations.length
          if refused then
            { s with
              generations := s.generations ++ [⟨hash, raw, .dropping⟩]
              detaching := s.detaching.put ⟨hash, i⟩ }
          else
            { s with
              generations := s.generations ++ [⟨hash, raw, .persisting⟩]
              registering := s.registering.put ⟨hash, i⟩
              lock := if hasInfo then none else some i }

def discardRegistration (s : Ownership) (i : Nat) (g : Generation) : Ownership :=
  { s.setPoint i g .dropping with
    registering := withoutOwn s.registering g.hash i
    detaching := s.detaching.put ⟨g.hash, i⟩
    lock := none }

/-- The second critical section of `registerTorrent`, after the metainfo was persisted, if there is
any. -/
def settle (s : Ownership) (i : Nat) (failed : Bool) : Ownership :=
  match s.generations[i]? with
  | none => s
  | some g =>
    if g.point = .persisting ∧ (s.lock = none ∨ s.lock = some i) then
      if (failed ∧ s.lock = none) ∨ s.stopped ∨ g.raw ∈ s.closedRaws ∨
          s.registering.find g.hash ≠ some ⟨g.hash, i⟩ then
        s.discardRegistration i g
      else
        { s.setPoint i g .managed with
          registering := without s.registering g.hash
          managed := s.managed.put ⟨g.hash, i⟩
          lock := none
          log := .succeeded g.hash g.raw :: s.log }
    else s

/-- The first critical section of `Delete`. -/
def delete (s : Ownership) (hash : String) : Ownership :=
  if s.lock.isSome || s.stopped then s
  else if (s.detaching.find hash).isSome then s
  else if s.registering.rows.any fun row =>
      row.hash == hash || (s.rawOf row.runtime).map infoHash == some hash then s
  else
    match s.managed.find hash with
    | none => s
    | some row =>
      match s.generations[row.runtime]? with
      | none => s
      | some g =>
        { s.setPoint row.runtime g .dropping with
          managed := without s.managed hash
          detaching := s.detaching.put ⟨hash, row.runtime⟩ }

/-- The library's `Drop` has returned. -/
def dropped (s : Ownership) (i : Nat) : Ownership :=
  match s.generations[i]? with
  | none => s
  | some g =>
    if g.point = .dropping then
      { s.setPoint i g .retiring with closedRaws := g.raw :: s.closedRaws }
    else s

def retire (s : Ownership) (i : Nat) : Ownership :=
  match s.generations[i]? with
  | none => s
  | some g =>
    if g.point = .retiring ∧ s.lock = none then
      { s.setPoint i g .ended with detaching := withoutOwn s.detaching g.hash i }
    else s

def step (s : Ownership) : OwnershipAction → Ownership
  | .register raw identity hasInfo refused pick =>
    s.register infoHash raw identity hasInfo refused pick
  | .settle i failed => s.settle i failed
  | .delete hash => s.delete infoHash hash
  | .dropped i => s.dropped i
  | .retire i => s.retire i
  | .closeRaw raw => { s with closedRaws := raw :: s.closedRaws }
  | .stop => { s with stopped := true }

def run (actions : List OwnershipAction) : Ownership := exec (step infoHash) {} actions

end Ownership

end TorrentHub
