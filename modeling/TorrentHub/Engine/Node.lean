import TorrentHub.Engine.Scheduler
import TorrentHub.Repository.Observation

namespace TorrentHub
open Lib

def vetoReason : String := "Verification incomplete; successful local check required"
def failureReason : String := "Verification failed; successful local check required"

namespace Runtime

def begun (r : Runtime) (operation : Bool) : Option Runtime :=
  match r.applyVerificationEvent .begin with
  | .error _ => none
  | .ok (s, _) =>
    let s := { s with mt := { s.mt with verificationAttempt := some ⟨s.tickets, operation⟩ },
                      tickets := s.tickets + 1 }
    some s.disallowDownload.disallowUpload

/-- The checks of `startRecheckLocked` before it begins. -/
def rechecks (r : Runtime) (env : Environment) : Bool :=
  r.managed && r.current (env.live 0) && !r.mt.rechecking &&
    !(r.mt.initializing || r.lib.files.isNone || env.streams)

/-- The checks of `verifyInactive` before it begins. -/
def verifies (r : Runtime) (env : Environment) : Bool :=
  env.live 0 && r.managed &&
    !(decide (r.mt.policy.run ≠ .paused) || r.mt.policy.checking || r.mt.policy.terminal)

def completes (r : Runtime) (attempt : VerificationAttempt) (env : Environment) : Bool :=
  r.current (env.live 3) && r.mt.verificationAttempt == some attempt && r.mt.rechecking

/-- The checks of `bindRuntime` before it writes. -/
def binds (r : Runtime) (expected : Bool) (fence : RuntimeFence) (applied : Int)
    (env : Environment) : Bool :=
  !(fence.attachment == "" || fence.recordID == "" || decide (fence.revision < 1)) && env.live 0 &&
    r.managed && expected && !(decide (0 < applied) && r.mt.initializing) &&
    !(r.mt.runtimeFence.recordID != "" && (r.mt.runtimeFence.recordID != fence.recordID ||
      decide (fence.revision < r.mt.runtimeFence.revision)))

end Runtime

namespace TorrentDB

variable (db : TorrentDB)

/-- The persistence callback. `fault` says how the driver fails, if it does. -/
def persistVerification (f : RuntimeFence) (uncertain : Bool) (reason : String)
    (fault : VerifyResult) : TorrentDB × VerifyResult :=
  let written := if uncertain then db.putActivationBlock f .verification reason
    else db.clearActivationBlock f .verification
  match fault, written with
  | .succeeded, .ok db => (db, .succeeded)
  | .succeeded, .error _ => (db, .failed)
  | fault, _ => (db, fault)

def recordVerification (r : Runtime) (attempt : VerificationAttempt) (result : VerifyResult)
    (env : Environment) (fault : VerifyResult) : TorrentDB × VerifyResult :=
  if !r.completes attempt env || !env.own 1 then (db, .succeeded)
  else
    let result := if env.own 0 then result else result.join .cancelled
    if result = .succeeded then db.persistVerification r.mt.runtimeFence false "" fault
    else db.persistVerification r.mt.runtimeFence true failureReason fault

/-- The writes that begin a verification; one that is not started is completed in the same section.
-/
def vetoVerification (r : Runtime) (operation started : Bool) (env : Environment)
    (fault fault' : VerifyResult) : TorrentDB × Environment :=
  match r.begun operation with
  | none => (db, env)
  | some s =>
    let (db, vetoed) := db.persistVerification s.mt.runtimeFence true vetoReason fault
    let env := { env with vetoed }
    if vetoed = .succeeded && started then (db, env)
    else
      let result := if vetoed ≠ .succeeded then vetoed else .failed
      let (db, recorded) := db.recordVerification s ⟨r.tickets, operation⟩ result env fault'
      (db, { env with recorded })

/-- The verification writes of one section and their answers; other kinds of blocks are transactions
of their own. -/
def serve (r : Runtime) (op : Runtime.Operation) (env : Environment)
    (fault fault' : VerifyResult) : TorrentDB × Environment :=
  match op with
  | .startRecheck =>
    if r.rechecks env then db.vetoVerification r true env.taskStarted env fault fault'
    else (db, env)
  | .verifyInactive =>
    if r.verifies env then db.vetoVerification r false true env fault fault' else (db, env)
  | .finishVerification attempt result =>
    let (db, recorded) := db.recordVerification r attempt result env fault
    (db, { env with recorded })
  | .bindRuntime expected fence applied =>
    if r.binds expected fence applied env && r.mt.verificationUncertain then
      let (db, result) := db.persistVerification fence true vetoReason fault
      (db, { env with saved := fun k => if k = 0 then result == .succeeded else env.saved k })
    else (db, env)
  | _ => (db, env)

end TorrentDB

/-- A verifier about to be started. The task of a recheck looks again whether its attempt is still
the current one. -/
structure VerifierStart where
  torrent : Nat
  attempt : VerificationAttempt
  recordID : String
  task : Bool
deriving DecidableEq

structure Node where
  engine : Engine
  db : TorrentDB
  starting : List VerifierStart := []

namespace Node

def startOf (i : Nat) (r : Runtime) (op : Runtime.Operation) (env : Environment) :
    List VerifierStart :=
  match op with
  | .startRecheck =>
    if r.rechecks env && (r.begun true).isSome && env.vetoed == .succeeded && env.taskStarted then
      [⟨i, ⟨r.tickets, true⟩, r.mt.runtimeFence.recordID, true⟩]
    else []
  | .verifyInactive =>
    if r.verifies env && (r.begun false).isSome && env.vetoed == .succeeded then
      [⟨i, ⟨r.tickets, false⟩, r.mt.runtimeFence.recordID, false⟩]
    else []
  | _ => []

def address (t : EngineTorrent) : Runtime.Operation → Runtime.Operation
  | .bindRuntime expected fence applied =>
    .bindRuntime (expected && t.hash == fence.hash) fence applied
  | op => op

/-- One section of torrent `i`, with its verification writes. -/
def call (n : Node) (i : Nat) (t : EngineTorrent) (op : Runtime.Operation) (env : Environment)
    (fault fault' : VerifyResult) : Node :=
  let op := address t op
  let served := n.db.serve t.runtime op env fault fault'
  { engine := n.engine.setRuntime i (t.runtime.call op served.2)
    db := served.1
    starting := n.starting ++ startOf i t.runtime op served.2 }

/-- A crash inside a section is one after the same section with its later writes failing. -/
inductive Action where
  | call (i : Nat) (op : Runtime.Operation) (env : Environment) (fault fault' : VerifyResult)
  | engine (action : Engine.Action)
  | repo (action : RepoAction)
  | start (k : Nat) (live : Bool) (env : Environment) (fault : VerifyResult)
  | crash

def Action.isCall : Engine.Action → Bool
  | .torrent _ (.call _ _) _ => true
  | _ => false

def passes (n : Node) (s : VerifierStart) (live : Bool) : Bool :=
  !s.task || (n.engine.torrents[s.torrent]?).any fun t =>
    t.runtime.mt.verificationAttempt == some s.attempt && live

def starts (n : Node) : Action → Option VerifierStart
  | .start k live _ _ => (n.starting[k]?).filter fun s => n.passes s live
  | _ => none

def step (n : Node) : Action → Node
  | .call i op env fault fault' =>
    match n.engine.torrents[i]? with
    | none => n
    | some t => n.call i t op env fault fault'
  | .engine action => if Action.isCall action then n else { n with engine := n.engine.step action }
  | .repo action => { n with db := n.db.step action }
  | .start k live env fault =>
    match n.starting[k]? with
    | none => n
    | some s =>
      let n' := { n with starting := n.starting.eraseIdx k }
      if n.passes s live then n'
      else
        match n.engine.torrents[s.torrent]? with
        | none => n'
        | some t =>
          n'.call s.torrent t (.finishVerification s.attempt .cancelled) env fault fault
  | .crash => { n with engine := { maxActiveDownloads := n.engine.maxActiveDownloads },
                       starting := [] }

def run (limit : Int) (db : TorrentDB) (actions : List Action) : Node :=
  exec step { engine := { maxActiveDownloads := limit }, db } actions

end Node

end TorrentHub
