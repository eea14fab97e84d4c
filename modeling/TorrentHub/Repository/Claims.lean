import TorrentHub.Lib.Table
import TorrentHub.Move.Machine
import TorrentHub.Repository.Layout

namespace TorrentHub
open Lib

inductive ClaimKind where
  | source | target | staging | retained
deriving DecidableEq

structure StorageClaim where
  storageID : Bytes
  recordID : String
  version : Nat
  path : Bytes
  kind : ClaimKind
deriving DecidableEq

def StorageClaim.key (c : StorageClaim) : Bytes × String × Nat × Bytes :=
  (c.storageID, c.recordID, c.version, c.path)

structure OperationRow where
  hash : Bytes
  record : RecoveryRecord
deriving DecidableEq

abbrev ClaimTable :=
  Table StorageClaim (Bytes × String × Nat × Bytes) StorageClaim.key fun _ => true

/-- A trigger gives every mapping an owner, so it is never empty. `intents` is the record of a hash,
and `torrents` whether it is a torrent and one that is being deleted. -/
structure StorageDB where
  mappings : Table StorageMapping Bytes StorageMapping.hash fun m => m.storageID != []
  intents : Bytes → Option String
  torrents : Bytes → Option Bool
  operations : Table OperationRow Bytes OperationRow.hash fun _ => true
  claims : ClaimTable

def constrained {α : Type} (result : Option α) : Except StorageError α :=
  result.elim (.error .constraint) .ok

def insertClaims (claims : ClaimTable) (new : List StorageClaim) : Except StorageError ClaimTable :=
  new.foldlM (fun claims c => constrained (claims.insert c)) claims

def collides (fold : Bytes → Bytes) (a b : Bytes) : Bool :=
  overlap (collisionKey fold a) (collisionKey fold b)

namespace StorageDB

def fenced (db : StorageDB) (m : StorageMapping) (id : String) : Bool :=
  let row := do
    let mapping ← mappingOf db.mappings.rows m.hash
    let record ← db.intents m.hash
    let deleting ← db.torrents m.hash
    return ⟨mapping, ascii record, deleting⟩
  checkStorageFence row m (ascii id)

def operation (db : StorageDB) (hash : Bytes) : Option RecoveryRecord :=
  (db.operations.find hash).map OperationRow.record

def places (db : StorageDB) : List (Bytes × Bytes) :=
  db.claims.rows.map (fun c => (c.storageID, c.path)) ++
    (db.mappings.rows.filter fun m => m.root != []).map fun m => (m.storageID, m.root)

def pending (db : StorageDB) : Nat :=
  db.operations.rows.countP fun o =>
    (o.record.reason == .move || o.record.reason == .locate) &&
      o.record.stage != .planned && o.record.stage != .analyzed &&
      o.record.stage != .completed && o.record.stage != .cancelled

section

variable (fold : Bytes → Bytes) (db : StorageDB)

def checkStorageClaims (owner path : Bytes) : Except StorageError Unit :=
  if db.places.any fun p => p.1 != owner && collides fold path p.2 then .error .stateConflict
  else .ok ()

def mayRelocate (before : StorageMapping) (recordID : String) : Bool :=
  if recordID ≠ "" then db.intents before.hash == some recordID
  else !db.mappings.rows.any fun row =>
    row.storageID == before.storageID && (db.torrents row.hash).isSome

def setStorageLayoutTx (before : StorageMapping) (recordID : String) (next : Layout) :
    Except StorageError StorageDB :=
  match next.validate with
  | .error err => .error (.layout err)
  | .ok () => do
    db.checkStorageClaims fold before.storageID next.root
    if !db.mayRelocate before recordID then throw .stateConflict
    if db.mappings.rows.any fun row =>
        row.storageID != before.storageID && row.root != [] && collides fold row.root next.root then
      throw .stateConflict
    let _ ← setLayoutRows db.mappings.rows before next
    let mappings ← constrained (db.mappings.updateWhere (aliasOf before) (·.relocate next))
    return { db with mappings }

def setStorageLayout (before : StorageMapping) (recordID : String) (next : Layout) :
    Except StorageError StorageDB :=
  match next.validate with
  | .error err => .error (.layout err)
  | .ok () => db.setStorageLayoutTx fold before recordID next

def checkClaim (m : StorageMapping) (v : RecoveryRecord) (c : StorageClaim) :
    Except StorageError Unit :=
  if c.storageID ≠ m.storageID ∨ c.recordID ≠ v.recordID ∨ c.version ≠ v.version ∨
      (validateRelative c.path).isOk = false then .error .stateConflict
  else db.checkStorageClaims fold c.storageID c.path

def createStorageOperation (m : StorageMapping) (hash : Bytes) (v : RecoveryRecord)
    (previous : Nat) (claims : List StorageClaim) : Except StorageError StorageDB := do
  if !db.fenced m v.recordID then throw .stateConflict
  let own := (db.operation hash).filter fun r => r.recordID == v.recordID
  let current := (own.map RecoveryRecord.version).getD 0
  if current ≠ previous ∨ v.version ≠ current + 1 then throw .stateConflict
  if 64 ≤ db.pending then throw .queueFull
  claims.forM (db.checkClaim fold m v)
  let record := (db.operation hash).elim { v with error := "", failureCode := "" } fun r =>
    { v with recordID := r.recordID, error := "", failureCode := "" }
  let kept := db.claims.remove fun c => c.recordID == v.recordID && c.kind != .retained
  let claims ← insertClaims kept claims
  return { db with operations := db.operations.put ⟨hash, record⟩, claims }

def withOperation (hash : Bytes) (row : Option RecoveryRecord) : Except StorageError StorageDB :=
  match row with
  | none => .error .stateConflict
  | some r => .ok { db with operations := db.operations.put ⟨hash, r⟩ }

def transitionStorageOperation (m : StorageMapping) (hash : Bytes) (v : RecoveryRecord)
    (stage : Stage) : Except StorageError StorageDB :=
  db.withOperation hash
    (TorrentHub.transitionStorageOperation (db.operation hash) v stage (db.fenced m v.recordID))

def retainSource (v : RecoveryRecord) (c : StorageClaim) : StorageClaim :=
  if c.recordID == v.recordID && c.version == v.version && c.kind == .source then
    { c with kind := .retained }
  else c

def commitStorageOperation (before : StorageMapping) (hash : Bytes) (v : RecoveryRecord)
    (next : Layout) : Except StorageError StorageDB := do
  let committed ← db.withOperation hash
    (TorrentHub.commitStorageOperation (db.operation hash) v (db.fenced before v.recordID))
  let moved ← committed.setStorageLayoutTx fold before v.recordID next
  let claims := moved.claims.adjust (fun _ => true) (retainSource v) fun c => by
    unfold retainSource
    split <;> rfl
  return { moved with claims }

def finishStorageOperation (m : StorageMapping) (hash : Bytes) (v : RecoveryRecord)
    (stage : Stage) (retained : List Bytes) : Except StorageError StorageDB := do
  let finished ← db.withOperation hash
    (TorrentHub.finishStorageOperation (db.operation hash) v stage (db.fenced m v.recordID))
  let kept := finished.claims.remove fun c => c.recordID == v.recordID && c.version == v.version
  retained.forM fun path => (validateRelative path).mapError .path
  let claims ← insertClaims kept
    (retained.map fun path => ⟨m.storageID, v.recordID, v.version, path, .retained⟩)
  return { finished with claims }

/-- The row that `ClaimStorageAlias` inserts, unless the alias has one; its later comparison only
decides the answer. -/
def claimStorageAlias (hash owner : Bytes) : StorageDB :=
  match mappingOf db.mappings.rows owner with
  | none => db
  | some row =>
    if (row.state = .ready ∨ row.state = .reserved) ∧ row.manifest = [] then
      { db with
        mappings := (db.mappings.insert { row with hash, manifest := [] }).getD db.mappings }
    else db

end

end StorageDB

inductive StorageTransaction where
  | create (m : StorageMapping) (hash : Bytes) (v : RecoveryRecord) (previous : Nat)
    (claims : List StorageClaim)
  | transition (m : StorageMapping) (hash : Bytes) (v : RecoveryRecord) (stage : Stage)
  | commit (before : StorageMapping) (hash : Bytes) (v : RecoveryRecord) (next : Layout)
  | finish (m : StorageMapping) (hash : Bytes) (v : RecoveryRecord) (stage : Stage)
    (retained : List Bytes)
  | setLayout (before : StorageMapping) (recordID : String) (next : Layout)
  | claimAlias (hash owner : Bytes)
deriving DecidableEq

namespace StorageDB

variable (fold : Bytes → Bytes) (db : StorageDB)

def transact : StorageTransaction → Except StorageError StorageDB
  | .create m hash v previous claims => db.createStorageOperation fold m hash v previous claims
  | .transition m hash v stage => db.transitionStorageOperation m hash v stage
  | .commit before hash v next => db.commitStorageOperation fold before hash v next
  | .finish m hash v stage retained => db.finishStorageOperation m hash v stage retained
  | .setLayout before recordID next => db.setStorageLayout fold before recordID next
  | .claimAlias hash owner => .ok (db.claimStorageAlias hash owner)

def step (t : StorageTransaction) : StorageDB :=
  match db.transact fold t with
  | .ok db' => db'
  | .error _ => db

end StorageDB

end TorrentHub
