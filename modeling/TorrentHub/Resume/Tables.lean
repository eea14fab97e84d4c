import TorrentHub.Lib.Table
import TorrentHub.Models
import TorrentHub.Move.Journal
import TorrentHub.Resume.Policy

namespace TorrentHub
open Lib

structure TorrentRow where
  hash : Bytes
  deletionMode : Bytes
deriving DecidableEq

structure IntentRow where
  hash : Bytes
  recordID : Bytes
deriving DecidableEq

structure JournalRow where
  hash : Bytes
  recordID : Bytes
  stage : Stage
deriving DecidableEq

def Stage.idle : Stage → Bool
  | .planned | .analyzed | .completed | .cancelled => true
  | _ => false

abbrev Rows (ρ : Type) (key : ρ → Bytes) := Table ρ Bytes key fun _ => true

structure Library where
  torrents : Rows TorrentRow TorrentRow.hash := .empty
  intents : Rows IntentRow IntentRow.hash := .empty
  mappings : Rows StorageMapping StorageMapping.hash := .empty
  journals : Rows JournalRow JournalRow.hash := .empty

/-- A row of `resume_owners`: the head of a storage. -/
structure ResumeOwner where
  storageID : Bytes
  recordID : Bytes
  mappingRevision : Int
  epoch : Int
  generation : Int := 0
  invalidated : Bool := true
deriving DecidableEq

def ResumeOwner.check (o : ResumeOwner) : Bool :=
  o.storageID != [] && decide (o.storageID.length ≤ 256) &&
    o.recordID != [] && decide (o.recordID.length ≤ 256) &&
    decide (0 < o.mappingRevision) && decide (o.mappingRevision ≤ maxInt64) &&
    decide (0 < o.epoch) && decide (o.epoch ≤ maxInt64) &&
    decide (0 ≤ o.generation) && decide (o.generation ≤ maxInt64)

/-- A row of `resume_checkpoints`. -/
structure ResumeCheckpoint where
  storageID : Bytes
  payload : Bytes
  revoked : Bytes
  integrity : Bytes
deriving DecidableEq

def ResumeCheckpoint.check (r : ResumeCheckpoint) : Bool :=
  decide (r.payload.length ≤ 4194304) && decide (r.revoked.length ≤ 524288) &&
    r.integrity.length == 32

structure ResumeDB where
  library : Library := {}
  owners : Table ResumeOwner Bytes ResumeOwner.storageID ResumeOwner.check := .empty
  checkpoints : Table ResumeCheckpoint Bytes ResumeCheckpoint.storageID ResumeCheckpoint.check :=
    .empty

inductive SqlError where
  | epochExhausted | revisionExhausted | constraint | scan
deriving DecidableEq

def stored {α : Type} : Option α → Except SqlError α
  | none => .error .constraint
  | some rows => .ok rows

def ResumeOwner.fenced (o : ResumeOwner) : ResumeOwner :=
  { o with invalidated := true, epoch := o.epoch + 1 }

namespace ResumeDB

variable (db : ResumeDB)

/-- The body of all triggers. The heads looked at for an exhausted epoch may be more than those
written. -/
def fenceOwners (guard scope : ResumeOwner → Bool) : Except SqlError ResumeDB :=
  if db.owners.rows.any fun o => guard o && o.epoch == maxInt64 then .error .epochExhausted
  else do
    let owners ← stored (db.owners.updateWhere scope ResumeOwner.fenced)
    return { db with owners }

def fenceStorage (storageID : Bytes) : Except SqlError ResumeDB :=
  db.fenceOwners (·.storageID == storageID) (·.storageID == storageID)

def fenceRecord (recordID : Bytes) : Except SqlError ResumeDB :=
  db.fenceOwners (·.recordID == recordID) (·.recordID == recordID)

def resumeMappingChange (old new : StorageMapping) : Except SqlError ResumeDB :=
  if old.storageID != new.storageID || old.revision != new.revision || old.root != new.root ||
      old.version != new.version || old.layoutPrefix != new.layoutPrefix then
    db.fenceStorage old.storageID
  else .ok db

def resumeMappingDelete (old : StorageMapping) : Except SqlError ResumeDB :=
  db.fenceStorage old.storageID

def resumeMappingWorkflow (old new : StorageMapping) : Except SqlError ResumeDB :=
  if (new.state != .ready || new.manifest != []) &&
      (old.state != new.state || old.manifest != new.manifest) then
    db.fenceStorage old.storageID
  else .ok db

def resumeRecordDelete (old : IntentRow) : Except SqlError ResumeDB := db.fenceRecord old.recordID

def resumeRecordChange (old new : IntentRow) : Except SqlError ResumeDB :=
  if old.recordID != new.recordID then db.fenceRecord old.recordID else .ok db

def resumeDeletionIntent (old new : TorrentRow) : Except SqlError ResumeDB :=
  let owned := fun o : ResumeOwner =>
    db.library.intents.rows.any fun i => i.hash == old.hash && i.recordID == o.recordID
  if new.deletionMode != [] && old.deletionMode != new.deletionMode then db.fenceOwners owned owned
  else .ok db

/-- `resume_journal_insert` and `resume_journal_update` have one body. -/
def resumeJournalWrite (new : JournalRow) : Except SqlError ResumeDB :=
  if !new.stage.idle then
    db.fenceOwners (·.recordID == new.recordID) fun o =>
      o.recordID == new.recordID &&
        (db.library.mappings.find new.hash).any (·.storageID == o.storageID)
  else .ok db

def resumeJournalInsert (new : JournalRow) : Except SqlError ResumeDB := db.resumeJournalWrite new

def resumeJournalUpdate (new : JournalRow) : Except SqlError ResumeDB := db.resumeJournalWrite new

def writeMapping (new : StorageMapping) : Except SqlError ResumeDB := do
  let mappings ← stored (db.library.mappings.updateWhere (·.hash == new.hash) fun _ => new)
  return { db with library := { db.library with mappings } }

def storageMappingRevision (old new : StorageMapping) : Except SqlError ResumeDB :=
  if old.root != new.root || old.version != new.version ||
      old.layoutPrefix != new.layoutPrefix then
    if old.revision ≥ maxInt64 then .error .revisionExhausted
    else do
      let next := { new with revision := old.revision + 1 }
      let db ← db.resumeMappingChange new next
      db.writeMapping next
  else .ok db

def updateMapping (new : StorageMapping) : Except SqlError ResumeDB :=
  match db.library.mappings.find new.hash with
  | none => .ok db
  | some old => do
    let db ← db.resumeMappingChange old new
    let db ← db.resumeMappingWorkflow old new
    let db ← db.writeMapping new
    db.storageMappingRevision old new

def insertMapping (new : StorageMapping) : Except SqlError ResumeDB := do
  let mappings ← stored (db.library.mappings.insert new)
  return { db with library := { db.library with mappings } }

def deleteMapping (hash : Bytes) : Except SqlError ResumeDB :=
  match db.library.mappings.find hash with
  | none => .ok db
  | some old => do
    let db ← db.resumeMappingDelete old
    let mappings ← stored (db.library.mappings.deleteWhere (·.hash == hash))
    return { db with library := { db.library with mappings } }

def insertIntent (new : IntentRow) : Except SqlError ResumeDB := do
  let intents ← stored (db.library.intents.insert new)
  return { db with library := { db.library with intents } }

def updateIntent (new : IntentRow) : Except SqlError ResumeDB :=
  match db.library.intents.find new.hash with
  | none => .ok db
  | some old => do
    let db ← db.resumeRecordChange old new
    let intents ← stored (db.library.intents.updateWhere (·.hash == new.hash) fun _ => new)
    return { db with library := { db.library with intents } }

def deleteIntent (hash : Bytes) : Except SqlError ResumeDB :=
  match db.library.intents.find hash with
  | none => .ok db
  | some old => do
    let db ← db.resumeRecordDelete old
    let intents ← stored (db.library.intents.deleteWhere (·.hash == hash))
    return { db with library := { db.library with intents } }

def insertJournal (new : JournalRow) : Except SqlError ResumeDB := do
  let db ← db.resumeJournalInsert new
  let journals ← stored (db.library.journals.insert new)
  return { db with library := { db.library with journals } }

def updateJournal (new : JournalRow) : Except SqlError ResumeDB :=
  match db.library.journals.find new.hash with
  | none => .ok db
  | some _ => do
    let db ← db.resumeJournalUpdate new
    let journals ← stored (db.library.journals.updateWhere (·.hash == new.hash) fun _ => new)
    return { db with library := { db.library with journals } }

def deleteJournal (hash : Bytes) : Except SqlError ResumeDB := do
  let journals ← stored (db.library.journals.deleteWhere (·.hash == hash))
  return { db with library := { db.library with journals } }

def recoveryDeletionIntent (old new : TorrentRow) : Except SqlError ResumeDB :=
  if old.deletionMode == [] && new.deletionMode != [] then
    match db.library.intents.find new.hash with
    | none => .ok db
    | some intent =>
      let row : JournalRow := ⟨new.hash, intent.recordID, .other "intent"⟩
      match db.library.journals.find new.hash with
      | none => db.insertJournal row
      | some journal => do
        let db ← db.resumeJournalInsert row
        db.updateJournal { journal with stage := .other "intent" }
  else .ok db

def insertTorrent (new : TorrentRow) (recordID : Bytes) : Except SqlError ResumeDB := do
  let torrents ← stored (db.library.torrents.insert new)
  insertIntent { db with library := { db.library with torrents } } ⟨new.hash, recordID⟩

def updateTorrent (new : TorrentRow) : Except SqlError ResumeDB :=
  match db.library.torrents.find new.hash with
  | none => .ok db
  | some old => do
    let db ← db.resumeDeletionIntent old new
    let torrents ← stored (db.library.torrents.updateWhere (·.hash == new.hash) fun _ => new)
    recoveryDeletionIntent { db with library := { db.library with torrents } } old new

/-- The deletion takes the record and the journal of the torrent with it, but not its mapping. -/
def deleteTorrent (hash : Bytes) : Except SqlError ResumeDB := do
  let db ← db.deleteIntent hash
  let db ← db.deleteJournal hash
  let torrents ← stored (db.library.torrents.deleteWhere (·.hash == hash))
  return { db with library := { db.library with torrents } }

end ResumeDB

inductive ResumeChange where
  | insertMapping (new : StorageMapping)
  | updateMapping (new : StorageMapping)
  | deleteMapping (hash : Bytes)
  | insertIntent (new : IntentRow)
  | updateIntent (new : IntentRow)
  | deleteIntent (hash : Bytes)
  | insertJournal (new : JournalRow)
  | updateJournal (new : JournalRow)
  | deleteJournal (hash : Bytes)
  | insertTorrent (new : TorrentRow) (recordID : Bytes)
  | updateTorrent (new : TorrentRow)
  | deleteTorrent (hash : Bytes)

def ResumeChange.apply (db : ResumeDB) : ResumeChange → Except SqlError ResumeDB
  | .insertMapping new => db.insertMapping new
  | .updateMapping new => db.updateMapping new
  | .deleteMapping hash => db.deleteMapping hash
  | .insertIntent new => db.insertIntent new
  | .updateIntent new => db.updateIntent new
  | .deleteIntent hash => db.deleteIntent hash
  | .insertJournal new => db.insertJournal new
  | .updateJournal new => db.updateJournal new
  | .deleteJournal hash => db.deleteJournal hash
  | .insertTorrent new recordID => db.insertTorrent new recordID
  | .updateTorrent new => db.updateTorrent new
  | .deleteTorrent hash => db.deleteTorrent hash

def ResumeDB.change (db : ResumeDB) (changes : List ResumeChange) : Except SqlError ResumeDB :=
  changes.foldlM ResumeChange.apply db

end TorrentHub
