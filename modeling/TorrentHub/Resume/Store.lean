import TorrentHub.Lib.Bitmap
import TorrentHub.Lib.Run
import TorrentHub.Lib.Sha256
import TorrentHub.Resume.Codec
import TorrentHub.Resume.Tables

namespace TorrentHub
open Lib Binary

inductive ResumeError where
  | stateConflict | integrity | durability
  | checkpoint (err : CheckpointError)
  | sql (err : SqlError)
deriving DecidableEq

structure ResumeToken where
  storageID : Bytes
  recordID : Bytes
  mappingRevision : Int
  epoch : Int
  generation : Int
deriving DecidableEq

structure ResumeSnapshot where
  token : ResumeToken
  invalidated : Bool
  checkpoint : Option Checkpoint := none
  revoked : Bytes := []
deriving DecidableEq

structure Connection where
  journalMode : Bytes
  synchronous : Int
deriving DecidableEq

namespace Library

variable (lib : Library)

def mappingRow (hash : Bytes) : Option MappingRow := do
  let mapping ← lib.mappings.find hash
  let intent ← lib.intents.find hash
  let torrent ← lib.torrents.find hash
  return ⟨mapping, intent.recordID, torrent.deletionMode != []⟩

def maps (storageID hash : Bytes) : Bool :=
  (lib.mappings.find hash).any fun s => s.storageID == storageID

def conflicts (m : StorageMapping) : Nat :=
  lib.mappings.rows.countP fun s =>
    s.storageID == m.storageID &&
      (s.root != m.root || s.layoutPrefix != m.layoutPrefix || s.version != m.version ||
        s.revision != m.revision || s.state != .ready || s.manifest != [])

def recordsOf (storageID : Bytes) : Nat :=
  lib.intents.rows.countP fun i => lib.maps storageID i.hash

def activeJournals (storageID : Bytes) : Nat :=
  lib.journals.rows.countP fun r => lib.maps storageID r.hash && !r.stage.idle

def checkResumeFence (m : StorageMapping) (record : Bytes) : Except ResumeError Unit :=
  if !m.ready || record == [] then .error .stateConflict
  else if m.storageID.length > maxIdentityLength || record.length > maxIdentityLength then
    .error (.checkpoint .budget)
  else if !checkStorageFence (lib.mappingRow m.hash) m record then .error .stateConflict
  else if lib.conflicts m != 0 then .error .stateConflict
  else if lib.recordsOf m.storageID != 1 then .error .stateConflict
  else if lib.activeJournals m.storageID != 0 then .error .stateConflict
  else .ok ()

end Library

def checkResumeDurability (conn : Connection) : Except ResumeError Unit :=
  if conn.journalMode.map lowerByte != ascii "wal" || conn.synchronous != 2 then
    .error .durability
  else .ok ()

def ResumeOwner.token (o : ResumeOwner) : ResumeToken :=
  ⟨o.storageID, o.recordID, o.mappingRevision, o.epoch, o.generation⟩

def resumeIntegrity (token : ResumeToken) (blob revoked : Bytes) : Bytes :=
  Sha256.sum256 <|
    ascii "TSH-resume-integrity-1" ++
      [token.storageID, token.recordID].flatMap (fun s => uint64 (UInt64.ofNat s.length) ++ s) ++
      [token.mappingRevision, token.epoch, token.generation, (blob.length : Int),
        (revoked.length : Int)].flatMap (fun n => uint64 (UInt64.ofInt n)) ++
      blob ++ revoked

def written {α : Type} : Option α → Except ResumeError α
  | none => .error (.sql .constraint)
  | some rows => .ok rows

def coded {α : Type} : Except CheckpointError α → Except ResumeError α
  | .error err => .error (.checkpoint err)
  | .ok a => .ok a

namespace ResumeDB

variable (fold : Bytes → Bytes) (db : ResumeDB) (conn : Connection) (m : StorageMapping)

def beginResume (record : Bytes) : Except ResumeError Unit := do
  checkResumeDurability conn
  db.library.checkResumeFence m record

def readResumeHead (owner : Bytes) : Except ResumeError (Option ResumeSnapshot) :=
  match db.owners.find owner with
  | none => .ok none
  | some o =>
    if o.storageID.length > 256 || o.recordID.length > 256 then .error (.sql .scan)
    else if o.epoch ≤ 0 || o.generation < 0 || o.mappingRevision ≤ 0 then .error .integrity
    else .ok (some { token := o.token, invalidated := o.invalidated })

def readResumePayload (token : ResumeToken) : Except ResumeError (Bytes × Bytes) :=
  match db.checkpoints.find token.storageID with
  | none => .error .integrity
  | some r =>
    if r.payload.length > maxCheckpointBytes || r.revoked.length > 524288 then
      .error (.checkpoint .budget)
    else if r.integrity != resumeIntegrity token r.payload r.revoked then .error .integrity
    else .ok (r.payload, r.revoked)

def decodeResume (s : ResumeSnapshot) (blob revoked : Bytes) :
    Except ResumeError (Checkpoint × ResumeSnapshot) := do
  let c ← coded (decode fold blob)
  if c.identity.storageID != s.token.storageID || c.identity.recordID != s.token.recordID ||
      c.identity.mappingRevision.toInt != s.token.mappingRevision ||
      c.generation.toInt != s.token.generation then throw .integrity
  coded (validateBitmap revoked c.identity.pieceCount)
  return (c, { s with checkpoint := some c, revoked })

def bindResume (record : Bytes) :
    Except ResumeError (Table ResumeOwner Bytes ResumeOwner.storageID ResumeOwner.check) := do
  match ← db.readResumeHead m.storageID with
  | none =>
    written (db.owners.insert
      { storageID := m.storageID, recordID := record, mappingRevision := m.revision, epoch := 1 })
  | some s =>
    if s.token.recordID != record || s.token.mappingRevision != m.revision then
      if s.token.epoch = maxInt64 then throw .stateConflict
      written (db.owners.updateWhere (·.storageID == m.storageID) fun o =>
        { o.fenced with recordID := record, mappingRevision := m.revision })
    else return db.owners

def captureResume (record : Bytes) : Except ResumeError (ResumeToken × ResumeDB) := do
  db.beginResume conn m record
  let owners ← db.bindResume m record
  match ← readResumeHead { db with owners } m.storageID with
  | none => throw .stateConflict
  | some s => return (s.token, { db with owners })

def loadResume (record : Bytes) : Except ResumeError (Option ResumeSnapshot) := do
  db.beginResume conn m record
  match ← db.readResumeHead m.storageID with
  | none => return none
  | some s =>
    if s.token.recordID != record || s.token.mappingRevision != m.revision then
      throw .stateConflict
    if s.invalidated then return some s
    let (blob, revoked) ← db.readResumePayload s.token
    let (_, s) ← decodeResume fold s blob revoked
    return some s

def checkResumeToken (token : ResumeToken) : Except ResumeError ResumeSnapshot := do
  match ← db.readResumeHead token.storageID with
  | none => throw .stateConflict
  | some s =>
    if s.token != token || token.epoch ≤ 0 || token.epoch = maxInt64 then throw .stateConflict
    return s

def checkWriter (token : ResumeToken) : Except ResumeError ResumeSnapshot := do
  db.beginResume conn m token.recordID
  if token.storageID != m.storageID || token.mappingRevision != m.revision then
    throw .stateConflict
  db.checkResumeToken token

def commitResume (token : ResumeToken) (c : Checkpoint) :
    Except ResumeError (ResumeToken × ResumeDB) := do
  if token.generation = maxInt64 || c.generation.toInt != token.generation + 1 ||
      c.identity.recordID != token.recordID || c.identity.storageID != token.storageID ||
      c.identity.mappingRevision.toInt != token.mappingRevision ||
      c.identity.layoutVersion.toInt != m.version || c.identity.root != m.root ||
      c.identity.layoutPrefix != m.layoutPrefix then throw .stateConflict
  let blob ← coded (encode fold c)
  let _ ← db.checkWriter conn m token
  let next := { token with generation := token.generation + 1, epoch := token.epoch + 1 }
  let revoked := List.replicate c.pieces.length 0
  let checkpoints ← written (db.checkpoints.upsert
    { storageID := token.storageID, payload := blob, revoked
      integrity := resumeIntegrity next blob revoked })
  let owners ← written (db.owners.updateWhere (·.storageID == next.storageID) fun o =>
    { o with generation := next.generation, epoch := next.epoch, invalidated := false })
  return (next, { db with owners, checkpoints })

def revokeResume (token : ResumeToken) (mask : Bytes) :
    Except ResumeError (ResumeToken × ResumeDB) := do
  let s ← db.checkWriter conn m token
  if s.invalidated then return (token, db)
  let (blob, revoked) ← db.readResumePayload token
  let (c, _) ← decodeResume fold s blob revoked
  coded (validateBitmap mask c.identity.pieceCount)
  let bits := Bitmap.inter mask c.pieces
  let changed := (bits.zip revoked).any fun b => b.1 &&& ~~~b.2 != 0
  if !changed then return (token, db)
  let next := { token with epoch := token.epoch + 1 }
  let revoked := Bitmap.union revoked bits
  let checkpoints ← written (db.checkpoints.updateWhere (·.storageID == next.storageID) fun r =>
    { r with revoked, integrity := resumeIntegrity next blob revoked })
  let owners ← written (db.owners.updateWhere (·.storageID == next.storageID) fun o =>
    { o with epoch := next.epoch })
  return (next, { db with owners, checkpoints })

def invalidateResume (token : ResumeToken) : Except ResumeError (ResumeToken × ResumeDB) := do
  let _ ← db.checkWriter conn m token
  let next := { token with epoch := token.epoch + 1 }
  let owners ← written (db.owners.updateWhere (·.storageID == next.storageID) fun o =>
    { o with invalidated := true, epoch := next.epoch })
  return (next, { db with owners })

def ownsMapping (record : Bytes) : Bool :=
  match db.library.mappings.find m.hash, db.library.intents.find m.hash with
  | some s, some i =>
    i.recordID == record && s.storageID == m.storageID && s.revision == m.revision &&
      s.root == m.root && s.layoutPrefix == m.layoutPrefix && s.version == m.version
  | _, _ => false

def invalidateResumeMutation (record : Bytes) : Except ResumeError ResumeDB := do
  if record == [] then throw .stateConflict
  checkResumeDurability conn
  if !db.ownsMapping m record then throw .stateConflict
  match ← db.readResumeHead m.storageID with
  | none => return db
  | some head =>
    if head.token.epoch = maxInt64 then throw .stateConflict
    let owners ← written (db.owners.updateWhere (·.storageID == m.storageID) ResumeOwner.fenced)
    return { db with owners }

end ResumeDB

inductive ResumeCall where
  | capture (m : StorageMapping) (record : Bytes)
  | commit (m : StorageMapping) (token : ResumeToken) (c : Checkpoint)
  | revoke (m : StorageMapping) (token : ResumeToken) (mask : Bytes)
  | invalidate (m : StorageMapping) (token : ResumeToken)
  | invalidateMutation (m : StorageMapping) (record : Bytes)
  | change (changes : List ResumeChange)

namespace ResumeDB

variable (fold : Bytes → Bytes) (db : ResumeDB)

def transact (conn : Connection) : ResumeCall → Except ResumeError ResumeDB
  | .capture m record => (·.2) <$> db.captureResume conn m record
  | .commit m token c => (·.2) <$> db.commitResume fold conn m token c
  | .revoke m token mask => (·.2) <$> db.revokeResume fold conn m token mask
  | .invalidate m token => (·.2) <$> db.invalidateResume conn m token
  | .invalidateMutation m record => db.invalidateResumeMutation conn m record
  | .change changes =>
    match db.change changes with
    | .error err => .error (.sql err)
    | .ok db => .ok db

def step (t : Connection × ResumeCall) : ResumeDB :=
  match db.transact fold t.1 t.2 with
  | .error _ => db
  | .ok db => db

def run (ts : List (Connection × ResumeCall)) : ResumeDB := exec (step fold) db ts

end ResumeDB

end TorrentHub
