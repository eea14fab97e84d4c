import Mathlib.Data.List.Sort
import TorrentHub.Inventory.Visit
import TorrentHub.Lib.Watch
import TorrentHub.Repository.Intent

namespace TorrentHub
open Lib

namespace ReadDB

/-- A row of `torrents`. The last three columns are byte counters and the time of an
observation. -/
structure TorrentRow where
  hash : String
  name : String := ""
  title : String := ""
  data : String := ""
  poster : String := ""
  category : String := ""
  size : Int := 0
  state : TorrentState := .queued
  error : ErrorReason := ErrorReason.none
  sourceURI : String := ""
  isTemporary : Bool := false
  deletionMode : String := ""
  deletionError : String := ""
  metadataKnown : Bool := false
  pieceLength : Int := 0
  numPieces : Int := 0
  metadataFormat : String := ""
  catalogVersion : String := ""
  progressSource : String := "unknown"
  downloaded : Int := 0
  legacyDownloaded : Int := 0
  progressObservedAt : Int := 0
deriving DecidableEq

structure FileRow where
  hash : String
  index : Int
  path : String
  size : Int
  priority : FilePriority := .normal
  isMedia : Bool := false
  fileOffset : Int := 0
  offsetKnown : Bool := false
  metadataPath : String := ""
  downloaded : Int := 0
  legacyDownloaded : Int := 0
deriving DecidableEq

def FileRow.key (f : FileRow) : String × Int := (f.hash, f.index)

structure IntentRow where
  hash : String
  recordID : String
  runIntent : RunIntent := .enabled
  revision : Int := 1
  runtimeAttachment : String := ""
  appliedRevision : Int := 0
  observedState : TorrentState := .queued
  observedError : ErrorReason := ErrorReason.none
  observationSequence : Int := 0
deriving DecidableEq

structure DownloadBlockRow where
  hash : String
  reason : String
deriving DecidableEq

structure OrderRow where
  hash : String
  id : Int
deriving DecidableEq

structure StorageRow where
  hash : String
  version : Int := 1
  root : String := ""
  state : MappingState := .ready
  manifest : String := ""
  error : String := ""
  storageID : String
  revision : Int := 1
  layoutPrefix : String := ""
  nameHint : String := ""
deriving DecidableEq

inductive StorageRecoveryReason where
  | deletionPending | deletionCancelled | legacyConflict | recoveryComplete | attachmentFailed
  | catalogChanged | storageMove | storageLocate
  | other (text : String)
deriving DecidableEq

def StorageRecoveryReason.location : StorageRecoveryReason → Bool
  | .storageMove | .storageLocate => true
  | _ => false

structure RecoveryRow where
  hash : String
  recordID : String
  version : Int := 1
  reason : StorageRecoveryReason
  mode : String := ""
  stage : String := ""
  removedData : String := "unknown"
  error : String := ""
  failureCode : String := ""
  journal : String := ""
  locationSource : String := ""
  locationTarget : String := ""
  locationMethod : String := ""
  locationExtraBytes : Int := 0
  locationAlternatives : Int := 0
  locationAlternativeBytes : Int := 0
  locationAnalysis : String := ""
  locationFreeBytes : Option Int := none
deriving DecidableEq

/-- A row of `storage_inventory`. -/
structure InventoryRow where
  storageID : String
  mappingRevision : Int
  session : String := ""
  status : InventoryStatus := .pending
  reason : String := ""
  cursor : Int := -1
  observedAt : Int := 0
deriving DecidableEq

end ReadDB

open ReadDB in
/-- The tables of the list, the global read version and the token of the inventory session. -/
structure ReadDB where
  version : Int := 1
  session : String := ""
  torrents : Keyed TorrentRow.hash := .empty
  files : Keyed FileRow.key := .empty
  intents : Keyed IntentRow.hash := .empty
  blocks : Keyed BlockRecord.key := .empty
  downloadBlocks : Keyed DownloadBlockRow.hash := .empty
  order : Keyed OrderRow.hash := .empty
  storage : Keyed StorageRow.hash := .empty
  recovery : Keyed RecoveryRow.hash := .empty
  inventory : Keyed InventoryRow.storageID := .empty

namespace ReadDB

section Triggers

/-- `version_torrents_insert`, `version_torrents_delete` and `version_torrents_update`. -/
def versionTorrents : Watch TorrentRow where
  onUpdate := [fun old new =>
    old.name ≠ new.name || old.size ≠ new.size || old.state ≠ new.state ||
    old.error ≠ new.error || old.sourceURI ≠ new.sourceURI ||
    old.isTemporary ≠ new.isTemporary || old.title ≠ new.title || old.data ≠ new.data ||
    old.poster ≠ new.poster || old.category ≠ new.category ||
    old.deletionMode ≠ new.deletionMode || old.deletionError ≠ new.deletionError ||
    old.metadataKnown ≠ new.metadataKnown || old.pieceLength ≠ new.pieceLength ||
    old.numPieces ≠ new.numPieces || old.metadataFormat ≠ new.metadataFormat ||
    old.catalogVersion ≠ new.catalogVersion]

def versionFiles : Watch FileRow where
  onUpdate := [fun old new =>
    old.path ≠ new.path || old.size ≠ new.size || old.priority ≠ new.priority ||
    old.isMedia ≠ new.isMedia || old.fileOffset ≠ new.fileOffset ||
    old.offsetKnown ≠ new.offsetKnown]

def versionTorrentIntents : Watch IntentRow where
  onUpdate := [fun old new =>
    old.recordID ≠ new.recordID || old.runIntent ≠ new.runIntent ||
    old.revision ≠ new.revision || old.runtimeAttachment ≠ new.runtimeAttachment ||
    old.appliedRevision ≠ new.appliedRevision || old.observedState ≠ new.observedState ||
    old.observedError ≠ new.observedError]

def versionTorrentActivationBlocks : Watch BlockRecord where
  onUpdate := [fun old new => old.kind ≠ new.kind || old.reason ≠ new.reason]

def versionTorrentDownloadBlocks : Watch DownloadBlockRow where
  onUpdate := [fun old new => old.reason ≠ new.reason]

def versionTorrentOrder : Watch OrderRow where

/-- `version_torrent_storage_update` and `storage_mapping_identity_version`. -/
def versionTorrentStorage : Watch StorageRow where
  onUpdate :=
    [fun old new =>
      old.version ≠ new.version || old.root ≠ new.root || old.state ≠ new.state ||
      old.manifest ≠ new.manifest || old.error ≠ new.error,
     fun old new =>
      old.storageID ≠ new.storageID || old.revision ≠ new.revision ||
      old.layoutPrefix ≠ new.layoutPrefix || old.nameHint ≠ new.nameHint]

/-- `version_storage_recovery_update` has no condition. -/
def versionStorageRecovery : Watch RecoveryRow where
  onUpdate := [fun _ _ => true]

/-- `inventory_version` is the only trigger of its table. -/
def inventoryVersion : Watch InventoryRow where
  onInsert := false
  onDelete := false
  onUpdate := [fun old new => old.status ≠ new.status || old.reason ≠ new.reason]

end Triggers

/-- A change of one row: the order of the queue is never updated, and a row of an inventory is never
deleted. -/
inductive Write where
  | torrent (c : RowChange TorrentRow String)
  | file (c : RowChange FileRow (String × Int))
  | intent (c : RowChange IntentRow String)
  | block (c : RowChange BlockRecord (String × ActivationBlockKind))
  | downloadBlock (c : RowChange DownloadBlockRow String)
  | orderInsert (r : OrderRow)
  | orderDelete (hash : String)
  | storage (c : RowChange StorageRow String)
  | recovery (c : RowChange RecoveryRow String)
  | inventoryInsert (r : InventoryRow)
  | inventoryUpdate (r : InventoryRow)
  | session (token : String)

variable (db : ReadDB)

def fired : Write → Nat
  | .torrent c => Table.fired versionTorrents db.torrents c
  | .file c => Table.fired versionFiles db.files c
  | .intent c => Table.fired versionTorrentIntents db.intents c
  | .block c => Table.fired versionTorrentActivationBlocks db.blocks c
  | .downloadBlock c => Table.fired versionTorrentDownloadBlocks db.downloadBlocks c
  | .orderInsert r => Table.fired versionTorrentOrder db.order (.insert r)
  | .orderDelete hash => Table.fired versionTorrentOrder db.order (.delete hash)
  | .storage c => Table.fired versionTorrentStorage db.storage c
  | .recovery c => Table.fired versionStorageRecovery db.recovery c
  | .inventoryInsert r => Table.fired inventoryVersion db.inventory (.insert r)
  | .inventoryUpdate r => Table.fired inventoryVersion db.inventory (.update r)
  | .session _ => 0

def rowsAfter : Write → ReadDB
  | .torrent c => { db with torrents := db.torrents.change c }
  | .file c => { db with files := db.files.change c }
  | .intent c => { db with intents := db.intents.change c }
  | .block c => { db with blocks := db.blocks.change c }
  | .downloadBlock c => { db with downloadBlocks := db.downloadBlocks.change c }
  | .orderInsert r => { db with order := db.order.change (.insert r) }
  | .orderDelete hash => { db with order := db.order.change (.delete hash) }
  | .storage c => { db with storage := db.storage.change c }
  | .recovery c => { db with recovery := db.recovery.change c }
  | .inventoryInsert r => { db with inventory := db.inventory.change (.insert r) }
  | .inventoryUpdate r => { db with inventory := db.inventory.change (.update r) }
  | .session token => { db with session := token }

def write (db : ReadDB) (w : Write) : ReadDB :=
  { db.rowsAfter w with version := db.version + db.fired w }

def commit (ws : List Write) : ReadDB := ws.foldl write db

def fires : ReadDB → List Write → Bool
  | _, [] => false
  | db, w :: ws => db.fired w != 0 || (db.write w).fires ws

structure FileColumns where
  index : Int
  path : String
  size : Int
  priority : FilePriority
  isMedia : Bool
  offset : Int
  offsetKnown : Bool
  metadataPath : String
deriving DecidableEq

structure ControlColumns where
  recordID : String
  desiredRevision : Int
  desiredRun : RunIntent
deriving DecidableEq

structure StorageColumns where
  id : String
  revision : Int
  layoutVersion : Int
  root : String
  layoutPrefix : String
  status : MappingState
  reason : String
  inventory : InventoryStatus
  inventoryReason : String
deriving DecidableEq

structure OperationColumns where
  version : Int
  reason : StorageRecoveryReason
  stage : String
  error : String
  failureCode : String
  source : String
  target : String
  method : String
  extraBytes : Int
  analysis : String
  freeBytes : Option Int
deriving DecidableEq

structure RecoveryColumns where
  recordID : String
  version : Int
  reason : StorageRecoveryReason
  stage : String
  removedData : String
  error : String
  journal : String
  failureCode : String
  mode : String
  alternativeCopies : Int
  alternativeBytes : Int
deriving DecidableEq

structure TorrentColumns where
  hash : String
  name : String
  title : String
  data : String
  poster : String
  category : String
  size : Int
  state : TorrentState
  error : ErrorReason
  sourceURI : String
  isTemporary : Bool
  storageState : MappingState
  storageError : String
  files : List FileColumns
  downloadBlock : Option String
  deletion : Option (String × String)
  progressSource : String
  metadataKnown : Bool
  pieceLength : Int
  numPieces : Int
  queuePosition : Int
  metadataFormat : String
  catalogVersion : String
  control : Option ControlColumns
  activationBlocks : List ActivationBlock
  storage : Option StorageColumns
  operation : Option OperationColumns
  recovery : Option RecoveryColumns
deriving DecidableEq

def FileRow.columns (f : FileRow) : FileColumns where
  index := f.index
  path := f.path
  size := f.size
  priority := f.priority
  isMedia := f.isMedia
  offset := f.fileOffset
  offsetKnown := f.offsetKnown
  metadataPath := f.metadataPath

def RecoveryRow.operation (r : RecoveryRow) : OperationColumns where
  version := r.version
  reason := r.reason
  stage := r.stage
  error := r.error
  failureCode := r.failureCode
  source := r.locationSource
  target := r.locationTarget
  method := r.locationMethod
  extraBytes := r.locationExtraBytes
  analysis := r.locationAnalysis
  freeBytes := r.locationFreeBytes

def RecoveryRow.columns (r : RecoveryRow) : RecoveryColumns where
  recordID := r.recordID
  version := r.version
  reason := r.reason
  stage := r.stage
  removedData := r.removedData
  error := r.error
  journal := if r.reason.location then "" else r.journal
  failureCode := r.failureCode
  mode := r.mode
  alternativeCopies := r.locationAlternatives
  alternativeBytes := r.locationAlternativeBytes

def kindText : ActivationBlockKind → String
  | .verification => "verification"
  | .missingFiles => "missing_files"
  | .legacyError => "legacy_error"
  | .metadataPersistence => "metadata_persistence"
  | .invalidSelection => "invalid_selection"
  | .other text => text

def loadFiles (hash : String) : List FileColumns :=
  ((db.files.rows.filter (·.hash = hash)).map FileRow.columns).insertionSort (·.index ≤ ·.index)

def loadControl (hash : String) : Option ControlColumns :=
  (db.intents.find hash).map fun i => ⟨i.recordID, i.revision, i.runIntent⟩

def loadActivationBlocks (hash : String) : List ActivationBlock :=
  match db.intents.find hash with
  | none => []
  | some i =>
    ((db.blocks.rows.filter (·.recordID = i.recordID)).map
      fun b => ⟨b.kind, b.reason⟩).insertionSort
      fun a b => kindText a.kind ≤ kindText b.kind

def loadStorageLocation (hash : String) : Option StorageColumns :=
  (db.storage.find hash).map fun s =>
    let i := db.inventory.find s.storageID
    { id := s.storageID
      revision := s.revision
      layoutVersion := s.version
      root := s.root
      layoutPrefix := s.layoutPrefix
      status := s.state
      reason := s.error
      inventory := (i.map (·.status)).getD (.other "unknown")
      inventoryReason := (i.map (·.reason)).getD "" }

def loadOperation (hash : String) : Option OperationColumns :=
  if (db.storage.find hash).isNone then none
  else ((db.recovery.find hash).filter (·.reason.location)).map RecoveryRow.operation

def loadStorageRecovery (hash : String) : Option RecoveryColumns :=
  ((db.recovery.find hash).filter fun r =>
    (db.intents.find hash).any (·.recordID = r.recordID)).map RecoveryRow.columns

def TorrentRow.columns (db : ReadDB) (t : TorrentRow) : TorrentColumns where
  hash := t.hash
  name := t.name
  title := t.title
  data := t.data
  poster := t.poster
  category := t.category
  size := t.size
  state := if t.deletionMode ≠ "" then .paused else t.state
  error := t.error
  sourceURI := t.sourceURI
  isTemporary := t.isTemporary
  storageState := ((db.storage.find t.hash).map (·.state)).getD (.other "legacy")
  storageError := ((db.storage.find t.hash).map (·.error)).getD ""
  files := db.loadFiles t.hash
  downloadBlock := (db.downloadBlocks.find t.hash).map (·.reason)
  deletion := if t.deletionMode ≠ "" then some (t.deletionMode, t.deletionError) else none
  progressSource := if t.progressSource = "verified" then "last_known" else t.progressSource
  metadataKnown := t.metadataKnown
  pieceLength := t.pieceLength
  numPieces := t.numPieces
  queuePosition := ((db.order.find t.hash).map (·.id)).getD 0
  metadataFormat := t.metadataFormat
  catalogVersion := t.catalogVersion
  control := db.loadControl t.hash
  activationBlocks := db.loadActivationBlocks t.hash
  storage := db.loadStorageLocation t.hash
  operation := db.loadOperation t.hash
  recovery := db.loadStorageRecovery t.hash

def columns (hash : String) : Option TorrentColumns :=
  (db.torrents.find hash).map (TorrentRow.columns db)

def getAllTorrents : Except RepoError (List TorrentColumns) :=
  let torrents := db.torrents.rows.reverse.map (TorrentRow.columns db)
  if torrents.any (·.control.isNone) then .error .conflict else .ok torrents

def checkStorageFence (m : StorageRow) (id : String) : Bool :=
  (db.storage.find m.hash).any (fun s =>
    s.storageID == m.storageID && s.revision == m.revision && s.root == m.root &&
      s.layoutPrefix == m.layoutPrefix && s.version == m.version) &&
    (db.intents.find m.hash).any (·.recordID == id) &&
    (db.torrents.find m.hash).any (·.deletionMode == "")

def pendInventories (session : String) : ReadDB → List (String × Int) → List Write
  | _, [] => []
  | db, (id, revision) :: rest =>
    let w := match db.inventory.find id with
      | none => Write.inventoryInsert { storageID := id, mappingRevision := revision, session }
      | some old => Write.inventoryUpdate { old with
          mappingRevision := revision, session, status := .pending, cursor := -1, observedAt := 0 }
    w :: pendInventories session (db.write w) rest

def beginInventorySession (session : String) : List Write :=
  let ready := db.storage.rows.filter fun s => s.state = .ready ∧ (db.torrents.find s.hash).isSome
  .session session ::
    pendInventories session db (ready.map fun s => (s.storageID, s.revision)).dedup

def primeNewInventory (m : StorageRow) (session : String) : Except RepoError (List Write) :=
  if db.session ≠ session then .error .conflict
  else .ok [.inventoryInsert
    { storageID := m.storageID, mappingRevision := m.revision, session, status := .ready }]

def saveInventoryFiles (m : StorageRow) : ReadDB → List InventoryFile →
    Except RepoError (List Write)
  | _, [] => .ok []
  | db, f :: rest =>
    match db.files.find (m.hash, f.index) with
    | none => .error .conflict
    | some row =>
      if row.path ≠ f.path ∨ row.size ≠ f.size then .error .conflict
      else if f.metadataPath = "" then saveInventoryFiles m db rest
      else if row.metadataPath ≠ "" ∧ row.metadataPath ≠ f.metadataPath then .error .conflict
      else
        let w := Write.file (.update { row with metadataPath := f.metadataPath })
        (w :: ·) <$> saveInventoryFiles m (db.write w) rest

def saveInventory (m : StorageRow) (id session : String) (req : SaveRequest) (now : Int) :
    Except RepoError (List Write) := do
  if !db.checkStorageFence m id then .error .conflict
  else if db.session ≠ session ∨ session = "" then .error .conflict
  else
    let files ← saveInventoryFiles m db req.files
    let row : InventoryRow :=
      ⟨m.storageID, m.revision, session, req.status, req.reason, req.cursor, now⟩
    let saved := if (db.inventory.find m.storageID).isSome then Write.inventoryUpdate row
      else Write.inventoryInsert row
    let blocks :=
      if req.reason = "expected_file_missing" then
        [Write.block (.insert ⟨id, .missingFiles, inventoryBlock⟩)]
      else if req.repair && req.status == .ready &&
          (db.blocks.find (id, .missingFiles)).any (·.reason == inventoryBlock) then
        [Write.block (.delete (id, .missingFiles))]
      else []
    .ok (files ++ saved :: blocks)

inductive Transaction where
  | other (ws : List Write)
  | beginInventorySession (session : String)
  | primeNewInventory (m : StorageRow) (session : String)
  | saveInventory (m : StorageRow) (id session : String) (req : SaveRequest) (now : Int)

def writes : Transaction → List Write
  | .other ws => ws
  | .beginInventorySession session => db.beginInventorySession session
  | .primeNewInventory m session => ((db.primeNewInventory m session).toOption).getD []
  | .saveInventory m id session req now =>
    ((db.saveInventory m id session req now).toOption).getD []

def transact (t : Transaction) : ReadDB := db.commit (db.writes t)

end ReadDB

end TorrentHub
