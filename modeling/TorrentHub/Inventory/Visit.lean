import TorrentHub.Lib.Page
import TorrentHub.Storage

namespace TorrentHub
open Lib

inductive InventoryStatus where
  | pending | observing | ready | blocked
  | other (text : String)
deriving DecidableEq

structure InventoryState where
  revision : Int
  session : String
  status : InventoryStatus := .pending
  reason : String := ""
  cursor : Int := -1
deriving DecidableEq

structure CatalogFile where
  index : Nat
  path : String
  size : Int
deriving DecidableEq

structure Catalog where
  files : List CatalogFile
  ascending : Ascending (fun f : CatalogFile => (f.index : Int)) files

inductive Presence where
  | unknown | present | missing
deriving DecidableEq

structure FileInventory where
  recordID : Bytes
  revision : Int
  path : String
  size : Int
  expected : Bool
  presence : Presence
  reason : String
deriving DecidableEq

structure InventoryFile where
  index : Nat
  path : String
  size : Int
  expected : Bool
  metadataPath : String := ""
  presence : Presence := .unknown
  reason : String := ""
deriving DecidableEq

structure InventoryDB where
  activeSession : String
  owner : MappingRow
  catalog : Catalog
  metadataPath : Nat → String
  row : Option InventoryState
  observations : Nat → Option FileInventory
  missingBlock : Option String

def inventoryPageSize : Nat := 128

def missingBlockReason : String := "Expected file absent during inventory"

def InventoryDB.expected (db : InventoryDB) (m : StorageMapping) (id : Bytes)
    (f : CatalogFile) : Bool :=
  match db.observations f.index with
  | none => false
  | some e =>
    e.recordID == id && e.revision == m.revision && e.path == f.path && e.size == f.size &&
      e.expected

def inventoryFiles (db : InventoryDB) (m : StorageMapping) (id : Bytes) (after : Int) :
    List InventoryFile :=
  (page (fun f : CatalogFile => (f.index : Int)) inventoryPageSize after db.catalog.files).map
    fun f => { index := f.index, path := f.path, size := f.size, expected := db.expected m id f }

structure SaveRequest where
  status : InventoryStatus
  reason : String
  cursor : Int
  files : List InventoryFile := []
  repair : Bool := false
deriving DecidableEq

/-- The catalog must still hold the file under the same path and size, and its metadata path is
written once. -/
def saveFile (m : StorageMapping) (id : Bytes) (db : InventoryDB) (f : InventoryFile) :
    Option InventoryDB :=
  if (db.catalog.files.filter fun c =>
      c.index == f.index && c.path == f.path && c.size == f.size).length ≠ 1 then none
  else if f.metadataPath ≠ "" ∧ db.metadataPath f.index ≠ "" ∧
      db.metadataPath f.index ≠ f.metadataPath then none
  else some { db with
    metadataPath := if f.metadataPath = "" then db.metadataPath
      else Function.update db.metadataPath f.index f.metadataPath
    observations := Function.update db.observations f.index (some
      { recordID := id, revision := m.revision, path := f.path, size := f.size,
        expected := f.expected, presence := f.presence, reason := f.reason }) }

def saveRow (db : InventoryDB) (m : StorageMapping) (session : String) (req : SaveRequest) :
    InventoryDB :=
  { db with
    row := some ⟨m.revision, session, req.status, req.reason, req.cursor⟩
    missingBlock :=
      if req.reason = "expected_file_missing" then db.missingBlock.or (some missingBlockReason)
      else if req.repair = true ∧ req.status = .ready ∧
          db.missingBlock = some missingBlockReason then none
      else db.missingBlock }

def saveInventory (db : InventoryDB) (m : StorageMapping) (id : Bytes) (session : String)
    (req : SaveRequest) : Option InventoryDB :=
  if checkStorageFence (some db.owner) m id = false then none
  else if db.activeSession ≠ session ∨ session = "" then none
  else (req.files.foldlM (saveFile m id) db).map fun db => saveRow db m session req

def queueInventory (db : InventoryDB) (m : StorageMapping) (id : Bytes) (session : String) :
    Option InventoryDB :=
  saveInventory db m id session { status := .pending, reason := "", cursor := -1 }

def beginInventorySession (db : InventoryDB) (session : String) : InventoryDB :=
  { db with
    activeSession := session
    row :=
      if db.owner.mapping.state = .ready then
        match db.row with
        | none => some { revision := db.owner.mapping.revision, session := session }
        | some s => some { s with
            revision := db.owner.mapping.revision, session := session, status := .pending,
            cursor := -1 }
      else db.row }

/-- A new revision of the mapping, with the trigger on it: the row is reset, except for its
session and its reason. -/
def inventoryMapping (db : InventoryDB) (revision : Int) : InventoryDB :=
  { db with
    owner := { db.owner with mapping := { db.owner.mapping with revision := revision } }
    row :=
      if revision ≠ db.owner.mapping.revision then
        db.row.map fun s => { s with revision := revision, status := .pending, cursor := -1 }
      else db.row
    observations :=
      if revision ≠ db.owner.mapping.revision then
        fun i => (db.observations i).map fun e =>
          { e with revision := revision, presence := .unknown }
      else db.observations }

inductive VisitGate where
  | admitted | busy | noRecord | reservedRoot | notReady | recoveryBlocks | failed
deriving DecidableEq

inductive VolumeResult where
  | passed | unregistered | unavailable
deriving DecidableEq

inductive MetadataResult where
  | info (files : Nat)
  | absent | awaited | unreadable
deriving DecidableEq

inductive OpenResult where
  | opened | closeFailed | notExist | failed
deriving DecidableEq

structure VisitWorld where
  gate : VisitGate := .admitted
  volume : VolumeResult := .passed
  metadata : MetadataResult
  rootOpens : Bool := true
  cancelled : Nat → Bool := fun _ => false
  located : Nat → Bool := fun _ => true
  metadataPath : Nat → String := fun _ => ""
  opened : Nat → OpenResult := fun _ => .opened

structure VisitStart where
  cursor : Int := -1
  reason : String := ""
  observing : Bool := false
deriving DecidableEq

def visitStart (row : Option InventoryState) (m : StorageMapping) (session : String)
    (repair : Bool) : Option VisitStart :=
  match row with
  | none => some {}
  | some s =>
    if s.session = session ∧ s.revision = m.revision ∧ s.status = .ready ∧ repair = false then none
    else if s.status = .blocked ∧ repair = false then none
    else if (s.status = .pending ∨ s.status = .observing) ∧ s.revision = m.revision ∧
        s.session = session then
      some ⟨s.cursor, s.reason, s.status = .observing⟩
    else some { observing := s.status = .observing }

def inspectFile (world : VisitWorld) (repair : Bool) (f : InventoryFile) (reason : String) :
    Option (InventoryFile × String) :=
  let f := { f with metadataPath := world.metadataPath f.index }
  match world.opened f.index with
  | .opened => some ({ f with presence := .present, expected := true }, reason)
  | .closeFailed => none
  | .notExist =>
    if f.expected && !repair then
      some ({ f with presence := .missing, reason := "expected_file_missing" },
        "expected_file_missing")
    else
      some ({ f with presence := .missing, reason := "not_created",
                     expected := if repair then false else f.expected }, reason)
  | .failed =>
    some ({ f with presence := .unknown, reason := "access_error" }, "access_error")

def inspectFiles (world : VisitWorld) (repair : Bool) (count : Nat) :
    List InventoryFile → Int → String → Option (List InventoryFile × Int × String)
  | [], cursor, reason => some ([], cursor, reason)
  | f :: rest, _, reason =>
    if world.cancelled f.index = true ∨ count ≤ f.index ∨ world.located f.index = false then none
    else
      match inspectFile world repair f reason with
      | none => none
      | some (f, reason) =>
        match inspectFiles world repair count rest f.index reason with
        | none => none
        | some (files, cursor, reason) => some (f :: files, cursor, reason)

def pageStatus (observing : Bool) (length : Nat) (reason : String) : InventoryStatus :=
  if length < inventoryPageSize then if reason = "" then .ready else .blocked
  else if observing then .observing else .pending

def inspectPage (world : VisitWorld) (repair : Bool) (count : Nat) (start : VisitStart)
    (files : List InventoryFile) : Option SaveRequest :=
  if world.rootOpens = false then none
  else
    match inspectFiles world repair count files start.cursor start.reason with
    | none => none
    | some (inspected, cursor, reason) =>
      some ⟨pageStatus start.observing files.length reason, reason, cursor, inspected, repair⟩

def inspectStarted (db : InventoryDB) (world : VisitWorld) (repair : Bool) (start : VisitStart) :
    Option SaveRequest :=
  match world.volume with
  | .unavailable => some ⟨.blocked, "volume_unavailable", start.cursor, [], false⟩
  | .unregistered => some ⟨.blocked, "volume_unregistered", start.cursor, [], false⟩
  | .passed =>
    let files := inventoryFiles db db.owner.mapping db.owner.recordID start.cursor
    match world.metadata with
    | .unreadable => some ⟨.blocked, "metadata_error", start.cursor, [], false⟩
    | .awaited => none
    | .absent => if files = [] then inspectPage world repair 0 start files else none
    | .info count => inspectPage world repair count start files

def inspectInventory (db : InventoryDB) (session : String) (world : VisitWorld) (repair : Bool) :
    Option SaveRequest :=
  if world.gate ≠ .admitted then none
  else
    match visitStart db.row db.owner.mapping session repair with
    | none => none
    | some start => inspectStarted db world repair start

def visit (session : String) (repair : Bool) (db : InventoryDB) (world : VisitWorld) :
    InventoryDB :=
  match inspectInventory db session world repair with
  | none => db
  | some req =>
    (saveInventory db db.owner.mapping db.owner.recordID session req).getD db

end TorrentHub
