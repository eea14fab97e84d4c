import TorrentHub.Lib.Run
import TorrentHub.Repository.Aliases

namespace TorrentHub
open Lib

/-- `payload.Root`. -/
def payloadRoot (hash : Bytes) : Bytes := RelPath.join [ascii "payload", hash]

structure MigrationJournal where
  root : Bytes
deriving DecidableEq

/-- The info hashes in the metainfo of a record, and the text of its journal. -/
structure MigrationContext where
  aliases : Bytes → List Bytes
  encode : MigrationJournal → Bytes
  decode : Bytes → Option MigrationJournal
  encode_ne : ∀ j, encode j ≠ []
  decode_encode : ∀ j, decode (encode j) = some j

/-- Where `migrateStorage` stands. -/
inductive MigrationPoint where
  /-- The mapping and its journal are read, the paths are not reserved yet. -/
  | opened
  /-- `registerStorageAliases` of the claim, with the hashes still to do. -/
  | claiming (todo : List Bytes)
  | copying
  | cleaning
  /-- `registerStorageAliases` of the final mapping. -/
  | registering (todo : List Bytes)
  /-- An error is returned after the first release: the deferred save is still to come. -/
  | failing
deriving DecidableEq

/-- A running `migrateStorage` with its variables `m`, `recordID` and `journal`. -/
structure Migration where
  m : StorageMapping
  recordID : Bytes
  journal : MigrationJournal
  point : MigrationPoint
deriving DecidableEq

/-- The mappings, the record of each hash, the mappings that layout changes have read, and the one
migration that `storage/migration` admits. -/
structure AliasState where
  table : MappingTable
  records : Bytes → Option Bytes
  plans : List StorageMapping
  worker : Option Migration

inductive AliasAction where
  | initializeStorage (hash recordID storageID : Bytes)
  | reserveStorage (hash storageID : Bytes)
  | publishRecord (hash recordID : Bytes)
  | readMapping (hash : Bytes)
  | setStorageLayout (before : StorageMapping) (recordID : Bytes) (next : Layout)
  | commitStorageOperation (before : StorageMapping) (recordID : Bytes) (next : Layout)
  | claimStorageAlias (aliasHash owner : Bytes)
  | migrate (hash : Bytes)
  | block
  | reserveOwnership
  | register
  | saveClaimed
  | saveProgress
  | saveReady
  | lockFinal
  | saveFinal
  | fail
  | saveFailure
  | crash
deriving DecidableEq

namespace Migration

/-- The mapping that `registerStorageAliases` gives to the aliases before the copy. -/
def claim (w : Migration) : StorageMapping :=
  { w.m with root := w.journal.root, state := .moving, version := 0, manifest := [] }

def final (w : Migration) : StorageMapping := { w.m with manifest := [] }

def claimed (c : MigrationContext) (w : Migration) : StorageMapping :=
  { w.m with state := .moving, manifest := c.encode w.journal }

def progressed (c : MigrationContext) (w : Migration) : StorageMapping :=
  { w.m with manifest := c.encode w.journal }

def committed (c : MigrationContext) (w : Migration) : StorageMapping :=
  { w.m with
    version := layoutVersion, root := w.journal.root, state := .ready
    manifest := c.encode w.journal }

def blocked (w : Migration) : StorageMapping := { w.m with state := .other "blocked" }

end Migration

namespace AliasState

def init : AliasState := ⟨Table.empty, fun _ => none, [], none⟩

/-- No row has the identity, which `storage_owner_insert` draws at random. -/
def freshID (s : AliasState) (storageID : Bytes) : Bool :=
  storageID != [] && s.table.rows.all fun row => row.storageID != storageID

/-- `EnsureStorageMapping` of a mapping without a root. -/
def ensure (s : AliasState) (hash storageID : Bytes) (version : Int) (state : MappingState) :
    AliasState :=
  { s with table := s.table.put ⟨hash, version, [], state, [], storageID, 1, []⟩ }

def published (s : AliasState) (storageID : Bytes) : Bool :=
  s.table.rows.any fun row => row.storageID == storageID && (s.records row.hash).isSome

/-- The record that `setStorageLayoutTx` demands; an empty one only of an unpublished storage. -/
def authorized (s : AliasState) (before : StorageMapping) (recordID : Bytes) : Bool :=
  if recordID == [] then !s.published before.storageID
  else s.records before.hash == some recordID

def setLayout (s : AliasState) (before : StorageMapping) (recordID : Bytes) (next : Layout) :
    AliasState :=
  if s.plans.contains before && s.authorized before recordID then
    match s.table.setStorageLayout before next with
    | .ok table => { s with table }
    | .error _ => s
  else s

def journalOf (c : MigrationContext) (m : StorageMapping) : Option MigrationJournal :=
  if m.manifest == [] then some ⟨payloadRoot m.hash⟩ else c.decode m.manifest

def failed (s : AliasState) (w : Migration) : AliasState :=
  match w.point with
  | .opened | .claiming _ => { s with worker := none }
  | _ => { s with worker := some { w with point := .failing } }

/-- A statement of the migration on its own mapping, which becomes `m`. -/
def saves (s : AliasState) (w : Migration) (m : StorageMapping) (point : MigrationPoint) :
    AliasState :=
  match s.table.saveStorageMapping m with
  | some table => { s with table, worker := some { w with m, point } }
  | none => s.failed { w with m }

/-- One round of the loop of `registerStorageAliases`. -/
def registerAlias (s : AliasState) (w : Migration) (m : StorageMapping) (hash : Bytes)
    (point : MigrationPoint) : AliasState :=
  if hash == m.hash then { s with worker := some { w with point } }
  else if (s.table.find hash).any fun old => old.root != m.root then s.failed w
  else match s.table.saveStorageAlias { m with hash } with
    | some table => { s with table, worker := some { w with point } }
    | none => s.failed w

/-- The statements of `migrateStorage`, each taken where it stands. -/
def migrationStep (c : MigrationContext) (s : AliasState) (w : Migration) :
    AliasAction → AliasState
  | .block =>
    match w.point with
    | .opened =>
      match s.table.saveStorageMappingForRecord w.blocked
          (s.records w.m.hash == some w.recordID) with
      | some table => { s with table, worker := none }
      | none => { s with worker := none }
    | _ => s
  | .reserveOwnership =>
    match w.point with
    | .opened =>
      let point := if w.m.state == .ready then .cleaning else .claiming (c.aliases w.m.hash)
      { s with worker := some { w with point } }
    | _ => s
  | .register =>
    match w.point with
    | .claiming (hash :: rest) => s.registerAlias w w.claim hash (.claiming rest)
    | .registering (hash :: rest) => s.registerAlias w w.final hash (.registering rest)
    | _ => s
  | .saveClaimed =>
    match w.point with
    | .claiming [] => s.saves w (w.claimed c) .copying
    | _ => s
  | .saveProgress =>
    match w.point with
    | .copying => s.saves w (w.progressed c) .copying
    | _ => s
  | .saveReady =>
    match w.point with
    | .copying => s.saves w (w.committed c) .cleaning
    | _ => s
  | .lockFinal =>
    match w.point with
    | .cleaning =>
      if s.records w.m.hash == some w.recordID then
        { s with worker := some { w with point := .registering (c.aliases w.m.hash) } }
      else s.failed w
    | _ => s
  | .saveFinal =>
    match w.point with
    | .registering [] =>
      match s.table.saveStorageMapping w.final with
      | some table => { s with table, worker := none }
      | none => s.failed w
    | _ => s
  | .fail => s.failed w
  | .saveFailure =>
    match w.point with
    | .failing =>
      match s.table.saveStorageMappingForRecord w.m (s.records w.m.hash == some w.recordID) with
      | some table => { s with table, worker := none }
      | none => { s with worker := none }
    | _ => s
  | .crash => { s with worker := none }
  | _ => s

def step (c : MigrationContext) (s : AliasState) (a : AliasAction) : AliasState :=
  match a with
  | .initializeStorage hash recordID storageID =>
    if (s.table.find hash).isNone && s.freshID storageID then
      { s.ensure hash storageID 0 (.other "legacy") with
        records := Function.update s.records hash (some recordID) }
    else s
  | .reserveStorage hash storageID =>
    if (s.table.find hash).isNone && s.freshID storageID then
      s.ensure hash storageID namedLayoutVersion .reserved
    else s
  | .publishRecord hash recordID =>
    match s.table.find hash with
    | some row =>
      if (row.ready || row.state == .reserved) && !s.published row.storageID then
        { s with records := Function.update s.records hash (some recordID) }
      else s
    | none => s
  | .readMapping hash =>
    match s.table.find hash with
    | some row =>
      if row.ready || row.state == .reserved then { s with plans := row :: s.plans } else s
    | none => s
  | .setStorageLayout before recordID next => s.setLayout before recordID next
  | .commitStorageOperation before recordID next =>
    let row := (s.table.find before.hash).map fun m => ⟨m, (s.records m.hash).getD [], false⟩
    if checkStorageFence row before recordID then s.setLayout before recordID next else s
  | .claimStorageAlias aliasHash owner =>
    { s with table := (s.table.claimStorageAlias aliasHash owner).1 }
  | .migrate hash =>
    match s.worker, s.table.find hash, s.records hash with
    | none, some m, some recordID =>
      if m.state == .reserved || (m.state == .ready && m.manifest == []) then s
      else match journalOf c m with
        | some journal => { s with worker := some ⟨m, recordID, journal, .opened⟩ }
        | none => s
    | _, _, _ => s
  | a =>
    match s.worker with
    | some w => s.migrationStep c w a
    | none => s

def run (c : MigrationContext) (as : List AliasAction) : AliasState := exec (step c) init as

end AliasState

end TorrentHub
