import Mathlib.Algebra.Ring.Int.Defs
import TorrentHub.Engine.Managed
import TorrentHub.Lib.Except
import TorrentHub.Lib.Table
import TorrentHub.Storage

namespace TorrentHub
open Lib

structure IntentKey where
  hash : String
  recordID : String
  revision : Int
deriving DecidableEq

def RuntimeFence.version (f : RuntimeFence) : IntentKey := ⟨f.hash, f.recordID, f.revision⟩

def IntentKey.attach (v : IntentKey) (attachment : String) : RuntimeFence where
  hash := v.hash
  recordID := v.recordID
  revision := v.revision
  attachment := attachment

/-- The columns of `torrents` that a transaction here reads or writes. -/
structure TorrentRecord where
  hash : String
  deletionMode : String := ""
  state : TorrentState := .queued
  err : ErrorReason := ErrorReason.none
  size : Int := 0
  downloaded : Int := 0
  progressSource : String := "unknown"
  progressObservedAt : Int := 0
deriving DecidableEq

/-- A row of `torrent_intents`. -/
structure IntentRecord where
  hash : String
  recordID : String
  run : RunIntent
  revision : Int := 1
  attachment : String := ""
  sequence : Int := 0
  applied : Int := 0
  observedState : TorrentState := .other ""
  observedError : ErrorReason := ErrorReason.none
deriving DecidableEq

structure FileRecord where
  hash : String
  index : Int
  path : String
  size : Int
  downloaded : Int := 0
  priority : FilePriority := .normal
deriving DecidableEq

def FileRecord.key (f : FileRecord) : String × Int := (f.hash, f.index)

/-- The columns of `torrent_storage` that fence an intent. -/
structure StorageRecord where
  hash : String
  root : String
  state : MappingState
  revision : Int := 1
deriving DecidableEq

/-- A row of `torrent_activation_blocks`. -/
structure BlockRecord where
  recordID : String
  kind : ActivationBlockKind
  reason : String
deriving DecidableEq

def BlockRecord.key (b : BlockRecord) : String × ActivationBlockKind := (b.recordID, b.kind)

/-- A row of `file_inventory`. -/
structure InventoryRecord where
  hash : String
  recordID : String
  fileIndex : Int
  mappingRevision : Int
  metadataPath : String
  size : Int
  expected : Bool
  presence : String
  reason : String
  observedAt : Int
deriving DecidableEq

def InventoryRecord.key (f : InventoryRecord) : String × Int := (f.hash, f.fileIndex)

abbrev Keyed {ρ κ : Type} (key : ρ → κ) := Table ρ κ key fun _ => true

structure TorrentDB where
  torrents : Keyed TorrentRecord.hash := .empty
  intents : Keyed IntentRecord.hash := .empty
  files : Keyed FileRecord.key := .empty
  storage : Keyed StorageRecord.hash := .empty
  blocks : Keyed BlockRecord.key := .empty
  inventory : Keyed InventoryRecord.key := .empty

inductive RepoError where
  | conflict | stale | fileNotFound | torrentNotFound | metadataPending | deletionMode
  | constraint
  | invalid (text : String)
deriving DecidableEq

def RunIntent.valid : RunIntent → Bool
  | .other _ => false
  | _ => true

def ActivationBlockKind.valid : ActivationBlockKind → Bool
  | .other _ => false
  | _ => true

def ActivationBlockKind.resumeRetryable : ActivationBlockKind → Bool
  | .legacyError | .missingFiles | .metadataPersistence | .invalidSelection => true
  | _ => false

def inventoryBlock : String := "Expected file absent during inventory"

namespace TorrentDB

variable (db : TorrentDB)

def undeleted (hash : String) : Bool := (db.torrents.find hash).any (·.deletionMode == "")

def moving (hash : String) : Bool := (db.storage.find hash).any (·.state == .moving)

def current (v : IntentKey) : Bool :=
  (db.intents.find v.hash).any fun i => i.recordID == v.recordID && i.revision == v.revision

def attached (f : RuntimeFence) : Bool :=
  (db.intents.find f.hash).any fun i =>
    i.recordID == f.recordID && i.revision == f.revision && i.attachment == f.attachment

def blocked (recordID : String) : Bool := db.blocks.rows.any (·.recordID == recordID)

def updateIntent (hash : String) (f : IntentRecord → IntentRecord)
    (hf : ∀ i, (f i).hash = i.hash := by intro _; rfl) : TorrentDB :=
  { db with intents := db.intents.adjust (·.hash == hash) f hf }

def updateTorrent (hash : String) (f : TorrentRecord → TorrentRecord)
    (hf : ∀ t, (f t).hash = t.hash := by intro _; rfl) : TorrentDB :=
  { db with torrents := db.torrents.adjust (·.hash == hash) f hf }

def commitRunIntent (v : IntentKey) (run : RunIntent) (retry : Bool) :
    Except RepoError (TorrentDB × IntentKey) :=
  if !run.valid || v.hash == "" || v.recordID == "" || decide (v.revision < 1) ||
      v.revision == maxInt64 then
    .error (.invalid "invalid intent command")
  else
    let db := if retry then
        { db with blocks := db.blocks.remove fun b =>
            b.recordID == v.recordID && b.kind.resumeRetryable }
      else db
    if !(db.current v && db.undeleted v.hash && !db.moving v.hash &&
        (run == .paused || !db.blocked v.recordID)) then .error .conflict
    else
      let db := db.updateIntent v.hash fun i => { i with run, revision := i.revision + 1 }
      let state := if run = .paused then .paused else .queued
      .ok (db.updateTorrent v.hash fun t => { t with state, err := ErrorReason.none },
        { v with revision := v.revision + 1 })

def attachRuntime (v : IntentKey) (token : String) : Except RepoError (TorrentDB × RuntimeFence) :=
  if !(db.current v && decide (0 < v.revision) && db.undeleted v.hash && !db.moving v.hash) then
    .error .conflict
  else
    .ok (db.updateIntent v.hash
        fun i => { i with attachment := token, sequence := 0, applied := 0 },
      v.attach token)

def advanceIntent (v : IntentKey) : Except RepoError TorrentDB :=
  if v.revision < 1 || v.revision == maxInt64 || v.recordID == "" then .error .conflict
  else if !(db.current v && db.undeleted v.hash) then .error .conflict
  else .ok (db.updateIntent v.hash fun i => { i with revision := i.revision + 1 })

/-- Metadata and permanence: `changed` says that some column gets another value. -/
def commitAddMetadata (v : IntentKey) (changed : Bool) :
    Except RepoError (TorrentDB × IntentKey) :=
  if !(db.current v && db.undeleted v.hash && !db.moving v.hash) then .error .conflict
  else if !changed then .ok (db, v)
  else (·, { v with revision := v.revision + 1 }) <$> db.advanceIntent v

/-- The priority of one file or, without an index, of all. The version is read in the
transaction. -/
def updatePriority (hash : String) (index : Option Int) (priority : FilePriority) :
    Except RepoError TorrentDB :=
  let chosen := fun f : FileRecord => f.hash == hash && index.all (· == f.index)
  if !priority.valid || index.any (· < 0) then .error (.invalid "invalid file priority")
  else if !db.files.rows.any chosen then
    .error (if (db.torrents.find hash).isNone then .torrentNotFound
      else if !db.files.rows.any (·.hash == hash) then .metadataPending else .fileNotFound)
  else
    let db := { db with
      files := db.files.adjust chosen (fun f => { f with priority }) fun _ => rfl }
    match db.intents.find hash with
    | none => .error .conflict
    | some i => db.advanceIntent ⟨hash, i.recordID, i.revision⟩

def requestDeletionCancel (hash recordID : String) : TorrentDB :=
  { db with
    intents := db.intents.adjust (fun i => i.hash == hash && i.recordID == recordID)
      (fun i => { i with
        run := .paused
        revision := if i.run = .paused then i.revision else i.revision + 1 }) fun _ => rfl }

def detachRuntime (recordID : String) (paused : Bool) : TorrentDB :=
  let db := if paused then
      { db with blocks := db.blocks.remove fun b =>
          b.recordID == recordID && b.kind == .missingFiles && b.reason == inventoryBlock }
    else db
  { db with
    intents := db.intents.adjust (·.recordID == recordID)
      (fun i => { i with
        attachment := "", sequence := 0, applied := 0
        run := if paused then .paused else i.run
        revision := if paused && i.run ≠ .paused then i.revision + 1 else i.revision })
      fun _ => rfl }

def putActivationBlock (f : RuntimeFence) (kind : ActivationBlockKind) (reason : String) :
    Except RepoError TorrentDB :=
  if !kind.valid || reason == "" || f.attachment == "" then
    .error (.invalid "invalid activation block")
  else if !db.attached f then .error .conflict
  else .ok { db with blocks := db.blocks.put ⟨f.recordID, kind, reason⟩ }

def putRuntimeSafetyBlock (f : RuntimeFence) (kind : ActivationBlockKind) (reason : String) :
    Except RepoError TorrentDB :=
  if !(kind == .metadataPersistence || kind == .invalidSelection || kind == .missingFiles) ||
      reason == "" || f.attachment == "" || decide (f.revision < 1) then
    .error (.invalid "invalid runtime safety block")
  else if !(db.intents.find f.hash).any (fun i => i.recordID == f.recordID &&
      decide (f.revision ≤ i.revision) && i.attachment == f.attachment) then .error .conflict
  else .ok { db with blocks := db.blocks.put ⟨f.recordID, kind, reason⟩ }

def clearActivationBlock (f : RuntimeFence) (kind : ActivationBlockKind) :
    Except RepoError TorrentDB :=
  if !kind.valid || f.attachment == "" then .error (.invalid "invalid activation block kind")
  else if !db.attached f then .error .conflict
  else
    .ok { db with blocks := db.blocks.remove fun b => b.recordID == f.recordID && b.kind == kind }

def inventoryResult (recordID : String) (missing : Bool) : TorrentDB :=
  if !missing then
    { db with blocks := db.blocks.remove fun b =>
        b.recordID == recordID && b.kind == .missingFiles && b.reason == inventoryBlock }
  else if (db.blocks.find (recordID, .missingFiles)).isSome ||
      !db.intents.rows.any (·.recordID == recordID) then db
  else { db with blocks := db.blocks.put ⟨recordID, .missingFiles, inventoryBlock⟩ }

/-- A new record, with its files if they are known. A trigger draws its identity; one in use breaks
a constraint. -/
def createTorrent (hash recordID : String) (run : RunIntent)
    (catalog : Option (List (String × Int))) : Except RepoError TorrentDB :=
  let files := (catalog.getD []).zipIdx.map fun (f, i) =>
    ({ hash, index := i, path := f.1, size := f.2 } : FileRecord)
  if hash == "" || !run.valid then .error (.invalid "invalid new torrent record")
  else if files.any (·.size < 0) || decide (maxInt64 < (files.map (·.size)).sum) then
    .error (.invalid "invalid file catalog")
  else if (db.torrents.find hash).isSome || db.intents.rows.any (·.recordID == recordID) then
    .error .constraint
  else
    let state := if run = .paused then .paused else .queued
    .ok { db with
      torrents := db.torrents.put { hash, state, size := (files.map (·.size)).sum }
      intents := db.intents.put { hash, recordID, run }
      files := files.foldl Table.put db.files }

/-- Deletion is decided before the payload is touched: `mode` is kept until the end. -/
def beginDeletion (hash mode : String) : Except RepoError TorrentDB :=
  if !(db.torrents.find hash).any (fun t => t.deletionMode == "" || t.deletionMode == mode) then
    .error .deletionMode
  else .ok (db.updateTorrent hash fun t => { t with state := .paused, deletionMode := mode })

def completeDeletionCancel (hash : String) : TorrentDB :=
  db.updateTorrent hash fun t => { t with state := .paused, deletionMode := "" }

/-- The mapping goes only with the payload, and only if no other record has its root. -/
def deleteTorrent (hash : String) : TorrentDB :=
  let mode := ((db.torrents.find hash).map TorrentRecord.deletionMode).getD ""
  let root := ((db.storage.find hash).map StorageRecord.root).getD ""
  let owned := fun recordID =>
    db.intents.rows.any fun i => i.hash == hash && i.recordID == recordID
  let db := { db with
    torrents := db.torrents.remove (·.hash == hash)
    intents := db.intents.remove (·.hash == hash)
    files := db.files.remove (·.hash == hash)
    blocks := db.blocks.remove fun b => owned b.recordID
    inventory := db.inventory.remove (·.hash == hash) }
  let shared := db.storage.rows.any fun s => s.root == root && (db.torrents.find s.hash).isSome
  if mode ≠ "payload" then db
  else if root = "" then { db with storage := db.storage.remove (·.hash == hash) }
  else { db with storage := db.storage.remove fun s => s.root == root && !shared }

def saveStorage (s : StorageRecord) : TorrentDB := { db with storage := db.storage.put s }

end TorrentDB

namespace TorrentDB

variable {db db' : TorrentDB} {v v' : IntentKey} {f : RuntimeFence}

theorem commitRunIntent_ok (h : db.commitRunIntent v run retry = .ok (db', v')) :
    db.current v = true ∧ v' = { v with revision := v.revision + 1 } ∧
      db'.intents = (db.updateIntent v.hash fun i => { i with
        run, revision := i.revision + 1 }).intents ∧
      db'.torrents = (db.updateTorrent v.hash fun t => { t with
        state := if run = .paused then .paused else .queued, err := ErrorReason.none }).torrents ∧
      db'.blocks = (if retry then db.blocks.remove fun b =>
        b.recordID == v.recordID && b.kind.resumeRetryable else db.blocks) ∧
      db'.files = db.files ∧ db'.storage = db.storage ∧ db'.inventory = db.inventory := by
  unfold commitRunIntent at h
  rw [ite_error_eq_ok] at h
  obtain ⟨-, h⟩ := h
  dsimp only at h
  rw [ite_error_eq_ok] at h
  obtain ⟨hguard, h⟩ := h
  simp only [Bool.not_eq_true', Bool.not_eq_false, Bool.and_eq_true] at hguard
  cases h
  cases retry <;> exact ⟨hguard.1.1.1, rfl, rfl, rfl, rfl, rfl, rfl, rfl⟩

theorem attachRuntime_ok (h : db.attachRuntime v token = .ok (db', f)) :
    db.current v = true ∧ 0 < v.revision ∧ f = v.attach token ∧
      db' = db.updateIntent v.hash fun i => { i with
        attachment := token, sequence := 0, applied := 0 } := by
  unfold attachRuntime at h
  split at h
  · cases h
  next hguard =>
  simp only [Bool.not_eq_true', Bool.not_eq_false, Bool.and_eq_true, decide_eq_true_eq] at hguard
  cases h
  exact ⟨hguard.1.1.1, hguard.1.1.2, rfl, rfl⟩

theorem advanceIntent_ok (h : db.advanceIntent v = .ok db') : db.current v = true ∧
      db' = db.updateIntent v.hash fun i => { i with revision := i.revision + 1 } := by
  unfold advanceIntent at h
  split at h
  · cases h
  split at h
  · cases h
  next hguard =>
  simp only [Bool.not_eq_true', Bool.not_eq_false, Bool.and_eq_true] at hguard
  cases h
  exact ⟨hguard.1, rfl⟩

theorem commitAddMetadata_ok (h : db.commitAddMetadata v changed = .ok (db', v')) :
    db' = db ∧ v' = v ∨
      db.advanceIntent v = .ok db' ∧ v' = { v with revision := v.revision + 1 } := by
  unfold commitAddMetadata at h
  rw [ite_error_eq_ok] at h
  obtain ⟨-, h⟩ := h
  split at h
  · cases h
    exact .inl ⟨rfl, rfl⟩
  obtain ⟨db'', hdb, h⟩ := map_eq_ok.1 h
  cases h
  exact .inr ⟨hdb, rfl⟩

theorem updatePriority_ok {hash : String} {index : Option Int} {priority : FilePriority}
    (h : db.updatePriority hash index priority = .ok db') :
    ∃ i, db.intents.find hash = some i ∧
      db' = { db with
        files := db.files.adjust (fun f => f.hash == hash && index.all (· == f.index))
          (fun f => { f with priority }) fun _ => rfl }.updateIntent hash
        fun i => { i with revision := i.revision + 1 } := by
  unfold updatePriority at h
  dsimp only at h
  rw [ite_error_eq_ok] at h
  obtain ⟨-, h⟩ := h
  rw [ite_error_eq_ok] at h
  obtain ⟨-, h⟩ := h
  split at h
  · cases h
  next i hi => exact ⟨i, hi, (advanceIntent_ok h).2⟩

end TorrentDB

end TorrentHub
