import TorrentHub.Repository.Intent

namespace TorrentHub
open Lib

structure FileObservation where
  index : Int
  verifiedBytes : Int
deriving DecidableEq

structure RuntimeObservation where
  fence : RuntimeFence
  sequence : Int
  appliedRevision : Int
  state : TorrentState
  err : ErrorReason
  progressSource : String
  observedAt : Int
  verifiedBytes : Int
  files : List FileObservation
deriving DecidableEq

namespace RuntimeObservation

def verified (o : RuntimeObservation) : Bool := o.progressSource == "verified"

def checkFiles : List FileObservation → List Int → Int → Except RepoError Int
  | [], _, sum => .ok sum
  | f :: files, seen, sum =>
    if f.index < 0 || f.verifiedBytes < 0 || seen.contains f.index ||
        decide (maxInt64 - sum < f.verifiedBytes) then .error (.invalid "invalid file observation")
    else checkFiles files (f.index :: seen) (sum + f.verifiedBytes)

def check (o : RuntimeObservation) : Except RepoError Int :=
  if o.fence.hash == "" || o.fence.recordID == "" || o.fence.attachment == "" ||
      decide (o.fence.revision < 1) || decide (o.sequence < 1) ||
      decide (o.appliedRevision < 0) || decide (o.fence.revision < o.appliedRevision) ||
      decide (o.verifiedBytes < 0) then .error (.invalid "invalid runtime observation")
  else if o.progressSource != "unknown" && o.progressSource != "checking" && !o.verified ||
      o.verified && decide (o.observedAt ≤ 0) then
    .error (.invalid "invalid observation provenance")
  else checkFiles o.files [] 0

end RuntimeObservation

namespace TorrentDB

variable (db : TorrentDB) (o : RuntimeObservation)

def accepts : Bool :=
  (db.intents.find o.fence.hash).any (fun i =>
    i.recordID == o.fence.recordID && i.revision == o.fence.revision &&
      i.attachment == o.fence.attachment && decide (i.sequence < o.sequence)) &&
    db.undeleted o.fence.hash && !db.moving o.fence.hash

def saveIntent : TorrentDB :=
  db.updateIntent o.fence.hash fun i => { i with
    sequence := o.sequence, applied := o.appliedRevision
    observedState := o.state, observedError := o.err }

def saveTorrent : TorrentDB :=
  db.updateTorrent o.fence.hash fun t => { t with
    downloaded := o.verifiedBytes, progressSource := "verified"
    progressObservedAt := o.observedAt }

def saveBytes (f : FileObservation) : TorrentDB :=
  { db with
    files := db.files.adjust (fun r => r.hash == o.fence.hash && r.index == f.index)
      (fun r => { r with downloaded := f.verifiedBytes }) fun _ => rfl }

def expectFile (f : FileObservation) : TorrentDB :=
  match db.files.find (o.fence.hash, f.index), db.storage.find o.fence.hash with
  | some file, some s =>
    let row : InventoryRecord :=
      { hash := o.fence.hash, recordID := o.fence.recordID, fileIndex := f.index
        mappingRevision := s.revision, metadataPath := file.path, size := file.size
        expected := true, presence := "present", reason := ""
        observedAt := o.observedAt / 1000000 }
    if s.state ≠ .ready then db
    else if (db.inventory.find row.key).all fun old =>
        !old.expected || old.recordID != row.recordID ||
          old.mappingRevision != row.mappingRevision || old.metadataPath != row.metadataPath ||
          old.size != row.size then
      { db with inventory := db.inventory.put row }
    else db
  | _, _ => db

/-- One file of the loop. `catalog` holds the rows as they were before it. -/
def saveFile (catalog : Keyed FileRecord.key) (db : TorrentDB) (f : FileObservation) :
    Except RepoError TorrentDB :=
  match catalog.find (o.fence.hash, f.index) with
  | none => .error .fileNotFound
  | some current =>
    if current.size < f.verifiedBytes then .error .fileNotFound
    else
      let db := if o.verified && f.verifiedBytes != current.downloaded then db.saveBytes o f else db
      .ok (if o.verified && decide (0 < f.verifiedBytes) then db.expectFile o f else db)

def saveVerified (fileBytes : Int) : Except RepoError TorrentDB :=
  if !o.verified then .ok db
  else if db.files.rows.countP (·.hash == o.fence.hash) ≠ o.files.length ∨
      fileBytes ≠ o.verifiedBytes then
    .error (.invalid "verified observation must cover the complete file catalog")
  else if !(db.torrents.find o.fence.hash).any (fun t =>
      decide (0 ≤ o.verifiedBytes) && decide (o.verifiedBytes ≤ t.size)) then
    .error (.invalid "verified bytes exceed catalog size")
  else .ok (db.saveTorrent o)

def saveRuntimeObservation : Except RepoError TorrentDB := do
  let fileBytes ← o.check
  if !db.accepts o then .error .stale
  else
    let saved ← (db.saveIntent o).saveVerified o fileBytes
    o.files.foldlM (saveFile o saved.files) saved

end TorrentDB

namespace TorrentDB

variable {db db' : TorrentDB} {o : RuntimeObservation} {catalog : Keyed FileRecord.key}

structure Beside (db db' : TorrentDB) : Prop where
  torrents : db'.torrents = db.torrents
  intents : db'.intents = db.intents
  storage : db'.storage = db.storage
  blocks : db'.blocks = db.blocks

theorem Beside.trans (h : Beside db db') (h' : Beside db' db'') : Beside db db'' :=
  ⟨h'.torrents.trans h.torrents, h'.intents.trans h.intents, h'.storage.trans h.storage,
    h'.blocks.trans h.blocks⟩

theorem expectFile_beside (db : TorrentDB) (o : RuntimeObservation) (f : FileObservation) :
    Beside db (db.expectFile o f) := by
  simp only [expectFile]
  repeat' split
  all_goals exact ⟨rfl, rfl, rfl, rfl⟩

theorem saveFile_beside (h : saveFile o catalog db f = .ok db') : Beside db db' := by
  unfold saveFile at h
  split at h
  · cases h
  next current _ =>
  rw [ite_error_eq_ok] at h
  obtain ⟨-, h⟩ := h
  dsimp only at h
  cases h
  have hbytes : Beside db (if o.verified && f.verifiedBytes != current.downloaded then
      db.saveBytes o f else db) := by
    split <;> exact ⟨rfl, rfl, rfl, rfl⟩
  split
  · exact hbytes.trans (expectFile_beside _ _ _)
  · exact hbytes

theorem saveFiles_beside {files : List FileObservation}
    (h : files.foldlM (saveFile o catalog) db = .ok db') : Beside db db' :=
  foldlM_keeps (P := Beside db) (fun _ _ _ hs hf => hs.trans (saveFile_beside hf))
    ⟨rfl, rfl, rfl, rfl⟩ h

theorem saveRuntimeObservation_ok (h : db.saveRuntimeObservation o = .ok db') :
    ∃ fileBytes saved, o.check = .ok fileBytes ∧ db.accepts o = true ∧
      (db.saveIntent o).saveVerified o fileBytes = .ok saved ∧
      o.files.foldlM (saveFile o saved.files) saved = .ok db' := by
  obtain ⟨fileBytes, hcheck, h⟩ := bind_eq_ok.1 h
  rw [ite_error_eq_ok, Bool.not_eq_true', Bool.not_eq_false] at h
  obtain ⟨haccepts, h⟩ := h
  obtain ⟨saved, hsaved, h⟩ := bind_eq_ok.1 h
  exact ⟨fileBytes, saved, hcheck, haccepts, hsaved, h⟩

theorem saveVerified_ok (h : db.saveVerified o fileBytes = .ok db') :
    o.verified = false ∧ db' = db ∨
      o.verified = true ∧ db.files.rows.countP (·.hash == o.fence.hash) = o.files.length ∧
        fileBytes = o.verifiedBytes ∧ (db.torrents.find o.fence.hash).any (fun t =>
          decide (0 ≤ o.verifiedBytes) && decide (o.verifiedBytes ≤ t.size)) = true ∧
        db' = db.saveTorrent o := by
  unfold saveVerified at h
  split at h
  next hv =>
    cases h
    exact .inl ⟨by simpa using hv, rfl⟩
  next hv =>
  rw [ite_error_eq_ok] at h
  obtain ⟨hcover, h⟩ := h
  rw [ite_error_eq_ok] at h
  obtain ⟨hsize, h⟩ := h
  rw [not_or, not_not, not_not] at hcover
  cases h
  exact .inr ⟨by simpa using hv, hcover.1, hcover.2, by simpa using hsize, rfl⟩

end TorrentDB

inductive RepoAction where
  | commitRunIntent (v : IntentKey) (run : RunIntent) (retry : Bool)
  | attachRuntime (v : IntentKey) (token : String)
  | commitAddMetadata (v : IntentKey) (changed : Bool)
  | updatePriority (hash : String) (index : Option Int) (priority : FilePriority)
  | requestDeletionCancel (hash recordID : String)
  | detachRuntime (recordID : String) (paused : Bool)
  | putRuntimeSafetyBlock (f : RuntimeFence) (kind : ActivationBlockKind) (reason : String)
  | inventoryResult (recordID : String) (missing : Bool)
  | createTorrent (hash recordID : String) (run : RunIntent)
      (catalog : Option (List (String × Int)))
  | beginDeletion (hash mode : String)
  | completeDeletionCancel (hash : String)
  | deleteTorrent (hash : String)
  | saveStorage (s : StorageRecord)
  | saveRuntimeObservation (o : RuntimeObservation)

namespace TorrentDB

def transact (db : TorrentDB) : RepoAction → Except RepoError TorrentDB
  | .commitRunIntent v run retry => Prod.fst <$> db.commitRunIntent v run retry
  | .attachRuntime v token => Prod.fst <$> db.attachRuntime v token
  | .commitAddMetadata v changed => Prod.fst <$> db.commitAddMetadata v changed
  | .updatePriority hash index priority => db.updatePriority hash index priority
  | .requestDeletionCancel hash recordID => .ok (db.requestDeletionCancel hash recordID)
  | .detachRuntime recordID paused => .ok (db.detachRuntime recordID paused)
  | .putRuntimeSafetyBlock f kind reason => db.putRuntimeSafetyBlock f kind reason
  | .inventoryResult recordID missing => .ok (db.inventoryResult recordID missing)
  | .createTorrent hash recordID run catalog => db.createTorrent hash recordID run catalog
  | .beginDeletion hash mode => db.beginDeletion hash mode
  | .completeDeletionCancel hash => .ok (db.completeDeletionCancel hash)
  | .deleteTorrent hash => .ok (db.deleteTorrent hash)
  | .saveStorage s => .ok (db.saveStorage s)
  | .saveRuntimeObservation o => db.saveRuntimeObservation o

def step (db : TorrentDB) (action : RepoAction) : TorrentDB :=
  match db.transact action with
  | .error _ => db
  | .ok db => db

end TorrentDB

end TorrentHub
