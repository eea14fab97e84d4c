import TorrentHub.Inventory.Visit

namespace TorrentHub
open Lib InventoryFile

variable {session : String} {db db' : InventoryDB} {m : StorageMapping} {id : Bytes}
  {req : SaveRequest} {world : VisitWorld} {repair : Bool} {start : VisitStart}
  {f f' : InventoryFile} {files files' : List InventoryFile} {cursor cursor' : Int}
  {reason reason' : String} {count : Nat}

structure SameBooks (db db' : InventoryDB) : Prop where
  activeSession : db'.activeSession = db.activeSession
  owner : db'.owner = db.owner
  catalog : db'.catalog = db.catalog
  row : db'.row = db.row
  missingBlock : db'.missingBlock = db.missingBlock

theorem saveFile_same (h : saveFile m id db f = some db') : SameBooks db db' := by
  unfold saveFile at h
  split at h
  · cases h
  split at h
  · cases h
  cases h
  exact ⟨rfl, rfl, rfl, rfl, rfl⟩

theorem saveFiles_same (h : files.foldlM (saveFile m id) db = some db') : SameBooks db db' := by
  induction files generalizing db with
  | nil =>
    cases h
    exact ⟨rfl, rfl, rfl, rfl, rfl⟩
  | cons f files ih =>
    rw [List.foldlM_cons, Option.bind_eq_bind, Option.bind_eq_some_iff] at h
    obtain ⟨mid, hf, hrest⟩ := h
    have h₁ := saveFile_same hf
    have h₂ := ih hrest
    exact ⟨h₂.activeSession.trans h₁.activeSession, h₂.owner.trans h₁.owner,
      h₂.catalog.trans h₁.catalog, h₂.row.trans h₁.row,
      h₂.missingBlock.trans h₁.missingBlock⟩

structure Saved (db : InventoryDB) (m : StorageMapping) (session : String) (req : SaveRequest)
    (db' : InventoryDB) : Prop where
  activeSession : db'.activeSession = db.activeSession
  owner : db'.owner = db.owner
  catalog : db'.catalog = db.catalog
  row : db'.row = some ⟨m.revision, session, req.status, req.reason, req.cursor⟩
  missingBlock : req.reason ≠ "expected_file_missing" → req.repair = false →
    db'.missingBlock = db.missingBlock

theorem saveInventory_saved (h : saveInventory db m id session req = some db') :
    Saved db m session req db' := by
  unfold saveInventory at h
  split at h
  · cases h
  split at h
  · cases h
  obtain ⟨mid, hmid, rfl⟩ := Option.map_eq_some_iff.1 h
  have hs := saveFiles_same hmid
  refine ⟨hs.activeSession, hs.owner, hs.catalog, rfl, fun hr hp => ?_⟩
  simp only [saveRow, hr, hp, Bool.false_eq_true, false_and, ↓reduceIte]
  exact hs.missingBlock

theorem inspectFile_index (h : inspectFile world repair f reason = some (f', reason')) :
    f'.index = f.index := by
  simp only [inspectFile] at h
  split at h
  · cases h; rfl
  · cases h
  · split at h <;> cases h <;> rfl
  · cases h; rfl

theorem inspectFiles_cursor
    (h : inspectFiles world repair count files cursor reason = some (files', cursor', reason')) :
    cursor' = advance (fun f : InventoryFile => (f.index : Int)) cursor files ∧
      files'.map index = files.map index := by
  induction files generalizing cursor reason files' with
  | nil =>
    cases h
    exact ⟨rfl, rfl⟩
  | cons f files ih =>
    simp only [inspectFiles] at h
    split at h
    · cases h
    split at h
    · cases h
    next f₁ reason₁ hf =>
    split at h
    · cases h
    next files₁ cursor₁ reason₂ hrest =>
    cases h
    obtain ⟨hc, hm⟩ := ih hrest
    rw [inspectFile_index hf] at hc
    exact ⟨hc, by simp [hm, inspectFile_index hf]⟩

def FileClean (world : VisitWorld) (f : InventoryFile) : Prop :=
  world.opened f.index ≠ .failed ∧ (world.opened f.index = .notExist → f.expected = false)

theorem inspectFile_clean (hc : FileClean world f)
    (h : inspectFile world false f reason = some (f', reason')) : reason' = reason := by
  simp only [inspectFile] at h
  split at h
  · cases h; rfl
  · cases h
  next hopen =>
    rw [if_neg (by simp [hc.2 hopen])] at h
    cases h; rfl
  next hopen => exact absurd hopen hc.1

theorem inspectFiles_clean (hc : ∀ f ∈ files, FileClean world f)
    (h : inspectFiles world false count files cursor reason = some (files', cursor', reason')) :
    reason' = reason := by
  induction files generalizing cursor reason files' with
  | nil =>
    cases h
    rfl
  | cons f files ih =>
    simp only [inspectFiles] at h
    split at h
    · cases h
    split at h
    · cases h
    next f₁ reason₁ hf =>
    split at h
    · cases h
    next files₁ cursor₁ reason₂ hrest =>
    cases h
    rw [ih (fun g hg => hc g (by simp [hg])) hrest]
    exact inspectFile_clean (hc f (by simp)) hf

def visitPage (db : InventoryDB) (start : VisitStart) : List InventoryFile :=
  inventoryFiles db db.owner.mapping db.owner.recordID start.cursor

/-- The volume check passes, the metadata is readable, and no file of the page is missing against
expectation or inaccessible. -/
structure CleanVisit (session : String) (db : InventoryDB) (world : VisitWorld) : Prop where
  volume : world.volume = .passed
  metadata : world.metadata ≠ .unreadable
  files : ∀ start, visitStart db.row db.owner.mapping session false = some start →
    ∀ f ∈ visitPage db start, FileClean world f

theorem inspectStarted_cases (h : inspectStarted db world repair start = some req) :
    (req.status = .blocked ∧ (world.volume ≠ .passed ∨ world.metadata = .unreadable)) ∨
      ∃ count, inspectPage world repair count start (visitPage db start) = some req := by
  unfold inspectStarted at h
  split at h
  next hv =>
    cases h
    exact .inl ⟨rfl, .inl (by rw [hv]; decide)⟩
  next hv =>
    cases h
    exact .inl ⟨rfl, .inl (by rw [hv]; decide)⟩
  · simp only at h
    split at h
    next hm =>
      cases h
      exact .inl ⟨rfl, .inr hm⟩
    · cases h
    · split at h
      · exact .inr ⟨0, h⟩
      · cases h
    · exact .inr ⟨_, h⟩

theorem inspectPage_request (h : inspectPage world repair count start files = some req) :
    req.status = pageStatus start.observing files.length req.reason ∧
      req.cursor = advance (fun f : InventoryFile => (f.index : Int)) start.cursor files ∧
      req.files.map index = files.map index ∧ req.repair = repair := by
  unfold inspectPage at h
  split at h
  · cases h
  split at h
  · cases h
  next hfiles =>
  cases h
  obtain ⟨hc, hm⟩ := inspectFiles_cursor hfiles
  exact ⟨rfl, hc, hm, rfl⟩

theorem inspectPage_clean (hf : ∀ f ∈ files, FileClean world f)
    (h : inspectPage world false count start files = some req) : req.reason = start.reason := by
  unfold inspectPage at h
  split at h
  · cases h
  split at h
  · cases h
  next hfiles =>
  cases h
  exact inspectFiles_clean hf hfiles

theorem inspectStarted_clean (hv : world.volume = .passed) (hm : world.metadata ≠ .unreadable)
    (hf : ∀ f ∈ visitPage db start, FileClean world f)
    (h : inspectStarted db world false start = some req) :
    req.reason = start.reason ∧ req.repair = false ∧
      req.status = pageStatus start.observing (visitPage db start).length start.reason ∧
      req.cursor = advance (fun f : InventoryFile => (f.index : Int)) start.cursor
        (visitPage db start) := by
  rcases inspectStarted_cases h with ⟨-, hbad | hbad⟩ | ⟨count, hpage⟩
  · exact absurd hv hbad
  · exact absurd hbad hm
  · obtain ⟨hs, hc, -, hr⟩ := inspectPage_request hpage
    have hreason := inspectPage_clean hf hpage
    exact ⟨hreason, hr, hreason ▸ hs, hc⟩

theorem inspectInventory_started (h : inspectInventory db session world repair = some req) :
    ∃ start, visitStart db.row db.owner.mapping session repair = some start ∧
      inspectStarted db world repair start = some req := by
  unfold inspectInventory at h
  split at h
  · cases h
  split at h
  · cases h
  next start hs => exact ⟨start, hs, h⟩

theorem advance_visitPage (db : InventoryDB) (start : VisitStart) :
    advance (fun f : InventoryFile => (f.index : Int)) start.cursor (visitPage db start) =
      advance (fun f : CatalogFile => (f.index : Int)) start.cursor
        (page (fun f : CatalogFile => (f.index : Int)) inventoryPageSize start.cursor
          db.catalog.files) :=
  advance_map _ _ _ _

end TorrentHub
