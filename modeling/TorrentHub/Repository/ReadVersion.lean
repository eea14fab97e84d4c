import TorrentHub.Lib.Fence
import TorrentHub.Repository.ReadModel

namespace TorrentHub
open Lib Option Table

namespace ReadDB

variable {db db' : ReadDB} {w : Write} {ws : List Write} {hash : String}

def TorrentRow.covered (t : TorrentRow) : TorrentRow :=
  { t with progressSource := "", downloaded := 0, legacyDownloaded := 0, progressObservedAt := 0 }

def FileRow.covered (f : FileRow) : FileRow :=
  { f with metadataPath := "", downloaded := 0, legacyDownloaded := 0 }

def IntentRow.covered (i : IntentRow) : IntentRow := { i with observationSequence := 0 }

structure Covered where
  torrents : List TorrentRow
  files : List FileRow
  intents : List IntentRow
  blocks : List BlockRecord
  downloadBlocks : List DownloadBlockRow
  order : List OrderRow
  storage : List StorageRow
  recovery : List RecoveryRow

def covered (db : ReadDB) : Covered where
  torrents := db.torrents.rows.map TorrentRow.covered
  files := db.files.rows.map FileRow.covered
  intents := db.intents.rows.map IntentRow.covered
  blocks := db.blocks.rows
  downloadBlocks := db.downloadBlocks.rows
  order := db.order.rows
  storage := db.storage.rows
  recovery := db.recovery.rows

theorem torrents_quiet (h : Table.fired versionTorrents db.torrents c = 0) :
    (db.torrents.change c).rows.map TorrentRow.covered =
      db.torrents.rows.map TorrentRow.covered := by
  refine map_change rfl rfl ?_ h
  intro old new hkey hsame
  cases old
  cases new
  simp_all [versionTorrents, TorrentRow.covered]

theorem files_quiet (h : Table.fired versionFiles db.files c = 0) :
    (db.files.change c).rows.map FileRow.covered = db.files.rows.map FileRow.covered := by
  refine map_change rfl rfl ?_ h
  intro old new hkey hsame
  cases old
  cases new
  simp_all [versionFiles, FileRow.covered, FileRow.key]

theorem intents_quiet (h : Table.fired versionTorrentIntents db.intents c = 0) :
    (db.intents.change c).rows.map IntentRow.covered = db.intents.rows.map IntentRow.covered := by
  refine map_change rfl rfl ?_ h
  intro old new hkey hsame
  cases old
  cases new
  simp_all [versionTorrentIntents, IntentRow.covered]

theorem blocks_quiet (h : Table.fired versionTorrentActivationBlocks db.blocks c = 0) :
    (db.blocks.change c).rows = db.blocks.rows := by
  refine rows_change rfl rfl ?_ h
  intro old new hkey hsame
  cases old
  cases new
  simp_all [versionTorrentActivationBlocks, BlockRecord.key]

theorem downloadBlocks_quiet
    (h : Table.fired versionTorrentDownloadBlocks db.downloadBlocks c = 0) :
    (db.downloadBlocks.change c).rows = db.downloadBlocks.rows := by
  refine rows_change rfl rfl ?_ h
  intro old new hkey hsame
  cases old
  cases new
  simp_all [versionTorrentDownloadBlocks]

theorem storage_quiet (h : Table.fired versionTorrentStorage db.storage c = 0) :
    (db.storage.change c).rows = db.storage.rows := by
  refine rows_change rfl rfl ?_ h
  intro old new hkey hsame
  cases old
  cases new
  simp_all [versionTorrentStorage]

theorem recovery_quiet (h : Table.fired versionStorageRecovery db.recovery c = 0) :
    (db.recovery.change c).rows = db.recovery.rows := by
  refine rows_change rfl rfl ?_ h
  intro old new _ hsame
  cases hsame

theorem write_quiet (h : db.fired w = 0) : (db.write w).covered = db.covered := by
  cases w with
  | torrent c => simp only [write, rowsAfter, covered, torrents_quiet h]
  | file c => simp only [write, rowsAfter, covered, files_quiet h]
  | intent c => simp only [write, rowsAfter, covered, intents_quiet h]
  | block c => simp only [write, rowsAfter, covered, blocks_quiet h]
  | downloadBlock c => simp only [write, rowsAfter, covered, downloadBlocks_quiet h]
  | orderInsert r =>
    have htaken : (db.order.find r.hash).isSome = true := by
      cases hf : db.order.find r.hash with
      | some _ => rfl
      | none => simp [fired, Table.fired, versionTorrentOrder, hf] at h
    simp only [write, rowsAfter, covered, Table.change_insert_of_find htaken]
  | orderDelete hash =>
    have hfree : db.order.find hash = none := by
      cases hf : db.order.find hash with
      | none => rfl
      | some _ => simp [fired, Table.fired, versionTorrentOrder, hf] at h
    simp only [write, rowsAfter, covered, Table.rows_change_delete_of_find hfree]
  | storage c => simp only [write, rowsAfter, covered, storage_quiet h]
  | recovery c => simp only [write, rowsAfter, covered, recovery_quiet h]
  | inventoryInsert r => rfl
  | inventoryUpdate r => rfl
  | session token => rfl

theorem commit_quiet (h : db.fires ws = false) : (db.commit ws).covered = db.covered := by
  induction ws generalizing db with
  | nil => rfl
  | cons w ws ih =>
    simp only [fires, Bool.or_eq_false_iff, bne_eq_false_iff_eq] at h
    exact (ih h.2).trans (write_quiet h.1)

theorem commit_version_le (db : ReadDB) (ws : List Write) :
    db.version ≤ (db.commit ws).version := by
  induction ws generalizing db with
  | nil => exact Int.le_refl _
  | cons w ws ih =>
    have hw : db.version ≤ (db.write w).version := Int.le_add_of_nonneg_right (by omega)
    exact Int.le_trans hw (ih _)

theorem fires_iff : db.fires ws = true ↔ db.version < (db.commit ws).version := by
  induction ws generalizing db with
  | nil => simp [fires, commit]
  | cons w ws ih =>
    have hrest := commit_version_le (db.write w) ws
    have hw : (db.write w).version = db.version + db.fired w := rfl
    have hcons : db.commit (w :: ws) = (db.write w).commit ws := rfl
    rw [hcons, fires, Bool.or_eq_true, bne_iff_ne, ih]
    constructor
    · rintro (hf | hf) <;> omega
    intro hlt
    by_cases hf : db.fired w = 0
    · exact .inr (by omega)
    · exact .inl hf

def FileColumns.covered (f : FileColumns) : FileColumns := { f with metadataPath := "" }

def StorageColumns.covered (s : StorageColumns) : StorageColumns :=
  { s with inventory := .pending, inventoryReason := "" }

def TorrentColumns.covered (c : TorrentColumns) : TorrentColumns :=
  { c with
    progressSource := ""
    files := c.files.map FileColumns.covered
    storage := c.storage.map StorageColumns.covered }

/-- The source of the progress, the metadata paths, and the status of the inventory with its reason.
-/
def TorrentColumns.uncovered (c : TorrentColumns) :
    String × List String × Option (InventoryStatus × String) :=
  (c.progressSource, c.files.map (·.metadataPath),
    c.storage.map fun s => (s.inventory, s.inventoryReason))

theorem files_ext {l l' : List FileColumns}
    (hc : l.map FileColumns.covered = l'.map FileColumns.covered)
    (hp : l.map (·.metadataPath) = l'.map (·.metadataPath)) : l = l' := by
  induction l generalizing l' with
  | nil => exact (List.map_eq_nil_iff.1 hc.symm).symm
  | cons f l ih =>
    cases l' with
    | nil => cases hc
    | cons f' l' =>
      simp only [List.map_cons, List.cons.injEq] at hc hp
      obtain ⟨hf, hrest⟩ := hc
      rw [ih hrest hp.2]
      cases f
      cases f'
      simp_all [FileColumns.covered]

theorem storage_ext {s s' : Option StorageColumns}
    (hc : s.map StorageColumns.covered = s'.map StorageColumns.covered)
    (hi : (s.map fun s => (s.inventory, s.inventoryReason)) =
      s'.map fun s => (s.inventory, s.inventoryReason)) : s = s' := by
  cases s with
  | none => exact (map_eq_none_iff.1 hc.symm).symm
  | some s =>
    cases s' with
    | none => cases hc
    | some s' =>
      cases s
      cases s'
      simp_all [StorageColumns.covered]

theorem columns_ext {c c' : TorrentColumns} (hc : c.covered = c'.covered)
    (hu : c.uncovered = c'.uncovered) : c = c' := by
  simp only [TorrentColumns.uncovered, Prod.mk.injEq] at hu
  obtain ⟨hprogress, hpaths, hinventory⟩ := hu
  have hfiles : c.files = c'.files := files_ext (congrArg TorrentColumns.files hc) hpaths
  have hstorage : c.storage = c'.storage :=
    storage_ext (congrArg TorrentColumns.storage hc) hinventory
  have hback : ∀ c : TorrentColumns, c =
      { c.covered with
        progressSource := c.progressSource, files := c.files, storage := c.storage } :=
    fun _ => rfl
  rw [hback c, hback c', hc, hprogress, hfiles, hstorage]

section Congruence

variable (h : db.covered = db'.covered)
include h

section

variable (hash : String)

theorem find_torrent_covered : (db.torrents.find hash).map TorrentRow.covered =
      (db'.torrents.find hash).map TorrentRow.covered :=
  find_map_congr TorrentRow.hash (fun _ => rfl) (congrArg Covered.torrents h) hash

theorem find_intent_covered :
    (db.intents.find hash).map IntentRow.covered = (db'.intents.find hash).map IntentRow.covered :=
  find_map_congr IntentRow.hash (fun _ => rfl) (congrArg Covered.intents h) hash

theorem find_storage : db.storage.find hash = db'.storage.find hash :=
  find_congr (congrArg Covered.storage h) hash

theorem find_recovery : db.recovery.find hash = db'.recovery.find hash :=
  find_congr (congrArg Covered.recovery h) hash

theorem loadControl_congr : db.loadControl hash = db'.loadControl hash := by
  have hfactor : ∀ db : ReadDB, db.loadControl hash =
      ((db.intents.find hash).map IntentRow.covered).map fun i =>
        ⟨i.recordID, i.revision, i.runIntent⟩ := by
    intro db
    rw [map_map]
    rfl
  rw [hfactor, hfactor, find_intent_covered h]

theorem recordID_congr :
    (db.intents.find hash).map (·.recordID) = (db'.intents.find hash).map (·.recordID) := by
  have hfactor : ∀ db : ReadDB, (db.intents.find hash).map (·.recordID) =
      ((db.intents.find hash).map IntentRow.covered).map (·.recordID) := by
    intro db
    rw [map_map]
    rfl
  rw [hfactor, hfactor, find_intent_covered h]

theorem loadActivationBlocks_congr :
    db.loadActivationBlocks hash = db'.loadActivationBlocks hash := by
  have hfactor : ∀ db : ReadDB, db.loadActivationBlocks hash =
      (((db.intents.find hash).map (·.recordID)).map fun id =>
        ((db.blocks.rows.filter (·.recordID = id)).map fun b =>
          (⟨b.kind, b.reason⟩ : ActivationBlock)).insertionSort
            fun a b => kindText a.kind ≤ kindText b.kind).getD [] := by
    intro db
    unfold loadActivationBlocks
    cases db.intents.find hash <;> rfl
  rw [hfactor, hfactor, recordID_congr h, show db.blocks.rows = db'.blocks.rows from
    congrArg Covered.blocks h]

theorem loadFiles_congr :
    (db.loadFiles hash).map FileColumns.covered = (db'.loadFiles hash).map FileColumns.covered := by
  have hfactor : ∀ db : ReadDB, (db.loadFiles hash).map FileColumns.covered =
      (((db.files.rows.map FileRow.covered).filter (·.hash = hash)).map
        FileRow.columns).insertionSort (·.index ≤ ·.index) := by
    intro db
    have hcolumns : FileColumns.covered ∘ FileRow.columns = FileRow.columns ∘ FileRow.covered := rfl
    have hsame : (fun f : FileRow => decide (f.hash = hash)) ∘ FileRow.covered =
        fun f => decide (f.hash = hash) := rfl
    have hsort := List.map_insertionSort (fun a b : FileColumns => a.index ≤ b.index)
      (fun a b : FileColumns => a.index ≤ b.index) FileColumns.covered
    rw [loadFiles, hsort _ fun _ _ _ _ => Iff.rfl, List.map_map, hcolumns, ← List.map_map,
      List.filter_map, hsame]
  rw [hfactor, hfactor, show db.files.rows.map FileRow.covered = db'.files.rows.map FileRow.covered
    from congrArg Covered.files h]

theorem loadStorageLocation_congr : (db.loadStorageLocation hash).map StorageColumns.covered =
      (db'.loadStorageLocation hash).map StorageColumns.covered := by
  rw [loadStorageLocation, loadStorageLocation, find_storage h, map_map, map_map]
  rfl

theorem loadOperation_congr : db.loadOperation hash = db'.loadOperation hash := by
  rw [loadOperation, loadOperation, find_storage h, find_recovery h]

theorem loadStorageRecovery_congr : db.loadStorageRecovery hash = db'.loadStorageRecovery hash := by
  have hfactor : ∀ (db : ReadDB) (id : String), (db.intents.find hash).any (·.recordID = id) =
      ((db.intents.find hash).map (·.recordID)).any (· = id) := by
    intro db id
    cases db.intents.find hash <;> rfl
  simp only [loadStorageRecovery, find_recovery h, hfactor, recordID_congr h]

theorem columns_congr : (db.columns hash).map TorrentColumns.covered =
      (db'.columns hash).map TorrentColumns.covered := by
  have hrow : ∀ t t' : TorrentRow, t.covered = t'.covered →
      (TorrentRow.columns db t).covered = (TorrentRow.columns db' t').covered := by
    intro t t' ht
    have herase : ∀ (db : ReadDB) (t : TorrentRow),
        (TorrentRow.columns db t).covered = (TorrentRow.columns db t.covered).covered :=
      fun _ _ => rfl
    rw [herase db t, herase db' t', ht]
    simp only [TorrentRow.columns, TorrentColumns.covered, find_storage h, loadFiles_congr h,
      loadControl_congr h, loadActivationBlocks_congr h, loadStorageLocation_congr h,
      loadOperation_congr h, loadStorageRecovery_congr h,
      find_congr (congrArg Covered.downloadBlocks h : db.downloadBlocks.rows = _),
      find_congr (congrArg Covered.order h : db.order.rows = _)]
  have hfind := find_torrent_covered h hash
  unfold columns
  cases ht : db.torrents.find hash with
  | none =>
    rw [ht] at hfind
    rw [map_eq_none_iff.1 hfind.symm]
    rfl
  | some t =>
    rw [ht] at hfind
    obtain ⟨t', ht', hcov⟩ := map_eq_some_iff.1 hfind.symm
    rw [ht', map_some, map_some, map_some, map_some, hrow t t' hcov.symm]

end

end Congruence

def uncovered (db : ReadDB) (hash : String) :
    Option (String × List String × Option (InventoryStatus × String)) :=
  (db.columns hash).map TorrentColumns.uncovered

theorem columns_eq (h : db.covered = db'.covered) (hu : db.uncovered hash = db'.uncovered hash) :
    db.columns hash = db'.columns hash := by
  have hc := columns_congr h hash
  unfold uncovered at hu
  cases hx : db.columns hash <;> cases hy : db'.columns hash
  all_goals simp only [hx, hy, map_some, map_none, reduceCtorEq] at hc hu
  · rfl
  · exact congrArg some (columns_ext (some.inj hc) (some.inj hu))

/-- The transaction fires a version trigger, or it leaves alone what the list reads of the columns
that none watches. -/
def Announced (db : ReadDB) (ws : List Write) : Prop :=
  db.fires ws = true ∨ ∀ hash, (db.commit ws).uncovered hash = db.uncovered hash

theorem announced_iff (db : ReadDB) (ws : List Write) : db.Announced ws ↔
      ((∃ hash, (db.commit ws).columns hash ≠ db.columns hash) →
        db.version < (db.commit ws).version) := by
  constructor
  · rintro (hf | hu) ⟨hash, hne⟩
    · exact fires_iff.1 hf
    · by_contra hle
      have hquiet : db.fires ws = false := by
        rw [← Bool.not_eq_true, fires_iff]
        exact hle
      exact hne (columns_eq (commit_quiet hquiet) (hu hash))
  intro hraise
  by_cases hf : db.fires ws = true
  · exact .inl hf
  refine .inr fun hash => ?_
  by_contra hne
  have hcolumns : (db.commit ws).columns hash ≠ db.columns hash := fun heq =>
    hne (by rw [uncovered, uncovered, heq])
  exact hf (fires_iff.2 (hraise ⟨hash, hcolumns⟩))

def readFence : Fence ReadDB (String → Option TorrentColumns) where
  epoch := version
  content := columns

theorem Announced.advances (h : db.Announced ws) : readFence.Advances db (db.commit ws) where
  le := commit_version_le db ws
  lt hne := (announced_iff db ws).1 h (Function.ne_iff.1 hne)

end ReadDB

end TorrentHub
