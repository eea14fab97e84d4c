import TorrentHub.Lib.Except
import TorrentHub.Lib.Framing
import TorrentHub.Lib.Run
import TorrentHub.Lib.Sha256
import TorrentHub.Lib.Upsert
import TorrentHub.Models
import TorrentHub.Repository.Catalog

namespace TorrentHub
open Lib RelPath List Table

variable {f file : FileCatalog} {row : StoredFile}

/-- A row of `files` of the record. -/
structure StoredFile where
  index : Int
  path : Bytes
  size : Int64
  downloaded : Int64 := 0
  priority : Int64 := 0
  isMedia : Bool
  offset : Int64
  offsetKnown : Bool
  metadataPath : Bytes
deriving DecidableEq

/-- A record: the fence of its intent, the columns of `torrents` that a catalog is about, and
its files. -/
structure CatalogRecord where
  fence : RuntimeFence
  deleting : Bool
  moving : Bool
  name : Bytes
  size : Int64
  pieceLength : Int64
  numPieces : Int64
  metadataKnown : Bool
  format : CatalogFormat
  version : Bytes
  files : Table StoredFile Int StoredFile.index fun _ => true

inductive SaveError where
  | invalid (err : CatalogError)
  | conflict
  | database
deriving DecidableEq

def FileCatalog.fresh (f : FileCatalog) : StoredFile where
  index := f.index
  path := f.path
  size := f.size
  isMedia := f.isMedia
  offset := f.offset
  offsetKnown := true
  metadataPath := f.metadataPath

@[simp] theorem FileCatalog.fresh_index (f : FileCatalog) : f.fresh.index = f.index := rfl

def FileCatalog.update (f : FileCatalog) (row : StoredFile) : StoredFile :=
  { row with
    path := f.path
    offset := f.offset
    offsetKnown := true
    isMedia := f.isMedia
    metadataPath := if f.metadataPath ≠ [] then f.metadataPath else row.metadataPath }

def saveFiles (files : List FileCatalog) (t : Table StoredFile Int StoredFile.index fun _ => true) :
    Table StoredFile Int StoredFile.index fun _ => true :=
  Table.mergeAll FileCatalog.fresh FileCatalog.update (fun _ _ => rfl) files t

variable (marshal : TorrentCatalog → Bytes)

/-- `marshal` stands for `json.Marshal`. -/
def catalogVersion (c : TorrentCatalog) : Bytes :=
  Framing.hex (Sha256.sum256 (marshal c))

theorem catalogVersion_ne_nil (c : TorrentCatalog) : catalogVersion marshal c ≠ [] := by
  simp [catalogVersion, Framing.hex, Sha256.sum256, Sha256.bigEndian]

namespace CatalogRecord

def admits (r : CatalogRecord) (f : RuntimeFence) : Bool :=
  r.fence == f && !r.deleting && !r.moving

def requireFence (r : CatalogRecord) (f : RuntimeFence) : Except SaveError Unit :=
  if f.recordID == "" || f.attachment == "" || f.revision < 1 then .error .conflict
  else if !r.admits f then .error .conflict
  else .ok ()

/-- The path of a record whose metadata is not known yet may begin with the name of the torrent. -/
def agrees (r : CatalogRecord) (c : TorrentCatalog) (row : StoredFile) : Bool :=
  if row.index < 0 then false
  else
    match c.files[row.index.toNat]? with
    | none => false
    | some file =>
      let legacyPath := !r.metadataKnown && row.path == join [c.name, file.path]
      !(row.metadataPath != [] && file.metadataPath != [] &&
        row.metadataPath != file.metadataPath) &&
      !((row.path != file.path && !legacyPath) || row.size != file.size ||
        (row.offsetKnown && row.offset != file.offset &&
          (r.format != .unknown || c.format == .unknown)))

def saveCatalogTx (r : CatalogRecord) (c : TorrentCatalog) : Except SaveError CatalogRecord :=
  if r.metadataKnown && (r.size != c.size || r.pieceLength != c.pieceLength ||
      r.numPieces != c.numPieces) then .error .conflict
  else if r.format != .unknown && r.format != c.format then .error .conflict
  else if !r.files.rows.all (r.agrees c) then .error .conflict
  else
    .ok { r with
      name := c.name
      size := c.size
      pieceLength := c.pieceLength
      numPieces := c.numPieces
      metadataKnown := true
      format := c.format
      version := catalogVersion marshal c
      files := saveFiles c.files r.files }

end CatalogRecord

structure SaveCall where
  fence : RuntimeFence
  catalog : TorrentCatalog
  database : Bool := true

inductive SaveOutcome where
  | failed (err : SaveError)
  | matched
  | saved
deriving DecidableEq

def saveCatalog (r : CatalogRecord) (call : SaveCall) : CatalogRecord × SaveOutcome :=
  match validateCatalog call.catalog with
  | .error err => (r, .failed (.invalid err))
  | .ok () =>
    if !call.database then (r, .failed .database)
    else if !r.admits call.fence then (r, .failed .conflict)
    else if r.version == catalogVersion marshal call.catalog then (r, .matched)
    else
      match r.requireFence call.fence with
      | .error err => (r, .failed err)
      | .ok () =>
        match r.saveCatalogTx marshal call.catalog with
        | .error err => (r, .failed err)
        | .ok r' => (r', .saved)

def saveStep (r : CatalogRecord) (call : SaveCall) : CatalogRecord := (saveCatalog marshal r call).1

variable {marshal} {r r' : CatalogRecord} {c : TorrentCatalog}
  {call : SaveCall}

theorem saveCatalog_cases (marshal : TorrentCatalog → Bytes) (r : CatalogRecord) (call : SaveCall) :
    (∃ err, saveCatalog marshal r call = (r, .failed err)) ∨
    (validateCatalog call.catalog = .ok () ∧ r.version = catalogVersion marshal call.catalog ∧
      saveCatalog marshal r call = (r, .matched)) ∨
    (validateCatalog call.catalog = .ok () ∧ ∃ r', r.saveCatalogTx marshal call.catalog = .ok r' ∧
      saveCatalog marshal r call = (r', .saved)) := by
  unfold saveCatalog
  split
  · exact .inl ⟨_, rfl⟩
  rename_i hvalid
  split
  · exact .inl ⟨_, rfl⟩
  split
  · exact .inl ⟨_, rfl⟩
  split
  next hversion => exact .inr (.inl ⟨hvalid, beq_iff_eq.1 hversion, rfl⟩)
  split
  · exact .inl ⟨_, rfl⟩
  split
  · exact .inl ⟨_, rfl⟩
  next r' hsave => exact .inr (.inr ⟨hvalid, r', hsave, rfl⟩)

theorem validateCatalog_index (h : validateCatalog c = .ok ()) {k : Nat}
    (hf : c.files[k]? = some f) : f.index = k := by
  have hzero : (0 : Int64).toInt = 0 := rfl
  unfold validateCatalog at h
  rw [ite_error_eq_ok] at h
  obtain ⟨hhead, h⟩ := h
  simp only [Bool.or_eq_true, decide_eq_true_eq, not_or] at hhead
  have hlength := hhead.1.1.2
  rw [Int64.le_iff_toInt_le] at hlength
  have hpositive : 0 < c.pieceLength.toInt := by omega
  split at h
  · cases h
  rename_i t ht
  have hindex := (catalogTotals_lays hpositive (.zero hpositive) ht).1.indices k f hf
  omega

theorem validateCatalog_file (h : validateCatalog c = .ok ())
    (hf : f ∈ c.files) : 0 ≤ f.index ∧ c.files[f.index.toNat]? = some f := by
  obtain ⟨k, hk⟩ := mem_iff_getElem?.1 hf
  have hindex := validateCatalog_index h hk
  rw [hindex]
  exact ⟨by omega, hk⟩

open StoredFile

theorem validateCatalog_nodup (h : validateCatalog c = .ok ()) :
    (c.files.map fun f => index f.fresh).Nodup := by
  have hmap : (c.files.map fun f => index f.fresh) =
      (range c.files.length).map Int.ofNat := by
    apply ext_getElem?
    intro k
    rw [getElem?_map, getElem?_map]
    by_cases hk : k < c.files.length
    · have hf := getElem?_eq_getElem hk
      rw [hf, getElem?_range hk, Option.map_some, Option.map_some]
      exact congrArg some (validateCatalog_index h hf)
    · rw [getElem?_eq_none (by omega), getElem?_eq_none (by simp; omega)]
      rfl
  rw [hmap]
  exact nodup_range.map fun a b hab => Int.ofNat.inj hab

theorem find_file_iff (h : validateCatalog c = .ok ()) {k : Int} :
    c.files.find? (fun f => index f.fresh = k) = some f ↔ 0 ≤ k ∧ c.files[k.toNat]? = some f := by
  constructor
  · intro hf
    have hk := find?_some hf
    obtain rfl : f.index = k := of_decide_eq_true hk
    exact validateCatalog_file h (mem_of_find?_eq_some hf)
  rintro ⟨hk, hf⟩
  have hindex := validateCatalog_index h hf
  have hmem := mem_of_getElem? hf
  cases hfound : c.files.find? (fun f => index f.fresh = k) with
  | none =>
    have hne := find?_eq_none.1 hfound f hmem
    refine absurd ?_ hne
    rw [decide_eq_true_eq, FileCatalog.fresh_index]
    omega
  | some g =>
    have hk' := find?_some hfound
    have hg : g.index = k := of_decide_eq_true hk'
    obtain ⟨-, hgk⟩ := validateCatalog_file h (mem_of_find?_eq_some hfound)
    rw [hg, hf] at hgk
    exact hgk.symm

structure CatalogRecord.Agrees (r : CatalogRecord) (c : TorrentCatalog) (row : StoredFile)
    (file : FileCatalog) : Prop where
  nonneg : 0 ≤ row.index
  place : c.files[row.index.toNat]? = some file
  metadataPath : row.metadataPath ≠ [] → file.metadataPath ≠ [] →
    row.metadataPath = file.metadataPath
  path : row.path = file.path ∨ r.metadataKnown = false
  size : row.size = file.size
  offset : row.offsetKnown = true → row.offset ≠ file.offset →
    r.format = .unknown ∧ c.format ≠ .unknown

open CatalogRecord

theorem CatalogRecord.agrees_of (h : r.agrees c row = true) : ∃ file, r.Agrees c row file := by
  unfold agrees at h
  split at h
  · cases h
  rename_i hneg
  split at h
  · cases h
  rename_i file hfile
  simp only [Bool.and_eq_true, Bool.not_eq_true', Bool.and_eq_false_iff, Bool.or_eq_false_iff,
    bne_eq_false_iff_eq, Bool.not_eq_false', beq_eq_false_iff_ne, ne_eq] at h
  obtain ⟨hmeta, ⟨hpath, hsize⟩, hoffset⟩ := h
  refine ⟨file, by omega, hfile, ?_, ?_, hsize, ?_⟩
  · intro h1 h2
    rcases hmeta with (h | h) | h
    · exact absurd h h1
    · exact absurd h h2
    · exact h
  · rcases hpath with h | h
    · exact .inl h
    · exact .inr h.1
  · intro h1 h2
    rcases hoffset with (h | h) | h
    · rw [h1] at h
      cases h
    · exact absurd h h2
    · exact h

structure CatalogRecord.Saves (marshal : TorrentCatalog → Bytes) (r : CatalogRecord)
    (c : TorrentCatalog) (r' : CatalogRecord) : Prop where
  known : r.metadataKnown = true →
    r.size = c.size ∧ r.pieceLength = c.pieceLength ∧ r.numPieces = c.numPieces
  format : r.format ≠ .unknown → r.format = c.format
  agrees : ∀ row ∈ r.files.rows, ∃ file, r.Agrees c row file
  result : r' = { r with
    name := c.name
    size := c.size
    pieceLength := c.pieceLength
    numPieces := c.numPieces
    metadataKnown := true
    format := c.format
    version := catalogVersion marshal c
    files := saveFiles c.files r.files }

theorem CatalogRecord.saves_of (h : r.saveCatalogTx marshal c = .ok r') : r.Saves marshal c r' := by
  unfold CatalogRecord.saveCatalogTx at h
  rw [ite_error_eq_ok] at h
  obtain ⟨hknown, h⟩ := h
  rw [ite_error_eq_ok] at h
  obtain ⟨hformat, h⟩ := h
  rw [ite_error_eq_ok] at h
  obtain ⟨hrows, h⟩ := h
  simp only [Bool.and_eq_true, Bool.or_eq_true, bne_iff_ne, ne_eq, not_and, not_or,
    not_not] at hknown
  simp only [Bool.and_eq_true, bne_iff_ne, ne_eq, not_and, not_not] at hformat
  simp only [Bool.not_eq_true', Bool.not_eq_false, all_eq_true] at hrows
  cases h
  refine ⟨fun hk => ?_, hformat, fun row hrow => agrees_of (hrows row hrow), rfl⟩
  obtain ⟨⟨h1, h2⟩, h3⟩ := hknown hk
  exact ⟨h1, h2, h3⟩

theorem find_saveFiles (h : validateCatalog c = .ok ())
    (t : Table StoredFile Int index fun _ => true) (k : Int) : (saveFiles c.files t).find k =
      ((c.files.find? fun f => index f.fresh = k).map fun f =>
        ((t.find k).map f.update).getD f.fresh).or (t.find k) :=
  find_mergeAll (validateCatalog_nodup h) t k

theorem CatalogRecord.Saves.find (h : validateCatalog c = .ok ()) (hsaves : r.Saves marshal c r')
    (hrow : r.files.find row.index = some row) :
    ∃ file, r.Agrees c row file ∧ r'.files.find row.index = some (file.update row) := by
  obtain ⟨file, hagrees⟩ := hsaves.agrees row (find_mem hrow)
  refine ⟨file, hagrees, ?_⟩
  rw [hsaves.result]
  refine (find_saveFiles h r.files row.index).trans ?_
  rw [(find_file_iff h).2 ⟨hagrees.nonneg, hagrees.place⟩, hrow]
  rfl

structure StoredFile.Holds (row : StoredFile) (file : FileCatalog) : Prop where
  path : row.path = file.path
  size : row.size = file.size
  isMedia : row.isMedia = file.isMedia
  offset : row.offset = file.offset
  offsetKnown : row.offsetKnown = true
  metadataPath : file.metadataPath ≠ [] → row.metadataPath = file.metadataPath

theorem StoredFile.Holds.update (h : row.Holds file) : file.update row = row := by
  have hmeta : (if file.metadataPath ≠ [] then file.metadataPath else row.metadataPath) =
      row.metadataPath := by
    split
    next hne => exact (h.metadataPath hne).symm
    · rfl
  unfold FileCatalog.update
  rw [hmeta, ← h.path, ← h.offset, ← h.isMedia, ← h.offsetKnown]

section

variable (h : validateCatalog c = .ok ()) (hsaves : r.Saves marshal c r')
include h hsaves

theorem CatalogRecord.Saves.holds (hrow : r'.files.find row.index = some row) :
    ∃ file, 0 ≤ row.index ∧ c.files[row.index.toNat]? = some file ∧ row.Holds file := by
  cases hold : r.files.find row.index with
  | some old =>
    have hindex := find_key hold
    rw [← hindex] at hold
    obtain ⟨file, hagrees, hfind⟩ := hsaves.find h hold
    rw [hindex] at hfind
    rw [hfind] at hrow
    obtain rfl := Option.some.inj hrow
    refine ⟨file, hagrees.nonneg, hagrees.place, rfl, hagrees.size, rfl, rfl, rfl, ?_⟩
    intro hne
    exact if_pos hne
  | none =>
    rw [hsaves.result] at hrow
    replace hrow := (find_saveFiles h r.files row.index).symm.trans hrow
    rw [hold] at hrow
    cases hfile : c.files.find? (fun f => index f.fresh = row.index) with
    | none =>
      rw [hfile] at hrow
      cases hrow
    | some file =>
      rw [hfile] at hrow
      obtain ⟨hnonneg, hplace⟩ := (find_file_iff h).1 hfile
      refine ⟨file, hnonneg, hplace, ?_⟩
      obtain rfl := Option.some.inj hrow
      exact ⟨rfl, rfl, rfl, rfl, rfl, fun _ => rfl⟩

theorem CatalogRecord.Saves.stored (hfile : file ∈ c.files) :
    ∃ row, r'.files.find file.index = some row ∧ row.Holds file := by
  obtain ⟨hnonneg, hplace⟩ := validateCatalog_file h hfile
  obtain ⟨row, hrow⟩ : ∃ row, r'.files.find file.index = some row := by
    have hfind := find_saveFiles h r.files file.index
    rw [(find_file_iff h).2 ⟨hnonneg, hplace⟩] at hfind
    rw [hsaves.result]
    exact ⟨_, hfind⟩
  have hindex := find_key hrow
  rw [← hindex] at hrow hplace
  obtain ⟨file', -, hplace', hholds⟩ := hsaves.holds h hrow
  rw [hplace] at hplace'
  obtain rfl := Option.some.inj hplace'
  exact ⟨row, hindex ▸ hrow, hholds⟩

end

theorem CatalogRecord.agrees_of_holds
    (hnonneg : 0 ≤ row.index) (hplace : c.files[row.index.toNat]? = some file)
    (h : row.Holds file) : r.agrees c row = true := by
  unfold agrees
  rw [if_neg (by omega), hplace]
  have hmeta : (row.metadataPath != [] && file.metadataPath != [] &&
      row.metadataPath != file.metadataPath) = false := by
    by_cases hne : file.metadataPath = []
    · simp [hne]
    · simp [h.metadataPath hne]
  simp [hmeta, h.path, h.size, h.offset]

theorem CatalogRecord.Saves.again (h : validateCatalog c = .ok ()) (hsaves : r.Saves marshal c r') :
    r'.saveCatalogTx marshal c = .ok r' := by
  have hrows : r'.files.rows.all (r'.agrees c) = true := by
    rw [all_eq_true]
    intro row hrow
    obtain ⟨file, hnonneg, hplace, hholds⟩ := hsaves.holds h (Table.find_of_mem hrow)
    exact agrees_of_holds hnonneg hplace hholds
  have hfiles : saveFiles c.files r'.files = r'.files := by
    refine Table.mergeAll_eq_self fun file hfile => ?_
    obtain ⟨row, hrow, hholds⟩ := hsaves.stored h hfile
    exact ⟨row, hrow, hholds.update⟩
  have hresult := hsaves.result
  unfold CatalogRecord.saveCatalogTx
  rw [hrows, hfiles]
  rw [hresult]
  simp

def CatalogRecord.Stamped (marshal : TorrentCatalog → Bytes) (S : Set TorrentCatalog)
    (r : CatalogRecord) : Prop :=
  r.version = [] ∨ ∃ c ∈ S, catalogVersion marshal c = r.version ∧ r.saveCatalogTx marshal c = .ok r

/-- Digests tell the catalog apart, and once the metadata of the record is known it names no file
that has no row. -/
def SaveCall.Clear (S : Set TorrentCatalog) (r : CatalogRecord) (call : SaveCall) : Prop :=
  call.catalog ∈ S ∧ (r.metadataKnown = true →
    ∀ f ∈ call.catalog.files, (r.files.find f.index).isSome = true)

structure CatalogRecord.Immutable (r r' : CatalogRecord) : Prop where
  known : r'.metadataKnown = true
  size : r'.size = r.size
  pieceLength : r'.pieceLength = r.pieceLength
  numPieces : r'.numPieces = r.numPieces
  format : r.format ≠ .unknown → r'.format = r.format
  indices : ∀ k, (r'.files.find k).isSome = (r.files.find k).isSome
  files : ∀ k row row', r.files.find k = some row → r'.files.find k = some row' →
    row'.path = row.path ∧ row'.size = row.size ∧ row'.priority = row.priority ∧
      row'.downloaded = row.downloaded ∧
      (row.metadataPath ≠ [] → row'.metadataPath = row.metadataPath) ∧
      (row.offsetKnown = true → row'.offsetKnown = true ∧
        (row'.offset ≠ row.offset → r.format = .unknown ∧ r'.format ≠ .unknown))

theorem CatalogRecord.Immutable.refl (h : r.metadataKnown = true) : r.Immutable r where
  known := h
  size := rfl
  pieceLength := rfl
  numPieces := rfl
  format _ := rfl
  indices _ := rfl
  files k row row' hrow hrow' := by
    rw [hrow] at hrow'
    obtain rfl := Option.some.inj hrow'
    exact ⟨rfl, rfl, rfl, rfl, fun _ => rfl, fun hk => ⟨hk, fun hne => absurd rfl hne⟩⟩

theorem CatalogRecord.Saves.immutable (h : validateCatalog c = .ok ())
    (hsaves : r.Saves marshal c r') (hknown : r.metadataKnown = true)
    (hstored : ∀ f ∈ c.files, (r.files.find f.index).isSome = true) : r.Immutable r' := by
  obtain ⟨hsize, hlength, hnumber⟩ := hsaves.known hknown
  have hresult := hsaves.result
  refine ⟨by rw [hresult], by rw [hresult, hsize], by rw [hresult, hlength],
    by rw [hresult, hnumber], fun hne => by rw [hresult, hsaves.format hne], ?_, ?_⟩
  · intro k
    cases hrow : r.files.find k with
    | some row =>
      obtain rfl := find_key hrow
      obtain ⟨file, -, hfind⟩ := hsaves.find h hrow
      rw [hfind]
      rfl
    | none =>
      have hnone : c.files.find? (fun f => index f.fresh = k) = none := by
        rw [find?_eq_none]
        intro f hf heq
        have hsome := hstored f hf
        rw [show f.index = k from of_decide_eq_true heq, hrow] at hsome
        cases hsome
      have hfind := find_saveFiles h r.files k
      rw [hnone] at hfind
      rw [hresult, hfind, hrow]
      rfl
  · intro k row row' hrow hrow'
    obtain rfl := find_key hrow
    obtain ⟨file, hagrees, hfind⟩ := hsaves.find h hrow
    rw [hfind] at hrow'
    obtain rfl := Option.some.inj hrow'
    refine ⟨?_, rfl, rfl, rfl, ?_, fun hk => ⟨rfl, fun hne => ?_⟩⟩
    · rcases hagrees.path with heq | hfalse
      · exact heq.symm
      · rw [hknown] at hfalse
        cases hfalse
    · intro hne
      by_cases hfile : file.metadataPath = []
      · exact if_neg (not_not.2 hfile)
      · exact (if_pos hfile).trans (hagrees.metadataPath hne hfile).symm
    · obtain ⟨hunknown, hnew⟩ := hagrees.offset hk fun heq => hne heq.symm
      exact ⟨hunknown, by rw [hresult]; exact hnew⟩

theorem stamped_saveStep (hr : r.Stamped marshal S)
    (hclear : call.Clear S r) : (saveStep marshal r call).Stamped marshal S := by
  unfold saveStep
  rcases saveCatalog_cases marshal r call with ⟨err, heq⟩ | ⟨-, -, heq⟩ | ⟨hvalid, r', hsave, heq⟩
  · rw [heq]
    exact hr
  · rw [heq]
    exact hr
  · rw [heq]
    have hsaves := saves_of hsave
    refine .inr ⟨call.catalog, hclear.1, ?_, hsaves.again hvalid⟩
    rw [hsaves.result]

/-- In every run of calls whose digests do not collide, and that name no file without a row once the
metadata is known, the known catalog stays. -/
theorem saveCatalog_immutable (marshal : TorrentCatalog → Bytes) (S : Set TorrentCatalog)
    (hdigest : Set.InjOn (catalogVersion marshal) S) (r : CatalogRecord)
    (hr : r.Stamped marshal S) (before : List SaveCall) (call : SaveCall)
    (hclear : Along (saveStep marshal) (fun r call => call.Clear S r) r (before ++ [call])) :
    let s := exec (saveStep marshal) r before
    let answer := saveCatalog marshal s call
    (∀ err, answer.2 = .failed err → answer.1 = s) ∧
    (answer.2 = .matched → answer.1 = s ∧ s.saveCatalogTx marshal call.catalog = .ok s) ∧
    (s.metadataKnown = true → s.Immutable answer.1) := by
  intro s answer
  obtain ⟨hbefore, hcall, -⟩ := Along.append.1 hclear
  have hstamped : s.Stamped marshal S :=
    exec_invariant (fun _ _ hs hc => stamped_saveStep hs hc) hr hbefore
  rcases saveCatalog_cases marshal s call with ⟨err, heq⟩ | ⟨-, hversion, heq⟩ |
    ⟨hvalid, r', hsave, heq⟩
  · have hanswer : answer = (s, .failed err) := heq
    rw [hanswer]
    exact ⟨fun _ _ => rfl, fun h => (nomatch h), fun hknown => .refl hknown⟩
  · have hanswer : answer = (s, .matched) := heq
    rw [hanswer]
    refine ⟨fun _ h => (nomatch h), fun _ => ⟨rfl, ?_⟩, fun hknown => .refl hknown⟩
    rcases hstamped with hempty | ⟨c, hc, hdigestc, hsave⟩
    · exact absurd (hversion.symm.trans hempty) (catalogVersion_ne_nil _ _)
    · rw [← hdigest hc hcall.1 (hdigestc.trans hversion)]
      exact hsave
  · have hanswer : answer = (r', .saved) := heq
    rw [hanswer]
    refine ⟨fun _ h => (nomatch h), fun h => (nomatch h), fun hknown => ?_⟩
    exact (saves_of hsave).immutable hvalid hknown (hcall.2 hknown)

def oneFile : TorrentCatalog :=
  ⟨.v1, ascii "t", 10, 16, 1, [⟨[], 0, ascii "a", 10, 0, false⟩]⟩

def oneFileAndEmpty : TorrentCatalog :=
  { oneFile with
    files := [⟨[], 0, ascii "a", 10, 0, false⟩, ⟨[], 1, ascii "b", 0, 10, false⟩] }

def attachedFence : RuntimeFence where
  hash := "h"
  recordID := "r"
  revision := 1
  attachment := "a"

def pendingRecord : CatalogRecord where
  fence := attachedFence
  deleting := false
  moving := false
  name := []
  size := 0
  pieceLength := 0
  numPieces := 0
  metadataKnown := false
  format := .unknown
  version := []
  files := .empty

/-- A text of the format and the number of files. -/
def outline (c : TorrentCatalog) : Bytes :=
  [if c.format = .unknown then 0 else 1, UInt8.ofNat c.files.length]

def oldFormat : TorrentCatalog := { oneFile with format := .unknown }

/-- The catalog of a record gets its format, and the same call again returns early. -/
theorem oneFile_again :
    let s := saveStep outline pendingRecord ⟨attachedFence, oldFormat, true⟩
    let answer := saveCatalog outline s ⟨attachedFence, oneFile, true⟩
    (answer.2 = .saved ∧ s.Immutable answer.1) ∧
      (saveCatalog outline answer.1 ⟨attachedFence, oneFile, true⟩).2 = .matched := by
  have hdigest : Set.InjOn (catalogVersion outline) {oldFormat, oneFile} := by
    rintro a (rfl | rfl) b (rfl | rfl) h
    · rfl
    · exact absurd h (by decide +kernel)
    · exact absurd h (by decide +kernel)
    · rfl
  have hrun := saveCatalog_immutable outline {oldFormat, oneFile} hdigest
    pendingRecord (.inl rfl) [⟨attachedFence, oldFormat, true⟩] ⟨attachedFence, oneFile, true⟩
    ⟨⟨.inl rfl, fun h => (nomatch h)⟩, ⟨.inr rfl, fun _ => by decide +kernel⟩, trivial⟩
  exact ⟨⟨by decide +kernel, hrun.2.2 (by decide +kernel)⟩, by decide +kernel⟩

/-- A catalog with one more, empty file is accepted for a record whose metadata is known, and
adds a row. -/
theorem oneFileAndEmpty_grows :
    let s := saveStep outline pendingRecord ⟨attachedFence, oneFile, true⟩
    let answer := saveCatalog outline s ⟨attachedFence, oneFileAndEmpty, true⟩
    s.metadataKnown = true ∧ validateCatalog oneFileAndEmpty = .ok () ∧ answer.2 = .saved ∧
      (s.files.find 1).isSome = false ∧ (answer.1.files.find 1).isSome = true := by
  decide +kernel

end TorrentHub
