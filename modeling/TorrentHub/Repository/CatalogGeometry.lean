import TorrentHub.Repository.Catalog
import TorrentHub.Resume.Pairwise

namespace TorrentHub
open Lib RelPath

variable {c : TorrentCatalog}

namespace TorrentCatalog

def extent (c : TorrentCatalog) : Int64 := extentOf 0 c.files

/-- The identity that is bound to a catalog, as `catalogIdentity` fills it in. -/
def identity (c : TorrentCatalog) (base : Identity) : Identity :=
  { base with
    pieceLength := c.pieceLength
    pieceCount := c.numPieces
    extentLength := c.extent }

/-- Paths are those of the layout, and the evidence comes from the storage. -/
def resumeFiles (c : TorrentCatalog) (path : FileCatalog → Bytes)
    (evidence : FileCatalog → Evidence) : List ResumeFile :=
  c.files.map fun f => ⟨path f, f.offset, f.size, evidence f⟩

end TorrentCatalog

/-- What `Identity.validate` checks apart from the geometry. -/
structure Identity.Described (id : Identity) : Prop where
  budget : ¬id.pieceCount > maxPieces
  named : ¬(id.recordID == [] || decide (id.recordID.length > maxIdentityLength) ||
    id.storageID == [] || decide (id.storageID.length > maxIdentityLength) ||
    id.volumeID == [] || decide (id.volumeID.length > maxIdentityLength) ||
    decide (id.mappingRevision ≤ 0) || !validDigest id.metainfoDigest ||
    !validDigest id.catalogDigest) = true
  lengths : ¬(decide (id.root.length > maxPathLength) ||
    decide (id.layoutPrefix.length > maxPathLength)) = true
  noZero : ¬(id.root.contains 0 || id.layoutPrefix.contains 0) = true
  layout : id.layout.validate.isOk = true

/-- What `Identity.validate` checks of the extent and the number of pieces. -/
structure Identity.Measured (id : Identity) : Prop where
  count : ¬id.pieceCount < 0
  length : ¬id.pieceLength ≤ 0
  extent : ¬id.extentLength < 0
  covers : (if id.extentLength % id.pieceLength != 0 then id.extentLength / id.pieceLength + 1
    else id.extentLength / id.pieceLength) = id.pieceCount

theorem Identity.validate_iff {id : Identity} :
    id.validate = .ok () ↔ id.Described ∧ id.Measured := by
  simp only [Identity.validate, ite_error_eq_ok, Bool.or_eq_true, not_or, bne_iff_ne, not_not,
    decide_eq_true_eq, Bool.not_eq_true', Bool.not_eq_false]
  constructor
  · rintro ⟨h1, h2, h3, h4, h5, h6, h7, h8, -⟩
    refine ⟨⟨h2, ?_, ?_, ?_, h6⟩, ⟨h1, h7.1, h7.2, ?_⟩⟩
    · simpa using h3
    · simpa using h4
    · simpa using h5
    · simpa using h8
  rintro ⟨⟨h2, h3, h4, h5, h6⟩, h1, h7, h7', h8⟩
  refine ⟨h1, h2, ?_, ?_, ?_, h6, ⟨h7, h7'⟩, ?_, trivial⟩
  · simpa using h3
  · simpa using h4
  · simpa using h5
  · simpa using h8

/-- What the loop over the files of a checkpoint checks of one file apart from its range. -/
structure ResumeFile.Described (f : ResumeFile) (pathBytes : Nat) : Prop where
  total : pathBytes + f.path.length ≤ maxPathBytes
  length : f.path.length ≤ maxPathLength
  depth : f.path.count slash < maxPathDepth
  identity : f.evidence.identity.length ≤ maxIdentityLength
  noZero : (0 : UInt8) ∉ f.path
  relative : (validateRelative f.path).isOk = true
  clean : RelPath.clean f.path = f.path
  size : ¬f.evidence.size < 0
  identified : f.evidence.present = true → f.evidence.identity ≠ []

structure ResumeFile.Measured (f : ResumeFile) (extent fileEnd : Int64) : Prop where
  after : ¬f.offset < fileEnd
  positive : ¬f.length < 0
  inside : ¬f.offset > extent
  ends : ¬f.length > extent - f.offset

def FilesDescribed : List ResumeFile → Nat → Prop
  | [], _ => True
  | f :: files, pathBytes =>
    f.Described pathBytes ∧ FilesDescribed files (pathBytes + f.path.length)

def FilesMeasured (extent : Int64) : List ResumeFile → Int64 → Prop
  | [], _ => True
  | f :: files, fileEnd =>
    f.Measured extent fileEnd ∧ FilesMeasured extent files (f.offset + f.length)

theorem ResumeFile.fits_iff {f : ResumeFile} {extent fileEnd : Int64} {pathBytes : Nat} :
    f.Fits extent pathBytes fileEnd ↔ f.Described pathBytes ∧ f.Measured extent fileEnd :=
  ⟨fun h => ⟨⟨h.total, h.length, h.depth, h.identity, h.noZero, h.relative, h.clean, h.size,
      h.identified⟩, h.after, h.positive, h.inside, h.ends⟩,
    fun h => ⟨h.1.total, h.1.length, h.1.depth, h.1.identity, h.1.noZero, h.1.relative, h.1.clean,
      h.2.after, h.2.positive, h.2.inside, h.2.ends, h.1.size, h.1.identified⟩⟩

theorem filesFit_iff {extent fileEnd : Int64} {files : List ResumeFile} {pathBytes : Nat} :
    FilesFit extent files pathBytes fileEnd ↔
      FilesDescribed files pathBytes ∧ FilesMeasured extent files fileEnd := by
  induction files generalizing pathBytes fileEnd with
  | nil => simp [FilesFit, FilesDescribed, FilesMeasured]
  | cons f files ih =>
    simp only [FilesFit, FilesDescribed, FilesMeasured, ih, ResumeFile.fits_iff]
    constructor
    · rintro ⟨⟨h1, h2⟩, h3, h4⟩
      exact ⟨⟨h1, h3⟩, h2, h4⟩
    · rintro ⟨⟨h1, h3⟩, h2, h4⟩
      exact ⟨⟨h1, h2⟩, h3, h4⟩

structure TorrentCatalog.Laid (c : TorrentCatalog) : Prop where
  positive : 0 < c.pieceLength.toInt
  lays : ∃ t, CatalogTotals.Lays c.pieceLength c.format.aligned 0 c.files ⟨0, 0, 0⟩ t
  sum : (c.files.map (·.size.toInt)).sum = c.size.toInt
  pieces : c.numPieces.toInt =
    (c.extent.toInt + c.pieceLength.toInt - 1) / c.pieceLength.toInt

theorem validateCatalog_laid (h : validateCatalog c = .ok ()) (hformat : c.format ≠ .unknown) :
    c.Laid := by
  have hzero : (0 : Int64).toInt = 0 := rfl
  unfold validateCatalog at h
  split at h
  · cases h
  rename_i hhead
  simp only [Bool.or_eq_true, decide_eq_true_eq, not_or] at hhead
  obtain ⟨⟨⟨-, hlength⟩, -⟩, -⟩ := hhead
  rw [Int64.le_iff_toInt_le] at hlength
  have hpositive : 0 < c.pieceLength.toInt := by omega
  split at h
  · cases h
  rename_i t ht
  obtain ⟨hlays, hsound⟩ := catalogTotals_lays hpositive (.zero hpositive) ht
  split at h
  · cases h
  rename_i hsize
  rw [ne_eq, not_not] at hsize
  have hsum := hlays.size
  dsimp only at hsum
  dsimp only at h
  rw [ite_error_eq_ok] at h
  obtain ⟨hcount, -⟩ := h
  simp only [Bool.and_eq_true, bne_iff_ne, ne_eq, hformat, not_false_eq_true, true_and,
    not_not] at hcount
  refine ⟨hpositive, ⟨t, hlays⟩, by rw [← hsize]; omega, ?_⟩
  have hcovers := hsound.covers
  rw [← hcount]
  cases haligned : c.format.aligned with
  | true =>
    rw [if_pos rfl]
    have hwhole := hsound.whole haligned
    have hup : c.extent.toInt + c.pieceLength.toInt - 1 =
        (c.extent.toInt + c.pieceLength.toInt - 1 - t.offset.toInt) +
          c.pieceLength.toInt * t.pieces.toInt := by omega
    have hext : c.extent = extentOf 0 c.files := rfl
    rw [hup, Int.add_mul_ediv_left _ _ (by omega),
      Int.ediv_eq_zero_of_lt (by rw [hext]; omega) (by rw [hext]; omega), Int.zero_add]
  | false =>
    obtain ⟨heq, hextent⟩ := hsound.packed haligned
    have hext : c.extent.toInt = t.size.toInt := by
      rw [← heq, hextent]
      rfl
    rw [if_neg (by simp), toInt_div_up hsound.size hpositive, hext]

theorem numPieces_nonneg (h : validateCatalog c = .ok ()) : ¬c.numPieces < 0 := by
  unfold validateCatalog at h
  rw [ite_error_eq_ok] at h
  simp only [Bool.or_eq_true, decide_eq_true_eq, not_or] at h
  exact h.1.1.2

theorem TorrentCatalog.Laid.identity (h : c.Laid) (hnumber : ¬c.numPieces < 0) (base : Identity) :
    (c.identity base).Measured := by
  have hzero : (0 : Int64).toInt = 0 := rfl
  have hpositive := h.positive
  have hextent : 0 ≤ c.extent.toInt := (extentOf_spec c.files).1
  refine ⟨hnumber, ?_, ?_, ?_⟩
  · rw [Int64.le_iff_toInt_le]
    change ¬c.pieceLength.toInt ≤ _
    omega
  · rw [Int64.lt_iff_toInt_lt]
    change ¬c.extent.toInt < _
    omega
  · apply Int64.toInt_inj.1
    have hup := toInt_div_up hextent hpositive
    simp only [bne_iff_ne]
    exact hup.trans h.pieces.symm

theorem filesMeasured_map {extent fileEnd : Int64} {files : List FileCatalog}
    (path : FileCatalog → Bytes) (evidence : FileCatalog → Evidence)
    (hwithin : ∀ f ∈ files, 0 ≤ f.offset.toInt ∧ fileEnd.toInt ≤ f.offset.toInt ∧
      0 ≤ f.size.toInt ∧ (f.offset + f.size).toInt = f.offset.toInt + f.size.toInt ∧
      f.offset.toInt + f.size.toInt ≤ extent.toInt)
    (hordered : files.Pairwise fun f g => f.offset.toInt + f.size.toInt ≤ g.offset.toInt) :
    FilesMeasured extent (files.map fun f => ⟨path f, f.offset, f.size, evidence f⟩) fileEnd := by
  have hzero : (0 : Int64).toInt = 0 := rfl
  induction files generalizing fileEnd with
  | nil => exact trivial
  | cons file files ih =>
    obtain ⟨⟨hstart, hafter, hpos, hsum, hend⟩, hrest⟩ := List.forall_mem_cons.1 hwithin
    obtain ⟨hfirst, hordered⟩ := List.pairwise_cons.1 hordered
    refine ⟨⟨?_, ?_, ?_, ?_⟩, ?_⟩
    · rw [Int64.lt_iff_toInt_lt]
      exact not_lt.2 hafter
    · rw [Int64.lt_iff_toInt_lt]
      exact not_lt.2 hpos
    · rw [gt_iff_lt, Int64.lt_iff_toInt_lt]
      dsimp only
      omega
    · rw [gt_iff_lt, Int64.lt_iff_toInt_lt, toInt_sub_of_le hstart
        (show file.offset.toInt ≤ extent.toInt by omega)]
      dsimp only
      omega
    · refine ih (fun f hf => ?_) hordered
      obtain ⟨h1, -, h3, h4, h5⟩ := hrest f hf
      refine ⟨h1, ?_, h3, h4, h5⟩
      rw [hsum]
      exact hfirst f hf

theorem TorrentCatalog.Laid.files (h : c.Laid) (path : FileCatalog → Bytes)
    (evidence : FileCatalog → Evidence) :
    FilesMeasured c.extent (c.resumeFiles path evidence) 0 := by
  have hzero : (0 : Int64).toInt = 0 := rfl
  obtain ⟨t, hlays⟩ := h.lays
  refine filesMeasured_map path evidence (fun f hf => ?_) hlays.ordered
  obtain ⟨hstart, hpos, hsum⟩ := hlays.within f hf
  have hend := (@extentOf_spec 0 c.files).2.1 f hf
  dsimp only at hstart
  exact ⟨by omega, by omega, hpos, hsum, hsum ▸ hend⟩

/-- Where the files of an accepted catalog lie, and that only the rest of what a checkpoint is
checked for can be wrong with it. -/
theorem validateCatalog_geometry (c : TorrentCatalog) (h : validateCatalog c = .ok ())
    (hformat : c.format ≠ .unknown) :
    (∀ f ∈ c.files, 0 ≤ f.offset.toInt ∧ 0 ≤ f.size.toInt ∧
      (f.offset + f.size).toInt = f.offset.toInt + f.size.toInt) ∧
    (c.files.Pairwise fun f g => f.offset.toInt + f.size.toInt ≤ g.offset.toInt) ∧
    (c.format = .v1 → ∀ (k : Nat) f, c.files[k]? = some f →
      f.offset.toInt = ((c.files.take k).map (·.size.toInt)).sum) ∧
    (c.format = .v2 ∨ c.format = .hybrid → ∀ f ∈ c.files,
      c.pieceLength.toInt ∣ f.offset.toInt) ∧
    (c.files.map (·.size.toInt)).sum = c.size.toInt ∧
    (0 ≤ c.extent.toInt ∧ (∀ f ∈ c.files, f.offset.toInt + f.size.toInt ≤ c.extent.toInt) ∧
      (c.extent = 0 ∨ ∃ f ∈ c.files, c.extent.toInt = f.offset.toInt + f.size.toInt)) ∧
    c.numPieces.toInt = (c.extent.toInt + c.pieceLength.toInt - 1) / c.pieceLength.toInt ∧
    (∀ base, (c.identity base).Measured ∧
      ((c.identity base).validate = .ok () ↔ (c.identity base).Described)) ∧
    ∀ path evidence fold keys,
      FilesMeasured c.extent (c.resumeFiles path evidence) 0 ∧
      (validateFiles fold c.extent (c.resumeFiles path evidence) [] 0 0 = .ok keys ↔
        FilesDescribed (c.resumeFiles path evidence) 0 ∧
          ((c.resumeFiles path evidence).map (·.key fold)).Nodup ∧
          keys = ((c.resumeFiles path evidence).map (·.key fold)).reverse) := by
  have hlaid := validateCatalog_laid h hformat
  obtain ⟨t, hlays⟩ := hlaid.lays
  obtain ⟨hnonneg, hextent, hwhich⟩ := @extentOf_spec 0 c.files
  have hwithin : ∀ f ∈ c.files, 0 ≤ f.offset.toInt ∧ 0 ≤ f.size.toInt ∧
      (f.offset + f.size).toInt = f.offset.toInt + f.size.toInt := hlays.within
  refine ⟨hwithin, hlays.ordered, ?_, ?_, hlaid.sum, ⟨hnonneg, ?_, ?_⟩, hlaid.pieces, ?_, ?_⟩
  · intro hv1 k f hf
    have hpacked := hlays.packed (by rw [hv1]; rfl) k f hf
    exact hpacked.trans (Int.zero_add _)
  · intro hv2
    refine hlays.starts ?_
    rcases hv2 with hv2 | hv2
    · rw [hv2]
      rfl
    · rw [hv2]
      rfl
  · intro f hf
    exact (hwithin f hf).2.2 ▸ hextent f hf
  · rcases hwhich with hzero | ⟨f, hf, heq⟩
    · exact .inl hzero
    · exact .inr ⟨f, hf, (congrArg Int64.toInt heq).trans (hwithin f hf).2.2⟩
  · intro base
    have hmeasured := hlaid.identity (numPieces_nonneg h) base
    exact ⟨hmeasured, Identity.validate_iff.trans (and_iff_left hmeasured)⟩
  · intro path evidence fold keys
    have hmeasured := hlaid.files path evidence
    refine ⟨hmeasured, ?_⟩
    rw [validateFiles_iff, filesFit_iff, and_iff_left hmeasured]
    simp

def paddedCatalog : TorrentCatalog :=
  ⟨.hybrid, ascii "t", 10, 16, 1,
    [⟨[], 0, ascii "a", 0, 0, false⟩, ⟨[], 1, ascii "b", 10, 0, false⟩,
      ⟨[], 2, ascii "c", 0, 16, false⟩]⟩

theorem paddedCatalog_pieces :
    validateCatalog paddedCatalog = .ok () ∧ paddedCatalog.extent = 16 ∧
      paddedCatalog.numPieces.toInt =
        (paddedCatalog.extent.toInt + paddedCatalog.pieceLength.toInt - 1) /
          paddedCatalog.pieceLength.toInt := by
  have hvalid : validateCatalog paddedCatalog = .ok () := by decide +kernel
  obtain ⟨-, -, -, -, -, -, hpieces, -⟩ := validateCatalog_geometry paddedCatalog hvalid (by decide)
  exact ⟨hvalid, by decide +kernel, hpieces⟩

end TorrentHub
