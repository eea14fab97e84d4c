import TorrentHub.Resume.Codec

namespace TorrentHub
open Lib Binary Decoder Encoder

variable {fold : Bytes → Bytes} {c : Checkpoint} {data : Bytes}

variable {limit pathBytes : Nat} {id : Identity} {f : ResumeFile} {extent fileEnd : Int64}
  {files : List ResumeFile} {paths keys : List Bytes}

theorem reads_integer (n : Int64) : Reads integer (integer n) n := by
  have htake : Reads (take 8) (integer n) (integer n) := .take _ (length_littleEndian _ _)
  have hvalue : (UInt64.ofNat (value (integer n))).toInt64 = n := by
    rw [Encoder.integer, value_uint64]
    simp
  have hread := htake.bind_nil (f := fun p => pure (UInt64.ofNat (value p)).toInt64) (.pure _)
  rwa [hvalue] at hread

theorem reads_text {s : Bytes} (h : s.length ≤ limit) (hlimit : limit < 2 ^ 32) :
    Reads (text limit) (text s) s := by
  have htake : Reads (take 4) (uint32 (UInt32.ofNat s.length)) _ :=
    .take _ (length_littleEndian _ _)
  have hvalue : value (uint32 (UInt32.ofNat s.length)) = s.length := by
    rw [value_uint32, UInt32.toNat_ofNat_of_lt' (by simp only [UInt32.size]; omega)]
  apply htake.bind
  rw [hvalue]
  change Reads (if s.length > limit then _ else take s.length) s s
  rw [if_neg (by omega)]
  exact .take _ rfl

structure Identity.Fits (id : Identity) : Prop where
  recordID : id.recordID.length ≤ maxIdentityLength
  storageID : id.storageID.length ≤ maxIdentityLength
  root : id.root.length ≤ maxPathLength
  layoutPrefix : id.layoutPrefix.length ≤ maxPathLength
  metainfoDigest : id.metainfoDigest.length ≤ 64
  catalogDigest : id.catalogDigest.length ≤ 64
  volumeID : id.volumeID.length ≤ maxIdentityLength

theorem Identity.fits_of_validate (h : id.validate = .ok ()) : id.Fits := by
  simp only [Identity.validate, ite_error_eq_ok, Bool.or_eq_true, decide_eq_true_eq, not_or,
    Bool.not_eq_true', Bool.not_eq_false, validDigest, Bool.and_eq_true, beq_iff_eq] at h
  obtain ⟨-, -, hids, hpaths, -⟩ := h
  constructor <;> omega

theorem Identity.counts_of_validate (h : id.validate = .ok ()) :
    ¬id.pieceCount < 0 ∧ ¬id.pieceCount > maxPieces ∧ ¬id.layoutVersion < 0 ∧
      ¬id.layoutVersion > 2 := by
  simp only [Identity.validate, ite_error_eq_ok] at h
  obtain ⟨hcount, hmax, -, -, -, hlayout, -⟩ := h
  refine ⟨hcount, hmax, ?_⟩
  have hversion : id.layoutVersion = 1 ∨ id.layoutVersion = 2 := by
    have hsupported := Layout.supported_of_validate (by simpa using hlayout)
    simp only [Identity.layout, supported, Bool.or_eq_true, beq_iff_eq] at hsupported
    exact hsupported.imp Int64.toInt_inj.1 Int64.toInt_inj.1
  rcases hversion with hv | hv <;> rw [hv] <;> decide

theorem reads_header (hid : c.identity.Fits) : Reads header (header c)
      ⟨c.generation, c.createdAtMS, c.identity, Int64.ofNat c.files.length⟩ := by
  unfold Encoder.header
  simp only [List.append_assoc]
  apply (reads_integer _).bind
  apply (reads_integer _).bind
  apply (reads_text hid.recordID (by decide)).bind
  apply (reads_text hid.storageID (by decide)).bind
  apply (reads_text hid.root (by decide)).bind
  apply (reads_text hid.layoutPrefix (by decide)).bind
  apply (reads_text hid.metainfoDigest (by decide)).bind
  apply (reads_text hid.catalogDigest (by decide)).bind
  apply (reads_text hid.volumeID (by decide)).bind
  apply (reads_integer _).bind
  apply (reads_integer _).bind
  apply (reads_integer _).bind
  apply (reads_integer _).bind
  apply (reads_integer _).bind
  exact (reads_integer _).bind_nil (.pure _)

theorem reads_file (hpath : f.path.length ≤ limit)
    (hlimit : limit < 2 ^ 32) (hid : f.evidence.identity.length ≤ maxIdentityLength) :
    Reads (file limit) (file f) f := by
  obtain ⟨path, offset, length, ⟨present, identity, size, modifiedNS⟩⟩ := f
  unfold Encoder.file
  simp only [List.append_assoc]
  apply (reads_text hpath hlimit).bind
  apply (reads_integer _).bind
  apply (reads_integer _).bind
  apply (reads_integer _).bind
  apply (reads_text hid (by decide)).bind
  apply (reads_integer _).bind
  apply (reads_integer _).bind_nil
  cases present with
  | false | true => exact .pure _

/-- The files that one round of the loop of `validateFiles` has let through. -/
theorem validateFiles_cons
    (h : validateFiles fold extent (f :: files) paths pathBytes fileEnd = .ok keys) :
    (f.path.length ≤ min maxPathLength (maxPathBytes - pathBytes) ∧
      f.evidence.identity.length ≤ maxIdentityLength) ∧
    validateFiles fold extent files (collisionKey fold f.path :: paths)
      (pathBytes + f.path.length) (f.offset + f.length) = .ok keys := by
  simp only [validateFiles, ite_error_eq_ok, Bool.or_eq_true, decide_eq_true_eq, not_or] at h
  obtain ⟨hbudget, -, -, -, hrest⟩ := h
  refine ⟨?_, hrest⟩
  omega

theorem reads_files (h : validateFiles fold extent files paths pathBytes fileEnd = .ok keys) :
    Reads (Decoder.files files.length pathBytes) (files.flatMap Encoder.file) files := by
  induction files generalizing paths pathBytes fileEnd with
  | nil => exact .pure _
  | cons f files ih =>
    obtain ⟨⟨hpath, hid⟩, hrest⟩ := validateFiles_cons h
    have hlimit : min maxPathLength (maxPathBytes - pathBytes) < 2 ^ 32 := by
      simp only [maxPathLength]
      omega
    rw [List.flatMap_cons]
    apply (reads_file hpath hlimit hid).bind
    exact (ih hrest).bind_nil (.pure _)

theorem Checkpoint.validate_ok (h : c.validate fold = .ok ()) :
    c.schema = schemaVersion ∧ c.identity.validate = .ok () ∧ c.files.length ≤ maxFiles ∧
      c.files ≠ [] ∧ validBitmap c.pieces c.identity.pieceCount = true ∧
      ∃ keys, validateFiles fold c.identity.extentLength c.files [] 0 0 = .ok keys := by
  simp only [Checkpoint.validate, ite_error_eq_ok, Bool.or_eq_true, not_or] at h
  obtain ⟨⟨⟨hschema, -⟩, -⟩, h⟩ := h
  split at h
  · cases h
  next hid =>
  simp only [ite_error_eq_ok, not_or] at h
  obtain ⟨hmax, ⟨hfiles, hbits⟩, h⟩ := h
  split at h
  · cases h
  next keys hkeys =>
  refine ⟨by simpa using hschema, hid, by omega, by simpa using hfiles, by simpa using hbits,
    keys, hkeys⟩

theorem length_of_validBitmap {bits : Bytes} {pieces : Int64} (h : validBitmap bits pieces = true) :
    bits.length = bitmapBytes pieces := by
  unfold validBitmap at h
  split at h
  · cases h
  next hlen =>
  simp only [Bool.or_eq_true, not_or, bne_iff_ne, not_not] at hlen
  exact hlen.2

theorem toInt_files (hmax : c.files.length ≤ maxFiles) :
    (Int64.ofNat c.files.length).toInt = c.files.length :=
  Int64.toInt_ofNat_of_lt (by simp only [maxFiles] at hmax; omega)

theorem header_check (hid : c.identity.validate = .ok ()) (hmax : c.files.length ≤ maxFiles)
    (hne : c.files ≠ []) : (Header.mk c.generation c.createdAtMS c.identity
      (Int64.ofNat c.files.length)).check = .ok () := by
  obtain ⟨hcount, hpieces, hlow, hhigh⟩ := Identity.counts_of_validate hid
  have hpos := List.length_pos_iff.2 hne
  have hfew : ¬Int64.ofNat c.files.length < 1 := by
    rw [Int64.lt_iff_toInt_lt, toInt_files hmax]
    change ¬(c.files.length : Int) < 1
    omega
  have hmany : ¬Int64.ofNat c.files.length > Int64.ofNat maxFiles := by
    rw [gt_iff_lt, Int64.lt_iff_toInt_lt, toInt_files hmax]
    change ¬(4096 : Int) < c.files.length
    simp only [maxFiles] at hmax
    omega
  simp only [Header.check, hcount, hpieces, hlow, hhigh, hfew, hmany, decide_false,
    Bool.or_self, Bool.false_eq_true, ↓reduceIte, hid]

theorem reads_body (h : c.validate fold = .ok ()) :
    Reads body (header c ++ (c.files.flatMap file ++ c.pieces)) c := by
  obtain ⟨hschema, hid, hmax, hne, hbits, keys, hkeys⟩ := Checkpoint.validate_ok h
  have hcount : (Int64.ofNat c.files.length).toNatClampNeg = c.files.length := by
    rw [Int64.toNatClampNeg, toInt_files hmax, Int.toNat_natCast]
  apply (reads_header (Identity.fits_of_validate hid)).bind
  apply Reads.check (header_check hid hmax hne)
  rw [hcount]
  apply (reads_files hkeys).bind
  apply (Reads.take _ (length_of_validBitmap hbits)).bind_nil
  rw [← hschema]
  exact .pure c

theorem envelope_bytes (hschema : c.schema = schemaVersion) : envelope c.bytes =
      .ok (header c ++ (c.files.flatMap file ++ c.pieces)) := by
  have hread : Reads (do return (← take envelopeMagic.length, ← integer))
      (envelopeMagic ++ integer c.schema) (envelopeMagic, c.schema) := by
    apply (Reads.take _ rfl).bind
    exact (reads_integer _).bind_nil (.pure _)
  unfold envelope Checkpoint.bytes
  rw [hread, hschema]
  rfl

theorem decode_encode (h : encode fold c = .ok data) : decode fold data = .ok c := by
  unfold encode at h
  split at h
  · cases h
  next hvalid =>
  rw [ite_error_eq_ok] at h
  obtain ⟨hlen, h⟩ := h
  cases h
  have hschema := (Checkpoint.validate_ok hvalid).1
  have hbody := (reads_body hvalid).run_eq
  unfold decode
  rw [if_neg hlen]
  simp only [envelope_bytes hschema, hbody, hvalid, bind, Except.bind, bne_self_eq_false,
    Bool.false_eq_true, ↓reduceIte]
  rfl

theorem decode_valid (h : decode fold data = .ok c) : c.validate fold = .ok () := by
  simp only [decode, throw_eq, error_bind, bind_eq_ok, ite_error_eq_ok] at h
  obtain ⟨-, rest, -, ⟨c', rest'⟩, -, h⟩ := h
  simp only [pure_eq] at h
  obtain ⟨-, ⟨⟩, hvalid, rfl⟩ := h
  exact hvalid

end TorrentHub
