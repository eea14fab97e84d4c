import TorrentHub.Resume.Pairwise

namespace TorrentHub
open Lib List Bitmap ResumeFile

inductive ResumeMode where
  | fast | verify
  | other (text : String)
deriving DecidableEq

inductive ResumeReason where
  | restored | strictMode | noCheckpoint | invalidCheckpoint | budgetExceeded | identityChanged
  | storageBlocked | filesChanged | piecesRevoked
deriving DecidableEq

structure Candidate where
  reason : ResumeReason
  bits : Bytes := []
deriving DecidableEq

def revokePieces : Bytes → Bytes → Option Bytes
  | [], _ => some []
  | _ :: _, [] => none
  | b :: bits, r :: revoked => (revokePieces bits revoked).map ((b &&& ~~~r) :: ·)

/-- A shift by a negative remainder, of a negative piece in the first byte, shifts the bit out
of the byte. -/
def clearPiece (bits : Bytes) (piece : Int64) : Option Bytes :=
  if piece / 8 < 0 || decide (bits.length ≤ (piece / 8).toNatClampNeg) then none
  else if piece % 8 < 0 then some bits
  else some (Bitmap.clear bits piece.toNatClampNeg)

/-- The loop over the pieces up to `last`, of at most `rounds` rounds. -/
def clearPieces (last : Int64) : Nat → Int64 → Bytes → Option Bytes
  | 0, piece, bits => if piece ≤ last then none else some bits
  | rounds + 1, piece, bits =>
    if piece ≤ last then (clearPiece bits piece).bind (clearPieces last rounds (piece + 1))
    else some bits

def clearFilePieces (bits : Bytes) (pieceLength offset length : Int64) : Option Bytes :=
  if length = 0 then some bits
  else if pieceLength = 0 then none
  else
    let first := offset / pieceLength
    let last := (offset + length - 1) / pieceLength
    clearPieces last (last.toInt - first.toInt + 1).toNat first bits

def ResumeFile.changed (file old : ResumeFile) : Bool :=
  !file.evidence.present || decide (file.evidence.size < file.length) ||
    file.evidence != old.evidence

def clearChanged (pieceLength : Int64) : List (ResumeFile × ResumeFile) → Bytes → Option Bytes
  | [], bits => some bits
  | (file, old) :: files, bits =>
    if file.changed old then
      (clearFilePieces bits pieceLength file.offset file.length).bind
        (clearChanged pieceLength files)
    else clearChanged pieceLength files bits

def ResumeFile.samePlace (file old : ResumeFile) : Bool :=
  file.path == old.path && file.offset == old.offset && file.length == old.length

def filterReason (saved revoked : Bytes) (files : List (ResumeFile × ResumeFile)) : ResumeReason :=
  if files.any fun f => f.1.changed f.2 then .filesChanged
  else if (saved.zip revoked).any fun b => b.1 &&& b.2 != 0 then .piecesRevoked
  else .restored

def filterCheckpoint (fold : Bytes → Bytes) (mode : ResumeMode) (saved : Option Checkpoint)
    (expected : Identity) (current : List ResumeFile) (revoked : Bytes) (blocked : Bool) :
    Option Candidate :=
  if mode ≠ .fast then some { reason := .strictMode }
  else if blocked then some { reason := .storageBlocked }
  else
    match saved with
    | none => some { reason := .noCheckpoint }
    | some saved =>
      match saved.validate fold with
      | .error .budget => some { reason := .budgetExceeded }
      | .error _ => some { reason := .invalidCheckpoint }
      | .ok () =>
        if saved.identity ≠ expected ∨ current.length ≠ saved.files.length then
          some { reason := .identityChanged }
        else if !validBitmap revoked expected.pieceCount then
          some { reason := .invalidCheckpoint }
        else if !(current.zip saved.files).all fun f => f.1.samePlace f.2 then
          some { reason := .identityChanged }
        else
          (revokePieces saved.pieces revoked).bind fun bits =>
            (clearChanged expected.pieceLength (current.zip saved.files) bits).map fun bits =>
              { reason := filterReason saved.pieces revoked (current.zip saved.files), bits }

variable {fold : Bytes → Bytes} {bits revoked : Bytes}

theorem revokePieces_eq (h : bits.length = revoked.length) :
    revokePieces bits revoked = some (diff bits revoked) := by
  induction bits generalizing revoked with
  | nil => rfl
  | cons b bits ih =>
    cases revoked with
    | nil => cases h
    | cons r revoked =>
      rw [revokePieces, ih (by simpa using h)]
      rfl

theorem clearPiece_eq {piece : Int64} (h : 0 ≤ piece.toInt) (hlt : piece.toInt < 8 * bits.length) :
    clearPiece bits piece = some (clear bits piece.toInt.toNat) := by
  have hzero : (0 : Int64).toInt = 0 := rfl
  have height : (8 : Int64).toInt = 8 := rfl
  have hdiv : (piece / 8).toInt = piece.toInt / 8 := by
    rw [toInt_div_of_nonneg h (by decide), height]
  have hmod : (piece % 8).toInt = piece.toInt % 8 := by rw [toInt_mod_of_nonneg h, height]
  have hindex : ¬(decide (piece / 8 < 0) ||
      decide (bits.length ≤ (piece / 8).toNatClampNeg)) = true := by
    rw [Bool.or_eq_true, decide_eq_true_eq, decide_eq_true_eq, Int64.lt_iff_toInt_lt,
      Int64.toNatClampNeg, hdiv, hzero]
    omega
  have hshift : ¬piece % 8 < 0 := by
    rw [Int64.lt_iff_toInt_lt, hmod, hzero]
    omega
  rw [clearPiece, if_neg hindex, if_neg hshift]
  rfl

/-- Whether a piece is among those from `first` to `last`. -/
def among (first last : Int) (i : Nat) : Bool := decide (first ≤ i) && decide ((i : Int) ≤ last)

theorem among_eq_true {first last : Int} {i : Nat} :
    among first last i = true ↔ first ≤ i ∧ (i : Int) ≤ last := by
  rw [among, Bool.and_eq_true, decide_eq_true_eq, decide_eq_true_eq]

theorem bit_among_none {first last : Int} (h : last < first) (i : Nat) :
    bit bits i = (bit bits i && !among first last i) := by
  have hnone : among first last i = false := by
    rw [← Bool.not_eq_true, among_eq_true]
    omega
  rw [hnone, Bool.not_false, Bool.and_true]

theorem clearPieces_spec {last piece : Int64} {rounds : Nat} (hpiece : 0 ≤ piece.toInt)
    (hlast : last.toInt < 8 * bits.length) (hlimit : last.toInt < 2 ^ 62)
    (hrounds : last.toInt - piece.toInt + 1 ≤ rounds) :
    ∃ bits', clearPieces last rounds piece bits = some bits' ∧ bits'.length = bits.length ∧
      ∀ i : Nat, bit bits' i = (bit bits i && !among piece.toInt last.toInt i) := by
  induction rounds generalizing piece bits with
  | zero =>
    have hle : ¬piece ≤ last := by
      rw [Int64.le_iff_toInt_le]
      omega
    exact ⟨bits, if_neg hle, rfl, bit_among_none (by omega)⟩
  | succ rounds ih =>
    rw [clearPieces]
    by_cases hle : piece ≤ last
    · have hle' := Int64.le_iff_toInt_le.1 hle
      have hone : (1 : Int64).toInt = 1 := rfl
      have hlim : (4611686018427387904 : Int64).toInt = 2 ^ 62 := rfl
      have hnext : (piece + 1).toInt = piece.toInt + 1 :=
        toInt_add_of_le hpiece (by decide) (show _ ≤ (4611686018427387904 : Int64).toInt by omega)
      rw [if_pos hle, clearPiece_eq hpiece (by omega), Option.bind_some]
      obtain ⟨bits', hrun, hlen, hbits⟩ : ∃ bits',
          clearPieces last rounds (piece + 1) (clear bits piece.toInt.toNat) = some bits' ∧
            _ ∧ ∀ i : Nat, _ :=
        ih (by omega) (by rw [length_clear]; exact hlast) (by omega)
      refine ⟨bits', hrun, hlen.trans (length_clear _ _), ?_⟩
      intro i
      have hcase : among piece.toInt last.toInt i =
          (among (piece + 1).toInt last.toInt i || decide (i = piece.toInt.toNat)) := by
        rw [Bool.eq_iff_iff, Bool.or_eq_true, among_eq_true, among_eq_true, decide_eq_true_eq]
        omega
      rw [hbits, bit_clear, hcase, Bool.and_assoc, Bool.not_or, Bool.and_comm (!_), decide_not]
    · rw [if_neg hle]
      rw [Int64.le_iff_toInt_le] at hle
      exact ⟨bits, rfl, rfl, bit_among_none (by omega)⟩

def ResumeFile.Meets (f : ResumeFile) (pieceLength : Int) (piece : Nat) : Prop :=
  0 < f.length.toInt ∧ piece * pieceLength < f.offset.toInt + f.length.toInt ∧
    f.offset.toInt < (piece + 1) * pieceLength

/-- What a checkpoint guarantees about a file: the range is inside the extent, and the pieces
up to the extent are in the bitmap. -/
structure ResumeFile.InRange (f : ResumeFile) (pieceLength extent count : Int) : Prop where
  length : 0 < pieceLength
  offset : 0 ≤ f.offset.toInt
  positive : 0 ≤ f.length.toInt
  inside : f.offset.toInt + f.length.toInt ≤ extent
  covered : extent ≤ count * pieceLength

theorem ResumeFile.InRange.exact {f : ResumeFile} {pieceLength : Int64} {extent count : Int}
    (h : f.InRange pieceLength.toInt extent count) (hextent : extent < 2 ^ 63)
    (hpos : 0 < f.length.toInt) :
    (f.offset + f.length - 1).toInt = f.offset.toInt + f.length.toInt - 1 ∧
      (f.offset / pieceLength).toInt = f.offset.toInt / pieceLength.toInt ∧
      ((f.offset + f.length - 1) / pieceLength).toInt =
        (f.offset.toInt + f.length.toInt - 1) / pieceLength.toInt ∧
      0 ≤ f.offset.toInt / pieceLength.toInt ∧
      (f.offset.toInt + f.length.toInt - 1) / pieceLength.toInt < count := by
  have hone : (1 : Int64).toInt = 1 := rfl
  have hoffset := h.offset
  have hinside := h.inside
  have hcovered := h.covered
  have hmax : (9223372036854775807 : Int64).toInt = 2 ^ 63 - 1 := rfl
  have hsum : (f.offset + f.length).toInt = f.offset.toInt + f.length.toInt :=
    toInt_add_of_le hoffset h.positive (show _ ≤ (9223372036854775807 : Int64).toInt by omega)
  have hend : (f.offset + f.length - 1).toInt = f.offset.toInt + f.length.toInt - 1 := by
    rw [toInt_sub_of_le (by decide) (by omega), hsum, hone]
  refine ⟨hend, toInt_div_of_nonneg hoffset h.length, ?_, ?_, ?_⟩
  · rw [toInt_div_of_nonneg (by omega) h.length, hend]
  · exact Int.ediv_nonneg hoffset (Int.le_of_lt h.length)
  · exact Int.ediv_lt_of_lt_mul h.length (by omega)

theorem clearFilePieces_spec {f : ResumeFile} {pieceLength : Int64} {extent count : Int}
    (h : f.InRange pieceLength.toInt extent count) (hextent : extent < 2 ^ 63)
    (hcount : count ≤ 8 * bits.length) (hmax : count ≤ 2 ^ 62) :
    ∃ bits', clearFilePieces bits pieceLength f.offset f.length = some bits' ∧
      bits'.length = bits.length ∧ ∀ i, bit bits' i = true ↔
        bit bits i = true ∧ ¬f.Meets pieceLength.toInt i := by
  have hzero : (0 : Int64).toInt = 0 := rfl
  have hlength := h.length
  rw [clearFilePieces]
  by_cases hempty : f.length = 0
  · refine ⟨bits, if_pos hempty, rfl, ?_⟩
    intro i
    have hnot : ¬f.Meets pieceLength.toInt i := by
      rintro ⟨hpos, -⟩
      rw [hempty, hzero] at hpos
      omega
    simp [hnot]
  have hpos : 0 < f.length.toInt := by
    have hne : f.length.toInt ≠ 0 := fun he => hempty (Int64.toInt_inj.1 he)
    have hp := h.positive
    omega
  have hpl : pieceLength ≠ 0 := by
    rintro rfl
    rw [hzero] at hlength
    omega
  obtain ⟨hend, hfirst, hlast, hfirst0, hlastlt⟩ := h.exact hextent hpos
  rw [if_neg hempty, if_neg hpl]
  obtain ⟨bits', hrun, hlen, hbits⟩ := @clearPieces_spec bits
    ((f.offset + f.length - 1) / pieceLength) (f.offset / pieceLength) _ (by omega) (by omega)
    (by omega) (Int.self_le_toNat _)
  refine ⟨bits', hrun, hlen, ?_⟩
  intro i
  have hmeets : among (f.offset / pieceLength).toInt
      ((f.offset + f.length - 1) / pieceLength).toInt i = true ↔ f.Meets pieceLength.toInt i := by
    rw [among_eq_true, hfirst, hlast, Int.le_ediv_iff_mul_le hlength, ← Int.lt_add_one_iff,
      Int.ediv_lt_iff_lt_mul hlength, Meets]
    omega
  rw [hbits, Bool.and_eq_true, Bool.not_eq_true', ← Bool.not_eq_true, hmeets]

theorem clearChanged_spec {pieceLength : Int64} {extent count : Int}
    {files : List (ResumeFile × ResumeFile)}
    (h : ∀ f ∈ files, f.1.InRange pieceLength.toInt extent count) (hextent : extent < 2 ^ 63)
    (hcount : count ≤ 8 * bits.length) (hmax : count ≤ 2 ^ 62) :
    ∃ bits', clearChanged pieceLength files bits = some bits' ∧ bits'.length = bits.length ∧
      ∀ i, bit bits' i = true ↔ bit bits i = true ∧
        ∀ f ∈ files, f.1.changed f.2 = true → ¬f.1.Meets pieceLength.toInt i := by
  induction files generalizing bits with
  | nil => exact ⟨bits, rfl, rfl, by simp⟩
  | cons pair files ih =>
    obtain ⟨file, old⟩ := pair
    rw [forall_mem_cons] at h
    rw [clearChanged]
    by_cases hc : file.changed old = true
    · obtain ⟨mid, hclear, hlen, hmid⟩ := clearFilePieces_spec h.1 hextent hcount hmax
      have hmidcount : count ≤ 8 * mid.length := by omega
      obtain ⟨bits', hrun, hlen', hbits⟩ := ih h.2 hmidcount
      rw [if_pos hc, hclear]
      refine ⟨bits', hrun, hlen'.trans hlen, ?_⟩
      intro i
      simp only [hbits, hmid, forall_mem_cons, hc, true_imp_iff, and_assoc]
    · obtain ⟨bits', hrun, hlen, hbits⟩ := ih h.2 hcount
      rw [if_neg hc]
      refine ⟨bits', hrun, hlen, ?_⟩
      intro i
      simp only [hbits, forall_mem_cons, hc, false_imp_iff, true_and, Bool.false_eq_true]

def SameCatalog (current saved : List ResumeFile) : Prop :=
  current.map (fun f => (f.path, f.offset, f.length)) =
    saved.map fun f => (f.path, f.offset, f.length)

theorem sameCatalog_iff {current saved : List ResumeFile} (hlen : current.length = saved.length) :
    ((current.zip saved).all fun f => f.1.samePlace f.2) = true ↔ SameCatalog current saved := by
  induction current generalizing saved with
  | nil =>
    cases saved with
    | nil => exact ⟨fun _ => rfl, fun _ => rfl⟩
    | cons g saved => cases hlen
  | cons f current ih =>
    cases saved with
    | nil => cases hlen
    | cons g saved =>
      have htail : current.length = saved.length := by simpa using hlen
      rw [zip_cons_cons, all_cons, Bool.and_eq_true, ih htail]
      simp only [SameCatalog, map_cons, cons.injEq, Bool.and_eq_true,
        samePlace, beq_iff_eq, Prod.mk.injEq, and_assoc]

theorem inRange_of_validate {c : Checkpoint} {current : List ResumeFile}
    (hvalid : c.validate fold = .ok ()) (hsame : SameCatalog current c.files) :
    ∀ f ∈ current, f.InRange c.identity.pieceLength.toInt c.identity.extentLength.toInt
      c.identity.pieceCount.toInt := by
  obtain ⟨-, hid, -, -, paths, hpaths, -⟩ := validate_eq_ok.1 hvalid
  obtain ⟨hlength, hextent, hcount⟩ := Identity.pieceCount_eq hid
  have hranges := ((validateFiles_iff.1 hpaths).1.ranges (by decide)).1
  have hcovered : c.identity.extentLength.toInt ≤
      c.identity.pieceCount.toInt * c.identity.pieceLength.toInt := by
    have hlt := Int.lt_ediv_add_one_mul_self
      (c.identity.extentLength.toInt + c.identity.pieceLength.toInt - 1) hlength
    rw [← hcount, Int.add_mul] at hlt
    omega
  intro f hf
  obtain ⟨g, hg, hplace⟩ := mem_map.1 (hsame ▸ mem_map_of_mem hf :
    (f.path, f.offset, f.length) ∈ c.files.map fun f => (f.path, f.offset, f.length))
  obtain ⟨-, hoffset, hlen⟩ : g.path = f.path ∧ g.offset = f.offset ∧ g.length = f.length := by
    simpa using hplace
  obtain ⟨h1, h2, h3⟩ := hranges g hg
  rw [hoffset] at h1 h3
  rw [hlen] at h2 h3
  exact ⟨hlength, h1, h2, h3, hcovered⟩

theorem filterCheckpoint_cases (fold : Bytes → Bytes) (mode : ResumeMode)
    (saved : Option Checkpoint)
    (expected : Identity) (current : List ResumeFile) (revoked : Bytes) (blocked : Bool) :
    (∃ reason, filterCheckpoint fold mode saved expected current revoked blocked =
      some { reason }) ∨
    mode = .fast ∧ blocked = false ∧ ∃ c, saved = some c ∧ c.validate fold = .ok () ∧
      c.identity = expected ∧ SameCatalog current c.files ∧
      validBitmap revoked expected.pieceCount = true := by
  unfold filterCheckpoint
  split
  · exact .inl ⟨_, rfl⟩
  rename_i hmode
  split
  · exact .inl ⟨_, rfl⟩
  rename_i hblocked
  split
  · exact .inl ⟨_, rfl⟩
  rename_i c
  split
  · exact .inl ⟨_, rfl⟩
  · exact .inl ⟨_, rfl⟩
  rename_i hvalid
  split
  · exact .inl ⟨_, rfl⟩
  rename_i hid
  split
  · exact .inl ⟨_, rfl⟩
  rename_i hrevoked
  split
  · exact .inl ⟨_, rfl⟩
  rename_i hplaces
  rw [not_or, not_not, not_not] at hid
  refine .inr ⟨not_not.1 hmode, by simpa using hblocked, c, rfl, hvalid, hid.1, ?_,
    by simpa using hrevoked⟩
  rw [← sameCatalog_iff hid.2]
  simpa using hplaces

theorem filterCheckpoint_checked {c : Checkpoint} {current : List ResumeFile}
    (hvalid : c.validate fold = .ok ()) (hsame : SameCatalog current c.files)
    (hrevoked : validBitmap revoked c.identity.pieceCount = true) :
    filterCheckpoint fold .fast (some c) c.identity current revoked false =
      (revokePieces c.pieces revoked).bind fun bits =>
        (clearChanged c.identity.pieceLength (current.zip c.files) bits).map fun bits =>
          { reason := filterReason c.pieces revoked (current.zip c.files), bits } := by
  have hlen : current.length = c.files.length := by simpa using congrArg List.length hsame
  simp [filterCheckpoint, hvalid, hlen, hrevoked, (sameCatalog_iff hlen).2 hsame]

theorem filterCheckpoint_bits {c : Checkpoint} {current : List ResumeFile}
    (hvalid : c.validate fold = .ok ()) (hsame : SameCatalog current c.files)
    (hrevoked : validBitmap revoked c.identity.pieceCount = true) :
    ∃ bits, filterCheckpoint fold .fast (some c) c.identity current revoked false =
        some { reason := filterReason c.pieces revoked (current.zip c.files), bits } ∧
      bits.length = c.pieces.length ∧
      ∀ p, bit bits p = true ↔ (bit c.pieces p = true ∧ bit revoked p = false) ∧
        ∀ f ∈ current.zip c.files, f.1.changed f.2 = true →
          ¬f.1.Meets c.identity.pieceLength.toInt p := by
  have hpieces : validBitmap c.pieces c.identity.pieceCount = true :=
    (Checkpoint.validate_ok hvalid).2.2.2.2.1
  obtain ⟨-, hmax, hsaved, -⟩ := validBitmap_spec hpieces
  obtain ⟨-, -, hlength, -⟩ := validBitmap_spec hrevoked
  have hlen : c.pieces.length = revoked.length := by omega
  have hdiff : (diff c.pieces revoked).length = c.pieces.length := by
    rw [length_diff]
    omega
  have hrange := inRange_of_validate hvalid hsame
  obtain ⟨bits, hclear, hbitslen, hbits⟩ := clearChanged_spec
    (fun f hf => hrange f.1 (of_mem_zip hf).1) c.identity.extentLength.toInt_lt
    (show c.identity.pieceCount.toInt ≤ 8 * (diff c.pieces revoked).length by omega)
    (by omega)
  refine ⟨bits, ?_, hbitslen.trans hdiff, fun p => ?_⟩
  · rw [filterCheckpoint_checked hvalid hsame hrevoked, revokePieces_eq hlen, Option.bind_some,
      hclear, Option.map_some]
  · rw [hbits, bit_diff hlen, Bool.and_eq_true, Bool.not_eq_true']

/-- The filter narrows exactly. Where the checks pass there is a bit for each saved one; with bits
everything before them was checked, and a piece is trusted if and only if it was saved, is not
revoked and meets no file whose evidence is absent, short or changed. It never indexes beyond a
bitmap, and no sum leaves its word. -/
theorem filter_exact (fold : Bytes → Bytes) (mode : ResumeMode) (saved : Option Checkpoint)
    (expected : Identity) (current : List ResumeFile) (revoked : Bytes) (blocked : Bool) :
    ∃ r, filterCheckpoint fold mode saved expected current revoked blocked = some r ∧
      (mode = .fast → blocked = false → ∀ c, saved = some c → c.validate fold = .ok () →
        c.identity = expected → SameCatalog current c.files →
        validBitmap revoked expected.pieceCount = true → r.bits.length = c.pieces.length) ∧
      (r.bits ≠ [] → mode = .fast ∧ blocked = false ∧
        ∃ c, saved = some c ∧ c.validate fold = .ok () ∧ c.identity = expected ∧
          SameCatalog current c.files ∧ r.bits.length = c.pieces.length ∧
          (∀ p, Bitmap.bit r.bits p = true ↔
            Bitmap.bit c.pieces p = true ∧ Bitmap.bit revoked p = false ∧
              ∀ f ∈ current.zip c.files,
                (f.1.evidence.present = false ∨ f.1.evidence.size < f.1.length ∨
                  f.1.evidence ≠ f.2.evidence) → ¬f.1.Meets expected.pieceLength.toInt p) ∧
          ∀ f ∈ current, 0 < f.length.toInt →
            (f.offset + f.length - 1).toInt = f.offset.toInt + f.length.toInt - 1 ∧
            0 ≤ (f.offset / expected.pieceLength).toInt ∧
            ((f.offset + f.length - 1) / expected.pieceLength).toInt < 8 * r.bits.length) := by
  rcases filterCheckpoint_cases fold mode saved expected current revoked blocked with
    ⟨reason, h⟩ | ⟨rfl, rfl, c, rfl, hvalid, rfl, hsame, hrevoked⟩
  · refine ⟨_, h, ?_, fun hne => absurd rfl hne⟩
    rintro rfl rfl c rfl hvalid rfl hsame hrevoked
    obtain ⟨bits, hfilter, hlen, -⟩ := filterCheckpoint_bits hvalid hsame hrevoked
    rw [h] at hfilter
    cases hfilter
    exact hlen
  obtain ⟨bits, hfilter, hlen, hbits⟩ := filterCheckpoint_bits hvalid hsame hrevoked
  refine ⟨_, hfilter, ?_, fun _ => ⟨rfl, rfl, c, rfl, hvalid, rfl, hsame, hlen, ?_, ?_⟩⟩
  · rintro - - c' hc - - - -
    cases hc
    exact hlen
  · intro p
    have hchanged : ∀ f : ResumeFile × ResumeFile, f.1.changed f.2 = true ↔
        f.1.evidence.present = false ∨ f.1.evidence.size < f.1.length ∨
          f.1.evidence ≠ f.2.evidence := by
      intro f
      simp only [changed, Bool.or_eq_true, Bool.not_eq_true', decide_eq_true_eq,
        bne_iff_ne, or_assoc]
    simp only [hbits, hchanged, and_assoc]
  · intro f hf hpos
    obtain ⟨-, -, hsaved, -⟩ := validBitmap_spec (Checkpoint.validate_ok hvalid).2.2.2.2.1
    obtain ⟨hend, hfirst, hlast, hnonneg, hlt⟩ :=
      (inRange_of_validate hvalid hsame f hf).exact c.identity.extentLength.toInt_lt hpos
    refine ⟨hend, by omega, ?_⟩
    change _ < 8 * (bits.length : Int)
    omega

/-- The first file is as it was saved; the second is absent, and its piece is not trusted. -/
theorem filter_exact_two : ∃ r, filterCheckpoint id .fast (some twoFileCheckpoint)
      twoFileCheckpoint.identity twoFileCheckpoint.files [0] false = some r ∧
    r.bits.length = 1 ∧ Bitmap.bit r.bits 0 = true ∧ Bitmap.bit r.bits 2 = false := by
  have hvalid : twoFileCheckpoint.validate id = .ok () := by decide +kernel
  obtain ⟨r, hr, hpass, hbits⟩ := filter_exact id .fast (some twoFileCheckpoint)
    twoFileCheckpoint.identity twoFileCheckpoint.files [0] false
  have hlen : r.bits.length = 1 := hpass rfl rfl _ rfl hvalid rfl rfl (by decide)
  obtain ⟨-, -, c, hc, -, -, -, -, hiff, -⟩ := hbits (by rintro h; rw [h] at hlen; cases hlen)
  cases hc
  refine ⟨r, hr, hlen, (hiff 0).2 ⟨by decide, by decide, ?_⟩, ?_⟩
  · simp [twoFileCheckpoint, ResumeFile.Meets]
  · rw [← Bool.not_eq_true, hiff]
    simp [twoFileCheckpoint, ResumeFile.Meets]

end TorrentHub
