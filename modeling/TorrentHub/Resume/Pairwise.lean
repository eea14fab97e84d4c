import TorrentHub.Lib.Bitmap
import TorrentHub.Lib.MachineInt
import TorrentHub.Resume.Roundtrip

namespace TorrentHub
open Lib RelPath List

variable {fold : Bytes → Bytes} {c : Checkpoint} {path other : Bytes} {cs : List Bytes}

variable {f : ResumeFile} {extent fileEnd pieces : Int64} {pathBytes : Nat}
  {files : List ResumeFile} {keys : List Bytes}

def Named (path : Bytes) : Prop := ∃ cs, cs ≠ [] ∧ (∀ c ∈ cs, Normal c) ∧ path = joined cs

def Above (path other : Bytes) : Prop := path ++ [slash] <+: other

theorem named_ne_dot (h : Named path) : path ≠ dot := by
  obtain ⟨cs, hn, hcs, rfl⟩ := h
  intro hd
  have hc := components_joined hn fun c hc => (hcs c hc).no_slash
  rw [hd] at hc
  exact (hcs dot (hc ▸ by decide)).ne_dot rfl

theorem named_clean (h : Named path) : clean path = path := by
  obtain ⟨cs, hn, hcs, rfl⟩ := h
  exact clean_joined hn hcs

theorem named_of_relative (hv : (validateRelative path).isOk = true) (hc : clean path = path) :
    Named path := by
  obtain ⟨hlocal, hdot⟩ := validateRelative_ok hv
  exact exists_joined hlocal hc (hc ▸ hdot)

theorem overlap_iff (h : Named path) (h' : Named other) :
    overlap path other = true ↔ path = other ∨ Above other path ∨ Above path other := by
  simp only [overlap, named_clean h, named_clean h', Bool.or_eq_true, beq_iff_eq,
    isPrefixOf_iff_prefix, or_assoc, Above]

theorem named_cases (h : Named path) : dir path = dot ∧ slash ∉ path ∨
      Named (dir path) ∧ ∃ c, slash ∉ c ∧ path = dir path ++ [slash] ++ c := by
  obtain ⟨cs, hn, hcs, rfl⟩ := h
  rw [← dropLast_append_getLast hn] at hcs ⊢
  have hlast : slash ∉ cs.getLast hn := (hcs _ (by simp)).no_slash
  rw [dir_joined hcs]
  by_cases hi : cs.dropLast = []
  · left
    rw [if_pos hi, hi]
    exact ⟨rfl, by simpa using hlast⟩
  right
  rw [if_neg hi]
  exact ⟨⟨_, hi, fun c hc => hcs c (by simp [hc]), rfl⟩, _, hlast, joined_concat hi _⟩

theorem above_append {c : Bytes} (hc : slash ∉ c) (d : Bytes) :
    Above path (d ++ [slash] ++ c) ↔ path = d ∨ Above path d := by
  constructor
  · intro h
    have hd : d <+: d ++ [slash] ++ c := by simp [append_assoc]
    rcases Nat.lt_trichotomy path.length d.length with hlt | heq | hgt
    · exact .inr (prefix_of_prefix_length_le h hd (by simp; omega))
    · left
      have hp : path <+: d ++ [slash] ++ c := (prefix_append path [slash]).trans h
      exact (prefix_of_prefix_length_le hp hd heq.le).eq_of_length heq
    · have hd' : d ++ [slash] <+: d ++ [slash] ++ c := prefix_append _ _
      obtain ⟨t, ht⟩ := prefix_of_prefix_length_le hd' h (by simp; omega)
      rw [Above, ← ht, prefix_append_right_inj] at h
      have ht' : t ≠ [] := by
        rintro rfl
        have hlen := congrArg length ht
        simp at hlen
        omega
      have hlast := congrArg getLast? ht
      rw [getLast?_append_of_ne_nil _ ht', getLast?_concat] at hlast
      exact absurd (h.subset (mem_of_getLast? hlast)) hc
  · rintro (rfl | h)
    · exact prefix_append _ _
    · exact h.trans (by simp [append_assoc])

theorem mem_parents (h : Named path) (hf : path.length ≤ fuel) :
    other ∈ parents fuel path ↔ Named other ∧ Above other path := by
  induction fuel generalizing path with
  | zero =>
    obtain ⟨cs, hn, hcs, rfl⟩ := h
    exact absurd (eq_nil_of_length_eq_zero (by omega)) (joined_ne_nil hn hcs)
  | succ fuel ih =>
    rw [parents]
    rcases named_cases h with ⟨hd, hs⟩ | ⟨hd, c, hc, hpath⟩
    · rw [if_pos hd]
      constructor
      · nofun
      · rintro ⟨-, hm⟩
        exact absurd (hm.subset (by simp)) hs
    have hlen : (dir path).length ≤ fuel := by
      have hl := congrArg length hpath
      simp at hl
      omega
    rw [if_neg (named_ne_dot hd), mem_cons, ih hd hlen]
    conv_rhs => rw [hpath, above_append hc]
    constructor
    · rintro (rfl | ⟨hn, ha⟩)
      · exact ⟨hd, .inl rfl⟩
      · exact ⟨hn, .inr ha⟩
    rintro ⟨hn, rfl | ha⟩
    · exact .inl rfl
    · exact .inr ⟨hn, ha⟩

/-- What the loop over the files checks of one file, its key apart: the texts, and its range after
the file before. -/
structure ResumeFile.Fits (f : ResumeFile) (extent : Int64) (pathBytes : Nat) (fileEnd : Int64) :
    Prop where
  total : pathBytes + f.path.length ≤ maxPathBytes
  length : f.path.length ≤ maxPathLength
  depth : f.path.count slash < maxPathDepth
  identity : f.evidence.identity.length ≤ maxIdentityLength
  noZero : (0 : UInt8) ∉ f.path
  relative : (validateRelative f.path).isOk = true
  clean : RelPath.clean f.path = f.path
  after : ¬f.offset < fileEnd
  positive : ¬f.length < 0
  inside : ¬f.offset > extent
  ends : ¬f.length > extent - f.offset
  size : ¬f.evidence.size < 0
  identified : f.evidence.present = true → f.evidence.identity ≠ []

def FilesFit (extent : Int64) : List ResumeFile → Nat → Int64 → Prop
  | [], _, _ => True
  | f :: files, pathBytes, fileEnd =>
    f.Fits extent pathBytes fileEnd ∧
      FilesFit extent files (pathBytes + f.path.length) (f.offset + f.length)

def ResumeFile.key (fold : Bytes → Bytes) (f : ResumeFile) : Bytes := collisionKey fold f.path

theorem fits_iff : f.Fits extent pathBytes fileEnd ↔
      ¬(decide (pathBytes + f.path.length > maxPathBytes) ||
        decide (f.path.length > maxPathLength) ||
        decide (f.path.count slash ≥ maxPathDepth) ||
        decide (f.evidence.identity.length > maxIdentityLength)) = true ∧
      ¬(f.path.contains 0 || !(validateRelative f.path).isOk || RelPath.clean f.path != f.path ||
        decide (f.offset < fileEnd) || decide (f.length < 0) || decide (f.offset > extent) ||
        decide (f.length > extent - f.offset)) = true ∧
      ¬(decide (f.evidence.size < 0) ||
        (f.evidence.present && f.evidence.identity == [])) = true := by
  simp only [Bool.or_eq_true, decide_eq_true_eq, not_or, Bool.not_eq_true', Bool.not_eq_false,
    bne_iff_ne, not_not, Bool.and_eq_true, beq_iff_eq, not_and, contains_iff_mem]
  constructor
  · intro h
    have h1 := h.total
    have h2 := h.length
    have h3 := h.depth
    have h4 := h.identity
    exact ⟨⟨⟨⟨by omega, by omega⟩, by omega⟩, by omega⟩, ⟨⟨⟨⟨⟨⟨h.noZero, h.relative⟩, h.clean⟩,
      h.after⟩, h.positive⟩, h.inside⟩, h.ends⟩, h.size, h.identified⟩
  · rintro ⟨⟨⟨⟨h1, h2⟩, h3⟩, h4⟩, ⟨⟨⟨⟨⟨⟨h5, h6⟩, h7⟩, h8⟩, h9⟩, h10⟩, h11⟩, h12, h13⟩
    exact ⟨by omega, by omega, by omega, by omega, h5, h6, h7, h8, h9, h10, h11, h12, h13⟩

theorem validateFiles_iff : validateFiles fold extent files paths pathBytes fileEnd = .ok keys ↔
      FilesFit extent files pathBytes fileEnd ∧ (files.map (·.key fold)).Nodup ∧
        (∀ f ∈ files, f.key fold ∉ paths) ∧ keys = (files.map (·.key fold)).reverse ++ paths := by
  induction files generalizing paths pathBytes fileEnd with
  | nil =>
    simp only [validateFiles, FilesFit, map_nil, nodup_nil, reverse_nil,
      nil_append, true_and, Except.ok.injEq, eq_comm]
    simp
  | cons f files ih =>
    simp only [validateFiles, ite_error_eq_ok, ih, FilesFit, fits_iff, map_cons,
      nodup_cons, reverse_cons, append_assoc, cons_append, nil_append,
      mem_map, contains_iff_mem, ResumeFile.key, mem_cons, forall_eq_or_imp, not_or,
      not_exists, not_and]
    constructor
    · rintro ⟨h1, h2, hnew, h3, hfit, hnodup, hpaths, hkeys⟩
      exact ⟨⟨⟨h1, h2, h3⟩, hfit⟩, ⟨fun g hg => (hpaths g hg).1, hnodup⟩,
        ⟨hnew, fun g hg => (hpaths g hg).2⟩, hkeys⟩
    · rintro ⟨⟨⟨h1, h2, h3⟩, hfit⟩, ⟨hne, hnodup⟩, ⟨hnew, hpaths⟩, hkeys⟩
      exact ⟨h1, h2, hnew, h3, hfit, hnodup, fun g hg => ⟨hne g hg, hpaths g hg⟩, hkeys⟩

def KeepsNames (fold : Bytes → Bytes) : Prop := ∀ path, Named path → Named (fold path)

theorem named_key
    (hfold : KeepsNames fold) (h : f.Fits extent pathBytes fileEnd) : Named (f.key fold) := by
  rw [ResumeFile.key, collisionKey, h.clean]
  exact hfold _ (named_of_relative h.relative h.clean)

theorem FilesFit.named_keys
    (hfold : KeepsNames fold) (h : FilesFit extent files pathBytes fileEnd) :
    ∀ k ∈ files.map (·.key fold), Named k := by
  induction files generalizing pathBytes fileEnd with
  | nil => simp
  | cons f files ih =>
    rw [map_cons, forall_mem_cons]
    exact ⟨named_key hfold h.1, ih h.2⟩

theorem FilesFit.paths (h : FilesFit extent files pathBytes fileEnd) :
    ∀ f ∈ files, isLocal f.path = true ∧ clean f.path = f.path := by
  induction files generalizing pathBytes fileEnd with
  | nil => simp
  | cons f files ih =>
    rw [forall_mem_cons]
    exact ⟨⟨(validateRelative_ok h.1.relative).1, h.1.clean⟩, ih h.2⟩

theorem pairwise_iff (hk : ∀ k ∈ keys, Named k) :
    keys.Nodup ∧ (∀ k ∈ keys, ∀ k' ∈ keys, ¬Above k' k) ↔
      keys.Pairwise fun a b => overlap a b = false := by
  induction keys with
  | nil => simp
  | cons a keys ih =>
    rw [forall_mem_cons] at hk
    rw [nodup_cons, pairwise_cons, ← ih hk.2]
    have hself : ¬Above a a := by
      intro h
      have hle := h.length_le
      rw [length_append, length_singleton] at hle
      omega
    have hpair : ∀ b ∈ keys, overlap a b = false ↔ a ≠ b ∧ ¬Above b a ∧ ¬Above a b := by
      intro b hb
      rw [← Bool.not_eq_true, overlap_iff hk.1 (hk.2 b hb), not_or, not_or]
    constructor
    · rintro ⟨⟨ha, hnodup⟩, habove⟩
      refine ⟨fun b hb => (hpair b hb).2 ⟨fun he => ha (he ▸ hb), ?_, ?_⟩, hnodup, ?_⟩
      · exact habove a (by simp) b (by simp [hb])
      · exact habove b (by simp [hb]) a (by simp)
      · intro k hkm k' hk'
        exact habove k (by simp [hkm]) k' (by simp [hk'])
    rintro ⟨hover, hnodup, habove⟩
    refine ⟨⟨fun ha => ((hpair a ha).1 (hover a ha)).1 rfl, hnodup⟩, ?_⟩
    intro k hkm k' hk'
    rcases mem_cons.1 hkm with hka | hkm
    · rcases mem_cons.1 hk' with hka' | hk'
      · rw [hka, hka']
        exact hself
      · rw [hka]
        exact ((hpair k' hk').1 (hover k' hk')).2.1
    · rcases mem_cons.1 hk' with hka' | hk'
      · rw [hka']
        exact ((hpair k hkm).1 (hover k hkm)).2.2
      · exact habove k hkm k' hk'

theorem walk_iff {paths : List Bytes} (hk : ∀ k ∈ keys, Named k)
    (hpaths : ∀ k, k ∈ paths ↔ k ∈ keys) :
    ¬(paths.any fun path => (parents path.length path).any paths.contains) = true ↔
      ∀ k ∈ keys, ∀ k' ∈ keys, ¬Above k' k := by
  simp only [any_eq_true, not_exists, not_and, contains_iff_mem, hpaths]
  constructor
  · intro h k hkm k' hk' ha
    exact h k hkm k' ((mem_parents (hk k hkm) le_rfl).2 ⟨hk k' hk', ha⟩) hk'
  · intro h k hkm k' hp hk'
    exact h k hkm k' hk' ((mem_parents (hk k hkm) le_rfl).1 hp).2

structure Checkpoint.Fits (c : Checkpoint) : Prop where
  head : ¬(c.schema != schemaVersion || decide (c.generation ≤ 0) ||
    decide (c.createdAtMS ≤ 0)) = true
  identity : c.identity.validate = .ok ()
  count : ¬c.files.length > maxFiles
  files : ¬(c.files == [] || !validBitmap c.pieces c.identity.pieceCount) = true
  fit : FilesFit c.identity.extentLength c.files 0 0

theorem validate_eq_ok : c.validate fold = .ok () ↔
      ¬(c.schema != schemaVersion || decide (c.generation ≤ 0) ||
        decide (c.createdAtMS ≤ 0)) = true ∧
      c.identity.validate = .ok () ∧ ¬c.files.length > maxFiles ∧
      ¬(c.files == [] || !validBitmap c.pieces c.identity.pieceCount) = true ∧
      ∃ paths, validateFiles fold c.identity.extentLength c.files [] 0 0 = .ok paths ∧
        ¬(paths.any fun path => (parents path.length path).any paths.contains) = true := by
  rw [Checkpoint.validate, ite_error_eq_ok]
  cases c.identity.validate with
  | error err => simp
  | ok u =>
    rw [ite_error_eq_ok, ite_error_eq_ok]
    cases validateFiles fold c.identity.extentLength c.files [] 0 0 with
    | error err => simp
    | ok paths => simp

theorem validate_iff (hfold : KeepsNames fold) : c.validate fold = .ok () ↔
      c.Fits ∧ (c.files.map (·.key fold)).Pairwise fun a b => overlap a b = false := by
  rw [validate_eq_ok]
  constructor
  · rintro ⟨hhead, hid, hcount, hfiles, paths, hpaths, hwalk⟩
    obtain ⟨hfit, hnodup, -, rfl⟩ := validateFiles_iff.1 hpaths
    have hnamed := hfit.named_keys hfold
    refine ⟨⟨hhead, hid, hcount, hfiles, hfit⟩, (pairwise_iff hnamed).1 ⟨hnodup, ?_⟩⟩
    exact (walk_iff hnamed (by simp)).1 hwalk
  rintro ⟨⟨hhead, hid, hcount, hfiles, hfit⟩, hpair⟩
  have hnamed := hfit.named_keys hfold
  obtain ⟨hnodup, habove⟩ := (pairwise_iff hnamed).2 hpair
  refine ⟨hhead, hid, hcount, hfiles, _, validateFiles_iff.2 ⟨hfit, hnodup, by simp, rfl⟩, ?_⟩
  exact (walk_iff hnamed (by simp)).2 habove

theorem ResumeFile.Fits.range (h : f.Fits extent pathBytes fileEnd) (hend : 0 ≤ fileEnd.toInt) :
    fileEnd.toInt ≤ f.offset.toInt ∧ 0 ≤ f.length.toInt ∧
      f.offset.toInt + f.length.toInt ≤ extent.toInt ∧
      (f.offset + f.length).toInt = f.offset.toInt + f.length.toInt := by
  have hzero : (0 : Int64).toInt = 0 := rfl
  have hafter := h.after
  have hpos := h.positive
  have hinside := h.inside
  have hends := h.ends
  rw [gt_iff_lt] at hinside hends
  rw [Int64.lt_iff_toInt_lt] at hafter hpos hinside hends
  rw [toInt_sub_of_le (by omega) (by omega)] at hends
  have hsum : f.offset.toInt + f.length.toInt ≤ extent.toInt := by omega
  exact ⟨by omega, by omega, hsum, toInt_add_of_le (by omega) (by omega) hsum⟩

theorem FilesFit.ranges (h : FilesFit extent files pathBytes fileEnd) (hend : 0 ≤ fileEnd.toInt) :
    (∀ f ∈ files, fileEnd.toInt ≤ f.offset.toInt ∧ 0 ≤ f.length.toInt ∧
      f.offset.toInt + f.length.toInt ≤ extent.toInt) ∧
    files.Pairwise fun f g => f.offset.toInt + f.length.toInt ≤ g.offset.toInt := by
  induction files generalizing pathBytes fileEnd with
  | nil => simp
  | cons f files ih =>
    obtain ⟨hafter, hpos, hinside, hsum⟩ := h.1.range hend
    obtain ⟨hall, hpair⟩ := ih h.2 (by omega)
    rw [hsum] at hall
    refine ⟨?_, pairwise_cons.2 ⟨fun g hg => (hall g hg).1, hpair⟩⟩
    rw [forall_mem_cons]
    refine ⟨⟨hafter, hpos, hinside⟩, ?_⟩
    intro g hg
    obtain ⟨h1, h2, h3⟩ := hall g hg
    exact ⟨by omega, h2, h3⟩

theorem Identity.pieceCount_eq {id : Identity} (h : id.validate = .ok ()) :
    0 < id.pieceLength.toInt ∧ 0 ≤ id.extentLength.toInt ∧ id.pieceCount.toInt =
        (id.extentLength.toInt + id.pieceLength.toInt - 1) / id.pieceLength.toInt := by
  simp only [Identity.validate, ite_error_eq_ok, Bool.or_eq_true, decide_eq_true_eq, not_or,
    bne_iff_ne, not_not] at h
  obtain ⟨-, -, -, -, -, -, ⟨hlength, hextent⟩, hcount, -⟩ := h
  rw [Int64.le_iff_toInt_le] at hlength
  rw [Int64.lt_iff_toInt_lt] at hextent
  have hzero : (0 : Int64).toInt = 0 := rfl
  have hpl : 0 < id.pieceLength.toInt := by omega
  have hex : 0 ≤ id.extentLength.toInt := by omega
  refine ⟨hpl, hex, ?_⟩
  rw [← toInt_div_up hex hpl, ← hcount]

theorem bitmapBytes_eq (h : 0 ≤ pieces.toInt) (hmax : pieces.toInt ≤ 4194304) :
    (bitmapBytes pieces : Int) = (pieces.toInt + 7) / 8 := by
  have hseven : (7 : Int64).toInt = 7 := rfl
  have height : (8 : Int64).toInt = 8 := rfl
  have hlimit : (4194311 : Int64).toInt = 4194311 := rfl
  have hsum : (pieces + 7).toInt = pieces.toInt + 7 :=
    toInt_add_of_le h (by decide) (show _ ≤ (4194311 : Int64).toInt by omega)
  rw [bitmapBytes, Int64.toNatClampNeg, toInt_div_of_nonneg (by omega) (by decide), hsum, height]
  omega

theorem validBitmap_spec {bits : Bytes} (h : validBitmap bits pieces = true) :
    0 ≤ pieces.toInt ∧ pieces.toInt ≤ 4194304 ∧ (bits.length : Int) = (pieces.toInt + 7) / 8 ∧
      ∀ i : Nat, pieces.toInt ≤ i → Bitmap.bit bits i = false := by
  unfold validBitmap at h
  split at h
  · cases h
  rename_i hcheck
  simp only [Bool.or_eq_true, decide_eq_true_eq, bne_iff_ne, not_or, not_not] at hcheck
  obtain ⟨⟨hpos, hmax⟩, hlen⟩ := hcheck
  rw [gt_iff_lt] at hmax
  rw [Int64.lt_iff_toInt_lt] at hpos hmax
  have hzero : (0 : Int64).toInt = 0 := rfl
  have hlimit : maxPieces.toInt = 4194304 := rfl
  have height : (8 : Int64).toInt = 8 := rfl
  have hp : 0 ≤ pieces.toInt := by omega
  have hbytes : (bits.length : Int) = (pieces.toInt + 7) / 8 := by
    rw [hlen]
    exact bitmapBytes_eq hp (by omega)
  refine ⟨hp, by omega, hbytes, ?_⟩
  intro i hi
  rw [Bitmap.bit]
  by_cases hlast : i / 8 < bits.length
  · have hmod : (pieces % 8).toInt = pieces.toInt % 8 := by rw [toInt_mod_of_nonneg hp, height]
    have hrem : pieces % 8 ≠ 0 := by
      intro hr
      rw [hr, hzero] at hmod
      omega
    have hshift : bits.getLastD 0 >>> UInt8.ofNat (pieces % 8).toNatClampNeg = 0 := by
      simpa [hrem] using h
    have hindex : i / 8 = bits.length - 1 := by omega
    have hget : bits.getD (i / 8) 0 = bits.getLastD 0 := by
      rw [hindex, getD_eq_getElem?_getD, ← getLast?_eq_getElem?, getLastD_eq_getLast?]
    have hbits := congrArg UInt8.toNat hshift
    have hcount : (UInt8.ofNat (pieces % 8).toNatClampNeg).toNat % 8 =
        (pieces % 8).toInt.toNat := by
      rw [UInt8.toNat_ofNat', Int64.toNatClampNeg, hmod]
      omega
    rw [UInt8.toNat_shiftRight, ← hget, hcount, hmod] at hbits
    have hbit := congrArg (fun n => n.testBit (i % 8 - (pieces.toInt % 8).toNat)) hbits
    simp only [Nat.testBit_shiftRight] at hbit
    rw [Nat.add_sub_of_le (by omega)] at hbit
    rw [hbit]
    exact Nat.zero_testBit _
  · rw [getD_eq_getElem?_getD, getElem?_eq_none (by omega)]
    exact Nat.zero_testBit _

/-- Validation is the pairwise specification: enough pieces, files in order, apart and inside the
extent, clean distinct paths none of which is above another, no bits beyond the last piece. Of the
checkpoints that pass all other checks, the walk over the keys rejects exactly those in which two
files overlap. -/
theorem validate_pairwise (fold : Bytes → Bytes) (hfold : KeepsNames fold) (c : Checkpoint) :
    (c.validate fold = .ok () →
      c.identity.pieceCount.toInt =
        (c.identity.extentLength.toInt + c.identity.pieceLength.toInt - 1) /
          c.identity.pieceLength.toInt ∧
      (c.files.Pairwise fun f g => f.offset.toInt + f.length.toInt ≤ g.offset.toInt) ∧
      (∀ f ∈ c.files, 0 ≤ f.offset.toInt ∧ 0 ≤ f.length.toInt ∧
        f.offset.toInt + f.length.toInt ≤ c.identity.extentLength.toInt) ∧
      (∀ f ∈ c.files, isLocal f.path = true ∧ clean f.path = f.path) ∧
      (c.files.Pairwise fun f g => f.key fold ≠ g.key fold) ∧
      (∀ f ∈ c.files, ∀ g ∈ c.files, ¬Above (f.key fold) (g.key fold)) ∧
      (c.pieces.length : Int) = (c.identity.pieceCount.toInt + 7) / 8 ∧
      ∀ i : Nat, c.identity.pieceCount.toInt ≤ i → Bitmap.bit c.pieces i = false) ∧
    (c.validate fold = .ok () → c.Fits) ∧
    (c.Fits → (c.validate fold ≠ .ok () ↔
      ∃ (i j : Nat) (f g : ResumeFile), i < j ∧ c.files[i]? = some f ∧ c.files[j]? = some g ∧
        overlap (f.key fold) (g.key fold) = true)) := by
  refine ⟨?_, fun h => ((validate_iff hfold).1 h).1, ?_⟩
  · intro h
    obtain ⟨hfits, hpair⟩ := (validate_iff hfold).1 h
    have hnamed := hfits.fit.named_keys hfold
    obtain ⟨hnodup, habove⟩ := (pairwise_iff hnamed).2 hpair
    obtain ⟨hranges, horder⟩ := hfits.fit.ranges (by decide)
    have hbits : validBitmap c.pieces c.identity.pieceCount = true := by
      have hfiles := hfits.files
      simp only [Bool.or_eq_true, not_or, Bool.not_eq_true', Bool.not_eq_false] at hfiles
      exact hfiles.2
    obtain ⟨-, -, hlength, hpadding⟩ := validBitmap_spec hbits
    refine ⟨(Identity.pieceCount_eq hfits.identity).2.2, horder, hranges, ?_,
      pairwise_map.1 hnodup, ?_, hlength, hpadding⟩
    · exact hfits.fit.paths
    · intro f hf g hg
      exact habove _ (mem_map_of_mem hg) _ (mem_map_of_mem hf)
  intro hfits
  rw [Ne, validate_iff hfold, not_and, pairwise_map, pairwise_iff_getElem]
  constructor
  · intro h
    by_contra hnone
    refine h hfits ?_
    intro i j hi hj hij
    rw [← Bool.not_eq_true]
    intro hover
    exact hnone ⟨i, j, _, _, hij, getElem?_eq_getElem hi, getElem?_eq_getElem hj, hover⟩
  · rintro ⟨i, j, f, g, hij, hf, hg, hover⟩ - hall
    obtain ⟨hi, rfl⟩ := List.getElem?_eq_some_iff.1 hf
    obtain ⟨hj, rfl⟩ := List.getElem?_eq_some_iff.1 hg
    rw [hall i j hi hj hij] at hover
    cases hover

def twoFileCheckpoint : Checkpoint where
  schema := 1
  identity := {
    recordID := [3], storageID := [2], mappingRevision := 1, layoutVersion := 2, root := ascii "a"
    layoutPrefix := [], metainfoDigest := List.replicate 64 0x30
    catalogDigest := List.replicate 64 0x30, volumeID := [4], pieceLength := 2, pieceCount := 3
    extentLength := 5 }
  generation := 1
  createdAtMS := 1
  files := [⟨ascii "f", 0, 2, ⟨true, [5], 2, 0⟩⟩, ⟨ascii "d/f", 4, 1, ⟨false, [], 0, 0⟩⟩]
  pieces := [5]

theorem validate_pairwise_two :
    twoFileCheckpoint.validate id = .ok () ∧ twoFileCheckpoint.Fits :=
  have hvalid : twoFileCheckpoint.validate id = .ok () := by decide +kernel
  ⟨hvalid, (validate_pairwise id (fun _ h => h) twoFileCheckpoint).2.1 hvalid⟩

end TorrentHub
