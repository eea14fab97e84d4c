import Mathlib.Algebra.Order.Ring.Nat
import Mathlib.Data.Int.ConditionallyCompleteOrder
import Mathlib.Order.ConditionallyCompleteLattice.Basic
import TorrentHub.Lib.MachineInt
import TorrentHub.Payload.Files

namespace TorrentHub
open Lib RelPath List

inductive CatalogFormat where
  | unknown
  | v1
  | v2
  | hybrid
  | other (text : Bytes)
deriving DecidableEq

structure FileCatalog where
  metadataPath : Bytes
  index : Int
  path : Bytes
  size : Int64
  offset : Int64
  isMedia : Bool
deriving DecidableEq

structure TorrentCatalog where
  format : CatalogFormat
  name : Bytes
  size : Int64
  pieceLength : Int64
  numPieces : Int64
  files : List FileCatalog
deriving DecidableEq

inductive CatalogError where
  | metadata
  | file
  | offsetOverflow
  | size
  | pieceCount
deriving DecidableEq

structure CatalogTotals where
  size : Int64
  offset : Int64
  pieces : Int64
deriving DecidableEq

def CatalogFormat.aligned : CatalogFormat → Bool
  | .v2 | .hybrid => true
  | _ => false

def catalogStep (pieceLength : Int64) (aligned : Bool) (i : Nat) (file : FileCatalog)
    (t : CatalogTotals) : Except CatalogError CatalogTotals :=
  if file.index ≠ i || file.size < 0 || file.offset ≠ t.offset ||
      file.size > Int64.maxValue - t.size || file.size > Int64.maxValue - t.offset ||
      !(validateRelative file.path).isOk then .error .file
  else
    let size := t.size + file.size
    let offset := t.offset + file.size
    if aligned then
      let pieces := t.pieces + file.size / pieceLength
      let rem := file.size % pieceLength
      if rem ≠ 0 then
        let padding := pieceLength - rem
        if padding > Int64.maxValue - offset then .error .offsetOverflow
        else .ok ⟨size, offset + padding, pieces + 1⟩
      else .ok ⟨size, offset, pieces⟩
    else .ok ⟨size, offset, t.pieces⟩

def catalogTotals (pieceLength : Int64) (aligned : Bool) :
    Nat → List FileCatalog → CatalogTotals → Except CatalogError CatalogTotals
  | _, [], t => .ok t
  | i, file :: files, t =>
    match catalogStep pieceLength aligned i file t with
    | .error err => .error err
    | .ok t => catalogTotals pieceLength aligned (i + 1) files t

def validateCatalog (c : TorrentCatalog) : Except CatalogError Unit :=
  if c.size < 0 || c.pieceLength ≤ 0 || c.numPieces < 0 ||
      (c.format != .unknown && c.format != .v1 && c.format != .v2 && c.format != .hybrid) then
    .error .metadata
  else
    match catalogTotals c.pieceLength c.format.aligned 0 c.files ⟨0, 0, 0⟩ with
    | .error err => .error err
    | .ok t =>
      if t.size ≠ c.size then .error .size
      else
        let pieces :=
          if c.format.aligned then t.pieces
          else if t.size % c.pieceLength ≠ 0 then t.size / c.pieceLength + 1
          else t.size / c.pieceLength
        if c.format != .unknown && pieces != c.numPieces then .error .pieceCount else .ok ()

variable {pieceLength : Int64} {aligned : Bool} {i : Nat} {file : FileCatalog}
  {files : List FileCatalog} {t t' : CatalogTotals} {c : TorrentCatalog}

structure CatalogTotals.Sound (pieceLength : Int64) (aligned : Bool) (t : CatalogTotals)
    (extent : Int) : Prop where
  size : 0 ≤ t.size.toInt
  pieces : 0 ≤ t.pieces.toInt
  covers : 0 ≤ extent ∧ extent ≤ t.offset.toInt ∧ t.offset.toInt < extent + pieceLength.toInt
  whole : aligned = true → t.offset.toInt = pieceLength.toInt * t.pieces.toInt
  packed : aligned = false → t.offset = t.size ∧ t.offset.toInt = extent

structure CatalogTotals.Adds (pieceLength : Int64) (aligned : Bool) (i : Nat) (file : FileCatalog)
    (t t' : CatalogTotals) : Prop where
  index : file.index = i
  relative : (validateRelative file.path).isOk = true
  nonneg : 0 ≤ file.size.toInt
  offset : file.offset = t.offset
  size : t'.size.toInt = t.size.toInt + file.size.toInt
  ends : (file.offset + file.size).toInt = t.offset.toInt + file.size.toInt
  covers : t.offset.toInt + file.size.toInt ≤ t'.offset.toInt ∧
    t'.offset.toInt < t.offset.toInt + file.size.toInt + pieceLength.toInt
  pieces : 0 ≤ t'.pieces.toInt
  whole : aligned = true → t'.offset.toInt = pieceLength.toInt * t'.pieces.toInt
  packed : aligned = false → t'.offset = t'.size ∧
    t'.offset.toInt = t.offset.toInt + file.size.toInt

theorem toInt_le_of_room {a b : Int64} (hb : 0 ≤ b.toInt) (h : ¬a > Int64.maxValue - b) :
    a.toInt + b.toInt ≤ Int64.maxValue.toInt := by
  have hmax : b.toInt ≤ Int64.maxValue.toInt := by
    have hlt := b.toInt_lt
    have heq : Int64.maxValue.toInt = 2 ^ 63 - 1 := by decide
    omega
  rw [gt_iff_lt, Int64.lt_iff_toInt_lt, toInt_sub_of_le hb hmax] at h
  omega

theorem catalogStep_adds (hlength : 0 < pieceLength.toInt)
    (hsound : t.Sound pieceLength aligned extent)
    (h : catalogStep pieceLength aligned i file t = .ok t') :
    CatalogTotals.Adds pieceLength aligned i file t t' := by
  have hzero : (0 : Int64).toInt = 0 := rfl
  have hone : (1 : Int64).toInt = 1 := rfl
  unfold catalogStep at h
  split at h
  · cases h
  rename_i hchecks
  simp only [ne_eq, decide_not, Bool.or_eq_true, Bool.not_eq_true', decide_eq_false_iff_not,
    decide_eq_true_eq, not_or, not_not, Bool.not_eq_false] at hchecks
  obtain ⟨⟨⟨⟨⟨hindex, hneg⟩, hoffset⟩, hroom⟩, hroom'⟩, hrelative⟩ := hchecks
  have hnonneg : 0 ≤ file.size.toInt := by
    rw [Int64.lt_iff_toInt_lt] at hneg
    omega
  have hstart : 0 ≤ t.offset.toInt := hsound.covers.1.trans hsound.covers.2.1
  have hsize := toInt_add_of_le hsound.size hnonneg
    ((Int.add_comm _ _).trans_le (toInt_le_of_room hsound.size hroom))
  have hend := toInt_add_of_le hstart hnonneg
    ((Int.add_comm _ _).trans_le (toInt_le_of_room hstart hroom'))
  have hends : (file.offset + file.size).toInt = t.offset.toInt + file.size.toInt := by
    rw [hoffset]
    exact hend
  dsimp only at h
  cases haligned : aligned with
  | false =>
    rw [haligned] at h hsound
    cases h
    obtain ⟨heq, -⟩ := hsound.packed rfl
    exact ⟨hindex, hrelative, hnonneg, hoffset, hsize, hends, by dsimp only; omega, hsound.pieces,
      fun hf => (nomatch hf), fun _ => ⟨by rw [heq], hend⟩⟩
  | true =>
    rw [haligned, if_pos rfl] at h
    have hdm := Int.emod_add_mul_ediv file.size.toInt pieceLength.toInt
    have hmod := Int.emod_nonneg file.size.toInt (show pieceLength.toInt ≠ 0 by omega)
    have hmodlt := Int.emod_lt_of_pos file.size.toInt hlength
    have hquot := toInt_div_of_nonneg hnonneg hlength
    have hquotpos : 0 ≤ file.size.toInt / pieceLength.toInt :=
      Int.ediv_nonneg hnonneg (Int.le_of_lt hlength)
    have hrem := @toInt_mod_of_nonneg file.size pieceLength hnonneg
    have hwhole := hsound.whole haligned
    have hpieces := hsound.pieces
    have hcount : ∀ n : Int, 0 ≤ n → n ≤ pieceLength.toInt * n := by
      intro n hn
      have hle := Int.mul_le_mul_of_nonneg_right (show 1 ≤ pieceLength.toInt by omega) hn
      omega
    have hsplit : t.offset.toInt + file.size.toInt = file.size.toInt % pieceLength.toInt +
        pieceLength.toInt * (t.pieces.toInt + file.size.toInt / pieceLength.toInt) := by
      rw [Int.mul_add]
      omega
    have hbegun : (t.pieces + file.size / pieceLength).toInt =
        t.pieces.toInt + file.size.toInt / pieceLength.toInt := by
      have hle := hcount (t.pieces.toInt + file.size.toInt / pieceLength.toInt) (by omega)
      rw [toInt_add_of_le hpieces (by omega) (show _ ≤ (t.offset + file.size).toInt by omega),
        hquot]
    split at h
    next hrest =>
      have hrest' : file.size.toInt % pieceLength.toInt ≠ 0 := by
        rw [← hrem]
        intro heq
        exact hrest (Int64.toInt_inj.1 (heq.trans hzero.symm))
      have hpadding : (pieceLength - file.size % pieceLength).toInt =
          pieceLength.toInt - file.size.toInt % pieceLength.toInt := by
        rw [toInt_sub_of_le (by omega) (by omega), hrem]
      split at h
      · cases h
      rename_i hroom''
      cases h
      have hoff : (t.offset + file.size + (pieceLength - file.size % pieceLength)).toInt =
          pieceLength.toInt * (t.pieces.toInt + file.size.toInt / pieceLength.toInt + 1) := by
        rw [toInt_add_of_le (by omega) (by omega)
          ((Int.add_comm _ _).trans_le (toInt_le_of_room (by omega) hroom'')), hend, hpadding,
          Int.mul_add _ _ 1]
        omega
      have hmore : (t.pieces + file.size / pieceLength + 1).toInt =
          t.pieces.toInt + file.size.toInt / pieceLength.toInt + 1 := by
        have hle := hcount (t.pieces.toInt + file.size.toInt / pieceLength.toInt + 1) (by omega)
        rw [← hoff] at hle
        rw [← hbegun, ← hone] at hle
        rw [toInt_add_of_le (by omega) (by decide) hle, hbegun, hone]
      refine ⟨hindex, hrelative, hnonneg, hoffset, hsize, hends, ?_, by dsimp only; omega,
        fun _ => ?_, fun hf => (nomatch hf)⟩
      · rw [hoff, Int.mul_add _ _ 1]
        omega
      · rw [hoff, hmore]
    next hrest =>
    cases h
    rw [not_not] at hrest
    have hrest' : file.size.toInt % pieceLength.toInt = 0 := by rw [← hrem, hrest, hzero]
    refine ⟨hindex, hrelative, hnonneg, hoffset, hsize, hends, by dsimp only; omega,
      by dsimp only; omega, fun _ => ?_, fun hf => (nomatch hf)⟩
    dsimp only
    rw [hbegun]
    omega

namespace CatalogTotals

theorem Sound.zero (hlength : 0 < pieceLength.toInt) :
    Sound pieceLength aligned ⟨0, 0, 0⟩ (0 : Int64).toInt := by
  have hzero : (0 : Int64).toInt = 0 := rfl
  refine ⟨Int.le_refl _, Int.le_refl _, by dsimp only; omega, fun _ => ?_, fun _ => ⟨rfl, rfl⟩⟩
  dsimp only
  rw [hzero, Int.mul_zero]

theorem Adds.sound (hsound : t.Sound pieceLength aligned extent)
    (h : Adds pieceLength aligned i file t t') :
    t'.Sound pieceLength aligned (max extent (file.offset + file.size).toInt) := by
  have hcovers := hsound.covers
  have hcovers' := h.covers
  have hsize := hsound.size
  have hnonneg := h.nonneg
  have hadded := h.size
  rw [h.ends]
  refine ⟨by omega, h.pieces, by omega, h.whole, fun hf => ?_⟩
  obtain ⟨-, hextent⟩ := hsound.packed hf
  obtain ⟨heq, hend⟩ := h.packed hf
  exact ⟨heq, by omega⟩

structure Lays (pieceLength : Int64) (aligned : Bool) (i : Nat) (files : List FileCatalog)
    (t t' : CatalogTotals) : Prop where
  indices : ∀ (k : Nat) f, files[k]? = some f → f.index = (i : Int) + k
  size : t'.size.toInt = t.size.toInt + (files.map (·.size.toInt)).sum
  within : ∀ f ∈ files, t.offset.toInt ≤ f.offset.toInt ∧ 0 ≤ f.size.toInt ∧
    (f.offset + f.size).toInt = f.offset.toInt + f.size.toInt
  ordered : files.Pairwise fun f g => f.offset.toInt + f.size.toInt ≤ g.offset.toInt
  starts : aligned = true → ∀ f ∈ files, pieceLength.toInt ∣ f.offset.toInt
  packed : aligned = false → ∀ (k : Nat) f, files[k]? = some f →
    f.offset.toInt = t.offset.toInt + ((files.take k).map (·.size.toInt)).sum

theorem Lays.nil : Lays pieceLength aligned i [] t t where
  indices := by simp
  size := by simp
  within := by simp
  ordered := .nil
  starts := by simp
  packed := by simp

theorem Lays.cons {t'' : CatalogTotals} {extent : Int}
    (hsound : t.Sound pieceLength aligned extent) (h : Adds pieceLength aligned i file t t')
    (hrest : Lays pieceLength aligned (i + 1) files t' t'') :
    Lays pieceLength aligned i (file :: files) t t'' := by
  have hends := h.ends
  have hnonneg := h.nonneg
  have hcovers := h.covers
  have hsize := h.size
  refine ⟨?_, ?_, ?_, ?_, ?_, ?_⟩
  · intro k f hf
    cases k with
    | zero =>
      obtain rfl := Option.some.inj hf
      exact h.index
    | succ k =>
      have hk := hrest.indices k f hf
      omega
  · rw [hrest.size, map_cons, sum_cons]
    omega
  · rw [forall_mem_cons, h.offset]
    refine ⟨⟨Int.le_refl _, hnonneg, h.offset ▸ hends⟩, fun f hf => ?_⟩
    obtain ⟨hstart, hpos, hsum⟩ := hrest.within f hf
    exact ⟨by omega, hpos, hsum⟩
  · rw [pairwise_cons, h.offset]
    refine ⟨fun f hf => ?_, hrest.ordered⟩
    have hstart := (hrest.within f hf).1
    omega
  · intro haligned
    rw [forall_mem_cons, h.offset, hsound.whole haligned]
    exact ⟨Int.dvd_mul_right _ _, hrest.starts haligned⟩
  · intro hpacked k f hf
    cases k with
    | zero =>
      obtain rfl := Option.some.inj hf
      simp [h.offset]
    | succ k =>
      rw [hrest.packed hpacked k f hf, (h.packed hpacked).2, take_succ_cons, map_cons, sum_cons]
      omega

end CatalogTotals

/-- The end of the file that ends last, as `catalogIdentity` finds it. -/
def extentOf (extent : Int64) (files : List FileCatalog) : Int64 :=
  files.foldl (fun extent f => max extent (f.offset + f.size)) extent

theorem catalogTotals_lays {extent : Int64} (hlength : 0 < pieceLength.toInt)
    (hsound : t.Sound pieceLength aligned extent.toInt)
    (h : catalogTotals pieceLength aligned i files t = .ok t') :
    CatalogTotals.Lays pieceLength aligned i files t t' ∧
      t'.Sound pieceLength aligned (extentOf extent files).toInt := by
  induction files generalizing i t extent with
  | nil =>
    cases h
    exact ⟨.nil, hsound⟩
  | cons file files ih =>
    unfold catalogTotals at h
    cases hstep : catalogStep pieceLength aligned i file t with
    | error err =>
      rw [hstep] at h
      cases h
    | ok mid =>
      rw [hstep] at h
      have hadds := catalogStep_adds hlength hsound hstep
      have hnext := hadds.sound hsound
      rw [← toInt_max] at hnext
      obtain ⟨hlays, hsound'⟩ := ih hnext h
      exact ⟨hlays.cons hsound hadds, hsound'⟩

theorem extentOf_spec {extent : Int64} (files : List FileCatalog) :
    extent.toInt ≤ (extentOf extent files).toInt ∧
      (∀ f ∈ files, (f.offset + f.size).toInt ≤ (extentOf extent files).toInt) ∧
      (extentOf extent files = extent ∨
        ∃ f ∈ files, extentOf extent files = f.offset + f.size) := by
  induction files generalizing extent with
  | nil => exact ⟨Int.le_refl _, by simp, .inl rfl⟩
  | cons file files ih =>
    obtain ⟨hfrom, hall, hwhich⟩ := @ih (max extent (file.offset + file.size))
    rw [toInt_max] at hfrom
    have heq : extentOf extent (file :: files) =
        extentOf (max extent (file.offset + file.size)) files := rfl
    rw [heq]
    refine ⟨by omega, ?_, ?_⟩
    · rw [forall_mem_cons]
      exact ⟨by omega, hall⟩
    rcases hwhich with hsame | ⟨f, hf, hf'⟩
    · rw [hsame]
      by_cases hle : extent.toInt ≤ (file.offset + file.size).toInt
      · refine .inr ⟨file, mem_cons_self, Int64.toInt_inj.1 ?_⟩
        rw [toInt_max]
        omega
      refine .inl (Int64.toInt_inj.1 ?_)
      rw [toInt_max]
      omega
    · exact .inr ⟨f, mem_cons_of_mem _ hf, hf'⟩

end TorrentHub
