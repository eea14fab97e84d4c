import TorrentHub.Engine.Overlay
import TorrentHub.Lib.MachineInt

namespace TorrentHub

open Lib Span

abbrev mergeStreamPieceRanges (ranges : List PieceRange) : List PieceRange := Span.merge ranges

namespace StreamFileBounds

variable {bounds : StreamFileBounds} {pieceLength streamCacheSize lo size p : Int}
  {opts : StreamOptions}

structure Placed (bounds : StreamFileBounds) (pieceLength : Int) : Prop where
  offset : 0 ≤ bounds.offset
  length : 0 < bounds.length
  first : bounds.beginPiece = bounds.offset / pieceLength
  stop : bounds.endPiece = (bounds.offset + bounds.length + pieceLength - 1) / pieceLength

/-- The piece holds a byte of the file in `[lo, hi)`. -/
def Meets (bounds : StreamFileBounds) (pieceLength lo hi p : Int) : Prop :=
  ∃ q, lo ≤ q ∧ q < hi ∧ (bounds.offset + q) / pieceLength = p

def TailPiece (bounds : StreamFileBounds) (p : Int) : Prop :=
  streamFileHasTailMetadata bounds.displayPath = true ∧
    bounds.endPiece - defaultStreamTailPieces ≤ p ∧ bounds.beginPiece ≤ p ∧ p < bounds.endPiece

def Behind (bounds : StreamFileBounds) (pieceLength playhead p : Int) : Prop :=
  bounds.beginPiece ≤ p ∧ p < (bounds.offset + playhead) / pieceLength ∧
    (bounds.offset + playhead) / pieceLength - defaultStreamBehindPieces ≤ p

theorem meets_iff {hi : Int} (hpl : 0 < pieceLength) (h : lo < hi) :
    bounds.Meets pieceLength lo hi p ↔ (bounds.offset + lo) / pieceLength ≤ p ∧
      p < (bounds.offset + hi + pieceLength - 1) / pieceLength := by
  rw [← exists_ediv_eq hpl (show bounds.offset + lo < bounds.offset + hi by omega)]
  constructor
  · rintro ⟨q, hlo, hhi, hq⟩
    exact ⟨bounds.offset + q, by omega, by omega, hq⟩
  rintro ⟨q, hlo, hhi, hq⟩
  have hsub : bounds.offset + (q - bounds.offset) = q := by omega
  exact ⟨q - bounds.offset, by omega, by omega, by rw [hsub, hq]⟩

theorem region_eq (h : bounds.Placed pieceLength) (hpl : 0 < pieceLength) (hlo : 0 ≤ lo)
    (hlt : lo < bounds.length) (hsize : 0 < size) :
    ∃ r, bounds.streamByteRegionPieces pieceLength lo size = some r ∧
      r.first = (bounds.offset + lo) / pieceLength ∧ r.first < r.stop ∧
      ∀ p, r.Has p ↔ bounds.Meets pieceLength lo (min (lo + size) bounds.length) p := by
  have hoffset := h.offset
  have hhi : lo < min (lo + size) bounds.length := by omega
  generalize hend : min (lo + size) bounds.length = hi at hhi ⊢
  have hfirst : max ((bounds.offset + lo).tdiv pieceLength) bounds.beginPiece
      = (bounds.offset + lo) / pieceLength := by
    rw [Int.tdiv_eq_ediv_of_nonneg (by omega), h.first]
    exact max_eq_left (Int.ediv_le_ediv hpl (by omega))
  have hstop : min ((bounds.offset + hi + pieceLength - 1).tdiv pieceLength) bounds.endPiece
      = (bounds.offset + hi + pieceLength - 1) / pieceLength := by
    rw [Int.tdiv_eq_ediv_of_nonneg (by omega), h.stop]
    exact min_eq_left (Int.ediv_le_ediv hpl (by omega))
  have hmeets : bounds.Meets pieceLength lo hi ((bounds.offset + lo) / pieceLength) :=
    ⟨lo, le_rfl, hhi, rfl⟩
  have hsized : bounds.offset + lo + (if bounds.length < lo + size then bounds.length - lo
      else size) = bounds.offset + hi := by
    split <;> omega
  refine ⟨⟨(bounds.offset + lo) / pieceLength,
    (bounds.offset + hi + pieceLength - 1) / pieceLength⟩, ?_, rfl,
    ((meets_iff hpl hhi).1 hmeets).2, fun p => (meets_iff hpl hhi).symm⟩
  unfold streamByteRegionPieces
  simp only [if_neg (not_lt.2 hlo), if_neg (show ¬ (size ≤ 0 ∨ bounds.length ≤ lo) by omega),
    hsized, hfirst, hstop, if_neg (not_le.2 ((meets_iff hpl hhi).1 hmeets).2)]

theorem headBytes_range (h : bounds.Placed pieceLength) (opts : StreamOptions) :
    0 < bounds.headBytes opts ∧ bounds.headBytes opts ≤ bounds.length := by
  have hlength := h.length
  have hdefault : 0 < defaultStreamHeadPrebuffer := by decide
  unfold headBytes minPositive
  split <;> repeat' split
  all_goals omega

theorem windowBytes_pos (streamCacheSize : Int) (opts : StreamOptions) :
    0 < windowBytes streamCacheSize opts := by
  unfold windowBytes
  dsimp only
  generalize (if opts.windowBytes ≤ 0 then streamCacheSize else opts.windowBytes) = window
  split
  · decide
  · exact not_le.1 ‹_›

theorem covers_headRanges (h : bounds.Placed pieceLength) (hpl : 0 < pieceLength) :
    Covers (bounds.headRanges pieceLength opts) p
      ↔ bounds.Meets pieceLength 0 (bounds.headBytes opts) p := by
  obtain ⟨hpos, hle⟩ := headBytes_range h opts
  obtain ⟨r, hr, -, -, hmeets⟩ := region_eq h hpl le_rfl h.length hpos
  rw [Int.zero_add, min_eq_left hle] at hmeets
  rw [headRanges, hr, Option.toList_some, covers_cons, hmeets]
  exact or_iff_left covers_nil

theorem covers_tailRanges : Covers bounds.tailRanges p ↔ bounds.TailPiece p := by
  unfold tailRanges TailPiece
  split
  next htail =>
    simp only [covers_cons, covers_nil, or_false, Has, htail, true_and, max_le_iff]
    exact and_assoc
  next htail => simp [htail]

theorem covers_playRanges (h : bounds.Placed pieceLength) (hpl : 0 < pieceLength) :
    Covers (bounds.playRanges pieceLength streamCacheSize opts) p
      ↔ max opts.rangeStart 0 < bounds.length ∧ (bounds.Meets pieceLength (max opts.rangeStart 0)
          (min (max opts.rangeStart 0 + windowBytes streamCacheSize opts) bounds.length) p ∨
        bounds.Behind pieceLength (max opts.rangeStart 0) p) := by
  have hplay : 0 ≤ max opts.rangeStart 0 := le_max_right _ _
  have hwindow := windowBytes_pos streamCacheSize opts
  unfold playRanges
  generalize max opts.rangeStart 0 = playhead at hplay ⊢
  generalize windowBytes streamCacheSize opts = window at hwindow ⊢
  dsimp only
  split
  next hpast => simp only [covers_nil, not_lt.2 hpast, false_and]
  next hinside =>
  have hlt : playhead < bounds.length := not_le.1 hinside
  obtain ⟨r, hr, hfirst, hne, hmeets⟩ := region_eq h hpl hplay hlt
    (show 0 < min window (bounds.length - playhead) by omega)
  have hend : min (playhead + min window (bounds.length - playhead)) bounds.length
      = min (playhead + window) bounds.length := by omega
  have hbegin : bounds.beginPiece ≤ r.first := (region_inside hr).1
  rw [hend] at hmeets
  simp only [hr, covers_cons, covers_nil, or_false, hlt, true_and, ← hmeets p]
  have hbehind : defaultStreamBehindPieces = 2 := rfl
  unfold Has Behind
  rw [← hfirst, hbehind]
  simp only [max_le_iff]
  omega

/-- The ranges are in normal form, lie in the file, and hold the pieces of the head, the window and
the tail, and a few behind the playhead. -/
theorem computeStreamPieceRangesForBounds_exact (bounds : StreamFileBounds)
    (pieceLength streamCacheSize : Int) (opts : StreamOptions) (hpl : 0 < pieceLength)
    (h : bounds.Placed pieceLength) :
    let ranges := bounds.computeStreamPieceRangesForBounds pieceLength streamCacheSize opts
    let playhead := max opts.rangeStart 0
    Normal ranges ∧
    (∀ r ∈ ranges, bounds.beginPiece ≤ r.first ∧ r.stop ≤ bounds.endPiece) ∧
    (∀ p, Covers ranges p ↔ bounds.Meets pieceLength 0 (bounds.headBytes opts) p ∨
      bounds.TailPiece p ∨ playhead < bounds.length ∧
        (bounds.Meets pieceLength playhead
          (min (playhead + windowBytes streamCacheSize opts) bounds.length) p ∨
        bounds.Behind pieceLength playhead p)) ∧
    (∀ rs p, Covers (mergeStreamPieceRanges rs) p ↔ Covers rs p) ∧
    (∀ rs, mergeStreamPieceRanges (mergeStreamPieceRanges rs) = mergeStreamPieceRanges rs) ∧
    ∀ rs ts : List PieceRange, (∀ r, r ∈ rs ↔ r ∈ ts) →
      mergeStreamPieceRanges rs = mergeStreamPieceRanges ts := by
  intro ranges playhead
  have hpieces : bounds.beginPiece < bounds.endPiece := by
    obtain ⟨r, hr, -, hne, -⟩ := region_eq h hpl le_rfl h.length h.length
    have hin := region_inside hr
    omega
  have hlength := h.length
  have heq : ranges = Span.merge (bounds.headRanges pieceLength opts ++ bounds.tailRanges ++
      bounds.playRanges pieceLength streamCacheSize opts) :=
    if_neg (by omega)
  have hnormal : Normal ranges := by
    rw [heq]
    exact normal_merge _
  refine ⟨hnormal, ?_, ?_, covers_merge, merge_idem, fun rs ts => merge_congr⟩
  · intro r hr
    have hne := hnormal.nonempty r hr
    have hfirst := compute_inside ⟨r, hr, le_rfl, hne⟩
    have hlast := compute_inside (p := r.stop - 1) ⟨r, hr, by omega, by omega⟩
    omega
  · intro p
    rw [heq, covers_merge, covers_append, covers_append, covers_headRanges h hpl,
      covers_tailRanges, covers_playRanges h hpl, or_assoc]

def tenPieces : StreamFileBounds := ⟨6, 36, 1, 11, "film.mp4"⟩

theorem tenPieces_exact : tenPieces.Placed 4 ∧
    Normal (tenPieces.computeStreamPieceRangesForBounds 4 8 ⟨20, 4, false⟩) :=
  have h : tenPieces.Placed 4 := ⟨by decide, by decide, by decide, by decide⟩
  ⟨h, (computeStreamPieceRangesForBounds_exact tenPieces 4 8 ⟨20, 4, false⟩ (by decide) h).1⟩

end StreamFileBounds

end TorrentHub
