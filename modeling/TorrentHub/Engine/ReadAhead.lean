import TorrentHub.Lib.MachineInt
import Mathlib.Order.Bounds.Basic

namespace TorrentHub

open Lib

structure CacheStatus where
  virtualCacheBytes : Int := 0
  isFullyDownloaded : Bool := false
deriving DecidableEq

inductive CacheError where
  | torrentNotFound (hash : String)
  | text (message : String)
deriving DecidableEq

structure CacheFile where
  offset : Int
  length : Int
deriving DecidableEq

/-- `pieceLength` is `none` before the metadata is known; `ready` answers `ReadyForDirectRead` and
`complete` the state of a piece. -/
structure CacheTorrent where
  pieceLength : Option Int
  files : List CacheFile
  checking : Bool
  ready : Nat → Bool
  complete : Int → Bool

section Loop

variable (fileStart fileEnd startAbs pieceLength : Int) (complete : Int → Bool)

/-- The rounds of the loop from piece `p` on. -/
def continuousRounds : Nat → Int → Int → Int
  | 0, _, bytes => bytes
  | rounds + 1, p, bytes =>
    if !complete p then bytes
    else
      let pieceStart := p * pieceLength
      let pieceEnd := pieceStart + pieceLength
      let segmentStart := max startAbs (max pieceStart fileStart)
      let segmentEnd := min pieceEnd fileEnd
      continuousRounds rounds (p + 1)
        (if segmentStart < segmentEnd then bytes + (segmentEnd - segmentStart) else bytes)

end Loop

def continuousCompleteBytesFromOffset (fileStart fileLength currentOffset pieceLength : Int)
    (complete : Int → Bool) : Int :=
  if fileLength ≤ 0 ∨ pieceLength ≤ 0 then 0
  else
    let currentOffset := if currentOffset < 0 then 0 else currentOffset
    if fileLength ≤ currentOffset then 0
    else
      let fileEnd := fileStart + fileLength
      let startAbs := fileStart + currentOffset
      let startPiece := startAbs.tdiv pieceLength
      let endPiece := (fileEnd - 1).tdiv pieceLength
      continuousRounds fileStart fileEnd startAbs pieceLength complete
        (endPiece + 1 - startPiece).toNat startPiece 0

def cacheStatus (t : CacheTorrent) (index : Nat) (file : CacheFile)
    (pieceLength currentOffset streamCacheSize : Int) : CacheStatus :=
  if t.checking then {}
  else
    let fullyDownloaded := t.ready index
    let currentOffset := if currentOffset < 0 then 0 else currentOffset
    if file.length ≤ currentOffset then ⟨0, fullyDownloaded⟩
    else if fullyDownloaded then
      let remaining := file.length - currentOffset
      let remaining := if remaining < 0 then 0 else remaining
      ⟨min remaining (max 0 streamCacheSize), true⟩
    else if pieceLength ≤ 0 then ⟨0, false⟩
    else
      let bytes := continuousCompleteBytesFromOffset file.offset file.length currentOffset
        pieceLength t.complete
      let bytes := if streamCacheSize < bytes then streamCacheSize else bytes
      let remainingBytes := file.length - currentOffset
      let bytes := if remainingBytes < bytes then remainingBytes else bytes
      ⟨if bytes < 0 then 0 else bytes, false⟩

def getCacheStatus (managed : String → Option CacheTorrent) (streamCacheSize : Int)
    (hash : String) (fileIndex currentOffset : Int) : Except CacheError CacheStatus :=
  match managed hash with
  | none => .error (.torrentNotFound hash)
  | some t =>
    match t.pieceLength with
    | none => .error (.text "torrent metadata is not available yet")
    | some pieceLength =>
      match if fileIndex < 0 then none else t.files[fileIndex.toNat]? with
      | none => .error (.text s!"file index out of bounds: {fileIndex}")
      | some file =>
        .ok (cacheStatus t fileIndex.toNat file pieceLength currentOffset streamCacheSize)

/-- The bytes from `offset` on that lie in complete pieces, as far as the file goes. -/
def ReadableFrom (fileStart fileLength offset pieceLength : Int) (complete : Int → Bool) :
    Set Int :=
  {n | 0 ≤ n ∧ n ≤ max 0 (fileLength - max offset 0) ∧
    ∀ q, max offset 0 ≤ q → q < max offset 0 + n →
      complete ((fileStart + q) / pieceLength) = true}

section Exact

variable {fileStart fileEnd startAbs pieceLength : Int}

/-- The bytes of the rounds before piece `k` reach its start, or the end of the file. -/
def reach (fileEnd startAbs pieceLength k : Int) : Int :=
  min fileEnd (max startAbs (k * pieceLength)) - startAbs

theorem continuousRounds_eq (complete : Int → Bool) (hpl : 0 < pieceLength)
    (hstart : fileStart ≤ startAbs)
    (hfile : startAbs < fileEnd) (rounds : Nat) (p : Int) (hp : startAbs < (p + 1) * pieceLength)
    (hin : ∀ k, p ≤ k → k < p + rounds → k * pieceLength < fileEnd) :
    ∃ k, p ≤ k ∧ (∀ j, p ≤ j → j < k → complete j = true) ∧
      (k = p + rounds ∨ k < p + rounds ∧ complete k = false) ∧
      continuousRounds fileStart fileEnd startAbs pieceLength complete rounds p
        (reach fileEnd startAbs pieceLength p) = reach fileEnd startAbs pieceLength k := by
  induction rounds generalizing p with
  | zero => exact ⟨p, le_rfl, by omega, .inl (by omega), rfl⟩
  | succ rounds ih =>
    unfold continuousRounds
    cases hc : complete p with
    | false => exact ⟨p, le_rfl, by omega, .inr ⟨by omega, hc⟩, rfl⟩
    | true =>
      have hnext : (p + 1) * pieceLength = p * pieceLength + pieceLength := by
        rw [Int.add_mul, Int.one_mul]
      have hafter : (p + 1 + 1) * pieceLength = p * pieceLength + pieceLength + pieceLength := by
        rw [Int.add_mul, hnext, Int.one_mul]
      have hpiece : p * pieceLength < fileEnd := hin p le_rfl (by omega)
      obtain ⟨k, hk, hdone, hlast, heq⟩ := ih (p + 1) (by omega) fun k hk hlt =>
        hin k (by omega) (by omega)
      have hrounds : p + 1 + (rounds : Int) = p + (rounds + 1 : Nat) := by omega
      rw [hrounds] at hlast
      refine ⟨k, by omega, ?_, hlast, ?_⟩
      · intro j hj hjk
        rcases hj.eq_or_lt with rfl | hj
        · exact hc
        · exact hdone j (by omega) hjk
      rw [← heq]
      simp only [Bool.not_true, Bool.false_eq_true, if_false]
      congr 1
      unfold reach
      rw [hnext]
      split <;> omega

end Exact

section Specification

variable {fileStart pieceLength : Int}

theorem continuousCompleteBytes_isGreatest (fileLength offset : Int) (complete : Int → Bool)
    (hstart : 0 ≤ fileStart) (hpl : 0 < pieceLength) :
    IsGreatest (ReadableFrom fileStart fileLength offset pieceLength complete)
      (continuousCompleteBytesFromOffset fileStart fileLength offset pieceLength complete) := by
  have hoffset : (if offset < 0 then 0 else offset) = max offset 0 := by split <;> omega
  unfold continuousCompleteBytesFromOffset ReadableFrom
  simp only [hoffset]
  have hpos : 0 ≤ max offset 0 := le_max_right _ _
  generalize max offset 0 = start at hpos ⊢
  by_cases hpast : fileLength ≤ start
  · have hzero : (if fileLength ≤ 0 ∨ pieceLength ≤ 0 then (0 : Int) else 0) = 0 := ite_self 0
    simp only [if_pos hpast, hzero]
    refine ⟨⟨le_rfl, le_max_left _ _, by omega⟩, ?_⟩
    rintro n ⟨-, hn, -⟩
    omega
  rw [if_neg (by omega), if_neg hpast, Int.tdiv_eq_ediv_of_nonneg (by omega),
    Int.tdiv_eq_ediv_of_nonneg (by omega)]
  have hfirst := Int.mul_ediv_self_le (x := fileStart + start) hpl.ne'
  have hafter := Int.lt_mul_ediv_self_add (x := fileStart + start) hpl
  have hend := Int.mul_ediv_self_le (x := fileStart + fileLength - 1) hpl.ne'
  have hbeyond := Int.lt_mul_ediv_self_add (x := fileStart + fileLength - 1) hpl
  have horder := Int.ediv_le_ediv hpl (show fileStart + start ≤ fileStart + fileLength - 1 by omega)
  generalize hfp : (fileStart + start) / pieceLength = p at *
  generalize (fileStart + fileLength - 1) / pieceLength = e at *
  rw [Int.mul_comm] at hfirst hafter hend hbeyond
  have hzero : reach (fileStart + fileLength) (fileStart + start) pieceLength p = 0 := by
    unfold reach
    omega
  obtain ⟨k, hpk, hdone, hlast, heq⟩ := continuousRounds_eq complete hpl
    (show fileStart ≤ fileStart + start by omega)
    (show fileStart + start < fileStart + fileLength by omega) (e + 1 - p).toNat p
    (by rw [Int.add_mul]; omega) (by
      intro j _ hj
      have hle := Int.mul_le_mul_of_nonneg_right (show j ≤ e by omega) hpl.le
      omega)
  rw [hzero] at heq
  rw [heq]
  have hbytes : ∀ q, start ≤ q → q < start + reach (fileStart + fileLength) (fileStart + start)
      pieceLength k → complete ((fileStart + q) / pieceLength) = true := by
    intro q hq hlt
    unfold reach at hlt
    refine hdone _ ?_ ?_
    · rw [← hfp]
      exact Int.ediv_le_ediv hpl (by omega)
    · rw [Int.ediv_lt_iff_lt_mul hpl]
      omega
  refine ⟨⟨by unfold reach; omega, by unfold reach; omega, hbytes⟩, ?_⟩
  rintro n ⟨-, hn, hall⟩
  rcases hlast with hlast | ⟨hlt, hlast⟩
  · have hke : k = e + 1 := by omega
    have hmul : k * pieceLength = e * pieceLength + pieceLength := by
      rw [hke, Int.add_mul, Int.one_mul]
    unfold reach
    omega
  by_contra hmore
  have hke : k * pieceLength ≤ e * pieceLength := Int.mul_le_mul_of_nonneg_right (by omega) hpl.le
  have hbyte := hall (start + reach (fileStart + fileLength) (fileStart + start) pieceLength k)
    (by unfold reach; omega) (by omega)
  have hpiece : (fileStart + (start + reach (fileStart + fileLength) (fileStart + start)
      pieceLength k)) / pieceLength = k := by
    have hpos : fileStart + (start + reach (fileStart + fileLength) (fileStart + start)
        pieceLength k) = max (fileStart + start) (k * pieceLength) := by
      unfold reach
      omega
    rw [hpos]
    rcases hpk.eq_or_lt with rfl | hpk
    · rw [max_eq_left hfirst, hfp]
    have hle := Int.mul_le_mul_of_nonneg_right (show p + 1 ≤ k by omega) hpl.le
    rw [Int.add_mul] at hle
    rw [max_eq_right (by omega), Int.mul_ediv_cancel _ hpl.ne']
  rw [hpiece, hlast] at hbyte
  cases hbyte

end Specification

theorem continuousCompleteBytes_all {fileStart fileLength offset pieceLength : Int}
    {complete : Int → Bool} (hstart : 0 ≤ fileStart) (hpl : 0 < pieceLength)
    (hall : ∀ q, 0 ≤ q → q < fileLength → complete ((fileStart + q) / pieceLength) = true) :
    continuousCompleteBytesFromOffset fileStart fileLength offset pieceLength complete
      = max 0 (fileLength - max offset 0) := by
  have hgreatest := continuousCompleteBytes_isGreatest fileLength offset complete hstart hpl
  refine le_antisymm hgreatest.1.2.1 (hgreatest.2 ⟨le_max_left _ _, le_rfl, ?_⟩)
  intro q hq hlt
  exact hall q (by omega) (by omega)

theorem virtualCacheBytes_shortcut {t : CacheTorrent} {file : CacheFile} {pieceLength : Int}
    (hstart : 0 ≤ file.offset) (hpl : 0 < pieceLength) (hall : ∀ q, 0 ≤ q → q < file.length →
      t.complete ((file.offset + q) / pieceLength) = true)
    (ready : Nat → Bool) (index : Nat) (offset cacheSize : Int) :
    (cacheStatus { t with ready } index file pieceLength offset cacheSize).virtualCacheBytes
      = if t.checking then 0 else min (max 0 (file.length - max offset 0)) (max 0 cacheSize) := by
  have hoffset : (if offset < 0 then 0 else offset) = max offset 0 := by split <;> omega
  have hmax : max (max offset 0) 0 = max offset 0 := by omega
  unfold cacheStatus
  simp only [hoffset, continuousCompleteBytes_all hstart hpl hall, hmax]
  generalize max offset 0 = start
  repeat' split
  all_goals first | rfl | (dsimp only; omega)

/-- The read-ahead is the largest readable number of bytes, grows with the complete pieces, and is
the same by both ways of `GetCacheStatus` for a complete file. -/
theorem readAhead_exact :
    (∀ fileStart fileLength offset pieceLength complete, 0 ≤ fileStart → 0 < pieceLength →
      IsGreatest (ReadableFrom fileStart fileLength offset pieceLength complete)
        (continuousCompleteBytesFromOffset fileStart fileLength offset pieceLength complete) ∧
      (fileLength ≤ offset → continuousCompleteBytesFromOffset fileStart fileLength offset
        pieceLength complete = 0) ∧
      ∀ more : Int → Bool, (∀ p, complete p = true → more p = true) →
        continuousCompleteBytesFromOffset fileStart fileLength offset pieceLength complete
          ≤ continuousCompleteBytesFromOffset fileStart fileLength offset pieceLength more) ∧
    ∀ (managed : String → Option CacheTorrent) (hash : String) (t : CacheTorrent)
      (pieceLength : Int), managed hash = some t → t.pieceLength = some pieceLength →
      0 < pieceLength → (∀ file ∈ t.files, 0 ≤ file.offset) →
      ∀ index : Nat, (∀ file, t.files[index]? = some file → ∀ q, 0 ≤ q → q < file.length →
        t.complete ((file.offset + q) / pieceLength) = true) →
      ∀ (offset cacheSize : Int) (ready : Nat → Bool),
        (getCacheStatus managed cacheSize hash index offset).map (·.virtualCacheBytes)
          = (getCacheStatus (fun _ => some { t with ready }) cacheSize hash index offset).map
              (·.virtualCacheBytes) := by
  refine ⟨?_, ?_⟩
  · intro fileStart fileLength offset pieceLength complete hstart hpl
    have hgreatest := continuousCompleteBytes_isGreatest fileLength offset complete hstart hpl
    refine ⟨hgreatest, ?_, ?_⟩
    · intro hpast
      have hle := hgreatest.1.2.1
      have hge := hgreatest.1.1
      omega
    intro more hmore
    refine (continuousCompleteBytes_isGreatest _ _ more hstart hpl).2
      ⟨hgreatest.1.1, hgreatest.1.2.1, ?_⟩
    intro q hq hlt
    exact hmore _ (hgreatest.1.2.2 q hq hlt)
  · intro managed hash t pieceLength ht hpieces hpl hfiles index hall offset cacheSize ready
    have hindex : ¬ (index : Int) < 0 := by omega
    simp only [getCacheStatus, ht, hpieces, if_neg hindex, Int.toNat_natCast]
    cases hfile : t.files[index]? with
    | none => rfl
    | some file =>
      have hstart := hfiles file (List.mem_of_getElem? hfile)
      have hbytes := virtualCacheBytes_shortcut (t := t) hstart hpl (hall file hfile)
      exact congrArg Except.ok ((hbytes t.ready index offset cacheSize).trans
        (hbytes ready index offset cacheSize).symm)

/-- Two pieces of four bytes and a file from byte one to byte seven. -/
def twoPieces : CacheTorrent where
  pieceLength := some 4
  files := [⟨1, 6⟩]
  checking := false
  ready := fun _ => false
  complete := fun _ => true

/-- With the first piece complete two bytes are there; with both, the answer is the same whether
the file is read directly or not. -/
theorem twoPieces_readAhead :
    (continuousCompleteBytesFromOffset 1 6 1 4 (fun p => p == 0) = 2 ∧
      continuousCompleteBytesFromOffset 1 6 1 4 (fun p => p == 0)
        ≤ continuousCompleteBytesFromOffset 1 6 1 4 (fun _ => true)) ∧
    (getCacheStatus (fun _ => some twoPieces) 100 "x" 0 1).map (·.virtualCacheBytes)
      = (getCacheStatus (fun _ => some { twoPieces with ready := fun _ => true }) 100 "x" 0 1).map
          (·.virtualCacheBytes) := by
  refine ⟨⟨by decide, ?_⟩, ?_⟩
  · exact (readAhead_exact.1 1 6 1 4 (fun p => p == 0) (by decide) (by decide)).2.2
      (fun _ => true) (fun _ _ => rfl)
  · exact readAhead_exact.2 (fun _ => some twoPieces) "x" twoPieces 4 rfl rfl (by decide)
      (by simp [twoPieces]) 0 (fun _ _ _ _ _ => rfl) 1 100 fun _ => true

end TorrentHub
