import Mathlib.Algebra.Order.Group.Int
import Mathlib.Data.Int.Order.Basic

namespace TorrentHub.Lib

open Int64

variable {a b : Int64}

theorem toInt_add_of_le {limit : Int64} (ha : 0 ≤ a.toInt) (hb : 0 ≤ b.toInt)
    (h : a.toInt + b.toInt ≤ limit.toInt) : (a + b).toInt = a.toInt + b.toInt := by
  have hlimit := limit.toInt_lt
  rw [toInt_add]
  apply Int.bmod_eq_of_le <;> omega

theorem toInt_sub_of_le (hb : 0 ≤ b.toInt) (h : b.toInt ≤ a.toInt) :
    (a - b).toInt = a.toInt - b.toInt := by
  have ha := a.toInt_lt
  rw [toInt_sub]
  apply Int.bmod_eq_of_le <;> omega

theorem toInt_div_of_nonneg (ha : 0 ≤ a.toInt) (hb : 0 < b.toInt) :
    (a / b).toInt = a.toInt / b.toInt := by
  have hlt := a.toInt_lt
  have hle : a.toInt / b.toInt ≤ a.toInt := Int.ediv_le_self _ ha
  have hpos : 0 ≤ a.toInt / b.toInt := Int.ediv_nonneg ha (Int.le_of_lt hb)
  rw [toInt_div, Int.tdiv_eq_ediv_of_nonneg ha]
  apply Int.bmod_eq_of_le <;> omega

theorem toInt_mod_of_nonneg (ha : 0 ≤ a.toInt) : (a % b).toInt = a.toInt % b.toInt := by
  rw [toInt_mod, Int.tmod_eq_emod_of_nonneg ha]

theorem ediv_up {a b q r : Int} (h : r + b * q = a) (hr : 0 ≤ r) (hb : r < b) :
    (a + b - 1) / b = if r = 0 then q else q + 1 := by
  split
  · have ha : a + b - 1 = (b - 1) + b * q := by omega
    rw [ha, Int.add_mul_ediv_left _ _ (by omega), Int.ediv_eq_zero_of_lt (by omega) (by omega),
      Int.zero_add]
  have ha : a + b - 1 = (r - 1) + b * (q + 1) := by
    rw [Int.mul_add]
    omega
  rw [ha, Int.add_mul_ediv_left _ _ (by omega), Int.ediv_eq_zero_of_lt (by omega) (by omega),
    Int.zero_add]

theorem toInt_div_up (ha : 0 ≤ a.toInt) (hb : 0 < b.toInt) :
    (if a % b ≠ 0 then a / b + 1 else a / b).toInt = (a.toInt + b.toInt - 1) / b.toInt := by
  have hzero : (0 : Int64).toInt = 0 := rfl
  have hone : (1 : Int64).toInt = 1 := rfl
  have hquot := toInt_div_of_nonneg ha hb
  have hpos : 0 ≤ a.toInt / b.toInt := Int.ediv_nonneg ha (Int.le_of_lt hb)
  have hdm := Int.emod_add_mul_ediv a.toInt b.toInt
  have hmod := Int.emod_nonneg a.toInt (show b.toInt ≠ 0 by omega)
  have hrem : a % b = 0 ↔ a.toInt % b.toInt = 0 := by
    rw [← toInt_inj, toInt_mod_of_nonneg ha, hzero]
  rw [ediv_up hdm hmod (Int.emod_lt_of_pos _ hb)]
  by_cases hr : a.toInt % b.toInt = 0
  · rw [if_neg (not_not.2 (hrem.2 hr)), if_pos hr, hquot]
  rw [if_pos (mt hrem.1 hr), if_neg hr]
  have hle := Int.mul_le_mul_of_nonneg_right (show 1 ≤ b.toInt by omega) hpos
  have hsum : (a / b).toInt + (1 : Int64).toInt ≤ a.toInt := by
    rw [hquot]
    omega
  rw [toInt_add_of_le (by rw [hquot]; exact hpos) (by decide) hsum, hquot, hone]

/-- The quotients of the numbers in `[lo, hi)` are an interval. -/
theorem exists_ediv_eq {b lo hi p : Int} (hb : 0 < b) (h : lo < hi) :
    (∃ q, lo ≤ q ∧ q < hi ∧ q / b = p) ↔ lo / b ≤ p ∧ p < (hi + b - 1) / b := by
  have hup : (hi + b - 1) / b = (hi - 1) / b + 1 := by
    have hsum : hi + b - 1 = hi - 1 + 1 * b := by omega
    rw [hsum, Int.add_mul_ediv_right _ _ hb.ne']
  rw [hup]
  constructor
  · rintro ⟨q, hlo, hhi, rfl⟩
    have hle := Int.ediv_le_ediv hb hlo
    have hge := Int.ediv_le_ediv hb (show q ≤ hi - 1 by omega)
    omega
  rintro ⟨hlo, hhi⟩
  have hmul : p * b ≤ hi - 1 := (Int.le_ediv_iff_mul_le hb).1 (by omega)
  rcases le_total lo (p * b) with hle | hle
  · exact ⟨p * b, hle, by omega, Int.mul_ediv_cancel _ hb.ne'⟩
  · have hge : p ≤ lo / b := (Int.le_ediv_iff_mul_le hb).2 hle
    exact ⟨lo, le_rfl, h, by omega⟩

theorem toInt_max (a b : Int64) : (max a b).toInt = max a.toInt b.toInt := by
  change (if a ≤ b then b else a).toInt = _
  split
  next hle =>
    rw [le_iff_toInt_le] at hle
    omega
  next hlt =>
  rw [le_iff_toInt_le] at hlt
  omega

end TorrentHub.Lib
