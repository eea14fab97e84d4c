import TorrentHub.Lib.RelPath

namespace TorrentHub.Lib.Bitmap

open List

def bit (bits : Bytes) (i : Nat) : Bool := (bits.getD (i / 8) 0).toNat.testBit (i % 8)

def union (a b : Bytes) : Bytes := a.zipWith (· ||| ·) b

def inter (a b : Bytes) : Bytes := a.zipWith (· &&& ·) b

theorem length_inter (a b : Bytes) : (inter a b).length = min a.length b.length :=
  length_zipWith

theorem bit_union_left {a b : Bytes} {i : Nat} (hlen : a.length = b.length)
    (h : bit a i = true) : bit (union a b) i = true := by
  unfold bit union at *
  rw [getD_eq_getElem?_getD] at *
  rw [getElem?_zipWith]
  cases ha : a[i / 8]? with
  | none =>
    rw [ha] at h
    simp at h
  | some x =>
    obtain ⟨y, hy⟩ : ∃ y, b[i / 8]? = some y := by
      rw [getElem?_eq_some_iff] at ha
      obtain ⟨hi, -⟩ := ha
      exact ⟨_, getElem?_eq_getElem (hlen ▸ hi)⟩
    rw [ha] at h
    rw [hy]
    simp only [Option.getD_some, UInt8.toNat_or, Nat.testBit_or, Bool.or_eq_true] at h ⊢
    exact .inl h

def diff (a b : Bytes) : Bytes := a.zipWith (fun x y => x &&& ~~~y) b

def clear (bits : Bytes) (i : Nat) : Bytes :=
  bits.modify (i / 8) fun b => b &&& ~~~((1 : UInt8) <<< UInt8.ofNat (i % 8))

theorem testBit_and_not (a b : UInt8) {i : Nat} (h : i < 8) :
    (a &&& ~~~b).toNat.testBit i = (a.toNat.testBit i && !b.toNat.testBit i) := by
  have hb : (~~~b).toNat.testBit i = !b.toNat.testBit i := by
    change (~~~b).toBitVec.getLsbD i = !b.toBitVec.getLsbD i
    rw [UInt8.toBitVec_not, BitVec.getLsbD_not]
    simp [h]
  rw [UInt8.toNat_and, Nat.testBit_and, hb]

theorem testBit_one_shiftLeft (hs : s < 8) (hi : i < 8) :
    ((1 : UInt8) <<< UInt8.ofNat s).toNat.testBit i = decide (i = s) := by
  have hshift : (UInt8.ofNat s).toNat % 8 = s := by
    rw [UInt8.toNat_ofNat']
    omega
  have hone : (1 : UInt8).toNat = 1 := rfl
  rw [UInt8.toNat_shiftLeft, hshift, hone, Nat.one_shiftLeft, Nat.testBit_mod_two_pow,
    Nat.testBit_two_pow]
  simp [hi, eq_comm]

theorem bit_eq : bit bits i = (bits[i / 8]?.map fun b => b.toNat.testBit (i % 8)).getD false := by
  rw [bit, getD_eq_getElem?_getD]
  cases bits[i / 8]? with
  | none => exact Nat.zero_testBit _
  | some b => rfl

@[simp] theorem bit_nil (i : Nat) : bit [] i = false := Nat.zero_testBit _

theorem length_diff (a b : Bytes) : (diff a b).length = min a.length b.length :=
  length_zipWith

theorem bit_diff {a b : Bytes} (hlen : a.length = b.length) (i : Nat) :
    bit (diff a b) i = (bit a i && !bit b i) := by
  have hi : i % 8 < 8 := Nat.mod_lt _ (by decide)
  rw [bit_eq, bit_eq, bit_eq, diff, getElem?_zipWith]
  by_cases h : i / 8 < a.length
  · rw [getElem?_eq_getElem h, getElem?_eq_getElem (hlen ▸ h)]
    exact testBit_and_not _ _ hi
  rw [getElem?_eq_none (by omega)]
  rfl

@[simp] theorem length_clear (bits : Bytes) (i : Nat) : (clear bits i).length = bits.length :=
  length_modify _ _ _

theorem bit_clear (bits : Bytes) (k i : Nat) :
    bit (clear bits k) i = (bit bits i && decide (i ≠ k)) := by
  have hi : i % 8 < 8 := Nat.mod_lt _ (by decide)
  have hk : k % 8 < 8 := Nat.mod_lt _ (by decide)
  rw [bit_eq, bit_eq, clear, getElem?_modify]
  cases bits[i / 8]? with
  | none => rfl
  | some b =>
    by_cases hbyte : k / 8 = i / 8
    · simp only [Option.map_eq_map, Option.map_some, Option.getD_some, if_pos hbyte,
        testBit_and_not _ _ hi, testBit_one_shiftLeft hk hi]
      have hiff : i % 8 = k % 8 ↔ i = k := by omega
      simp [hiff]
    have hne : i ≠ k := by
      rintro rfl
      exact hbyte rfl
    simp [hbyte, hne]

end TorrentHub.Lib.Bitmap
