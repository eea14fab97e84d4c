import TorrentHub.Lib.RelPath
import Mathlib.Data.List.Flatten
import Mathlib.Logic.Function.Basic

namespace TorrentHub.Lib

open List

def utf8 (s : List Char) : Bytes := s.flatMap String.utf8EncodeChar

variable {s t : List Char} {c : Char} {b : UInt8}

@[simp] theorem utf8_append : utf8 (s ++ t) = utf8 s ++ utf8 t := flatMap_append

theorem toNat_of_mem_utf8EncodeChar (hb : b ∈ String.utf8EncodeChar c) (hsmall : b.toNat < 128) :
    c.toNat = b.toNat := by
  have hbig : ∀ n, 128 ≤ n → n < 256 → b = UInt8.ofNat n → False := by
    intro n hlow hhigh heq
    have htoNat : b.toNat = n % 256 := by rw [heq, UInt8.toNat_ofNat']
    omega
  unfold String.utf8EncodeChar at hb
  dsimp only at hb
  change c.val.toNat = b.toNat
  split at hb
  next hle =>
    rw [mem_singleton] at hb
    rw [hb, UInt8.toNat_ofNat']
    omega
  split at hb
  · simp only [mem_cons, not_mem_nil, or_false] at hb
    rcases hb with hb | hb
    · exact (hbig _ (by omega) (by omega) hb).elim
    · exact (hbig _ (by omega) (by omega) hb).elim
  split at hb
  · simp only [mem_cons, not_mem_nil, or_false] at hb
    rcases hb with hb | hb | hb
    · exact (hbig _ (by omega) (by omega) hb).elim
    · exact (hbig _ (by omega) (by omega) hb).elim
    · exact (hbig _ (by omega) (by omega) hb).elim
  simp only [mem_cons, not_mem_nil, or_false] at hb
  rcases hb with hb | hb | hb | hb
  · exact (hbig _ (by omega) (by omega) hb).elim
  · exact (hbig _ (by omega) (by omega) hb).elim
  · exact (hbig _ (by omega) (by omega) hb).elim
  · exact (hbig _ (by omega) (by omega) hb).elim

theorem exists_of_mem_utf8 (hb : b ∈ utf8 s) (hsmall : b.toNat < 128) :
    ∃ c ∈ s, c.toNat = b.toNat := by
  obtain ⟨c, hc, hbc⟩ := mem_flatMap.1 hb
  exact ⟨c, hc, toNat_of_mem_utf8EncodeChar hbc hsmall⟩

theorem utf8EncodeChar_ne_nil : String.utf8EncodeChar c ≠ [] := by
  intro h
  have hlength := String.length_utf8EncodeChar c
  rw [h, length_nil] at hlength
  exact absurd hlength.symm (Nat.ne_of_gt c.utf8Size_pos)

theorem toNat_of_utf8_cons (h : utf8 (c :: s) = b :: rest) (hsmall : b.toNat < 128) :
    c.toNat = b.toNat := by
  obtain ⟨d, ds, hd⟩ := exists_cons_of_ne_nil (@utf8EncodeChar_ne_nil c)
  have hutf8 : utf8 (c :: s) = d :: (ds ++ utf8 s) := by
    change String.utf8EncodeChar c ++ utf8 s = _
    rw [hd, cons_append]
  rw [hutf8] at h
  obtain rfl : d = b := (cons.inj h).1
  exact toNat_of_mem_utf8EncodeChar (by rw [hd]; exact mem_cons_self) hsmall

theorem utf8_injective : Function.Injective utf8 := by
  intro s t h
  have hbytes : s.utf8Encode = t.utf8Encode := congrArg toByteArray h
  rw [← String.toByteArray_ofList, ← String.toByteArray_ofList, String.toByteArray_inj] at hbytes
  exact String.ofList_injective hbytes

end TorrentHub.Lib
