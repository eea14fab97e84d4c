import TorrentHub.Lib.RelPath

namespace TorrentHub.Lib

open List

def zeros (n : Nat) : Bytes := List.replicate n 0

theorem zeros_add (m n : Nat) : zeros (m + n) = zeros m ++ zeros n :=
  replicate_add m n 0

def writeAt (file : Bytes) (position : Nat) (data : Bytes) : Bytes :=
  if data = [] then file
  else (file ++ zeros (position - file.length)).take position ++ data ++
    file.drop (position + data.length)

def truncate (file : Bytes) (length : Nat) : Bytes :=
  file.take length ++ zeros (length - file.length)

structure Fills (file : Bytes) (position : Nat) (done : Bytes) : Prop where
  passed : position = done.length
  within : file.length ≤ position
  extends_to : file ++ zeros (position - file.length) = done

namespace Fills

variable {file done data : Bytes} {position : Nat}

theorem empty : Fills [] 0 [] := ⟨rfl, Nat.le_refl _, rfl⟩

section

variable (h : Fills file position done)
include h

theorem isPrefix : file <+: done := ⟨_, h.extends_to⟩

theorem skip (hzero : ∀ b ∈ data, b = 0) : Fills file (position + data.length) (done ++ data) := by
  have hdata : data = zeros data.length := eq_replicate_iff.2 ⟨rfl, hzero⟩
  have hwithin := h.within
  refine ⟨by rw [length_append, h.passed], by omega, ?_⟩
  have hsum : position + data.length - file.length = position - file.length + data.length := by
    omega
  rw [hsum, zeros_add, ← append_assoc, h.extends_to, ← hdata]

theorem writeAt_eq (hdata : data ≠ []) : writeAt file position data = done ++ data := by
  have hwithin := h.within
  unfold writeAt
  rw [if_neg hdata, h.extends_to, h.passed, take_length, drop_eq_nil_of_le, append_nil]
  rw [← h.passed]
  omega

theorem write (hdata : data ≠ []) :
    Fills (writeAt file position data) (position + data.length) (done ++ data) := by
  rw [h.writeAt_eq hdata]
  have hlength : (done ++ data).length = position + data.length := by
    rw [length_append, h.passed]
  refine ⟨hlength.symm, by omega, ?_⟩
  rw [hlength, Nat.sub_self]
  exact append_nil _

theorem write_isPrefix (n : Nat) : writeAt file position (data.take n) <+: done ++ data := by
  by_cases hnone : data.take n = []
  · rw [hnone, writeAt, if_pos rfl]
    exact h.isPrefix.trans (prefix_append _ _)
  rw [h.writeAt_eq hnone]
  exact (prefix_append_right_inj done).2 <| take_prefix n data

theorem truncate_eq : truncate file position = done := by
  unfold truncate
  rw [take_of_length_le h.within, h.extends_to]

end

end Fills

end TorrentHub.Lib
