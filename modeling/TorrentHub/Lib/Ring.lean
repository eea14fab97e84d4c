import Mathlib.Data.Nat.ModEq
import Mathlib.Logic.Function.Basic

namespace TorrentHub.Lib

open Function List

variable {α : Type*} {n head count : Nat} {items : Nat → α}

/-- The `count` elements from `head` on. -/
def ring (n : Nat) (items : Nat → α) (head count : Nat) : List α :=
  (List.range count).map fun i => items ((head + i) % n)

@[simp] theorem length_ring : (ring n items head count).length = count := by simp [ring]

theorem place_ne (hij : i < j) (hj : j < n) : (head + i) % n ≠ (head + j) % n := by
  intro h
  have hmod : i % n = j % n := Nat.ModEq.add_left_cancel' head h
  rw [Nat.mod_eq_of_lt (hij.trans hj), Nat.mod_eq_of_lt hj] at hmod
  omega

theorem ring_push (h : count < n) (x : α) :
    ring n (update items ((head + count) % n) x) head (count + 1)
      = ring n items head count ++ [x] := by
  unfold ring
  rw [range_succ, map_append, map_singleton, update_self]
  congr 1
  apply map_congr_left
  intro i hi
  exact update_of_ne (place_ne (mem_range.1 hi) h) _ _

theorem ring_pop (hhead : head < n) (h : count < n) (x : α) : ring n items head (count + 1)
      = items head :: ring n (update items head x) ((head + 1) % n) count := by
  unfold ring
  rw [range_succ_eq_map, map_cons, map_map, Nat.add_zero, Nat.mod_eq_of_lt hhead]
  congr 1
  apply map_congr_left
  intro i hi
  have hlt := mem_range.1 hi
  have hplace : ((head + 1) % n + i) % n = (head + (i + 1)) % n := by
    rw [Nat.mod_add_mod]
    congr 1
    omega
  have hne : (head + 0) % n ≠ (head + (i + 1)) % n := place_ne (by omega) (by omega)
  rw [Nat.add_zero, Nat.mod_eq_of_lt hhead] at hne
  rw [hplace, update_of_ne hne.symm]
  rfl

end TorrentHub.Lib
