import TorrentHub.Lib.Table

namespace TorrentHub.Lib

open List

inductive RowChange (ρ κ : Type) where
  | insert (r : ρ)
  | update (r : ρ)
  | delete (k : κ)
deriving DecidableEq

/-- The counting triggers of a table: after an insertion, after a deletion, and the conditions of
those after an update. -/
structure Watch (ρ : Type) where
  onInsert : Bool := true
  onDelete : Bool := true
  onUpdate : List (ρ → ρ → Bool) := []

namespace Table

variable {ρ κ β : Type} [DecidableEq κ] {key : ρ → κ} {t : Table ρ κ key fun _ => true}
  {c : RowChange ρ κ} {w : Watch ρ} {view : ρ → β}

def change (t : Table ρ κ key fun _ => true) : RowChange ρ κ → Table ρ κ key fun _ => true
  | .insert r => if (t.find (key r)).isSome then t else t.put r
  | .update r => t.adjust (fun _ => true) (fun r' => if key r' = key r then r else r') (by
      intro r'
      split
      next h => exact h.symm
      · rfl)
  | .delete k => t.remove fun r => key r = k

def fired (w : Watch ρ) (t : Table ρ κ key fun _ => true) : RowChange ρ κ → Nat
  | .insert r => if (t.find (key r)).isNone && w.onInsert then 1 else 0
  | .update r =>
    match t.find (key r) with
    | none => 0
    | some old => w.onUpdate.countP fun condition => condition old r
  | .delete k => if (t.find k).isSome && w.onDelete then 1 else 0

theorem change_insert_of_find (h : (t.find (key r)).isSome) : t.change (.insert r) = t := by
  simp [change, h]

theorem rows_change_delete_of_find (h : t.find k = none) :
    (t.change (.delete k)).rows = t.rows := by
  rw [find, find?_eq_none] at h
  simp only [change, remove, filter_eq_self]
  intro r hr
  simpa using h r hr

theorem map_change_update (hview : ∀ old, key old = key r →
      (w.onUpdate.all fun condition => !condition old r) = true → view r = view old)
    (h : fired w t (.update r) = 0) : (t.change (.update r)).rows.map view = t.rows.map view := by
  simp only [change, adjust, ↓reduceIte, map_map]
  apply map_congr_left
  intro old hold
  simp only [Function.comp_apply]
  split
  next hkey =>
    apply hview old hkey
    have hfind : t.find (key r) = some old := hkey ▸ find_of_mem hold
    rw [fired, hfind] at h
    simpa [countP_eq_zero] using h
  · rfl

theorem map_change (hi : w.onInsert = true) (hd : w.onDelete = true)
    (hview : ∀ old new, key old = key new →
      (w.onUpdate.all fun condition => !condition old new) = true → view new = view old)
    (h : fired w t c = 0) : (t.change c).rows.map view = t.rows.map view := by
  cases c with
  | insert r =>
    have htaken : (t.find (key r)).isSome = true := by
      cases hf : t.find (key r) with
      | some _ => rfl
      | none => simp [fired, hf, hi] at h
    rw [change_insert_of_find htaken]
  | update r => exact map_change_update (fun old => hview old r) h
  | delete k =>
    have hfree : t.find k = none := by
      cases hf : t.find k with
      | none => rfl
      | some _ => simp [fired, hf, hd] at h
    rw [rows_change_delete_of_find hfree]

theorem rows_change (hi : w.onInsert = true) (hd : w.onDelete = true)
    (hsame : ∀ old new, key old = key new →
      (w.onUpdate.all fun condition => !condition old new) = true → new = old)
    (h : fired w t c = 0) : (t.change c).rows = t.rows := by
  have hmap : (t.change c).rows.map id = t.rows.map id := map_change hi hd hsame h
  rwa [map_id, map_id] at hmap

theorem find_map_congr {t t' : Table ρ κ key fun _ => true} (key' : β → κ)
    (hkey : ∀ r, key' (view r) = key r) (h : t.rows.map view = t'.rows.map view) (k : κ) :
    (t.find k).map view = (t'.find k).map view := by
  have hfind : ∀ t : Table ρ κ key fun _ => true,
      (t.find k).map view = (t.rows.map view).find? fun b => key' b = k := by
    intro t
    rw [find?_map]
    simp only [find, Function.comp_def, hkey]
  rw [hfind, hfind, h]

theorem find_congr {t t' : Table ρ κ key fun _ => true} (h : t.rows = t'.rows) (k : κ) :
    t.find k = t'.find k := by
  rw [find, find, h]

end Table

end TorrentHub.Lib
