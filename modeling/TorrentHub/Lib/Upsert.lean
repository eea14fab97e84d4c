import TorrentHub.Lib.Table

namespace TorrentHub.Lib.Table

open List

variable {ρ κ φ : Type} {key : ρ → κ} [DecidableEq κ] {t : Table ρ κ key fun _ => true} {r : ρ}
  {k : κ}

def merge (t : Table ρ κ key fun _ => true) (r : ρ) (f : ρ → ρ) (hf : ∀ r, key (f r) = key r) :
    Table ρ κ key fun _ => true :=
  if (t.find (key r)).isSome then t.adjust (fun r' => key r' = key r) f hf else t.put r

section Merge

variable {f : ρ → ρ} {hf : ∀ r, key (f r) = key r}

theorem find_merge_self :
    (t.merge r f hf).find (key r) = some (((t.find (key r)).map f).getD r) := by
  unfold merge
  cases h : t.find (key r) with
  | none => exact find_put_self t r
  | some old =>
    rw [if_pos (by simp), find_adjust, h]
    simp [find_key h]

theorem find_merge_ne (hk : k ≠ key r) : (t.merge r f hf).find k = t.find k := by
  unfold merge
  split
  · rw [find_adjust]
    cases h : t.find k with
    | none => rfl
    | some old =>
      have hne : key old ≠ key r := by
        rw [find_key h]
        exact hk
      simp [hne]
  · exact find_put_ne hk

theorem merge_eq_self (h : t.find (key r) = some old) (hold : f old = old) :
    t.merge r f hf = t := by
  have hrows : (t.rows.map fun r' => if decide (key r' = key r) = true then f r' else r') =
      t.rows := by
    rw [map_congr_left (g := id), map_id]
    intro r' hr'
    by_cases hk : key r' = key r
    · obtain rfl := eq_of_key (find_mem h) hr' ((find_key h).trans hk.symm)
      simp [hold]
    · simp [hk]
  unfold merge
  rw [if_pos (by rw [h]; rfl)]
  cases t
  simp only [adjust, Table.mk.injEq]
  exact hrows

end Merge

section MergeAll

variable {fresh : φ → ρ} {update : φ → ρ → ρ} {hupdate : ∀ x r, key (update x r) = key r}
  {xs : List φ}

def mergeAll (fresh : φ → ρ) (update : φ → ρ → ρ) (hupdate : ∀ x r, key (update x r) = key r)
    (xs : List φ) (t : Table ρ κ key fun _ => true) : Table ρ κ key fun _ => true :=
  xs.foldl (fun t x => t.merge (fresh x) (update x) (hupdate x)) t

theorem find_mergeAll (hxs : (xs.map fun x => key (fresh x)).Nodup)
    (t : Table ρ κ key fun _ => true) (k : κ) : (mergeAll fresh update hupdate xs t).find k =
      ((xs.find? fun x => key (fresh x) = k).map fun x =>
        ((t.find k).map (update x)).getD (fresh x)).or (t.find k) := by
  induction xs generalizing t with
  | nil => rfl
  | cons x xs ih =>
    rw [map_cons, nodup_cons] at hxs
    have hstep : mergeAll fresh update hupdate (x :: xs) t =
        mergeAll fresh update hupdate xs (t.merge (fresh x) (update x) (hupdate x)) := rfl
    rw [hstep, ih hxs.2, find?_cons]
    by_cases hk : key (fresh x) = k
    · subst hk
      have hnone : xs.find? (fun y => key (fresh y) = key (fresh x)) = none := by
        rw [find?_eq_none]
        intro y hy heq
        exact hxs.1 (mem_map.2 ⟨y, hy, of_decide_eq_true heq⟩)
      rw [hnone, find_merge_self]
      simp
    · rw [find_merge_ne fun heq => hk heq.symm]
      simp [hk]

theorem mergeAll_eq_self
    (h : ∀ x ∈ xs, ∃ old, t.find (key (fresh x)) = some old ∧ update x old = old) :
    mergeAll fresh update hupdate xs t = t := by
  induction xs with
  | nil => rfl
  | cons x xs ih =>
    obtain ⟨old, hfind, hold⟩ := h x mem_cons_self
    have hstep : mergeAll fresh update hupdate (x :: xs) t =
        mergeAll fresh update hupdate xs (t.merge (fresh x) (update x) (hupdate x)) := rfl
    rw [hstep, merge_eq_self hfind hold]
    exact ih fun y hy => h y (mem_cons_of_mem _ hy)

end MergeAll

end TorrentHub.Lib.Table
