import Mathlib.Algebra.GroupWithZero.Nat
import Mathlib.Data.List.Find
import Mathlib.Data.List.Nodup

namespace TorrentHub.Lib

open List Option

structure Table (ρ κ : Type) (key : ρ → κ) (check : ρ → Bool) where
  rows : List ρ
  checked : ∀ r ∈ rows, check r = true
  unique : (rows.map key).Nodup

namespace Table

variable {ρ κ : Type} {key : ρ → κ} {check : ρ → Bool} [DecidableEq κ]
  {t t' : Table ρ κ key check} {p : ρ → Bool} {f : ρ → ρ} {r : ρ} {k : κ}

def empty : Table ρ κ key check := ⟨[], fun _ h => absurd h List.not_mem_nil, List.nodup_nil⟩

def store (rows : List ρ) : Option (Table ρ κ key check) :=
  if h : (∀ r ∈ rows, check r = true) ∧ (rows.map key).Nodup then some ⟨rows, h.1, h.2⟩ else none

def find (t : Table ρ κ key check) (k : κ) : Option ρ := t.rows.find? fun r => key r = k

def insert (t : Table ρ κ key check) (r : ρ) : Option (Table ρ κ key check) :=
  store (t.rows ++ [r])

def updateWhere (t : Table ρ κ key check) (p : ρ → Bool) (f : ρ → ρ) :
    Option (Table ρ κ key check) :=
  store (t.rows.map fun r => if p r then f r else r)

def deleteWhere (t : Table ρ κ key check) (p : ρ → Bool) : Option (Table ρ κ key check) :=
  store (t.rows.filter fun r => !p r)

def upsert (t : Table ρ κ key check) (r : ρ) : Option (Table ρ κ key check) :=
  if (t.find (key r)).isSome then t.updateWhere (fun r' => key r' = key r) fun _ => r
  else t.insert r

theorem rows_of_store {rows : List ρ} (h : store rows = some t) : t.rows = rows := by
  unfold store at h
  split at h
  · cases h
    rfl
  · cases h

section

variable (h : t.find k = some r)
include h

theorem find_mem : r ∈ t.rows := mem_of_find?_eq_some h

theorem find_key : key r = k := by
  have hp := find?_some h
  simpa using hp

theorem find_check : check r = true := t.checked r (find_mem h)

end

theorem find_updateWhere (h : t.updateWhere p f = some t')
    (hf : ∀ r, p r = true → key (f r) = key r)
    (k : κ) : t'.find k = (t.find k).map fun r => if p r then f r else r := by
  have hkey : ∀ r, key (if p r then f r else r) = key r := by
    intro r
    split
    next hp => exact hf r hp
    · rfl
  unfold find
  rw [rows_of_store h, find?_map]
  simp only [Function.comp_def, hkey]

theorem find_updateWhere_self (h : t.updateWhere p f = some t') (hp : ∀ r, p r = true ↔ key r = k)
    (hf : ∀ r, key (f r) = key r) : t'.find k = (t.find k).map f := by
  rw [find_updateWhere h fun r _ => hf r]
  cases hr : t.find k with
  | none => rfl
  | some r => rw [map_some, map_some, if_pos ((hp r).2 (find_key hr))]

theorem find_updateWhere_ne (h : t.updateWhere p f = some t')
    (hp : ∀ r, p r = true ↔ key r = k) (hf : ∀ r, key (f r) = key r) (hk : k' ≠ k) :
    t'.find k' = t.find k' := by
  rw [find_updateWhere h fun r _ => hf r]
  cases hr : t.find k' with
  | none => rfl
  | some r =>
    have hne : ¬p r = true := by
      intro hr'
      exact hk ((find_key hr).symm.trans ((hp r).1 hr'))
    rw [map_some, if_neg hne]

theorem find_insert_ne (h : t.insert r = some t') (hk : key r ≠ k) : t'.find k = t.find k := by
  unfold find
  rw [rows_of_store h, find?_append]
  simp [hk]

theorem find_insert_self (h : t.insert r = some t') : t'.find (key r) = some r := by
  have hrows := rows_of_store h
  have hunique := t'.unique
  rw [hrows, map_append, nodup_append] at hunique
  have hnone : t.rows.find? (fun r' => key r' = key r) = none := by
    rw [find?_eq_none]
    intro r' hr'
    have hne := hunique.2.2 (key r') (mem_map_of_mem hr') (key r) (by simp)
    simpa using hne
  unfold find
  rw [hrows, find?_append, hnone]
  simp

theorem find_upsert_self (h : t.upsert r = some t') : t'.find (key r) = some r := by
  unfold upsert at h
  split at h
  next hsome =>
    obtain ⟨r', hr'⟩ := isSome_iff_exists.1 hsome
    rw [find_updateWhere h fun _ hp => (of_decide_eq_true hp).symm, hr', map_some]
    rw [if_pos (decide_eq_true (find_key hr'))]
  · exact find_insert_self h

theorem find_upsert_ne (h : t.upsert r = some t') (hk : key r ≠ k) : t'.find k = t.find k := by
  unfold upsert at h
  split at h
  · rw [find_updateWhere h fun _ hp => (of_decide_eq_true hp).symm]
    cases hr' : t.find k with
    | none => rfl
    | some r' =>
      have hne : key r' ≠ key r := by
        rw [find_key hr']
        exact hk.symm
      simp [hne]
  · exact find_insert_ne h hk

def remove (t : Table ρ κ key check) (p : ρ → Bool) : Table ρ κ key check where
  rows := t.rows.filter fun r => !p r
  checked r hr := t.checked r (List.mem_of_mem_filter hr)
  unique := t.unique.sublist (List.filter_sublist.map key)

omit [DecidableEq κ] in
theorem eq_of_key {r r' : ρ} (hr : r ∈ t.rows) (hr' : r' ∈ t.rows) (h : key r = key r') :
    r = r' := inj_on_of_nodup_map t.unique hr hr' h

theorem find_of_mem (hr : r ∈ t.rows) : t.find (key r) = some r := by
  cases h : t.find (key r) with
  | none =>
    have hnone := find?_eq_none.1 h r hr
    simp at hnone
  | some r' => rw [eq_of_key (find_mem h) hr (find_key h)]

theorem find_remove (t : Table ρ κ key check) (p : ρ → Bool) (k : κ) :
    (t.remove p).find k = (t.find k).filter fun r => !p r := by
  cases h : t.find k with
  | none =>
    rw [find, find?_eq_none] at h
    rw [filter_none, find, find?_eq_none]
    intro r hr
    exact h r (mem_of_mem_filter hr)
  | some r =>
    obtain rfl := find_key h
    cases hp : p r with
    | false =>
      have hmem : r ∈ (t.remove p).rows := mem_filter.2 ⟨find_mem h, by simp [hp]⟩
      have hsome : (some r).filter (fun r => !p r) = some r := by simp [hp]
      rw [find_of_mem hmem, hsome]
    | true =>
      have hnone : (some r).filter (fun r => !p r) = none := by simp [hp]
      rw [hnone, find, find?_eq_none]
      intro r' hr' hkey
      obtain ⟨hr', hp'⟩ := mem_filter.1 hr'
      have heq := eq_of_key hr' (find_mem h) (by simpa using hkey)
      rw [heq, hp] at hp'
      cases hp'

theorem find_remove_key (t : Table ρ κ key check) {p : ρ → Bool} {k' : κ}
    (hp : ∀ r, p r = true ↔ key r = k') (k : κ) :
    (t.remove p).find k = if k = k' then none else t.find k := by
  rw [find_remove]
  cases hk : t.find k with
  | none => simp
  | some r =>
    obtain rfl := find_key hk
    by_cases hkk : key r = k'
    · simp [(hp r).2 hkk, hkk]
    · simp [Bool.eq_false_iff.2 (mt (hp r).1 hkk), hkk]

section Unchecked

variable {t : Table ρ κ key fun _ => true}

def adjust (t : Table ρ κ key fun _ => true) (p : ρ → Bool) (f : ρ → ρ)
    (hf : ∀ r, key (f r) = key r) : Table ρ κ key fun _ => true where
  rows := t.rows.map fun r => if p r then f r else r
  checked _ _ := rfl
  unique := by
    have hkey : (key ∘ fun r => if p r then f r else r) = key := by
      funext r
      simp only [Function.comp_apply]
      split
      · exact hf r
      · rfl
    rw [List.map_map, hkey]
    exact t.unique

theorem find_adjust (t : Table ρ κ key fun _ => true) (p : ρ → Bool) (f : ρ → ρ)
    (hf : ∀ r, key (f r) = key r) (k : κ) :
    (t.adjust p f hf).find k = (t.find k).map fun r => if p r then f r else r := by
  have hkey : ∀ r, key (if p r then f r else r) = key r := by
    intro r
    split
    · exact hf r
    · rfl
  unfold find adjust
  rw [find?_map]
  simp only [Function.comp_def, hkey]

theorem find_adjust_key (t : Table ρ κ key fun _ => true) {p : ρ → Bool} {k' : κ}
    (hp : ∀ r, p r = true ↔ key r = k') (f : ρ → ρ) (hf : ∀ r, key (f r) = key r) (k : κ) :
    (t.adjust p f hf).find k = if k = k' then (t.find k).map f else t.find k := by
  rw [find_adjust]
  cases hk : t.find k with
  | none => simp
  | some r =>
    obtain rfl := find_key hk
    by_cases hkk : key r = k'
    · simp [(hp r).2 hkk, hkk]
    · simp [Bool.eq_false_iff.2 (mt (hp r).1 hkk), hkk]

def put (t : Table ρ κ key fun _ => true) (r : ρ) : Table ρ κ key fun _ => true where
  rows := t.rows.filter (fun r' => key r' ≠ key r) ++ [r]
  checked _ _ := rfl
  unique := by
    rw [List.map_append, List.nodup_append]
    refine ⟨t.unique.sublist (List.filter_sublist.map key), List.nodup_singleton _, ?_⟩
    intro k hk k' hk' heq
    obtain ⟨r', hr', rfl⟩ := List.mem_map.1 hk
    obtain rfl : k' = key r := by simpa using hk'
    have hne := (List.mem_filter.1 hr').2
    simp [heq] at hne

theorem mem_put : r' ∈ (t.put r).rows ↔ r' ∈ t.rows ∧ key r' ≠ key r ∨ r' = r := by
  simp [put]

theorem find_put_self (t : Table ρ κ key fun _ => true) (r : ρ) :
    (t.put r).find (key r) = some r := find_of_mem (mem_put.2 (.inr rfl))

theorem find_put_ne (hk : k ≠ key r) : (t.put r).find k = t.find k := by
  cases h : t.find k with
  | some r' =>
    obtain rfl := find_key h
    exact find_of_mem (mem_put.2 (.inl ⟨find_mem h, hk⟩))
  | none =>
    rw [find, find?_eq_none] at h ⊢
    intro r' hr'
    rcases mem_put.1 hr' with ⟨hr', -⟩ | rfl
    · exact h r' hr'
    · simpa using hk.symm

def total (t : Table ρ κ key fun _ => true) (g : ρ → Nat) : Nat := (t.rows.map g).sum

omit [DecidableEq κ] in
theorem total_remove (t : Table ρ κ key fun _ => true) (p : ρ → Bool) (g : ρ → Nat) :
    (t.remove p).total g + ((t.rows.filter p).map g).sum = t.total g := by
  change ((t.rows.filter fun r => !p r).map g).sum + _ = (t.rows.map g).sum
  induction t.rows with
  | nil => rfl
  | cons r rest ih =>
    simp only [filter_cons]
    cases p r <;> simp <;> omega

omit [DecidableEq κ] in
theorem total_adjust (t : Table ρ κ key fun _ => true) (p : ρ → Bool) (f : ρ → ρ)
    (hf : ∀ r, key (f r) = key r) (g : ρ → Nat) (hg : ∀ r, p r = true → g (f r) = g r) :
    (t.adjust p f hf).total g = t.total g := by
  unfold total adjust
  rw [List.map_map]
  congr 1
  refine List.map_congr_left ?_
  intro r _
  simp only [Function.comp_apply]
  split
  next hp => exact hg r hp
  · rfl

omit [DecidableEq κ] in
theorem sum_map_key [BEq κ] [LawfulBEq κ] (l : List ρ) (hnodup : (l.map key).Nodup) {r : ρ}
    (hr : r ∈ l) (f : ρ → ρ) (g : ρ → Nat) :
    (l.map fun x => g (if key x == key r then f x else x)).sum + g r = (l.map g).sum + g (f r) := by
  induction l with
  | nil => cases hr
  | cons x rest ih =>
    obtain ⟨hx, hrest⟩ := nodup_cons.1 hnodup
    rcases mem_cons.1 hr with rfl | hr
    · have hsame : (rest.map fun x => g (if key x == key r then f x else x)) = rest.map g := by
        refine map_congr_left ?_
        intro y hy
        have hne : key y ≠ key r := fun h => hx (h ▸ mem_map_of_mem hy)
        simp [hne]
      simp only [map_cons, sum_cons, beq_self_eq_true, if_true, hsame]
      omega
    · have hne : key x ≠ key r := fun h => hx (h ▸ mem_map_of_mem hr)
      have hih := ih hrest hr
      have hskip : (key x == key r) = false := by simpa using hne
      rw [map_cons, sum_cons, map_cons, sum_cons, hskip]
      simp only [Bool.false_eq_true, if_false]
      omega

theorem total_adjust_find [BEq κ] [LawfulBEq κ] (hfind : t.find k = some r) (f : ρ → ρ)
    (hf : ∀ r, key (f r) = key r) (g : ρ → Nat) :
    (t.adjust (fun x => key x == k) f hf).total g + g r = t.total g + g (f r) := by
  obtain rfl := find_key hfind
  have hsum := sum_map_key t.rows t.unique (find_mem hfind) f g
  unfold total adjust
  rw [List.map_map]
  exact hsum

theorem total_put (hnone : t.find (key r) = none) (g : ρ → Nat) :
    (t.put r).total g = t.total g + g r := by
  have hkeep : t.rows.filter (fun r' => decide (key r' ≠ key r)) = t.rows := by
    refine filter_eq_self.2 ?_
    intro r' hr'
    have hno := find?_eq_none.1 hnone r' hr'
    simpa using hno
  change ((t.rows.filter (fun r' => decide (key r' ≠ key r)) ++ [r]).map g).sum = _
  rw [hkeep, map_append, sum_append]
  simp [total]

end Unchecked

end Table

end TorrentHub.Lib
