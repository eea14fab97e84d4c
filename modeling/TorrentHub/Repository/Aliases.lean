import TorrentHub.Lib.Table
import TorrentHub.Repository.Layout

namespace TorrentHub
open Lib Table

/-- The table `torrent_storage`. -/
abbrev MappingTable := Table StorageMapping Bytes StorageMapping.hash fun _ => true

namespace StorageMapping

/-- A row after an update of its layout columns, state and manifest; the trigger counts the change
of layout. -/
def written (row m : StorageMapping) : StorageMapping :=
  { row.relocate m.layout with state := m.state, manifest := m.manifest }

@[simp] theorem relocate_hash (row : StorageMapping) (next : Layout) :
    (row.relocate next).hash = row.hash := rfl

@[simp] theorem written_hash (row m : StorageMapping) : (row.written m).hash = row.hash := rfl

@[simp] theorem written_layout (row m : StorageMapping) : (row.written m).layout = m.layout := rfl

/-- The columns that `ClaimStorageAlias` looks for in the owner. -/
def claimable (row : StorageMapping) : Bool :=
  (row.state == .ready || row.state == .reserved) && row.manifest == []

end StorageMapping

namespace MappingTable

variable {t t' : MappingTable} {m row : StorageMapping} {k : Bytes}

def write (t : MappingTable) (m : StorageMapping) (row : StorageMapping) : Option MappingTable :=
  if row.countable m.layout then
    some (t.adjust (fun r => r.hash == m.hash) (fun r => r.written m)
      fun r => r.written_hash m)
  else none

/-- `INSERT … ON CONFLICT(hash) DO UPDATE` of the owner. A new row takes the default revision. -/
def saveStorageMapping (t : MappingTable) (m : StorageMapping) : Option MappingTable :=
  match t.find m.hash with
  | none => some (t.put { m with revision := 1 })
  | some row => t.write m row

def saveStorageMappingForRecord (t : MappingTable) (m : StorageMapping) (current : Bool) :
    Option MappingTable :=
  if current then t.saveStorageMapping m else none

def saveStorageAlias (t : MappingTable) (m : StorageMapping) : Option MappingTable :=
  match t.find m.hash with
  | none => some (t.put { m with revision := max 1 m.revision })
  | some row =>
    if row.root == m.root && (m.storageID == [] || row.storageID == m.storageID) then t.write m row
    else none

/-- The insertion of `ClaimStorageAlias`, and whether the comparison after it accepts. -/
def claimStorageAlias (t : MappingTable) (aliasHash owner : Bytes) : MappingTable × Bool :=
  let t' := match t.find owner, t.find aliasHash with
    | some o, none => if o.claimable then t.put { o with hash := aliasHash, manifest := [] } else t
    | _, _ => t
  let accepted := match t'.find aliasHash, t'.find owner with
    | some a, some o =>
      a.root == o.root && a.storageID == o.storageID && a.layoutPrefix == o.layoutPrefix &&
        a.revision == o.revision && (a.state == .ready || a.state == .reserved)
    | _, _ => false
  (t', accepted)

def setStorageLayout (t : MappingTable) (before : StorageMapping) (next : Layout) :
    Except StorageError MappingTable :=
  match setLayoutRows t.rows before next with
  | .error err => .error err
  | .ok _ =>
    .ok (t.adjust (aliasOf before) (fun r => r.relocate next) fun r => r.relocate_hash next)

def Writes (t t' : MappingTable) (row : StorageMapping) : Prop :=
  ∀ k, t'.find k = if k = row.hash then some row else t.find k

theorem writes_put (t : MappingTable) (row : StorageMapping) : Writes t (t.put row) row := by
  intro k
  split
  next hk =>
    rw [hk]
    exact find_put_self t row
  next hk => exact find_put_ne hk

theorem write_some (hfind : t.find m.hash = some row) (h : t.write m row = some t') :
    Writes t t' (row.written m) := by
  unfold write at h
  split at h
  · cases h
    intro k
    have hrow : row.hash = m.hash := find_key hfind
    rw [find_adjust, StorageMapping.written_hash, hrow]
    split
    next hk => rw [hk, hfind, Option.map_some, if_pos (beq_iff_eq.2 hrow)]
    next hk =>
    cases hr : t.find k with
    | none => rfl
    | some r =>
      have hne : ¬(r.hash == m.hash) = true := by
        rw [beq_iff_eq, find_key hr]
        exact hk
      rw [Option.map_some, if_neg hne]
  · cases h

theorem saveStorageMapping_some (hfind : t.find m.hash = some row)
    (h : t.saveStorageMapping m = some t') : Writes t t' (row.written m) := by
  unfold saveStorageMapping at h
  rw [hfind] at h
  exact write_some hfind h

theorem saveStorageAlias_some (hid : m.storageID ≠ []) (h : t.saveStorageAlias m = some t') :
    (t.find m.hash = none ∧ Writes t t' { m with revision := max 1 m.revision }) ∨
    ∃ row, t.find m.hash = some row ∧ row.root = m.root ∧ row.storageID = m.storageID ∧
      Writes t t' (row.written m) := by
  unfold saveStorageAlias at h
  split at h
  next hnone =>
    cases h
    exact .inl ⟨hnone, writes_put t _⟩
  next row hfind =>
  split at h
  next hsame =>
    simp only [Bool.and_eq_true, Bool.or_eq_true, beq_iff_eq, hid, false_or] at hsame
    exact .inr ⟨row, hfind, hsame.1, hsame.2, write_some hfind h⟩
  · cases h

theorem claimStorageAlias_cases (t : MappingTable) (aliasHash owner : Bytes) :
    (t.claimStorageAlias aliasHash owner).1 = t ∨
    ∃ o, t.find owner = some o ∧ t.find aliasHash = none ∧ o.claimable = true ∧
      Writes t (t.claimStorageAlias aliasHash owner).1
        { o with hash := aliasHash, manifest := [] } := by
  unfold claimStorageAlias
  dsimp only
  split
  next o ho hnone =>
    split
    next hclaim => exact .inr ⟨o, ho, hnone, hclaim, writes_put t _⟩
    · exact .inl rfl
  · exact .inl rfl

theorem setStorageLayout_ok {before : StorageMapping} {next : Layout}
    (h : t.setStorageLayout before next = .ok t') : next.validate.isOk = true ∧
    (∃ row, t.find before.hash = some row ∧ row.storageID = before.storageID) ∧
    (∀ k row, t.find k = some row → row.storageID = before.storageID →
      row.layout = before.layout ∧ row.revision = before.revision) ∧
    ∀ k, t'.find k = (t.find k).map fun row =>
      if row.storageID = before.storageID then row.relocate next else row := by
  unfold setStorageLayout at h
  cases hset : setLayoutRows t.rows before next with
  | error err =>
    rw [hset] at h
    cases h
  | ok rows =>
    rw [hset] at h
    cases h
    obtain ⟨⟨row, hrow, hid, -, -⟩, hall, -⟩ := setLayoutRows_ok hset
    have hfind : t.find before.hash = some row := by
      have hkey : (fun r : StorageMapping => decide (r.hash = before.hash))
          = fun r => r.hash == before.hash := by
        funext r
        exact (beq_eq_decide r.hash before.hash).symm
      unfold find
      rw [hkey]
      exact hrow
    refine ⟨validate_of_setLayoutRows hset, ⟨row, hfind, hid⟩, ?_, ?_⟩
    · intro k row hk
      exact hall row (find_mem hk)
    intro k
    rw [find_adjust]
    cases hk : t.find k with
    | none => rfl
    | some r =>
      simp only [Option.map_some]
      by_cases hr : r.storageID = before.storageID
      · have halias : aliasOf before r = true := by
          simp [aliasOf, hr, (hall r (find_mem hk) hr).2]
        rw [if_pos halias, if_pos hr]
      · have halias : ¬aliasOf before r = true := by simp [aliasOf, hr]
        rw [if_neg halias, if_neg hr]

end MappingTable

end TorrentHub
