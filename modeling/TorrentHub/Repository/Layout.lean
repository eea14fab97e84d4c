import TorrentHub.Lib.Except
import TorrentHub.Storage

namespace TorrentHub
open Lib

def mappingOf (rows : List StorageMapping) (hash : Bytes) : Option StorageMapping :=
  rows.find? fun row => row.hash == hash

namespace StorageMapping

def unmoved (row before : StorageMapping) : Bool :=
  row.root == before.root && row.revision == before.revision &&
    row.layoutPrefix == before.layoutPrefix && row.version == before.version

def maxRevision : Int := 9223372036854775807

def relocate (row : StorageMapping) (next : Layout) : StorageMapping :=
  { row with
    version := next.version, root := next.root, layoutPrefix := next.layoutPrefix, state := .ready
    revision := if row.layout = next then row.revision else row.revision + 1 }

def countable (row : StorageMapping) (next : Layout) : Bool :=
  row.layout == next || decide (row.revision < maxRevision)

end StorageMapping

/-- The rows that one statement of `setStorageLayoutTx` moves. -/
def aliasOf (before row : StorageMapping) : Bool :=
  row.storageID == before.storageID && row.revision == before.revision

inductive StorageError where
  | stateConflict | queueFull | exhausted | constraint
  | layout (err : LayoutError)
  | path (err : PayloadError)
deriving DecidableEq

/-- The mapping rows after `setStorageLayoutTx`: every alias of the owner moves, or none. -/
def setLayoutRows (rows : List StorageMapping) (before : StorageMapping) (next : Layout) :
    Except StorageError (List StorageMapping) :=
  match next.validate with
  | .error err => .error (.layout err)
  | .ok () =>
    if !(mappingOf rows before.hash).any
        (fun row => row.storageID == before.storageID && row.unmoved before) then
      .error .stateConflict
    else if rows.any (fun row => row.storageID == before.storageID && !row.unmoved before) then
      .error .stateConflict
    else if rows.any (fun row => aliasOf before row && !row.countable next) then .error .exhausted
    else .ok (rows.map fun row => if aliasOf before row then row.relocate next else row)

variable {rows rows' : List StorageMapping} {before row : StorageMapping} {next : Layout}

theorem StorageMapping.unmoved_iff : row.unmoved before = true ↔
    row.layout = before.layout ∧ row.revision = before.revision := by
  simp only [unmoved, layout, Bool.and_eq_true, beq_iff_eq, Layout.mk.injEq]
  tauto

section

variable (h : setLayoutRows rows before next = .ok rows')
include h

theorem setLayoutRows_ok :
    (∃ row, mappingOf rows before.hash = some row ∧ row.storageID = before.storageID ∧
        row.layout = before.layout ∧ row.revision = before.revision) ∧
      (∀ row ∈ rows, row.storageID = before.storageID →
        row.layout = before.layout ∧ row.revision = before.revision) ∧
      rows' = rows.map fun row => if aliasOf before row then row.relocate next else row := by
  unfold setLayoutRows at h
  cases hvalid : next.validate with
  | error err =>
    rw [hvalid] at h
    cases h
  | ok _ =>
    simp only [hvalid, ite_error_eq_ok, Except.ok.injEq] at h
    obtain ⟨hrow, haliases, -, rfl⟩ := h
    refine ⟨?_, ?_, rfl⟩
    · simp only [Bool.not_eq_true', Bool.not_eq_false, Option.any_eq_true, Bool.and_eq_true,
        beq_iff_eq, StorageMapping.unmoved_iff] at hrow
      exact hrow
    intro row hmem hid
    simp only [List.any_eq_true, Bool.and_eq_true, beq_iff_eq, Bool.not_eq_true', not_exists,
      not_and, Bool.not_eq_false] at haliases
    exact StorageMapping.unmoved_iff.1 (haliases row hmem hid)

theorem validate_of_setLayoutRows : next.validate.isOk = true := by
  unfold setLayoutRows at h
  cases hvalid : next.validate with
  | error err =>
    rw [hvalid] at h
    cases h
  | ok _ => rfl

end

theorem mappingOf_map (f : StorageMapping → StorageMapping) (hf : ∀ row, (f row).hash = row.hash)
    (rows : List StorageMapping) (hash : Bytes) :
    mappingOf (rows.map f) hash = (mappingOf rows hash).map f := by
  unfold mappingOf
  rw [List.find?_map]
  simp only [Function.comp_def, hf]

end TorrentHub
