import TorrentHub.Payload.Layout

namespace TorrentHub
open Lib

inductive MappingState where
  | reserved | moving | ready
  | other (text : String)
deriving DecidableEq

structure StorageMapping where
  hash : Bytes
  version : Int
  root : Bytes
  state : MappingState
  manifest : Bytes
  storageID : Bytes
  revision : Int
  layoutPrefix : Bytes
deriving DecidableEq

def StorageMapping.layout (m : StorageMapping) : Layout := ⟨m.version, m.root, m.layoutPrefix⟩

def StorageMapping.ready (m : StorageMapping) : Bool :=
  m.state == .ready && m.manifest == [] && m.layout.validate.isOk

/-- The mapping row of a hash, the record that owns the hash, and whether that record is being
deleted. -/
structure MappingRow where
  mapping : StorageMapping
  recordID : Bytes
  deleting : Bool
deriving DecidableEq

def checkStorageFence (row : Option MappingRow) (m : StorageMapping) (id : Bytes) : Bool :=
  match row with
  | none => false
  | some row =>
    row.mapping.hash == m.hash && row.recordID == id && row.mapping.storageID == m.storageID &&
      row.mapping.revision == m.revision && row.mapping.root == m.root &&
      row.mapping.layoutPrefix == m.layoutPrefix && row.mapping.version == m.version &&
      !row.deleting

theorem checkStorageFence_self {row : MappingRow} (h : row.deleting = false) :
    checkStorageFence (some row) row.mapping row.recordID = true := by
  simp [checkStorageFence, h]

end TorrentHub
