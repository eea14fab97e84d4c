import TorrentHub.Payload.Relative
import TorrentHub.Resume.Policy
import TorrentHub.Lib.Bitmap
import TorrentHub.Lib.Framing
import TorrentHub.Lib.Search
import TorrentHub.Lib.Sha256

namespace TorrentHub
open Lib RelPath Binary Framing

abbrev PiecesRoot := { root : Bytes // root.length = 32 }

structure MetaInfo where
  infoBytes : Bytes
  pieceLayers : Bytes → Option Bytes

/-- The path is what the library joins of the name of the torrent and the components of the file,
and joining cleans it. -/
structure FileInfo where
  path : Bytes
  torrentOffset : Int64
  length : Int64
  piecesRoot : Option PiecesRoot
  clean_path : path = [] ∨ clean path = path

structure Info where
  pieceLength : Int64
  numPieces : Int64
  files : List FileInfo
  hasV1 : Bool
  hasV2 : Bool

structure CheckpointFile where
  path : Bytes
  offset : Int64
  length : Int64
  present : Bool
  identity : Bytes
  size : Int64
  modifiedNS : Int64
deriving DecidableEq

structure FileCheckpoint where
  infoHash : Bytes
  root : Bytes
  pieceLength : Int64
  pieceCount : Int64
  extentLength : Int64
  files : List CheckpointFile
  complete : Bytes
deriving DecidableEq

def noEvidence : Evidence := ⟨false, [], 0, 0⟩

def catalogFiles (layout : Layout) :
    List FileInfo → List ResumeFile → Nat → Int64 →
      Except CheckpointError (List ResumeFile × Int64)
  | [], files, _, extent => .ok (files, extent)
  | fi :: rest, files, pathBytes, extent =>
    if files.length ≥ maxFiles then .error .budget
    else
      match layout.relative fi.path with
      | .error _ => .error .invalid
      | .ok path =>
        if pathBytes + path.length > maxPathBytes || path.length > maxPathLength then
          .error .budget
        else if fi.torrentOffset < 0 || fi.length < 0 ||
            fi.length > Int64.maxValue - fi.torrentOffset then .error .invalid
        else
          catalogFiles layout rest (files ++ [⟨path, fi.torrentOffset, fi.length, noEvidence⟩])
            (pathBytes + path.length) (max extent (fi.torrentOffset + fi.length))

def catalogLayers (mi : MetaInfo) (pieceLength : Int64) :
    List FileInfo → List (Bytes × Bytes) → Nat → Except CheckpointError (List (Bytes × Bytes))
  | [], layers, _ => .ok layers
  | fi :: rest, layers, total =>
    if fi.length > 0 && fi.piecesRoot.isNone then .error .invalid
    else if fi.length ≤ pieceLength then catalogLayers mi pieceLength rest layers total
    else
      match fi.piecesRoot with
      | none => .error .invalid
      | some key =>
        match mi.pieceLayers key with
        | none => .error .invalid
        | some raw =>
          let count := fi.length / pieceLength
          let count := if fi.length % pieceLength != 0 then count + 1 else count
          if (raw.length : Int) != (count * 32).toInt then .error .invalid
          else
            let total := if layers.any (·.1 == key.1) then total else total + raw.length
            if total > maxCheckpointBytes then .error .budget
            else
              catalogLayers mi pieceLength rest ((key.1, raw) :: layers.filter (·.1 != key.1))
                total

def catalogNumber (n : Int64) : Bytes := uint64 n.toUInt64

def catalogText (s : Bytes) : Bytes := catalogNumber (Int64.ofNat s.length) ++ s

structure FileCatalogue where
  files : List ResumeFile
  extent : Int64
  layers : List (Bytes × Bytes)

def FileCatalogue.bytes (cat : FileCatalogue) (mi : MetaInfo) (info : Info) : Bytes :=
  ascii "TSH-file-catalog-v1" ++ Sha256.sum256 mi.infoBytes ++
    [info.pieceLength, info.numPieces, cat.extent, Int64.ofNat cat.files.length].flatMap
      catalogNumber ++
    cat.files.flatMap (fun f => catalogText f.path ++ catalogNumber f.offset ++
      catalogNumber f.length) ++
    catalogNumber (Int64.ofNat cat.layers.length) ++
    cat.layers.flatMap fun l => catalogText l.1 ++ catalogText l.2

section

variable (fold sha1 : Bytes → Bytes)
  (validatePieceLayers : List (Bytes × Bytes) → Info → Bool)

def fileCatalogue (layout : Layout) (mi : MetaInfo) (info : Info) :
    Except CheckpointError FileCatalogue :=
  if mi.infoBytes == [] || info.pieceLength ≤ 0 then .error .invalid
  else if !layout.validate.isOk then .error .invalid
  else
    catalogFiles layout info.files [] 0 0 >>= fun (files, extent) =>
      if files == [] || info.numPieces < 0 || info.numPieces > maxPieces then .error .budget
      else if !info.hasV2 then .ok ⟨files, extent, []⟩
      else if info.pieceLength < 16384 || info.pieceLength > 67108864 ||
          info.pieceLength &&& (info.pieceLength - 1) != 0 then .error .budget
      else
        catalogLayers mi info.pieceLength info.files [] 0 >>= fun layers =>
          if !validatePieceLayers layers info then .error .invalid
          else .ok ⟨files, extent, layers.mergeSort fun a b => bytesLe a.1 b.1⟩

def catalogIdentity (base : Identity) (mi : MetaInfo) (info : Info) :
    Except CheckpointError (Identity × List ResumeFile) :=
  fileCatalogue validatePieceLayers base.layout mi info >>= fun cat =>
    let id := { base with
      pieceLength := info.pieceLength
      pieceCount := info.numPieces
      extentLength := cat.extent
      metainfoDigest := hex (Sha256.sum256 mi.infoBytes)
      catalogDigest := hex (Sha256.sum256 (cat.bytes mi info)) }
    id.validate >>= fun _ => .ok (id, cat.files)

def canonicalStorageHash (mi : MetaInfo) (info : Info) : Bytes :=
  if info.hasV1 then sha1 mi.infoBytes else (Sha256.sum256 mi.infoBytes).take 20

def attachEvidence : List CheckpointFile → List ResumeFile →
    Except CheckpointError (List ResumeFile)
  | f :: native, g :: files =>
    if f.path != g.path || f.offset != g.offset || f.length != g.length then .error .invalid
    else
      attachEvidence native files >>= fun rest =>
        .ok ({ g with evidence := ⟨f.present, f.identity, f.size, f.modifiedNS⟩ } :: rest)
  | [], files => .ok files
  | _ :: _, [] => .error .invalid

def fromStorage (base : Identity) (mi : MetaInfo) (info : Info) (generation nowMS : Int64)
    (native : FileCheckpoint) : Except CheckpointError Checkpoint :=
  catalogIdentity validatePieceLayers base mi info >>= fun (id, files) =>
    if native.infoHash != canonicalStorageHash sha1 mi info || native.root != id.root ||
        native.pieceLength != id.pieceLength || native.pieceCount != id.pieceCount ||
        native.extentLength != id.extentLength || native.files.length != files.length then
      .error .invalid
    else
      attachEvidence native.files files >>= fun files =>
        let c : Checkpoint := ⟨schemaVersion, id, generation, nowMS, files, native.complete⟩
        c.validate fold >>= fun _ => .ok c

def claimEvidence : List ResumeFile → List ResumeFile →
    Except CheckpointError (List CheckpointFile)
  | f :: saved, g :: files =>
    if f.path != g.path || f.offset != g.offset || f.length != g.length then .error .invalid
    else
      claimEvidence saved files >>= fun rest =>
        let e := f.evidence
        .ok (⟨f.path, f.offset, f.length, e.present, e.identity, e.size, e.modifiedNS⟩ :: rest)
  | [], _ => .ok []
  | _ :: _, [] => .error .invalid

def storageClaims (base : Identity) (mi : MetaInfo) (info : Info) (saved : Checkpoint)
    (revoked : Bytes) : Except CheckpointError FileCheckpoint :=
  saved.validate fold >>= fun _ =>
    catalogIdentity validatePieceLayers base mi info >>= fun (expected, files) =>
      if expected != saved.identity || files.length != saved.files.length then .error .invalid
      else
        validateBitmap revoked expected.pieceCount >>= fun _ =>
          claimEvidence saved.files files >>= fun native =>
            .ok ⟨canonicalStorageHash sha1 mi info, expected.root, expected.pieceLength,
              expected.pieceCount, expected.extentLength, native,
              Bitmap.diff saved.pieces revoked⟩

end

end TorrentHub
