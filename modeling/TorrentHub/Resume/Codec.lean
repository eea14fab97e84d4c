import TorrentHub.Lib.Binary
import TorrentHub.Resume.Policy

namespace TorrentHub
open Lib Binary

def envelopeMagic : Bytes := ascii "TSHRSM01"

namespace Encoder

def integer (n : Int64) : Bytes := uint64 n.toUInt64

def text (s : Bytes) : Bytes := uint32 (UInt32.ofNat s.length) ++ s

def header (c : Checkpoint) : Bytes :=
  integer c.generation ++ integer c.createdAtMS ++
    text c.identity.recordID ++ text c.identity.storageID ++ text c.identity.root ++
    text c.identity.layoutPrefix ++ text c.identity.metainfoDigest ++
    text c.identity.catalogDigest ++ text c.identity.volumeID ++
    integer c.identity.mappingRevision ++ integer c.identity.layoutVersion ++
    integer c.identity.pieceLength ++ integer c.identity.pieceCount ++
    integer c.identity.extentLength ++ integer (Int64.ofNat c.files.length)

def file (f : ResumeFile) : Bytes :=
  text f.path ++ integer f.offset ++ integer f.length ++
    integer (if f.evidence.present then 1 else 0) ++ text f.evidence.identity ++
    integer f.evidence.size ++ integer f.evidence.modifiedNS

end Encoder

def Checkpoint.bytes (c : Checkpoint) : Bytes :=
  envelopeMagic ++ Encoder.integer c.schema ++
    (Encoder.header c ++ (c.files.flatMap Encoder.file ++ c.pieces))

def encode (fold : Bytes → Bytes) (c : Checkpoint) : Except CheckpointError Bytes :=
  match c.validate fold with
  | .error err => .error err
  | .ok () => if c.bytes.length > maxCheckpointBytes then .error .budget else .ok c.bytes

namespace Decoder

abbrev Read := Reader CheckpointError

def take (n : Nat) : Read Bytes := Binary.take .unexpectedEOF n

def integer : Read Int64 := do
  let p ← take 8
  return (UInt64.ofNat (value p)).toInt64

def text (limit : Nat) : Read Bytes := do
  let p ← take 4
  if value p > limit then throw .budget
  take (value p)

structure Header where
  generation : Int64
  createdAtMS : Int64
  identity : Identity
  files : Int64

def header : Read Header := do
  let generation ← integer
  let createdAtMS ← integer
  let recordID ← text maxIdentityLength
  let storageID ← text maxIdentityLength
  let root ← text maxPathLength
  let layoutPrefix ← text maxPathLength
  let metainfoDigest ← text 64
  let catalogDigest ← text 64
  let volumeID ← text maxIdentityLength
  let mappingRevision ← integer
  let layoutVersion ← integer
  let pieceLength ← integer
  let pieceCount ← integer
  let extentLength ← integer
  let files ← integer
  return {
    generation, createdAtMS, files
    identity := {
      recordID, storageID, mappingRevision, layoutVersion, root, layoutPrefix, metainfoDigest,
      catalogDigest, volumeID, pieceLength, pieceCount, extentLength } }

def Header.check (h : Header) : Except CheckpointError Unit :=
  if h.identity.pieceCount < 0 || h.identity.layoutVersion < 0 || h.identity.layoutVersion > 2 ||
      h.files < 1 then .error .invalid
  else if h.identity.pieceCount > maxPieces || h.files > Int64.ofNat maxFiles then .error .budget
  else h.identity.validate

def file (limit : Nat) : Read ResumeFile := do
  let path ← text limit
  let offset ← integer
  let length ← integer
  let present ← integer
  let identity ← text maxIdentityLength
  let size ← integer
  let modifiedNS ← integer
  if present != 0 && present != 1 then throw .invalid
  return {
    path, offset, length, evidence := { present := present == 1, identity, size, modifiedNS } }

def files : Nat → Nat → Read (List ResumeFile)
  | 0, _ => return []
  | n + 1, pathBytes => do
    let f ← file (min maxPathLength (maxPathBytes - pathBytes))
    let rest ← files n (pathBytes + f.path.length)
    return f :: rest

def body : Read Checkpoint := do
  let h ← header
  h.check
  let files ← files h.files.toNatClampNeg 0
  let pieces ← take (bitmapBytes h.identity.pieceCount)
  return {
    schema := schemaVersion, identity := h.identity, generation := h.generation
    createdAtMS := h.createdAtMS, files, pieces }

def envelope (data : Bytes) : Except CheckpointError Bytes :=
  match (do return (← take envelopeMagic.length, ← integer) : Read _).run data with
  | .error _ => .error .invalid
  | .ok ((magic, schema), rest) =>
    if magic != envelopeMagic || schema != schemaVersion then .error .invalid else .ok rest

end Decoder

def decode (fold : Bytes → Bytes) (data : Bytes) : Except CheckpointError Checkpoint := do
  if data.length > maxCheckpointBytes then throw .budget
  let (c, rest) ← Decoder.body.run (← Decoder.envelope data)
  if rest != [] then throw .invalid
  c.validate fold
  return c

end TorrentHub
