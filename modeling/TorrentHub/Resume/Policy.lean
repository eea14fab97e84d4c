import TorrentHub.Payload.Layout

namespace TorrentHub
open Lib RelPath

def schemaVersion : Int64 := 1
def maxPieces : Int64 := 4194304
def maxFiles : Nat := 4096
def maxCheckpointBytes : Nat := 4194304
def maxPathBytes : Nat := 1048576
def maxPathLength : Nat := 4096
def maxPathDepth : Nat := 128
def maxIdentityLength : Nat := 256

/-- What a checkpoint is bound to: the record, the mapping and the metadata of its owner. -/
structure Identity where
  recordID : Bytes
  storageID : Bytes
  mappingRevision : Int64
  layoutVersion : Int64
  root : Bytes
  layoutPrefix : Bytes
  metainfoDigest : Bytes
  catalogDigest : Bytes
  volumeID : Bytes
  pieceLength : Int64
  pieceCount : Int64
  extentLength : Int64
deriving DecidableEq

structure Evidence where
  present : Bool
  identity : Bytes
  size : Int64
  modifiedNS : Int64
deriving DecidableEq

structure ResumeFile where
  path : Bytes
  offset : Int64
  length : Int64
  evidence : Evidence
deriving DecidableEq

structure Checkpoint where
  schema : Int64
  identity : Identity
  generation : Int64
  createdAtMS : Int64
  files : List ResumeFile
  pieces : Bytes
deriving DecidableEq

inductive CheckpointError where
  | invalid | budget | unexpectedEOF
deriving DecidableEq

def bitmapBytes (pieces : Int64) : Nat := ((pieces + 7) / 8).toNatClampNeg

def validBitmap (bits : Bytes) (pieces : Int64) : Bool :=
  if pieces < 0 || pieces > maxPieces || bits.length != bitmapBytes pieces then false
  else pieces % 8 == 0 || bits.getLastD 0 >>> UInt8.ofNat (pieces % 8).toNatClampNeg == 0

def validateBitmap (bits : Bytes) (pieces : Int64) : Except CheckpointError Unit :=
  if validBitmap bits pieces then .ok () else .error .invalid

def validDigest (value : Bytes) : Bool := value.length == 64 && hexText value

namespace Identity

def layout (id : Identity) : Layout := ⟨id.layoutVersion.toInt, id.root, id.layoutPrefix⟩

def validate (id : Identity) : Except CheckpointError Unit :=
  if id.pieceCount < 0 then .error .invalid
  else if id.pieceCount > maxPieces then .error .budget
  else if id.recordID == [] || id.recordID.length > maxIdentityLength || id.storageID == [] ||
      id.storageID.length > maxIdentityLength || id.volumeID == [] ||
      id.volumeID.length > maxIdentityLength || id.mappingRevision ≤ 0 ||
      !validDigest id.metainfoDigest || !validDigest id.catalogDigest then .error .invalid
  else if id.root.length > maxPathLength || id.layoutPrefix.length > maxPathLength then
    .error .budget
  else if id.root.contains 0 || id.layoutPrefix.contains 0 then .error .invalid
  else if !id.layout.validate.isOk then .error .invalid
  else if id.pieceLength ≤ 0 || id.extentLength < 0 then .error .invalid
  else
    let count := id.extentLength / id.pieceLength
    let count := if id.extentLength % id.pieceLength != 0 then count + 1 else count
    if count != id.pieceCount then .error .invalid else .ok ()

end Identity

/-- The directories above a path, the nearest first; `fuel` is enough when it is the length of the
path. -/
def parents : Nat → Bytes → List Bytes
  | 0, _ => []
  | fuel + 1, path => if dir path = dot then [] else dir path :: parents fuel (dir path)

/-- The loop over the files, with the keys and the path bytes seen so far and the end of the
file before. -/
def validateFiles (fold : Bytes → Bytes) (extent : Int64) :
    List ResumeFile → List Bytes → Nat → Int64 → Except CheckpointError (List Bytes)
  | [], paths, _, _ => .ok paths
  | f :: files, paths, pathBytes, fileEnd =>
    if pathBytes + f.path.length > maxPathBytes || f.path.length > maxPathLength ||
        f.path.count slash ≥ maxPathDepth || f.evidence.identity.length > maxIdentityLength then
      .error .budget
    else if f.path.contains 0 || !(validateRelative f.path).isOk || clean f.path != f.path ||
        f.offset < fileEnd || f.length < 0 || f.offset > extent ||
        f.length > extent - f.offset then .error .invalid
    else if paths.contains (collisionKey fold f.path) then .error .invalid
    else if f.evidence.size < 0 || (f.evidence.present && f.evidence.identity == []) then
      .error .invalid
    else
      validateFiles fold extent files (collisionKey fold f.path :: paths)
        (pathBytes + f.path.length) (f.offset + f.length)

namespace Checkpoint

def validate (fold : Bytes → Bytes) (c : Checkpoint) : Except CheckpointError Unit :=
  if c.schema != schemaVersion || c.generation ≤ 0 || c.createdAtMS ≤ 0 then .error .invalid
  else
    match c.identity.validate with
    | .error err => .error err
    | .ok () =>
      if c.files.length > maxFiles then .error .budget
      else if c.files == [] || !validBitmap c.pieces c.identity.pieceCount then .error .invalid
      else
        match validateFiles fold c.identity.extentLength c.files [] 0 0 with
        | .error err => .error err
        | .ok paths =>
          if paths.any fun path => (parents path.length path).any paths.contains then
            .error .invalid
          else .ok ()

end Checkpoint

end TorrentHub
