import TorrentHub.Lib.Names
import TorrentHub.Move.Journal
import TorrentHub.Payload.Relative
import TorrentHub.Payload.Volume

namespace TorrentHub
open Lib RelPath

structure StorageTreeEntry where
  path : Bytes
  directory : Bool
  evidence : RecoveryFingerprint
deriving DecidableEq

structure StorageTree where
  identity : String
  entries : List StorageTreeEntry
deriving DecidableEq

structure PlannedEntry where
  source : Bytes
  target : Bytes
  evidence : RecoveryFingerprint
deriving DecidableEq

structure LocationPlan where
  method : MoveMethod
  entries : List PlannedEntry
  directories : List Bytes
  extraBytes : Int
  retainSource : Bool
  freeBytes : Nat
deriving DecidableEq

inductive PlanError where
  | occupied | overflow
  | fs (err : FsError)
deriving DecidableEq

structure PlanEnv where
  occupied : Except FsError Bool
  snapshot : Except FsError StorageTree
  lstat : Bytes → Except FsError Unit
  freeSpace : Bytes → Except FsError Nat

def existingParent (env : PlanEnv) : Nat → Bytes → Except FsError Bytes
  | 0, _ => .error .notExist
  | fuel + 1, parent =>
    match env.lstat parent with
    | .ok () => .ok parent
    | .error .notExist =>
      if parent = dot then .error .notExist else existingParent env fuel (dir parent)
    | .error err => .error err

def isVolumeMarker (volumes : List VolumeRegistration) (path : Bytes) : Bool :=
  volumes.any fun v => clean path == join [v.root, volumeMarker]

def metadataPath (source : Layout) (path : Bytes) : Bytes :=
  if source.layoutPrefix = [] then path else join [source.layoutPrefix, path]

section

variable (volumes : List VolumeRegistration) (source target : Layout)

def planEntries : List StorageTreeEntry → LocationPlan → Except PlanError LocationPlan
  | [], plan => .ok plan
  | e :: rest, plan =>
    if isVolumeMarker volumes (join [source.root, e.path]) then
      planEntries rest { plan with retainSource := true, method := .copy }
    else
      match target.relative (metadataPath source e.path) with
      | .error _ =>
        if e.directory && metadataPath source e.path == target.layoutPrefix then
          planEntries rest plan
        else planEntries rest { plan with retainSource := true }
      | .ok path =>
        if e.directory then
          planEntries rest { plan with directories := plan.directories ++ [path] }
        else if e.evidence.size > 9223372036854775807 - plan.extraBytes then .error .overflow
        else
          planEntries rest { plan with
            extraBytes := plan.extraBytes + e.evidence.size
            entries := plan.entries ++ [⟨e.path, path, e.evidence⟩] }

def planLocation (env : PlanEnv) : Except PlanError LocationPlan :=
  match env.occupied with
  | .error err => .error (.fs err)
  | .ok true => .error .occupied
  | .ok false =>
    match env.snapshot with
    | .error err => .error (.fs err)
    | .ok tree =>
      match existingParent env (target.root.length + 1) (dir target.root) with
      | .error err => .error (.fs err)
      | .ok parent =>
        match env.freeSpace parent with
        | .error err => .error (.fs err)
        | .ok free =>
          let method := if source.layoutPrefix == target.layoutPrefix && tree.identity != "" then
            MoveMethod.rename else .copy
          planEntries volumes source target tree.entries ⟨method, [], [], 0, false, free⟩

end

structure LocationOwner where
  hash : Bytes
  recordID : Bytes
  version : Int
  reason : RecoveryReason
deriving DecidableEq

/-- The part of a journal that names paths. A method that is no method of the service is
`none`. -/
structure LocationManifest where
  schema : Int
  source : Option StorageMapping
  target : Layout
  staging : Bytes
  cleanupPath : Bytes
  sourceTree : StorageTree
  candidateTree : StorageTree
  entries : List PlannedEntry
  directories : List Bytes
  method : Option MoveMethod
  extraBytes : Int
deriving DecidableEq

def maxStorageManifestEntries : Nat := 65536

def maxManifestPathBytes : Nat := 16777216

def decimal : Int → Bytes
  | .ofNat n => (Nat.toDigits 10 n).map fun c => c.toNat.toUInt8
  | .negSucc n => 0x2d :: (Nat.toDigits 10 (n + 1)).map fun c => c.toNat.toUInt8

def validPath (p : Bytes) : Bool :=
  (validateRelative p).isOk && clean p == p && !p.contains backslash

def base (p : Bytes) : Bytes :=
  if p = [] then dot
  else
    let p := p.rdropWhile (· == slash)
    if p = [] then [slash] else p.rtakeWhile (· != slash)

def component (p : Bytes) : Bool := validPath p && base p == p

def operationName (v : LocationOwner) : Bytes := v.recordID ++ 0x2d :: decimal v.version

def legacyStage (storageID : Bytes) (v : LocationOwner) : Bytes :=
  join [ascii ".tsh-recovery", ascii "moves", storageID, operationName v]

def targetStage (target : Layout) (storageID : Bytes) (v : LocationOwner) : Bytes :=
  join [dir target.root, legacyStage storageID v]

def cleanupPath (root : Bytes) (v : LocationOwner) : Bytes :=
  join [root, ascii ".tsh-cleanup-" ++ operationName v]

def validTreeEntry (e : StorageTreeEntry) : Bool :=
  validPath e.path && e.evidence.identity != "" && 0 ≤ e.evidence.size

def hexCharacter (c : Char) : Bool :=
  c.isDigit || ('a' ≤ c && c ≤ 'f') || ('A' ≤ c && c ≤ 'F')

def validFileDigest (digest : String) : Bool :=
  digest.length == 64 && digest.toList.all hexCharacter

/-- The loop over the source tree, with the paths seen and their bytes. The answer is the bytes of
all paths. -/
def checkSourceTree : List StorageTreeEntry → List Bytes → Nat → Option Nat
  | [], _, bytes => some bytes
  | e :: rest, seen, bytes =>
    if !validTreeEntry e || bytes + e.path.length > maxManifestPathBytes then none
    else if seen.contains e.path then none
    else if !e.directory && !validFileDigest e.evidence.digest then none
    else checkSourceTree rest (e.path :: seen) (bytes + e.path.length)

def checkCandidateTree : List StorageTreeEntry → Nat → Bool
  | [], _ => true
  | e :: rest, bytes =>
    if !validTreeEntry e || bytes + e.path.length > maxManifestPathBytes then false
    else checkCandidateTree rest (bytes + e.path.length)

def checkEntries (tree : List StorageTreeEntry) (source target : Layout) :
    List PlannedEntry → List Bytes → Bool
  | [], _ => true
  | e :: rest, seen =>
    match tree.find? (·.path == e.source),
        target.relative (join [source.layoutPrefix, e.source]) with
    | some found, .ok expected =>
      if found.directory || found.evidence != e.evidence || seen.contains e.source ||
          !validPath e.target || expected != e.target then false
      else checkEntries tree source target rest (e.source :: seen)
    | _, _ => false

def validMethod (reason : RecoveryReason) : Option MoveMethod → Bool
  | none => false
  | some .locate => reason == .locate
  | some _ => true

def validateLocationJournal (fold : Bytes → Bytes) (v : LocationOwner) (j : LocationManifest) :
    Bool :=
  match j.source with
  | none => false
  | some m =>
    if j.schema != 1 || !m.ready || m.hash != v.hash || !j.target.validate.isOk ||
        !component v.recordID || !component m.storageID || v.version < 1 || m.revision < 1 then
      false
    else if (j.staging != legacyStage m.storageID v &&
          j.staging != targetStage j.target m.storageID v) ||
        (j.cleanupPath != [] && j.cleanupPath != cleanupPath m.root v) ||
        overlap (collisionKey fold m.root) (collisionKey fold j.target.root) then false
    else if j.sourceTree.entries.length > maxStorageManifestEntries ||
        j.entries.length > maxStorageManifestEntries ||
        j.directories.length > maxStorageManifestEntries || j.extraBytes < 0 then false
    else if !validMethod v.reason j.method then false
    else
      match checkSourceTree j.sourceTree.entries [] 0 with
      | none => false
      | some bytes =>
        if j.candidateTree.entries.length > maxStorageManifestEntries then false
        else if !checkCandidateTree j.candidateTree.entries bytes then false
        else if !checkEntries j.sourceTree.entries m.layout j.target j.entries [] then false
        else j.directories.all validPath

end TorrentHub
