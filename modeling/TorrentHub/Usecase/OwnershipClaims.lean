import TorrentHub.Lib.Run
import TorrentHub.Repository.Aliases

namespace TorrentHub
open Lib

/-- The ownership version, the mappings, and in `rest` the records, files and durable claims. -/
structure OwnershipCatalog (κ : Type) where
  version : Int
  table : MappingTable
  rest : κ

inductive OwnershipError where
  | volume
  | cancelled
  | database
  | invalid
  | conflict
  | catalogChanged
deriving DecidableEq

/-- An entry of `ownershipClaims`. The map is keyed by the pointer, here `id`. -/
structure OwnershipClaim where
  id : Nat
  hash : Bytes
  paths : List Bytes
deriving DecidableEq

/-- Where a goroutine stands in `reserveOwnership` or in `claimStorageAlias`. -/
inductive ReservationPoint (κ : Type) where
  /-- At the head of the loop. -/
  | attempting (attempt : Nat)
  | snapshotted (attempt : Nat) (snapshot : OwnershipCatalog κ)
  | validated (attempt : Nat) (snapshot : OwnershipCatalog κ) (verdict : Option OwnershipError)
  /-- With `ownershipMu`, before the version is read again. -/
  | locked (attempt : Nat) (snapshot : OwnershipCatalog κ) (verdict : Option OwnershipError)
  /-- With `ownershipMu`, and `found` the catalog at the second read of the version. -/
  | compared (attempt : Nat) (snapshot : OwnershipCatalog κ) (verdict : Option OwnershipError)
      (found : OwnershipCatalog κ)
  | waiting (attempt : Nat)
  | granted (id : Nat)
  | returned (err : Option OwnershipError)
  /-- `claimStorageAlias` with `ownershipMu`, after its check of the root that it has read. -/
  | checked (aliasHash : Bytes) (root : Bytes)

/-- A call with its hash, which is the owner for `claimStorageAlias`, and its paths. -/
structure ReservationCall (κ : Type) where
  hash : Bytes
  paths : List Bytes
  point : ReservationPoint κ

/-- History: the snapshot that was validated, the catalog when the version was compared with that of
the snapshot, and the catalog when the claim was entered. -/
structure Grant (κ : Type) where
  claim : OwnershipClaim
  snapshot : OwnershipCatalog κ
  found : OwnershipCatalog κ
  entered : OwnershipCatalog κ

structure ReservationState (κ : Type) where
  catalog : OwnershipCatalog κ
  claims : List OwnershipClaim
  mutex : Option Nat
  calls : Nat → Option (ReservationCall κ)
  next : Nat
  grants : List (Grant κ)

/-- Case folding after NFC, and `validateOwnershipSnapshot` under a state of the file system. -/
structure ReservationEnv (κ φ : Type) where
  fold : Bytes → Bytes
  validate : φ → OwnershipCatalog κ → Bytes → List Bytes → Option OwnershipError

inductive ReservationAction (κ φ : Type) where
  | reserveOwnership (g : Nat) (hash : Bytes) (paths : List Bytes) (mounted : Bool)
  | readOwnership (g : Nat)
  | validate (g : Nat) (fs : φ)
  | lock (g : Nat)
  | ownershipVersion (g : Nat)
  | enter (g : Nat)
  | retry (g : Nat)
  /-- The context is done, or a statement of the call fails. -/
  | abort (g : Nat) (err : OwnershipError)
  | release (g : Nat)
  | publishStorage (m : StorageMapping) (aliased ensured : Bool) (actor : Bytes)
  | claimStorageAlias (g : Nat) (aliasHash owner : Bytes)
  | insertAlias (g : Nat)
  | commit (table : MappingTable) (rest : κ) (bumps : Nat)

def maxAttempts : Nat := 16

def ownershipOverlap (fold : Bytes → Bytes) (a b : Bytes) : Bool := overlap (fold a) (fold b)

def nonemptyPaths (path : Bytes) : List Bytes := if path = [] then [] else [path]

def claimsConflict (fold : Bytes → Bytes) (claims : List OwnershipClaim) (hash : Bytes)
    (paths : List Bytes) : Bool :=
  claims.any fun claim => claim.hash != hash &&
    paths.any fun a => claim.paths.any fun b => ownershipOverlap fold a b

/-- `EnsureStorageMapping`. -/
def MappingTable.ensureStorageMapping (t : MappingTable) (m : StorageMapping) : MappingTable :=
  match t.find m.hash with
  | none => t.put { m with revision := 1 }
  | some _ => t

namespace ReservationState

variable {κ φ : Type} (env : ReservationEnv κ φ) (s : ReservationState κ)

def setCall (g : Nat) (call : ReservationCall κ) : ReservationState κ :=
  { s with calls := Function.update s.calls g (some call) }

def setTable (table : MappingTable) : ReservationState κ :=
  if table.rows = s.catalog.table.rows then s
  else { s with catalog := { s.catalog with version := s.catalog.version + 1, table } }

def leave (g : Nat) (call : ReservationCall κ) (err : Option OwnershipError) : ReservationState κ :=
  { s.setCall g { call with point := .returned err } with
    mutex := if s.mutex = some g then none else s.mutex }

/-- The last part of an attempt, with `ownershipMu`. -/
def enter (g : Nat) (call : ReservationCall κ) (attempt : Nat) (snapshot : OwnershipCatalog κ)
    (verdict : Option OwnershipError) (found : OwnershipCatalog κ) : ReservationState κ :=
  if found.version = snapshot.version then
    match verdict with
    | some err => s.leave g call (some err)
    | none =>
      if claimsConflict env.fold s.claims call.hash call.paths then
        s.leave g call (some .conflict)
      else
        let claim : OwnershipClaim := ⟨s.next, call.hash, call.paths⟩
        { s.setCall g { call with point := .granted s.next } with
          claims := claim :: s.claims, mutex := none, next := s.next + 1
          grants := ⟨claim, snapshot, found, s.catalog⟩ :: s.grants }
  else { s.setCall g { call with point := .waiting attempt } with mutex := none }

/-- `publishStorage`, whose one statement runs with `ownershipMu` held. -/
def publishStorage (m : StorageMapping) (aliased ensured : Bool) (actor : Bytes) :
    ReservationState κ :=
  if s.mutex.isSome || claimsConflict env.fold s.claims actor (nonemptyPaths m.root) then s
  else if aliased then
    match s.catalog.table.saveStorageAlias m with
    | some table => s.setTable table
    | none => s
  else if ensured then s.setTable (s.catalog.table.ensureStorageMapping m)
  else match s.catalog.table.saveStorageMapping m with
    | some table => s.setTable table
    | none => s

def step : ReservationAction κ φ → ReservationState κ
  | .reserveOwnership g hash paths mounted =>
    match s.calls g with
    | some _ => s
    | none =>
      let point := if mounted then .attempting 0 else .returned (some .volume)
      s.setCall g ⟨hash, paths, point⟩
  | .readOwnership g =>
    match s.calls g with
    | some call =>
      match call.point with
      | .attempting attempt =>
        s.setCall g { call with point := .snapshotted attempt s.catalog }
      | _ => s
    | none => s
  | .validate g fs =>
    match s.calls g with
    | some call =>
      match call.point with
      | .snapshotted attempt snapshot =>
        let verdict := env.validate fs snapshot call.hash call.paths
        s.setCall g { call with point := .validated attempt snapshot verdict }
      | _ => s
    | none => s
  | .lock g =>
    match s.calls g, s.mutex with
    | some call, none =>
      match call.point with
      | .validated attempt snapshot verdict =>
        { s.setCall g { call with point := .locked attempt snapshot verdict } with
          mutex := some g }
      | _ => s
    | _, _ => s
  | .ownershipVersion g =>
    match s.calls g with
    | some call =>
      match call.point with
      | .locked attempt snapshot verdict =>
        s.setCall g { call with point := .compared attempt snapshot verdict s.catalog }
      | _ => s
    | none => s
  | .enter g =>
    match s.calls g with
    | some call =>
      match call.point with
      | .compared attempt snapshot verdict found =>
        s.enter env g call attempt snapshot verdict found
      | _ => s
    | none => s
  | .retry g =>
    match s.calls g with
    | some call =>
      match call.point with
      | .waiting attempt =>
        let point := if attempt + 1 < maxAttempts then .attempting (attempt + 1)
          else .returned (some .catalogChanged)
        s.setCall g { call with point }
      | _ => s
    | none => s
  | .abort g err =>
    match s.calls g with
    | some call =>
      match call.point with
      | .granted _ | .returned _ => s
      | _ => s.leave g call (some err)
    | none => s
  | .release g =>
    match s.calls g, s.mutex with
    | some call, none =>
      match call.point with
      | .granted id =>
        { s.setCall g { call with point := .returned none } with
          claims := s.claims.filter fun claim => claim.id != id }
      | _ => s
    | _, _ => s
  | .publishStorage m aliased ensured actor => s.publishStorage env m aliased ensured actor
  | .claimStorageAlias g aliasHash owner =>
    match s.calls g, s.mutex with
    | none, none =>
      match s.catalog.table.find owner with
      | none => s.setCall g ⟨owner, [], .returned (some .conflict)⟩
      | some m =>
        if claimsConflict env.fold s.claims owner (nonemptyPaths m.root) then
          s.setCall g ⟨owner, [], .returned (some .conflict)⟩
        else { s.setCall g ⟨owner, [], .checked aliasHash m.root⟩ with mutex := some g }
    | _, _ => s
  | .insertAlias g =>
    match s.calls g with
    | some call =>
      match call.point with
      | .checked aliasHash _ =>
        (s.setTable (s.catalog.table.claimStorageAlias aliasHash call.hash).1).leave g call none
      | _ => s
    | none => s
  | .commit table rest bumps =>
    { s with catalog := ⟨s.catalog.version + bumps + 1, table, rest⟩ }

def init (catalog : OwnershipCatalog κ) : ReservationState κ :=
  ⟨catalog, [], none, fun _ => none, 0, []⟩

def run (catalog : OwnershipCatalog κ) (as : List (ReservationAction κ φ)) : ReservationState κ :=
  exec (step env) (init catalog) as

end ReservationState

end TorrentHub
