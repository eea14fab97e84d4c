import Mathlib.Data.List.Basic
import TorrentHub.Storage

namespace TorrentHub

inductive Stage where
  | planning | planned | queued | waitingReaders | prepared | copying | publishing | published
  | committed | cleanup | completed | cancelRequested | cancelled | analyzingLocation | analyzed
  | other (text : String)
deriving DecidableEq

inductive RecoveryReason where
  | move | locate | recoveryComplete
  | other (text : String)
deriving DecidableEq

/-- The method column; `unset` is the empty text of a journal not yet planned. -/
inductive MoveMethod where
  | unset | rename | copy | locate
deriving DecidableEq

structure RecoveryFingerprint where
  identity : String
  size : Int
  modified : Int
  digest : String
deriving DecidableEq

structure StorageMoveEntry where
  source : String
  target : String
  evidence : RecoveryFingerprint
  copyIdentity : String := ""
  removed : Bool := false
deriving DecidableEq

structure LocationAnalysis where
  validPieces : Nat
  totalPieces : Nat
  foundFiles : Nat
  missingFiles : Nat
deriving DecidableEq

def locationMatches : Option LocationAnalysis → Bool
  | none => false
  | some a =>
    decide (0 < a.validPieces) ||
      (a.totalPieces == 0 && decide (0 < a.foundFiles) && a.missingFiles == 0)

/-- The journal of a move or locate, without what only the file system checks read. The mapping
planned from and the planned layout never change; `sourceRoot` is the root of the one as text. -/
structure StorageLocationJournal where
  source : Option StorageMapping := none
  target : Layout := ⟨0, [], []⟩
  sourceRoot : String := ""
  analysis : Option LocationAnalysis := none
  cleanupPath : String := ""
  cleanupIdentity : String := ""
  copiesComplete : Bool := false
  stagingIdentity : String := ""
  entries : List StorageMoveEntry := []
  method : MoveMethod := .unset
deriving DecidableEq

inductive Fact where
  | staging (identity : String)
  | copied (index : Nat) (source identity : String)
  | removed (index : Nat) (source : String)
  | copiesComplete
  | cleanupPath (path : String)
  | cleanupIdentity (identity : String)
  | copyMethod
deriving DecidableEq

namespace StorageLocationJournal

def records (j : StorageLocationJournal) : Fact → Bool
  | .staging identity => identity != "" && j.stagingIdentity == identity
  | .copied index source identity =>
    identity != "" &&
      j.entries[index]?.any (fun e => e.source == source && e.copyIdentity == identity)
  | .removed index source => j.entries[index]?.any (fun e => e.source == source && e.removed)
  | .copiesComplete => j.copiesComplete
  | .cleanupPath path => path != "" && j.cleanupPath == path
  | .cleanupIdentity identity => identity != "" && j.cleanupIdentity == identity
  | .copyMethod => j.method == .copy

/-- Every fact of `a` is still in `b`. -/
def Extends (a b : StorageLocationJournal) : Prop := ∀ f, a.records f = true → b.records f = true

variable {a b c : StorageLocationJournal}

theorem Extends.refl (a : StorageLocationJournal) : Extends a a := fun _ h => h

theorem Extends.trans (hab : Extends a b) (hbc : Extends b c) : Extends a c :=
  fun f h => hbc f (hab f h)

def EntryExtends (e e' : StorageMoveEntry) : Prop :=
  e'.source = e.source ∧ (e.copyIdentity ≠ "" → e'.copyIdentity = e.copyIdentity) ∧
    (e.removed = true → e'.removed = true)

theorem Extends.of_fields
    (hstaging : a.stagingIdentity ≠ "" → b.stagingIdentity = a.stagingIdentity)
    (hentries : ∀ (i : Nat) (e : StorageMoveEntry), a.entries[i]? = some e →
      ∃ e', b.entries[i]? = some e' ∧ EntryExtends e e')
    (hcopies : a.copiesComplete = true → b.copiesComplete = true)
    (hpath : a.cleanupPath ≠ "" → b.cleanupPath = a.cleanupPath)
    (hidentity : a.cleanupIdentity ≠ "" → b.cleanupIdentity = a.cleanupIdentity)
    (hmethod : a.method = .copy → b.method = .copy) : Extends a b := by
  intro f h
  cases f with
  | staging identity =>
    simp only [records, Bool.and_eq_true, bne_iff_ne, beq_iff_eq] at h ⊢
    obtain ⟨hne, rfl⟩ := h
    exact ⟨hne, hstaging hne⟩
  | copied index source identity =>
    simp only [records, Bool.and_eq_true, bne_iff_ne, Option.any_eq_true, beq_iff_eq] at h ⊢
    obtain ⟨hne, e, he, rfl, rfl⟩ := h
    obtain ⟨e', he', hsource, hcopy, -⟩ := hentries index e he
    exact ⟨hne, e', he', hsource, hcopy hne⟩
  | removed index source =>
    simp only [records, Option.any_eq_true, Bool.and_eq_true, beq_iff_eq] at h ⊢
    obtain ⟨e, he, rfl, hr⟩ := h
    obtain ⟨e', he', hsource, -, hremoved⟩ := hentries index e he
    exact ⟨e', he', hsource, hremoved hr⟩
  | copiesComplete => exact hcopies h
  | cleanupPath path =>
    simp only [records, Bool.and_eq_true, bne_iff_ne, beq_iff_eq] at h ⊢
    obtain ⟨hne, rfl⟩ := h
    exact ⟨hne, hpath hne⟩
  | cleanupIdentity identity =>
    simp only [records, Bool.and_eq_true, bne_iff_ne, beq_iff_eq] at h ⊢
    obtain ⟨hne, rfl⟩ := h
    exact ⟨hne, hidentity hne⟩
  | copyMethod =>
    simp only [records, beq_iff_eq] at h ⊢
    exact hmethod h

theorem EntryExtends.refl (e : StorageMoveEntry) : EntryExtends e e := ⟨rfl, fun _ => rfl, id⟩

/-- `ensureLocationStaging` gives the directory an identity once. -/
def ensureStaging (j : StorageLocationJournal) (identity : String) : StorageLocationJournal :=
  if j.stagingIdentity = "" then { j with stagingIdentity := identity } else j

section

variable (j : StorageLocationJournal)

theorem extends_ensureStaging (identity : String) : Extends j (j.ensureStaging identity) := by
  unfold ensureStaging
  split
  next hs =>
    exact .of_fields (fun hne => absurd hs hne) (fun _ e he => ⟨e, he, .refl e⟩) id (fun _ => rfl)
      (fun _ => rfl) id
  · exact .refl j

def batchSize : Nat := 64

/-- An entry of the batch from `start` whose copy has no identity yet. -/
def unstamped (start index : Nat) (e : StorageMoveEntry) : Bool :=
  decide (start ≤ index) && decide (index < start + batchSize) && e.copyIdentity == ""

def stampEntry (start : Nat) (identities : Nat → String) (index : Nat) (e : StorageMoveEntry) :
    StorageMoveEntry :=
  if unstamped start index e then { e with copyIdentity := identities index } else e

def stampBatch (j : StorageLocationJournal) (start : Nat) (identities : Nat → String) :
    StorageLocationJournal :=
  { j with entries := j.entries.mapIdx (stampEntry start identities) }

theorem entryExtends_stampEntry (start : Nat) (identities : Nat → String) (index : Nat)
    (e : StorageMoveEntry) : EntryExtends e (stampEntry start identities index e) := by
  unfold stampEntry
  split
  next h =>
    simp only [unstamped, Bool.and_eq_true, beq_iff_eq] at h
    exact ⟨rfl, fun hne => absurd h.2 hne, id⟩
  · exact .refl e

theorem extends_stampBatch (start : Nat)
    (identities : Nat → String) : Extends j (j.stampBatch start identities) := by
  refine .of_fields (fun _ => rfl) ?_ id (fun _ => rfl) (fun _ => rfl) id
  intro i e he
  refine ⟨stampEntry start identities i e, ?_, entryExtends_stampEntry start identities i e⟩
  simp only [stampBatch, List.getElem?_mapIdx, he, Option.map_some]

def batchChanged (j : StorageLocationJournal) (start : Nat) : Bool :=
  (j.entries.mapIdx (unstamped start)).any id

def completeCopies (j : StorageLocationJournal) : StorageLocationJournal :=
  { j with copiesComplete := true }

theorem extends_completeCopies : Extends j j.completeCopies :=
  .of_fields (fun _ => rfl) (fun _ e he => ⟨e, he, .refl e⟩) (fun _ => rfl) (fun _ => rfl)
    (fun _ => rfl) id

def switchToCopy (j : StorageLocationJournal) : StorageLocationJournal := { j with method := .copy }

theorem extends_switchToCopy : Extends j j.switchToCopy :=
  .of_fields (fun _ => rfl) (fun _ e he => ⟨e, he, .refl e⟩) id (fun _ => rfl) (fun _ => rfl)
    (fun _ => rfl)

def withCleanupPath (j : StorageLocationJournal) (recordID : String) (version : Nat) :
    StorageLocationJournal :=
  if j.cleanupPath = "" then
    { j with cleanupPath := j.sourceRoot ++ "/.tsh-cleanup-" ++ recordID ++ "-" ++
        toString version }
  else j

theorem extends_withCleanupPath (recordID : String)
    (version : Nat) : Extends j (j.withCleanupPath recordID version) := by
  unfold withCleanupPath
  split
  next hp =>
    exact .of_fields (fun _ => rfl) (fun _ e he => ⟨e, he, .refl e⟩) id
      (fun hne => absurd hp hne) (fun _ => rfl) id
  · exact .refl j

def withCleanupIdentity (j : StorageLocationJournal) (identity : String) :
    StorageLocationJournal :=
  if j.cleanupIdentity = "" then { j with cleanupIdentity := identity } else j

theorem extends_withCleanupIdentity (identity : String) :
    Extends j (j.withCleanupIdentity identity) := by
  unfold withCleanupIdentity
  split
  next hi =>
    exact .of_fields (fun _ => rfl) (fun _ e he => ⟨e, he, .refl e⟩) id (fun _ => rfl)
      (fun hne => absurd hi hne) id
  · exact .refl j

def removeEntry (j : StorageLocationJournal) (index : Nat) : StorageLocationJournal :=
  { j with entries := j.entries.modify index fun e => { e with removed := true } }

theorem extends_removeEntry (index : Nat) : Extends j (j.removeEntry index) := by
  refine .of_fields (fun _ => rfl) ?_ id (fun _ => rfl) (fun _ => rfl) id
  intro i e he
  simp only [removeEntry, List.getElem?_modify, he]
  split
  · exact ⟨{ e with removed := true }, rfl, rfl, fun _ => rfl, fun _ => rfl⟩
  · exact ⟨e, rfl, .refl e⟩

end

structure Plan where
  files : List (String × String × RecoveryFingerprint) := []
  rename : Bool := false
deriving DecidableEq

def planned (j : StorageLocationJournal) (plan : Plan) : StorageLocationJournal :=
  { j with
    entries := plan.files.map fun f => { source := f.1, target := f.2.1, evidence := f.2.2 }
    method := if plan.rename then .rename else .copy }

def analyzed (j : StorageLocationJournal) (analysis : LocationAnalysis) :
    StorageLocationJournal :=
  { j with analysis := some analysis, method := .locate }

end StorageLocationJournal

end TorrentHub
