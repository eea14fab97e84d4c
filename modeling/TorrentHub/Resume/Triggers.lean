import TorrentHub.Resume.Tables

namespace TorrentHub
open Lib

inductive Bumped (head head' : Option ResumeOwner) : Prop where
  | same (h : head' = head)
  | fenced (o o' : ResumeOwner) (ho : head = some o) (ho' : head' = some o')
    (hinvalidated : o'.invalidated = true) (hepoch : o.epoch < o'.epoch)

theorem Bumped.trans (hab : Bumped a b) (hbc : Bumped b c) : Bumped a c := by
  cases hab with
  | same h =>
    subst h
    exact hbc
  | fenced o o' ho ho' hi he =>
    cases hbc with
    | same h => exact .fenced o o' ho (h.trans ho') hi he
    | fenced p p' hp hp' hi' he' =>
      rw [ho'] at hp
      cases hp
      exact .fenced o p' ho hp' hi' (Int.lt_trans he he')

structure Fenced (db db' : ResumeDB) : Prop where
  checkpoints : db'.checkpoints = db.checkpoints
  owners : ∀ id, Bumped (db.owners.find id) (db'.owners.find id)

theorem Fenced.refl (db : ResumeDB) : Fenced db db := ⟨rfl, fun _ => .same rfl⟩

theorem Fenced.trans (hab : Fenced a b) (hbc : Fenced b c) : Fenced a c :=
  ⟨hbc.checkpoints.trans hab.checkpoints, fun id => (hab.owners id).trans (hbc.owners id)⟩

/-- The database that a statement leaves, if it succeeds, is fenced against `db`. -/
def Fences (db : ResumeDB) (result : Except SqlError ResumeDB) : Prop :=
  ∀ db', result = .ok db' → Fenced db db'

variable {db : ResumeDB} {x : Except SqlError ResumeDB} {f : ResumeDB → Except SqlError ResumeDB}

theorem Fences.ok (h : Fenced db db') : Fences db (.ok db') := by
  intro db₁ h₁
  cases h₁
  exact h

theorem Fences.error : Fences db (.error err) := by
  intro db' h
  cases h

theorem Fences.when [Decidable p] (hx : Fences db x) : Fences db (if p then x else .ok db) := by
  split
  · exact hx
  · exact .ok (.refl db)

theorem Fences.bind (hx : Fences db x) (hf : ∀ db', Fences db' (f db')) : Fences db (x >>= f) := by
  intro db₂ h
  cases x with
  | error err => cases h
  | ok db₁ => exact (hx db₁ rfl).trans (hf db₁ db₂ h)

theorem Fences.stored {α : Type} {rows : Option α} {g : α → Except SqlError ResumeDB}
    (hg : ∀ a, Fences db (g a)) : Fences db (stored rows >>= g) := by
  cases rows with
  | none => exact .error
  | some a => exact hg a

theorem Fences.library (library : Library) : Fences db (.ok { db with library }) :=
  .ok ⟨rfl, fun _ => .same rfl⟩

namespace ResumeDB

variable (db : ResumeDB)

theorem fenceOwners_fences (guard scope : ResumeOwner → Bool) :
    Fences db (db.fenceOwners guard scope) := by
  unfold fenceOwners
  split
  · exact .error
  cases hu : db.owners.updateWhere scope ResumeOwner.fenced with
  | none => exact .error
  | some owners =>
    refine .ok ⟨rfl, fun id => ?_⟩
    change Bumped _ (owners.find id)
    rw [Table.find_updateWhere hu fun _ _ => rfl]
    cases ho : db.owners.find id with
    | none => exact .same rfl
    | some o =>
      rw [Option.map_some]
      split
      · exact .fenced o o.fenced rfl rfl rfl (Int.lt_succ o.epoch)
      · exact .same rfl

theorem resumeMappingChange_fences (old new : StorageMapping) :
    Fences db (db.resumeMappingChange old new) :=
  .when (db.fenceOwners_fences _ _)

theorem resumeMappingWorkflow_fences (old new : StorageMapping) :
    Fences db (db.resumeMappingWorkflow old new) :=
  .when (db.fenceOwners_fences _ _)

theorem resumeRecordChange_fences (old new : IntentRow) :
    Fences db (db.resumeRecordChange old new) :=
  .when (db.fenceOwners_fences _ _)

theorem resumeDeletionIntent_fences (old new : TorrentRow) :
    Fences db (db.resumeDeletionIntent old new) :=
  .when (db.fenceOwners_fences _ _)

theorem resumeJournalWrite_fences (new : JournalRow) : Fences db (db.resumeJournalWrite new) :=
  .when (db.fenceOwners_fences _ _)

theorem writeMapping_fences (new : StorageMapping) : Fences db (db.writeMapping new) :=
  .stored fun _ => .library _

theorem storageMappingRevision_fences (old new : StorageMapping) :
    Fences db (db.storageMappingRevision old new) := by
  apply Fences.when
  split
  · exact .error
  · exact (db.resumeMappingChange_fences _ _).bind fun db => db.writeMapping_fences _

theorem updateMapping_fences (new : StorageMapping) : Fences db (db.updateMapping new) := by
  unfold updateMapping
  split
  · exact .ok (.refl db)
  next old _ =>
  apply (db.resumeMappingChange_fences old new).bind
  intro db
  apply (db.resumeMappingWorkflow_fences old new).bind
  intro db
  apply (db.writeMapping_fences new).bind
  intro db
  exact db.storageMappingRevision_fences old new

theorem deleteMapping_fences (hash : Bytes) : Fences db (db.deleteMapping hash) := by
  unfold deleteMapping
  split
  · exact .ok (.refl db)
  apply (db.fenceOwners_fences _ _).bind
  intro db
  exact .stored fun _ => .library _

theorem updateIntent_fences (new : IntentRow) : Fences db (db.updateIntent new) := by
  unfold updateIntent
  split
  · exact .ok (.refl db)
  apply (db.resumeRecordChange_fences _ _).bind
  intro db
  exact .stored fun _ => .library _

theorem deleteIntent_fences (hash : Bytes) : Fences db (db.deleteIntent hash) := by
  unfold deleteIntent
  split
  · exact .ok (.refl db)
  apply (db.fenceOwners_fences _ _).bind
  intro db
  exact .stored fun _ => .library _

theorem insertJournal_fences (new : JournalRow) : Fences db (db.insertJournal new) := by
  apply (db.resumeJournalWrite_fences new).bind
  intro db
  exact .stored fun _ => .library _

theorem updateJournal_fences (new : JournalRow) : Fences db (db.updateJournal new) := by
  unfold updateJournal
  split
  · exact .ok (.refl db)
  apply (db.resumeJournalWrite_fences new).bind
  intro db
  exact .stored fun _ => .library _

theorem recoveryDeletionIntent_fences (old new : TorrentRow) :
    Fences db (db.recoveryDeletionIntent old new) := by
  apply Fences.when
  split
  · exact .ok (.refl db)
  simp only
  split
  · exact db.insertJournal_fences _
  · exact (db.resumeJournalWrite_fences _).bind fun db => db.updateJournal_fences _

theorem updateTorrent_fences (new : TorrentRow) : Fences db (db.updateTorrent new) := by
  unfold updateTorrent
  split
  · exact .ok (.refl db)
  apply (db.resumeDeletionIntent_fences _ _).bind
  intro db
  apply Fences.stored
  intro torrents
  exact (Fences.library _).bind fun db => db.recoveryDeletionIntent_fences _ _

theorem deleteTorrent_fences (hash : Bytes) : Fences db (db.deleteTorrent hash) := by
  apply (db.deleteIntent_fences hash).bind
  intro db
  refine Fences.bind (.stored fun _ => .library _) ?_
  intro db
  exact .stored fun _ => .library _

theorem insertTorrent_fences (new : TorrentRow) (recordID : Bytes) :
    Fences db (db.insertTorrent new recordID) := by
  apply Fences.stored
  intro torrents
  apply Fences.stored
  intro intents
  exact .library _

end ResumeDB

theorem ResumeChange.apply_fences (db : ResumeDB) (change : ResumeChange) :
    Fences db (ResumeChange.apply db change) := by
  cases change with
  | insertMapping new | insertIntent new | deleteJournal hash => exact .stored fun _ => .library _
  | updateMapping new => exact db.updateMapping_fences new
  | deleteMapping hash => exact db.deleteMapping_fences hash
  | updateIntent new => exact db.updateIntent_fences new
  | deleteIntent hash => exact db.deleteIntent_fences hash
  | insertJournal new => exact db.insertJournal_fences new
  | updateJournal new => exact db.updateJournal_fences new
  | insertTorrent new recordID => exact db.insertTorrent_fences new recordID
  | updateTorrent new => exact db.updateTorrent_fences new
  | deleteTorrent hash => exact db.deleteTorrent_fences hash

theorem ResumeDB.change_fences (db : ResumeDB) (changes : List ResumeChange) :
    Fences db (db.change changes) := by
  induction changes generalizing db with
  | nil => exact .ok (.refl db)
  | cons change changes ih => exact (change.apply_fences db).bind ih

end TorrentHub
