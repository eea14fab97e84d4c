import TorrentHub.Repository.Deletion

namespace TorrentHub

/-- The column `reason` of `storage_recovery`. -/
inductive StorageReason where
  | deletionPending
  | deletionCancelled
  | other (text : String)
deriving DecidableEq

/-- The column `stage`, with the stages that a statement of the table names. -/
inductive StorageStage where
  | intent
  | cancelRequested
  | cancelled
  | published
  | committed
  | other (text : String)
deriving DecidableEq

inductive FailureCode where
  | none
  | ioError
  | operationBusy
  | candidateChanged
  | diskFull
  | flushFailed
  | unsafeCandidate
  | targetExists
  | candidateMissing
  | operationUnsupported
  | other (text : String)
deriving DecidableEq

structure RecoveryState where
  recordID : String
  version : Int
  reason : StorageReason
  stage : StorageStage
  removed : RemovedData
  error : String
  journal : String
  failureCode : FailureCode
  mode : DeletionMode
deriving DecidableEq

structure RecoveryTable where
  record : Option String
  row : Option RecoveryState
deriving DecidableEq

namespace RecoveryTable

def maxVersion : Int := 9223372036854775807

variable (t : RecoveryTable)

/-- `UPDATE … WHERE`: the row is rewritten where it passes the conditions. -/
def update (p : RecoveryState → Bool) (f : RecoveryState → RecoveryState) : RecoveryTable :=
  match t.row with
  | some row => if p row then { t with row := some (f row) } else t
  | none => t

/-- The row that `SaveRecovery` inserts; the mode has its default. -/
def inserted (v : RecoveryState) : RecoveryState := { v with mode := .none }

/-- The columns that `SaveRecovery` writes over a row of the same record and version. -/
def overwritten (v row : RecoveryState) : RecoveryState :=
  { row with
    reason := v.reason, stage := v.stage, removed := v.removed, error := v.error
    journal := v.journal, failureCode := v.failureCode }

def saveRecovery (v : RecoveryState) : RecoveryTable :=
  if t.record == some v.recordID then
    match t.row with
    | none => { t with row := some (inserted v) }
    | some row =>
      if row.recordID == v.recordID && row.version == v.version then
        { t with row := some (overwritten v row) }
      else t
  else t

def nextRecoveryVersion (id : String) (version : Int) : RecoveryTable :=
  t.update (fun row => row.recordID == id && row.version == version && row.version < maxVersion)
    fun row => { row with version := row.version + 1 }

def clearRecovery (id : String) (version : Int) : RecoveryTable :=
  match t.row with
  | some row => if row.recordID == id && row.version == version then { t with row := none } else t
  | none => t

def requestDeletionCancel (id : String) (version : Int) : RecoveryTable :=
  t.update
    (fun row => row.recordID == id && row.version == version &&
      (row.reason == .deletionPending ||
        row.reason == .deletionCancelled && row.stage == .cancelled))
    fun row => { row with stage := if row.stage = .cancelled then row.stage else .cancelRequested }

def completeDeletionCancel (id : String) (version : Int) : RecoveryTable :=
  t.update
    (fun row => row.recordID == id && row.version == version &&
      (row.stage == .cancelRequested || row.stage == .cancelled))
    fun row => { row with reason := .deletionCancelled, stage := .cancelled, error := "" }

def advanceDeletion (id : String) (stage : StorageStage) (removed : Option RemovedData) :
    RecoveryTable :=
  t.update
    (fun row => row.recordID == id && row.reason == .deletionPending &&
      row.stage != .cancelRequested && row.stage != .cancelled)
    fun row => { row with stage, removed := removed.getD row.removed }

def markDeletionPartial (id : String) : RecoveryTable :=
  t.update (fun row => row.recordID == id && row.reason == .deletionPending)
    fun row => { row with removed := .part }

/-- The trigger `recovery_deletion_intent`. -/
def deletionIntent (mode : DeletionMode) : RecoveryTable :=
  match t.record, t.row with
  | some id, none =>
    { t with row := some ⟨id, 1, .deletionPending, .intent, .none, "", "", .none, mode⟩ }
  | some _, some row =>
    let next : RecoveryState :=
      { row with
        version := row.version + 1, reason := .deletionPending, stage := .intent, removed := .none
        error := "", failureCode := .none, mode }
    { t with row := some next }
  | none, _ => t

/-- The version that `CreateStorageOperation` finds, zero where the record has no row. -/
def versionOf (id : String) : Int :=
  match t.row with
  | some row => if row.recordID = id then row.version else 0
  | none => 0

def createStorageOperation (v : RecoveryState) (previous : Int) : RecoveryTable :=
  if t.versionOf v.recordID != previous || v.version != t.versionOf v.recordID + 1 ||
      v.version < 1 then t
  else match t.row with
    | none =>
      let next : RecoveryState :=
        ⟨v.recordID, v.version, v.reason, v.stage, .unknown, "", v.journal, .none, .none⟩
      { t with row := some next }
    | some row =>
      let next : RecoveryState :=
        { row with
          version := v.version, reason := v.reason, stage := v.stage, journal := v.journal
          error := "", failureCode := .none }
      { t with row := some next }

def transitionStorageOperation (v : RecoveryState) (source : StorageStage) : RecoveryTable :=
  t.update
    (fun row => row.recordID == v.recordID && row.version == v.version && row.reason == v.reason &&
      row.stage == source)
    fun row => { row with
      stage := v.stage, journal := v.journal, error := v.error, failureCode := v.failureCode }

def commitStorageOperation (v : RecoveryState) : RecoveryTable :=
  t.update
    (fun row => row.recordID == v.recordID && row.version == v.version && row.reason == v.reason &&
      row.stage == .published)
    fun row => { row with
      stage := .committed, error := "", failureCode := .none, journal := v.journal }

def finishStorageOperation (v : RecoveryState) (source : StorageStage) : RecoveryTable :=
  t.update
    (fun row => row.recordID == v.recordID && row.version == v.version && row.reason == v.reason &&
      row.stage == source)
    fun row => { row with
      stage := v.stage, journal := v.journal, error := "", failureCode := .none }

/-- `DeleteTorrent`, which takes the row with it. -/
def deleteTorrent (deleting : Bool) : RecoveryTable :=
  if deleting && t.row.any (fun row => row.stage == .cancelRequested) then t else ⟨none, none⟩

def createTorrent (id : String) : RecoveryTable :=
  if t.record.isSome then t else { t with record := some id }

end RecoveryTable

/-- Where the source checks the storage fence first, a refusal is no statement at all. -/
inductive RecoveryTransaction where
  | saveRecovery (v : RecoveryState)
  | nextRecoveryVersion (id : String) (version : Int)
  | clearRecovery (id : String) (version : Int)
  | requestDeletionCancel (id : String) (version : Int)
  | completeDeletionCancel (id : String) (version : Int)
  | advanceDeletion (id : String) (stage : StorageStage) (removed : Option RemovedData)
  | markDeletionPartial (id : String)
  | deletionIntent (mode : DeletionMode)
  | createStorageOperation (v : RecoveryState) (previous : Int)
  | transitionStorageOperation (v : RecoveryState) (source : StorageStage)
  | commitStorageOperation (v : RecoveryState)
  | finishStorageOperation (v : RecoveryState) (source : StorageStage)
  | deleteTorrent (deleting : Bool)
  | createTorrent (id : String)
deriving DecidableEq

def RecoveryTable.transact (t : RecoveryTable) : RecoveryTransaction → RecoveryTable
  | .saveRecovery v => t.saveRecovery v
  | .nextRecoveryVersion id version => t.nextRecoveryVersion id version
  | .clearRecovery id version => t.clearRecovery id version
  | .requestDeletionCancel id version => t.requestDeletionCancel id version
  | .completeDeletionCancel id version => t.completeDeletionCancel id version
  | .advanceDeletion id stage removed => t.advanceDeletion id stage removed
  | .markDeletionPartial id => t.markDeletionPartial id
  | .deletionIntent mode => t.deletionIntent mode
  | .createStorageOperation v previous => t.createStorageOperation v previous
  | .transitionStorageOperation v source => t.transitionStorageOperation v source
  | .commitStorageOperation v => t.commitStorageOperation v
  | .finishStorageOperation v source => t.finishStorageOperation v source
  | .deleteTorrent deleting => t.deleteTorrent deleting
  | .createTorrent id => t.createTorrent id

def RecoveryState.facts (row : RecoveryState) : RecoveryState :=
  { row with error := "", failureCode := .none }

namespace RecoveryTable

def facts (t : RecoveryTable) : RecoveryTable := { t with row := t.row.map RecoveryState.facts }

variable {t : RecoveryTable}

theorem facts_update (hp : ∀ row, p row.facts = p row)
    (hf : ∀ row, (f row.facts).facts = (f row).facts) :
    (t.facts.update p f).facts = (t.update p f).facts := by
  obtain ⟨record, row⟩ := t
  cases row with
  | none => rfl
  | some row =>
    simp only [facts, update, Option.map_some, hp]
    split
    · simp only [Option.map_some, hf]
    · rfl

open RecoveryTable

theorem facts_transact (t : RecoveryTable) (a : RecoveryTransaction) :
    (t.facts.transact a).facts = (t.transact a).facts := by
  cases a with
  | saveRecovery v =>
    obtain ⟨record, row⟩ := t
    cases row with
    | none => rfl
    | some row =>
      by_cases hrecord : record = some v.recordID
      · by_cases hfence : row.recordID = v.recordID ∧ row.version = v.version
        · simp [transact, saveRecovery, facts, RecoveryState.facts, overwritten, hrecord, hfence]
        · simp [transact, saveRecovery, facts, RecoveryState.facts, hrecord, hfence]
      · simp [transact, saveRecovery, facts, RecoveryState.facts, hrecord]
  | nextRecoveryVersion id version => exact facts_update (fun _ => rfl) fun _ => rfl
  | clearRecovery id version =>
    obtain ⟨record, row⟩ := t
    cases row with
    | none => rfl
    | some row =>
      by_cases hfence : row.recordID = id ∧ row.version = version
      · simp [transact, clearRecovery, facts, RecoveryState.facts, hfence]
      · simp [transact, clearRecovery, facts, RecoveryState.facts, hfence]
  | requestDeletionCancel id version => exact facts_update (fun _ => rfl) fun _ => rfl
  | completeDeletionCancel id version => exact facts_update (fun _ => rfl) fun _ => rfl
  | advanceDeletion id stage removed => exact facts_update (fun _ => rfl) fun _ => rfl
  | markDeletionPartial id => exact facts_update (fun _ => rfl) fun _ => rfl
  | deletionIntent mode =>
    obtain ⟨record, row⟩ := t
    cases record <;> cases row <;> rfl
  | createStorageOperation v previous =>
    obtain ⟨record, row⟩ := t
    cases row with
    | none => rfl
    | some row =>
      have hversion : (mk record (some row)).facts.versionOf v.recordID
          = (mk record (some row)).versionOf v.recordID := rfl
      simp only [transact, createStorageOperation, hversion]
      split
      · rfl
      · rfl
  | transitionStorageOperation v source => exact facts_update (fun _ => rfl) fun _ => rfl
  | commitStorageOperation v => exact facts_update (fun _ => rfl) fun _ => rfl
  | finishStorageOperation v source => exact facts_update (fun _ => rfl) fun _ => rfl
  | deleteTorrent deleting =>
    obtain ⟨record, row⟩ := t
    cases row with
    | none => rfl
    | some row =>
      have hany : (mk record (some row)).facts.row.any (fun row => row.stage == .cancelRequested)
          = (some row).any (fun row => row.stage == .cancelRequested) := rfl
      simp only [transact, deleteTorrent, hany]
      split
      · rfl
      · rfl
  | createTorrent id =>
    obtain ⟨record, row⟩ := t
    cases record with
    | none | some _ => cases row <;> rfl

theorem facts_transact_congr {t t' : RecoveryTable} (h : t.facts = t'.facts)
    (a : RecoveryTransaction) : (t.transact a).facts = (t'.transact a).facts := by
  rw [← facts_transact t, h, facts_transact t']

end RecoveryTable

end TorrentHub
