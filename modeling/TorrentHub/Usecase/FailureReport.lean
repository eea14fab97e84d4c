import TorrentHub.Lib.Run
import TorrentHub.Repository.Recovery

namespace TorrentHub
open Lib

/-- The causes that `saveRecoveryFailure` tells apart, in the order of its switch. -/
inductive FailureCause where
  | conflict
  | busy
  | candidateChanged
  | diskFull
  | publicationFlush
  | unsafeFile
  | exists
  | notExist
  | unsupported
  | other
deriving DecidableEq

def FailureCause.annotation : FailureCause → FailureCode × String
  | .busy => (.operationBusy, "Another migration is active; retry after it finishes")
  | .candidateChanged => (.candidateChanged, "Candidate changed; analyze again before applying")
  | .diskFull => (.diskFull, "Insufficient free space; candidates preserved")
  | .publicationFlush => (.flushFailed,
      "Flush failed; publication may already have completed; retry the journal without deleting retained copies")
  | .unsafeFile => (.unsafeCandidate, "Unsafe candidate rejected; no automatic cleanup")
  | .exists => (.targetExists, "Recovery target already exists; no replacement performed")
  | .notExist => (.candidateMissing, "Candidate missing; inspect retained copies before retry")
  | .unsupported => (.operationUnsupported, "Filesystem does not support safe publication")
  | .conflict | .other =>
    (.ioError, "Recovery I/O failed; candidates preserved; retry the current operation")

/-- The first half of `saveRecoveryFailure`: the row that it read, with the annotation that it
is going to save. -/
def failureReport (t : RecoveryTable) (id : String) (version : Int) (cause : FailureCause) :
    Option RecoveryState :=
  if cause = .conflict then none
  else match t.row with
    | none => none
    | some row =>
      if row.recordID ≠ id ∨ row.version ≠ version ∧ row.version ≠ version + 1 then none
      else some { row with failureCode := cause.annotation.1, error := cause.annotation.2 }

structure ReportState where
  table : RecoveryTable
  reports : List RecoveryState
deriving DecidableEq

inductive ReportAction where
  | read (id : String) (version : Int) (cause : FailureCause)
  | save (index : Nat)
  | transact (a : RecoveryTransaction)
deriving DecidableEq

namespace ReportState

def init : ReportState := ⟨⟨none, none⟩, []⟩

def step (s : ReportState) : ReportAction → ReportState
  | .read id version cause =>
    match failureReport s.table id version cause with
    | some report => { s with reports := s.reports ++ [report] }
    | none => s
  | .save index =>
    match s.reports[index]? with
    | some report => ⟨s.table.saveRecovery report, s.reports.eraseIdx index⟩
    | none => s
  | .transact a => { s with table := s.table.transact a }

def run (as : List ReportAction) : ReportState := exec step init as

/-- The row, if `SaveRecovery` takes the report, still says what the report read of it. -/
def Undisturbed (t : RecoveryTable) (report : RecoveryState) : Prop :=
  t.record = some report.recordID →
    match t.row with
    | none => False
    | some row => row.recordID = report.recordID → row.version = report.version →
        row.reason = report.reason ∧ row.stage = report.stage ∧ row.removed = report.removed ∧
          row.journal = report.journal

instance (t : RecoveryTable) (report : RecoveryState) : Decidable (Undisturbed t report) := by
  unfold Undisturbed
  cases t.row <;> infer_instance

def Clear (s : ReportState) : ReportAction → Prop
  | .save index => ∀ report ∈ s.reports[index]?, Undisturbed s.table report
  | _ => True

instance (s : ReportState) (a : ReportAction) : Decidable (s.Clear a) := by
  cases a <;> unfold Clear <;> infer_instance

variable {s : ReportState} {t : RecoveryTable} {report : RecoveryState}

theorem facts_saveRecovery_iff :
    (t.saveRecovery report).facts = t.facts ↔ Undisturbed t report := by
  obtain ⟨record, row⟩ := t
  unfold RecoveryTable.saveRecovery Undisturbed
  by_cases hrecord : record = some report.recordID
  · cases row with
    | none => simp [hrecord, RecoveryTable.facts]
    | some row =>
      by_cases hid : row.recordID = report.recordID
      · by_cases hversion : row.version = report.version
        · simp only [hrecord, hid, hversion, beq_self_eq_true, Bool.and_self, if_true,
            RecoveryTable.facts, RecoveryTable.overwritten, RecoveryState.facts, Option.map_some,
            RecoveryTable.mk.injEq, Option.some.injEq, RecoveryState.mk.injEq, true_and, and_true,
            forall_const]
          constructor
          · rintro ⟨hreason, hstage, hremoved, hjournal⟩
            exact ⟨hreason.symm, hstage.symm, hremoved.symm, hjournal.symm⟩
          · rintro ⟨hreason, hstage, hremoved, hjournal⟩
            exact ⟨hreason.symm, hstage.symm, hremoved.symm, hjournal.symm⟩
        · simp [hrecord, hversion]
      · simp [hrecord, hid]
  · simp [hrecord]

def silenced (as : List ReportAction) : List RecoveryTransaction :=
  as.filterMap fun a => match a with
    | .transact a => some a
    | _ => none

theorem facts_exec (as : List ReportAction) {t : RecoveryTable} (h : s.table.facts = t.facts)
    (hclear : Along step Clear s as) :
    (exec step s as).table.facts = (exec RecoveryTable.transact t (silenced as)).facts := by
  induction as generalizing s t with
  | nil => exact h
  | cons a as ih =>
    obtain ⟨ha, has⟩ := hclear
    cases a with
    | read id version cause =>
      refine ih ?_ has
      simp only [step]
      split <;> exact h
    | save index =>
      refine ih ?_ has
      simp only [step]
      split
      next report hreport => exact (facts_saveRecovery_iff.2 (ha report hreport)).trans h
      · exact h
    | transact a => exact ih (RecoveryTable.facts_transact_congr h a) has

/-- In a run in which no row changes between the halves of a report, apart from changes that the
fence notices, reports leave the facts of the row; a save that does not meet the condition changes
them. -/
theorem reports_annotate (as : List ReportAction) :
    (∀ index, ((run as).step (.save index)).table.facts = (run as).table.facts ↔
      (run as).Clear (.save index)) ∧
    (Along step Clear init as →
      (run as).table.facts = (exec RecoveryTable.transact init.table (silenced as)).facts) := by
  refine ⟨?_, fun hclear => facts_exec as rfl hclear⟩
  intro index
  simp only [step, Clear]
  cases hreport : (run as).reports[index]? with
  | none => simp
  | some report =>
    simp only [Option.mem_some_iff, forall_eq']
    exact facts_saveRecovery_iff

/-- A report of a failed job on the row of a deletion, with nothing between its two halves. -/
def quietReport : List ReportAction :=
  [.transact (.createTorrent "r"), .transact (.deletionIntent .payload), .read "r" 0 .diskFull,
    .save 0, .transact (.requestDeletionCancel "r" 1)]

theorem quietReport_annotates :
    Along step Clear init quietReport ∧
    (run quietReport).table.row.map RecoveryState.failureCode = some .diskFull ∧
    (run quietReport).table.facts
      = (exec RecoveryTable.transact init.table (silenced quietReport)).facts :=
  ⟨by decide, by decide, (reports_annotate quietReport).2 (by decide)⟩

/-- A job fails while its record is being deleted: the cancellation is committed after the report
has read the row, and the report puts the old stage back. -/
def undoneCancel : List ReportAction :=
  [.transact (.createTorrent "r"), .transact (.saveRecovery
      ⟨"r", 1, .other "legacy_conflict", .other "conflict", .unknown, "", "", .none, .none⟩),
    .transact (.deletionIntent .payload), .read "r" 1 .other,
    .transact (.requestDeletionCancel "r" 2), .save 0]

theorem undoneCancel_stage :
    ((run (undoneCancel.take 5)).table.row.map RecoveryState.stage,
      (run undoneCancel).table.row.map RecoveryState.stage)
      = (some .cancelRequested, some .intent) := by
  decide

end ReportState

end TorrentHub
