import TorrentHub.Move.Location
import TorrentHub.Move.Progress

namespace TorrentHub
open Lib StorageLocationJournal RecoveryRecord Worker List

variable {point : Point} {v : RecoveryRecord}

def StorageLocationJournal.placement (j : StorageLocationJournal) :
    Option StorageMapping × Layout :=
  (j.source, j.target)

structure Operation where
  recordID : String
  version : Nat
  reason : RecoveryReason
  placement : Option StorageMapping × Layout
deriving DecidableEq

def RecoveryRecord.operation (r : RecoveryRecord) : Operation :=
  ⟨r.recordID, r.version, r.reason, r.journal.placement⟩

namespace Stage

def worked : Stage → List Stage
  | .planning => [.planned]
  | .analyzingLocation => [.analyzed]
  | .queued => [.waitingReaders]
  | .waitingReaders => [.prepared]
  | .prepared => [.copying, .publishing]
  | .copying => [.publishing]
  | .publishing => [.published]
  | .committed => [.cleanup, .completed]
  | .cleanup => [.completed]
  | .cancelRequested => [.cancelled]
  | _ => []

def Works (stage stage' : Stage) : Prop := stage' = stage ∨ stage' ∈ stage.worked

def Ordered (stage stage' : Stage) : Prop :=
  stage' = stage ∨ (stage = .planned ∨ stage = .analyzed) ∧ stage' = .queued ∨
    stage.cancellable = true ∧ stage' = .cancelRequested

def Leads (stage stage' : Stage) : Prop :=
  stage.Works stage' ∨ stage.Ordered stage' ∨ stage = .published ∧ stage' = .committed

def settled : Stage → Bool
  | .committed | .cleanup | .completed => true
  | _ => false

def withdrawn : Stage → Bool
  | .cancelRequested | .cancelled => true
  | _ => false

variable {stage stage' : Stage}

theorem Works.refl (stage : Stage) : stage.Works stage := .inl rfl

theorem Works.settled_eq (h : stage.Works stage') : stage'.settled = stage.settled := by
  rcases h with rfl | h
  · rfl
  cases stage <;> simp only [worked, mem_cons, not_mem_nil, or_false] at h
  case prepared | committed => rcases h with rfl | rfl <;> rfl
  all_goals
    subst h
    rfl

theorem Ordered.settled_eq (h : stage.Ordered stage') : stage'.settled = stage.settled := by
  rcases h with rfl | ⟨rfl | rfl, rfl⟩ | ⟨h, rfl⟩
  · rfl
  · rfl
  · rfl
  · cases stage <;> first | rfl | cases h

theorem Leads.settled (h : stage.Leads stage') (hs : stage.settled = true) :
    stage'.settled = true := by
  rcases h with h | h | ⟨rfl, -⟩
  · exact h.settled_eq.trans hs
  · exact h.settled_eq.trans hs
  · cases hs

theorem Leads.withdrawn (h : stage.Leads stage') (hs : stage.withdrawn = true) :
    stage'.withdrawn = true := by
  rcases h with (rfl | h) | (rfl | ⟨rfl | rfl, -⟩ | ⟨-, rfl⟩) | ⟨rfl, -⟩
  · exact hs
  · cases stage <;> simp only [worked, mem_cons, not_mem_nil, or_false] at h
    case cancelRequested =>
      subst h
      rfl
    all_goals cases hs
  · exact hs
  · cases hs
  · cases hs
  · rfl
  · cases hs

theorem Ordered.of_publishing (h : Stage.publishing.Ordered stage') : stage' = .publishing := by
  rcases h with h | ⟨h | h, -⟩ | ⟨h, -⟩
  · exact h
  · cases h
  · cases h
  · cases h

end Stage

section Edits

variable (j : StorageLocationJournal)

theorem placement_stampBatch (start : Nat) (identities : Nat → String) :
    (j.stampBatch start identities).placement = j.placement := rfl

theorem placement_completeCopies : j.completeCopies.placement = j.placement := rfl

theorem placement_switchToCopy : j.switchToCopy.placement = j.placement := rfl

theorem placement_removeEntry (index : Nat) : (j.removeEntry index).placement = j.placement := rfl

theorem placement_planned (plan : Plan) : (j.planned plan).placement = j.placement := rfl

theorem placement_analyzed (analysis : LocationAnalysis) :
    (j.analyzed analysis).placement = j.placement := rfl

theorem placement_ensureStaging (identity : String) :
    (j.ensureStaging identity).placement = j.placement := by
  unfold ensureStaging
  split <;> rfl

theorem placement_withCleanupPath (recordID : String) (version : Nat) :
    (j.withCleanupPath recordID version).placement = j.placement := by
  unfold withCleanupPath
  split <;> rfl

theorem placement_withCleanupIdentity (identity : String) :
    (j.withCleanupIdentity identity).placement = j.placement := by
  unfold withCleanupIdentity
  split <;> rfl

end Edits

def Point.Fits (point : Point) (stage : Stage) : Prop :=
  match point with
  | .copy _ => stage = .copying ∨ stage = .publishing
  | .move => stage = .publishing
  | .clean _ => stage = .cleanup
  | .cancelling _ | .failing _ _ => False
  | _ => True

def Worker.PublishesIn (w : Worker) (r : RecoveryRecord) : Prop :=
  w.v.stage = .publishing → r.version = w.v.version ∧ r.stage = .publishing

def Worker.Stands (w : Worker) (r : RecoveryRecord) : Prop :=
  match w.point with
  | .tail _ => True
  | .cancelling current | .failing current _ => current.operation = w.v.operation
  | point => point.Fits w.v.stage ∧ w.PublishesIn r

structure Worker.Holds (w : Worker) (r : RecoveryRecord) : Prop where
  version : w.v.version ≤ r.version
  operation : w.v.version = r.version → w.v.operation = r.operation
  journal : w.journal.placement = w.v.journal.placement
  located : w.v.reason = .move ∨ w.v.reason = .locate

structure Worker.Sound (w : Worker) (r : RecoveryRecord) : Prop where
  holds : w.Holds r
  stands : w.Stands r

/-- What a worker's step does to the row `r`, as it commits the mapping or not. -/
def Traced (r : RecoveryRecord) (commits : Bool) (result : WorkerResult) : Prop :=
  ∃ r', result.1 = some r' ∧ r'.operation = r.operation ∧
    (if commits then r.stage = .published ∧ r'.stage = .committed else r.stage.Works r'.stage) ∧
    ∀ w, result.2 = some w → w.Sound r'

variable {r r' : RecoveryRecord} {w : Worker} {env : WorkerEnv}

theorem stands_of_fits {j : StorageLocationJournal}
    (hf : point.Fits v.stage) (hp : PublishesIn { v, journal := j, point } r) :
    Stands { v, journal := j, point } r := by
  cases point with
  | tail cause => trivial
  | cancelling current | failing current cause => exact hf.elim
  | _ => exact ⟨hf, hp⟩

theorem traced_none (ho : r'.operation = r.operation) (hs : r.stage.Works r'.stage) :
    Traced r false (some r', none) := by
  refine ⟨r', rfl, ho, hs, ?_⟩
  intro w hw
  cases hw

theorem traced_go (hw : Sound { w with point } r) : Traced r false (w.go (some r) point) := by
  refine ⟨r, rfl, rfl, .refl _, ?_⟩
  intro w' hw'
  cases hw'
  exact hw

theorem traced_giveUp (h : w.Holds r) (cause : Failure) :
    Traced r false (w.giveUp (some r) cause) :=
  traced_go ⟨⟨h.version, h.operation, h.journal, h.located⟩, trivial⟩

theorem Worker.Holds.congr {w' : Worker} (h : w.Holds r) (hv : w'.v.operation = w.v.operation)
    (hr : r'.operation = r.operation) (hj : w'.journal.placement = w.journal.placement) :
    w'.Holds r' := by
  have hversion : w'.v.version = w.v.version := congrArg Operation.version hv
  have hrow : r'.version = r.version := congrArg Operation.version hr
  have hreason : w'.v.reason = w.v.reason := congrArg Operation.reason hv
  refine ⟨?_, ?_, ?_, ?_⟩
  · rw [hversion, hrow]
    exact h.version
  · intro heq
    rw [hv, hr]
    apply h.operation
    rw [← hversion, heq, hrow]
  · rw [hj, h.journal]
    exact (congrArg Operation.placement hv).symm
  · rw [hreason]
    exact h.located

theorem Worker.Holds.placement (h : w.Holds r) {j : StorageLocationJournal}
    (hj : j.placement = w.v.journal.placement) (hv : r.version = w.v.version) :
    j.placement = r.journal.placement :=
  hj.trans (congrArg Operation.placement (h.operation hv.symm))

theorem traced_locationTransition (h : w.Holds r) {stage : Stage} {next : Point}
    (hs : w.v.stage.Works stage) (hn : next.Fits stage) :
    Traced r false (w.locationTransition (some r) env stage next) := by
  have hcopy : ∀ stage, operation { w.v with stage, journal := w.journal } = w.v.operation := by
    intro stage
    simp only [operation, h.journal]
  simp only [locationTransition]
  split
  · apply traced_giveUp
    exact h.congr (hcopy _) rfl rfl
  next r' hr' =>
  obtain ⟨hv, hstage, rfl⟩ := updateOperation_some hr'
  have hrow : operation { r with
      stage := stage, journal := w.journal, error := w.v.error,
      failureCode := w.v.failureCode } = r.operation := by
    simp only [operation, h.placement h.journal hv]
  refine ⟨_, by split <;> rfl, hrow, ?_, ?_⟩
  · rw [hstage]
    exact hs
  intro w' hw'
  split at hw' <;> cases hw'
  · exact ⟨h.congr (hcopy _) hrow rfl, trivial⟩
  · refine ⟨h.congr (hcopy _) hrow rfl, stands_of_fits hn ?_⟩
    intro hpublishing
    exact ⟨hv, hpublishing⟩

section Working

variable (h : w.Holds r)

variable {j : StorageLocationJournal} {stage : Stage} {next : Point}

include h

theorem traced_edit (hj : j.placement = w.journal.placement)
    (hs : w.v.stage.Works stage) (hn : next.Fits stage) : Traced r false
      (locationTransition { w with journal := j } (some r) env stage next) := by
  refine traced_locationTransition ?_ hs hn
  exact h.congr rfl rfl hj

theorem traced_same (hs : w.v.stage.Works stage)
    (hn : next.Fits stage) : Traced r false (w.locationTransition (some r) env stage next) :=
  traced_edit h rfl hs hn

theorem beginCopy_traced (hs : w.v.stage = .copying ∨ w.v.stage = .publishing) :
    Traced r false (w.beginCopy (some r) env) :=
  traced_edit h (placement_ensureStaging _ _) (.refl _) hs

theorem publishMove_traced (hs : w.v.stage = .publishing) :
    Traced r false (w.publishMove (some r) env) := by
  unfold publishMove
  split
  · refine traced_edit h (placement_switchToCopy _) ?_ trivial
    exact .inl hs.symm
  refine traced_same h ?_ trivial
  rw [hs]
  exact .inr (mem_singleton.2 rfl)

theorem finishOperation_traced {journal : StorageLocationJournal}
    (hj : journal.placement = w.v.journal.placement) (hs : stage.Works .completed) :
    Traced r false (w.finishOperation (some r) env stage journal) := by
  have hcopy : operation { w.v with stage := .completed, journal } = w.v.operation := by
    simp only [operation, hj]
  simp only [finishOperation]
  split
  · apply traced_giveUp
    exact h.congr hcopy rfl rfl
  next r' hr' =>
  obtain ⟨hv, rfl, rfl⟩ := updateOperation_some hr'
  have hrow : operation { r with
      stage := .completed, journal, error := "", failureCode := "" } = r.operation := by
    simp only [operation, h.placement hj hv]
  refine ⟨_, rfl, hrow, hs, ?_⟩
  intro w' hw'
  cases hw'
  exact ⟨h.congr hcopy hrow rfl, trivial⟩

theorem commitMapping_traced : Traced r (commitStorageOperation (some r) w.v env.fenced).isSome
      (w.commitMapping (some r) env) := by
  simp only [commitMapping]
  split
  next hnone =>
    rw [hnone]
    exact traced_giveUp h _
  next r' hr' =>
  rw [hr']
  obtain ⟨hv, hstage, rfl⟩ := updateOperation_some hr'
  have hrow : operation { r with
      stage := .committed, journal := w.v.journal, error := "", failureCode := "" } =
      r.operation := by
    simp only [operation, h.placement rfl hv]
  refine ⟨_, by split <;> rfl, hrow, ⟨hstage, rfl⟩, ?_⟩
  intro w' hw'
  split at hw' <;> cases hw'
  · exact ⟨h.congr rfl hrow rfl, trivial⟩
  · exact ⟨h.congr rfl hrow rfl, trivial, by rintro ⟨⟩⟩

variable (hp : w.PublishesIn r)

include hp

theorem traced_continue {point : Point} (hf : point.Fits w.v.stage) :
    Traced r false (w.go (some r) point) :=
  traced_go ⟨h.congr rfl rfl rfl, stands_of_fits hf hp⟩

theorem copyBatch_traced (hs : w.v.stage = .copying ∨ w.v.stage = .publishing) (start : Nat) :
    Traced r false (w.copyBatch (some r) env start) := by
  simp only [copyBatch]
  split
  · split
    · exact traced_edit h (placement_stampBatch _ _ _) (.refl _) hs
    · exact traced_continue h hp hs
  apply traced_edit h (placement_completeCopies _)
  · rcases hs with hs | hs <;> rw [hs]
    · exact .inr (mem_singleton.2 rfl)
    · exact .refl _
  · split
    · trivial
    · rfl

theorem publishLocation_traced (hs : w.v.stage = .publishing) :
    Traced r false (w.publishLocation (some r) env) := by
  unfold publishLocation
  split
  · refine traced_same h ?_ trivial
    rw [hs]
    exact .inr (mem_singleton.2 rfl)
  split
  · exact beginCopy_traced h (.inr hs)
  · exact traced_continue h hp hs

theorem beginCleanup_traced (hs : w.v.stage = .cleanup) :
    Traced r false (w.beginCleanup (some r) env) := by
  simp only [beginCleanup]
  split
  · exact traced_continue h hp trivial
  have hpath := placement_withCleanupPath w.journal w.v.recordID w.v.version
  split
  · refine traced_edit h ((placement_withCleanupIdentity _ _).trans hpath) ?_ rfl
    exact .inl hs.symm
  refine traced_go ⟨h.congr rfl rfl hpath, stands_of_fits hs ?_⟩
  exact hp

theorem cleanEntry_traced (hs : w.v.stage = .cleanup) (index : Nat) :
    Traced r false (w.cleanEntry (some r) env index) := by
  simp only [cleanEntry]
  split
  · exact traced_same h (.inl hs.symm) trivial
  split
  · exact traced_continue h hp hs
  split
  · exact traced_edit h (placement_removeEntry _ _) (.inl hs.symm) rfl
  refine traced_go ⟨h.congr rfl rfl rfl, stands_of_fits hs ?_⟩
  exact hp

omit hp in
theorem traced_next {stage' : Stage}
    (hj : j.placement = w.journal.placement) (hn : next.Fits stage')
    (hs : w.v.stage = stage) (hw : stage' ∈ stage.worked) : Traced r false
      (locationTransition { w with journal := j } (some r) env stage' next) := by
  refine traced_edit h hj ?_ hn
  rw [hs]
  exact .inr hw

theorem executeLocation_traced :
    Traced r (w.v.stage == .published && (commitStorageOperation (some r) w.v env.fenced).isSome)
      (w.executeLocation (some r) env) := by
  unfold executeLocation
  split <;> rename_i hs <;> rw [hs]
  · exact traced_next h (placement_planned _ _) trivial hs (by decide)
  · exact traced_next h rfl trivial hs (by decide)
  · exact traced_next h rfl trivial hs (by decide)
  · refine traced_next h rfl trivial hs ?_
    split <;> decide
  · exact beginCopy_traced h (.inl hs)
  · exact publishLocation_traced h hp hs
  · exact commitMapping_traced h
  · exact traced_next h rfl trivial hs (by decide)
  · exact beginCleanup_traced h hp hs
  all_goals exact traced_continue h hp trivial

theorem executeLocate_traced :
    Traced r (w.v.stage == .published && (commitStorageOperation (some r) w.v env.fenced).isSome)
      (w.executeLocate (some r) env) := by
  unfold executeLocate
  split <;> rename_i hs <;> rw [hs]
  · exact traced_next h (placement_analyzed _ _) trivial hs (by decide)
  · exact traced_next h rfl trivial hs (by decide)
  · exact traced_next h rfl trivial hs (by decide)
  · split
    · exact traced_next h rfl trivial hs (by decide)
    · exact traced_giveUp h _
  · exact traced_next h rfl trivial hs (by decide)
  · exact commitMapping_traced h
  · exact finishOperation_traced h rfl (.inr (by decide))
  all_goals exact traced_continue h hp trivial

end Working

theorem readCurrent_traced (h : w.Holds r) (cause : Option Failure) :
    Traced r false (w.readCurrent (some r) env cause) := by
  simp only [readCurrent]
  split
  · exact traced_none rfl (.refl _)
  next hc =>
  simp only [Bool.or_eq_true, bne_iff_ne, not_or, not_not] at hc
  have hv : r.operation = w.v.operation := (h.operation hc.1.2.symm).symm
  split
  · exact traced_go ⟨h.congr rfl rfl rfl, hv⟩
  split
  · exact traced_none rfl (.refl _)
  · exact traced_go ⟨h.congr rfl rfl rfl, hv⟩

theorem traced_ending {stage : Stage} {fenced : Bool} {update : RecoveryRecord → RecoveryRecord}
    (ho : r.version = v.version → r.stage = stage → (update r).operation = r.operation)
    (hs : r.version = v.version → r.stage = stage → r.stage.Works (update r).stage) : Traced r false
      ((updateOperation (some r) v stage fenced update).orElse (fun _ => some r), none) := by
  cases h : updateOperation (some r) v stage fenced update with
  | none => exact traced_none rfl (.refl _)
  | some r' =>
    obtain ⟨hversion, hstage, rfl⟩ := updateOperation_some h
    exact traced_none (ho hversion hstage) (hs hversion hstage)

section Ending

variable {current : RecoveryRecord} (h : w.Holds r) (hc : current.operation = w.v.operation)

include h hc

theorem placement_of_read (hv : r.version = current.version) :
    current.journal.placement = r.journal.placement := by
  have hversion : current.version = w.v.version := congrArg Operation.version hc
  have ho := hc.trans (h.operation (hversion.symm.trans hv.symm))
  exact congrArg Operation.placement ho

theorem finishLocationCancel_traced :
    Traced r false (finishLocationCancel (some r) env current) := by
  apply traced_ending
  · intro hv _
    simp only [operation, placement_of_read h hc hv]
  · intro _ hs
    rw [hs]
    exact .inr (mem_singleton.2 rfl)

theorem locationFailure_traced (cause : Failure) :
    Traced r false (locationFailure (some r) env current cause) := by
  unfold locationFailure
  split
  · exact traced_none rfl (.refl _)
  apply traced_ending
  · intro hv _
    simp only [operation, placement_of_read h hc hv]
  · intro _ hs
    exact .inl hs.symm

end Ending

theorem Worker.step_traced (hw : w.Sound r) (env : WorkerEnv) :
    Traced r (w.commits (some r) env) (w.step (some r) env) := by
  obtain ⟨h, hstands⟩ := hw
  unfold step commits
  unfold Stands at hstands
  cases hp : w.point <;> simp only [hp] at hstands ⊢
  case tail cause => exact readCurrent_traced h cause
  case cancelling current => exact finishLocationCancel_traced h hstands
  case failing current cause => exact locationFailure_traced h hstands cause
  all_goals
    cases hfailed : env.failed with
    | some cause => exact traced_giveUp h cause
    | none => ?_
  case loop.none =>
    simp only [beq_self_eq_true, Option.isNone_none, Bool.true_and]
    split
    · exact executeLocate_traced h hstands.2
    · exact executeLocation_traced h hstands.2
  case copy.none start => exact copyBatch_traced h hstands.2 hstands.1 start
  case move.none => exact publishMove_traced h hstands.1
  case clean.none index => exact cleanEntry_traced h hstands.2 hstands.1 index
  case finish.none => exact finishOperation_traced h h.journal (.inr (by decide))

end TorrentHub
