import TorrentHub.Move.Machine

namespace TorrentHub
open Lib StorageLocationJournal Worker

variable {v current : RecoveryRecord} {stage : Stage} {fenced : Bool}
  {update : RecoveryRecord → RecoveryRecord} {point : Point} {j : StorageLocationJournal}

def RecoveryRecord.Fresh (r : RecoveryRecord) : Prop :=
  r.stage = .planning ∨ r.stage = .analyzingLocation → ∀ f, r.journal.records f = false

structure RecoveryRecord.Advances (r r' : RecoveryRecord) : Prop where
  version : r.version ≤ r'.version
  facts : r'.version = r.version → Extends r.journal r'.journal
  fresh : r'.Fresh

/-- The worker's copies hold every fact of the row of its version, until it only ends. -/
def Worker.Covers (w : Worker) (r : RecoveryRecord) : Prop :=
  match w.point with
  | .tail _ => True
  | .cancelling current => Extends r.journal current.journal
  | .failing current _ => current.Fresh ∧ Extends r.journal current.journal
  | _ => Extends r.journal w.v.journal ∧ Extends w.v.journal w.journal

/-- A worker copies at two stages only, and a row that it reads at its end is one of its own
version. -/
def Worker.Placed (w : Worker) : Prop :=
  match w.point with
  | .copy _ => w.v.stage = .copying ∨ w.v.stage = .publishing
  | .cancelling current | .failing current _ => current.version = w.v.version
  | _ => True

structure Worker.Follows (w : Worker) (r : RecoveryRecord) : Prop where
  version : w.v.version ≤ r.version
  placed : w.Placed
  covers : w.v.version = r.version → w.Covers r

variable {r r' : RecoveryRecord} {row : Option RecoveryRecord} {w : Worker} {env : WorkerEnv}

theorem RecoveryRecord.Advances.refl (h : r.Fresh) : r.Advances r :=
  ⟨Nat.le_refl _, fun _ => .refl _, h⟩

theorem updateOperation_some (h : updateOperation (some r) v stage fenced update = some r') :
    r.version = v.version ∧ r.stage = stage ∧ r' = update r := by
  simp only [updateOperation] at h
  split at h
  next hc =>
    simp only [Bool.and_eq_true, beq_iff_eq] at hc
    cases h
    exact ⟨hc.1.1.2, hc.2, rfl⟩
  · cases h

/-- The outcome of a worker step from row `r`: the row advances and the worker follows it. -/
def Kept (r : RecoveryRecord) (result : WorkerResult) : Prop :=
  ∃ r', result.1 = some r' ∧ r.Advances r' ∧ ∀ w, result.2 = some w → w.Follows r'

theorem kept_committed (h : r.Advances r')
    (hf : Follows { w with point } r') : Kept r (w.go (some r') point) := by
  refine ⟨r', rfl, h, ?_⟩
  intro w' hw
  cases hw
  exact hf

theorem kept_go (hr : r.Fresh) (hf : Follows { w with point } r) : Kept r (w.go (some r) point) :=
  kept_committed (.refl hr) hf

theorem follows_tail (hv : w.v.version ≤ r.version) (cause : Option Failure) :
    Follows { w with point := .tail cause } r :=
  ⟨hv, trivial, fun _ => trivial⟩

theorem kept_giveUp (hr : r.Fresh) (hv : w.v.version ≤ r.version) (cause : Failure) :
    Kept r (w.giveUp (some r) cause) :=
  kept_go hr (follows_tail hv _)

def Point.Continues (point : Point) (stage : Stage) : Prop :=
  match point with
  | .copy _ => stage = .copying ∨ stage = .publishing
  | .cancelling _ | .failing _ _ => False
  | _ => True

theorem covers_of_continues
    (hp : point.Continues v.stage) (hv : Extends r.journal v.journal) (hj : Extends v.journal j) :
    Worker.Covers { v, journal := j, point } r := by
  cases point with
  | tail cause => trivial
  | cancelling current | failing current cause => exact hp.elim
  | _ => exact ⟨hv, hj⟩

theorem placed_of_continues (hp : point.Continues v.stage) : Placed { v, journal := j, point } := by
  cases point with
  | copy start => exact hp
  | cancelling current | failing current cause => exact hp.elim
  | _ => trivial

def Stage.started : Stage → Bool
  | .planning | .analyzingLocation => false
  | _ => true

theorem fresh_of_started (h : r.stage.started = true) : r.Fresh := by
  intro hc
  rcases hc with hc | hc <;> rw [hc] at h <;> cases h

theorem kept_locationTransition (hr : r.Fresh) (hv : w.v.version ≤ r.version)
    {next : Point} (hs : stage.started = true) (hn : next.Continues stage)
    (hj : w.v.version = r.version → r.stage = w.v.stage → Extends r.journal w.journal) :
    Kept r (w.locationTransition (some r) env stage next) := by
  simp only [locationTransition]
  split
  · apply kept_giveUp hr
    exact hv
  next r' h =>
  obtain ⟨hversion, hstage, rfl⟩ := updateOperation_some h
  have hadv : r.Advances { r with
      stage := stage, journal := w.journal, error := w.v.error,
      failureCode := w.v.failureCode } :=
    ⟨Nat.le_refl _, fun _ => hj hversion.symm hstage, fresh_of_started hs⟩
  split
  · apply kept_committed hadv
    apply follows_tail
    exact hv
  · apply kept_committed hadv
    exact ⟨hv, placed_of_continues hn, fun _ => covers_of_continues hn (.refl _) (.refl _)⟩

theorem kept_continue (hr : r.Fresh) (hv : w.v.version ≤ r.version) (hp : point.Continues w.v.stage)
    (hj : w.v.version = r.version → Extends r.journal w.v.journal ∧ Extends w.v.journal w.journal) :
    Kept r (w.go (some r) point) :=
  kept_go hr ⟨hv, placed_of_continues hp, fun h => covers_of_continues hp (hj h).1 (hj h).2⟩

section Working

variable (hr : r.Fresh) (hv : w.v.version ≤ r.version)
  (hj : w.v.version = r.version → Extends r.journal w.v.journal ∧ Extends w.v.journal w.journal)

variable {j : StorageLocationJournal} {stage : Stage} {next : Point}

include hr hv hj

theorem kept_edit (he : Extends w.journal j)
    (hs : stage.started = true) (hn : next.Continues stage) :
    Kept r (locationTransition { w with journal := j } (some r) env stage next) := by
  refine kept_locationTransition hr ?_ hs hn ?_
  · exact hv
  · intro h _
    exact ((hj h).1.trans (hj h).2).trans he

theorem kept_same (hs : stage.started = true)
    (hn : next.Continues stage) : Kept r (w.locationTransition (some r) env stage next) :=
  kept_edit hr hv hj (.refl _) hs hn

theorem kept_edited (he : Extends w.journal j) {point : Point}
    (hp : point.Continues w.v.stage) : Kept r (go { w with journal := j } (some r) point) := by
  refine kept_continue hr ?_ hp ?_
  · exact hv
  · intro h
    exact ⟨(hj h).1, (hj h).2.trans he⟩

section

variable (hs : w.v.stage = .copying ∨ w.v.stage = .publishing)
include hs

theorem beginCopy_kept : Kept r (w.beginCopy (some r) env) := by
  have hstarted : w.v.stage.started = true := by
    rcases hs with hs | hs <;> rw [hs] <;> rfl
  exact kept_edit hr hv hj (extends_ensureStaging _ _) hstarted hs

theorem copyBatch_kept (start : Nat) : Kept r (w.copyBatch (some r) env start) := by
  have hstarted : w.v.stage.started = true := by
    rcases hs with hs | hs <;> rw [hs] <;> rfl
  simp only [copyBatch]
  split
  · split
    · exact kept_edit hr hv hj (extends_stampBatch _ _ _) hstarted hs
    · exact kept_continue hr hv hs hj
  · apply kept_edit hr hv hj (extends_completeCopies _) rfl
    split <;> trivial

end

theorem publishLocation_kept (hs : w.v.stage = .publishing) :
    Kept r (w.publishLocation (some r) env) := by
  unfold publishLocation
  split
  · exact kept_same hr hv hj rfl trivial
  split
  · exact beginCopy_kept hr hv hj (.inr hs)
  · exact kept_continue hr hv trivial hj

theorem publishMove_kept : Kept r (w.publishMove (some r) env) := by
  unfold publishMove
  split
  · exact kept_edit hr hv hj (extends_switchToCopy _) rfl trivial
  · exact kept_same hr hv hj rfl trivial

theorem commitMapping_kept : Kept r (w.commitMapping (some r) env) := by
  simp only [commitMapping]
  split
  · exact kept_giveUp hr hv _
  next r' h =>
  obtain ⟨hversion, -, rfl⟩ := updateOperation_some h
  obtain ⟨hrv, hvj⟩ := hj hversion.symm
  have hadv : r.Advances { r with
      stage := .committed, journal := w.v.journal, error := "", failureCode := "" } :=
    ⟨Nat.le_refl _, fun _ => hrv, fresh_of_started rfl⟩
  split
  · apply kept_committed hadv
    apply follows_tail
    exact hv
  · apply kept_committed hadv
    exact ⟨hv, trivial, fun _ => ⟨.refl _, hvj⟩⟩

theorem beginCleanup_kept : Kept r (w.beginCleanup (some r) env) := by
  have hpath := extends_withCleanupPath w.journal w.v.recordID w.v.version
  simp only [beginCleanup]
  split
  · exact kept_continue hr hv trivial hj
  split
  · exact kept_edit hr hv hj (hpath.trans (extends_withCleanupIdentity _ _)) rfl trivial
  · exact kept_edited hr hv hj hpath trivial

theorem cleanEntry_kept (index : Nat) : Kept r (w.cleanEntry (some r) env index) := by
  have hremoved := extends_removeEntry w.journal index
  simp only [cleanEntry]
  split
  · exact kept_same hr hv hj rfl trivial
  split
  · exact kept_continue hr hv trivial hj
  split
  · exact kept_edit hr hv hj hremoved rfl trivial
  · exact kept_edited hr hv hj hremoved trivial

omit hj in
theorem finishOperation_kept {journal : StorageLocationJournal}
    (hjournal : w.v.version = r.version → Extends r.journal journal) :
    Kept r (w.finishOperation (some r) env stage journal) := by
  simp only [finishOperation]
  split
  · apply kept_giveUp hr
    exact hv
  next r' h =>
  obtain ⟨hversion, -, rfl⟩ := updateOperation_some h
  refine kept_committed ?_ ?_
  · exact ⟨Nat.le_refl _, fun _ => hjournal hversion.symm, fresh_of_started rfl⟩
  · apply follows_tail
    exact hv

omit hj in
theorem kept_plan (hs : w.v.stage.started = false) (hstage : stage.started = true) :
    Kept r (locationTransition { w with journal := j } (some r) env stage (.tail none)) := by
  refine kept_locationTransition hr ?_ hstage trivial ?_
  · exact hv
  intro _ heq f hf
  change r.stage = w.v.stage at heq
  rw [← heq] at hs
  have hfresh : r.stage = .planning ∨ r.stage = .analyzingLocation := by
    cases hrs : r.stage <;> rw [hrs] at hs <;> first | exact .inl rfl | exact .inr rfl | cases hs
  rw [hr hfresh f] at hf
  cases hf

theorem executeLocation_kept : Kept r (w.executeLocation (some r) env) := by
  unfold executeLocation
  split <;> rename_i hs
  · exact kept_plan hr hv (by rw [hs]; rfl) rfl
  · exact kept_same hr hv hj rfl trivial
  · exact kept_same hr hv hj rfl trivial
  · have hstarted : (if w.journal.method = .rename then Stage.publishing
        else .copying).started = true := by
      split <;> rfl
    exact kept_same hr hv hj hstarted trivial
  · exact beginCopy_kept hr hv hj (.inl hs)
  · exact publishLocation_kept hr hv hj hs
  · exact commitMapping_kept hr hv hj
  · exact kept_same hr hv hj rfl trivial
  · exact beginCleanup_kept hr hv hj
  all_goals exact kept_continue hr hv trivial hj

theorem executeLocate_kept : Kept r (w.executeLocate (some r) env) := by
  unfold executeLocate
  split <;> rename_i hs
  · exact kept_plan hr hv (by rw [hs]; rfl) rfl
  · exact kept_same hr hv hj rfl trivial
  · exact kept_same hr hv hj rfl trivial
  · split
    · exact kept_same hr hv hj rfl trivial
    · exact kept_giveUp hr hv _
  · exact kept_same hr hv hj rfl trivial
  · exact commitMapping_kept hr hv hj
  · exact finishOperation_kept hr hv fun h => (hj h).1
  all_goals exact kept_continue hr hv trivial hj

end Working

theorem kept_none (h : r.Advances r') : Kept r (some r', none) := by
  refine ⟨r', rfl, h, ?_⟩
  intro w hw
  cases hw

section

variable (hr : r.Fresh)
include hr

theorem kept_writeBack (hu : r.version = v.version → r.stage = stage → r.Advances (update r)) :
    Kept r ((updateOperation (some r) v stage fenced update).orElse (fun _ => some r), none) := by
  cases h : updateOperation (some r) v stage fenced update with
  | none => exact kept_none (.refl hr)
  | some r' =>
    obtain ⟨hversion, hstage, rfl⟩ := updateOperation_some h
    exact kept_none (hu hversion hstage)

theorem readCurrent_kept (hv : w.v.version ≤ r.version) (cause : Option Failure) :
    Kept r (w.readCurrent (some r) env cause) := by
  simp only [readCurrent]
  split
  · exact kept_none (.refl hr)
  next hc =>
  simp only [Bool.or_eq_true, bne_iff_ne, not_or, not_not] at hc
  have hversion : r.version = w.v.version := hc.1.2
  split
  · exact kept_go hr ⟨hv, hversion, fun _ => .refl _⟩
  split
  · exact kept_none (.refl hr)
  · exact kept_go hr ⟨hv, hversion, fun _ => ⟨hr, .refl _⟩⟩

theorem locationFailure_kept (hc : current.version = r.version → current.Fresh ∧
      Extends r.journal current.journal)
    (cause : Failure) : Kept r (locationFailure (some r) env current cause) := by
  unfold locationFailure
  split
  · exact kept_none (.refl hr)
  apply kept_writeBack hr
  intro hversion _
  obtain ⟨hfresh, hext⟩ := hc hversion.symm
  exact ⟨Nat.le_refl _, fun _ => hext, hfresh⟩

theorem finishLocationCancel_kept (hc : current.version = r.version →
      Extends r.journal current.journal) : Kept r (finishLocationCancel (some r) env current) := by
  apply kept_writeBack hr
  intro hversion _
  exact ⟨Nat.le_refl _, fun _ => hc hversion.symm, fresh_of_started rfl⟩

theorem Worker.step_kept (hw : w.Follows r) (env : WorkerEnv) : Kept r (w.step (some r) env) := by
  obtain ⟨hv, hplaced, hcovers⟩ := hw
  unfold step
  unfold Placed at hplaced
  unfold Covers at hcovers
  cases hp : w.point <;> simp only [hp] at hplaced hcovers ⊢
  case tail cause => exact readCurrent_kept hr hv cause
  case cancelling current =>
    exact finishLocationCancel_kept hr fun h => hcovers (hplaced.symm.trans h)
  case failing current cause =>
    exact locationFailure_kept hr (fun h => hcovers (hplaced.symm.trans h)) cause
  all_goals
    cases env.failed with
    | some cause => exact kept_giveUp hr hv cause
    | none => ?_
  case loop.none =>
    simp only
    split
    · exact executeLocate_kept hr hv hcovers
    · exact executeLocation_kept hr hv hcovers
  case copy.none start => exact copyBatch_kept hr hv hcovers hplaced start
  case move.none => exact publishMove_kept hr hv hcovers
  case clean.none index => exact cleanEntry_kept hr hv hcovers index
  case finish.none => exact finishOperation_kept hr hv fun h => (hcovers h).1.trans (hcovers h).2

end

end TorrentHub
