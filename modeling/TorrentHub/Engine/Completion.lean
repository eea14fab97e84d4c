import Mathlib.Algebra.CharP.Defs
import Mathlib.Algebra.Order.Interval.Finset.SuccPred
import Mathlib.Algebra.Order.Ring.Star
import Mathlib.Data.Int.ConditionallyCompleteOrder
import Mathlib.Data.Int.Interval
import Mathlib.Data.Int.Star
import Mathlib.Data.Int.SuccPred
import TorrentHub.Engine.Runtime
import TorrentHub.Lib.Search

namespace TorrentHub

open Lib List

structure PieceStateRun where
  length : Int
  ok : Bool
  complete : Bool
  checking : Bool
  marking : Bool
deriving DecidableEq

def PieceStateRun.verified (run : PieceStateRun) : Bool :=
  run.ok && run.complete && !run.checking && !run.marking

structure VerifiedInterval where
  start : Int
  stop : Int
  before : Int
  complete : Bool
deriving DecidableEq

def verifiedIntervals (pieceLength : Int) :
    Int → Int → List PieceStateRun → List VerifiedInterval × Int
  | _, total, [] => ([], total)
  | offset, total, run :: runs =>
    let stop := offset + run.length * pieceLength
    let rest := verifiedIntervals pieceLength stop
      (if run.verified then total + (stop - offset) else total) runs
    (⟨offset, stop, total, run.verified⟩ :: rest.1, rest.2)

/-- What the closure of `verifiedPrefix` answers from the table. -/
def VerifiedInterval.answer (pos total : Int) : Option VerifiedInterval → Int
  | none => total
  | some r => if r.complete then r.before + pos - r.start else r.before

def verifiedPrefix (runs : List PieceStateRun) (pieceLength pos : Int) : Int :=
  let (intervals, total) := verifiedIntervals pieceLength 0 0 runs
  if pos ≤ 0 ∨ intervals = [] then 0
  else
    VerifiedInterval.answer pos total
      intervals[search intervals.length fun i => intervals[i]?.any fun r => pos ≤ r.stop]?

structure PayloadFile where
  offset : Int
  length : Int
deriving DecidableEq

def PayloadFile.complete (runs : List PieceStateRun) (pieceLength : Int) (file : PayloadFile) :
    Bool :=
  verifiedPrefix runs pieceLength (file.offset + file.length)
    - verifiedPrefix runs pieceLength file.offset == file.length

def VerifiedAt (runs : List PieceStateRun) (pieceLength q : Int) : Prop :=
  ∃ before run after, runs = before ++ run :: after ∧ run.verified = true ∧
    (before.map (·.length)).sum * pieceLength ≤ q ∧
    q < ((before.map (·.length)).sum + run.length) * pieceLength

/-- The verified bytes below `pos` of runs that start at `offset`. -/
def verifiedBelow (pieceLength : Int) : Int → List PieceStateRun → Int → Int
  | _, [], _ => 0
  | offset, run :: runs, pos =>
    (if run.verified then max 0 (min (offset + run.length * pieceLength) pos - offset) else 0)
      + verifiedBelow pieceLength (offset + run.length * pieceLength) runs pos

section Runs

variable {pieceLength offset pos q : Int} {runs : List PieceStateRun} {run : PieceStateRun}

/-- The byte lies in a verified one of the runs, which start at `offset`. -/
def verifiedFrom (pieceLength : Int) : Int → List PieceStateRun → Int → Prop
  | _, [], _ => False
  | offset, run :: runs, q =>
    run.verified = true ∧ offset ≤ q ∧ q < offset + run.length * pieceLength ∨
      verifiedFrom pieceLength (offset + run.length * pieceLength) runs q

theorem verifiedFrom_iff : verifiedFrom pieceLength offset runs q ↔
    ∃ before run after, runs = before ++ run :: after ∧ run.verified = true ∧
      offset + (before.map (·.length)).sum * pieceLength ≤ q ∧
      q < offset + ((before.map (·.length)).sum + run.length) * pieceLength := by
  induction runs generalizing offset with
  | nil =>
    refine ⟨False.elim, ?_⟩
    rintro ⟨before, run, after, h, -⟩
    exact absurd h (by simp)
  | cons first runs ih =>
    rw [verifiedFrom, ih]
    constructor
    · rintro (⟨hv, hle, hlt⟩ | ⟨before, run, after, rfl, hv, hle, hlt⟩)
      · exact ⟨[], first, runs, rfl, hv, by simpa using hle, by simpa using hlt⟩
      · refine ⟨first :: before, run, after, rfl, hv, ?_, ?_⟩
        · rw [map_cons, sum_cons, Int.add_mul]
          omega
        · rw [map_cons, sum_cons, Int.add_assoc, Int.add_mul]
          omega
    rintro ⟨before, run, after, h, hv, hle, hlt⟩
    cases before with
    | nil =>
      obtain ⟨rfl, rfl⟩ := cons.inj h
      exact .inl ⟨hv, by simpa using hle, by simpa using hlt⟩
    | cons run' before =>
      obtain ⟨rfl, rfl⟩ := cons.inj h
      rw [map_cons, sum_cons] at hle hlt
      rw [Int.add_mul] at hle
      rw [Int.add_assoc, Int.add_mul] at hlt
      exact .inr ⟨before, run, after, rfl, hv, by omega, by omega⟩

section

variable (hpl : 0 < pieceLength) (h : ∀ run ∈ runs, 0 ≤ run.length)
include hpl h

theorem length_mul_nonneg (hrun : run ∈ runs) : 0 ≤ run.length * pieceLength :=
  Int.mul_nonneg (h run hrun) hpl.le

theorem verifiedBelow_of_le (hpos : pos ≤ offset) :
    verifiedBelow pieceLength offset runs pos = 0 := by
  induction runs generalizing offset with
  | nil => rfl
  | cons first runs ih =>
    have hstop := length_mul_nonneg hpl h mem_cons_self
    rw [verifiedBelow, ih (forall_mem_cons.1 h).2 (by omega)]
    split <;> omega

theorem verifiedFrom_le (hq : verifiedFrom pieceLength offset runs q) : offset ≤ q := by
  induction runs generalizing offset with
  | nil => exact hq.elim
  | cons first runs ih =>
    have hstop := length_mul_nonneg hpl h mem_cons_self
    rcases hq with hq | hq
    · exact hq.2.1
    · have hle := ih (forall_mem_cons.1 h).2 hq
      omega

end

open Classical in
theorem verifiedBelow_succ (hpl : 0 < pieceLength) (h : ∀ run ∈ runs, 0 ≤ run.length) (q : Int) :
    verifiedBelow pieceLength offset runs (q + 1) = verifiedBelow pieceLength offset runs q
      + if verifiedFrom pieceLength offset runs q then 1 else 0 := by
  induction runs generalizing offset with
  | nil => simp [verifiedBelow, verifiedFrom]
  | cons first runs ih =>
    have hstop := length_mul_nonneg hpl h mem_cons_self
    have htail := (forall_mem_cons.1 h).2
    have hle := @verifiedFrom_le _ (offset + first.length * pieceLength) q _ hpl htail
    rw [verifiedBelow, verifiedBelow, ih htail, verifiedFrom]
    by_cases hq : verifiedFrom pieceLength (offset + first.length * pieceLength) runs q
    · have hbeyond := hle hq
      simp only [hq, or_true, if_true]
      split <;> omega
    simp only [hq, or_false, if_false]
    cases first.verified <;> simp only [Bool.false_eq_true, false_and, true_and, if_false, if_true]
      <;> (try split) <;> omega

open Classical in
theorem verifiedBelow_sub (hpl : 0 < pieceLength) (h : ∀ run ∈ runs, 0 ≤ run.length) {a b : Int}
    (hab : a ≤ b) :
    verifiedBelow pieceLength offset runs b - verifiedBelow pieceLength offset runs a
      = ((Finset.Ico a b).filter (verifiedFrom pieceLength offset runs)).card := by
  induction b, hab using Int.leInduction with
  | base => simp
  | succ b hab ih =>
    rw [verifiedBelow_succ hpl h, ← Finset.insert_Ico_right_eq_Ico_add_one hab,
      Finset.filter_insert]
    split
    · rw [Finset.card_insert_of_notMem (by simp)]
      push_cast
      omega
    · omega

theorem verifiedIntervals_sorted (offset total : Int) (hpl : 0 < pieceLength)
    (h : ∀ run ∈ runs, 0 ≤ run.length) :
    (∀ r ∈ (verifiedIntervals pieceLength offset total runs).1, offset ≤ r.stop) ∧
      (verifiedIntervals pieceLength offset total runs).1.Pairwise fun r t => r.stop ≤ t.stop := by
  induction runs generalizing offset total with
  | nil => exact ⟨by simp [verifiedIntervals], List.Pairwise.nil⟩
  | cons first runs ih =>
    have hstop := length_mul_nonneg hpl h mem_cons_self
    obtain ⟨hle, hsorted⟩ := ih (offset + first.length * pieceLength)
      (if first.verified then total + (offset + first.length * pieceLength - offset) else total)
      (forall_mem_cons.1 h).2
    refine ⟨forall_mem_cons.2 ⟨by dsimp only; omega, ?_⟩, pairwise_cons.2 ⟨hle, hsorted⟩⟩
    intro r hr
    have hr := hle r hr
    omega

open VerifiedInterval

theorem answer_find (total : Int) (hpl : 0 < pieceLength) (h : ∀ run ∈ runs, 0 ≤ run.length)
    (hpos : offset < pos) : answer pos (verifiedIntervals pieceLength offset total runs).2
        ((verifiedIntervals pieceLength offset total runs).1.find? fun r => pos ≤ r.stop)
      = total + verifiedBelow pieceLength offset runs pos := by
  induction runs generalizing offset total with
  | nil => simp [verifiedIntervals, answer, verifiedBelow]
  | cons first runs ih =>
    have htail := (forall_mem_cons.1 h).2
    have hstop := length_mul_nonneg hpl h mem_cons_self
    rw [verifiedIntervals, verifiedBelow, find?_cons]
    by_cases hfound : pos ≤ offset + first.length * pieceLength
    · rw [verifiedBelow_of_le hpl htail hfound, decide_eq_true hfound]
      simp only [answer]
      split <;> omega
    rw [decide_eq_false hfound]
    simp only
    rw [ih _ htail (by omega)]
    split <;> omega

theorem verifiedPrefix_eq (hpl : 0 < pieceLength) (h : ∀ run ∈ runs, 0 ≤ run.length)
    (pos : Int) : verifiedPrefix runs pieceLength pos = verifiedBelow pieceLength 0 runs pos := by
  unfold verifiedPrefix
  have hsorted := (verifiedIntervals_sorted 0 0 hpl h).2
  have hfind : 0 < pos → _ := answer_find 0 hpl h
  have hempty : (verifiedIntervals pieceLength 0 0 runs).1 = [] →
      verifiedBelow pieceLength 0 runs pos = 0 := by
    intro hnil
    cases runs with
    | nil => rfl
    | cons run runs => exact absurd hnil (by simp [verifiedIntervals])
  generalize verifiedIntervals pieceLength 0 0 runs = table at *
  obtain ⟨intervals, all⟩ := table
  dsimp only at *
  split
  next hnone =>
    rcases hnone with hnone | hnone
    · exact (verifiedBelow_of_le hpl h hnone).symm
    · exact (hempty hnone).symm
  next hsome =>
  rw [getElem?_search (hsorted.imp fun hle hp => by simp only [decide_eq_true_eq] at *; omega),
    hfind (by omega)]
  omega

end Runs

theorem runtimeTransition_consistent {event : StateEvent} (hkind : event.kind = .selectionObserved)
    (h : event.payloadComplete = true → event.selectedComplete = true) (p : RuntimePolicy) :
    runtimeTransition p event ≠ .error ⟨.selectionObserved, "inconsistent_completion"⟩ := by
  have hbad : (event.payloadComplete && !event.selectedComplete) = false := by
    cases hpayload : event.payloadComplete with
    | false => rfl
    | true => simp [h hpayload]
  have hstep : transitionStep p event ≠ .error "inconsistent_completion" := by
    simp only [transitionStep, hkind, selectionStep, hbad, Bool.false_eq_true, if_false]
    repeat' split
    all_goals simp
  unfold runtimeTransition
  rw [hkind]
  split
  · simp
  split
  · simp
  split
  next reason hreason =>
    rintro heq
    simp only [Except.error.injEq, StateTransitionError.mk.injEq, true_and] at heq
    exact hstep (heq ▸ hreason)
  · simp

open Classical in
/-- The table counts verified bytes, so a file is complete exactly if all its bytes are verified. -/
theorem completion_exact (runs : List PieceStateRun) (pieceLength : Int) (hpl : 0 < pieceLength)
    (h : ∀ run ∈ runs, 0 ≤ run.length) :
    (∀ a b, 0 ≤ a → a ≤ b → verifiedPrefix runs pieceLength b - verifiedPrefix runs pieceLength a
      = ((Finset.Ico a b).filter (VerifiedAt runs pieceLength)).card) ∧
    (∀ file : PayloadFile, 0 ≤ file.offset → 0 ≤ file.length →
      (file.complete runs pieceLength = true ↔
        ∀ q, file.offset ≤ q → q < file.offset + file.length → VerifiedAt runs pieceLength q)) ∧
    ∀ (r : Runtime) (files : List PayloadFile),
      let event := r.selectionEvent files.length fun i =>
        files[i]?.any fun file => file.complete runs pieceLength
      (event.payloadComplete = true → event.selectedComplete = true) ∧
      ∀ p : RuntimePolicy, runtimeTransition p event
        ≠ .error ⟨.selectionObserved, "inconsistent_completion"⟩ := by
  have hcount : ∀ a b, a ≤ b → verifiedPrefix runs pieceLength b - verifiedPrefix runs pieceLength a
      = ((Finset.Ico a b).filter (VerifiedAt runs pieceLength)).card := by
    intro a b hab
    rw [verifiedPrefix_eq hpl h, verifiedPrefix_eq hpl h, verifiedBelow_sub hpl h hab]
    congr 2
    ext q
    simp only [Finset.mem_filter, verifiedFrom_iff, VerifiedAt, Int.zero_add]
  refine ⟨fun a b _ => hcount a b, ?_, ?_⟩
  · intro file _ hlength
    unfold PayloadFile.complete
    rw [hcount _ _ (by omega), beq_iff_eq]
    have hcard : ((Finset.Ico file.offset (file.offset + file.length)).card : Int)
        = file.length := by
      rw [Int.card_Ico]
      omega
    constructor
    · intro heq q hq hlt
      have hall : (Finset.Ico file.offset (file.offset + file.length)).filter
          (VerifiedAt runs pieceLength) = Finset.Ico file.offset (file.offset + file.length) :=
        Finset.eq_of_subset_of_card_le (Finset.filter_subset _ _) (by omega)
      exact (Finset.mem_filter.1 (hall ▸ Finset.mem_Ico.2 ⟨hq, hlt⟩)).2
    · intro hall
      rw [Finset.filter_true_of_mem, hcard]
      intro q hq
      exact hall q (Finset.mem_Ico.1 hq).1 (Finset.mem_Ico.1 hq).2
  · intro r files event
    have hconsistent : event.payloadComplete = true → event.selectedComplete = true := by
      intro hall
      refine all_eq_true.2 fun i hi => ?_
      exact Bool.or_eq_true_iff.2 (.inr (all_eq_true.1 hall i hi))
    exact ⟨hconsistent, runtimeTransition_consistent rfl hconsistent⟩

/-- A verified run of two pieces and one that is still checked. -/
theorem twoRuns_complete :
    (∀ run ∈ [PieceStateRun.mk 2 true true false false, ⟨1, true, true, true, false⟩],
      0 ≤ run.length) ∧
    ∀ q, 1 ≤ q → q < 1 + 7 →
      VerifiedAt [⟨2, true, true, false, false⟩, ⟨1, true, true, true, false⟩] 4 q :=
  ⟨by decide, ((completion_exact _ 4 (by decide) (by decide)).2.1 ⟨1, 7⟩ (by decide)
    (by decide)).1 (by decide)⟩

end TorrentHub
