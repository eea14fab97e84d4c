import TorrentHub.Move.Mapping

namespace TorrentHub
open Lib Operation Option

namespace LocationState

variable {r r' : RecoveryRecord} {s : LocationState} {a : LocationAction} {n : Nat}

theorem row_of_publishes (h : s.Inv) (hn : s.publishes a = some n) :
    ∃ r, s.move.row = some r ∧ r.version = n ∧ r.stage = .publishing := by
  cases a with
  | work env =>
    obtain ⟨w, hw, hn⟩ := bind_eq_some_iff.1 hn
    split at hn
    next hpoint =>
      cases hn
      obtain ⟨r, hr, -, hstands⟩ := h.worker w hw
      simp only [Worker.Stands, hpoint] at hstands
      exact ⟨r, hr, hstands.2 hstands.1⟩
    · cases hn
  | _ => cases hn

variable (fold : Bytes → Bytes)

theorem row_of_acceptsCancel (h : s.Inv) (hn : s.acceptsCancel fold a = some n) :
    ∃ r', (s.step fold a).move.row = some r' ∧ r'.version = n ∧ r'.stage.withdrawn = true := by
  cases a with
  | write env =>
    obtain ⟨c, hc, hn⟩ := Option.bind_eq_some_iff.1 hn
    split at hn
    next haccepted =>
      cases hn
      obtain ⟨r', hr', hversion, hstage⟩ :=
        PendingCommand.execute_of_cancelAccepted (h.command c hc) haccepted
      refine ⟨r', ?_, hversion, hstage⟩
      simp only [step, hc, MoveState.step]
      exact hr'
    · cases hn
  | _ => cases hn

theorem commits_of_rows (hrows : (s.step fold a).rows ≠ s.rows) :
    ∃ n, s.commitsMapping a = some n := by
  cases a with
  | start invalid =>
    refine absurd ?_ hrows
    simp only [step, start]
    split
    · split <;> rfl
    · rfl
  | work env =>
    cases hw : s.move.worker with
    | none =>
      refine absurd ?_ hrows
      simp only [step, work, hw]
    | some w =>
      refine ⟨w.v.version, ?_⟩
      simp only [commitsMapping, hw, bind_some]
      split
      · rfl
      next hc =>
      refine absurd ?_ hrows
      simp only [step]
      rw [work_rows hw, if_neg hc]
  | look | write env =>
    refine absurd ?_ hrows
    simp only [step]
    split <;> rfl
  | read cmd | crash => exact absurd rfl hrows

/-- Only a commit takes an operation from `published` to `committed`. -/
theorem commits_of_stages (h : s.Inv) (hr : s.move.row = some r)
    (hr' : (s.step fold a).move.row = some r') (hversion : r'.version = r.version)
    (hs : r.stage = .published) (hs' : r'.stage = .committed) :
    s.commitsMapping a = some r.version := by
  obtain ⟨r₁, hr₁, hevolves⟩ := step_evolves fold h a hr
  rw [hr'] at hr₁
  cases hr₁
  rcases hevolves with ⟨-, hstage⟩ | hlt
  · rw [hs, hs'] at hstage
    rcases hstage with (hworks | hworks) | hordered | ⟨hcommits, -⟩
    · cases hworks
    · cases hworks
    · have hsettled := hordered.settled_eq
      cases hsettled
    · exact hcommits
  · rw [hversion] at hlt
    exact absurd hlt (Nat.lt_irrefl _)

theorem run_inv (h : s.Inv) (actions : List LocationAction) : (s.run fold actions).Inv := by
  have hstep : ∀ (t : LocationState) (a : LocationAction), t.Inv → (t.step fold a).Inv :=
    fun _ a ht => step_inv ht a
  exact exec_invariant_forall hstep h actions

theorem run_stage {closed : Stage → Bool}
    (hclosed : ∀ stage stage', stage.Leads stage' → closed stage = true → closed stage' = true)
    (h : s.Inv) (hr : s.move.row = some r) (hs : closed r.stage = true)
    (actions : List LocationAction) : ∃ r', (s.run fold actions).move.row = some r' ∧
      (r'.operation = r.operation ∧ closed r'.stage = true ∨ r.version < r'.version) := by
  have hstep : ∀ (t : LocationState) (a : LocationAction), (t.Inv ∧ ∃ r', t.move.row = some r' ∧
        (r'.operation = r.operation ∧ closed r'.stage = true ∨ r.version < r'.version)) →
      (t.step fold a).Inv ∧ ∃ r', (t.step fold a).move.row = some r' ∧
        (r'.operation = r.operation ∧ closed r'.stage = true ∨ r.version < r'.version) := by
    intro t a ht
    obtain ⟨hinv, r₁, hr₁, hcase⟩ := ht
    obtain ⟨r₂, hr₂, hevolves⟩ := step_evolves fold hinv a hr₁
    replace hevolves := hevolves.leads
    refine ⟨step_inv hinv a, r₂, hr₂, ?_⟩
    rcases hcase with ⟨hoperation, hc⟩ | hlt
    · have hversion : r₁.version = r.version := congrArg version hoperation
      rcases hevolves with ⟨hoperation', hleads⟩ | hlt
      · exact .inl ⟨hoperation'.trans hoperation, hclosed _ _ hleads hc⟩
      · exact .inr (hversion ▸ hlt)
    rcases hevolves with ⟨hoperation', -⟩ | hlt'
    · have hversion : r₂.version = r₁.version := congrArg version hoperation'
      exact .inr (hversion ▸ hlt)
    · exact .inr (Nat.lt_trans hlt hlt')
  exact (exec_invariant_forall hstep ⟨h, r, hr, .inl ⟨rfl, hs⟩⟩ actions).2

/-- At some moment of the run the operation of version `n` stands at a stage. -/
def Reaches (s : LocationState) (actions : List LocationAction) (n : Nat) (stage : Stage) : Prop :=
  ∃ before after r, actions = before ++ after ∧ (s.run fold before).move.row = some r ∧
    r.located = true ∧ r.version = n ∧ r.stage = stage

def Idle (s : LocationState) : Prop :=
  s.move.worker = none ∧ s.move.command = none ∧ ∀ r, s.move.row = some r → r.located = false

theorem Idle.inv (h : s.Idle) : s.Inv := by
  obtain ⟨hworker, hcommand, hrow⟩ := h
  refine ⟨?_, ?_, ?_⟩
  · intro w hw
    rw [hworker] at hw
    cases hw
  · intro c hc
    rw [hcommand] at hc
    cases hc
  · intro r hr hl
    rw [hrow r hr] at hl
    cases hl

structure Linearised (s : LocationState) (actions : List LocationAction) : Prop where
  /-- No operation is both cancelled and committed. -/
  exclusive : ∀ n, ¬ (s.Reaches fold actions n .cancelled ∧ s.Reaches fold actions n .committed)
  /-- After an accepted cancellation the operation is neither published nor committed. -/
  withdrawn : ∀ before a between b after n, actions = before ++ a :: (between ++ b :: after) →
    (s.run fold before).acceptsCancel fold a = some n →
    (s.run fold (before ++ a :: between)).publishes b ≠ some n ∧
      (s.run fold (before ++ a :: between)).commitsMapping b ≠ some n
  /-- The mapping rows change only by a commit, which takes the operation from `published` to
  `committed` and every alias of its source to its target. -/
  moved : ∀ before a after, actions = before ++ a :: after →
    (s.run fold (before ++ [a])).rows ≠ (s.run fold before).rows →
    ∃ r r' source, (s.run fold before).move.row = some r ∧
      (s.run fold (before ++ [a])).move.row = some r' ∧ r'.operation = r.operation ∧
      r.stage = .published ∧ r'.stage = .committed ∧ r'.journal.source = some source ∧
      (s.run fold before).commitsMapping a = some r.version ∧
      (s.run fold (before ++ [a])).rows =
        movedRows (s.run fold before).rows source r'.journal.target
  /-- And whenever an operation goes from `published` to `committed`, they do change. -/
  moves : ∀ before a after r r', actions = before ++ a :: after →
    (s.run fold before).move.row = some r → (s.run fold (before ++ [a])).move.row = some r' →
    r'.version = r.version → r.stage = .published → r'.stage = .committed →
    (s.run fold (before ++ [a])).rows ≠ (s.run fold before).rows
  /-- No operation commits twice. -/
  once : ∀ before a between b after n, actions = before ++ a :: (between ++ b :: after) →
    (s.run fold before).commitsMapping a = some n →
    (s.run fold (before ++ a :: between)).commitsMapping b ≠ some n
  /-- At every stage the mapping is where the journal has it, for a worker after a crash too. -/
  matched : ∀ before after r, actions = before ++ after →
    (s.run fold before).move.row = some r → r.located = true →
    locationMappingMatches (s.run fold before).mapping r.journal r.stage = true ∧
      ∀ w, (((s.run fold before).step fold .crash).step fold (.start none)).move.worker = some w →
        w.point = .loop

variable {fold} {before between after : List LocationAction}

theorem run_append (s : LocationState) (before after : List LocationAction) :
    s.run fold (before ++ after) = (s.run fold before).run fold after :=
  exec_append _ _ _ _

theorem run_snoc (s : LocationState) (before : List LocationAction) (a : LocationAction) :
    s.run fold (before ++ [a]) = (s.run fold before).step fold a := run_append s before [a]

theorem run_later (s : LocationState) (before between : List LocationAction) (a : LocationAction) :
    s.run fold (before ++ a :: between) = ((s.run fold before).step fold a).run fold between :=
  run_append s before (a :: between)

theorem stage_of_run {closed : Stage → Bool}
    (hclosed : ∀ stage stage', stage.Leads stage' → closed stage = true → closed stage' = true)
    (h : s.Inv) (hr : s.move.row = some r) (hs : closed r.stage = true)
    (hr' : (s.run fold after).move.row = some r') (hversion : r'.version = r.version) :
    closed r'.stage = true := by
  obtain ⟨r₁, hr₁, hcase⟩ := run_stage fold hclosed h hr hs after
  rw [hr'] at hr₁
  cases hr₁
  rcases hcase with ⟨-, hc⟩ | hlt
  · exact hc
  · rw [hversion] at hlt
    exact absurd hlt (Nat.lt_irrefl _)

theorem withdrawn_of_run (h : s.Inv) (hr : s.move.row = some r)
    (hs : r.stage.withdrawn = true) (hr' : (s.run fold after).move.row = some r')
    (hversion : r'.version = r.version) : r'.stage.withdrawn = true :=
  stage_of_run (fun _ _ hleads => hleads.withdrawn) h hr hs hr' hversion

theorem settled_of_run (h : s.Inv) (hr : s.move.row = some r)
    (hs : r.stage.settled = true) (hr' : (s.run fold after).move.row = some r')
    (hversion : r'.version = r.version) : r'.stage.settled = true :=
  stage_of_run (fun _ _ hleads => hleads.settled) h hr hs hr' hversion

theorem not_cancelled_and_committed (h : s.Inv) (actions : List LocationAction) (n : Nat) :
    ¬ (s.Reaches fold actions n .cancelled ∧ s.Reaches fold actions n .committed) := by
  rintro ⟨⟨before, after, r, hactions, hr, -, hv, hs⟩, before', after', r', hactions', hr', -,
    hv', hs'⟩
  rcases List.append_eq_append_iff.1 (hactions.symm.trans hactions') with
    ⟨between, rfl, -⟩ | ⟨between, rfl, -⟩
  · rw [run_append] at hr'
    have hwithdrawn := withdrawn_of_run (run_inv fold h before) hr (by rw [hs]; rfl) hr'
      (hv'.trans hv.symm)
    rw [hs'] at hwithdrawn
    cases hwithdrawn
  rw [run_append] at hr
  have hsettled := settled_of_run (run_inv fold h before') hr' (by rw [hs']; rfl) hr
    (hv.trans hv'.symm)
  rw [hs] at hsettled
  cases hsettled

theorem start_matched (hworker : s.move.worker = none)
    (h : ∀ r, s.move.row = some r → r.located = true →
      locationMappingMatches s.mapping r.journal r.stage = true) {w : Worker}
    (hw : (s.start none).move.worker = some w) : w.point = .loop := by
  unfold start at hw
  split at hw
  next r m hnone hcommand hrow hmapping =>
    split at hw
    · rw [hworker] at hw
      cases hw
    simp only [MoveState.step, MoveState.startWorker, hworker, hcommand, hrow] at hw
    split at hw
    next hlocated =>
      have hmatches := h r hrow (by simpa [RecoveryRecord.located] using hlocated.1)
      rw [hmapping] at hmatches
      cases hw
      simp only [hmatches, if_true, Option.elim_none]
    · rw [hworker] at hw
      cases hw
  · rw [hworker] at hw
    cases hw

/-- From a state without an operation, the operations are linearised on the stage of the row. -/
theorem operations_linearised (fold : Bytes → Bytes) (s : LocationState) (h : s.Idle)
    (actions : List LocationAction) : s.Linearised fold actions where
  exclusive n := not_cancelled_and_committed h.inv actions n
  withdrawn := by
    intro before a between b after n hactions haccepted
    have hinv := run_inv fold h.inv before
    obtain ⟨r, hr, hversion, hwithdrawn⟩ := row_of_acceptsCancel fold hinv haccepted
    have hlater : ∀ r', (s.run fold (before ++ a :: between)).move.row = some r' →
        r'.version = n → r'.stage.withdrawn = true := by
      intro r' hr' hv
      rw [run_later] at hr'
      exact withdrawn_of_run (step_inv hinv a) hr hwithdrawn hr' (hv.trans hversion.symm)
    have hinv' := run_inv fold h.inv (before ++ a :: between)
    refine ⟨?_, ?_⟩
    · intro hpublishes
      obtain ⟨r', hr', hv, hs⟩ := row_of_publishes hinv' hpublishes
      have hstage := hlater r' hr' hv
      rw [hs] at hstage
      cases hstage
    intro hcommits
    obtain ⟨r', -, -, hr', -, hv, -, hs, -⟩ := committed_of_commitsMapping fold hinv' hcommits
    have hstage := hlater r' hr' hv
    rw [hs] at hstage
    cases hstage
  moved := by
    intro before a after hactions hrows
    rw [run_snoc] at hrows ⊢
    obtain ⟨n, hn⟩ := commits_of_rows fold hrows
    obtain ⟨r, r', source, hr, hr', rfl, hoperation, hs, hs', hsource, hmoved, -⟩ :=
      committed_of_commitsMapping fold (run_inv fold h.inv before) hn
    exact ⟨r, r', source, hr, hr', hoperation, hs, hs', hsource, hn, hmoved⟩
  moves := by
    intro before a after r r' hactions hr hr' hversion hs hs'
    rw [run_snoc] at hr' ⊢
    have hinv := run_inv fold h.inv before
    have hn := commits_of_stages fold hinv hr hr' hversion hs hs'
    obtain ⟨_, _, _, -, -, -, -, -, -, -, -, hrows⟩ := committed_of_commitsMapping fold hinv hn
    exact hrows
  once := by
    intro before a between b after n hactions hfirst hsecond
    have hinv := run_inv fold h.inv before
    obtain ⟨r, r', -, -, hr', hv, hoperation, -, hs', -⟩ :=
      committed_of_commitsMapping fold hinv hfirst
    have hversion : r'.version = n := (congrArg version hoperation).trans hv
    have hinv' := run_inv fold h.inv (before ++ a :: between)
    obtain ⟨r₂, -, -, hr₂, -, hv₂, -, hs₂, -⟩ := committed_of_commitsMapping fold hinv' hsecond
    rw [run_later] at hr₂
    have hsettled := settled_of_run (step_inv hinv a) hr' (by rw [hs']; rfl) hr₂
      (hv₂.trans hversion.symm)
    rw [hs₂] at hsettled
    cases hsettled
  matched := by
    intro before after r hactions hr hlocated
    have hinv := run_inv fold h.inv before
    refine ⟨(hinv.placed r hr hlocated).mapped, ?_⟩
    intro w hw
    refine start_matched rfl ?_ hw
    intro r' hr' hl
    exact (hinv.placed r' hr' hl).mapped

def located : LocationState where
  hash := ascii "h"
  recordID := "record"
  rows :=
    [⟨ascii "h", 2, ascii "old", .ready, [], ascii "s", 1, []⟩,
      ⟨ascii "alias", 2, ascii "old", .ready, [], ascii "s", 1, []⟩]

def applied : List LocationAction :=
  [.look, .read ⟨.planMove, "record", 0⟩, .write { target := ⟨2, ascii "new", []⟩ }, .start none,
    .work { plan := { rename := true } }, .work {}, .look, .read ⟨.applyMove, "record", 1⟩,
    .write {}]

/-- A move that is published by a rename and committed after a crash, and one that is cancelled
before it is published. -/
theorem operations_linearised_applied :
    let committing := applied ++ [.start none, .work {}, .work {}, .work {}, .work {}, .work {},
      .crash, .start none, .work {}]
    let cancelling := applied ++ [.look, .read ⟨.cancelStorage, "record", 1⟩]
    located.Linearised id committing ∧ located.Linearised id (cancelling ++ [.write {}]) ∧
      (located.run id committing).move.row.map RecoveryRecord.stage = some .committed ∧
      (located.run id committing).rows.map (fun row => (row.root, row.revision)) =
        [(ascii "new", 2), (ascii "new", 2)] ∧
      (located.run id cancelling).acceptsCancel id (.write {}) = some 1 := by
  have hidle : located.Idle := ⟨rfl, rfl, fun r hr => by cases hr⟩
  exact ⟨operations_linearised id located hidle _, operations_linearised id located hidle _,
    by decide +kernel, by decide +kernel, by decide +kernel⟩

end LocationState

end TorrentHub
