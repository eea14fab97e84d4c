import TorrentHub.Move.Progress

namespace TorrentHub
open Lib StorageLocationJournal Option RecoveryRecord

variable {r r' : RecoveryRecord} {s : MoveState}

variable {v : RecoveryRecord}

def CommandAction.writesBack : CommandAction → Bool
  | .applyMove | .applyLocation | .retryStorage | .cancelStorage => true
  | _ => false

/-- The command has read a row of this version and stage, which its update compares, with another
journal. -/
def PendingCommand.stale (c : PendingCommand) (row : Option RecoveryRecord) : Bool :=
  match c.record, row with
  | some read, some r =>
    c.cmd.action.writesBack && read.version == r.version && read.stage == r.stage &&
      read.journal != r.journal
  | _, _ => false

/-- A stale command writes, and is not refused. -/
def MoveState.overwritesJournal (s : MoveState) : MoveAction → Bool
  | .write env => s.command.any fun c => c.stale s.row && c.execute s.row env != s.row
  | _ => false

inductive Commanded (r : RecoveryRecord) : RecoveryRecord → Prop where
  | kept {r' : RecoveryRecord} (version : r'.version = r.version) (journal : r'.journal = r.journal)
    (fresh : r'.Fresh) : Commanded r r'
  | created {r' : RecoveryRecord} (version : r.version < r'.version) (fresh : r'.Fresh) :
    Commanded r r'

theorem Commanded.advances (h : Commanded r r') : r.Advances r' := by
  cases h with
  | kept hv hj hf => exact ⟨Nat.le_of_eq hv.symm, fun _ => hj ▸ .refl _, hf⟩
  | created hv hf => exact ⟨Nat.le_of_lt hv, fun h => absurd h (Nat.ne_of_gt hv), hf⟩

theorem Commanded.follows (h : Commanded r r') {w : Worker} (hw : w.Follows r) : w.Follows r' := by
  obtain ⟨hversion, hplaced, hcovers⟩ := hw
  cases h with
  | kept hv hj hf =>
    refine ⟨hv ▸ hversion, hplaced, fun h => ?_⟩
    have hc := hcovers (h.trans hv)
    unfold Worker.Covers at hc ⊢
    rw [hj]
    exact hc
  | created hv hf =>
    have hlt := Nat.lt_of_le_of_lt hversion hv
    exact ⟨Nat.le_of_lt hlt, hplaced, fun h => absurd h (Nat.ne_of_lt hlt)⟩

theorem RecoveryRecord.fresh_new {source : Option StorageMapping} {target : Layout} {root : String}
    (h : v.journal = { source, target, sourceRoot := root }) : v.Fresh := by
  have hempty : ∀ text : String, (text != "" && "" == text) = false := by
    intro text
    simp only [Bool.and_eq_false_iff, bne_eq_false_iff_eq, beq_eq_false_iff_ne]
    exact (eq_or_ne text "").imp_right Ne.symm
  intro _ f
  rw [h]
  cases f with
  | staging identity => exact hempty identity
  | cleanupPath path => exact hempty path
  | cleanupIdentity identity => exact hempty identity
  | _ => simp [records]

theorem createStorageOperation_some {row : Option RecoveryRecord} {v' : RecoveryRecord}
    {previous : Nat} {fenced : Bool} (h : createStorageOperation row v previous fenced = some v') :
    v' = v ∧ v.version = (row.map version).getD 0 + 1 := by
  unfold createStorageOperation at h
  split at h
  next hc =>
    simp only [Bool.and_eq_true, beq_iff_eq] at hc
    cases h
    exact ⟨rfl, by rw [hc.1.2, hc.2]⟩
  · cases h

namespace PendingCommand

variable {c : PendingCommand} {env : CommandEnv}

variable {read : RecoveryRecord} {stage : Stage}

theorem planOperation_row (c : PendingCommand) (row : Option RecoveryRecord) (env : CommandEnv)
    (reason : RecoveryReason) (stage : Stage) : c.planOperation row env reason stage = row ∨
      ∃ v, c.planOperation row env reason stage = some v ∧ v.Fresh ∧
        v.version = (row.map version).getD 0 + 1 := by
  unfold planOperation
  extract_lets allowed previous v
  by_cases hc : (!allowed || env.samePlan) = true
  · exact .inl (if_pos hc)
  rw [if_neg hc]
  cases hcreate : createStorageOperation row v previous env.fenced with
  | none => exact .inl rfl
  | some v' =>
    obtain ⟨rfl, hversion⟩ := createStorageOperation_some hcreate
    exact .inr ⟨v, rfl, fresh_new rfl, hversion⟩

theorem planOperation_commanded (hr : r.Fresh) (reason : RecoveryReason) (stage : Stage) :
    ∃ r', c.planOperation (some r) env reason stage = some r' ∧ Commanded r r' := by
  rcases c.planOperation_row (some r) env reason stage with h | ⟨v, h, hf, hv⟩
  · exact ⟨r, h, .kept rfl rfl hr⟩
  refine ⟨v, h, .created ?_ hf⟩
  rw [hv]
  exact Nat.lt_succ_self _

theorem transition_commanded {error code : String} {fenced : Bool} (hr : r.Fresh)
    (hstale : read.version = r.version → read.stage = r.stage → read.journal = r.journal)
    (hstage : stage = read.stage ∨ stage.started = true) :
    ∃ r', (transitionStorageOperation (some r)
      { read with stage, error, failureCode := code } read.stage fenced).orElse
        (fun _ => some r) = some r' ∧ Commanded r r' := by
  cases h : transitionStorageOperation (some r)
      { read with stage, error, failureCode := code } read.stage fenced with
  | none => exact ⟨r, rfl, .kept rfl rfl hr⟩
  | some r' =>
    obtain ⟨hversion, hread, rfl⟩ := updateOperation_some h
    have hj := hstale hversion.symm hread.symm
    refine ⟨_, rfl, .kept rfl hj ?_⟩
    rcases hstage with hstage | hstage
    · intro hc f
      change read.journal.records f = false
      rw [hj]
      exact hr (by rw [hread, ← hstage]; exact hc) f
    · exact fresh_of_started hstage

theorem writeBack_commanded (hr : r.Fresh)
    (hstale : read.version = r.version → read.stage = r.stage → read.journal = r.journal)
    (hstage : stage = read.stage ∨ stage.started = true) :
    ∃ r', writeBack (some r) env read stage = some r' ∧ Commanded r r' :=
  transition_commanded hr hstale hstage

theorem applyOperation_commanded (hr : r.Fresh)
    (hstale : read.version = r.version → read.stage = r.stage → read.journal = r.journal) :
    ∃ r', applyOperation (some r) env read action = some r' ∧ Commanded r r' := by
  have hsame : ∃ r', some r = some r' ∧ Commanded r r' := ⟨r, rfl, .kept rfl rfl hr⟩
  unfold applyOperation
  split
  · exact hsame
  split
  · exact hsame
  split
  · exact hsame
  split
  · exact hsame
  refine transition_commanded hr hstale (.inr ?_)
  rfl

theorem execute_commanded (hr : r.Fresh) (hc : c.stale (some r) = false) (env : CommandEnv) :
    ∃ r', c.execute (some r) env = some r' ∧ Commanded r r' := by
  have hsame : ∃ r', some r = some r' ∧ Commanded r r' := ⟨r, rfl, .kept rfl rfl hr⟩
  have hstale : ∀ read, c.record = some read → c.cmd.action.writesBack = true →
      read.version = r.version → read.stage = r.stage → read.journal = r.journal := by
    intro read hread hw hv hs
    simpa [stale, hread, hw, hv, hs] using hc
  unfold execute
  split
  · exact hsame
  split
  · exact hsame
  · exact planOperation_commanded hr _ _
  · exact planOperation_commanded hr _ _
  · split
    · exact hsame
    next read hread =>
    split
    · exact hsame
    split <;> rename_i haction
    · exact applyOperation_commanded hr (hstale read hread (by rw [haction]; rfl))
    · exact applyOperation_commanded hr (hstale read hread (by rw [haction]; rfl))
    · unfold retryOperation
      split
      · exact hsame
      · exact writeBack_commanded hr (hstale read hread (by rw [haction]; rfl)) (.inl rfl)
    · unfold cancelOperation
      split
      any_goals exact hsame
      exact writeBack_commanded hr (hstale read hread (by rw [haction]; rfl)) (.inr rfl)
    · exact hsame

theorem execute_none (h : c.execute none env = some r) : r.Fresh := by
  have hplan : ∀ reason stage, c.planOperation none env reason stage = some r → r.Fresh := by
    intro reason stage hp
    rcases c.planOperation_row none env reason stage with hn | ⟨v, hv, hf, -⟩
    · rw [hn] at hp
      cases hp
    rw [hv] at hp
    cases hp
    exact hf
  unfold execute at h
  split at h
  · cases h
  split at h
  · cases h
  · exact hplan _ _ h
  · exact hplan _ _ h
  · split at h
    · cases h
    · split at h
      · cases h
      · simp only [applyOperation, retryOperation, cancelOperation, writeBack,
          transitionStorageOperation, updateOperation, orElse_none, ite_self] at h
        split at h
        any_goals cases h
        split at h <;> cases h

end PendingCommand

namespace MoveState

variable {w : Worker} {s' : MoveState}

def Tracked (s : MoveState) : Prop :=
  match s.row with
  | none => s.worker = none
  | some r => r.Fresh ∧ ∀ w, s.worker = some w → w.Follows r

section

variable (h : s.Tracked)
include h

theorem tracked_startWorker (invalid : Option Failure) : (s.startWorker invalid).Tracked := by
  unfold startWorker
  split
  next r _ _ hrow =>
    split
    · unfold Tracked at h ⊢
      simp only [hrow] at h ⊢
      refine ⟨h.1, ?_⟩
      intro w hw
      cases hw
      cases invalid with
      | none => exact ⟨Nat.le_refl _, trivial, fun _ => ⟨.refl _, .refl _⟩⟩
      | some cause => exact ⟨Nat.le_refl _, rfl, fun _ => ⟨h.1, .refl _⟩⟩
    · exact h
  · exact h

theorem Tracked.fresh (hr : s.row = some r) : r.Fresh := by
  unfold Tracked at h
  rw [hr] at h
  exact h.1

theorem Tracked.follows (hr : s.row = some r) (hw : s.worker = some w) : w.Follows r := by
  unfold Tracked at h
  rw [hr] at h
  exact h.2 w hw

theorem Tracked.row_of_worker (hw : s.worker = some w) : ∃ r, s.row = some r := by
  unfold Tracked at h
  cases hrow : s.row with
  | none =>
    rw [hrow, hw] at h
    cases h
  | some r => exact ⟨r, rfl⟩

end

structure Advanced (s s' : MoveState) : Prop where
  tracked : s'.Tracked
  row : ∀ r, s.row = some r → ∃ r', s'.row = some r' ∧ r.Advances r'

theorem Advanced.of_row (h : s.Tracked) (h' : s'.Tracked) (hrow : s'.row = s.row) : s.Advanced s' :=
  ⟨h', fun r hr => ⟨r, hrow.trans hr, .refl (h.fresh hr)⟩⟩

theorem Advanced.of_some (hr : s.row = some r) (h : r.Advances r')
    (hr' : s'.row = some r') (hw : ∀ w, s'.worker = some w → w.Follows r') : s.Advanced s' := by
  constructor
  · unfold Tracked
    rw [hr']
    exact ⟨h.fresh, hw⟩
  intro r₀ hr₀
  rw [hr] at hr₀
  cases hr₀
  exact ⟨r', hr', h⟩

section

variable (h : s.Tracked)
include h

theorem startWorker_advanced (invalid : Option Failure) : s.Advanced (s.startWorker invalid) := by
  apply Advanced.of_row h (tracked_startWorker h invalid)
  unfold startWorker
  split
  · split <;> rfl
  · rfl

theorem work_advanced (env : WorkerEnv) : s.Advanced (s.step (.work env)) := by
  cases hw : s.worker with
  | none =>
    simp only [step, hw]
    exact .of_row h h rfl
  | some w =>
    obtain ⟨r, hr⟩ := h.row_of_worker hw
    obtain ⟨r', hr', hadv, hfollows⟩ := Worker.step_kept (h.fresh hr) (h.follows hr hw) env
    simp only [step, hw, hr]
    exact .of_some hr hadv hr' hfollows

theorem write_advanced (env : CommandEnv)
    (ha : s.overwritesJournal (.write env) = false) : s.Advanced (s.step (.write env)) := by
  cases hc : s.command with
  | none =>
    simp only [step, hc]
    exact .of_row h h rfl
  | some c =>
    simp only [overwritesJournal, hc, any_some] at ha
    simp only [step, hc]
    cases hr : s.row with
    | some r =>
      rw [hr] at ha
      by_cases hsame : c.execute (some r) env = some r
      · exact .of_some hr (.refl (h.fresh hr)) hsame fun w hw => h.follows hr hw
      have hstale : c.stale (some r) = false := by simpa [hsame] using ha
      obtain ⟨r', hr', hcmd⟩ := c.execute_commanded (h.fresh hr) hstale env
      exact .of_some hr hcmd.advances hr' fun w hw => hcmd.follows (h.follows hr hw)
    | none =>
      have hworker : s.worker = none := by
        unfold Tracked at h
        rwa [hr] at h
      refine ⟨?_, fun r hr₀ => by rw [hr] at hr₀; cases hr₀⟩
      unfold Tracked
      simp only [hworker]
      cases he : c.execute none env with
      | none => trivial
      | some r => exact ⟨c.execute_none he, fun w hw => by cases hw⟩

theorem crash_advanced : s.Advanced (s.step .crash) := by
  refine .of_row h ?_ rfl
  unfold Tracked
  simp only [step]
  cases hr : s.row with
  | none => trivial
  | some r => exact ⟨h.fresh hr, fun w hw => by cases hw⟩

end

theorem step_advanced (h : s.Tracked) (ha : s.overwritesJournal a = false) :
    s.Advanced (s.step a) := by
  cases a with
  | start invalid => exact startWorker_advanced h invalid
  | work env => exact work_advanced h env
  | read cmd =>
    simp only [step]
    split <;> exact .of_row h h rfl
  | write env => exact write_advanced h env ha
  | crash => exact crash_advanced h

end MoveState

theorem RecoveryRecord.Advances.trans (h : r.Advances r')
    (h' : r'.Advances r'') : r.Advances r'' where
  version := Nat.le_trans h.version h'.version
  facts heq := by
    have hr' : r'.version = r.version := Nat.le_antisymm (heq ▸ h'.version) h.version
    exact (h.facts hr').trans (h'.facts (heq.trans hr'.symm))
  fresh := h'.fresh

namespace MoveState

variable {before after : List MoveAction}

def run (actions : List MoveAction) : MoveState := exec step {} actions

theorem run_advances
    (h : Along step (fun s a => s.overwritesJournal a = false) {} (before ++ after))
    (hr : (run before).row = some r) :
    ∃ r', (run (before ++ after)).row = some r' ∧ r.Advances r' := by
  rw [Along.append] at h
  have hbefore : (run before).Tracked :=
    exec_invariant (fun s a hs ha => (step_advanced hs ha).tracked) rfl h.1
  have hstep : ∀ (s : MoveState) (a : MoveAction),
      (s.Tracked ∧ ∃ r', s.row = some r' ∧ r.Advances r') → s.overwritesJournal a = false →
      (s.step a).Tracked ∧ ∃ r', (s.step a).row = some r' ∧ r.Advances r' := by
    intro s a hs ha
    obtain ⟨ht, r', hr', hadv⟩ := hs
    obtain ⟨ht', hnext⟩ := step_advanced ht ha
    obtain ⟨r'', hr'', hadv'⟩ := hnext r' hr'
    exact ⟨ht', r'', hr'', hadv.trans hadv'⟩
  have hend := exec_invariant hstep ⟨hbefore, r, hr, .refl (hbefore.fresh hr)⟩ h.2
  unfold run
  rw [exec_append]
  exact hend.2

/-- In a run in which no command overwrites a journal that the worker has replaced since it was
read, the row keeps every fact of its version, and a worker after a crash finds them all. -/
theorem journal_facts_durable
    (h : Along step (fun s a => s.overwritesJournal a = false) {} (before ++ after))
    (hr : (run before).row = some r) (hr' : (run (before ++ after)).row = some r')
    (hversion : r'.version = r.version) :
    Extends r.journal r'.journal ∧
      ∀ w, (((run (before ++ after)).step .crash).step (.start none)).worker = some w →
        Extends r.journal w.journal := by
  obtain ⟨r₁, hr₁, hadv⟩ := run_advances h hr
  rw [hr'] at hr₁
  cases hr₁
  refine ⟨hadv.facts hversion, ?_⟩
  intro w hw
  simp only [step, startWorker, hr'] at hw
  split at hw
  · cases hw
    exact hadv.facts hversion
  · cases hw

def movePlan : StorageLocationJournal.Plan where
  files := [("a", "a", ⟨"file", 1, 0, "digest"⟩)]

def copyingMove : List MoveAction :=
  [.read ⟨.planMove, "record", 0⟩, .write {}, .start none, .work { plan := movePlan }, .work {},
    .read ⟨.applyMove, "record", 1⟩, .write {}, .start none, .work {}, .work {}, .work {}]

def retry : MoveAction := .read ⟨.retryStorage, "record", 1⟩

/-- A retry that reads the row after the worker's commit leaves the staging directory in it. -/
theorem staging_kept_by_later_retry :
    let staged := copyingMove ++ [.work { identity := "dir" }]
    let retried := [retry, .write {}]
    (run staged).row.map (·.journal.records (.staging "dir")) = some true ∧
      (run (staged ++ retried)).row.map (·.journal.records (.staging "dir")) = some true := by
  intro staged retried
  obtain ⟨r, hr, hstaged⟩ : ∃ r, (run staged).row = some r ∧
      r.journal.records (.staging "dir") = true := ⟨_, rfl, by decide⟩
  obtain ⟨r', hr', hversion⟩ : ∃ r', (run (staged ++ retried)).row = some r' ∧
      (run staged).row.map version = some r'.version := ⟨_, rfl, by decide⟩
  rw [hr] at hversion
  have hrun : Along step (fun s a => s.overwritesJournal a = false) {} (staged ++ retried) :=
    ⟨by decide, by decide, by decide, by decide, by decide, by decide, by decide, by decide,
      by decide, by decide, by decide, by decide, by decide, by decide, trivial⟩
  have hkept := journal_facts_durable hrun hr hr' (some.inj hversion).symm
  refine ⟨?_, ?_⟩
  · rw [hr, map_some, hstaged]
  · rw [hr', map_some, hkept.1 _ hstaged]

/-- A retry that has read the row before that commit puts the older journal back, and the staging
directory is lost. -/
theorem staging_lost_to_earlier_retry :
    let staged := copyingMove ++ [retry, .work { identity := "dir" }]
    let retried := run (staged ++ [.write {}])
    (run staged).row.map (fun r => (r.version, r.journal.records (.staging "dir"))) =
        some (1, true) ∧
      retried.row.map (fun r => (r.version, r.journal.records (.staging "dir"))) =
        some (1, false) ∧
      ((retried.step .crash).step (.start none)).worker.map
        (·.journal.records (.staging "dir")) = some false := by
  decide

end MoveState

end TorrentHub
