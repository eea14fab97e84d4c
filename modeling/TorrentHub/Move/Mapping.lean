import TorrentHub.Move.Commands

namespace TorrentHub
open Lib Option Bool Operation StorageMapping Worker

theorem Stage.settled_iff {stage : Stage} : stage.settled = true ↔
    stage = .committed ∨ stage = .cleanup ∨ stage = .completed := by
  cases stage <;> simp [settled]

theorem locationMappingMatches_iff {m : Option StorageMapping} {j : StorageLocationJournal}
    {stage : Stage} : locationMappingMatches m j stage = true ↔
      ∃ now source, m = some now ∧ j.source = some source ∧ now.storageID = source.storageID ∧
        if stage.settled then now.revision = source.revision + 1 ∧ now.layout = j.target
        else now.revision = source.revision ∧ now.layout = source.layout := by
  unfold locationMappingMatches
  cases m with
  | none => simp
  | some now =>
    cases hsource : j.source with
    | none => simp
    | some source =>
      simp only [← Stage.settled_iff, and_eq_true, beq_iff_eq, some.injEq]
      split <;> simp only [and_eq_true, beq_iff_eq]
      all_goals
        constructor
        · intro h
          exact ⟨now, source, rfl, rfl, h⟩
        · rintro ⟨_, _, rfl, rfl, h⟩
          exact h

theorem locationMappingMatches_congr {m : Option StorageMapping} {j j' : StorageLocationJournal}
    {stage stage' : Stage} (hj : j'.placement = j.placement) (hs : stage'.settled = stage.settled) :
    locationMappingMatches m j' stage' = locationMappingMatches m j stage := by
  obtain ⟨hsource, htarget⟩ := Prod.mk.injEq _ _ _ _ ▸ hj
  rw [Bool.eq_iff_iff, locationMappingMatches_iff, locationMappingMatches_iff, hsource, htarget, hs]

def StorageMapping.movedTo (row : StorageMapping) (target : Layout) (revision : Int) :
    StorageMapping :=
  { row with
    version := target.version, root := target.root, layoutPrefix := target.layoutPrefix
    state := .ready, revision }

def movedRows (rows : List StorageMapping) (source : StorageMapping) (target : Layout) :
    List StorageMapping :=
  rows.map fun row =>
    if row.storageID = source.storageID then row.movedTo target (source.revision + 1) else row

variable {r r' : RecoveryRecord} {s : LocationState} {w : Worker} {m : StorageMapping}

theorem relocate_eq (h : m.layout ≠ target) :
    m.relocate target = m.movedTo target (m.revision + 1) := by
  simp only [relocate, movedTo, if_neg h]

theorem setLayoutRows_moved {rows rows' : List StorageMapping} {target : Layout}
    (h : setLayoutRows rows m target = .ok rows') (hroot : m.root ≠ target.root) :
    rows' = movedRows rows m target := by
  obtain ⟨-, haliases, rfl⟩ := setLayoutRows_ok h
  refine List.map_congr_left fun row hrow => ?_
  by_cases hid : row.storageID = m.storageID
  · obtain ⟨hlayout, hrevision⟩ := haliases row hrow hid
    have halias : aliasOf m row = true := by simp [aliasOf, hid, hrevision]
    have hne : row.layout ≠ target := by
      rw [hlayout]
      intro h
      exact hroot (congrArg Layout.root h)
    rw [if_pos halias, if_pos hid, relocate_eq hne, hrevision]
  · have halias : ¬ aliasOf m row = true := by simp [aliasOf, hid]
    rw [if_neg halias, if_neg hid]

theorem Worker.version_of_commits {env : WorkerEnv} (h : w.commits (some r) env = true) :
    r.version = w.v.version := by
  simp only [commits, and_eq_true, isSome_iff_exists] at h
  obtain ⟨-, r', hr'⟩ := h
  exact (updateOperation_some hr').1

namespace LocationState

theorem mapping_of_fence {id : String} (h : s.fence (some m) id = true) :
    ∃ row, s.mapping = some row ∧ row.hash = m.hash ∧ row.storageID = m.storageID ∧
      row.revision = m.revision ∧ row.layout = m.layout := by
  simp only [fence, any_some, checkStorageFence] at h
  cases hrow : s.mapping with
  | none =>
    rw [hrow] at h
    cases h
  | some row =>
    simp only [hrow, map_some, and_eq_true, beq_iff_eq] at h
    refine ⟨row, rfl, h.1.1.1.1.1.1.1, h.1.1.1.1.1.2, h.1.1.1.1.2, ?_⟩
    simp only [layout, h.1.1.1.2, h.1.1.2, h.1.2]

theorem relocated_some {rows : List StorageMapping} (h : s.relocated w = some rows)
    (hroot : ∀ source, w.journal.source = some source → source.root ≠ w.journal.target.root) :
    ∃ source row, w.journal.source = some source ∧ s.mapping = some row ∧
      row.storageID = source.storageID ∧ row.layout = source.layout ∧
      rows = movedRows s.rows source w.journal.target := by
  obtain ⟨source, hsource, h⟩ := bind_eq_some_iff.1 h
  split at h
  next hfence =>
    obtain ⟨row, hrow, -, hid, -, hlayout⟩ := mapping_of_fence hfence
    exact ⟨source, row, hsource, hrow, hid, hlayout,
      setLayoutRows_moved (toOption_eq_some.1 h) (hroot source hsource)⟩
  · cases h

theorem mappingOf_movedRows {row : StorageMapping} {target : Layout}
    (h : mappingOf s.rows s.hash = some row) (hid : row.storageID = m.storageID) :
    mappingOf (movedRows s.rows m target) s.hash = some (row.movedTo target (m.revision + 1)) := by
  unfold movedRows
  rw [mappingOf_map, h, map_some, if_pos hid]
  intro row
  split <;> rfl

/-- The operation leads to another place, and the mapping is on the side of its stage. -/
structure Placed (s : LocationState) (r : RecoveryRecord) : Prop where
  apart : ∀ source, r.journal.source = some source → source.root ≠ r.journal.target.root
  mapped : locationMappingMatches s.mapping r.journal r.stage = true

structure Inv (s : LocationState) : Prop where
  worker : ∀ w, s.move.worker = some w → ∃ r, s.move.row = some r ∧ w.Sound r
  command : ∀ c, s.move.command = some c → c.Sound s.move.row
  placed : ∀ r, s.move.row = some r → r.located = true → s.Placed r

theorem Placed.congr {s' : LocationState} (h : s.Placed r) (hmapping : s'.mapping = s.mapping)
    (hj : r'.journal.placement = r.journal.placement) (hs : r'.stage.settled = r.stage.settled) :
    s'.Placed r' := by
  obtain ⟨hsource, htarget⟩ := Prod.mk.injEq _ _ _ _ ▸ hj
  refine ⟨?_, ?_⟩
  · rw [hsource, htarget]
    exact h.apart
  · rw [hmapping, locationMappingMatches_congr hj hs]
    exact h.mapped

theorem relocated_of_commits {env : WorkerEnv}
    (h : w.commits s.move.row (s.workEnv w env) = true) : ∃ rows, s.relocated w = some rows := by
  simp only [commits, and_eq_true, beq_iff_eq, isSome_iff_exists] at h
  obtain ⟨⟨⟨hpoint, -⟩, hstage⟩, r', hr'⟩ := h
  unfold commitStorageOperation updateOperation at hr'
  split at hr'
  · cases hr'
  split at hr'
  next hc =>
    simp only [and_eq_true, workEnv, workerFence, hpoint, if_pos hstage] at hc
    exact isSome_iff_exists.1 hc.1.1.1.1.2
  · cases hr'

section Work

variable {env : WorkerEnv} (hw : s.move.worker = some w)

include hw

theorem work_move : (s.work env).move = s.move.step (.work (s.workEnv w env)) := by
  simp only [work, hw]
  split
  · split <;> rfl
  · rfl

theorem work_hash : (s.work env).hash = s.hash := by
  simp only [work, hw]
  split
  · split <;> rfl
  · rfl

theorem work_rows : (s.work env).rows =
    if w.commits s.move.row (s.workEnv w env) then (s.relocated w).getD s.rows else s.rows := by
  simp only [work, hw]
  split
  · split <;> rfl
  · rfl

end Work

theorem Placed.committed {env : WorkerEnv} (h : s.Placed r) (hw : s.move.worker = some w)
    (hc : w.commits s.move.row (s.workEnv w env) = true)
    (hj : w.journal.placement = r.journal.placement)
    (hj' : r'.journal.placement = r.journal.placement) (hs : r'.stage = .committed) :
    (s.work env).Placed r' ∧ ∃ source, r.journal.source = some source ∧
      (s.work env).rows = movedRows s.rows source r.journal.target := by
  obtain ⟨hsource, htarget⟩ := Prod.mk.injEq _ _ _ _ ▸ hj
  obtain ⟨hsource', htarget'⟩ := Prod.mk.injEq _ _ _ _ ▸ hj'
  obtain ⟨rows, hrows⟩ := relocated_of_commits hc
  obtain ⟨source, row, hjournal, hmapping, hid, -, rfl⟩ := relocated_some hrows (by
    rw [hsource, htarget]
    exact h.apart)
  rw [hsource] at hjournal
  have hmoved : (s.work env).rows = movedRows s.rows source r.journal.target := by
    rw [work_rows hw, hc, hrows, htarget]
    rfl
  have hnow : (s.work env).mapping = some (row.movedTo r.journal.target (source.revision + 1)) := by
    unfold mapping
    rw [hmoved, work_hash hw]
    exact mappingOf_movedRows hmapping hid
  refine ⟨⟨?_, ?_⟩, source, hjournal, hmoved⟩
  · rw [hsource', htarget']
    exact h.apart
  rw [hnow, locationMappingMatches_iff]
  refine ⟨_, source, rfl, hsource'.trans hjournal, hid, ?_⟩
  rw [hs, htarget']
  exact ⟨rfl, rfl⟩

structure Worked (s : LocationState) (env : WorkerEnv) (w : Worker) (r r' : RecoveryRecord) :
    Prop where
  before : s.move.row = some r
  after : (s.work env).move.row = some r'
  operation : r'.operation = r.operation
  kept : w.commits (some r) (s.workEnv w env) = false →
    r.stage.Works r'.stage ∧ (s.work env).rows = s.rows
  committed : w.commits (some r) (s.workEnv w env) = true →
    r.version = w.v.version ∧ r.stage = .published ∧ r'.stage = .committed
  worker : ∀ w', (s.work env).move.worker = some w' → w'.Sound r'
  command : ∀ c, (s.work env).move.command = some c → c.Sound (some r')

theorem work_worked (h : s.Inv) (env : WorkerEnv) (hw : s.move.worker = some w) :
    ∃ r r', Worked s env w r r' := by
  obtain ⟨r, hr, hsound⟩ := h.worker w hw
  have htraced := step_traced hsound (s.workEnv w env)
  have hmove : (s.work env).move = s.move.step (.work (s.workEnv w env)) := work_move hw
  simp only [MoveState.step, hw, hr] at hmove
  have hcommand : ∀ c, (s.work env).move.command = some c →
      c.Sound (w.step (some r) (s.workEnv w env)).1 := by
    intro c hc
    rw [hmove] at hc
    have hsound := h.command c hc
    rw [hr] at hsound
    exact hsound.worked htraced
  obtain ⟨r', hr', hoperation, hstage, hworker⟩ := htraced
  refine ⟨r, r', hr, ?_, hoperation, ?_, ?_, ?_, ?_⟩
  · rw [hmove]
    exact hr'
  · intro hc
    rw [hc] at hstage
    refine ⟨hstage, ?_⟩
    rw [work_rows hw, hr, hc]
    rfl
  · intro hc
    rw [hc] at hstage
    exact ⟨version_of_commits hc, hstage⟩
  · intro w' hw'
    rw [hmove] at hw'
    exact hworker w' hw'
  · intro c hc
    rw [← hr']
    exact hcommand c hc

/-- Within an operation the stage reaches `committed` only by a commit of the mapping; a new
operation has a later version. -/
def Evolves (commits : Option Nat) (r r' : RecoveryRecord) : Prop :=
  r'.operation = r.operation ∧ (r.stage.Works r'.stage ∨ r.stage.Ordered r'.stage ∨
    commits = some r.version ∧ r.stage = .published ∧ r'.stage = .committed) ∨
  r.version < r'.version

theorem Evolves.refl (commits : Option Nat) (r : RecoveryRecord) : Evolves commits r r :=
  .inl ⟨rfl, .inl (.refl _)⟩

theorem Evolves.leads {commits : Option Nat} (h : Evolves commits r r') :
    r'.operation = r.operation ∧ r.stage.Leads r'.stage ∨ r.version < r'.version := by
  refine h.imp_left fun h => ⟨h.1, ?_⟩
  exact h.2.imp_right fun h => h.imp_right fun h => h.2

theorem Worked.evolves {env : WorkerEnv} (h : Worked s env w r r') (hw : s.move.worker = some w) :
    Evolves (s.commitsMapping (.work env)) r r' := by
  refine .inl ⟨h.operation, ?_⟩
  cases hc : w.commits (some r) (s.workEnv w env) with
  | false => exact .inl (h.kept hc).1
  | true =>
    obtain ⟨hv, hstages⟩ := h.committed hc
    refine .inr (.inr ⟨?_, hstages⟩)
    simp only [commitsMapping, hw, h.before, hc, bind_some, if_true, hv]

theorem work_inv (h : s.Inv) (env : WorkerEnv) : (s.work env).Inv := by
  cases hw : s.move.worker with
  | none =>
    simp only [work, hw]
    exact h
  | some w =>
    obtain ⟨r, r', hstep⟩ := work_worked h env hw
    refine ⟨?_, ?_, ?_⟩
    · intro w' hw'
      exact ⟨r', hstep.after, hstep.worker w' hw'⟩
    · intro c hc
      rw [hstep.after]
      exact hstep.command c hc
    · intro r₀ hr₀ hlocated
      rw [hstep.after] at hr₀
      cases hr₀
      have hplacement : r'.journal.placement = r.journal.placement :=
        congrArg placement hstep.operation
      have hreason : r'.reason = r.reason := congrArg reason hstep.operation
      have hplaced : s.Placed r := h.placed r hstep.before (by
        rw [RecoveryRecord.located, ← hreason]
        exact hlocated)
      cases hc : w.commits (some r) (s.workEnv w env) with
      | false =>
        obtain ⟨hstage, hrows⟩ := hstep.kept hc
        refine hplaced.congr ?_ hplacement hstage.settled_eq
        unfold mapping
        rw [hrows, work_hash hw]
      | true =>
        obtain ⟨hv, -, hcommitted⟩ := hstep.committed hc
        obtain ⟨r₁, hr₁, hsound⟩ := h.worker w hw
        rw [hstep.before] at hr₁
        cases hr₁
        have hj := hsound.holds.placement hsound.holds.journal hv
        exact (hplaced.committed hw (by rw [hstep.before]; exact hc) hj hplacement hcommitted).1

section Command

variable {fold : Bytes → Bytes} {c : PendingCommand} {env : CommandEnv}

theorem apart_of_accepted (h : (s.commandEnv fold c env).accepted = true)
    (hplan : c.cmd.action = .planMove ∨ c.cmd.action = .analyzeLocation) :
    ∃ m, s.looked = some m ∧ m.root ≠ env.target.root := by
  simp only [commandEnv, and_eq_true, not_eq_true', isSome_iff_exists] at h
  obtain ⟨⟨-, m, hm⟩, hoverlap⟩ := h
  refine ⟨m, hm, ?_⟩
  intro hroot
  have haction : (c.cmd.action == .planMove || c.cmd.action == .analyzeLocation) = true := by
    simpa using hplan
  simp [planOverlaps, haction, hm, hroot, overlap] at hoverlap

theorem placed_of_created (hplacement : r'.journal.placement =
      ((s.commandEnv fold c env).source, (s.commandEnv fold c env).target))
    (hstage : r'.stage.settled = false) (haccepted : (s.commandEnv fold c env).accepted = true)
    (hfenced : (s.commandEnv fold c env).fenced = true)
    (hplan : c.cmd.action = .planMove ∨ c.cmd.action = .analyzeLocation) : s.Placed r' := by
  obtain ⟨m, hm, hroot⟩ := apart_of_accepted haccepted hplan
  obtain ⟨hsource, htarget⟩ := Prod.mk.injEq _ _ _ _ ▸ hplacement
  change r'.journal.source = s.looked at hsource
  change r'.journal.target = env.target at htarget
  rw [hm] at hsource
  simp only [commandEnv, and_eq_true, hm] at hfenced
  obtain ⟨row, hrow, -, hid, hrevision, hlayout⟩ := mapping_of_fence hfenced.2
  refine ⟨?_, ?_⟩
  · intro source h
    rw [hsource] at h
    cases h
    rw [htarget]
    exact hroot
  · rw [locationMappingMatches_iff]
    refine ⟨row, m, hrow, hsource, hid, ?_⟩
    rw [hstage]
    exact ⟨hrevision, hlayout⟩

theorem Placed.commanded (h : s.Inv)
    (hcommands : Commands c (s.commandEnv fold c env) s.move.row row') (hr' : row' = some r')
    (hlocated : r'.located = true) : s.Placed r' := by
  cases hcommands with
  | same => exact h.placed r' hr' hlocated
  | ordered hrow hoperation hstage =>
    rename_i r r₁
    cases hr'
    have hreason : r'.reason = r.reason := congrArg reason hoperation
    have hplaced : s.Placed r := h.placed r hrow (by
      rw [RecoveryRecord.located, ← hreason]
      exact hlocated)
    exact hplaced.congr rfl (congrArg placement hoperation) hstage.settled_eq
  | created hreplaced hversion hstage hplacement haccepted hfenced hplan =>
    cases hr'
    exact placed_of_created hplacement hstage haccepted hfenced hplan

theorem Evolves.commanded {row' : Option RecoveryRecord} {commits : Option Nat}
    (hcommands : Commands c (s.commandEnv fold c env) (some r) row') :
    ∃ r', row' = some r' ∧ Evolves commits r r' := by
  cases hcommands with
  | same => exact ⟨r, rfl, .refl commits r⟩
  | ordered hrow hoperation hstage =>
    cases hrow
    exact ⟨_, rfl, .inl ⟨hoperation, .inr (.inl hstage)⟩⟩
  | created hreplaced hversion hstage hplacement haccepted hfenced hplan =>
    refine ⟨_, rfl, .inr ?_⟩
    rw [hversion]
    exact Nat.lt_succ_self _

theorem write_commands (fold : Bytes → Bytes) (env : CommandEnv) (h : s.Inv)
    (hc : s.move.command = some c) :
    Commands c (s.commandEnv fold c env) s.move.row (s.step fold (.write env)).move.row := by
  have hcommands := c.execute_commands (h.command c hc) (s.commandEnv fold c env)
  simp only [step, hc, MoveState.step]
  exact hcommands

theorem write_inv (h : s.Inv) : (s.step fold (.write env)).Inv := by
  cases hc : s.move.command with
  | none =>
    simp only [step, hc]
    exact h
  | some c =>
    have hcommands := write_commands fold env h hc
    have hworker : (s.step fold (.write env)).move.worker = s.move.worker := by
      simp only [step, hc, MoveState.step]
    have hcommand : (s.step fold (.write env)).move.command = none := by
      simp only [step, hc, MoveState.step]
    have hmapping : (s.step fold (.write env)).mapping = s.mapping := by
      simp only [step, hc, mapping]
    refine ⟨?_, ?_, ?_⟩
    · intro w hw
      rw [hworker] at hw
      obtain ⟨r, hr, hsound⟩ := h.worker w hw
      rw [hr] at hcommands
      exact hsound.commanded hcommands
    · intro c' hc'
      rw [hcommand] at hc'
      cases hc'
    · intro r' hr' hlocated
      exact (Placed.commanded h hcommands hr' hlocated).congr hmapping rfl rfl

end Command

theorem start_move (s : LocationState) (invalid : Option Failure) :
    (s.start invalid).mapping = s.mapping ∧
      ((s.start invalid).move = s.move ∨ ∃ r point, s.move.row = some r ∧
        (r.reason = .move ∨ r.reason = .locate) ∧
        (point = .loop ∨ ∃ cause, point = .failing r cause) ∧ (s.start invalid).move =
          { s.move with worker := some { v := r, journal := r.journal, point } }) := by
  have hpoint : ∀ (r : RecoveryRecord) (failed : Option Failure),
      failed.elim Point.loop (.failing r) = .loop ∨
        ∃ cause, failed.elim Point.loop (.failing r) = .failing r cause := by
    intro r failed
    cases failed with
    | none => exact .inl rfl
    | some cause => exact .inr ⟨cause, rfl⟩
  unfold start
  split
  next r m hworker hcommand hrow hmapping =>
    split
    · exact ⟨rfl, .inl rfl⟩
    refine ⟨rfl, ?_⟩
    simp only [MoveState.step, MoveState.startWorker, hworker, hcommand, hrow]
    split
    next hr => exact .inr ⟨r, _, rfl, hr.1, hpoint r _, rfl⟩
    · exact .inl rfl
  · exact ⟨rfl, .inl rfl⟩

theorem start_inv (h : s.Inv) (invalid : Option Failure) : (s.start invalid).Inv := by
  obtain ⟨hmapping, hmove | ⟨r, point, hr, hlocated, hpoint, hmove⟩⟩ := start_move s invalid
  · refine ⟨?_, ?_, ?_⟩
    · rw [hmove]
      exact h.worker
    · rw [hmove]
      exact h.command
    · rw [hmove]
      intro r hr hl
      exact (h.placed r hr hl).congr hmapping rfl rfl
  · refine ⟨?_, ?_, ?_⟩
    · rw [hmove]
      intro w hw
      cases hw
      refine ⟨r, hr, ⟨Nat.le_refl _, fun _ => rfl, rfl, hlocated⟩, ?_⟩
      rcases hpoint with rfl | ⟨cause, rfl⟩
      · exact ⟨trivial, fun hs => ⟨rfl, hs⟩⟩
      · rfl
    · rw [hmove]
      exact h.command
    · rw [hmove]
      intro r hr hl
      exact (h.placed r hr hl).congr hmapping rfl rfl

theorem step_inv {fold : Bytes → Bytes} (h : s.Inv) (a : LocationAction) : (s.step fold a).Inv := by
  cases a with
  | start invalid => exact start_inv h invalid
  | work env => exact work_inv h env
  | look =>
    simp only [step]
    split
    · exact h
    · exact ⟨h.worker, h.command, fun r hr hl => (h.placed r hr hl).congr rfl rfl rfl⟩
  | read cmd =>
    simp only [step, MoveState.step]
    split
    · exact ⟨h.worker, h.command, fun r hr hl => (h.placed r hr hl).congr rfl rfl rfl⟩
    refine ⟨h.worker, ?_, fun r hr hl => (h.placed r hr hl).congr rfl rfl rfl⟩
    intro c hc
    cases hc
    unfold PendingCommand.Sound
    cases hr : s.move.row with
    | none => rfl
    | some r => exact ⟨r, rfl, rfl, id, id⟩
  | write env => exact write_inv h
  | crash =>
    refine ⟨?_, ?_, fun r hr hl => (h.placed r hr hl).congr rfl rfl rfl⟩
    · intro w hw
      cases hw
    · intro c hc
      cases hc

theorem step_evolves (fold : Bytes → Bytes) (h : s.Inv) (a : LocationAction)
    (hr : s.move.row = some r) :
    ∃ r', (s.step fold a).move.row = some r' ∧ Evolves (s.commitsMapping a) r r' := by
  cases a with
  | start invalid =>
    refine ⟨r, ?_, .refl _ r⟩
    obtain ⟨-, hmove | ⟨r₀, point, -, -, -, hmove⟩⟩ := start_move s invalid
    · exact (congrArg MoveState.row hmove).trans hr
    · exact (congrArg MoveState.row hmove).trans hr
  | work env =>
    cases hw : s.move.worker with
    | none =>
      refine ⟨r, ?_, .refl _ r⟩
      simp only [step, work, hw]
      exact hr
    | some w =>
      obtain ⟨r₀, r', hstep⟩ := work_worked h env hw
      have hr₀ := hstep.before
      rw [hr] at hr₀
      cases hr₀
      exact ⟨r', hstep.after, hstep.evolves hw⟩
  | look =>
    refine ⟨r, ?_, .refl _ r⟩
    simp only [step]
    split <;> exact hr
  | read cmd =>
    refine ⟨r, ?_, .refl _ r⟩
    simp only [step, MoveState.step]
    split <;> exact hr
  | write env =>
    cases hc : s.move.command with
    | none =>
      refine ⟨r, ?_, .refl _ r⟩
      simp only [step, hc]
      exact hr
    | some c =>
      have hcommands := write_commands fold env h hc
      rw [hr] at hcommands
      exact Evolves.commanded hcommands
  | crash => exact ⟨r, hr, .refl _ r⟩

theorem committed_of_commitsMapping (fold : Bytes → Bytes) {a : LocationAction} {n : Nat}
    (h : s.Inv) (hn : s.commitsMapping a = some n) :
    ∃ r r' source, s.move.row = some r ∧ (s.step fold a).move.row = some r' ∧ r.version = n ∧
      r'.operation = r.operation ∧ r.stage = .published ∧ r'.stage = .committed ∧
      r'.journal.source = some source ∧
      (s.step fold a).rows = movedRows s.rows source r'.journal.target ∧
      (s.step fold a).rows ≠ s.rows := by
  cases a with
  | work env =>
    obtain ⟨w, hw, hn⟩ := bind_eq_some_iff.1 hn
    split at hn
    next hc =>
      cases hn
      obtain ⟨r, r', hstep⟩ := work_worked h env hw
      have hcommits := hc
      rw [hstep.before] at hcommits
      obtain ⟨hv, hpublished, hcommitted⟩ := hstep.committed hcommits
      obtain ⟨r₁, hr₁, hsound⟩ := h.worker w hw
      rw [hstep.before] at hr₁
      cases hr₁
      have hreason : w.v.reason = r.reason := congrArg reason (hsound.holds.operation hv.symm)
      have hlocated : r.located = true := by
        have := hsound.holds.located
        rw [hreason] at this
        simpa [RecoveryRecord.located] using this
      have hplaced := h.placed r hstep.before hlocated
      have hplacement : r'.journal.placement = r.journal.placement :=
        congrArg placement hstep.operation
      obtain ⟨hplaced', source, hsource, hrows⟩ := hplaced.committed hw hc
        (hsound.holds.placement hsound.holds.journal hv) hplacement hcommitted
      obtain ⟨hsource', htarget'⟩ := Prod.mk.injEq _ _ _ _ ▸ hplacement
      refine ⟨r, r', source, hstep.before, hstep.after, hv, hstep.operation, hpublished,
        hcommitted, hsource'.trans hsource, ?_, ?_⟩
      · rw [htarget']
        exact hrows
      intro heq
      have hmapping : (s.work env).mapping = s.mapping := by
        unfold mapping
        rw [work_hash hw]
        exact congrArg (mappingOf · s.hash) heq
      obtain ⟨now, from₁, hnow, hfrom₁, -, hside⟩ := locationMappingMatches_iff.1 hplaced.mapped
      obtain ⟨now', from₂, hnow', hfrom₂, -, hside'⟩ :=
        locationMappingMatches_iff.1 hplaced'.mapped
      rw [hpublished] at hside
      rw [hcommitted] at hside'
      rw [hmapping, hnow] at hnow'
      rw [hsource', hfrom₁] at hfrom₂
      cases hnow'
      cases hfrom₂
      have hrevision : from₁.revision = from₁.revision + 1 := hside.1.symm.trans hside'.1
      omega
    · cases hn
  | _ => cases hn

end LocationState

end TorrentHub
