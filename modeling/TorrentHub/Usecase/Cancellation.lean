import TorrentHub.Usecase.Deletion
import Mathlib.Data.List.Induction

namespace TorrentHub

open Lib List DeletionState DeletionRecord DeletionEvent

structure DeletionRecord.Sound (r : DeletionRecord) : Prop where
  pending : r.mode ≠ .none → ∃ row, r.recovery = some row ∧ row.reason = .pending ∧
    row.stage ≠ .cancelled
  empty : r.mode = .none → ∀ row, r.recovery = some row →
    row.reason ≠ .pending ∧ row.stage ≠ .cancelRequested
  cancelled : ∀ row, r.recovery = some row → row.reason = .cancelled → row.stage = .cancelled
  manifest : r.manifest ≠ none → r.mode ≠ .none

/-- The commands delete the record only where the mode is set, and do not advance a deletion to its
cancellation. -/
def Armed (mode : Prop) : List DeletionCommand → Prop
  | [] => True
  | .beginForget :: commands | .beginCleanup _ :: commands | .saveCleanup _ :: commands =>
    Armed True commands
  | .deleteRow :: commands => mode ∧ Armed mode commands
  | .advance stage _ :: commands => stage ≠ .cancelled ∧ Armed mode commands
  | _ :: commands => Armed mode commands

/-- Right before every unlink is the gate for its path; the gate before the first command was
for `path`. -/
def Guarded (path : Option String) : List DeletionCommand → Prop
  | [] => True
  | .gate path' :: commands => Guarded path' commands
  | .unlink p :: commands => path = some p ∧ Guarded none commands
  | _ :: commands => Guarded none commands

def DeletionEvent.unlinks : DeletionEvent → Bool
  | .unlinked _ => true
  | _ => false

def DeletionEvent.proceeds : DeletionEvent → Bool
  | .advanced | .gated _ | .deleted => true
  | _ => false

theorem Armed.mono {p q : Prop} {commands : List DeletionCommand} (hpq : p → q)
    (h : Armed p commands) : Armed q commands := by
  induction commands with
  | nil => trivial
  | cons c rest ih =>
    cases c with
    | deleteRow => exact ⟨hpq h.1, ih h.2⟩
    | beginForget | beginCleanup paths | saveCleanup paths => exact h
    | checkPayload | detach | gate path | unlink path | markPartial | complete v => exact ih h
    | advance stage removed => exact ⟨h.1, ih h.2⟩

namespace DeletionState

variable {s : DeletionState} {r r' : DeletionRecord} {row : DeletionRow}
  {commands rest : List DeletionCommand} {outcome : DeletionOutcome} {version : Nat}
  {post pre : List DeletionEvent} {stored : Option DeletionRecord}

section programs

variable {admitted : Bool} {paths final : List String}

theorem armed_removePaths (paths : List String) (h : Armed p commands) :
    Armed p (removePaths paths ++ commands) := by
  unfold removePaths
  generalize paths.flatMap (fun p => [p, p ++ ".part"]) = owned
  induction owned with
  | nil => exact h
  | cons path owned ih => exact ih

theorem guarded_removePaths (paths : List String) (h : Guarded none commands) :
    Guarded none (removePaths paths ++ commands) := by
  unfold removePaths
  generalize paths.flatMap (fun p => [p, p ++ ".part"]) = owned
  induction owned with
  | nil => exact h
  | cons path owned ih => exact ⟨rfl, ih⟩

theorem armed_deletePayload (hs : r.Sound) (paths final : List String) :
    Armed (r.mode ≠ .none) (deletePayload r paths final) := by
  unfold deletePayload
  split
  next owned hmanifest =>
    have hmode := hs.manifest (by rw [hmanifest]; nofun)
    exact ⟨nofun, nofun, nofun, armed_removePaths owned ⟨nofun, hmode, trivial⟩⟩
  · exact ⟨nofun, nofun, nofun, armed_removePaths final ⟨nofun, trivial, trivial⟩⟩

theorem guarded_deletePayload (r : DeletionRecord) (paths final : List String) :
    Guarded none (deletePayload r paths final) := by
  unfold deletePayload
  split
  next owned _ => exact guarded_removePaths owned trivial
  · exact guarded_removePaths final trivial

structure Entered (r : DeletionRecord) (commands : List DeletionCommand) : Prop where
  armed : Armed (r.mode ≠ .none) commands
  guarded : Guarded none commands

theorem delete_entered (hs : r.Sound)
    (h : delete r deleteFiles paths final admitted = some commands) : Entered r commands := by
  unfold delete at h
  split at h
  · cases h
  split at h
  · cases h
  split at h
  · cases h
    exact ⟨armed_deletePayload hs paths final, guarded_deletePayload r paths final⟩
  cases h
  exact ⟨⟨nofun, trivial, trivial⟩, trivial⟩

theorem retryDeletion_entered (hs : r.Sound)
    (h : retryDeletion r version paths final admitted = some commands) : Entered r commands := by
  unfold retryDeletion at h
  split at h
  · cases h
  split at h
  · cases h
  split at h
  · cases h
  split at h
  · cases h
    exact ⟨armed_deletePayload hs paths final, guarded_deletePayload r paths final⟩
  next hmode =>
    cases h
    exact ⟨⟨by rw [hmode]; nofun, trivial⟩, trivial⟩
  · cases h

theorem forgetRecovered_entered
    (h : forgetRecovered r version admitted = some commands) : Entered r commands := by
  unfold forgetRecovered at h
  split at h
  · cases h
  split at h
  · cases h
  split at h
  · cases h
  cases h
  exact ⟨⟨trivial, trivial⟩, trivial⟩

theorem joinCancel_entered (h : joinCancel r version = some commands) : Entered r commands := by
  unfold joinCancel at h
  split at h
  · cases h
  cases h
  exact ⟨trivial, trivial⟩

end programs

section statements

theorem sound_setMode {mode : DeletionMode} {manifest : Option (List String × Bool)}
    (hs : r.Sound) (hmode : mode ≠ .none) :
    ({ r with mode, manifest, recovery := r.deletionIntent } : DeletionRecord).Sound := by
  cases hold : r.mode with
  | none =>
    have hintent : ∃ v, r.deletionIntent = some ⟨v, .pending, .intent, .none⟩ := by
      unfold deletionIntent
      rw [hold]
      cases r.recovery with
      | none => exact ⟨1, rfl⟩
      | some row => exact ⟨row.version + 1, rfl⟩
    obtain ⟨v, hintent⟩ := hintent
    refine ⟨fun _ => ⟨_, hintent, rfl, nofun⟩, fun h => absurd h hmode, ?_, fun _ => hmode⟩
    intro row hrow hreason
    rw [show r.deletionIntent = some row from hrow] at hintent
    cases hintent
    cases hreason
  | keep | payload =>
    have hintent : r.deletionIntent = r.recovery := by
      rw [deletionIntent, hold]
    rw [hintent]
    exact ⟨fun _ => hs.pending (by rw [hold]; nofun), fun h => absurd h hmode, hs.cancelled,
      fun _ => hmode⟩

theorem sound_beginForget (hs : r.Sound) (h : r.beginForget = some r') :
    r'.Sound ∧ r'.mode ≠ .none := by
  unfold beginForget at h
  split at h
  · cases h
  cases h
  exact ⟨sound_setMode hs nofun, nofun⟩

theorem sound_writeCleanupPaths {paths : List String} {ready : Bool} (hs : r.Sound)
    (h : r.writeCleanupPaths paths ready = some r') : r'.Sound ∧ r'.mode ≠ .none := by
  unfold writeCleanupPaths at h
  split at h
  · cases h
  cases h
  exact ⟨sound_setMode hs nofun, nofun⟩

theorem sound_advance (hs : r.Sound)
    (hstage : stage ≠ .cancelled) (h : r.advanceDeletion stage removed = some r') :
    r'.Sound ∧ r'.mode = r.mode := by
  unfold advanceDeletion at h
  split at h
  next row hrow =>
    split at h
    next hc =>
      cases h
      have hmode : r.mode ≠ .none := fun hnone => (hs.empty hnone row hrow).1 hc.1
      refine ⟨⟨fun _ => ⟨_, rfl, hc.1, hstage⟩, fun hnone => absurd hnone hmode, ?_, hs.manifest⟩,
        rfl⟩
      intro row' hrow' hreason
      cases hrow'
      rw [show row.reason = .cancelled from hreason] at hc
      exact absurd hc.1 nofun
    · cases h
  · cases h

theorem sound_markPartial (hs : r.Sound) :
    r.markDeletionPartial.Sound ∧ r.markDeletionPartial.mode = r.mode := by
  unfold markDeletionPartial
  split
  next row hrow =>
    split
    next hc =>
      have hmode : r.mode ≠ .none := fun hnone => (hs.empty hnone row hrow).1 hc
      obtain ⟨row', hrow', -, hstage⟩ := hs.pending hmode
      rw [hrow] at hrow'
      cases hrow'
      refine ⟨⟨fun _ => ⟨_, rfl, hc, hstage⟩, fun hnone => absurd hnone hmode, ?_, hs.manifest⟩,
        rfl⟩
      intro row' hrow' hreason
      cases hrow'
      exact hs.cancelled row hrow hreason
    · exact ⟨hs, rfl⟩
  · exact ⟨hs, rfl⟩

theorem sound_request (hs : r.Sound) (h : r.requestDeletionCancel version = some r') :
    r'.Sound ∧ r'.mode = r.mode ∧ r'.paused ∧
      ∃ row, r'.recovery = some row ∧ (row.stage = .cancelRequested ∨ row.reason = .cancelled) := by
  unfold requestDeletionCancel at h
  split at h
  next row hrow =>
    split at h
    next hc =>
      cases h
      by_cases hmode : r.mode = .none
      · have hempty := hs.empty hmode row hrow
        obtain ⟨hreason, hstage⟩ := hc.2.resolve_left hempty.1
        refine ⟨⟨fun hset => absurd hmode hset, ?_, ?_, hs.manifest⟩, rfl, rfl, _, rfl,
          .inr hreason⟩
        · intro _ row' hrow'
          cases hrow'
          rw [if_pos hstage]
          exact hempty
        intro row' hrow' _
        cases hrow'
        rw [if_pos hstage]
        exact hstage
      · obtain ⟨row', hrow', hreason, hstage⟩ := hs.pending hmode
        rw [hrow] at hrow'
        cases hrow'
        refine ⟨⟨fun _ => ⟨_, rfl, hreason, ?_⟩, fun hnone => absurd hnone hmode, ?_,
          hs.manifest⟩, rfl, rfl, _, rfl, .inl (if_neg hstage)⟩
        · rw [if_neg hstage]
          nofun
        intro row' hrow' hcancelled
        cases hrow'
        rw [show row.reason = .cancelled from hcancelled] at hreason
        cases hreason
    · cases h
  · cases h

theorem sound_complete (h : r.completeDeletionCancel version = some r') :
    r'.Sound ∧ r'.mode = .none ∧ r'.manifest = none ∧ r'.paused = r.paused ∧
      ∃ row, r'.recovery = some row ∧ row.reason = .cancelled := by
  unfold completeDeletionCancel at h
  split at h
  next row hrow =>
    split at h
    · cases h
      refine ⟨⟨fun hset => absurd rfl hset, ?_, ?_, fun hset => absurd rfl hset⟩, rfl, rfl, rfl, _,
        rfl, rfl⟩
      · intro _ row' hrow'
        cases hrow'
        exact ⟨nofun, nofun⟩
      intro row' hrow' _
      cases hrow'
      rfl
    · cases h
  · cases h

end statements

structure Inv (s : DeletionState) : Prop where
  sound : ∀ r, s.record = some r → r.Sound
  armed : ∀ r commands, s.record = some r → s.holder = some commands →
    Armed (r.mode ≠ .none) commands
  guarded : ∀ commands, s.holder = some commands →
    ∃ path, Guarded path commands ∧ ∀ p, path = some p → .gated (some p) ∈ s.log

theorem inv_start (paused : Bool) (earlier : Option (Nat × Bool)) : Inv (start paused earlier) := by
  refine ⟨?_, nofun, nofun⟩
  intro r hr
  cases hr
  refine ⟨fun h => absurd rfl h, ?_, ?_, fun h => absurd rfl h⟩
  · intro _ row hrow
    obtain ⟨e, -, rfl⟩ := Option.map_eq_some_iff.1 hrow
    exact ⟨nofun, nofun⟩
  intro row hrow hreason
  obtain ⟨e, -, rfl⟩ := Option.map_eq_some_iff.1 hrow
  cases hreason

/-- After the request and until the mode is set again the row fends off the deletion; `post` is what
has happened since. -/
structure Held (post pre : List DeletionEvent) (s : DeletionState) : Prop where
  shield : ∃ r row, s.record = some r ∧ r.recovery = some row ∧
    (row.stage = .cancelRequested ∨ row.reason = .cancelled)
  quiet : ∀ e ∈ post, e.proceeds = false
  once : post.countP DeletionEvent.unlinks ≤ 1
  spent : post.any DeletionEvent.unlinks → ∀ commands, s.holder = some commands →
    Guarded none commands
  before : ∀ p, .unlinked p ∈ post → .gated (some p) ∈ pre
  paused : .commanded ∉ post → ∀ r, s.record = some r → r.paused

section inv

variable {checks : DeletionRecord → Option (List DeletionCommand)}

theorem Inv.of_free (hsound : ∀ r, s.record = some r → r.Sound) (hfree : s.holder = none) :
    Inv s := by
  refine ⟨hsound, ?_, ?_⟩
  · intro r commands _ hh
    rw [hfree] at hh
    cases hh
  intro commands hh
  rw [hfree] at hh
  cases hh

theorem Inv.leave (h : Inv s) : Inv s.leave := .of_free h.sound rfl

theorem Held.leave (h : Held post pre s) : Held post pre s.leave := by
  refine ⟨h.shield, h.quiet, h.once, ?_, h.before, h.paused⟩
  intro _ commands hh
  cases hh

theorem enter_eq (s : DeletionState) (checks : DeletionRecord → Option (List DeletionCommand)) :
    s.enter checks = s ∨ ∃ r commands, s.record = some r ∧ checks r = some commands ∧
      s.enter checks = { s with holder := some commands, removedAny := false } := by
  unfold enter
  split
  next r _ hr =>
    split
    next commands hc => exact .inr ⟨r, commands, hr, hc, rfl⟩
    · exact .inl rfl
  · exact .inl rfl

theorem Inv.enter (h : Inv s)
    (hchecks : ∀ r commands, r.Sound → checks r = some commands → Entered r commands) :
    Inv (s.enter checks) := by
  rcases enter_eq s checks with heq | ⟨r, commands, hr, hc, heq⟩
  · rw [heq]
    exact h
  have hentered := hchecks r commands (h.sound r hr) hc
  rw [heq]
  refine ⟨h.sound, ?_, ?_⟩
  · intro r' commands' hr' hc'
    rw [show s.record = some r' from hr'] at hr
    cases hr
    cases hc'
    exact hentered.armed
  · intro commands' hc'
    cases hc'
    exact ⟨none, hentered.guarded, nofun⟩

theorem Held.enter (hi : Inv s) (h : Held post pre s)
    (hchecks : ∀ r commands, r.Sound → checks r = some commands → Entered r commands) :
    Held post pre (s.enter checks) := by
  rcases enter_eq s checks with heq | ⟨r, commands, hr, hc, heq⟩
  · rw [heq]
    exact h
  rw [heq]
  refine ⟨h.shield, h.quiet, h.once, ?_, h.before, h.paused⟩
  intro _ commands' hc'
  cases hc'
  exact (hchecks r commands (hi.sound r hr) hc).guarded

theorem Inv.proceed (path : Option String) (hrecord : s.record = some r) (hsound : r.Sound)
    (hholder : s.holder = some rest) (harmed : Armed (r.mode ≠ .none) rest)
    (hguarded : Guarded path rest) (hpath : ∀ p, path = some p → .gated (some p) ∈ s.log) :
    Inv s := by
  refine ⟨?_, ?_, ?_⟩
  · intro r'' hr''
    rw [hrecord] at hr''
    cases hr''
    exact hsound
  · intro r'' commands' hr'' hc'
    rw [hrecord] at hr''
    cases hr''
    rw [hholder] at hc'
    cases hc'
    exact harmed
  · intro commands' hc'
    rw [hholder] at hc'
    cases hc'
    exact ⟨path, hguarded, hpath⟩

theorem Inv.setMode (h : Inv s)
    (hstored : ∀ r', stored = some r' → r'.Sound ∧ r'.mode ≠ .none) (harmed : Armed True rest)
    (hguarded : Guarded none rest) : Inv (s.setMode r stored rest) := by
  unfold DeletionState.setMode
  split
  · exact h.leave
  next r' =>
  obtain ⟨hsound, hmode⟩ := hstored r' rfl
  exact .proceed none rfl hsound rfl (harmed.mono fun _ => hmode) hguarded nofun

theorem Inv.perform {c : DeletionCommand} (h : Inv s) (hr : s.record = some r)
    (hh : s.holder = some (c :: rest)) : Inv (s.perform r outcome rest c) := by
  have hsound := h.sound r hr
  have harmed := h.armed r _ hr hh
  obtain ⟨path, hguarded, hpath⟩ := h.guarded _ hh
  cases c with
  | beginForget => exact h.setMode (fun r' => sound_beginForget hsound) harmed hguarded
  | checkPayload =>
    simp only [DeletionState.perform]
    split
    · exact h.leave
    · exact .proceed none hr hsound rfl harmed hguarded nofun
  | beginCleanup paths | saveCleanup paths =>
    exact h.setMode (fun r' => sound_writeCleanupPaths hsound) harmed hguarded
  | detach => exact .proceed none hr hsound rfl harmed hguarded nofun
  | advance stage removed =>
    simp only [DeletionState.perform]
    split
    · exact h.leave
    next r' hadvance =>
    obtain ⟨hsound', hmode⟩ := sound_advance hsound harmed.1 hadvance
    refine .proceed none rfl hsound' rfl ?_ hguarded nofun
    rw [hmode]
    exact harmed.2
  | gate path' =>
    simp only [DeletionState.perform]
    split
    · refine .proceed path' hr hsound rfl harmed hguarded ?_
      rintro p rfl
      exact mem_cons_self
    · exact h.leave
  | unlink p =>
    simp only [DeletionState.perform]
    split
    · exact .proceed none hr hsound rfl harmed hguarded.2 nofun
    split
    · exact .proceed none hr hsound rfl harmed hguarded.2 nofun
    · exact .proceed none hr hsound rfl harmed hguarded.2 nofun
  | markPartial =>
    obtain ⟨hsound', hmode⟩ := sound_markPartial hsound
    refine .proceed none rfl hsound' rfl ?_ hguarded nofun
    rw [hmode]
    exact harmed
  | deleteRow =>
    simp only [DeletionState.perform]
    split
    · refine .of_free ?_ rfl
      intro r' hr'
      cases hr'
    · exact h.leave
  | complete v =>
    simp only [DeletionState.perform]
    split
    · exact h.leave
    next r' hcomplete =>
    refine .of_free ?_ rfl
    intro r'' hr''
    cases hr''
    exact (sound_complete hcomplete).1

theorem Inv.work (h : Inv s) (outcome : DeletionOutcome) : Inv (s.work outcome) := by
  unfold DeletionState.work
  split
  next command rest r hh hr =>
    split
    · exact h.leave
    · exact h.perform hr hh
  · exact h.leave

theorem Inv.replace {s' : DeletionState} (h : Inv s) (hr : s.record = some r)
    (hrecord : s'.record = some r') (hsound : r'.Sound) (hmode : r'.mode = r.mode)
    (hholder : s'.holder = s.holder) (hlog : ∀ e ∈ s.log, e ∈ s'.log) : Inv s' := by
  refine ⟨?_, ?_, ?_⟩
  · intro r'' hr''
    rw [hrecord] at hr''
    cases hr''
    exact hsound
  · intro r'' commands hr'' hh
    rw [hrecord] at hr''
    cases hr''
    rw [hmode]
    exact h.armed r commands hr (hholder ▸ hh)
  · intro commands hh
    obtain ⟨path, hguarded, hpath⟩ := h.guarded commands (hholder ▸ hh)
    exact ⟨path, hguarded, fun p hp => hlog _ (hpath p hp)⟩

theorem Inv.step (h : Inv s) (a : DeletionAction) : Inv (s.step a) := by
  cases a with
  | delete deleteFiles paths final admitted => exact h.enter fun r commands => delete_entered
  | retryDeletion version paths final admitted =>
    exact h.enter fun r commands => retryDeletion_entered
  | forgetRecovered version admitted => exact h.enter fun r commands _ => forgetRecovered_entered
  | requestCancel version =>
    simp only [DeletionState.step, requestCancel]
    split
    · exact h
    next r hr =>
    split
    · exact h
    next r' hrequest =>
    obtain ⟨hsound, hmode, -, -⟩ := sound_request (h.sound r hr) hrequest
    exact h.replace hr rfl hsound hmode rfl fun _ he => mem_cons_of_mem _ he
  | joinCancel version =>
    simp only [DeletionState.step]
    split
    · exact h.enter fun r commands _ => joinCancel_entered
    · exact h
  | work outcome => exact h.work outcome
  | crash => exact h.leave
  | command paused =>
    simp only [DeletionState.step]
    split
    · exact h
    next r hr =>
    have hs := h.sound r hr
    exact h.replace hr rfl ⟨hs.pending, hs.empty, hs.cancelled, hs.manifest⟩ rfl rfl fun _ he =>
      mem_cons_of_mem _ he

theorem run_inv (paused : Bool) (earlier : Option (Nat × Bool)) (as : List DeletionAction) :
    Inv (run paused earlier as) :=
  exec_invariant_forall (fun _ a h => h.step a) (inv_start paused earlier) as

end inv

section held

variable {s' : DeletionState} {e : DeletionEvent}

def Shields (r : DeletionRecord) : Prop :=
  ∃ row, r.recovery = some row ∧ (row.stage = .cancelRequested ∨ row.reason = .cancelled)

theorem Held.shields (h : Held post pre s) (hr : s.record = some r) : Shields r := by
  obtain ⟨r', row, hr', hrow⟩ := h.shield
  rw [hr] at hr'
  cases hr'
  exact ⟨row, hrow⟩

section

variable (h : Shields r)
include h

theorem Shields.not_gate : r.deletionGate = false := by
  obtain ⟨row, hrow, hstage | hreason⟩ := h
  · simp [deletionGate, hrow, hstage]
  · simp [deletionGate, hrow, hreason]

theorem Shields.not_advance (stage : DeletionStage)
    (removed : Option RemovedData) : r.advanceDeletion stage removed = none := by
  obtain ⟨row, hrow, hstage | hreason⟩ := h
  · simp [advanceDeletion, hrow, hstage]
  · simp [advanceDeletion, hrow, hreason]

theorem Shields.not_deletable (hs : r.Sound) (hmode : r.mode ≠ .none) : r.deletable = false := by
  obtain ⟨row, hrow, hstage | hreason⟩ := h
  · simp [deletable, hrow, hstage, hmode]
  obtain ⟨row', hrow', hpending, -⟩ := hs.pending hmode
  rw [hrow] at hrow'
  cases hrow'
  rw [hreason] at hpending
  cases hpending

theorem Shields.markPartial :
    Shields r.markDeletionPartial ∧ r.markDeletionPartial.paused = r.paused := by
  obtain ⟨row, hrow, hshield⟩ := h
  unfold markDeletionPartial
  rw [hrow]
  dsimp only
  split
  · exact ⟨⟨_, rfl, hshield⟩, rfl⟩
  · exact ⟨⟨row, hrow, hshield⟩, rfl⟩

end

theorem Held.same (h : Held post pre s) (hrecord : s'.record = some r) (hshields : Shields r)
    (hspent : post.any unlinks → ∀ commands, s'.holder = some commands →
      Guarded none commands) (hpaused : .commanded ∉ post → r.paused) : Held post pre s' := by
  obtain ⟨row, hrow⟩ := hshields
  refine ⟨⟨r, row, hrecord, hrow⟩, h.quiet, h.once, hspent, h.before, ?_⟩
  intro hnot r' hr'
  rw [hrecord] at hr'
  cases hr'
  exact hpaused hnot

theorem Held.cons (h : Held post pre s)
    (he : e.proceeds = false) (hu : e.unlinks = false) (hrecord : s'.record = some r)
    (hshields : Shields r) (hspent : post.any unlinks → ∀ commands, s'.holder = some commands →
      Guarded none commands) (hpaused : .commanded ∉ e :: post → r.paused) :
    Held (e :: post) pre s' := by
  obtain ⟨row, hrow⟩ := hshields
  refine ⟨⟨r, row, hrecord, hrow⟩, ?_, ?_, ?_, ?_, ?_⟩
  · intro e' he'
    rcases mem_cons.1 he' with rfl | he'
    · exact he
    · exact h.quiet e' he'
  · rw [countP_cons_of_neg (by simp [hu])]
    exact h.once
  · intro hany
    refine hspent ?_
    simpa [hu] using hany
  · intro p hp
    rcases mem_cons.1 hp with rfl | hp
    · cases hu
    · exact h.before p hp
  · intro hnot r' hr'
    rw [hrecord] at hr'
    cases hr'
    exact hpaused hnot

def Next (post pre : List DeletionEvent) (s s' : DeletionState) : Prop :=
  ∃ new, s'.log = new ++ s.log ∧ (.modeSet ∈ new ∨ Held (new ++ post) pre s')

theorem Next.leave (h : Held post pre s) : Next post pre s s.leave := ⟨[], rfl, .inr h.leave⟩

theorem Next.setMode (h : Held post pre s) (hr : s.record = some r)
    (hstored : ∀ r', stored = some r' → r'.recovery = r.deletionIntent ∧ r'.paused = r.paused)
    (hguarded : Guarded none rest) : Next post pre s (s.setMode r stored rest) := by
  unfold DeletionState.setMode
  split
  · exact .leave h
  next r' =>
  obtain ⟨hrecovery, hpaused⟩ := hstored r' rfl
  by_cases hmode : r.mode = .none
  · refine ⟨[.modeSet], ?_, .inl mem_cons_self⟩
    simp [hmode]
  have hintent : r.deletionIntent = r.recovery := by
    unfold deletionIntent
    split
    next hnone => exact absurd hnone hmode
    · rfl
  refine ⟨[], by simp [hmode], .inr (h.same rfl ?_ ?_ ?_)⟩
  · obtain ⟨row, hrow, hshield⟩ := h.shields hr
    exact ⟨row, by rw [hrecovery, hintent, hrow], hshield⟩
  · intro _ commands hh
    cases hh
    exact hguarded
  · intro hnot
    rw [hpaused]
    exact h.paused hnot r hr

theorem beginForget_recovery (h : r.beginForget = some r') :
    r'.recovery = r.deletionIntent ∧ r'.paused = r.paused := by
  unfold beginForget at h
  split at h
  · cases h
  cases h
  exact ⟨rfl, rfl⟩

theorem writeCleanupPaths_recovery {paths : List String} {ready : Bool}
    (h : r.writeCleanupPaths paths ready = some r') :
    r'.recovery = r.deletionIntent ∧ r'.paused = r.paused := by
  unfold writeCleanupPaths at h
  split at h
  · cases h
  cases h
  exact ⟨rfl, rfl⟩

theorem Next.unlink (hi : Inv s) (h : Held post pre s) (hr : s.record = some r)
    (hh : s.holder = some (.unlink p :: rest)) (hlog : s.log = post ++ .requested :: pre) :
    Next post pre s (s.perform r outcome rest (.unlink p)) := by
  obtain ⟨path, ⟨hpath, hguarded⟩, hgated⟩ := hi.guarded _ hh
  simp only [perform]
  split
  · refine ⟨[], rfl, .inr (h.same hr (h.shields hr) ?_ fun hnot => h.paused hnot r hr)⟩
    intro _ commands hc
    cases hc
    exact hguarded
  have hfirst : post.any unlinks = false := by
    by_contra hany
    have hspent := h.spent (by simpa using hany) _ hh
    cases hspent.1
  have hcount : post.countP unlinks = 0 := by
    rw [countP_eq_zero]
    intro e he hu
    rw [any_eq_false] at hfirst
    exact hfirst e he hu
  obtain ⟨row, hrow⟩ := h.shields hr
  refine ⟨[.unlinked p], rfl, .inr ⟨⟨r, row, hr, hrow⟩, ?_, ?_, ?_, ?_, ?_⟩⟩
  · intro e he
    rcases mem_cons.1 he with rfl | he
    · rfl
    · exact h.quiet e he
  · change (unlinked p :: post).countP unlinks ≤ 1
    rw [countP_cons, hcount]
    exact Nat.le_refl 1
  · intro _ commands hc
    cases hc
    split <;> exact hguarded
  · intro p' hp'
    rcases mem_cons.1 hp' with heq | hp'
    · cases heq
      have hmem := hgated p hpath
      rw [hlog] at hmem
      rcases mem_append.1 hmem with hpost | hrest
      · exact absurd (h.quiet _ hpost) nofun
      · exact (mem_cons.1 hrest).resolve_left nofun
    · exact h.before p' hp'
  · intro hnot r' hr'
    exact h.paused (fun hmem => hnot (mem_cons_of_mem _ hmem)) r' hr'

theorem Next.perform {c : DeletionCommand} (hi : Inv s) (h : Held post pre s)
    (hr : s.record = some r) (hh : s.holder = some (c :: rest))
    (hlog : s.log = post ++ .requested :: pre) : Next post pre s (s.perform r outcome rest c) := by
  have hshields := h.shields hr
  obtain ⟨path, hguarded, -⟩ := hi.guarded _ hh
  have hon : Guarded none rest → Next post pre s { s with holder := some rest } := by
    intro hrest
    refine ⟨[], rfl, .inr (h.same hr hshields ?_ fun hnot => h.paused hnot r hr)⟩
    intro _ commands hc
    cases hc
    exact hrest
  cases c with
  | beginForget => exact .setMode h hr (fun r' => beginForget_recovery) hguarded
  | checkPayload =>
    simp only [DeletionState.perform]
    split
    · exact .leave h
    · exact hon hguarded
  | beginCleanup paths | saveCleanup paths =>
    exact .setMode h hr (fun r' => writeCleanupPaths_recovery) hguarded
  | detach => exact hon hguarded
  | advance stage removed =>
    simp only [DeletionState.perform, hshields.not_advance]
    exact .leave h
  | gate path' =>
    simp only [DeletionState.perform, hshields.not_gate, Bool.false_eq_true, if_false]
    exact .leave h
  | unlink p => exact .unlink hi h hr hh hlog
  | markPartial =>
    obtain ⟨hmarked, hpaused⟩ := hshields.markPartial
    refine ⟨[], rfl, .inr (h.same rfl hmarked ?_ ?_)⟩
    · intro _ commands hc
      cases hc
      exact hguarded
    intro hnot
    rw [hpaused]
    exact h.paused hnot r hr
  | deleteRow =>
    have harmed := hi.armed r _ hr hh
    simp only [DeletionState.perform, hshields.not_deletable (hi.sound r hr) harmed.1,
      Bool.false_eq_true, if_false]
    exact .leave h
  | complete v =>
    simp only [DeletionState.perform]
    split
    · exact .leave h
    next r' hcomplete =>
    obtain ⟨-, -, -, hpaused, row, hrow, hreason⟩ := sound_complete hcomplete
    refine ⟨[.completed], rfl, .inr (h.cons rfl rfl rfl ⟨row, hrow, .inr hreason⟩ ?_ ?_)⟩
    · nofun
    intro hnot
    rw [hpaused]
    exact h.paused (fun hmem => hnot (mem_cons_of_mem _ hmem)) r hr

theorem Next.step (hi : Inv s) (h : Held post pre s) (hlog : s.log = post ++ .requested :: pre)
    (a : DeletionAction) : Next post pre s (s.step a) := by
  have henter : ∀ checks : DeletionRecord → Option (List DeletionCommand),
      (∀ r commands, r.Sound → checks r = some commands → Entered r commands) →
      Next post pre s (s.enter checks) := by
    intro checks hchecks
    refine ⟨[], ?_, .inr (h.enter hi hchecks)⟩
    rcases enter_eq s checks with heq | ⟨r, commands, -, -, heq⟩ <;> rw [heq] <;> rfl
  have hsame : Next post pre s s := ⟨[], rfl, .inr h⟩
  cases a with
  | delete deleteFiles paths final admitted => exact henter _ fun r commands => delete_entered
  | retryDeletion version paths final admitted =>
    exact henter _ fun r commands => retryDeletion_entered
  | forgetRecovered version admitted => exact henter _ fun r commands _ => forgetRecovered_entered
  | requestCancel version =>
    simp only [DeletionState.step, requestCancel]
    split
    · exact hsame
    next r hr =>
    split
    · exact hsame
    next r' hrequest =>
    obtain ⟨-, -, hpaused, hshields⟩ := sound_request (hi.sound r hr) hrequest
    exact ⟨[.requested], rfl, .inr (h.cons rfl rfl rfl hshields h.spent fun _ => hpaused)⟩
  | joinCancel version =>
    simp only [DeletionState.step]
    split
    · exact henter _ fun r commands _ => joinCancel_entered
    · exact hsame
  | work outcome =>
    simp only [DeletionState.step, work]
    split
    next command rest r hh hr =>
      split
      · exact .leave h
      · exact .perform hi h hr hh hlog
    · exact .leave h
  | crash => exact .leave h
  | command paused =>
    simp only [DeletionState.step]
    split
    · exact hsame
    next r hr =>
    obtain ⟨row, hrow⟩ := h.shields hr
    refine ⟨[.commanded], rfl, .inr (h.cons rfl rfl rfl ⟨row, hrow⟩ h.spent ?_)⟩
    exact fun hnot => absurd mem_cons_self hnot

theorem log_step (s : DeletionState) (a : DeletionAction) :
    (s.step a).log = s.log ∨ ∃ e, (s.step a).log = e :: s.log ∧
      (e = .requested → ∃ version, a = .requestCancel version) ∧
      (e = .completed → ∃ r r' version, s.record = some r ∧
        r.completeDeletionCancel version = some r' ∧ (s.step a).record = some r') := by
  have henter : ∀ checks, (s.enter checks).log = s.log := by
    intro checks
    rcases enter_eq s checks with heq | ⟨r, commands, -, -, heq⟩ <;> rw [heq]
  cases a with
  | delete deleteFiles paths final admitted => exact .inl (henter _)
  | retryDeletion version paths final admitted => exact .inl (henter _)
  | forgetRecovered version admitted => exact .inl (henter _)
  | requestCancel version =>
    simp only [step, requestCancel]
    split
    · exact .inl rfl
    · split <;> first | exact .inl rfl | exact .inr ⟨_, rfl, fun _ => ⟨version, rfl⟩, nofun⟩
  | joinCancel version =>
    simp only [step]
    split
    · exact .inl (henter _)
    · exact .inl rfl
  | work outcome =>
    simp only [step, work]
    split
    next command rest r hh hr =>
      split
      · exact .inl rfl
      cases command with
      | complete version =>
        simp only [perform]
        split
        · exact .inl rfl
        next r' hcomplete =>
          exact .inr ⟨_, rfl, nofun, fun _ => ⟨r, r', version, hr, hcomplete, rfl⟩⟩
      | detach | markPartial => exact .inl rfl
      | _ =>
        simp only [perform, setMode]
        repeat' split
        all_goals first | exact .inl rfl | exact .inr ⟨_, rfl, nofun, nofun⟩
    · exact .inl rfl
  | crash => exact .inl rfl
  | command paused =>
    simp only [step]
    split <;> first | exact .inl rfl | exact .inr ⟨_, rfl, nofun, nofun⟩

section

variable (paused : Bool) (earlier : Option (Nat × Bool)) (as : List DeletionAction)

theorem run_concat (a : DeletionAction) :
    run paused earlier (as ++ [a]) = (run paused earlier as).step a := by
  rw [run, exec_append]
  rfl

end

end held

end DeletionState

end TorrentHub
