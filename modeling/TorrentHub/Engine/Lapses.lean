import TorrentHub.Engine.Retention

namespace TorrentHub
open Lib

namespace Runtime

variable {r s t : Runtime} {event : StateEvent} {d : StateDecision}

/-- `s` comes after `r` without a binding or a report of a failure in between: what has been
acknowledged may lapse. -/
structure Lapses (r s : Runtime) : Prop where
  fence : s.mt.runtimeFence = r.mt.runtimeFence
  failure : s.mt.intentApplyFailure = r.mt.intentApplyFailure
  applied : s.mt.appliedIntentRevision = r.mt.appliedIntentRevision ∨
    s.mt.appliedIntentRevision = 0
  active : (s.managed || s.registering) = true → (r.managed || r.registering) = true
  registering : s.registering = true → r.registering = true
  epoch : r.mt.policyEpoch ≤ s.mt.policyEpoch
  apart : s.managed = true → s.registering = true → r.managed = true ∧ r.registering = true

theorem Lapses.refl (r : Runtime) : Lapses r r :=
  ⟨rfl, rfl, .inl rfl, id, id, Nat.le_refl _, .intro⟩

theorem Lapses.trans (hrs : Lapses r s) (hst : Lapses s t) : Lapses r t where
  fence := hst.fence.trans hrs.fence
  failure := hst.failure.trans hrs.failure
  applied := by
    rcases hst.applied with h | h
    · rw [h]
      exact hrs.applied
    · exact .inr h
  active h := hrs.active (hst.active h)
  registering h := hrs.registering (hst.registering h)
  epoch := Nat.le_trans hrs.epoch hst.epoch
  apart hm hr := (hst.apart hm hr).elim hrs.apart

theorem Spares.lapses (h : Spares r s) : Lapses r s where
  fence := h.fence
  failure := h.failure
  applied := .inl h.applied
  active hs := by rwa [h.managed, h.registering] at hs
  registering hs := by rwa [h.registering] at hs
  epoch := h.epoch
  apart hm hr := ⟨h.managed ▸ hm, h.registering ▸ hr⟩

theorem Lapses.of_event (h : r.applyStateEvent event = .ok (s, d)) : Lapses r s := by
  have hepoch := (applyStateEvent_tracks h).epoch
  obtain ⟨-, rfl⟩ := applyStateEvent_ok h
  refine ⟨rfl, rfl, ?_, id, id, hepoch, .intro⟩
  change (if d.invalidateApplied then 0 else r.mt.appliedIntentRevision) = _ ∨
    (if d.invalidateApplied then 0 else r.mt.appliedIntentRevision) = 0
  split
  · exact .inr rfl
  · exact .inl rfl

theorem Moves.lapses (h : Moves r s) : Lapses r s := by
  induction h with
  | refl => exact .refl r
  | edit _ hs ih => exact ih.trans hs.lapses
  | event _ he _ ih => exact ih.trans (.of_event he)

theorem Verifies.lapses (h : Verifies r s) : Lapses r s := by
  induction h with
  | refl => exact .refl r
  | moves _ hm ih => exact ih.trans hm.lapses
  | verification _ he ih => exact ih.trans (.of_event he)
  | attempt _ attempt tickets ih =>
    apply ih.trans
    exact ⟨rfl, rfl, .inl rfl, id, id, Nat.le_refl _, .intro⟩

theorem delete_lapses (r : Runtime) (env : Environment) : Lapses r (r.delete env).1 := by
  unfold delete
  split
  · exact .refl r
  split
  · exact .refl r
  split
  · exact .refl r
  next hregistering hmanaged =>
  have hkind : StateEventKind.deleted.quiesces = true := rfl
  have hm := (terminate_acts hkind { r with managed := false }).moves
  have hl := hm.lapses
  have hactive : r.managed = true := by simpa using hmanaged
  refine ⟨hl.fence, hl.failure, hl.applied, fun _ => by simp [hactive], hl.registering, hl.epoch,
    fun hmanaged => ?_⟩
  rw [hm.place.1] at hmanaged
  cases hmanaged

theorem publish_lapses (r : Runtime) (env : Environment) : Lapses r (r.publish env).1 := by
  unfold publish
  split
  · refine ⟨rfl, rfl, .inl rfl, fun hm => ?_, nofun, Nat.le_refl _, nofun⟩
    simp only [Bool.or_false] at hm
    rw [hm]
    rfl
  next h =>
  simp only [Bool.or_eq_true, Bool.not_eq_true', not_or, Bool.not_eq_false] at h
  exact ⟨rfl, rfl, .inl rfl, fun _ => by simp [h.2], nofun, Nat.le_refl _, nofun⟩

theorem edit_lapses (r : Runtime) (work : List Work) (lib : LibraryTorrent) :
    Lapses r { r with work, lib } :=
  ⟨rfl, rfl, .inl rfl, id, id, Nat.le_refl _, .intro⟩

/-- The sections that only the owner of a record's lock runs. -/
def owned : Action → Bool
  | .call (.failIntentApply _ _) _ | .call (.bindRuntime _ _ _) _ => true
  | _ => false

theorem step_lapses (r : Runtime) {action : Action} (h : owned action = false) :
    Lapses r (r.step action) := by
  cases action with
  | call op env =>
    by_cases hplain : op.plain = true
    · exact (call_moves hplain r env).lapses
    cases op <;> try exact absurd rfl hplain
    case restoreVerificationBlock => exact (restoreVerificationBlock_checks r).verifies.lapses
    case startRecheck => exact (startRecheckLocked_checks r env).verifies.lapses
    case verifyInactive => exact (verifyInactive_checks r env).verifies.lapses
    case finishVerification attempt result =>
      exact (completeVerificationLocked_checks r attempt result env).verifies.lapses
    case failIntentApply expected v => cases h
    case bindRuntime expected fence applied => cases h
    case delete => exact delete_lapses r env
  | gotInfo files | writeFailed err => exact edit_lapses r _ _
  | returned index env =>
    cases hw : r.work[index]? with
    | none =>
      simp only [step, hw]
      exact .refl r
    | some work =>
      simp only [step, hw]
      refine .trans (edit_lapses r (r.work.eraseIdx index) r.lib) ?_
      by_cases hplain : work.plain = true
      · exact (finish_moves hplain _ env).lapses
      cases work <;> try exact absurd rfl hplain
      case register => exact publish_lapses _ env
      case health ticket =>
        rcases healthReturned_cases { r with work := r.work.eraseIdx index } env ticket with
          hm | ⟨granted, d, -, he, hm⟩
        · exact hm.lapses
        · exact (observed_moves _ env ticket).lapses.trans ((Lapses.of_event he).trans hm.lapses)

structure Fresh (r : Runtime) : Prop where
  fence : r.mt.runtimeFence = {}
  failure : r.mt.intentApplyFailure = none

theorem Fresh.lapses (hr : r.Fresh) (h : Lapses r s) : s.Fresh :=
  ⟨h.fence.trans hr.fence, h.failure.trans hr.failure⟩

theorem registerTorrent_fresh (spec : TorrentSpec) (restored : Option SavedTorrent)
    (noUpload : Bool) (env : Environment) :
    (registerTorrent spec restored noUpload env).1.Fresh := by
  cases restored <;> simp only [registerTorrent] <;> split
  all_goals rename_i h
  all_goals first
    | exact ⟨rfl, rfl⟩
    | have hentered := Fresh.lapses ⟨rfl, rfl⟩ (.of_event h)
      split
      · exact ⟨hentered.fence, hentered.failure⟩
      · refine Fresh.lapses ?_ (publish_lapses _ env)
        exact ⟨hentered.fence, hentered.failure⟩

variable {fence : RuntimeFence} {applied : Int} {env : Environment}

theorem failIntentApply_cases (r : Runtime) (expected : Bool) (v : IntentVersion) :
    ((r.failIntentApply expected v).2.isOk = false ∧ (r.failIntentApply expected v).1 = r) ∨
      ((r.failIntentApply expected v).2.isOk = true ∧
        ∃ s, Lapses r s ∧ (r.failIntentApply expected v).1 =
          { s with mt := { s.mt with
              intentApplyFailure := some ⟨v.recordID, v.revision, v.code⟩ } }) := by
  simp only [failIntentApply]
  split
  · exact .inl ⟨rfl, rfl⟩
  split
  · exact .inl ⟨rfl, rfl⟩
  split
  · exact .inl ⟨rfl, rfl⟩
  split
  · exact .inl ⟨rfl, rfl⟩
  split
  · exact .inl ⟨rfl, rfl⟩
  next t d he =>
  right
  refine ⟨rfl, t.applyQuiesceLocked d,
    (Lapses.of_event he).trans (applyQuiesceLocked_spares t d).lapses, ?_⟩
  simp only [applyQuiesceLocked]
  split <;> split <;> rfl

theorem bindRuntime_error (h : r.bindRuntime expected fence applied env = (s, .error err)) :
    s = r := by
  unfold bindRuntime at h
  repeat' split at h
  all_goals cases h
  all_goals rfl

theorem bindRuntime_ok (h : r.bindRuntime expected fence applied env = (s, .ok ())) :
    fence.attachment ≠ "" ∧ s = { r with mt := { r.mt with
      runtimeFence := fence
      appliedIntentRevision := applied
      intentApplyFailure := if 0 < applied then none else r.mt.intentApplyFailure } } := by
  unfold bindRuntime at h
  split at h
  · cases h
  next hvalid =>
  simp only [Bool.or_eq_true, decide_eq_true_eq, not_or] at hvalid
  iterate 6
    split at h
    · cases h
  cases h
  exact ⟨hvalid.1.1, rfl⟩

end Runtime

end TorrentHub
