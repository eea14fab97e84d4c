import TorrentHub.Engine.Moves

namespace TorrentHub
open Lib

namespace Runtime

variable {r s : Runtime} {env : Environment} {d : StateDecision}

theorem publish_settles (r : Runtime) (env : Environment) : Settles r (r.publish env).1 := by
  unfold publish
  split <;> exact .of_frame rfl rfl rfl rfl rfl

theorem closeGates_settles (h : Tracks r s) : Settles r s.disallowDownload.disallowUpload :=
  .of_closed (h.trans (.of_lib s _)) rfl rfl

structure Checks (r s : Runtime) : Prop where
  verifies : Verifies r s
  settles : Settles r s

theorem Checks.refl (r : Runtime) : Checks r r := ⟨.refl, .refl r⟩

theorem Checks.trans (hrs : Checks r s) (hst : Checks s t) : Checks r t :=
  ⟨hrs.verifies.trans hst.verifies, hrs.settles.trans hst.settles⟩

section

variable (r : Runtime)

theorem restoreVerificationBlock_checks : Checks r r.restoreVerificationBlock.1 := by
  unfold restoreVerificationBlock
  split
  · exact .refl r
  split
  · exact .refl r
  next h =>
  refine ⟨?_, closeGates_settles (applyStateEvent_tracks h)⟩
  apply Verifies.moves (.verification .refl h)
  exact (lib_spares _ _).moves.edit (lib_spares _ _)

theorem completeVerificationLocked_checks (attempt : VerificationAttempt)
    (result : VerifyResult) (env : Environment) :
    Checks r (r.completeVerificationLocked attempt result env).1 := by
  simp only [completeVerificationLocked]
  split
  · split
    · exact ⟨.attempt .refl none _, .of_mt rfl rfl rfl⟩
    · exact .refl r
  split
  · exact .refl r
  split
  · exact ⟨.attempt .refl none _, .of_mt rfl rfl rfl⟩
  next s d h =>
  have hreopen := decision_reopens (applyStateEvent_ok h).1 (.inl rfl)
  have hpayload : d.closePayload = true := congrArg Effects.closePayload hreopen
  constructor
  · apply Verifies.moves (.attempt (.verification .refl h) none _)
    split
    · exact (applyQuiesceLocked_spares _ _).moves.edit (lib_spares _ _)
    · exact (applyQuiesceLocked_spares _ _).moves
  apply Settles.of_reopened _ _ hreopen
  · simp only [applyQuiesceLocked, hpayload, ↓reduceIte]
    repeat' split
    all_goals rfl
  · intro hallow hclose
    simp only [applyQuiesceLocked, hallow, hclose, Bool.false_and, Bool.false_eq_true, ↓reduceIte]
    rfl
  · apply (applyStateEvent_tracks h).trans
    simp only [applyQuiesceLocked]
    repeat' split
    all_goals exact ⟨Nat.le_refl _, fun _ => rfl, rfl, Nat.le_refl _, rfl⟩
  · rw [← applyStateEvent_policy h]
    simp only [applyQuiesceLocked]
    repeat' split
    all_goals rfl

theorem beginVerification_checks (operation started : Bool)
    (env : Environment) : Checks r (r.beginVerification operation started env).1 := by
  simp only [beginVerification]
  split
  · exact .refl r
  next s d h =>
  have hbegun : Checks r ({ s with
      mt := { s.mt with verificationAttempt := some ⟨s.tickets, operation⟩ }
      tickets := s.tickets + 1 } : Runtime).disallowDownload.disallowUpload := by
    constructor
    · exact .moves (.attempt (.verification .refl h) _ _)
        ((lib_spares _ _).moves.edit (lib_spares _ _))
    · exact closeGates_settles ((applyStateEvent_tracks h).trans
        ⟨Nat.le_refl _, fun _ => rfl, rfl, Nat.le_succ _, rfl⟩)
  split
  · exact hbegun.trans (completeVerificationLocked_checks _ _ _ _)
  split
  · exact hbegun.trans (completeVerificationLocked_checks _ _ _ _)
  · exact hbegun

theorem startRecheckLocked_checks (env : Environment) : Checks r (r.startRecheckLocked env).1 := by
  unfold startRecheckLocked
  repeat' split
  all_goals first
    | exact .refl r
    | exact beginVerification_checks _ _ _ _

theorem verifyInactive_checks (env : Environment) : Checks r (r.verifyInactive env).1 := by
  unfold verifyInactive
  repeat' split
  all_goals first
    | exact .refl r
    | exact beginVerification_checks _ _ _ _

theorem failIntentApply_settles (expected : Bool) (v : IntentVersion) :
    Settles r (r.failIntentApply expected v).1 := by
  simp only [failIntentApply]
  repeat' split
  all_goals first
    | exact .refl r
    | (rename_i h; exact quiesce_settles h rfl (.of_mt rfl rfl rfl))

theorem bindRuntime_settles (expected : Bool) (fence : RuntimeFence)
    (applied : Int) (env : Environment) :
    Settles r (r.bindRuntime expected fence applied env).1 := by
  unfold bindRuntime
  repeat' split
  all_goals first
    | exact .refl r
    | exact .of_mt rfl rfl rfl

theorem delete_settles (env : Environment) : Settles r (r.delete env).1 := by
  unfold delete
  split
  · exact .refl r
  split
  · exact .refl r
  split
  · exact .refl r
  have hdetached : Settles r { r with managed := false } := .of_frame rfl rfl rfl rfl rfl
  exact hdetached.trans (terminate_acts rfl _).settles

end

theorem requestSlot_settles (h : r.requestSlot available = .ok s) : Settles r s := by
  unfold requestSlot at h
  split at h
  · cases h
    exact .refl r
  split at h
  · cases h
  next heq =>
  cases h
  exact scheduling_settles heq rfl

def Reserves (r s : Runtime) : Prop :=
  Settles r s ∨ ∃ m caller, Settles r m ∧ m.mt.policy.payloadEligible = true ∧
    m.mt.preparation = none ∧ s = m.reserve caller

theorem Settles.reserves_trans (hrs : Settles r s) (hst : Reserves s t) : Reserves r t := by
  rcases hst with hst | ⟨m, caller, hm, he, hp, rfl⟩
  · exact .inl (hrs.trans hst)
  · exact .inr ⟨m, caller, hrs.trans hm, he, hp, rfl⟩

theorem Reserves.upload (h : Reserves r s) : uploadGate.Keeps r s := by
  rcases h with h | ⟨m, caller, hm, -, -, rfl⟩
  · exact h.upload
  · exact hm.upload

theorem admitPayloadLocked_ok (h : r.admitPayloadLocked env caller = .ok s) : Reserves r s := by
  unfold admitPayloadLocked at h
  split at h
  · cases h
  split at h
  · cases h
  split at h
  · cases h
  split at h
  · cases h
  rename_i heligible
  split at h
  · cases h
  split at h
  · cases h
  rename_i hpreparation
  split at h
  · cases h
  cases h
  exact .inr ⟨r, caller, .refl r, by simpa using heligible, by simpa using hpreparation, rfl⟩

section

variable (r : Runtime) (env : Environment)

theorem checkPayloadAdmission_reserves : Reserves r (r.checkPayloadAdmission env).1 := by
  unfold checkPayloadAdmission
  split
  · exact .inl (.refl r)
  split
  · exact .inl (.refl r)
  next h => exact admitPayloadLocked_ok h

theorem prepareSlot_reserves : Reserves r (r.prepareSlot env) := by
  simp only [prepareSlot]
  split
  · have hstarted : Settles r { r with mt := { r.mt with downloadAllStarted := true } } :=
      .of_mt rfl rfl rfl
    apply hstarted.reserves_trans
    split
    next h => exact admitPayloadLocked_ok h
    · exact .inl (admitFailed_acts _ _ _ _).settles
  · exact .inl (.refl r)

theorem healthReturned_reserves (ticket : PayloadPreparation) :
    Reserves r (r.healthReturned env ticket) := by
  have hcleared : Settles r (r.clearHealthProbe ticket) := by
    unfold clearHealthProbe
    split
    · exact .of_mt rfl rfl rfl
    · exact .refl r
  simp only [healthReturned]
  apply hcleared.reserves_trans
  split
  · exact .inl (.refl _)
  split
  · exact .inl (blockDownloadLocked_settles _ _ _ _)
  apply (reconcileSelectionLocked_acts _ _).settles.reserves_trans
  split
  · exact .inl (.refl _)
  next h => exact (requestSlot_settles h).reserves_trans (prepareSlot_reserves _ _)

theorem metadataReturned_reserves (lease : Lease) :
    Reserves r (r.metadataReturned env lease).1 := by
  simp only [metadataReturned]
  split
  · exact .inl (.refl r)
  split
  · exact .inl (quiesceFaultLocked_acts rfl _ _ _).settles
  split
  · have hstarted : Settles r { r with mt := { r.mt with downloadAllStarted := true } } :=
      .of_mt rfl rfl rfl
    apply hstarted.reserves_trans
    split
    · exact .inl (.refl _)
    next h => exact admitPayloadLocked_ok h
  · exact .inl (.refl r)

end

theorem call_reserves (r : Runtime) (op : Operation) (env : Environment) :
    Reserves r (r.call op env) := by
  cases op with
  | checkPayloadAdmission => exact checkPayloadAdmission_reserves r env
  | restoreVerificationBlock => exact .inl (restoreVerificationBlock_checks r).settles
  | startRecheck => exact .inl (startRecheckLocked_checks r env).settles
  | verifyInactive => exact .inl (verifyInactive_checks r env).settles
  | delete => exact .inl (delete_settles r env)
  | finishVerification attempt result =>
    exact .inl (completeVerificationLocked_checks r attempt result env).settles
  | failIntentApply expected v => exact .inl (failIntentApply_settles r expected v)
  | bindRuntime expected fence applied =>
    exact .inl (bindRuntime_settles r expected fence applied env)
  | _ => exact .inl (call_acts rfl (by nofun) r env).settles

def plainWork : Work → Bool
  | .admission _ _ _ | .resume _ _ => false
  | _ => true

theorem finish_reserves {work : Work} (hw : plainWork work = true) (r : Runtime)
    (env : Environment) : Reserves r (r.finish work env) := by
  cases work with
  | admission ticket metadata caller | resume lease version => cases hw
  | register => exact .inl (publish_settles r env)
  | health ticket => exact healthReturned_reserves r env ticket
  | finishSave lease phase err manual metadata needsSpec =>
    exact .inl (finishSaved_acts r env lease phase err manual metadata needsSpec).settles
  | finishProbe lease phase err spec version =>
    exact .inl (finishProbed_acts r env lease phase err spec version).settles
  | trackers lease => exact .inl (trackersReturned_acts r env lease).settles
  | saveMetadata lease => exact metadataReturned_reserves r env lease
  | missing lease => exact .inl (missingReturned_acts r env lease).settles

end Runtime

end TorrentHub
