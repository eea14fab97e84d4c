import TorrentHub.Engine.Gates

namespace TorrentHub

namespace Runtime

/-- A change outside the policy and what is shown of it, the bindings, the attempt and the
table. -/
structure Spares (r s : Runtime) : Prop where
  policy : s.mt.policy = r.mt.policy
  epoch : r.mt.policyEpoch ≤ s.mt.policyEpoch
  slotToken : s.mt.slotToken = r.mt.slotToken
  fence : s.mt.runtimeFence = r.mt.runtimeFence
  applied : s.mt.appliedIntentRevision = r.mt.appliedIntentRevision
  failure : s.mt.intentApplyFailure = r.mt.intentApplyFailure
  attempt : s.mt.verificationAttempt = r.mt.verificationAttempt
  managed : s.managed = r.managed
  registering : s.registering = r.registering
  shown : (s.mt.rechecking, s.mt.verificationUncertain, s.mt.initializing) =
    (r.mt.rechecking, r.mt.verificationUncertain, r.mt.initializing)

theorem Spares.refl (r : Runtime) : Spares r r :=
  ⟨rfl, Nat.le_refl _, rfl, rfl, rfl, rfl, rfl, rfl, rfl, rfl⟩

inductive Moves (r : Runtime) : Runtime → Prop where
  | refl : Moves r r
  | edit {s t : Runtime} (h : Moves r s) (hs : Spares s t) : Moves r t
  | event {s t : Runtime} {event : StateEvent} {d : StateDecision} (h : Moves r s)
    (he : s.applyStateEvent event = .ok (t, d))
    (hk : event.kind ≠ .slotRequested ∧ event.kind ≠ .verification) : Moves r t

variable {r s t : Runtime} {env : Environment} {d : StateDecision} {event : StateEvent}

theorem Spares.moves (h : Spares r s) : Moves r s := .edit .refl h

theorem Moves.trans (hrs : Moves r s) (hst : Moves s t) : Moves r t := by
  induction hst with
  | refl => exact hrs
  | edit _ hs ih => exact .edit ih hs
  | event _ he hk ih => exact .event ih he hk

theorem Moves.of_event (he : r.applyStateEvent event = .ok (s, d))
    (hk : event.kind ≠ .slotRequested ∧ event.kind ≠ .verification) : Moves r s :=
  .event .refl he hk

theorem Moves.place (h : Moves r s) : s.managed = r.managed ∧ s.registering = r.registering := by
  induction h with
  | refl => exact ⟨rfl, rfl⟩
  | edit _ hs ih => exact ⟨hs.managed.trans ih.1, hs.registering.trans ih.2⟩
  | event _ he _ ih =>
    obtain ⟨-, rfl⟩ := applyStateEvent_ok he
    exact ih

structure Acts (r s : Runtime) : Prop where
  moves : Moves r s
  settles : Settles r s

theorem Acts.refl (r : Runtime) : Acts r r := ⟨.refl, .refl r⟩

theorem Acts.trans (hrs : Acts r s) (hst : Acts s t) : Acts r t :=
  ⟨hrs.moves.trans hst.moves, hrs.settles.trans hst.settles⟩

theorem Spares.acts (h : Spares r s) (hs : Settles r s) : Acts r s := ⟨h.moves, hs⟩

open Spares

theorem lib_spares (r : Runtime) (lib : LibraryTorrent) : Spares r { r with lib } :=
  { refl _ with }

theorem applyQuiesceLocked_spares (r : Runtime) (d : StateDecision) :
    Spares r (r.applyQuiesceLocked d) := by
  unfold applyQuiesceLocked
  split <;> split <;> exact lib_spares r _

theorem disallowDownload_acts (r : Runtime) : Acts r r.disallowDownload :=
  (lib_spares r _).acts (disallowDownload_settles r)

theorem quiesce_acts (h : r.applyStateEvent event = .ok (s, d)) (hk : event.kind.quiesces = true)
    (hs : Spares s t) (ht : Tracks s t) : Acts r (t.applyQuiesceLocked d) := by
  have hkind : event.kind ≠ .slotRequested ∧ event.kind ≠ .verification := by
    constructor <;> intro hc <;> rw [hc] at hk <;> cases hk
  exact ⟨((Moves.of_event h hkind).edit hs).edit (applyQuiesceLocked_spares _ _),
    quiesce_settles h hk ht⟩

theorem applyBackgroundReleaseLocked_acts (r : Runtime) (d : StateDecision) (streams : Bool) :
    Acts r (r.applyBackgroundReleaseLocked d streams) := by
  unfold applyBackgroundReleaseLocked
  split
  · exact disallowDownload_acts r
  · exact .refl r

theorem persistSafetyFaultLocked_acts (r : Runtime) (kind : StateEventKind) (saved : Bool) :
    Acts r (r.persistSafetyFaultLocked kind saved).1 := by
  unfold persistSafetyFaultLocked
  split
  · exact .refl r
  dsimp only
  repeat' split
  all_goals exact acts { refl _ with } (.of_mt rfl rfl rfl)

theorem quiesceFaultLocked_acts {kind : StateEventKind} (hk : kind.quiesces = true) (r : Runtime)
    (live saved : Bool) : Acts r (r.quiesceFaultLocked kind live saved).1 := by
  unfold quiesceFaultLocked
  split
  · exact .refl r
  split
  · exact .refl r
  next h =>
    exact (quiesce_acts h hk (.refl _) (.refl _)).trans (persistSafetyFaultLocked_acts _ _ _)

section

variable (r : Runtime) (reason : String) (live saved : Bool)

theorem blockDownloadLocked_moves : Moves r (r.blockDownloadLocked reason live saved).1 := by
  simp only [blockDownloadLocked]
  split
  · exact .refl
  split
  · exact .refl
  next h =>
  apply (Moves.of_event h ⟨by simp, by simp⟩).trans
  repeat' split
  all_goals exact moves { refl _ with }

theorem blockDownloadLocked_acts : Acts r (r.blockDownloadLocked reason live saved).1 :=
  ⟨blockDownloadLocked_moves r reason live saved, blockDownloadLocked_settles r reason live saved⟩

theorem blockWith_acts : Acts r (r.blockWith reason live saved).1 := by
  have h := blockDownloadLocked_acts r reason live saved
  unfold blockWith
  split <;> rename_i heq <;> rw [heq] at h <;> exact h

end

theorem applyFilePrioritiesAndDownload_acts (r : Runtime) (saved : Bool) :
    Acts r (r.applyFilePrioritiesAndDownload saved).1 := by
  unfold applyFilePrioritiesAndDownload
  split
  · exact .refl r
  split
  · exact .refl r
  split
  · split
    · exact .refl r
    next h =>
    exact (quiesce_acts h rfl (.refl _) (.refl _)).trans (persistSafetyFaultLocked_acts _ _ _)
  · exact acts { refl _ with } (.of_mt rfl rfl rfl)

theorem runRuntimeWorkLocked_spares (r : Runtime) (env : Environment) (work : Lease → Work) :
    Spares r (r.runRuntimeWorkLocked env work).1 := by
  unfold runRuntimeWorkLocked
  repeat' split
  all_goals exact { refl _ with }

theorem runRuntimeWorkLocked_acts {work : Lease → Work} (hw : ∀ lease, (work lease).ticket? = none)
    (r : Runtime) (env : Environment) : Acts r (r.runRuntimeWorkLocked env work).1 :=
  (runRuntimeWorkLocked_spares r env work).acts (runRuntimeWorkLocked_settles hw r env)

section

variable (r : Runtime)

theorem releaseFailedSlotLocked_acts (live streams : Bool) :
    Acts r (r.releaseFailedSlotLocked live streams) := by
  unfold releaseFailedSlotLocked
  split
  · exact .refl r
  split
  · exact .refl r
  next h =>
  exact Acts.trans ⟨.of_event h ⟨nofun, nofun⟩, scheduling_settles h rfl⟩
    (applyBackgroundReleaseLocked_acts _ _ _)

theorem admitFailed_acts (caller : Caller) (live streams : Bool) :
    Acts r (r.admitFailed caller live streams) := by
  unfold admitFailed
  split
  · exact .refl r
  split
  · have hcleared : Acts r { r with mt := { r.mt with downloadAllStarted := false } } :=
      acts { refl _ with } (.of_mt rfl rfl rfl)
    exact hcleared.trans (releaseFailedSlotLocked_acts _ _ _)
  · exact .refl r

theorem reconcileSelectionLocked_acts (env : Environment) :
    Acts r (r.reconcileSelectionLocked env) := by
  unfold reconcileSelectionLocked
  repeat' split
  all_goals first
    | exact .refl r
    | rename_i h
      exact Acts.trans ⟨.of_event h ⟨nofun, nofun⟩, scheduling_settles h rfl⟩
        (applyBackgroundReleaseLocked_acts _ _ _)

theorem payloadWriteError_acts (env : Environment) : Acts r (r.payloadWriteError env).1 := by
  unfold payloadWriteError
  split
  · exact .refl r
  split
  · exact .refl r
  · exact blockDownloadLocked_acts _ _ _ _

theorem reserve_spares (caller : Caller) : Spares r (r.reserve caller) :=
  { refl _ with }

end

theorem admitPayloadLocked_eq (h : r.admitPayloadLocked env caller = .ok s) :
    s = r.reserve caller := by
  unfold admitPayloadLocked at h
  repeat' split at h
  all_goals cases h
  rfl

section

variable (r : Runtime)

section

variable (env : Environment)

theorem checkPayloadAdmission_spares : Spares r (r.checkPayloadAdmission env).1 := by
  unfold checkPayloadAdmission
  split
  · exact .refl r
  split
  · exact .refl r
  next h =>
  rw [admitPayloadLocked_eq h]
  exact reserve_spares r _

theorem manageResources_spares : Spares r (r.manageResources env) := by
  unfold manageResources
  split
  · exact .refl r
  · exact { refl _ with }

theorem manageResources_settles : Settles r (r.manageResources env) := by
  unfold manageResources
  split
  · exact .refl r
  refine .of_same ⟨Nat.le_refl _, fun _ => rfl, rfl, Nat.le_succ _, ?_⟩ rfl rfl rfl rfl
  simp [admissions, Work.ticket?]

theorem pauseWithIntent_acts (saved : Option SavedTorrent) (env : Environment) :
    Acts r (r.pauseWithIntent saved env).1 := by
  simp only [pauseWithIntent]
  split
  · exact .refl r
  split
  · exact .refl r
  split
  · exact .refl r
  split
  · exact disallowDownload_acts r
  next h =>
  exact (disallowDownload_acts r).trans (quiesce_acts h rfl { refl _ with } (.of_mt rfl rfl rfl))

theorem stageExistingRestore_acts (saved : SavedTorrent) (env : Environment) :
    Acts r (r.stageExistingRestore saved env).1 := by
  simp only [stageExistingRestore]
  repeat' split
  all_goals first
    | exact .refl r
    | (rename_i h; exact quiesce_acts h rfl { refl _ with } (.of_mt rfl rfl rfl))

theorem resumeLocked_acts : Acts r (r.resumeLocked env).1 := by
  simp only [resumeLocked]
  repeat' split
  all_goals first
    | exact .refl r
    | exact (disallowDownload_acts r).trans (runRuntimeWorkLocked_acts (fun _ => rfl) _ _)

theorem resumeActivate_moves : Moves r (r.resumeActivate env).1 := by
  simp only [resumeActivate]
  split
  · exact .refl
  next s d h =>
  have hactivated : Moves r { s with mt := { s.mt with downloadBlockPersisted := false } } :=
    (Moves.of_event h ⟨nofun, nofun⟩).edit { refl _ with }
  have happlied := hactivated.trans (applyFilePrioritiesAndDownload_acts _ (env.saved 1)).moves
  split
  · split <;> rename_i heq <;> rw [heq] at happlied
    · exact happlied
    · exact happlied.edit (lib_spares _ _)
  · exact hactivated

end

end

theorem Settles.of_frame (hm : s.mt = r.mt) (hd : s.lib.download = r.lib.download)
    (hu : s.lib.upload = r.lib.upload) (hw : s.admissions = r.admissions)
    (ht : s.tickets = r.tickets) : Settles r s := by
  have hp : s.mt.policy = r.mt.policy := congrArg ManagedTorrent.policy hm
  apply Settles.of_same _ hd hu (congrArg _ hp) (congrArg _ hp)
  exact ⟨Nat.le_of_eq (congrArg _ hm.symm), fun _ => hp, congrArg _ hm, Nat.le_of_eq ht.symm, hw⟩

section

variable (r : Runtime)

theorem recoverDisk_cases (env : Environment) (version : Nat)
    (activate : Runtime → Outcome) : Acts r (r.recoverDisk env version activate).1 ∨
      ∃ s, Acts r s ∧ s.mt = r.mt ∧ s.lib.files = r.lib.files ∧
        r.recoverDisk env version activate = activate s := by
  unfold recoverDisk
  split
  · exact .inl (blockWith_acts _ _ _ _)
  split
  · exact .inl (blockWith_acts _ _ _ _)
  next s hs =>
  unfold clearWriteError at hs
  split at hs
  · cases hs
  cases hs
  have hcleared : Acts r { r with lib := { r.lib with writeError := none } } :=
    (lib_spares r _).acts (.of_frame rfl rfl rfl rfl rfl)
  split
  · exact .inr ⟨_, hcleared, rfl, rfl, rfl⟩
  · exact .inl hcleared

theorem resumeReturned_moves (env : Environment) (lease : Lease) (version : Nat) :
    Moves r (r.resumeReturned env lease version).1 := by
  unfold resumeReturned
  split
  · exact .refl
  rcases recoverDisk_cases r env version (fun r => r.resumeActivate env) with
    h | ⟨s, hs, -, -, h⟩
  · exact h.moves
  · rw [h]
    exact hs.moves.trans (resumeActivate_moves s env)

theorem finishRestore_acts (phase : TorrentState) (manual : Bool)
    (env : Environment) : Acts r (r.finishRestore phase manual env).1 := by
  unfold finishRestore
  repeat' split
  all_goals first
    | exact .refl r
    | exact runRuntimeWorkLocked_acts (fun _ => rfl) _ _

theorem openRestored_spares (d : StateDecision) : Spares r (r.openRestored d) := by
  simp only [openRestored]
  repeat' split
  all_goals exact lib_spares r _

theorem finishActivate_moves (phase : TorrentState) (err : ErrorReason)
    (recovered spec : Bool) (env : Environment) :
    Moves r (r.finishActivate phase err recovered spec env).1 := by
  simp only [finishActivate]
  split
  · exact .refl
  next s d h =>
  have hactivated : Moves r { s with mt := { s.mt with
      downloadBlockPersisted := s.mt.downloadBlockPersisted && !recovered } } :=
    (Moves.of_event h ⟨nofun, nofun⟩).edit { refl _ with }
  split
  · exact hactivated.edit (openRestored_spares _ _)
  split
  · exact hactivated.trans (quiesceFaultLocked_acts rfl _ _ _).moves
  · exact (hactivated.edit (lib_spares _ _)).edit (openRestored_spares _ _)

end

theorem Settles.of_reopened (ht : Tracks r s) (hp : s.mt.policy = d.policy)
    (hd : d.toEffects = Effects.reopen d.policy) (hdownload : s.lib.download = false)
    (hupload : d.allowUpload = false → d.closeUpload = true → s.lib.upload = false) :
    Settles r s := by
  have hallow : d.allowUpload = d.policy.uploadEligible := congrArg Effects.allowUpload hd
  have hclose : d.closeUpload = !d.policy.uploadEligible := congrArg Effects.closeUpload hd
  apply Settles.of_upload_allowed ht hdownload
  intro ho
  rw [hp]
  cases he : d.policy.uploadEligible with
  | true => rfl
  | false =>
    rw [he] at hallow hclose
    rw [hupload hallow hclose] at ho
    cases ho

theorem openRestored_settles {m : Runtime} (ht : Tracks r m) (hp : m.mt.policy = d.policy)
    (hd : d.toEffects = Effects.reopen d.policy) : Settles r (m.openRestored d) := by
  apply Settles.of_reopened _ _ hd
  · simp only [openRestored]
    repeat' split
    all_goals rfl
  · intro _ hclose
    simp only [openRestored, hclose, ↓reduceIte]
    rfl
  · apply ht.trans
    simp only [openRestored]
    repeat' split
    all_goals exact .of_lib m _
  · rw [← hp]
    simp only [openRestored]
    repeat' split
    all_goals rfl

section

variable (r : Runtime)

section

variable (phase : TorrentState) (err : ErrorReason) (recovered spec : Bool) (env : Environment)

theorem finishActivate_settles : Settles r (r.finishActivate phase err recovered spec env).1 := by
  simp only [finishActivate]
  split
  · exact .refl r
  next s d h =>
  obtain ⟨htransition, -⟩ := applyStateEvent_ok h
  have htracks := applyStateEvent_tracks h
  have hpolicy := applyStateEvent_policy h
  have hreopen := decision_reopens htransition (.inr rfl)
  split
  · exact openRestored_settles (htracks.trans (.of_mt rfl rfl rfl)) hpolicy hreopen
  next hactive =>
  have heligible : s.mt.policy.payloadEligible = true := by
    rw [hpolicy]
    exact activated_eligible htransition rfl (by simpa using hactive)
  split
  · have hactivated : Settles r { s with mt := { s.mt with
        downloadBlockPersisted := s.mt.downloadBlockPersisted && !recovered } } := by
      refine ⟨⟨htracks.trans (.of_mt rfl rfl rfl), ?_⟩, ?_⟩
      · intro ho
        refine ⟨?_, fun _ => heligible⟩
        change s.lib.download = true at ho
        rwa [applyStateEvent_lib h] at ho
      · exact .of_allowed ((payloadEligible_iff _).1 heligible).1
    exact hactivated.trans (quiesceFaultLocked_acts rfl _ _ _).settles
  · exact openRestored_settles
      (htracks.trans ⟨Nat.le_refl _, fun _ => rfl, rfl, Nat.le_refl _, rfl⟩) hpolicy hreopen

theorem finishActivate_acts : Acts r (r.finishActivate phase err recovered spec env).1 :=
  ⟨finishActivate_moves r phase err recovered spec env,
    finishActivate_settles r phase err recovered spec env⟩

end

section

variable (env : Environment)

section

variable (lease : Lease)

theorem finishSaved_acts (phase : TorrentState) (err : ErrorReason)
    (manual metadata needsSpec : Bool) :
    Acts r (r.finishSaved env lease phase err manual metadata needsSpec).1 := by
  simp only [finishSaved]
  split
  · exact .refl r
  split
  · exact quiesceFaultLocked_acts rfl _ _ _
  split
  · exact quiesceFaultLocked_acts rfl _ _ _
  split
  · exact runRuntimeWorkLocked_acts (fun _ => rfl) _ _
  · exact finishActivate_acts _ _ _ _ _ _

theorem finishProbed_acts (phase : TorrentState) (err : ErrorReason) (spec : Bool) (version : Nat) :
    Acts r (r.finishProbed env lease phase err spec version).1 := by
  unfold finishProbed
  split
  · exact .refl r
  rcases recoverDisk_cases r env version
      (fun r => r.finishActivate phase err true spec env) with h | ⟨s, hs, -, -, h⟩
  · exact h
  · rw [h]
    exact hs.trans (finishActivate_acts s phase err true spec env)

theorem watchMetadata_acts : Acts r (r.watchMetadata env).1 := by
  unfold watchMetadata
  repeat' split
  all_goals first
    | exact .refl r
    | exact runRuntimeWorkLocked_acts (fun _ => rfl) _ _

theorem trackersReturned_acts : Acts r (r.trackersReturned env lease).1 := by
  unfold trackersReturned
  split
  · exact .refl r
  · exact runRuntimeWorkLocked_acts (fun _ => rfl) _ _

theorem metadataReturned_moves : Moves r (r.metadataReturned env lease).1 := by
  simp only [metadataReturned]
  split
  · exact .refl
  split
  · exact (quiesceFaultLocked_acts rfl _ _ _).moves
  split
  · have hstarted : Spares r { r with mt := { r.mt with downloadAllStarted := true } } :=
      { refl _ with }
    split
    · exact hstarted.moves
    next h =>
    rw [admitPayloadLocked_eq h]
    exact hstarted.moves.edit (reserve_spares _ _)
  · exact .refl

theorem detectMissingExpectedPayload_acts : Acts r (r.detectMissingExpectedPayload env).1 := by
  unfold detectMissingExpectedPayload
  repeat' split
  all_goals first
    | exact .refl r
    | exact runRuntimeWorkLocked_acts (fun _ => rfl) _ _

theorem missingReturned_acts : Acts r (r.missingReturned env lease).1 := by
  unfold missingReturned
  repeat' split
  all_goals first
    | exact .refl r
    | exact quiesceFaultLocked_acts rfl _ _ _

end

end

theorem installPriorities_acts (priorities : List (Int × FilePriority)) :
    Acts r (r.installPriorities priorities) := by
  refine acts { refl r with epoch := Nat.le_succ _ } ?_
  exact .of_same ⟨Nat.le_succ _, fun _ => rfl, rfl, Nat.le_refl _, rfl⟩ rfl rfl rfl rfl

theorem setFilePriority_acts (index : Int) (priority : FilePriority)
    (env : Environment) : Acts r (r.setFilePriority index priority env).1 := by
  simp only [setFilePriority]
  repeat' split
  all_goals first
    | exact .refl r
    | exact installPriorities_acts r _
    | exact (installPriorities_acts r _).trans (applyFilePrioritiesAndDownload_acts _ _)

theorem setTorrentFilesPriority_acts (priority : FilePriority)
    (env : Environment) : Acts r (r.setTorrentFilesPriority priority env).1 := by
  simp only [setTorrentFilesPriority]
  repeat' split
  all_goals first
    | exact .refl r
    | exact (installPriorities_acts r _).trans (applyFilePrioritiesAndDownload_acts _ _)

theorem setFilePriorities_acts (entries : List (Int × FilePriority))
    (env : Environment) : Acts r (r.setFilePriorities entries env).1 := by
  simp only [setFilePriorities]
  repeat' split
  all_goals first
    | exact .refl r
    | exact installPriorities_acts r _
    | exact (installPriorities_acts r _).trans (applyFilePrioritiesAndDownload_acts _ _)

theorem restoreBasePriorities_acts (env : Environment) : Acts r (r.restoreBasePriorities env) := by
  unfold restoreBasePriorities
  split
  · exact .refl r
  · exact applyFilePrioritiesAndDownload_acts _ _

theorem refreshPeerDiscovery_acts (downloadAll : Bool) (env : Environment) :
    Acts r (r.refreshPeerDiscovery downloadAll env) := by
  simp only [refreshPeerDiscovery]
  split
  · exact .refl r
  next hc =>
  simp only [Bool.or_eq_true, Bool.not_eq_true', not_or, Bool.not_eq_false] at hc
  obtain ⟨-, heligible⟩ := hc
  have hallowed : Acts r (if (!r.noUpload) = true then r.allowUpload else r) := by
    split
    · refine (lib_spares r _).acts ⟨⟨.of_lib r _, fun ho => ⟨ho, id⟩⟩, ?_⟩
      exact .of_allowed heligible
    · exact .refl r
  split
  · exact hallowed.trans (applyFilePrioritiesAndDownload_acts _ _)
  · exact hallowed

theorem setQueuePosition_acts (position : Int) : Acts r (r.setQueuePosition position) := by
  unfold setQueuePosition
  split
  · exact acts { refl _ with } (.of_mt rfl rfl rfl)
  · exact .refl r

end

theorem terminate_acts {kind : StateEventKind} (hk : kind.quiesces = true) (r : Runtime) :
    Acts r (r.terminate kind) := by
  unfold terminate
  split
  · exact .refl r
  next h => exact quiesce_acts h hk (.refl _) (.refl _)

section

variable (r : Runtime)

theorem close_acts : Acts r r.close := by
  unfold close
  split
  · exact terminate_acts rfl r
  · exact .refl r

theorem clearPreparation_spares (ticket : PayloadPreparation) :
    Spares r (r.clearPreparation ticket) := by
  unfold clearPreparation
  split <;> exact { refl _ with }

theorem admitReturned_moves (env : Environment) (ticket : PayloadPreparation)
    (metadata : Bool) : Moves r (r.admitReturned env ticket metadata).1 := by
  simp only [admitReturned]
  apply (clearPreparation_spares r ticket).moves.trans
  generalize r.clearPreparation ticket = s
  split
  · exact .refl
  split
  · exact (blockWith_acts _ _ _ _).moves
  split
  · exact (quiesceFaultLocked_acts rfl _ _ _).moves
  have happlied := (applyFilePrioritiesAndDownload_acts s (env.saved 0)).moves
  split <;> rename_i heq <;> rw [heq] at happlied
  · exact happlied
  · apply happlied.trans
    split
    · exact (blockWith_acts _ _ _ _).moves
    split
    · exact (blockWith_acts _ _ _ _).moves
    · exact (lib_spares _ _).moves

theorem admitFinish_moves (env : Environment) (ticket : PayloadPreparation)
    (metadata : Bool) (caller : Caller) : Moves r (r.admitFinish env ticket metadata caller) := by
  have h := admitReturned_moves r env ticket metadata
  unfold admitFinish
  split <;> rename_i heq <;> rw [heq] at h
  · exact h
  · exact h.trans ((admitFailed_acts _ _ _ _).moves)

theorem clearHealthProbe_spares (ticket : PayloadPreparation) :
    Spares r (r.clearHealthProbe ticket) := by
  unfold clearHealthProbe
  split <;> exact { refl _ with }

theorem prepareSlot_moves (env : Environment) : Moves r (r.prepareSlot env) := by
  simp only [prepareSlot]
  split
  · have hstarted : Spares r { r with mt := { r.mt with downloadAllStarted := true } } :=
      { refl _ with }
    split
    next h =>
      rw [admitPayloadLocked_eq h]
      exact hstarted.moves.edit (reserve_spares _ _)
    · exact hstarted.moves.trans ((admitFailed_acts _ _ _ _).moves)
  · exact .refl

end

inductive Verifies (r : Runtime) : Runtime → Prop where
  | refl : Verifies r r
  | moves {s t : Runtime} (h : Verifies r s) (hm : Moves s t) : Verifies r t
  | verification {s t : Runtime} {event : VerificationEvent} {d : StateDecision}
    (h : Verifies r s) (he : s.applyVerificationEvent event = .ok (t, d)) : Verifies r t
  | attempt {s : Runtime} (h : Verifies r s) (attempt : Option VerificationAttempt)
    (tickets : Nat) :
    Verifies r { s with mt := { s.mt with verificationAttempt := attempt }, tickets }

theorem Verifies.trans (hrs : Verifies r s) (hst : Verifies s t) : Verifies r t := by
  induction hst with
  | refl => exact hrs
  | moves _ hm ih => exact .moves ih hm
  | verification _ he ih => exact .verification ih he
  | attempt _ attempt tickets ih => exact .attempt ih attempt tickets

def observed (r : Runtime) (env : Environment) (ticket : PayloadPreparation) : Runtime :=
  (r.clearHealthProbe ticket).reconcileSelectionLocked (env.drop 1)

section

variable (r : Runtime) (env : Environment) (ticket : PayloadPreparation)

theorem observed_moves : Moves r (r.observed env ticket) :=
  (clearHealthProbe_spares r ticket).moves.trans ((reconcileSelectionLocked_acts _ _).moves)

theorem healthReturned_cases :
    Moves r (r.healthReturned env ticket) ∨ ∃ granted d, r.managed = true ∧
        (r.observed env ticket).applyStateEvent
          { kind := .slotRequested, slotAvailable := env.slotAvailable } = .ok (granted, d) ∧
        Moves granted (r.healthReturned env ticket) := by
  simp only [healthReturned]
  split
  · exact .inl (clearHealthProbe_spares r ticket).moves
  next hvalid =>
  split
  · exact .inl ((clearHealthProbe_spares r ticket).moves.trans (blockDownloadLocked_moves _ _ _ _))
  have hmanaged : r.managed = true := by
    simp only [holds, current, Bool.not_eq_true', Bool.and_eq_false_iff, not_or,
      Bool.not_eq_false] at hvalid
    exact hvalid.1.2.1
  have hobserved := observed_moves r env ticket
  split
  · exact .inl hobserved
  next granted hgranted =>
  unfold requestSlot at hgranted
  split at hgranted
  · cases hgranted
    exact .inl (hobserved.trans (prepareSlot_moves _ _))
  split at hgranted
  · cases hgranted
  next d hevent =>
  cases hgranted
  exact .inr ⟨granted, d, hmanaged, hevent, prepareSlot_moves _ _⟩

end

end Runtime

def Runtime.Operation.plain : Runtime.Operation → Bool
  | .restoreVerificationBlock | .startRecheck | .verifyInactive | .finishVerification _ _
  | .failIntentApply _ _ | .bindRuntime _ _ _ | .delete => false
  | _ => true

def Work.plain : Work → Bool
  | .register | .health _ => false
  | _ => true

namespace Runtime

variable {r : Runtime} {env : Environment}

theorem call_acts {op : Operation} (h : op.plain = true) (hop : op ≠ .checkPayloadAdmission)
    (r : Runtime) (env : Environment) : Acts r (r.call op env) := by
  cases op <;> try cases h
  case checkPayloadAdmission => exact absurd rfl hop
  case payloadWriteError => exact payloadWriteError_acts r env
  case manageResources => exact (manageResources_spares r env).acts (manageResources_settles r env)
  case resume => exact resumeLocked_acts r env
  case watchMetadata => exact watchMetadata_acts r env
  case detectMissingExpectedPayload => exact detectMissingExpectedPayload_acts r env
  case restoreBasePriorities => exact restoreBasePriorities_acts r env
  case close => exact close_acts r
  case pause saved => exact pauseWithIntent_acts r saved env
  case stageExistingRestore saved => exact stageExistingRestore_acts r saved env
  case finishRestore phase manual => exact finishRestore_acts r phase manual env
  case setFilePriority index priority => exact setFilePriority_acts r index priority env
  case setTorrentFilesPriority priority => exact setTorrentFilesPriority_acts r priority env
  case setFilePriorities entries => exact setFilePriorities_acts r entries env
  case refreshPeerDiscovery downloadAll => exact refreshPeerDiscovery_acts r downloadAll env
  case setQueuePosition position => exact setQueuePosition_acts r position

theorem call_moves {op : Operation} (h : op.plain = true) (r : Runtime) (env : Environment) :
    Moves r (r.call op env) := by
  by_cases hop : op = .checkPayloadAdmission
  · rw [hop]
    exact (checkPayloadAdmission_spares r env).moves
  · exact (call_acts h hop r env).moves

theorem finish_moves {work : Work} (h : work.plain = true) (r : Runtime) (env : Environment) :
    Moves r (r.finish work env) := by
  cases work <;> try cases h
  case admission ticket metadata caller => exact admitFinish_moves r env ticket metadata caller
  case resume lease version => exact resumeReturned_moves r env lease version
  case finishSave lease phase err manual metadata needsSpec =>
    exact (finishSaved_acts r env lease phase err manual metadata needsSpec).moves
  case finishProbe lease phase err spec version =>
    exact (finishProbed_acts r env lease phase err spec version).moves
  case trackers lease => exact (trackersReturned_acts r env lease).moves
  case saveMetadata lease => exact metadataReturned_moves r env lease
  case missing lease => exact (missingReturned_acts r env lease).moves

end Runtime

end TorrentHub
