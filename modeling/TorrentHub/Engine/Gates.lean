import TorrentHub.Engine.Operations
import TorrentHub.Policy.Eligibility
import TorrentHub.Lib.Gate

namespace TorrentHub
open Lib

def Work.ticket? : Work → Option PayloadPreparation
  | .admission ticket _ _ => some ticket
  | _ => none

namespace Runtime

def uploadGate : Gate Runtime where
  isOpen r := r.lib.upload = true
  allowed r := r.mt.policy.uploadEligible = true

def downloadGate : Gate Runtime where
  isOpen r := r.lib.download = true
  allowed r := r.mt.policy.payloadEligible = true

def admissions (r : Runtime) : List PayloadPreparation := r.work.filterMap Work.ticket?

/-- Outside the admission protocol the epoch never falls and counts every change of the policy, and
the reservation is left alone. -/
structure Tracks (r s : Runtime) : Prop where
  epoch : r.mt.policyEpoch ≤ s.mt.policyEpoch
  policy : s.mt.policyEpoch = r.mt.policyEpoch → s.mt.policy = r.mt.policy
  preparation : s.mt.preparation = r.mt.preparation
  tickets : r.tickets ≤ s.tickets
  admissions : s.admissions = r.admissions

structure Shuts (r s : Runtime) : Prop extends Tracks r s where
  download : downloadGate.Shut r s

structure Settles (r s : Runtime) : Prop extends Shuts r s where
  upload : uploadGate.Keeps r s

variable {r s t : Runtime} {event : StateEvent} {d : StateDecision}

theorem Tracks.refl (r : Runtime) : Tracks r r :=
  ⟨Nat.le_refl _, fun _ => rfl, rfl, Nat.le_refl _, rfl⟩

theorem Tracks.trans (hrs : Tracks r s) (hst : Tracks s t) : Tracks r t where
  epoch := Nat.le_trans hrs.epoch hst.epoch
  policy h := by
    have hs : s.mt.policyEpoch = r.mt.policyEpoch := Nat.le_antisymm (h ▸ hst.epoch) hrs.epoch
    exact (hst.policy (h.trans hs.symm)).trans (hrs.policy hs)
  preparation := hst.preparation.trans hrs.preparation
  tickets := Nat.le_trans hrs.tickets hst.tickets
  admissions := hst.admissions.trans hrs.admissions

theorem Shuts.trans (hrs : Shuts r s) (hst : Shuts s t) : Shuts r t :=
  ⟨hrs.toTracks.trans hst.toTracks, hrs.download.trans hst.download⟩

theorem Settles.refl (r : Runtime) : Settles r r :=
  ⟨⟨.refl r, Gate.Shut.refl _ r⟩, Gate.Keeps.refl _ r⟩

theorem Settles.trans (hrs : Settles r s) (hst : Settles s t) : Settles r t :=
  ⟨hrs.toShuts.trans hst.toShuts, hrs.upload.trans hst.upload⟩

section

variable (h : Tracks r s)
include h

theorem Settles.of_closed (hd : s.lib.download = false) (hu : s.lib.upload = false) : Settles r s :=
  ⟨⟨h, .of_closed (by simp [downloadGate, hd])⟩, .of_closed (by simp [uploadGate, hu])⟩

theorem Settles.of_payload_closed (hd : s.lib.download = false) (hu : s.lib.upload = r.lib.upload)
    (he : s.mt.policy.uploadEligible = r.mt.policy.uploadEligible) : Settles r s := by
  refine ⟨⟨h, .of_closed (by simp [downloadGate, hd])⟩, ?_⟩
  intro ho
  change s.lib.upload = true at ho
  rw [hu] at ho
  exact .inr ⟨ho, fun ha => he.trans ha⟩

theorem Settles.of_same (hd : s.lib.download = r.lib.download) (hu : s.lib.upload = r.lib.upload)
    (hp : s.mt.policy.payloadEligible = r.mt.policy.payloadEligible)
    (he : s.mt.policy.uploadEligible = r.mt.policy.uploadEligible) : Settles r s := by
  refine ⟨⟨h, ?_⟩, ?_⟩
  · intro ho
    change s.lib.download = true at ho
    rw [hd] at ho
    exact ⟨ho, fun ha => hp.trans ha⟩
  intro ho
  change s.lib.upload = true at ho
  rw [hu] at ho
  exact .inr ⟨ho, fun ha => he.trans ha⟩

theorem Settles.of_upload_allowed (hd : s.lib.download = false)
    (hu : s.lib.upload = true → s.mt.policy.uploadEligible = true) : Settles r s :=
  ⟨⟨h, .of_closed (by simp [downloadGate, hd])⟩, fun ho => .inl (hu ho)⟩

end

section

variable (h : r.applyStateEvent event = .ok (s, d))
include h

theorem applyStateEvent_ok : runtimeTransition r.mt.policy event = .ok d ∧
      s = { r with mt := r.mt.install event d } := by
  unfold applyStateEvent at h
  split at h
  · cases h
  next mt d' heq =>
  cases h
  obtain ⟨ht, hm⟩ := ManagedTorrent.apply_ok (congrArg Prod.snd heq)
  rw [heq] at hm
  cases hm
  exact ⟨ht, rfl⟩

theorem applyStateEvent_tracks : Tracks r s := by
  obtain ⟨-, rfl⟩ := applyStateEvent_ok h
  refine ⟨?_, ?_, rfl, Nat.le_refl _, rfl⟩
  · simp only [ManagedTorrent.install]
    split <;> omega
  simp only [ManagedTorrent.install]
  split
  · intro hc
    omega
  next hp =>
  intro _
  exact (not_not.1 hp).symm

theorem applyStateEvent_policy : s.mt.policy = d.policy := by
  obtain ⟨-, rfl⟩ := applyStateEvent_ok h
  rfl

theorem applyStateEvent_lib : s.lib = r.lib := by
  obtain ⟨-, rfl⟩ := applyStateEvent_ok h
  rfl

end

theorem Tracks.of_mt {mt : ManagedTorrent} (he : mt.policyEpoch = r.mt.policyEpoch)
    (hp : mt.policy = r.mt.policy) (ht : mt.preparation = r.mt.preparation) :
    Tracks r { r with mt } :=
  ⟨Nat.le_of_eq he.symm, fun _ => hp, ht, Nat.le_refl _, rfl⟩

theorem Tracks.of_lib (r : Runtime) (lib : LibraryTorrent) : Tracks r { r with lib } :=
  ⟨Nat.le_refl _, fun _ => rfl, rfl, Nat.le_refl _, rfl⟩

theorem Settles.of_mt {mt : ManagedTorrent} (he : mt.policyEpoch = r.mt.policyEpoch)
    (hp : mt.policy = r.mt.policy) (ht : mt.preparation = r.mt.preparation) :
    Settles r { r with mt } :=
  .of_same (.of_mt he hp ht) rfl rfl (congrArg _ hp) (congrArg _ hp)

theorem disallowDownload_settles (r : Runtime) : Settles r r.disallowDownload :=
  .of_payload_closed (.of_lib r _) rfl rfl rfl

theorem applyQuiesceLocked_tracks (r : Runtime) (d : StateDecision) :
    Tracks r (r.applyQuiesceLocked d) := by
  unfold applyQuiesceLocked
  split <;> split <;> exact .of_lib r _

theorem applyQuiesceLocked_closed (hd : d.toEffects = Effects.quiesce) :
    (r.applyQuiesceLocked d).lib.download = false ∧
      (r.applyQuiesceLocked d).lib.upload = false := by
  have hp : d.closePayload = true := congrArg Effects.closePayload hd
  have hu : d.closeUpload = true := congrArg Effects.closeUpload hd
  simp [applyQuiesceLocked, hp, hu, disallowUpload, disallowDownload]

theorem quiesce_settles (h : r.applyStateEvent event = .ok (s, d))
    (hk : event.kind.quiesces = true) (ht : Tracks s t) : Settles r (t.applyQuiesceLocked d) := by
  have hd := decision_quiesces (applyStateEvent_ok h).1 hk
  obtain ⟨hclosed, hupload⟩ := applyQuiesceLocked_closed (r := t) hd
  exact .of_closed
    (((applyStateEvent_tracks h).trans ht).trans (applyQuiesceLocked_tracks t d)) hclosed hupload

theorem blockDownloadLocked_settles (r : Runtime) (reason : String) (live saved : Bool) :
    Settles r (r.blockDownloadLocked reason live saved).1 := by
  simp only [blockDownloadLocked]
  split
  · exact .refl r
  split
  · exact .refl r
  next s d h =>
  have hu := decision_disk (applyStateEvent_ok h).1 rfl
  have hblocked : Settles r s.disallowDownload := by
    apply Settles.of_payload_closed
      ((applyStateEvent_tracks h).trans (disallowDownload_settles s).toTracks) rfl
    · change s.lib.upload = r.lib.upload
      rw [applyStateEvent_lib h]
    · change s.mt.policy.uploadEligible = _
      rw [applyStateEvent_policy h, hu]
  repeat' split
  all_goals exact hblocked.trans (.of_mt rfl rfl rfl)

theorem applyFilePrioritiesAndDownload_ok
    (h : r.applyFilePrioritiesAndDownload saved = (s, .ok ())) :
    s.lib = r.lib ∧ s.mt.policy = r.mt.policy := by
  unfold applyFilePrioritiesAndDownload at h
  split at h
  · cases h
  split at h
  · cases h
  split at h
  · split at h <;> cases h
  cases h
  exact ⟨rfl, rfl⟩

theorem runRuntimeWorkLocked_settles {work : Lease → Work}
    (hw : ∀ lease, (work lease).ticket? = none)
    (r : Runtime) (env : Environment) : Settles r (r.runRuntimeWorkLocked env work).1 := by
  unfold runRuntimeWorkLocked
  split
  · exact .refl r
  split
  · exact .refl r
  refine .of_same ⟨Nat.le_refl _, fun _ => rfl, rfl, Nat.le_refl _, ?_⟩ rfl rfl rfl rfl
  simp [admissions, hw]

theorem scheduling_settles (h : r.applyStateEvent event = .ok (s, d))
    (hk : event.kind.scheduling = true) : Settles r s := by
  obtain ⟨hp, hu⟩ := decision_scheduling (applyStateEvent_ok h).1 hk
  have hpolicy := applyStateEvent_policy h
  have hlib := applyStateEvent_lib h
  exact .of_same (applyStateEvent_tracks h) (congrArg _ hlib) (congrArg _ hlib)
    ((congrArg _ hpolicy).trans hp) ((congrArg _ hpolicy).trans hu)

end Runtime

end TorrentHub
