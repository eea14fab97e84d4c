import TorrentHub.Engine.Settling

namespace TorrentHub
open Lib

namespace Runtime

variable {r s : Runtime} {env : Environment}

section

variable (r : Runtime)

section

variable (env : Environment)

theorem resumeActivate_cases : Settles r (r.resumeActivate env).1 ∨
      ∃ m, Settles r m ∧ m.mt.policy.uploadEligible = !r.mt.policy.verificationFault ∧
        r.lib.files.isSome = true ∧ r.resumeActivate env = (m.allowUpload, .ok ()) := by
  simp only [resumeActivate]
  split
  · exact .inl (.refl r)
  next s d h =>
  obtain ⟨hpayload, hupload⟩ := resume_eligible (applyStateEvent_ok h).1
  rw [← applyStateEvent_policy h] at hpayload hupload
  have hlib := applyStateEvent_lib h
  have hfault : r.mt.policy.uploadEligible = true → r.mt.policy.verificationFault = false :=
    fun he => ((uploadEligible_iff _).1 he).2.2.2.2.2.2.1
  have hactivated : Settles r { s with mt := { s.mt with downloadBlockPersisted := false } } := by
    refine ⟨⟨(applyStateEvent_tracks h).trans (.of_mt rfl rfl rfl), ?_⟩, ?_⟩
    · intro ho
      change s.lib.download = true at ho
      refine ⟨by rwa [hlib] at ho, fun he => ?_⟩
      change s.mt.policy.payloadEligible = true
      rw [hpayload, hfault ((payloadEligible_iff _).1 he).1]
      rfl
    intro ho
    change s.lib.upload = true at ho
    refine .inr ⟨by rwa [hlib] at ho, fun he => ?_⟩
    change s.mt.policy.uploadEligible = true
    rw [hupload, hfault he]
    rfl
  split
  next hfiles =>
    split
    next m err heq =>
      have hm := (applyFilePrioritiesAndDownload_acts
        { s with mt := { s.mt with downloadBlockPersisted := false } } (env.saved 1)).settles
      rw [heq] at hm
      exact .inl (hactivated.trans hm)
    next m heq =>
    have hm := (applyFilePrioritiesAndDownload_acts
      { s with mt := { s.mt with downloadBlockPersisted := false } } (env.saved 1)).settles
    rw [heq] at hm
    obtain ⟨-, hpolicy⟩ := applyFilePrioritiesAndDownload_ok heq
    refine .inr ⟨m, hactivated.trans hm, ?_, ?_, rfl⟩
    · rw [hpolicy]
      exact hupload
    · change s.lib.files.isSome = true at hfiles
      rwa [hlib] at hfiles
  · exact .inl hactivated

theorem resumeReturned_cases (lease : Lease) (version : Nat) :
    Settles r (r.resumeReturned env lease version).1 ∨
      ∃ m, Settles r m ∧ m.mt.policy.uploadEligible = !r.mt.policy.verificationFault ∧
        r.lib.files.isSome = true ∧
        r.resumeReturned env lease version = (m.allowUpload, .ok ()) := by
  unfold resumeReturned
  split
  · exact .inl (.refl r)
  rcases recoverDisk_cases r env version (fun r => r.resumeActivate env) with
    h | ⟨s, hs, hmt, hfiles, h⟩
  · exact .inl h.settles
  rw [h]
  rcases resumeActivate_cases s env with ha | ⟨m, hm, helig, hknown, ha⟩
  · exact .inl (hs.settles.trans ha)
  rw [hmt] at helig
  rw [hfiles] at hknown
  exact .inr ⟨m, hs.settles.trans hm, helig, hknown, ha⟩

theorem allowUpload_shuts : Shuts r r.allowUpload :=
  ⟨.of_lib r _, fun ho => ⟨ho, id⟩⟩

theorem resumeReturned_shuts (lease : Lease) (version : Nat) :
    Shuts r (r.resumeReturned env lease version).1 := by
  rcases resumeReturned_cases r env lease version with h | ⟨m, hm, -, -, h⟩
  · exact h.toShuts
  · rw [h]
    exact hm.toShuts.trans (allowUpload_shuts m)

theorem admitReturned_cases (ticket : PayloadPreparation) (metadata : Bool) :
    Settles (r.clearPreparation ticket) (r.admitReturned env ticket metadata).1 ∨
      r.prepared ticket (env.live 0) = true ∧
        ∃ m, Settles (r.clearPreparation ticket) m ∧ m.mt.policy = r.mt.policy ∧
          r.admitReturned env ticket metadata = (m.allowDownload, .ok ()) := by
  simp only [admitReturned]
  split
  · exact .inl (.refl _)
  rename_i hvalid
  split
  · exact .inl (blockWith_acts _ _ _ _).settles
  split
  · exact .inl (quiesceFaultLocked_acts rfl _ _ _).settles
  have hm := (applyFilePrioritiesAndDownload_acts (r.clearPreparation ticket) (env.saved 0)).settles
  split
  next heq =>
    rw [heq] at hm
    exact .inl hm
  rename_i m heq
  rw [heq] at hm
  split
  · exact .inl (hm.trans (blockWith_acts _ _ _ _).settles)
  split
  · exact .inl (hm.trans (blockWith_acts _ _ _ _).settles)
  have hpolicy : m.mt.policy = r.mt.policy := by
    rw [(applyFilePrioritiesAndDownload_ok heq).2]
    unfold clearPreparation
    split <;> rfl
  exact .inr ⟨by simpa using hvalid, m, hm, hpolicy, rfl⟩

theorem admitFinish_cases (ticket : PayloadPreparation) (metadata : Bool) (caller : Caller) :
    Settles (r.clearPreparation ticket) (r.admitFinish env ticket metadata caller) ∨
      r.prepared ticket (env.live 0) = true ∧
        ∃ m, Settles (r.clearPreparation ticket) m ∧ m.mt.policy = r.mt.policy ∧
          r.admitFinish env ticket metadata caller = m.allowDownload := by
  unfold admitFinish
  rcases admitReturned_cases r env ticket metadata with h | ⟨hp, m, hm, hpolicy, h⟩
  · split <;> rename_i heq <;> rw [heq] at h
    · exact .inl h
    · exact .inl (h.trans (admitFailed_acts _ _ _ _).settles)
  · rw [h]
    exact .inr ⟨hp, m, hm, hpolicy, rfl⟩

end

end

/-- The runtime while the `index`-th pending work holds admission again. -/
def take (r : Runtime) (index : Nat) : Runtime := { r with work := r.work.eraseIdx index }

theorem filterMap_eraseIdx {work : Work} {works : List Work} {index : Nat}
    (h : works[index]? = some work) (hw : work.ticket? = none) :
    (works.eraseIdx index).filterMap Work.ticket? = works.filterMap Work.ticket? := by
  induction works generalizing index with
  | nil => cases h
  | cons w works ih =>
    cases index with
    | zero =>
      cases h
      simp [hw]
    | succ index => simp only [List.eraseIdx_cons_succ, List.filterMap_cons, ih h]

theorem take_settles {work : Work} {index : Nat} (h : r.work[index]? = some work)
    (hw : work.ticket? = none) : Settles r (r.take index) :=
  .of_frame rfl rfl rfl (filterMap_eraseIdx h hw) rfl

theorem step_cases (r : Runtime) (action : Action) : Reserves r (r.step action) ∨
      (∃ index env lease version, action = .returned index env ∧
        r.work[index]? = some (.resume lease version) ∧
        r.step action = ((r.take index).resumeReturned env lease version).1) ∨
      ∃ index env ticket metadata caller, action = .returned index env ∧
        r.work[index]? = some (.admission ticket metadata caller) ∧
        r.step action = (r.take index).admitFinish env ticket metadata caller := by
  cases action with
  | call op env => exact .inl (call_reserves r op env)
  | gotInfo files => exact .inl (.inl (.of_frame rfl rfl rfl rfl rfl))
  | writeFailed err => exact .inl (.inl (.of_payload_closed (.of_lib r _) rfl rfl rfl))
  | returned index env =>
    cases hw : r.work[index]? with
    | none =>
      simp only [step, hw]
      exact .inl (.inl (.refl r))
    | some work =>
      have hstep : r.step (.returned index env) = (r.take index).finish work env := by
        simp only [step, hw, take]
      rw [hstep]
      by_cases hp : plainWork work = true
      · have ht : work.ticket? = none := by cases work <;> first | rfl | cases hp
        exact .inl ((take_settles hw ht).reserves_trans (finish_reserves hp _ env))
      cases work with
      | resume lease version => exact .inr (.inl ⟨index, env, lease, version, rfl, hw, rfl⟩)
      | admission ticket metadata caller =>
        exact .inr (.inr ⟨index, env, ticket, metadata, caller, rfl, hw, rfl⟩)
      | _ => exact absurd rfl hp

end Runtime

end TorrentHub
