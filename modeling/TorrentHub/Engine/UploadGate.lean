import TorrentHub.Engine.Admission

namespace TorrentHub
open Lib

namespace Runtime

variable {r : Runtime} {action : Action}

/-- A resume succeeds, with the metadata known and the verification fault still standing. -/
def resumesFaulted (r : Runtime) : Action → Bool
  | .returned index env =>
    match r.work[index]? with
    | some (.resume lease version) =>
      ((r.take index).resumeReturned env lease version).2.isOk && r.lib.files.isSome &&
        r.mt.policy.verificationFault
    | _ => false
  | _ => false

theorem clearPreparation_upload (r : Runtime) (ticket : PayloadPreparation) :
    uploadGate.Keeps r (r.clearPreparation ticket) := by
  unfold clearPreparation
  split <;> exact Gate.Keeps.refl _ _

theorem admitFinish_upload (r : Runtime) (env : Environment) (ticket : PayloadPreparation)
    (metadata : Bool) (caller : Caller) :
    uploadGate.Keeps r (r.admitFinish env ticket metadata caller) := by
  have hclear := clearPreparation_upload r ticket
  rcases admitFinish_cases r env ticket metadata caller with h | ⟨-, m, hm, -, h⟩
  · exact hclear.trans h.upload
  · rw [h]
    exact hclear.trans hm.upload

theorem step_upload (h : r.resumesFaulted action = false) : uploadGate.Keeps r (r.step action) := by
  rcases r.step_cases action with hr | ⟨index, env, lease, version, rfl, hw, hs⟩ |
    ⟨index, env, ticket, metadata, caller, rfl, hw, hs⟩
  · exact hr.upload
  · have htake : uploadGate.Keeps r (r.take index) := fun ho => .inr ⟨ho, id⟩
    rw [hs]
    apply htake.trans
    rcases resumeReturned_cases (r.take index) env lease version with
      hm | ⟨m, -, helig, hknown, hm⟩
    · exact hm.upload
    change r.lib.files.isSome = true at hknown
    change m.mt.policy.uploadEligible = !r.mt.policy.verificationFault at helig
    have hfault : r.mt.policy.verificationFault = false := by
      simpa only [resumesFaulted, hw, hm, hknown, Except.isOk, Except.toBool, Bool.true_and] using h
    rw [hfault] at helig
    rw [hm]
    exact .of_allowed helig
  · have htake : uploadGate.Keeps r (r.take index) := fun ho => .inr ⟨ho, id⟩
    rw [hs]
    exact htake.trans (admitFinish_upload _ _ _ _ _)

theorem registerTorrent_upload {spec : TorrentSpec} (h : spec.disallowUpload = true)
    (restored : Option SavedTorrent) (noUpload : Bool) (env : Environment) :
    uploadGate.Guarded (registerTorrent spec restored noUpload env).1 := by
  simp only [registerTorrent]
  split
  · exact .of_closed (by simp [uploadGate, h])
  next s d hs =>
  have hlib : s.lib.upload = false := by
    rw [applyStateEvent_lib hs]
    simp [h]
  split
  · exact .of_closed (by simp [uploadGate, hlib])
  unfold publish
  split <;> exact .of_closed (by simp [uploadGate, hlib])

/-- In a run in which no resume succeeds over a standing verification fault with the metadata
known, the upload permission is on only if the policy is upload eligible. -/
theorem upload_gate_guarded (spec : TorrentSpec) (restored : Option SavedTorrent)
    (noUpload : Bool) (env : Environment) (as : List Action)
    (hspec : spec.disallowUpload = true)
    (hrun : Along step (fun r action => r.resumesFaulted action = false)
      (registerTorrent spec restored noUpload env).1 as) :
    let r := run spec restored noUpload env as
    r.lib.upload = true → r.mt.policy.uploadEligible = true := by
  have hstep : ∀ (r : Runtime) (action : Action), uploadGate.Guarded r →
      r.resumesFaulted action = false → uploadGate.Guarded (r.step action) :=
    fun r action hr h => (step_upload h).guarded hr
  exact exec_invariant hstep (registerTorrent_upload hspec restored noUpload env) hrun

def unverified : SavedTorrent where
  state := .error
  err := ErrorReason.verificationFailed

def oneFileSpec : TorrentSpec where
  disallowUpload := true
  files := some 1

/-- Publication, and the restore's activation in `phase`. -/
def restoreActions (phase : TorrentState) : List Action :=
  [.returned 0 {}, .call (.finishRestore phase false) {}, .returned 0 {}]

def resumeActions : List Action := [.call .resume {}, .returned 0 {}]

/-- Restored as queued and resumed: upload is on, and the policy allows it. -/
theorem restored_queued_upload :
    (run oneFileSpec (some {}) false {} (restoreActions .queued ++ resumeActions)).lib.upload =
        true ∧
      (run oneFileSpec (some {}) false {}
        (restoreActions .queued ++ resumeActions)).mt.policy.uploadEligible = true := by
  have hopen : (run oneFileSpec (some {}) false {}
      (restoreActions .queued ++ resumeActions)).lib.upload = true := by decide
  have hrun : Along step (fun r action => r.resumesFaulted action = false)
      (registerTorrent oneFileSpec (some {}) false {}).1
        (restoreActions .queued ++ resumeActions) :=
    ⟨by decide, by decide, by decide, by decide, by decide, trivial⟩
  exact ⟨hopen, upload_gate_guarded oneFileSpec (some {}) false {} _ rfl hrun hopen⟩

/-- Restored with its fault and resumed: the activation keeps the fault, and upload is switched on
all the same. -/
theorem resumed_fault_uploads :
    let r := run oneFileSpec (some unverified) false {} (restoreActions .error ++ resumeActions)
    r.lib.upload = true ∧ r.mt.policy.uploadEligible = false ∧
      r.mt.policy.verificationFault = true := by
  decide

end Runtime

end TorrentHub
