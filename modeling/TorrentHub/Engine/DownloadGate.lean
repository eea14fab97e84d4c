import TorrentHub.Engine.Admission

namespace TorrentHub
open Lib List

namespace Runtime

variable {r s : Runtime} {action : Action} {ticket : PayloadPreparation}

variable {index : Nat} {metadata : Bool} {caller : Caller}

/-- A pending admission holds the reservation, and as long as its epoch is current the policy is the
eligible one it saw. -/
structure Admitting (r : Runtime) : Prop where
  guarded : downloadGate.Guarded r
  single : r.admissions.length ≤ 1
  reserved : ∀ ticket ∈ r.admissions, r.mt.preparation = some ticket
  fresh : ∀ ticket, r.mt.preparation = some ticket → ticket.id < r.tickets
  fenced : ∀ ticket, r.mt.preparation = some ticket → ticket.epoch ≤ r.mt.policyEpoch ∧
    (ticket.epoch = r.mt.policyEpoch → r.mt.policy.payloadEligible = true)

theorem Admitting.shuts (hr : Admitting r) (h : Shuts r s) : Admitting s where
  guarded := h.download.keeps.guarded hr.guarded
  single := by
    rw [h.admissions]
    exact hr.single
  reserved ticket ht := by
    rw [h.admissions] at ht
    rw [h.preparation]
    exact hr.reserved ticket ht
  fresh ticket ht := by
    rw [h.preparation] at ht
    exact Nat.lt_of_lt_of_le (hr.fresh ticket ht) h.tickets
  fenced ticket ht := by
    rw [h.preparation] at ht
    obtain ⟨hle, helig⟩ := hr.fenced ticket ht
    refine ⟨Nat.le_trans hle h.epoch, fun he => ?_⟩
    have hsame : s.mt.policyEpoch = r.mt.policyEpoch := Nat.le_antisymm (he ▸ hle) h.epoch
    rw [h.policy hsame]
    exact helig (he.trans hsame)

theorem Admitting.none_pending (hr : Admitting r) (hp : r.mt.preparation = none) :
    r.admissions = [] := by
  apply eq_nil_iff_forall_not_mem.2
  intro ticket ht
  have := hr.reserved ticket ht
  rw [hp] at this
  cases this

theorem admissions_reserve (r : Runtime) (caller : Caller) :
    (r.reserve caller).admissions = r.admissions ++ [r.ticket r.mt.slotToken] := by
  simp [admissions, reserve, Work.ticket?]

theorem Admitting.reserve (hr : Admitting r) (he : r.mt.policy.payloadEligible = true)
    (hp : r.mt.preparation = none) (caller : Caller) : Admitting (r.reserve caller) where
  guarded := hr.guarded
  single := by rw [admissions_reserve, hr.none_pending hp]; exact Nat.le_refl 1
  reserved ticket ht := by
    rw [admissions_reserve, hr.none_pending hp, nil_append, mem_singleton] at ht
    rw [ht]
    rfl
  fresh ticket ht := by
    cases ht
    exact Nat.lt_succ_self _
  fenced ticket ht := by
    cases ht
    exact ⟨Nat.le_refl _, fun _ => he⟩

theorem filterMap_eraseIdx_ticket {work : Work} {works : List Work}
    (h : works[index]? = some work) (hw : work.ticket? = some ticket)
    (hs : (works.filterMap Work.ticket?).length ≤ 1) :
    (works.eraseIdx index).filterMap Work.ticket? = [] ∧ ticket ∈ works.filterMap Work.ticket? := by
  induction works generalizing index with
  | nil => cases h
  | cons w works ih =>
    cases index with
    | zero =>
      cases h
      simp only [filterMap_cons, hw, length_cons, eraseIdx_cons_zero] at hs ⊢
      exact ⟨length_eq_zero_iff.1 (by omega), mem_cons_self⟩
    | succ index =>
      cases hw' : w.ticket? with
      | none =>
        simp only [filterMap_cons, hw', eraseIdx_cons_succ] at hs ⊢
        exact ih h hs
      | some other =>
        have hmem : ticket ∈ works.filterMap Work.ticket? :=
          mem_filterMap.2 ⟨work, mem_of_getElem? h, hw⟩
        simp only [filterMap_cons, hw', length_cons] at hs
        have := length_pos_of_mem hmem
        omega

/-- The runtime when the pending admission of `ticket` holds admission again. -/
theorem Admitting.taken (hr : Admitting r)
    (hw : r.work[index]? = some (.admission ticket metadata caller)) :
    Admitting ((r.take index).clearPreparation ticket) ∧
      ((r.take index).clearPreparation ticket).admissions = [] ∧ ticket ∈ r.admissions := by
  obtain ⟨hnone, hmem⟩ := filterMap_eraseIdx_ticket hw rfl hr.single
  have hprep : (r.take index).mt.preparation = some ticket := hr.reserved ticket hmem
  have hclear : (r.take index).clearPreparation ticket =
      { r.take index with mt := { r.mt with preparation := none } } := by
    unfold clearPreparation
    rw [if_pos hprep]
    rfl
  have hpending : ((r.take index).clearPreparation ticket).admissions = [] := by
    rw [hclear]
    exact hnone
  refine ⟨⟨?_, ?_, ?_, ?_, ?_⟩, hpending, hmem⟩
  · rw [hclear]
    exact hr.guarded
  · rw [hpending]
    exact Nat.zero_le 1
  · intro other ho
    rw [hpending] at ho
    cases ho
  · intro other ho
    rw [hclear] at ho
    cases ho
  · intro other ho
    rw [hclear] at ho
    cases ho

theorem Admitting.finished (hr : Admitting r) (env : Environment)
    (hw : r.work[index]? = some (.admission ticket metadata caller)) :
    Admitting ((r.take index).admitFinish env ticket metadata caller) ∧
      ((r.take index).admitFinish env ticket metadata caller).admissions = [] ∧
      r.tickets ≤ ((r.take index).admitFinish env ticket metadata caller).tickets := by
  obtain ⟨hc, hpending, -⟩ := hr.taken hw
  have htickets : ((r.take index).clearPreparation ticket).tickets = r.tickets := by
    unfold clearPreparation
    split <;> rfl
  rcases admitFinish_cases (r.take index) env ticket metadata caller with
    h | ⟨hp, m, hm, hpolicy, h⟩
  · exact ⟨hc.shuts h.toShuts, h.admissions.trans hpending, htickets ▸ h.tickets⟩
  have hm' := hc.shuts hm.toShuts
  have heligible : (r.take index).mt.policy.payloadEligible = true := by
    simp only [prepared, Bool.and_eq_true] at hp
    exact hp.1.1.1.2
  rw [h]
  refine ⟨⟨fun _ => ?_, hm'.single, hm'.reserved, hm'.fresh, hm'.fenced⟩, ?_, ?_⟩
  · change m.mt.policy.payloadEligible = true
    rw [hpolicy]
    exact heligible
  · exact hm.admissions.trans hpending
  · exact htickets ▸ hm.tickets

theorem Admitting.step (hr : Admitting r) (action : Action) : Admitting (r.step action) := by
  rcases r.step_cases action with (h | ⟨m, caller, hm, he, hp, h⟩) |
    ⟨index, env, lease, version, rfl, hw, h⟩ |
    ⟨index, env, ticket, metadata, caller, rfl, hw, h⟩
  · exact hr.shuts h.toShuts
  · rw [h]
    exact (hr.shuts hm.toShuts).reserve he hp caller
  · rw [h]
    have htake := take_settles hw rfl
    exact hr.shuts (htake.toShuts.trans (resumeReturned_shuts _ _ _ _))
  · rw [h]
    exact (hr.finished env hw).1

section

variable (spec : TorrentSpec) (restored : Option SavedTorrent) (noUpload : Bool) (env : Environment)

theorem registerTorrent_admitting : Admitting (registerTorrent spec restored noUpload env).1 := by
  have hempty : ∀ r : Runtime, r.lib.download = false → r.admissions = [] →
      r.mt.preparation = none → Admitting r := by
    intro r hd ha hp
    refine ⟨.of_closed (by simp [downloadGate, hd]), by simp [ha], by simp [ha], ?_, ?_⟩
    · intro ticket ht
      rw [hp] at ht
      cases ht
    intro ticket ht
    rw [hp] at ht
    cases ht
  simp only [registerTorrent]
  split
  · apply hempty
    · rfl
    · rfl
    · cases restored <;> rfl
  next s d hs =>
  have hd : s.lib.download = false := by rw [applyStateEvent_lib hs]
  have hw : s.admissions = [] := (applyStateEvent_tracks hs).admissions
  have hp : s.mt.preparation = none := by
    rw [(applyStateEvent_tracks hs).preparation]
    cases restored <;> rfl
  split
  · exact hempty _ hd rfl hp
  unfold publish
  split <;> exact hempty _ hd hw hp

theorem run_admitting (actions : List Action) :
    Admitting (run spec restored noUpload env actions) :=
  exec_invariant_forall (fun _ action hr => hr.step action)
    (registerTorrent_admitting spec restored noUpload env) actions

end

theorem step_opens (hc : r.lib.download = false) (ho : (r.step action).lib.download = true) :
    ∃ index env ticket metadata caller, action = .returned index env ∧
      r.work[index]? = some (.admission ticket metadata caller) ∧
      r.prepared ticket (env.live 0) = true := by
  have hshut : ∀ {s}, Shuts r s → s.lib.download = true → False := by
    intro s h hs
    have := (h.download hs).1
    change r.lib.download = true at this
    rw [hc] at this
    cases this
  rcases r.step_cases action with (h | ⟨m, caller, hm, he, hp, h⟩) |
    ⟨index, env, lease, version, rfl, hw, h⟩ |
    ⟨index, env, ticket, metadata, caller, rfl, hw, h⟩
  · exact (hshut h.toShuts ho).elim
  · rw [h] at ho
    exact (hshut hm.toShuts ho).elim
  · rw [h] at ho
    have htake := take_settles hw rfl
    exact (hshut (htake.toShuts.trans (resumeReturned_shuts _ _ _ _)) ho).elim
  · refine ⟨index, env, ticket, metadata, caller, rfl, hw, ?_⟩
    rcases admitFinish_cases (r.take index) env ticket metadata caller with h' | ⟨hp, -⟩
    · rw [h] at ho
      have := (h'.download ho).1
      change ((r.take index).clearPreparation ticket).lib.download = true at this
      have hlib : ((r.take index).clearPreparation ticket).lib = r.lib := by
        unfold clearPreparation
        split <;> rfl
      rw [hlib, hc] at this
      cases this
    · exact hp

/-- The policy has moved on since `ticket` was taken, and while its admission is pending the payload
stays closed. -/
structure Stale (ticket : PayloadPreparation) (r : Runtime) : Prop extends Admitting r where
  old : ticket.id < r.tickets
  closed : ticket ∈ r.admissions → ticket.epoch < r.mt.policyEpoch ∧ r.lib.download = false

theorem Stale.shuts (hr : Stale ticket r) (h : Shuts r s) : Stale ticket s where
  toAdmitting := hr.toAdmitting.shuts h
  old := Nat.lt_of_lt_of_le hr.old h.tickets
  closed ht := by
    rw [h.admissions] at ht
    obtain ⟨hlt, hd⟩ := hr.closed ht
    refine ⟨Nat.lt_of_lt_of_le hlt h.epoch, ?_⟩
    by_contra hs
    have := (h.download (by simpa [downloadGate] using hs)).1
    change r.lib.download = true at this
    rw [hd] at this
    cases this

theorem Admitting.stale (hr : Admitting r) (ht : ticket ∈ r.admissions)
    (he : r.mt.policy.payloadEligible = false) : Stale ticket r where
  toAdmitting := hr
  old := hr.fresh ticket (hr.reserved ticket ht)
  closed _ := by
    obtain ⟨hle, helig⟩ := hr.fenced ticket (hr.reserved ticket ht)
    constructor
    · apply Nat.lt_of_le_of_ne hle
      intro heq
      rw [helig heq] at he
      cases he
    by_contra hd
    have := hr.guarded (by simpa [downloadGate] using hd)
    change r.mt.policy.payloadEligible = true at this
    rw [he] at this
    cases this

theorem Stale.step (hr : Stale ticket r) (action : Action) : Stale ticket (r.step action) := by
  rcases r.step_cases action with (h | ⟨m, caller, hm, he, hp, h⟩) |
    ⟨index, env, lease, version, rfl, hw, h⟩ |
    ⟨index, env, other, metadata, caller, rfl, hw, h⟩
  · exact hr.shuts h.toShuts
  · have hm' := hr.shuts hm.toShuts
    rw [h]
    refine ⟨hm'.toAdmitting.reserve he hp caller, Nat.lt_succ_of_lt hm'.old, fun ht => ?_⟩
    rw [admissions_reserve, hm'.none_pending hp, nil_append, mem_singleton] at ht
    have hid : ticket.id = m.tickets := congrArg PayloadPreparation.id ht
    have := hm'.old
    omega
  · rw [h]
    have htake := take_settles hw rfl
    exact hr.shuts (htake.toShuts.trans (resumeReturned_shuts _ _ _ _))
  · obtain ⟨hs, hnone, htickets⟩ := hr.toAdmitting.finished env hw
    rw [h]
    refine ⟨hs, Nat.lt_of_lt_of_le hr.old htickets, fun ht => ?_⟩
    rw [hnone] at ht
    cases ht

theorem Stale.returned (hr : Stale ticket r) (env : Environment)
    (hw : r.work[index]? = some (.admission ticket metadata caller)) :
    (r.step (.returned index env)).lib.download = false := by
  obtain ⟨-, -, hmem⟩ := hr.toAdmitting.taken hw
  obtain ⟨hlt, hclosed⟩ := hr.closed hmem
  by_contra ho
  obtain ⟨index', env', other, metadata', caller', heq, hw', hp⟩ :=
    step_opens hclosed (by simpa using ho)
  cases heq
  rw [hw] at hw'
  cases hw'
  simp only [prepared, Bool.and_eq_true, beq_iff_eq] at hp
  have := hp.1.1.1.1.1
  omega

/-- An open payload gate means an eligible policy; the step that opens it ends an admission whose
epoch, fence, slot token, reservation and runtime are current; and once an operation has ended
eligibility under a pending admission, the gate is closed when that returns. -/
theorem download_gate_guarded (spec : TorrentSpec) (restored : Option SavedTorrent)
    (noUpload : Bool) (env : Environment) (actions : List Action) :
    let r := run spec restored noUpload env actions
    (r.lib.download = true → r.mt.policy.payloadEligible = true) ∧
    (∀ action, r.lib.download = false → (r.step action).lib.download = true →
      ∃ index answers ticket metadata caller, action = .returned index answers ∧
        r.work[index]? = some (.admission ticket metadata caller) ∧
        r.mt.policyEpoch = ticket.epoch ∧ r.mt.runtimeFence = ticket.fence ∧
        r.mt.slotToken = ticket.slot ∧ r.mt.preparation = some ticket ∧
        r.current (answers.live 0) = true ∧ r.mt.policy.payloadEligible = true) ∧
    (∀ ticket metadata caller later index answers,
      .admission ticket metadata caller ∈ r.work → r.mt.policy.payloadEligible = false →
      (exec step r later).work[index]? = some (.admission ticket metadata caller) →
      ((exec step r later).step (.returned index answers)).lib.download = false) := by
  intro r
  have hr : Admitting r := run_admitting spec restored noUpload env actions
  refine ⟨hr.guarded, ?_, ?_⟩
  · intro action hclosed hopened
    obtain ⟨index, answers, ticket, metadata, caller, ha, hw, hp⟩ := step_opens hclosed hopened
    simp only [prepared, Bool.and_eq_true, beq_iff_eq] at hp
    obtain ⟨⟨⟨⟨⟨hepoch, hfence⟩, helig⟩, hslot⟩, hcurrent⟩, hprep⟩ := hp
    exact ⟨index, answers, ticket, metadata, caller, ha, hw, hepoch, hfence, hslot, hprep,
      hcurrent, helig⟩
  · intro ticket metadata caller later index answers hw he hw'
    have hmem : ticket ∈ r.admissions := mem_filterMap.2 ⟨_, hw, rfl⟩
    have hstale : Stale ticket (exec step r later) :=
      exec_invariant_forall (fun _ action hs => hs.step action) (hr.stale hmem he) later
    exact hstale.returned answers hw'

/-- A new torrent with one file is given the slot, and left in the unlocked phase of its admission.
-/
def probing : Runtime :=
  run { disallowUpload := false, files := some 1 } none false {}
    [.returned 0 {}, .call .manageResources {}, .returned 0 {}]

/-- Left alone the admission opens the gate; with a pause during the probe, and a resume
after the pause, it does not. -/
theorem probing_paused :
    (probing.step (.returned 0 {})).lib.download = true ∧
      ((exec step probing [.call (.pause none) {}, .call .resume {}, .returned 1 {}]).step
        (.returned 0 {})).lib.download = false := by
  refine ⟨by decide, ?_⟩
  have h := download_gate_guarded { disallowUpload := false, files := some 1 } none false {}
    [.returned 0 {}, .call .manageResources {}, .returned 0 {}, .call (.pause none) {}]
  obtain ⟨-, -, hlate⟩ := h
  exact hlate ⟨1, 2, {}, 1⟩ true (.scheduler 1) [.call .resume {}, .returned 1 {}] 0 {}
    (by decide) (by decide) (by decide)

end Runtime

end TorrentHub
