import TorrentHub.Engine.Capacity
import TorrentHub.Engine.Node

namespace TorrentHub
open Lib List Table TorrentHub.Runtime TorrentDB Option ActivationBlockKind Engine

namespace TorrentDB

variable {db db' : TorrentDB} {f : RuntimeFence} {recordID reason : String}
  {fault fault' result : VerifyResult} {r s : Runtime} {env : Environment}
  {attempt : VerificationAttempt}

variable {kind : ActivationBlockKind} {action : RepoAction}

def Vetoed (db : TorrentDB) (recordID : String) : Prop :=
  (db.blocks.find (recordID, .verification)).isSome = true

def KeepsVetoes (db db' : TorrentDB) : Prop := ∀ recordID, db.Vetoed recordID → db'.Vetoed recordID

theorem KeepsVetoes.refl (db : TorrentDB) : KeepsVetoes db db := fun _ => id

theorem KeepsVetoes.of_blocks (h : db'.blocks = db.blocks) : KeepsVetoes db db' := by
  intro recordID hv
  rwa [Vetoed, h]

theorem KeepsVetoes.of_put (h : db'.blocks = db.blocks.put b) : KeepsVetoes db db' := by
  intro recordID hv
  rw [Vetoed, h]
  by_cases hk : (recordID, verification) = b.key
  · rw [hk, find_put_self]
    rfl
  · rwa [find_put_ne hk]

theorem KeepsVetoes.of_remove (h : db'.blocks = db.blocks.remove p)
    (hp : ∀ b, p b = true → b.kind ≠ .verification) :
    KeepsVetoes db db' := by
  intro recordID hv
  obtain ⟨b, hb⟩ := isSome_iff_exists.1 hv
  have hkind : b.kind = .verification := congrArg Prod.snd (find_key hb)
  have hpb : p b = false := by
    by_contra hc
    exact hp b (by simpa using hc) hkind
  rw [Vetoed, h, find_remove, hb]
  simp [hpb]

theorem putActivationBlock_ok (h : db.putActivationBlock f kind reason = .ok db') :
    db.attached f = true ∧
      db' = { db with blocks := db.blocks.put ⟨f.recordID, kind, reason⟩ } := by
  unfold putActivationBlock at h
  split at h
  · cases h
  split at h
  · cases h
  next ha => exact ⟨by simpa using ha, (Except.ok.inj h).symm⟩

theorem clearActivationBlock_ok (h : db.clearActivationBlock f kind = .ok db') :
    db.attached f = true ∧ db' = { db with
      blocks := db.blocks.remove fun b => b.recordID == f.recordID && b.kind == kind } := by
  unfold clearActivationBlock at h
  split at h
  · cases h
  split at h
  · cases h
  next ha => exact ⟨by simpa using ha, (Except.ok.inj h).symm⟩

theorem persistVerification_cases (db : TorrentDB) (f : RuntimeFence) (uncertain : Bool)
    (reason : String) (fault : VerifyResult) : (∃ result, result ≠ .succeeded ∧
        db.persistVerification f uncertain reason fault = (db, result)) ∨
      ∃ db', db.persistVerification f uncertain reason fault = (db', .succeeded) ∧
        (if uncertain then db.putActivationBlock f .verification reason
          else db.clearActivationBlock f .verification) = .ok db' := by
  unfold persistVerification
  generalize (if uncertain then db.putActivationBlock f .verification reason
    else db.clearActivationBlock f .verification) = written
  cases fault with
  | succeeded =>
    cases written with
    | ok db' => exact .inr ⟨db', rfl, rfl⟩
    | error err => exact .inl ⟨.failed, by decide, rfl⟩
  | failed => exact .inl ⟨.failed, by decide, rfl⟩
  | cancelled => exact .inl ⟨.cancelled, by decide, rfl⟩

theorem persistVerification_veto (db : TorrentDB) (f : RuntimeFence) (reason : String)
    (fault : VerifyResult) : KeepsVetoes db (db.persistVerification f true reason fault).1 := by
  rcases persistVerification_cases db f true reason fault with ⟨result, -, h⟩ | ⟨db', h, hw⟩
  · rw [h]
    exact .refl db
  rw [h]
  obtain ⟨-, rfl⟩ := putActivationBlock_ok hw
  exact .of_put rfl

theorem persistVerification_vetoed
    (h : (db.persistVerification f true reason fault).2 = .succeeded) :
    (db.persistVerification f true reason fault).1.Vetoed f.recordID ∧
      (db.persistVerification f true reason fault).1.attached f = true := by
  rcases persistVerification_cases db f true reason fault with ⟨result, hr, hp⟩ | ⟨db', hp, hw⟩
  · rw [hp] at h
    exact absurd h hr
  rw [hp]
  obtain ⟨ha, rfl⟩ := putActivationBlock_ok hw
  refine ⟨?_, ha⟩
  have := find_put_self db.blocks ⟨f.recordID, .verification, reason⟩
  exact isSome_iff_exists.2 ⟨_, this⟩

theorem persistVerification_clear (hv : db.Vetoed recordID)
    (hn : ¬ (db.persistVerification f false reason fault).1.Vetoed recordID) :
    f.recordID = recordID ∧ db.attached f = true ∧
      (db.persistVerification f false reason fault).2 = .succeeded := by
  rcases persistVerification_cases db f false reason fault with ⟨result, -, h⟩ | ⟨db', h, hw⟩
  · rw [h] at hn
    exact absurd hv hn
  rw [h] at hn ⊢
  obtain ⟨ha, rfl⟩ := clearActivationBlock_ok hw
  refine ⟨?_, ha, rfl⟩
  by_contra hne
  obtain ⟨b, hb⟩ := isSome_iff_exists.1 hv
  have hrecord : b.recordID = recordID := congrArg Prod.fst (find_key hb)
  apply hn
  rw [Vetoed, find_remove, hb]
  simp [hrecord, Ne.symm hne]

/-- The success of the current attempt of a current runtime that is attached to the record. -/
structure Clears (db : TorrentDB) (r : Runtime) (attempt : VerificationAttempt)
    (result : VerifyResult) (env : Environment) (fault : VerifyResult) (recordID : String) :
    Prop where
  completes : r.completes attempt env = true
  own : env.own 0 = true ∧ env.own 1 = true
  success : result = .succeeded
  record : r.mt.runtimeFence.recordID = recordID
  attached : db.attached r.mt.runtimeFence = true
  persisted : (db.recordVerification r attempt result env fault).2 = .succeeded

theorem join_cancelled (result : VerifyResult) : result.join .cancelled = .cancelled := by
  cases result <;> rfl

theorem recordVerification_veto (h : result ≠ .succeeded) :
    KeepsVetoes db (db.recordVerification r attempt result env fault).1 := by
  have hjoined : (if env.own 0 then result else result.join .cancelled) ≠ .succeeded := by
    split
    · exact h
    rw [join_cancelled]
    decide
  simp only [recordVerification, if_neg hjoined]
  split
  · exact .refl db
  · exact persistVerification_veto _ _ _ _

theorem recordVerification_clears (hv : db.Vetoed recordID)
    (hn : ¬ (db.recordVerification r attempt result env fault).1.Vetoed recordID) :
    Clears db r attempt result env fault recordID := by
  have hresult : result = .succeeded := by
    by_contra hne
    exact hn (recordVerification_veto hne recordID hv)
  subst hresult
  by_cases hguard : (!r.completes attempt env || !env.own 1) = true
  · rw [recordVerification, if_pos hguard] at hn
    exact absurd hv hn
  by_cases hown : env.own 0 = true
  · have heq : db.recordVerification r attempt .succeeded env fault =
        db.persistVerification r.mt.runtimeFence false "" fault := by
      simp only [recordVerification, if_neg hguard, hown, ↓reduceIte]
    rw [heq] at hn
    obtain ⟨hf, ha, hs⟩ := persistVerification_clear hv hn
    simp only [Bool.or_eq_true, Bool.not_eq_true', not_or, Bool.not_eq_false] at hguard
    exact ⟨hguard.1, ⟨hown, hguard.2⟩, rfl, hf, ha, heq ▸ hs⟩
  · simp only [recordVerification, if_neg hguard, hown, join_cancelled, ↓reduceIte,
      reduceCtorEq] at hn
    exact absurd (persistVerification_veto _ _ _ _ recordID hv) hn

theorem vetoVerification_keeps (db : TorrentDB) (r : Runtime) (operation started : Bool)
    (env : Environment) (fault fault' : VerifyResult) :
    KeepsVetoes db (db.vetoVerification r operation started env fault fault').1 := by
  simp only [vetoVerification]
  split
  · exact .refl db
  next s _ =>
  have hput := persistVerification_veto db s.mt.runtimeFence vetoReason fault
  split
  · exact hput
  intro recordID hv
  refine recordVerification_veto ?_ recordID (hput recordID hv)
  split
  · assumption
  · decide

theorem serve_clears (op : Runtime.Operation) (hv : db.Vetoed recordID)
    (hn : ¬ (db.serve r op env fault fault').1.Vetoed recordID) :
    ∃ attempt result, op = .finishVerification attempt result ∧
      Clears db r attempt result env fault recordID := by
  cases op with
  | finishVerification attempt result =>
    exact ⟨attempt, result, rfl, recordVerification_clears hv hn⟩
  | startRecheck | verifyInactive =>
    simp only [serve] at hn
    split at hn
    · exact absurd (vetoVerification_keeps _ _ _ _ _ _ _ recordID hv) hn
    · exact absurd hv hn
  | bindRuntime expected fence applied =>
    simp only [serve] at hn
    split at hn
    · exact absurd (persistVerification_veto _ _ _ _ recordID hv) hn
    · exact absurd hv hn
  | _ => exact absurd hv hn

theorem transact_keeps (h : db.transact action = .ok db')
    (hd : ∀ hash, action ≠ .deleteTorrent hash) : KeepsVetoes db db' := by
  cases action with
  | commitRunIntent v run retry =>
    obtain ⟨⟨db'', v'⟩, hc, rfl⟩ := map_eq_ok.1 h
    have hblocks := (commitRunIntent_ok hc).2.2.2.2.1
    cases retry with
    | false => exact .of_blocks hblocks
    | true =>
      refine .of_remove hblocks ?_
      intro b hb hk
      simp [hk, resumeRetryable] at hb
  | attachRuntime v token =>
    obtain ⟨⟨db'', f⟩, hc, rfl⟩ := map_eq_ok.1 h
    obtain ⟨-, -, -, rfl⟩ := attachRuntime_ok hc
    exact .of_blocks rfl
  | commitAddMetadata v changed =>
    obtain ⟨⟨db'', v'⟩, hc, rfl⟩ := map_eq_ok.1 h
    rcases commitAddMetadata_ok hc with ⟨rfl, -⟩ | ⟨hadvance, -⟩
    · exact .refl _
    · obtain ⟨-, rfl⟩ := advanceIntent_ok hadvance
      exact .of_blocks rfl
  | updatePriority hash index priority =>
    obtain ⟨i, -, rfl⟩ := updatePriority_ok h
    exact .of_blocks rfl
  | requestDeletionCancel hash recordID | completeDeletionCancel hash | saveStorage s =>
    cases h
    exact .of_blocks rfl
  | detachRuntime recordID paused =>
    cases h
    cases paused with
    | false => exact .of_blocks rfl
    | true =>
      refine .of_remove rfl ?_
      intro b hb hk
      simp [hk] at hb
  | putRuntimeSafetyBlock f kind reason =>
    simp only [transact, putRuntimeSafetyBlock, ite_error_eq_ok] at h
    cases h.2.2
    exact .of_put rfl
  | inventoryResult recordID missing =>
    cases h
    unfold inventoryResult
    split
    · refine .of_remove rfl ?_
      intro b hb hk
      simp [hk] at hb
    split
    · exact .refl db
    · exact .of_put rfl
  | createTorrent hash recordID run catalog =>
    simp only [transact, createTorrent, ite_error_eq_ok] at h
    cases h.2.2.2
    exact .of_blocks rfl
  | beginDeletion hash mode =>
    simp only [transact, beginDeletion, ite_error_eq_ok] at h
    cases h.2
    exact .of_blocks rfl
  | deleteTorrent hash => exact absurd rfl (hd hash)
  | saveRuntimeObservation o =>
    obtain ⟨fileBytes, saved, -, -, hsaved, h⟩ := saveRuntimeObservation_ok h
    have hblocks : saved.blocks = db.blocks := by
      rcases saveVerified_ok hsaved with ⟨-, rfl⟩ | ⟨-, -, -, -, rfl⟩ <;> rfl
    exact .of_blocks ((saveFiles_beside h).blocks.trans hblocks)

theorem deleteTorrent_clears {hash : String} (hv : db.Vetoed recordID)
    (hn : ¬ (db.deleteTorrent hash).Vetoed recordID) :
    ∃ i, db.intents.find hash = some i ∧ i.recordID = recordID := by
  obtain ⟨b, hb⟩ := isSome_iff_exists.1 hv
  have hrecord : b.recordID = recordID := congrArg Prod.fst (find_key hb)
  have hblocks : (db.deleteTorrent hash).blocks = db.blocks.remove fun b =>
      db.intents.rows.any fun i => i.hash == hash && i.recordID == b.recordID := by
    simp only [deleteTorrent]
    repeat' split
    all_goals rfl
  rw [Vetoed, hblocks, find_remove, hb] at hn
  have howned : (db.intents.rows.any fun i => i.hash == hash && i.recordID == b.recordID) =
      true := by
    by_contra hc
    simp only [Bool.not_eq_true] at hc
    exact hn (by simp [hc])
  obtain ⟨i, hi, hmatch⟩ := any_eq_true.1 howned
  simp only [Bool.and_eq_true, beq_iff_eq] at hmatch
  refine ⟨i, ?_, hmatch.2.trans hrecord⟩
  rw [← hmatch.1]
  exact find_of_mem hi

theorem step_clears (hv : db.Vetoed recordID) (hn : ¬ (db.step action).Vetoed recordID) :
    ∃ hash i, action = .deleteTorrent hash ∧ db.intents.find hash = some i ∧
      i.recordID = recordID := by
  by_cases hd : ∃ hash, action = .deleteTorrent hash
  · obtain ⟨hash, rfl⟩ := hd
    obtain ⟨i, hi, hr⟩ := deleteTorrent_clears hv hn
    exact ⟨hash, i, rfl, hi, hr⟩
  exfalso
  unfold step at hn
  split at hn
  · exact hn hv
  next h => exact hn (transact_keeps h (fun hash he => hd ⟨hash, he⟩) recordID hv)

end TorrentDB

namespace Runtime

variable {r s : Runtime} {env : Environment} {operation : Bool} {attempt : VerificationAttempt}
  {result : VerifyResult}

theorem begun_facts (h : r.begun operation = some s) : s.mt.runtimeFence = r.mt.runtimeFence ∧
      s.mt.verificationAttempt = some ⟨r.tickets, operation⟩ := by
  unfold begun at h
  split at h
  · cases h
  next s' d he =>
  cases h
  obtain ⟨-, rfl⟩ := applyStateEvent_ok he
  exact ⟨rfl, rfl⟩

theorem beginVerification_begun (h : r.begun operation = some s)
    (hv : env.vetoed = .succeeded) : (r.beginVerification operation true env).1 = s := by
  unfold begun at h
  split at h
  · cases h
  next he =>
  cases h
  unfold beginVerification
  rw [he]
  simp only [hv, ne_eq, not_true_eq_false, ↓reduceIte, Bool.not_true, Bool.false_eq_true]

theorem startRecheckLocked_rechecks (h : r.rechecks env = true) :
    r.startRecheckLocked env = r.beginVerification true env.taskStarted env := by
  simp only [rechecks, Bool.and_eq_true, Bool.not_eq_true'] at h
  obtain ⟨⟨⟨hm, hc⟩, hr⟩, hi⟩ := h
  simp only [startRecheckLocked, hm, hc, hr, hi, Bool.not_true, Bool.false_eq_true, ↓reduceIte]

theorem verifyInactive_verifies_eq (h : r.verifies env = true) :
    r.verifyInactive env = r.beginVerification false true env := by
  simp only [verifies, Bool.and_eq_true, Bool.not_eq_true'] at h
  obtain ⟨⟨hl, hm⟩, hp⟩ := h
  have hp' : ¬ (r.mt.policy.run ≠ .paused || r.mt.policy.checking ||
      r.mt.policy.terminal) = true := by
    simpa using hp
  simp only [verifyInactive, hl, hm, Bool.not_true, Bool.false_eq_true, ↓reduceIte, if_neg hp']

theorem completeVerificationLocked_stale (h : r.completes attempt env = false) :
    (r.completeVerificationLocked attempt result env).1.mt.policy = r.mt.policy ∧
      (r.completeVerificationLocked attempt result env).1.lib = r.lib := by
  simp only [completeVerificationLocked]
  split
  · split <;> exact ⟨rfl, rfl⟩
  next hcurrent =>
  split
  · exact ⟨rfl, rfl⟩
  next hvalid =>
  simp only [Bool.or_eq_true, decide_eq_true_eq, not_or, Bool.not_eq_true', Bool.not_eq_false,
    ne_eq, not_not] at hcurrent hvalid
  simp [completes, hcurrent, hvalid.1, hvalid.2] at h

theorem verification_failed_uncertain (he : event = .failed ∨ event = .cancelled)
    (h : r.applyVerificationEvent event = .ok (s, d)) : s.mt.policy.uncertain = true := by
  rw [applyStateEvent_policy h]
  obtain ⟨-, -, n, e, hn, rfl⟩ := runtimeTransition_ok (applyStateEvent_ok h).1
  simp only [transitionStep, verificationStep] at hn
  split at hn
  · cases hn
  next n' hn' =>
  cases hn
  rcases he with rfl | rfl <;> simp only [verificationPolicy] at hn' <;> split at hn' <;>
    cases hn' <;> rfl

theorem completeVerificationLocked_uncertain (hc : r.mt.policy.Consistent) (hs : r.Shown)
    (h : r.completes attempt env = true) (hresult : settleVerification result env ≠ .succeeded) :
    (r.completeVerificationLocked attempt result env).1.mt.policy.uncertain = true := by
  simp only [completes, Bool.and_eq_true, beq_iff_eq] at h
  obtain ⟨⟨hcurrent, hattempt⟩, hchecking⟩ := h
  have hevent : (settleVerification result env).event = .failed ∨
      (settleVerification result env).event = .cancelled := by
    cases hsettled : settleVerification result env with
    | succeeded => exact absurd hsettled hresult
    | failed => exact .inl rfl
    | cancelled => exact .inr rfl
  simp only [completeVerificationLocked, hcurrent, hattempt, hchecking, Bool.not_true,
    Bool.false_eq_true, ↓reduceIte, ne_eq, not_true_eq_false, decide_false, Bool.or_self]
  split
  · have hshown : r.mt.policy.checking = true := by
      rw [Shown, Prod.mk.injEq] at hs
      exact hs.1 ▸ hchecking
    exact hc.checking_uncertain hshown
  next he =>
  have huncertain := verification_failed_uncertain hevent he
  split
  · exact ((applyQuiesceLocked_spares _ _).policy.symm ▸ huncertain)
  · exact ((applyQuiesceLocked_spares _ _).policy.symm ▸ huncertain)

end Runtime

namespace Node

variable {n : Node} {i : Nat} {t : EngineTorrent} {op : Runtime.Operation} {env : Environment}
  {fault fault' : VerifyResult} {recordID : String} {v : VerifierStart}

variable {s : Runtime} {operation started : Bool} {action : Action} {actions : List Action}
  {c : Completion}

theorem step_bounded (h : n.engine.Bounded) (action : Action) : (n.step action).engine.Bounded := by
  have hcall : ∀ (starting : List VerifierStart) (i : Nat) (t : EngineTorrent)
      (op : Runtime.Operation) (env : Environment) (fault fault' : VerifyResult),
      n.engine.torrents[i]? = some t →
      (call { n with starting } i t op env fault fault').engine.Bounded := by
    intro starting i t op env fault fault' ht
    exact h.retains ht (call_retains _ _ _)
  cases action with
  | call i op env fault fault' =>
    simp only [step]
    split
    · exact h
    next ht => exact hcall _ _ _ _ _ _ _ ht
  | engine action =>
    simp only [step]
    split
    · exact h
    · exact h.step action
  | repo action => exact h
  | start k live env fault =>
    simp only [step]
    split
    · exact h
    split
    · exact h
    split
    · exact h
    next ht => exact hcall _ _ _ _ _ _ _ ht
  | crash => exact run_bounded n.engine.maxActiveDownloads []

theorem run_bounded (limit : Int) (db : TorrentDB) (actions : List Action) :
    (run limit db actions).engine.Bounded :=
  exec_invariant_forall (I := fun n : Node => n.engine.Bounded)
    (fun _ action h => step_bounded h action) (Engine.run_bounded limit []) actions

/-- The veto is committed for the record to which the runtime is attached, while its attempt is the
current one. -/
def Established (n : Node) (v : VerifierStart) : Prop :=
  n.db.Vetoed v.recordID ∧ ∃ t, n.engine.torrents[v.torrent]? = some t ∧
    t.runtime.mt.verificationAttempt = some v.attempt ∧
    t.runtime.mt.runtimeFence.recordID = v.recordID ∧ n.db.attached t.runtime.mt.runtimeFence = true

theorem vetoVerification_established {db : TorrentDB} {r : Runtime}
    (hb : r.begun operation = some s) (hs : started = true)
    (hv : (db.vetoVerification r operation started env fault fault').2.vetoed = .succeeded) :
    (db.vetoVerification r operation started env fault fault').1.Vetoed r.mt.runtimeFence.recordID ∧
      (db.vetoVerification r operation started env fault fault').1.attached r.mt.runtimeFence =
        true := by
  obtain ⟨hfence, -⟩ := begun_facts hb
  simp only [vetoVerification, hb, hs, Bool.and_true, decide_eq_true_eq] at hv ⊢
  rw [← hfence]
  split at hv
  next hp =>
    rw [if_pos hp]
    exact persistVerification_vetoed hp
  next hp => exact absurd hv hp

theorem vetoVerification_env (db : TorrentDB) (r : Runtime) (operation started : Bool)
    (env : Environment) (fault fault' : VerifyResult) :
    ∃ vetoed recorded, (db.vetoVerification r operation started env fault fault').2 =
      { env with vetoed, recorded } := by
  simp only [vetoVerification]
  split
  · exact ⟨_, _, rfl⟩
  · split <;> exact ⟨_, _, rfl⟩

theorem established_of_begun {task : Bool}
    {starting : List VerifierStart} (ht : n.engine.torrents[i]? = some t)
    (hb : t.runtime.begun operation = some s) (hs : started = true)
    (hv : (n.db.vetoVerification t.runtime operation started env fault fault').2.vetoed =
      .succeeded) : Established ⟨n.engine.setRuntime i s,
        (n.db.vetoVerification t.runtime operation started env fault fault').1, starting⟩
      ⟨i, ⟨t.runtime.tickets, operation⟩, t.runtime.mt.runtimeFence.recordID, task⟩ := by
  obtain ⟨hfence, hattempt⟩ := begun_facts hb
  obtain ⟨hveto, ha⟩ := vetoVerification_established hb hs hv
  refine ⟨hveto, { t with runtime := s }, ?_, hattempt, congrArg RuntimeFence.recordID hfence, ?_⟩
  · change (n.engine.setRuntime i s).torrents[i]? = _
    rw [getElem?_setRuntime ht, if_pos rfl]
  · rw [← hfence] at ha
    exact ha

theorem startOf_established (ht : n.engine.torrents[i]? = some t)
    (hv : v ∈ startOf i t.runtime (address t op)
      (n.db.serve t.runtime (address t op) env fault fault').2) :
    (n.call i t op env fault fault').Established v := by
  cases op with
  | startRecheck =>
    have hserve : n.db.serve t.runtime .startRecheck env fault fault' =
      if t.runtime.rechecks env then
        n.db.vetoVerification t.runtime true env.taskStarted env fault fault'
        else (n.db, env) := rfl
    obtain ⟨vetoed, recorded, henv⟩ := vetoVerification_env n.db t.runtime true env.taskStarted env
      fault fault'
    simp only [call, address] at hv ⊢
    by_cases hr : t.runtime.rechecks env = true
    · rw [if_pos hr] at hserve
      rw [hserve] at hv ⊢
      simp only [startOf] at hv
      split at hv
      next hguard =>
        simp only [Bool.and_eq_true, beq_iff_eq] at hguard
        obtain ⟨⟨⟨hchecks, hbegun⟩, hvetoed⟩, htask⟩ := hguard
        obtain ⟨s, hs⟩ := isSome_iff_exists.1 hbegun
        obtain rfl := mem_singleton.1 hv
        have hcall : t.runtime.call .startRecheck
            (n.db.vetoVerification t.runtime true env.taskStarted env fault fault').2 = s := by
          change (t.runtime.startRecheckLocked _).1 = s
          rw [startRecheckLocked_rechecks hchecks, htask]
          exact beginVerification_begun hs hvetoed
        rw [hcall]
        rw [henv] at htask
        exact established_of_begun ht hs htask hvetoed
      · cases hv
    · rw [if_neg hr] at hserve
      rw [hserve] at hv
      simp [startOf, hr] at hv
  | verifyInactive =>
    have hserve : n.db.serve t.runtime .verifyInactive env fault fault' =
      if t.runtime.verifies env then
        n.db.vetoVerification t.runtime false true env fault fault' else (n.db, env) := rfl
    simp only [call, address] at hv ⊢
    by_cases hr : t.runtime.verifies env = true
    · rw [if_pos hr] at hserve
      rw [hserve] at hv ⊢
      simp only [startOf] at hv
      split at hv
      next hguard =>
        simp only [Bool.and_eq_true, beq_iff_eq] at hguard
        obtain ⟨⟨hchecks, hbegun⟩, hvetoed⟩ := hguard
        obtain ⟨s, hs⟩ := isSome_iff_exists.1 hbegun
        obtain rfl := mem_singleton.1 hv
        have hcall : t.runtime.call .verifyInactive
            (n.db.vetoVerification t.runtime false true env fault fault').2 = s := by
          change (t.runtime.verifyInactive _).1 = s
          rw [verifyInactive_verifies_eq hchecks]
          exact beginVerification_begun hs hvetoed
        rw [hcall]
        exact established_of_begun ht hs rfl hvetoed
      · cases hv
    · rw [if_neg hr] at hserve
      rw [hserve] at hv
      simp [startOf, hr] at hv
  | _ => cases hv

theorem step_starting (hv : v ∈ (n.step action).starting) :
    v ∈ n.starting ∨ (n.step action).Established v := by
  cases action with
  | call i op env fault fault' =>
    simp only [step] at hv ⊢
    split at hv
    · exact .inl hv
    next ht =>
    rcases mem_append.1 hv with hv | hv
    · exact .inl hv
    · exact .inr (startOf_established ht hv)
  | engine action =>
    simp only [step] at hv
    split at hv <;> exact .inl hv
  | repo action => exact .inl hv
  | start k live env fault =>
    simp only [step] at hv
    split at hv
    · exact .inl hv
    split at hv
    · exact .inl (mem_of_mem_eraseIdx hv)
    split at hv
    · exact .inl (mem_of_mem_eraseIdx hv)
    rcases mem_append.1 hv with hv | hv
    · exact .inl (mem_of_mem_eraseIdx hv)
    · cases hv
  | crash => cases hv

theorem run_starting (limit : Int) (db : TorrentDB) (hv : v ∈ (run limit db actions).starting) :
    ∃ before after, actions = before ++ after ∧ (run limit db before).Established v := by
  induction actions using reverseRecOn with
  | nil => cases hv
  | append_singleton actions action ih =>
    have hrun : run limit db (actions ++ [action]) = (run limit db actions).step action := by
      rw [run, exec_append]
      rfl
    rw [hrun] at hv
    rcases step_starting hv with hold | hnew
    · obtain ⟨before, after, rfl, h⟩ := ih hold
      exact ⟨before, after ++ [action], by rw [append_assoc], h⟩
    · exact ⟨actions ++ [action], [], by rw [append_nil], hrun ▸ hnew⟩

/-- A start that does not go through is a cancelled completion. -/
structure Completion where
  torrent : Nat
  attempt : VerificationAttempt
  result : VerifyResult
  env : Environment
  fault : VerifyResult

def completion (n : Node) : Action → Option Completion
  | .call i (.finishVerification attempt result) env fault _ =>
    some ⟨i, attempt, result, env, fault⟩
  | .start k live env fault =>
    ((n.starting[k]?).filter fun s => !n.passes s live).map fun s =>
      ⟨s.torrent, s.attempt, .cancelled, env, fault⟩
  | _ => none

def Completion.record (c : Completion) (db : TorrentDB) (r : Runtime) : TorrentDB × VerifyResult :=
  db.recordVerification r c.attempt c.result c.env c.fault

theorem step_completion (hc : n.completion action = some c)
    (ht : n.engine.torrents[c.torrent]? = some t) :
    (n.step action).db = (c.record n.db t.runtime).1 ∧
      (n.step action).engine = n.engine.setRuntime c.torrent
        (t.runtime.completeVerificationLocked c.attempt c.result
          { c.env with recorded := (c.record n.db t.runtime).2 }).1 := by
  cases action with
  | call i op env fault fault' =>
    cases op with
    | finishVerification attempt result =>
      obtain rfl := some.inj hc
      simp only [step, ht]
      exact ⟨rfl, rfl⟩
    | _ => cases hc
  | start k live env fault =>
    obtain ⟨s, hs, rfl⟩ := map_eq_some_iff.1 hc
    obtain ⟨hk, hpass⟩ := filter_eq_some_iff.1 hs
    have hpass' : n.passes s live = false := by simpa using hpass
    simp only [step, hk, hpass', ht]
    exact ⟨rfl, rfl⟩
  | _ => cases hc

def Releases (n : Node) (action : Action) (recordID : String) : Prop :=
  (∃ c t, n.completion action = some c ∧ n.engine.torrents[c.torrent]? = some t ∧
    n.db.Clears t.runtime c.attempt c.result c.env c.fault recordID) ∨
    ∃ hash i, action = .repo (.deleteTorrent hash) ∧ n.db.intents.find hash = some i ∧
      i.recordID = recordID

theorem step_releases (hv : n.db.Vetoed recordID)
    (hn : ¬ (n.step action).db.Vetoed recordID) : n.Releases action recordID := by
  cases action with
  | call i op env fault fault' =>
    simp only [step] at hn
    split at hn
    · exact absurd hv hn
    next t ht =>
    obtain ⟨attempt, result, hop, hclears⟩ := serve_clears _ hv hn
    refine .inl ⟨⟨i, attempt, result, env, fault⟩, t, ?_, ht, hclears⟩
    cases op <;> first | cases hop; rfl | cases hop
  | engine action =>
    simp only [step] at hn
    split at hn <;> exact absurd hv hn
  | repo action =>
    obtain ⟨hash, i, rfl, hi, hr⟩ := step_clears hv hn
    exact .inr ⟨hash, i, rfl, hi, hr⟩
  | start k live env fault =>
    simp only [step] at hn
    split at hn
    · exact absurd hv hn
    split at hn
    · exact absurd hv hn
    split at hn
    · exact absurd hv hn
    · exact absurd (recordVerification_veto (by decide) recordID hv) hn
  | crash => exact absurd hv hn

theorem exec_releases (hv : n.db.Vetoed recordID)
    (hn : ¬ (exec step n actions).db.Vetoed recordID) :
    ∃ before action after, actions = before ++ action :: after ∧
      (exec step n before).Releases action recordID := by
  induction actions generalizing n with
  | nil => exact absurd hv hn
  | cons action actions ih =>
    by_cases hstep : (n.step action).db.Vetoed recordID
    · obtain ⟨before, action', after, rfl, h⟩ := ih hstep hn
      exact ⟨action :: before, action', after, rfl, h⟩
    · exact ⟨[], action, actions, rfl, step_releases hv hstep⟩

theorem step_stale (hc : n.completion action = some c) (ht : n.engine.torrents[c.torrent]? = some t)
    (hstale : t.runtime.completes c.attempt c.env = false) :
    (n.step action).db = n.db ∧ ∃ u : EngineTorrent,
      (n.step action).engine.torrents[c.torrent]? = some u ∧
        u.runtime.mt.policy = t.runtime.mt.policy ∧ u.runtime.lib = t.runtime.lib := by
  obtain ⟨hdb, hengine⟩ := step_completion hc ht
  constructor
  · rw [hdb, Completion.record, recordVerification, hstale]
    rfl
  · rw [hengine, getElem?_setRuntime ht, if_pos rfl]
    exact ⟨_, rfl, completeVerificationLocked_stale hstale⟩

theorem step_uncertain (hb : n.engine.Bounded)
    (hc : n.completion action = some c) (ht : n.engine.torrents[c.torrent]? = some t)
    (hfails : (c.record n.db t.runtime).2 ≠ .succeeded) :
    ∃ u : EngineTorrent, (n.step action).engine.torrents[c.torrent]? = some u ∧
      u.runtime.mt.policy.uncertain = true := by
  have hguard : ¬ (!t.runtime.completes c.attempt c.env || !c.env.own 1) = true := by
    intro hg
    rw [Completion.record, recordVerification, if_pos hg] at hfails
    exact hfails rfl
  simp only [Bool.or_eq_true, Bool.not_eq_true', not_or, Bool.not_eq_false] at hguard
  have hresult : settleVerification c.result
      { c.env with recorded := (c.record n.db t.runtime).2 } ≠ .succeeded := by
    simp only [settleVerification, hguard.2, ↓reduceIte]
    intro hj
    generalize (if c.env.own 0 then c.result else c.result.join .cancelled) = settled at hj
    generalize (c.record n.db t.runtime).2 = recorded at hj hfails
    cases settled <;> cases recorded <;> first | exact hfails rfl | cases hj
  obtain ⟨-, hengine⟩ := step_completion hc ht
  rw [hengine, getElem?_setRuntime ht, if_pos rfl]
  have hmem := mem_of_getElem? ht
  exact ⟨_, rfl, completeVerificationLocked_uncertain (hb.consistent t hmem)
    (hb.shown t hmem) hguard.1 hresult⟩

/-- No verifier starts before its veto is committed for its record; a committed veto stays until the
success of the current attempt is persisted, or the record deleted; the completion of another
attempt, or of a runtime that is not current, changes nothing; and a completion whose write fails
leaves the policy uncertain. -/
theorem verification_durability (limit : Int) (db : TorrentDB) (actions : List Action) :
    let n := run limit db actions
    (∀ action v, n.starts action = some v → ∃ before after, actions = before ++ after ∧
        (run limit db before).Established v) ∧
      (∀ more recordID, n.db.Vetoed recordID →
        ¬ (run limit db (actions ++ more)).db.Vetoed recordID →
        ∃ before action after, more = before ++ action :: after ∧
          (run limit db (actions ++ before)).Releases action recordID) ∧
      ∀ action c (t : EngineTorrent), n.completion action = some c →
        n.engine.torrents[c.torrent]? = some t →
        ((t.runtime.mt.verificationAttempt ≠ some c.attempt ∨
            t.runtime.current (c.env.live 3) = false) →
          (n.step action).db = n.db ∧ ∃ u : EngineTorrent,
            (n.step action).engine.torrents[c.torrent]? = some u ∧
              u.runtime.mt.policy = t.runtime.mt.policy ∧ u.runtime.lib = t.runtime.lib) ∧
        ((c.record n.db t.runtime).2 ≠ .succeeded → ∃ u : EngineTorrent,
          (n.step action).engine.torrents[c.torrent]? = some u ∧
            u.runtime.mt.policy.uncertain = true) := by
  intro n
  refine ⟨?_, ?_, ?_⟩
  · intro action v hv
    cases action with
    | start k live env fault =>
      exact run_starting limit db (mem_of_getElem? (filter_eq_some_iff.1 hv).1)
    | _ => cases hv
  · intro more recordID hv hn
    have happend : ∀ more, run limit db (actions ++ more) = exec step n more :=
      fun more => exec_append _ _ _ _
    simp only [happend] at hn ⊢
    exact exec_releases hv hn
  · intro action c t hc ht
    refine ⟨fun hstale => step_stale hc ht ?_, step_uncertain (run_bounded limit db actions) hc ht⟩
    rcases hstale with hattempt | hcurrent
    · simp [completes, hattempt]
    · simp [completes, hcurrent]

end Node

end TorrentHub
