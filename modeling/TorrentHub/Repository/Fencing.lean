import TorrentHub.Repository.Observation

namespace TorrentHub
open Lib List Table

inductive RowStep (action : RepoAction) (hash : String) :
    Option IntentRecord → Option IntentRecord → Prop where
  | same (row : Option IntentRecord) : RowStep action hash row row
  | edit {i i' : IntentRecord} (record : i'.recordID = i.recordID)
    (revision : i.revision ≤ i'.revision)
    (attachment : i'.attachment = i.attachment) (sequence : i'.sequence = i.sequence) :
    RowStep action hash (some i) (some i')
  | attach {i i' : IntentRecord} {v : IntentKey} {token : String}
    (attaches : action = .attachRuntime v token) (target : v.hash = hash)
    (record : i'.recordID = i.recordID) (revision : i.revision ≤ i'.revision)
    (attachment : i'.attachment = token) (sequence : i'.sequence = 0) :
    RowStep action hash (some i) (some i')
  | detach {i i' : IntentRecord} (record : i'.recordID = i.recordID)
    (revision : i.revision ≤ i'.revision) (attachment : i'.attachment = "") :
    RowStep action hash (some i) (some i')
  | observe {i i' : IntentRecord} {o : RuntimeObservation}
    (saves : action = .saveRuntimeObservation o) (target : o.fence.hash = hash)
    (record : i'.recordID = i.recordID) (revision : i'.revision = i.revision)
    (attachment : i'.attachment = i.attachment) (current : i.attachment = o.fence.attachment)
    (later : i.sequence < o.sequence) (sequence : i'.sequence = o.sequence) :
    RowStep action hash (some i) (some i')
  | create {row : Option IntentRecord} {i' : IntentRecord} {recordID : String} {run : RunIntent}
    {catalog : Option (List (String × Int))}
    (creates : action = .createTorrent hash recordID run catalog)
    (attachment : i'.attachment = "") : RowStep action hash row (some i')
  | delete {row : Option IntentRecord} (deletes : action = .deleteTorrent hash) :
    RowStep action hash row none

namespace TorrentDB

variable {db db' : TorrentDB} {action : RepoAction} {hash : String}

variable {t : Keyed IntentRecord.hash} {o : RuntimeObservation} {actions : List RepoAction}
  {token : String} {n : Int}

theorem rowStep_adjust {t' : Keyed IntentRecord.hash} {p : IntentRecord → Bool}
    {f : IntentRecord → IntentRecord} (ht : ∃ hf, t' = t.adjust p f hf)
    (h : ∀ i, t.find hash = some i → p i = true → RowStep action hash (some i) (some (f i))) :
    RowStep action hash (t.find hash) (t'.find hash) := by
  obtain ⟨hf, rfl⟩ := ht
  rw [find_adjust]
  cases hi : t.find hash with
  | none => exact .same none
  | some i =>
    rw [Option.map_some]
    split
    next hp => exact h i hi hp
    · exact .same (some i)

theorem find_hash {i : IntentRecord} (h : t.find hash = some i) : i.hash = hash := find_key h

theorem saveRuntimeObservation_intents (h : db.saveRuntimeObservation o = .ok db') :
    db.accepts o = true ∧ db'.intents = (db.saveIntent o).intents := by
  obtain ⟨fileBytes, saved, -, haccepts, hsaved, hfiles⟩ := saveRuntimeObservation_ok h
  refine ⟨haccepts, ?_⟩
  rw [(saveFiles_beside hfiles).intents]
  rcases saveVerified_ok hsaved with ⟨-, rfl⟩ | ⟨-, -, -, -, rfl⟩ <;> rfl

theorem accepts_row (h : db.accepts o = true) :
    ∃ i, db.intents.find o.fence.hash = some i ∧ i.recordID = o.fence.recordID ∧
      i.revision = o.fence.revision ∧ i.attachment = o.fence.attachment ∧
      i.sequence < o.sequence := by
  simp only [accepts, Bool.and_eq_true, Option.any_eq_true] at h
  obtain ⟨⟨⟨i, hi, hrow⟩, -⟩, -⟩ := h
  simp only [beq_iff_eq, decide_eq_true_eq] at hrow
  exact ⟨i, hi, hrow.1.1.1, hrow.1.1.2, hrow.1.2, hrow.2⟩

theorem transact_row (h : db.transact action = .ok db') (hash : String) :
    RowStep action hash (db.intents.find hash) (db'.intents.find hash) := by
  have hbeside : db'.intents = db.intents →
      RowStep action hash (db.intents.find hash) (db'.intents.find hash) := by
    intro heq
    rw [heq]
    exact .same _
  cases action with
  | commitRunIntent v run retry =>
    obtain ⟨⟨db'', v'⟩, hc, rfl⟩ := map_eq_ok.1 h
    obtain ⟨-, -, hintents, -⟩ := commitRunIntent_ok hc
    refine rowStep_adjust ⟨by intro _; rfl, hintents⟩ ?_
    intro i _ _
    exact .edit rfl (Int.le_add_one (Int.le_refl _)) rfl rfl
  | attachRuntime v token =>
    obtain ⟨⟨db'', f⟩, hc, rfl⟩ := map_eq_ok.1 h
    obtain ⟨-, -, -, rfl⟩ := attachRuntime_ok hc
    refine rowStep_adjust ⟨by intro _; rfl, rfl⟩ ?_
    intro i hi hp
    exact .attach rfl ((beq_iff_eq.1 hp).symm.trans (find_hash hi)) rfl (Int.le_refl _) rfl rfl
  | commitAddMetadata v changed =>
    obtain ⟨⟨db'', v'⟩, hc, rfl⟩ := map_eq_ok.1 h
    rcases commitAddMetadata_ok hc with ⟨rfl, -⟩ | ⟨hadvance, -⟩
    · exact hbeside rfl
    obtain ⟨-, rfl⟩ := advanceIntent_ok hadvance
    refine rowStep_adjust ⟨by intro _; rfl, rfl⟩ ?_
    intro i _ _
    exact .edit rfl (Int.le_add_one (Int.le_refl _)) rfl rfl
  | updatePriority target index priority =>
    obtain ⟨i, -, rfl⟩ := updatePriority_ok h
    refine rowStep_adjust ⟨by intro _; rfl, rfl⟩ ?_
    intro i _ _
    exact .edit rfl (Int.le_add_one (Int.le_refl _)) rfl rfl
  | requestDeletionCancel target recordID =>
    cases h
    refine rowStep_adjust ⟨by intro _; rfl, rfl⟩ ?_
    intro i _ _
    refine .edit rfl ?_ rfl rfl
    dsimp only
    split
    · exact Int.le_refl _
    · exact Int.le_add_one (Int.le_refl _)
  | detachRuntime recordID paused =>
    cases h
    have hintents : (db.detachRuntime recordID paused).intents =
        db.intents.adjust (·.recordID == recordID) (fun i => { i with
          attachment := "", sequence := 0, applied := 0
          run := if paused then .paused else i.run
          revision := if paused && i.run ≠ .paused then i.revision + 1 else i.revision })
          fun _ => rfl := by
      cases paused <;> rfl
    refine rowStep_adjust ⟨by intro _; rfl, hintents⟩ ?_
    intro i _ _
    refine .detach rfl ?_ rfl
    dsimp only
    split
    · exact Int.le_add_one (Int.le_refl _)
    · exact Int.le_refl _
  | putRuntimeSafetyBlock f kind reason =>
    simp only [transact, putRuntimeSafetyBlock, ite_error_eq_ok] at h
    cases h.2.2
    exact hbeside rfl
  | inventoryResult recordID missing =>
    cases h
    apply hbeside
    unfold inventoryResult
    repeat' split
    all_goals rfl
  | createTorrent target recordID run catalog =>
    simp only [transact, createTorrent, ite_error_eq_ok] at h
    cases h.2.2.2
    by_cases ht : hash = target
    · subst ht
      rw [find_put_self]
      exact .create rfl rfl
    · rw [find_put_ne ht]
      exact .same _
  | beginDeletion target mode =>
    simp only [transact, beginDeletion, ite_error_eq_ok] at h
    cases h.2
    exact hbeside rfl
  | completeDeletionCancel target | saveStorage s =>
    cases h
    exact hbeside rfl
  | deleteTorrent target =>
    cases h
    have hintents : (db.deleteTorrent target).intents = db.intents.remove (·.hash == target) := by
      simp only [deleteTorrent]
      repeat' split
      all_goals rfl
    rw [hintents, find_remove]
    cases hi : db.intents.find hash with
    | none => exact .same none
    | some i =>
      by_cases ht : hash = target
      · subst ht
        have hgone : (some i).filter (fun r => !(r.hash == hash)) = none := by
          simp [find_hash hi]
        rw [hgone]
        exact .delete rfl
      · have hkept : (some i).filter (fun r => !(r.hash == target)) = some i := by
          simp [find_hash hi, ht]
        rw [hkept]
        exact .same _
  | saveRuntimeObservation o =>
    obtain ⟨haccepts, hintents⟩ := saveRuntimeObservation_intents h
    obtain ⟨i, hi, hrecord, hrevision, hattachment, hsequence⟩ := accepts_row haccepts
    refine rowStep_adjust ⟨by intro _; rfl, hintents⟩ ?_
    intro j hj hp
    have ht : o.fence.hash = hash := (beq_iff_eq.1 hp).symm.trans (find_hash hj)
    rw [ht, hj] at hi
    cases hi
    exact .observe rfl ht rfl rfl rfl hattachment hsequence rfl

theorem step_row (db : TorrentDB) (action : RepoAction) (hash : String) :
    RowStep action hash (db.intents.find hash) ((db.step action).intents.find hash) := by
  unfold step
  split
  · exact .same _
  next h => exact transact_row h hash

def run (db : TorrentDB) (actions : List RepoAction) : TorrentDB := exec step db actions

def tokens (actions : List RepoAction) : List String :=
  actions.filterMap fun
    | .attachRuntime _ token => some token
    | _ => none

/-- The tokens are unique: none is drawn twice, or is one of the attachments already there. -/
structure Distinct (db : TorrentDB) (actions : List RepoAction) : Prop where
  drawn : (tokens actions).Nodup
  nonempty : "" ∉ tokens actions
  rows : ∀ hash hash' i i', db.intents.find hash = some i → db.intents.find hash' = some i' →
    i.attachment = i'.attachment → i.attachment ≠ "" → hash = hash'
  unused : ∀ hash i, db.intents.find hash = some i → i.attachment ≠ "" →
    i.attachment ∉ tokens actions

theorem tokens_append (before after : List RepoAction) :
    tokens (before ++ after) = tokens before ++ tokens after := filterMap_append

theorem tokens_cons (action : RepoAction) (actions : List RepoAction) :
    tokens (action :: actions) = tokens [action] ++ tokens actions := tokens_append [action] actions

theorem step_attachment {i' : IntentRecord}
    (h : (db.step action).intents.find hash = some i') (hne : i'.attachment ≠ "") :
    (∃ i, db.intents.find hash = some i ∧ i.attachment = i'.attachment ∧ i.sequence ≤ i'.sequence) ∨
      ∃ v, action = .attachRuntime v i'.attachment ∧ v.hash = hash := by
  have hstep := step_row db action hash
  rw [h] at hstep
  generalize hrow : db.intents.find hash = row at hstep
  cases hstep with
  | same => exact .inl ⟨i', rfl, rfl, Int.le_refl _⟩
  | edit _ _ ha hs => exact .inl ⟨_, rfl, ha.symm, hs ▸ Int.le_refl _⟩
  | attach hattach htarget _ _ ha _ => exact .inr ⟨_, ha ▸ hattach, htarget⟩
  | detach _ _ ha => exact absurd ha hne
  | observe _ _ _ _ ha _ hlater hs => exact .inl ⟨_, rfl, ha.symm, hs ▸ Int.le_of_lt hlater⟩
  | create _ ha => exact absurd ha hne

theorem Distinct.step (h : Distinct db (action :: actions)) :
    Distinct (db.step action) actions := by
  have hdrawn := h.drawn
  have hunused := h.unused
  rw [tokens_cons] at hdrawn hunused
  have hnew : ∀ v token, action = .attachRuntime v token →
      token ∉ tokens actions ∧ ∀ hash i, db.intents.find hash = some i → i.attachment ≠ "" →
        i.attachment ≠ token := by
    rintro v token rfl
    refine ⟨fun hmem => ?_, fun hash i hi hne heq => ?_⟩
    · exact (nodup_cons.1 hdrawn).1 hmem
    · exact hunused hash i hi hne (mem_cons.2 (.inl heq))
  refine ⟨(nodup_append.1 hdrawn).2.1, ?_, ?_, ?_⟩
  · intro hmem
    exact h.nonempty (by rw [tokens_cons]; exact mem_append.2 (.inr hmem))
  · intro hash hash' i i' hi hi' heq hne
    rcases step_attachment hi hne with ⟨j, hj, hja, -⟩ | ⟨v, ha, hv⟩
    · rcases step_attachment hi' (heq ▸ hne) with ⟨j', hj', hja', -⟩ | ⟨v', ha', -⟩
      · exact h.rows hash hash' j j' hj hj' (by rw [hja, hja', heq]) (hja ▸ hne)
      · exact absurd (hja.trans heq) ((hnew v' _ ha').2 hash j hj (hja ▸ hne))
    rcases step_attachment hi' (heq ▸ hne) with ⟨j', hj', hja', -⟩ | ⟨v', ha', hv'⟩
    · exact absurd (hja'.trans heq.symm) ((hnew v _ ha).2 hash' j' hj' (hja' ▸ heq ▸ hne))
    rw [ha] at ha'
    obtain ⟨rfl, -⟩ := RepoAction.attachRuntime.inj ha'
    exact hv.symm.trans hv'
  · intro hash i hi hne hmem
    rcases step_attachment hi hne with ⟨j, hj, hja, -⟩ | ⟨v, ha, -⟩
    · exact hunused hash j hj (hja ▸ hne) (mem_append.2 (.inr (hja ▸ hmem)))
    · exact (hnew v _ ha).1 hmem

theorem Distinct.run {before after : List RepoAction} (h : Distinct db (before ++ after)) :
    Distinct (db.run before) after := by
  induction before generalizing db with
  | nil => exact h
  | cons action before ih => exact ih h.step

/-- The attachment is on no row but that of `hash`, and its sequence has reached `n`. -/
def Held (db : TorrentDB) (hash token : String) (n : Int) : Prop :=
  ∀ hash' i, db.intents.find hash' = some i → i.attachment = token → hash' = hash ∧ n ≤ i.sequence

theorem Held.step (h : db.Held hash token n) (hne : token ≠ "")
    (ht : token ∉ tokens [action]) : (db.step action).Held hash token n := by
  intro hash' i hi ha
  rcases step_attachment hi (ha ▸ hne) with ⟨j, hj, hja, hle⟩ | ⟨v, hattach, -⟩
  · obtain ⟨hsame, hn⟩ := h hash' j hj (hja.trans ha)
    exact ⟨hsame, Int.le_trans hn hle⟩
  · subst hattach
    exact absurd (mem_singleton.2 ha.symm) ht

theorem Held.run (h : db.Held hash token n) (hne : token ≠ "") (ht : token ∉ tokens actions) :
    (db.run actions).Held hash token n := by
  induction actions generalizing db with
  | nil => exact h
  | cons action actions ih =>
    rw [tokens_cons, mem_append, not_or] at ht
    exact ih (h.step hne ht.1) ht.2

/-- The row has the record, the revision and the attachment of the observation, and an earlier
sequence. -/
def Current (db : TorrentDB) (o : RuntimeObservation) : Prop :=
  ∃ i, db.intents.find o.fence.hash = some i ∧ i.recordID = o.fence.recordID ∧
    i.revision = o.fence.revision ∧ i.attachment = o.fence.attachment ∧ i.sequence < o.sequence

section

variable (h : db.saveRuntimeObservation o = .ok db')
include h

theorem saveRuntimeObservation_current : db.Current o :=
  accepts_row (saveRuntimeObservation_intents h).1

theorem saveRuntimeObservation_attached : o.fence.attachment ≠ "" := by
  obtain ⟨fileBytes, -, hcheck, -⟩ := saveRuntimeObservation_ok h
  simp only [RuntimeObservation.check, ite_error_eq_ok, Bool.or_eq_true, not_or,
    beq_iff_eq] at hcheck
  exact hcheck.1.1.1.1.1.1.2

theorem saveRuntimeObservation_held (hd : Distinct db actions) :
    db'.Held o.fence.hash o.fence.attachment o.sequence := by
  intro hash i hi ha
  obtain ⟨j, hj, -, -, hja, hlt⟩ := saveRuntimeObservation_current h
  have hintents := (saveRuntimeObservation_intents h).2
  have hne := saveRuntimeObservation_attached h
  rw [hintents] at hi
  simp only [saveIntent, updateIntent, find_adjust] at hi
  obtain ⟨k, hk, rfl⟩ := Option.map_eq_some_iff.1 hi
  have hkey : k.hash = hash := find_hash hk
  by_cases hhash : k.hash = o.fence.hash
  · rw [if_pos (beq_iff_eq.2 hhash)]
    exact ⟨hkey.symm.trans hhash, Int.le_refl _⟩
  rw [if_neg (fun hc => hhash (beq_iff_eq.1 hc))] at ha
  have hsame := hd.rows hash o.fence.hash k j hk hj (ha.trans hja.symm) (ha ▸ hne)
  exact absurd (hkey.trans hsame) hhash

end

end TorrentDB

end TorrentHub
