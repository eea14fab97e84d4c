import TorrentHub.Repository.Intent

namespace TorrentHub
open Lib Table TorrentDB Option

structure UserMetadata where
  title : String := ""
  data : String := ""
  poster : String := ""
  category : String := ""
deriving DecidableEq

/-- The columns of `torrents` that a user sets. -/
structure MetadataRecord where
  hash : String
  metadata : UserMetadata := {}
  temporary : Bool := false
deriving DecidableEq

namespace MetadataRecord

def changes (old : MetadataRecord) (m : UserMetadata) (permanent : Bool) : Bool :=
  (permanent && old.temporary) ||
    (m.title != "" && m.title != old.metadata.title) ||
    (m.data != "" && m.data != old.metadata.data) ||
    (m.poster != "" && m.poster != old.metadata.poster) ||
    (m.category != "" && m.category != old.metadata.category)

def patch (old : MetadataRecord) (m : UserMetadata) (permanent : Bool) : MetadataRecord where
  hash := old.hash
  metadata :=
    { title := if m.title ≠ "" then m.title else old.metadata.title
      data := if m.data ≠ "" then m.data else old.metadata.data
      poster := if m.poster ≠ "" then m.poster else old.metadata.poster
      category := if m.category ≠ "" then m.category else old.metadata.category }
  temporary := if permanent then false else old.temporary

end MetadataRecord

inductive IntentCall where
  | commitRunIntent (v : IntentKey) (run : RunIntent)
  | commitResumeRetry (v : IntentKey)
  | commitAddMetadata (v : IntentKey) (m : UserMetadata) (permanent : Bool)
  | updateFilePriority (hash : String) (index : Int) (priority : FilePriority)
  | updateTorrentFilesPriority (hash : String) (priority : FilePriority)
  | putActivationBlock (f : RuntimeFence) (kind : ActivationBlockKind) (reason : String)
  | putRuntimeSafetyBlock (f : RuntimeFence) (kind : ActivationBlockKind) (reason : String)
  | clearActivationBlock (f : RuntimeFence) (kind : ActivationBlockKind)
deriving DecidableEq

namespace IntentCall

def hash : IntentCall → String
  | commitRunIntent v _ | commitResumeRetry v | commitAddMetadata v _ _ => v.hash
  | updateFilePriority hash _ _ | updateTorrentFilesPriority hash _ => hash
  | putActivationBlock f _ _ | putRuntimeSafetyBlock f _ _ | clearActivationBlock f _ => f.hash

def recordID : IntentCall → Option String
  | commitRunIntent v _ | commitResumeRetry v | commitAddMetadata v _ _ => some v.recordID
  | updateFilePriority _ _ _ | updateTorrentFilesPriority _ _ => none
  | putActivationBlock f _ _ | putRuntimeSafetyBlock f _ _ | clearActivationBlock f _ =>
    some f.recordID

def writes : IntentCall → Option RunIntent
  | commitRunIntent _ run => some run
  | commitResumeRetry _ => some .enabled
  | _ => none

end IntentCall

structure IntentTables where
  db : TorrentDB
  metadata : Keyed MetadataRecord.hash := .empty

namespace IntentTables

variable (s : IntentTables)

def commitAddMetadata (v : IntentKey) (m : UserMetadata) (permanent : Bool) :
    Except RepoError (IntentTables × IntentKey) :=
  match s.metadata.find v.hash with
  | none => .error .conflict
  | some old =>
    match s.db.commitAddMetadata v (old.changes m permanent) with
    | .error err => .error err
    | .ok (db, v') =>
      .ok (⟨db, if old.changes m permanent then
        s.metadata.adjust (·.hash == v.hash) (·.patch m permanent) fun _ => rfl
        else s.metadata⟩, v')

def apply : IntentCall → Except RepoError (IntentTables × Option IntentKey)
  | .commitRunIntent v run =>
    (fun (db, v') => ({ s with db }, some v')) <$> s.db.commitRunIntent v run false
  | .commitResumeRetry v =>
    (fun (db, v') => ({ s with db }, some v')) <$> s.db.commitRunIntent v .enabled true
  | .commitAddMetadata v m permanent =>
    (fun (s', v') => (s', some v')) <$> s.commitAddMetadata v m permanent
  | .updateFilePriority hash index priority =>
    (fun db => ({ s with db }, none)) <$> s.db.updatePriority hash (some index) priority
  | .updateTorrentFilesPriority hash priority =>
    (fun db => ({ s with db }, none)) <$> s.db.updatePriority hash none priority
  | .putActivationBlock f kind reason =>
    (fun db => ({ s with db }, none)) <$> s.db.putActivationBlock f kind reason
  | .putRuntimeSafetyBlock f kind reason =>
    (fun db => ({ s with db }, none)) <$> s.db.putRuntimeSafetyBlock f kind reason
  | .clearActivationBlock f kind =>
    (fun db => ({ s with db }, none)) <$> s.db.clearActivationBlock f kind

def step (s : IntentTables) (call : IntentCall) : IntentTables :=
  match s.apply call with
  | .error _ => s
  | .ok (s', _) => s'

def effective : IntentCall → Bool
  | .commitRunIntent _ _ | .commitResumeRetry _ | .updateFilePriority _ _ _ |
    .updateTorrentFilesPriority _ _ => true
  | .commitAddMetadata v m permanent => (s.metadata.find v.hash).any (·.changes m permanent)
  | .putActivationBlock _ _ _ | .putRuntimeSafetyBlock _ _ _ | .clearActivationBlock _ _ => false

def advances : IntentTables → List IntentCall → Nat
  | _, [] => 0
  | s, call :: calls =>
    (if (s.apply call).isOk && s.effective call then 1 else 0) + advances (s.step call) calls

end IntentTables

namespace IntentTables

variable {s s' : IntentTables} {call : IntentCall} {answer : Option IntentKey}

variable {db db' : TorrentDB} {g : IntentRecord → IntentRecord} {i : IntentRecord}
  {v v' : IntentKey} {f : RuntimeFence} {b : BlockRecord} {t : Keyed BlockRecord.key} {retry : Bool}
  {kind : ActivationBlockKind} {reason : String} {calls : List IntentCall}

structure Accepted (s : IntentTables) (call : IntentCall) (s' : IntentTables)
    (answer : Option IntentKey) (i i' : IntentRecord) : Prop where
  before : s.db.intents.find call.hash = some i
  after : s'.db.intents.find call.hash = some i'
  identity : ∀ recordID, call.recordID = some recordID → recordID = i.recordID
  record : i'.recordID = i.recordID
  revision : i'.revision = i.revision + if s.effective call then 1 else 0
  answers : ∀ v, answer = some v → v = ⟨call.hash, i'.recordID, i'.revision⟩
  unblocked : call.writes = some .enabled → i'.run = .enabled ∧ s'.db.blocked i'.recordID = false
  verification : ∀ b ∈ s.db.blocks.rows, b.kind = .verification →
    s'.db.blocks.find b.key = none →
      ∃ f, call = .clearActivationBlock f .verification ∧ s.db.attached f = true ∧
        f.recordID = b.recordID

theorem find_updateIntent {hash : String}
    {hg : ∀ i, (g i).hash = i.hash} (h : db.intents.find hash = some i) :
    (db.updateIntent hash g hg).intents.find hash = some (g i) := by
  have hkey := find_key h
  rw [updateIntent, find_adjust, h]
  simp [hkey]

theorem exists_of_current (h : db.current v = true) :
    ∃ i, db.intents.find v.hash = some i ∧ i.recordID = v.recordID ∧ i.revision = v.revision := by
  obtain ⟨i, hi, heq⟩ := (any_eq_true _ _).1 h
  simp only [Bool.and_eq_true, beq_iff_eq] at heq
  exact ⟨i, hi, heq.1, heq.2⟩

theorem exists_of_attached (h : db.attached f = true) :
    ∃ i, db.intents.find f.hash = some i ∧ i.recordID = f.recordID := by
  obtain ⟨i, hi, heq⟩ := (any_eq_true _ _).1 h
  simp only [Bool.and_eq_true, beq_iff_eq] at heq
  exact ⟨i, hi, heq.1.1⟩

theorem find_remove_of (hb : b ∈ t.rows) (hp : p b = false) : (t.remove p).find b.key = some b := by
  rw [find_remove, find_of_mem hb]
  simp [hp]

theorem find_put_of (hb : b ∈ t.rows) : (t.put new).find b.key ≠ none := by
  by_cases hk : b.key = new.key
  · rw [hk, find_put_self]
    simp
  rw [find_put_ne hk, find_of_mem hb]
  simp

theorem commitRunIntent_unblocked
    (h : db.commitRunIntent v .enabled retry = .ok (db', v')) : db'.blocked v.recordID = false := by
  unfold commitRunIntent at h
  rw [ite_error_eq_ok] at h
  obtain ⟨-, h⟩ := h
  dsimp only at h
  rw [ite_error_eq_ok] at h
  obtain ⟨hguard, h⟩ := h
  simp only [Bool.not_eq_true', Bool.not_eq_false, Bool.and_eq_true, Bool.or_eq_true,
    beq_iff_eq, reduceCtorEq, false_or] at hguard
  cases h
  exact hguard.2

theorem accepted_commitRunIntent {run : RunIntent}
    (hcall : call.hash = v.hash ∧ call.recordID = some v.recordID ∧
      call.writes = some run ∧ s.effective call = true)
    (h : s.db.commitRunIntent v run retry = .ok (db', v')) :
    ∃ i i', Accepted s call { s with db := db' } (some v') i i' := by
  obtain ⟨hcurrent, rfl, hintents, -, hblocks, -⟩ := commitRunIntent_ok h
  obtain ⟨i, hi, hrecord, hrevision⟩ := exists_of_current hcurrent
  obtain ⟨hhash, hid, hwrites, heffective⟩ := hcall
  refine ⟨i, { i with run, revision := i.revision + 1 }, ?_, ?_, ?_, rfl, ?_, ?_, ?_, ?_⟩
  · rw [hhash]
    exact hi
  · rw [hhash]
    change db'.intents.find v.hash = _
    rw [hintents]
    exact find_updateIntent hi
  · intro recordID heq
    rw [hid] at heq
    rw [← some.inj heq, hrecord]
  · rw [heffective]
    rfl
  · rintro _ ⟨⟩
    rw [hhash, ← hrecord, ← hrevision]
  · intro henabled
    rw [hwrites] at henabled
    obtain rfl := some.inj henabled
    exact ⟨rfl, hrecord ▸ commitRunIntent_unblocked h⟩
  · intro b hb hkind hnone
    change db'.blocks.find b.key = none at hnone
    rw [hblocks] at hnone
    cases retry with
    | false =>
      rw [if_neg (by simp), find_of_mem hb] at hnone
      cases hnone
    | true =>
      rw [if_pos rfl, find_remove_of hb (by simp [hkind, ActivationBlockKind.resumeRetryable])]
        at hnone
      cases hnone

theorem accepted_of_advance {hg : ∀ i, (g i).hash = i.hash} {metadata : Keyed MetadataRecord.hash}
    (hi : s.db.intents.find call.hash = some i)
    (hid : ∀ recordID, call.recordID = some recordID → recordID = i.recordID)
    (hwrites : call.writes = none)
    (hintents : db'.intents = (s.db.updateIntent call.hash g hg).intents)
    (hblocks : db'.blocks = s.db.blocks) (hrecord : (g i).recordID = i.recordID)
    (hrevision : (g i).revision = i.revision + if s.effective call then 1 else 0)
    (hanswer : ∀ v, answer = some v → v = ⟨call.hash, i.recordID, (g i).revision⟩) :
    Accepted s call ⟨db', metadata⟩ answer i (g i) where
  before := hi
  after := by
    change db'.intents.find call.hash = _
    rw [hintents]
    exact find_updateIntent hi
  identity := hid
  record := hrecord
  revision := hrevision
  answers v hv := by rw [hanswer v hv, hrecord]
  unblocked henabled := by
    rw [hwrites] at henabled
    cases henabled
  verification b hb hkind hnone := by
    change db'.blocks.find b.key = none at hnone
    rw [hblocks, find_of_mem hb] at hnone
    cases hnone

theorem accepted_commitAddMetadata {m : UserMetadata} {permanent : Bool}
    (h : s.commitAddMetadata v m permanent = .ok (s', v')) :
    ∃ i i', Accepted s (.commitAddMetadata v m permanent) s' (some v') i i' := by
  unfold commitAddMetadata at h
  split at h
  · cases h
  rename_i old hold
  split at h
  · cases h
  rename_i db' v'' hdb
  cases h
  have heffective : s.effective (.commitAddMetadata v m permanent) = old.changes m permanent := by
    simp only [effective, hold, any_some]
  unfold TorrentDB.commitAddMetadata at hdb
  rw [ite_error_eq_ok] at hdb
  obtain ⟨hguard, hdb⟩ := hdb
  simp only [Bool.not_eq_true', Bool.not_eq_false, Bool.and_eq_true] at hguard
  obtain ⟨i, hi, hrecord, hrevision⟩ := exists_of_current hguard.1.1
  have hid : ∀ recordID, some v.recordID = some recordID → recordID = i.recordID := by
    rintro _ ⟨⟩
    exact hrecord.symm
  split at hdb
  next hsame =>
    cases hdb
    rw [Bool.not_eq_true'] at hsame
    refine ⟨i, i, hi, hi, hid, rfl, ?_, ?_, by rintro ⟨⟩, ?_⟩
    · rw [heffective, hsame]
      simp
    · rintro _ ⟨⟩
      change v = ⟨v.hash, i.recordID, i.revision⟩
      rw [hrecord, hrevision]
    · intro b hb hkind hnone
      change s.db.blocks.find b.key = none at hnone
      rw [Table.find_of_mem hb] at hnone
      cases hnone
  next hchanged =>
  obtain ⟨db'', hadvance, heq⟩ := map_eq_ok.1 hdb
  cases heq
  obtain ⟨-, rfl⟩ := TorrentDB.advanceIntent_ok hadvance
  have hchanged : old.changes m permanent = true := by simpa using hchanged
  refine ⟨i, _, accepted_of_advance hi hid rfl rfl rfl rfl ?_ ?_⟩
  · rw [heffective, hchanged]
    rfl
  rintro _ ⟨⟩
  change (⟨v.hash, v.recordID, v.revision + 1⟩ : IntentKey) = ⟨v.hash, i.recordID, i.revision + 1⟩
  rw [hrecord, hrevision]

theorem accepted_updatePriority {index : Option Int} {priority : FilePriority}
    (hcall : call.recordID = none ∧ call.writes = none ∧ s.effective call = true)
    (h : s.db.updatePriority call.hash index priority = .ok db') :
    ∃ i i', Accepted s call { s with db := db' } none i i' := by
  obtain ⟨i, hi, rfl⟩ := updatePriority_ok h
  obtain ⟨hid, hwrites, heffective⟩ := hcall
  refine ⟨i, _, accepted_of_advance hi ?_ hwrites rfl rfl rfl ?_ ?_⟩
  · intro recordID heq
    rw [hid] at heq
    cases heq
  · rw [heffective]
    rfl
  · nofun

theorem accepted_blocks {blocks : Keyed BlockRecord.key} {recordID : String}
    (hi : s.db.intents.find call.hash = some i) (hrecord : i.recordID = recordID)
    (hcall : call.recordID = some recordID ∧ call.writes = none ∧ s.effective call = false)
    (hverification : ∀ b ∈ s.db.blocks.rows, b.kind = .verification → blocks.find b.key = none →
      ∃ f, call = .clearActivationBlock f .verification ∧ s.db.attached f = true ∧
        f.recordID = b.recordID) :
    ∃ i i', Accepted s call { s with db := { s.db with blocks } } none i i' := by
  obtain ⟨hid, hwrites, heffective⟩ := hcall
  refine ⟨i, i, hi, hi, ?_, rfl, ?_, fun v hv => (nomatch hv), ?_, hverification⟩
  · intro recordID' heq
    rw [hid] at heq
    rw [← some.inj heq, hrecord]
  · rw [heffective]
    simp
  · intro henabled
    rw [hwrites] at henabled
    cases henabled

theorem accepted_putActivationBlock (h : s.db.putActivationBlock f kind reason = .ok db') :
    ∃ i i', Accepted s (.putActivationBlock f kind reason) { s with db := db' } none i i' := by
  unfold putActivationBlock at h
  rw [ite_error_eq_ok] at h
  obtain ⟨-, h⟩ := h
  rw [ite_error_eq_ok] at h
  obtain ⟨hattached, h⟩ := h
  cases h
  obtain ⟨i, hi, hrecord⟩ := exists_of_attached (by simpa using hattached)
  exact accepted_blocks hi hrecord ⟨rfl, rfl, rfl⟩ fun b hb _ hnone => absurd hnone (find_put_of hb)

theorem accepted_putRuntimeSafetyBlock (h : s.db.putRuntimeSafetyBlock f kind reason = .ok db') :
    ∃ i i', Accepted s (.putRuntimeSafetyBlock f kind reason) { s with db := db' } none i i' := by
  unfold putRuntimeSafetyBlock at h
  rw [ite_error_eq_ok] at h
  obtain ⟨-, h⟩ := h
  rw [ite_error_eq_ok] at h
  obtain ⟨hattached, h⟩ := h
  cases h
  simp only [Bool.not_eq_true', Bool.not_eq_false] at hattached
  obtain ⟨i, hi, heq⟩ := (any_eq_true _ _).1 hattached
  simp only [Bool.and_eq_true, beq_iff_eq] at heq
  exact accepted_blocks hi heq.1.1 ⟨rfl, rfl, rfl⟩ fun b hb _ hnone => absurd hnone (find_put_of hb)

theorem accepted_clearActivationBlock (h : s.db.clearActivationBlock f kind = .ok db') :
    ∃ i i', Accepted s (.clearActivationBlock f kind) { s with db := db' } none i i' := by
  unfold clearActivationBlock at h
  rw [ite_error_eq_ok] at h
  obtain ⟨-, h⟩ := h
  rw [ite_error_eq_ok] at h
  obtain ⟨hattached, h⟩ := h
  cases h
  have hattached : s.db.attached f = true := by simpa using hattached
  obtain ⟨i, hi, hrecord⟩ := exists_of_attached hattached
  refine accepted_blocks hi hrecord ⟨rfl, rfl, rfl⟩ fun b hb hkind hnone => ?_
  by_cases hp : (b.recordID == f.recordID && b.kind == kind) = true
  · simp only [Bool.and_eq_true, beq_iff_eq] at hp
    rw [← hp.2, hkind]
    exact ⟨f, rfl, hattached, hp.1.symm⟩
  rw [Bool.not_eq_true] at hp
  rw [find_remove_of hb hp] at hnone
  cases hnone

theorem accepted_of_apply (h : s.apply call = .ok (s', answer)) :
    ∃ i i', Accepted s call s' answer i i' := by
  cases call with
  | commitRunIntent v run | commitResumeRetry v =>
    obtain ⟨⟨db', v'⟩, hdb, heq⟩ := map_eq_ok.1 h
    cases heq
    exact accepted_commitRunIntent ⟨rfl, rfl, rfl, rfl⟩ hdb
  | commitAddMetadata v m permanent =>
    obtain ⟨⟨s'', v'⟩, hs, heq⟩ := map_eq_ok.1 h
    cases heq
    exact accepted_commitAddMetadata hs
  | updateFilePriority hash index priority | updateTorrentFilesPriority hash priority =>
    obtain ⟨db', hdb, heq⟩ := map_eq_ok.1 h
    cases heq
    exact accepted_updatePriority ⟨rfl, rfl, rfl⟩ hdb
  | putActivationBlock f kind reason =>
    obtain ⟨db', hdb, heq⟩ := map_eq_ok.1 h
    cases heq
    exact accepted_putActivationBlock hdb
  | putRuntimeSafetyBlock f kind reason =>
    obtain ⟨db', hdb, heq⟩ := map_eq_ok.1 h
    cases heq
    exact accepted_putRuntimeSafetyBlock hdb
  | clearActivationBlock f kind =>
    obtain ⟨db', hdb, heq⟩ := map_eq_ok.1 h
    cases heq
    exact accepted_clearActivationBlock hdb

theorem step_of_ok (h : s.apply call = .ok (s', answer)) : s.step call = s' := by
  unfold step
  rw [h]

theorem step_of_error (h : s.apply call = .error err) : s.step call = s := by
  unfold step
  rw [h]

theorem exec_intent (hcalls : ∀ call ∈ calls, call.hash = h) (hi : s.db.intents.find h = some i) :
    ∃ j, (exec step s calls).db.intents.find h = some j ∧ j.recordID = i.recordID ∧
      j.revision = i.revision + s.advances calls := by
  induction calls generalizing s i with
  | nil => exact ⟨i, hi, rfl, by simp [advances]⟩
  | cons call calls ih =>
    obtain ⟨rfl, hrest⟩ := List.forall_mem_cons.1 hcalls
    rw [exec_cons, advances]
    cases happly : s.apply call with
    | error err =>
      rw [step_of_error happly]
      obtain ⟨j, hj, hrecord, hrevision⟩ := ih hrest hi
      exact ⟨j, hj, hrecord, by simp [Except.isOk, Except.toBool, hrevision]⟩
    | ok result =>
      obtain ⟨s', answer⟩ := result
      obtain ⟨i₁, i', hacc⟩ := accepted_of_apply happly
      rw [step_of_ok happly]
      have heq : i₁ = i := by
        have hbefore := hacc.before
        rw [hi] at hbefore
        exact (Option.some.inj hbefore).symm
      obtain ⟨j, hj, hrecord, hrevision⟩ := ih hrest hacc.after
      refine ⟨j, hj, by rw [hrecord, hacc.record, heq], ?_⟩
      rw [hrevision, hacc.revision, heq]
      simp only [Except.isOk, Except.toBool, Bool.true_and]
      split
      · simp; omega
      · simp

theorem exists_clear_of_exec (hb : b ∈ s.db.blocks.rows) (hkind : b.kind = .verification)
    (hnone : (exec step s calls).db.blocks.find b.key = none) :
    ∃ before f after, calls = before ++ .clearActivationBlock f .verification :: after ∧
      (exec step s before).db.attached f = true ∧ f.recordID = b.recordID := by
  induction calls generalizing s b with
  | nil =>
    rw [exec_nil, find_of_mem hb] at hnone
    cases hnone
  | cons call calls ih =>
    rw [exec_cons] at hnone
    cases hfind : (s.step call).db.blocks.find b.key with
    | some b' =>
      have hkey := find_key hfind
      have hrecord : b'.recordID = b.recordID := congrArg Prod.fst hkey
      have hkind' : b'.kind = b.kind := congrArg Prod.snd hkey
      rw [← hkey] at hnone
      obtain ⟨before, f, after, rfl, hattached, hf⟩ :=
        ih (find_mem hfind) (hkind'.trans hkind) hnone
      exact ⟨call :: before, f, after, rfl, hattached, hf.trans hrecord⟩
    | none =>
      cases happly : s.apply call with
      | error err =>
        rw [step_of_error happly, find_of_mem hb] at hfind
        cases hfind
      | ok result =>
        obtain ⟨s', answer⟩ := result
        obtain ⟨i, i', hacc⟩ := accepted_of_apply happly
        rw [step_of_ok happly] at hfind
        obtain ⟨f, rfl, hattached, hf⟩ := hacc.verification b hb hkind hfind
        exact ⟨[], f, calls, rfl, hattached, hf⟩

/-- Every run of the writers on one hash: what its last call does, and what the run does to the row
of the record and to a verification block. -/
theorem intent_calls (h : String) (s₀ : IntentTables) (before : List IntentCall) (call : IntentCall)
    (hcalls : ∀ c ∈ before ++ [call], c.hash = h) :
    let s := exec step s₀ before
    let s' := exec step s₀ (before ++ [call])
    (∀ err, s.apply call = .error err → s' = s) ∧
    (∀ next answer, s.apply call = .ok (next, answer) → s' = next ∧
      ∃ i i', s.db.intents.find h = some i ∧ s'.db.intents.find h = some i' ∧
        i'.recordID = i.recordID ∧
        i'.revision = i.revision + (if s.effective call then 1 else 0) ∧
        (∀ v, answer = some v → v = ⟨h, i'.recordID, i'.revision⟩) ∧
        (call.writes = some .enabled → i'.run = .enabled ∧ s'.db.blocked i'.recordID = false)) ∧
    (∀ i recordID, s.db.intents.find h = some i → call.recordID = some recordID →
      recordID ≠ i.recordID → s' = s) ∧
    (∀ i, s₀.db.intents.find h = some i →
      ∃ j, s'.db.intents.find h = some j ∧ j.recordID = i.recordID ∧
        j.revision = i.revision + s₀.advances (before ++ [call])) ∧
    (∀ b ∈ s₀.db.blocks.rows, b.kind = .verification → s'.db.blocks.find b.key = none →
      ∃ calls f rest, before ++ [call] = calls ++ .clearActivationBlock f .verification :: rest ∧
        (exec step s₀ calls).db.attached f = true ∧ f.recordID = b.recordID) := by
  intro s s'
  have hs' : s' = s.step call := exec_append step s₀ before [call]
  have hhash : call.hash = h := hcalls call (by simp)
  refine ⟨?_, ?_, ?_, fun i hi => exec_intent hcalls hi,
    fun b hb hkind hnone => exists_clear_of_exec hb hkind hnone⟩
  · intro err herr
    rw [hs', step_of_error herr]
  · intro next answer hok
    have hnext : s' = next := hs'.trans (step_of_ok hok)
    obtain ⟨i, i', hacc⟩ := accepted_of_apply hok
    rw [hnext]
    refine ⟨rfl, i, i', hhash ▸ hacc.before, hhash ▸ hacc.after, hacc.record, hacc.revision, ?_,
      hacc.unblocked⟩
    rw [← hhash]
    exact hacc.answers
  · intro i recordID hi hid hne
    cases happly : s.apply call with
    | error err => rw [hs', step_of_error happly]
    | ok result =>
      obtain ⟨next, answer⟩ := result
      obtain ⟨i₁, i', hacc⟩ := accepted_of_apply happly
      have hbefore := hacc.before
      rw [hhash, hi] at hbefore
      rw [hacc.identity recordID hid, ← some.inj hbefore] at hne
      exact absurd rfl hne

def blockedTables : IntentTables where
  db :=
    { torrents := Table.empty.put { hash := "h" }
      intents := Table.empty.put { hash := "h", recordID := "r", run := .paused }
      blocks := Table.empty.put ⟨"r", .legacyError, "failed"⟩ }

/-- A retry is committed, as the next revision, with the blocks removed that it authorizes. -/
theorem blockedTables_retry :
    blockedTables.advances [.commitResumeRetry ⟨"h", "r", 1⟩] = 1 ∧
      (blockedTables.step (.commitResumeRetry ⟨"h", "r", 1⟩)).db.blocked "r" = false ∧
      ∃ j, (blockedTables.step (.commitResumeRetry ⟨"h", "r", 1⟩)).db.intents.find "h" = some j ∧
        j.recordID = "r" ∧ j.revision = 1 + 1 := by
  obtain ⟨-, -, -, hrow, -⟩ := intent_calls "h" blockedTables []
    (.commitResumeRetry ⟨"h", "r", 1⟩) (by decide +kernel)
  exact ⟨by decide +kernel, by decide +kernel,
    hrow { hash := "h", recordID := "r", run := .paused } (by decide +kernel)⟩

end IntentTables

end TorrentHub
