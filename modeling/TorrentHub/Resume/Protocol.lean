import TorrentHub.Resume.Transactions

namespace TorrentHub
open Lib Binary List Table

variable {fold : Bytes → Bytes} {db db' : ResumeDB} {conn : Connection} {m : StorageMapping}
  {id record mask : Bytes} {token next : ResumeToken} {s : ResumeSnapshot} {c : Checkpoint}
  {call : ResumeCall}

namespace ResumeDB

structure Committed (fold : Bytes → Bytes) (db : ResumeDB) (conn : Connection)
    (m : StorageMapping) (token : ResumeToken) (c : Checkpoint) (next : ResumeToken)
    (db' : ResumeDB) : Prop where
  generation : c.generation.toInt = token.generation + 1
  recordID : c.identity.recordID = token.recordID
  storageID : c.identity.storageID = token.storageID
  revision : c.identity.mappingRevision.toInt = token.mappingRevision
  next_eq : next = { token with generation := token.generation + 1, epoch := token.epoch + 1 }
  admitted : ∃ s, db.Admitted conn m token s
  library : db'.library = db.library
  head : ∃ o, db.owners.find token.storageID = some o ∧
    db'.owners.find token.storageID =
      some { o with generation := next.generation, epoch := next.epoch, invalidated := false }
  row : ∃ blob, encode fold c = .ok blob ∧ db'.checkpoints.find token.storageID = some {
    storageID := token.storageID, payload := blob, revoked := List.replicate c.pieces.length 0
    integrity := resumeIntegrity next blob (List.replicate c.pieces.length 0) }
  frame : ∀ id, id ≠ token.storageID → db'.owners.find id = db.owners.find id ∧
    db'.checkpoints.find id = db.checkpoints.find id

theorem commitResume_ok (h : db.commitResume fold conn m token c = .ok (next, db')) :
    Committed fold db conn m token c next db' := by
  simp only [commitResume, throw_eq, error_bind, bind_eq_ok, ite_error_eq_ok, coded_ok, written_ok,
    pure_eq, Prod.mk.injEq] at h
  obtain ⟨hpre, blob, hblob, s, hs, checkpoints, hcheckpoints, owners, howners, rfl, rfl⟩ := h
  simp only [Bool.or_eq_true, bne_iff_ne, not_or, not_not] at hpre
  have hadmitted := checkWriter_ok hs
  obtain ⟨o, ho, -⟩ := hadmitted.head
  have hself := owners_self howners fun _ => rfl
  rw [ho, Option.map_some] at hself
  have hrow := find_upsert_self hcheckpoints
  refine ⟨hpre.1.1.1.1.1.1.2, hpre.1.1.1.1.1.2, hpre.1.1.1.1.2, hpre.1.1.1.2, rfl, ⟨s, hadmitted⟩,
    rfl, ⟨o, ho, hself⟩, ⟨blob, hblob, hrow⟩, ?_⟩
  intro id hid
  exact ⟨owners_ne howners (fun _ => rfl) hid, find_upsert_ne hcheckpoints (Ne.symm hid)⟩

theorem Committed.step (h : Committed fold db conn m token c next db') (id : Bytes) :
    HeadStep db db' id (∃ m' token' c', ResumeCall.commit m token c = .commit m' token' c' ∧
      db.headToken id = some token') := by
  obtain ⟨s, hadmitted⟩ := h.admitted
  by_cases hid : id = token.storageID
  · subst hid
    obtain ⟨o, ho, ho'⟩ := h.head
    refine .committed ⟨m, token, c, rfl, hadmitted.headToken⟩ o _ ho ho' ?_
    rw [hadmitted.epoch ho, h.next_eq]
    exact Int.lt_succ _
  · obtain ⟨ho, hc⟩ := h.frame id hid
    exact .same ho hc

theorem transact_step (h : db.transact fold conn call = .ok db') (id : Bytes) :
    HeadStep db db' id (∃ m token c, call = .commit m token c ∧ db.headToken id = some token) := by
  cases call with
  | capture m record =>
    obtain ⟨⟨token, db₁⟩, hr, rfl⟩ := map_eq_ok.1 h
    exact captureResume_step hr id
  | commit m token c =>
    obtain ⟨⟨next, db₁⟩, hr, rfl⟩ := map_eq_ok.1 h
    exact (commitResume_ok hr).step id
  | revoke m token mask =>
    obtain ⟨⟨next, db₁⟩, hr, rfl⟩ := map_eq_ok.1 h
    exact revokeResume_step hr id
  | invalidate m token =>
    obtain ⟨⟨next, db₁⟩, hr, rfl⟩ := map_eq_ok.1 h
    exact invalidateResume_step hr id
  | invalidateMutation m record => exact invalidateResumeMutation_step h id
  | change changes =>
    cases hr : db.change changes with
    | error err =>
      simp only [transact, hr] at h
      cases h
    | ok db₁ =>
      simp only [transact, hr] at h
      cases h
      have hfenced := db.change_fences changes _ hr
      exact .bumped (by rw [hfenced.checkpoints]) (hfenced.owners id)

theorem step_advances (fold : Bytes → Bytes) (id : Bytes) (db : ResumeDB)
    (t : Connection × ResumeCall) : (headFence id).Advances db (db.step fold t) := by
  unfold step
  cases h : db.transact fold t.1 t.2 with
  | error err => exact .refl db
  | ok db' => exact (transact_step h id).advances

end ResumeDB

def ResumeCall.token? : ResumeCall → Option ResumeToken
  | .commit _ token _ | .revoke _ token _ | .invalidate _ token => some token
  | _ => none

namespace ResumeDB

theorem transact_headToken (h : db.transact fold conn call = .ok db')
    (ht : call.token? = some token) : db.headToken token.storageID = some token := by
  cases call with
  | commit m token' c =>
    cases ht
    obtain ⟨⟨next, db₁⟩, hr, rfl⟩ := map_eq_ok.1 h
    obtain ⟨s, hadmitted⟩ := (commitResume_ok hr).admitted
    exact hadmitted.headToken
  | revoke m token' mask | invalidate m token' =>
    cases ht
    obtain ⟨⟨next, db₁⟩, hr, rfl⟩ := map_eq_ok.1 h
    obtain ⟨s, hs, -⟩ := bind_eq_ok.1 hr
    exact (checkWriter_ok hs).headToken
  | _ => cases ht

theorem captureResume_headToken (h : db.captureResume conn m record = .ok (token, db')) :
    db'.headToken m.storageID = some token := by
  simp only [captureResume, bind_eq_ok] at h
  obtain ⟨⟨⟩, -, owners, -, head, hhead, h⟩ := h
  split at h
  · cases h
  rw [pure_eq] at h
  cases h
  obtain ⟨o, ho, rfl⟩ := readResumeHead_some hhead
  unfold headToken
  rw [ho]
  rfl

theorem epoch_of_headToken (h : db.headToken id = some token) :
    db.epoch id = token.epoch ∧ token.storageID = id := by
  unfold headToken at h
  obtain ⟨o, ho, rfl⟩ := Option.map_eq_some_iff.1 h
  have hkey : o.storageID = id := find_key ho
  unfold epoch
  rw [ho]
  exact ⟨rfl, hkey⟩

theorem transact_stale (ht : call.token? = some token)
    (hepoch : token.epoch < db.epoch token.storageID) :
    (∃ err, db.transact fold conn call = .error err) ∧ db.step fold (conn, call) = db := by
  have hfails : ∃ err, db.transact fold conn call = .error err := by
    cases h : db.transact fold conn call with
    | error err => exact ⟨err, rfl⟩
    | ok db' =>
      have hhead := epoch_of_headToken (transact_headToken h ht)
      omega
  refine ⟨hfails, ?_⟩
  obtain ⟨err, herr⟩ := hfails
  unfold step
  rw [herr]

theorem readResumeHead_find (h : db.owners.find id = some o) :
    db.readResumeHead id = .ok (some { token := o.token, invalidated := o.invalidated }) := by
  have hcheck := find_check h
  simp only [ResumeOwner.check, Bool.and_eq_true, decide_eq_true_eq] at hcheck
  unfold readResumeHead
  rw [h]
  simp only
  rw [if_neg, if_neg]
  · simp only [Bool.or_eq_true, decide_eq_true_eq]
    omega
  · simp only [Bool.or_eq_true, decide_eq_true_eq]
    omega

theorem validateBitmap_zero {bits : Bytes} {pieces : Int64} (h : validBitmap bits pieces = true) :
    validateBitmap (replicate bits.length 0) pieces = .ok () := by
  have hzero : (replicate bits.length (0 : UInt8)).getLastD 0 = 0 := by
    cases bits.length with
    | zero => rfl
    | succ n => rw [getLastD_eq_getLast?, getLast?_replicate]; simp
  unfold validateBitmap validBitmap
  unfold validBitmap at h
  split at h
  · cases h
  next hrange =>
  rw [length_replicate, if_neg hrange, hzero, if_pos]
  simp

section

variable (h : Committed fold db conn m token c next db')
include h

theorem Committed.token_eq (ho : db.owners.find token.storageID = some o) : ResumeOwner.token
      { o with generation := next.generation, epoch := next.epoch, invalidated := false } =
      next := by
  obtain ⟨s, hadmitted⟩ := h.admitted
  rw [h.next_eq, ← hadmitted.owner_token ho]
  rfl

theorem Committed.payload {blob : Bytes} (hrow : db'.checkpoints.find token.storageID = some {
      storageID := token.storageID, payload := blob, revoked := replicate c.pieces.length 0
      integrity := resumeIntegrity next blob (replicate c.pieces.length 0) }) :
    db'.readResumePayload next = .ok (blob, replicate c.pieces.length 0) := by
  have hcheck := find_check hrow
  simp only [ResumeCheckpoint.check, Bool.and_eq_true, decide_eq_true_eq] at hcheck
  have hid : next.storageID = token.storageID := by rw [h.next_eq]
  unfold readResumePayload
  rw [hid, hrow]
  simp only
  have hsize : ¬(decide (blob.length > maxCheckpointBytes) ||
      decide ((replicate c.pieces.length (0 : UInt8)).length > 524288)) = true := by
    simp only [Bool.or_eq_true, decide_eq_true_eq, maxCheckpointBytes, not_or, gt_iff_lt, not_lt]
    exact hcheck.1
  rw [if_neg hsize, if_neg (by simp)]

theorem Committed.decoded (hblob : encode fold c = .ok blob) :
    decodeResume fold { token := next, invalidated := false } blob
        (replicate c.pieces.length 0) =
      .ok (c, {
        token := next, invalidated := false, checkpoint := some c
        revoked := replicate c.pieces.length 0 }) := by
  have hdecode := decode_encode hblob
  have hbits := validateBitmap_zero (Checkpoint.validate_ok (decode_valid hdecode)).2.2.2.2.1
  have hnext := h.next_eq
  subst hnext
  simp only [decodeResume, hdecode, hbits, coded, h.storageID, h.recordID, h.revision, h.generation,
    bne_self_eq_false, Bool.or_self, Bool.false_eq_true, ↓reduceIte, bind, Except.bind]
  rfl

theorem Committed.load (hconn : checkResumeDurability conn' = .ok ()) :
    db'.loadResume fold conn' m token.recordID = .ok (some {
      token := next, invalidated := false, checkpoint := some c
      revoked := replicate c.pieces.length 0 }) := by
  obtain ⟨s, hadmitted⟩ := h.admitted
  obtain ⟨o, ho, ho'⟩ := h.head
  obtain ⟨blob, hblob, hrow⟩ := h.row
  have hbegin : db'.beginResume conn' m token.recordID = .ok () := by
    obtain ⟨⟨⟩, -, hfence⟩ := bind_eq_ok.1 hadmitted.began
    unfold beginResume
    rw [hconn, h.library]
    exact hfence
  have hhead := readResumeHead_find ho'
  rw [h.token_eq ho, hadmitted.storageID] at hhead
  have hrecord : next.recordID = token.recordID := by rw [h.next_eq]
  have hrevision : next.mappingRevision = m.revision := by
    rw [h.next_eq]
    exact hadmitted.revision
  simp only [loadResume, hbegin, hhead, hrecord, hrevision, h.payload hrow, h.decoded hblob, bind,
    Except.bind, bne_self_eq_false, Bool.or_self, Bool.false_eq_true, ↓reduceIte]
  rfl

end

/-- A transaction that changes the head or its checkpoint raises the epoch; a writer with a token
from before such a change fails and changes nothing; a piece becomes trusted only by a commit with
the token of the head; and a load right after a commit gives back the checkpoint. -/
theorem resume_protocol (fold : Bytes → Bytes) (id : Bytes) :
    (∀ (db : ResumeDB) (t : Connection × ResumeCall),
      (db.step fold t).content id ≠ db.content id → db.epoch id < (db.step fold t).epoch id) ∧
    (∀ (db db' : ResumeDB) (conn : Connection) (m : StorageMapping) (record : Bytes)
        (token : ResumeToken), db.captureResume conn m record = .ok (token, db') →
      db'.headToken m.storageID = some token) ∧
    (∀ (db : ResumeDB) (token : ResumeToken) (before after : List (Connection × ResumeCall))
        (t : Connection × ResumeCall), db.headToken id = some token →
      ((db.run fold before).step fold t).content id ≠ (db.run fold before).content id →
      ∀ (conn : Connection) (call : ResumeCall), call.token? = some token →
        let later := ((db.run fold before).step fold t).run fold after
        (∃ err, later.transact fold conn call = .error err) ∧
          later.step fold (conn, call) = later) ∧
    (∀ (db : ResumeDB) (t : Connection × ResumeCall) (piece : Nat),
      (db.step fold t).trusted fold id piece = true → db.trusted fold id piece = false →
      ∃ m token c, t.2 = .commit m token c ∧ db.headToken id = some token) ∧
    (∀ (db db' : ResumeDB) (conn conn' : Connection) (m : StorageMapping)
        (token next : ResumeToken) (c : Checkpoint),
      db.commitResume fold conn m token c = .ok (next, db') →
      checkResumeDurability conn' = .ok () →
      db'.loadResume fold conn' m token.recordID = .ok (some {
        token := next, invalidated := false, checkpoint := some c
        revoked := List.replicate c.pieces.length 0 })) := by
  refine ⟨?_, ?_, ?_, ?_, ?_⟩
  · intro db t hchange
    exact (step_advances fold id db t).lt hchange
  · intro db db' conn m record token h
    exact captureResume_headToken h
  · intro db token before after t htoken hchange conn call hcall
    obtain ⟨hepoch, rfl⟩ := epoch_of_headToken htoken
    have hlater := Fence.stale_of_change (step_advances fold token.storageID) db before after t
      hchange
    apply transact_stale hcall
    rw [← hepoch]
    exact hlater
  · intro db t piece hafter hbefore
    unfold step at hafter
    split at hafter
    · rw [hbefore] at hafter
      cases hafter
    next db' h =>
    have hgain := (transact_step h id).trusted hafter
    rw [hbefore] at hgain
    exact hgain.resolve_left (by simp)
  · intro db db' conn conn' m token next c h hconn
    exact (commitResume_ok h).load hconn

def oneFileMapping : StorageMapping where
  hash := [1]
  version := 2
  root := ascii "a"
  state := .ready
  manifest := []
  storageID := [2]
  revision := 1
  layoutPrefix := []

def oneFileCheckpoint : Checkpoint where
  schema := 1
  identity := {
    recordID := [3], storageID := [2], mappingRevision := 1, layoutVersion := 2, root := ascii "a"
    layoutPrefix := [], metainfoDigest := List.replicate 64 0x30
    catalogDigest := List.replicate 64 0x30, volumeID := [4], pieceLength := 1, pieceCount := 1
    extentLength := 1 }
  generation := 1
  createdAtMS := 1
  files := [⟨ascii "f", 0, 1, ⟨false, [], 0, 0⟩⟩]
  pieces := [1]

def walConnection : Connection := ⟨ascii "wal", 2⟩

def lowerPath (path : Bytes) : Bytes := path.map lowerByte

def capturedStorage : ResumeDB :=
  ResumeDB.run lowerPath {} [
    (walConnection, .change [.insertTorrent ⟨[1], []⟩ [3], .insertMapping oneFileMapping]),
    (walConnection, .capture oneFileMapping [3])]

def capturedToken : ResumeToken := ⟨[2], [3], 1, 1, 0⟩

def firstCommit : Connection × ResumeCall :=
  (walConnection, .commit oneFileMapping capturedToken oneFileCheckpoint)

/-- The first commit makes its piece trusted, a load gives it back, and a second commit with the
spent token fails. -/
theorem first_commit_spends_token :
    capturedStorage.epoch [2] < (capturedStorage.step lowerPath firstCommit).epoch [2] ∧
    (∃ m token c, firstCommit.2 = .commit m token c ∧
      capturedStorage.headToken [2] = some token) ∧
    (∃ err, (capturedStorage.step lowerPath firstCommit).transact lowerPath walConnection
      firstCommit.2 = .error err) ∧
    ∃ next db', capturedStorage.commitResume lowerPath walConnection oneFileMapping capturedToken
        oneFileCheckpoint = .ok (next, db') ∧
      db'.loadResume lowerPath walConnection oneFileMapping [3] = .ok (some {
        token := next, invalidated := false, checkpoint := some oneFileCheckpoint
        revoked := [0] }) := by
  obtain ⟨hepoch, -, hstale, htrusted, hload⟩ := resume_protocol lowerPath [2]
  have hchange : (capturedStorage.step lowerPath firstCommit).content [2] ≠
      capturedStorage.content [2] := by decide +kernel
  refine ⟨hepoch _ _ hchange, ?_, ?_, ?_⟩
  · exact htrusted _ _ 0 (by decide +kernel) (by decide +kernel)
  · have hrefused := hstale capturedStorage capturedToken [] [] firstCommit (by decide +kernel)
    simp only [run, exec_nil] at hrefused
    exact (hrefused hchange walConnection firstCommit.2 rfl).1
  · have hok : (capturedStorage.commitResume lowerPath walConnection oneFileMapping capturedToken
        oneFileCheckpoint).isOk = true := by decide +kernel
    cases hcommit : capturedStorage.commitResume lowerPath walConnection oneFileMapping
        capturedToken oneFileCheckpoint with
    | error err =>
      rw [hcommit] at hok
      cases hok
    | ok p => exact ⟨p.1, p.2, rfl, hload _ _ _ _ _ _ _ _ hcommit (by decide +kernel)⟩

end ResumeDB

end TorrentHub
