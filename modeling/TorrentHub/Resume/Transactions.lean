import TorrentHub.Resume.Heads
import TorrentHub.Resume.Roundtrip

namespace TorrentHub
open Lib Binary Option Table

variable {fold : Bytes → Bytes} {db db' : ResumeDB} {conn : Connection} {m : StorageMapping}
  {id record mask : Bytes} {token next : ResumeToken} {s : ResumeSnapshot} {c : Checkpoint}

variable {α : Type}

theorem written_ok : written x = .ok a ↔ x = some a := by
  cases x <;> simp [written]

theorem coded_ok : coded x = .ok a ↔ x = .ok a := by
  cases x <;> simp [coded]

theorem length_of_validateBitmap {bits : Bytes} {pieces : Int64}
    (h : validateBitmap bits pieces = .ok ()) : bits.length = bitmapBytes pieces := by
  unfold validateBitmap at h
  split at h
  · exact length_of_validBitmap (by assumption)
  · cases h

namespace ResumeDB

variable {o : ResumeOwner} {f : ResumeOwner → ResumeOwner}
  {owners : Table ResumeOwner Bytes ResumeOwner.storageID ResumeOwner.check}
  {k blob revoked : Bytes}
  {rows : Table ResumeCheckpoint Bytes ResumeCheckpoint.storageID ResumeCheckpoint.check}
  {committed : Prop}

theorem readResumeHead_none (h : db.readResumeHead id = .ok none) : db.owners.find id = none := by
  unfold readResumeHead at h
  split at h
  · assumption
  simp only [ite_error_eq_ok] at h
  cases h.2.2

theorem readResumeHead_some (h : db.readResumeHead id = .ok (some s)) :
    ∃ o, db.owners.find id = some o ∧ s = { token := o.token, invalidated := o.invalidated } := by
  unfold readResumeHead at h
  split at h
  · cases h
  next o ho =>
  simp only [ite_error_eq_ok] at h
  cases h.2.2
  exact ⟨o, ho, rfl⟩

structure Admitted (db : ResumeDB) (conn : Connection) (m : StorageMapping) (token : ResumeToken)
    (s : ResumeSnapshot) : Prop where
  began : db.beginResume conn m token.recordID = .ok ()
  storageID : token.storageID = m.storageID
  revision : token.mappingRevision = m.revision
  pos : 0 < token.epoch
  ne_max : token.epoch ≠ maxInt64
  head : ∃ o, db.owners.find token.storageID = some o ∧ o.token = token ∧
    s = { token, invalidated := o.invalidated }

theorem checkWriter_ok (h : db.checkWriter conn m token = .ok s) : db.Admitted conn m token s := by
  simp only [checkWriter, checkResumeToken, bind_eq_ok, error_bind, throw_eq, ite_error_eq_ok] at h
  obtain ⟨⟨⟩, hbegin, hm, head, hhead, h⟩ := h
  simp only [Bool.or_eq_true, bne_iff_ne, not_or, not_not] at hm
  split at h
  · cases h
  next s' =>
  simp only [ite_error_eq_ok, Bool.or_eq_true, bne_iff_ne, decide_eq_true_eq, not_or, not_not,
    pure_eq] at h
  obtain ⟨⟨⟨htoken, hpos⟩, hmax⟩, rfl⟩ := h
  obtain ⟨o, ho, rfl⟩ := readResumeHead_some hhead
  exact ⟨hbegin, hm.1, hm.2, by omega, hmax, o, ho, htoken, by rw [← htoken]⟩

section

variable (h : db.Admitted conn m token s) (ho : db.owners.find token.storageID = some o)
include h ho

theorem Admitted.owner_token : o.token = token := by
  obtain ⟨o', ho', htoken, -⟩ := h.head
  rw [ho] at ho'
  cases ho'
  exact htoken

theorem Admitted.epoch : o.epoch = token.epoch :=
  congrArg ResumeToken.epoch (h.owner_token ho)

end

theorem Admitted.headToken (h : db.Admitted conn m token s) :
    db.headToken token.storageID = some token := by
  obtain ⟨o, ho, htoken, -⟩ := h.head
  unfold ResumeDB.headToken
  rw [ho, map_some, htoken]

section

variable (h : db.owners.updateWhere (·.storageID == k) f = some owners)
  (hf : ∀ o, (f o).storageID = o.storageID)
include h hf

theorem owners_ne (hne : id ≠ k) : owners.find id = db.owners.find id :=
  find_updateWhere_ne h (fun _ => beq_iff_eq) hf hne

theorem owners_self : owners.find k = (db.owners.find k).map f :=
  find_updateWhere_self h (fun _ => beq_iff_eq) hf

end

theorem checkpoints_ne {f : ResumeCheckpoint → ResumeCheckpoint}
    (h : db.checkpoints.updateWhere (·.storageID == k) f = some rows)
    (hf : ∀ r, (f r).storageID = r.storageID) (hne : id ≠ k) :
    rows.find id = db.checkpoints.find id :=
  find_updateWhere_ne h (fun _ => beq_iff_eq) hf hne

theorem checkpoints_self {f : ResumeCheckpoint → ResumeCheckpoint}
    (h : db.checkpoints.updateWhere (·.storageID == k) f = some rows)
    (hf : ∀ r, (f r).storageID = r.storageID) : rows.find k = (db.checkpoints.find k).map f :=
  find_updateWhere_self h (fun _ => beq_iff_eq) hf

theorem fenced_step (h : db.owners.updateWhere (·.storageID == k) f = some owners)
    (hf : ∀ o, (f o).storageID = o.storageID) (ho : db.owners.find k = some o)
    (hinvalidated : (f o).invalidated = true) (hepoch : o.epoch < (f o).epoch) (id : Bytes) :
    HeadStep db { db with owners } id committed := by
  by_cases hid : id = k
  · subst hid
    have hself := owners_self h hf
    rw [ho, map_some] at hself
    exact .bumped rfl (.fenced o (f o) ho hself hinvalidated hepoch)
  · exact .same (owners_ne h hf hid) rfl

theorem bindResume_step (h : db.bindResume m record = .ok owners) (id : Bytes) :
    HeadStep db { db with owners } id committed := by
  simp only [bindResume, bind_eq_ok] at h
  obtain ⟨head, hhead, h⟩ := h
  split at h
  · have hnone := readResumeHead_none hhead
    rw [written_ok] at h
    by_cases hid : id = m.storageID
    · subst hid
      exact .created rfl _ hnone (find_insert_self h) rfl Int.one_pos
    · exact .same (find_insert_ne h (Ne.symm hid)) rfl
  split at h
  · simp only [throw_eq, error_bind, ite_error_eq_ok, written_ok] at h
    obtain ⟨o, ho, -⟩ := readResumeHead_some hhead
    exact fenced_step h.2 (fun _ => rfl) ho rfl (Int.lt_succ o.epoch) id
  rw [pure_eq] at h
  subst h
  exact .same rfl rfl

theorem captureResume_step (h : db.captureResume conn m record = .ok (token, db')) (id : Bytes) :
    HeadStep db db' id committed := by
  simp only [captureResume, bind_eq_ok] at h
  obtain ⟨⟨⟩, -, owners, howners, head, -, h⟩ := h
  split at h
  · cases h
  rw [pure_eq] at h
  cases h
  exact bindResume_step howners id

theorem invalidateResume_step
    (h : db.invalidateResume conn m token = .ok (next, db')) (id : Bytes) :
    HeadStep db db' id committed := by
  simp only [invalidateResume, bind_eq_ok, written_ok, pure_eq] at h
  obtain ⟨s, hs, owners, howners, h⟩ := h
  cases h
  have hadmitted := checkWriter_ok hs
  obtain ⟨o, ho, -⟩ := hadmitted.head
  refine fenced_step howners (fun _ => rfl) ho rfl ?_ id
  rw [hadmitted.epoch ho]
  exact Int.lt_succ _

theorem invalidateResumeMutation_step
    (h : db.invalidateResumeMutation conn m record = .ok db') (id : Bytes) :
    HeadStep db db' id committed := by
  simp only [invalidateResumeMutation, throw_eq, error_bind, bind_eq_ok, ite_error_eq_ok] at h
  obtain ⟨-, ⟨⟩, -, -, head, hhead, h⟩ := h
  split at h
  · rw [pure_eq] at h
    subst h
    exact .same rfl rfl
  simp only [bind_eq_ok, ite_error_eq_ok, written_ok, pure_eq] at h
  obtain ⟨-, owners, howners, rfl⟩ := h
  obtain ⟨o, ho, -⟩ := readResumeHead_some hhead
  exact fenced_step howners (fun _ => rfl) ho rfl (Int.lt_succ o.epoch) id

theorem readResumePayload_ok (h : db.readResumePayload token = .ok (blob, revoked)) :
    ∃ r, db.checkpoints.find token.storageID = some r ∧ r.payload = blob ∧ r.revoked = revoked := by
  unfold readResumePayload at h
  split at h
  · cases h
  next r hr =>
  simp only [ite_error_eq_ok] at h
  cases h.2.2
  exact ⟨r, hr, rfl, rfl⟩

theorem decodeResume_ok (h : decodeResume fold s blob revoked = .ok (c, s')) :
    decode fold blob = .ok c ∧ revoked.length = bitmapBytes c.identity.pieceCount := by
  simp only [decodeResume, throw_eq, error_bind, bind_eq_ok, ite_error_eq_ok, coded_ok,
    pure_eq] at h
  obtain ⟨c', hc, -, ⟨⟩, hbits, h⟩ := h
  cases h
  exact ⟨hc, length_of_validateBitmap hbits⟩

theorem length_inter_mask
    (h : decode fold blob = .ok c ∧ revoked.length = bitmapBytes c.identity.pieceCount)
    (hmask : coded (validateBitmap mask c.identity.pieceCount) = .ok ()) :
    revoked.length = (Bitmap.inter mask c.pieces).length := by
  have hpieces := (Checkpoint.validate_ok (decode_valid h.1)).2.2.2.2.1
  rw [Bitmap.length_inter, length_of_validateBitmap (coded_ok.1 hmask),
    length_of_validBitmap hpieces, Nat.min_self, h.2]

theorem revokeResume_step
    (h : db.revokeResume fold conn m token mask = .ok (next, db')) (id : Bytes) :
    HeadStep db db' id committed := by
  simp only [revokeResume, bind_eq_ok] at h
  obtain ⟨s, hs, h⟩ := h
  have hadmitted := checkWriter_ok hs
  split at h
  · cases h
    exact .same rfl rfl
  simp only [bind_eq_ok] at h
  obtain ⟨⟨blob, revoked⟩, hpayload, ⟨c, s'⟩, hdecode, ⟨⟩, hmask, h⟩ := h
  split at h
  · cases h
    exact .same rfl rfl
  simp only [bind_eq_ok, written_ok, pure_eq] at h
  obtain ⟨checkpoints, hcheckpoints, owners, howners, h⟩ := h
  cases h
  by_cases hid : id = token.storageID
  · subst hid
    obtain ⟨o, ho, -⟩ := hadmitted.head
    obtain ⟨r, hr, rfl, rfl⟩ := readResumePayload_ok hpayload
    have hself := owners_self howners fun _ => rfl
    have hrow := checkpoints_self hcheckpoints fun _ => rfl
    rw [ho, map_some, ← hadmitted.epoch ho] at hself
    rw [hr, map_some] at hrow
    refine .revoked o r _ ho hself hr hrow rfl ?_
    intro piece hp
    exact Bitmap.bit_union_left (length_inter_mask (decodeResume_ok hdecode) hmask) hp
  · exact .same (owners_ne howners (fun _ => rfl) hid)
      (checkpoints_ne hcheckpoints (fun _ => rfl) hid)

end ResumeDB

end TorrentHub
