import TorrentHub.Lib.Fence
import TorrentHub.Resume.Store
import TorrentHub.Resume.Triggers

namespace TorrentHub
open Lib Binary Fence ResumeDB

variable {fold : Bytes → Bytes} {db db' : ResumeDB} {id : Bytes} {committed : Prop}

namespace ResumeDB

def content (db : ResumeDB) (id : Bytes) :
    Option (Bytes × Int × Bool × Int) × Option (Bytes × Bytes) :=
  ((db.owners.find id).map fun o => (o.recordID, o.mappingRevision, o.invalidated, o.generation),
    (db.checkpoints.find id).map fun r => (r.payload, r.revoked))

def epoch (db : ResumeDB) (id : Bytes) : Int := ((db.owners.find id).map ResumeOwner.epoch).getD 0

def headToken (db : ResumeDB) (id : Bytes) : Option ResumeToken :=
  (db.owners.find id).map ResumeOwner.token

def headFence (id : Bytes) :
    Fence ResumeDB (Option (Bytes × Int × Bool × Int) × Option (Bytes × Bytes)) where
  epoch db := db.epoch id
  content db := db.content id

def trusted (fold : Bytes → Bytes) (db : ResumeDB) (id : Bytes) (piece : Nat) : Bool :=
  match db.owners.find id, db.checkpoints.find id with
  | some o, some r =>
    match decode fold r.payload with
    | .ok c => !o.invalidated && Bitmap.bit c.pieces piece && !Bitmap.bit r.revoked piece
    | .error _ => false
  | _, _ => false

end ResumeDB

inductive HeadStep (db db' : ResumeDB) (id : Bytes) (committed : Prop) : Prop where
  | bumped (hcheckpoint : db'.checkpoints.find id = db.checkpoints.find id)
    (head : Bumped (db.owners.find id) (db'.owners.find id))
  | created (hcheckpoint : db'.checkpoints.find id = db.checkpoints.find id) (o' : ResumeOwner)
    (ho : db.owners.find id = none) (ho' : db'.owners.find id = some o')
    (hinvalidated : o'.invalidated = true) (hepoch : 0 < o'.epoch)
  | revoked (o : ResumeOwner) (r r' : ResumeCheckpoint) (ho : db.owners.find id = some o)
    (ho' : db'.owners.find id = some { o with epoch := o.epoch + 1 })
    (hr : db.checkpoints.find id = some r) (hr' : db'.checkpoints.find id = some r')
    (hpayload : r'.payload = r.payload)
    (hrevoked : ∀ piece, Bitmap.bit r.revoked piece = true → Bitmap.bit r'.revoked piece = true)
  | committed (h : committed) (o o' : ResumeOwner) (ho : db.owners.find id = some o)
    (ho' : db'.owners.find id = some o') (hepoch : o.epoch < o'.epoch)

theorem HeadStep.same (ho : db'.owners.find id = db.owners.find id)
    (hc : db'.checkpoints.find id = db.checkpoints.find id) : HeadStep db db' id committed :=
  .bumped hc (.same ho)

theorem HeadStep.advances (h : HeadStep db db' id committed) : (headFence id).Advances db db' := by
  have hepoch : ∀ (db : ResumeDB) (o : ResumeOwner), db.owners.find id = some o →
      (headFence id).epoch db = o.epoch := by
    intro db o ho
    change ((db.owners.find id).map ResumeOwner.epoch).getD 0 = o.epoch
    rw [ho]
    rfl
  cases h with
  | bumped hc hb =>
    cases hb with
    | same ho =>
      apply Advances.of_eq
      · simp only [ResumeDB.headFence, ResumeDB.epoch, ho]
      · simp only [ResumeDB.headFence, ResumeDB.content, ho, hc]
    | fenced o o' ho ho' hi he =>
      apply Advances.of_lt
      rwa [hepoch db o ho, hepoch db' o' ho']
  | created hc o' ho ho' hi he =>
    apply Advances.of_lt
    rw [hepoch db' o' ho']
    simpa only [ResumeDB.headFence, ResumeDB.epoch, ho, Option.map_none, Option.getD_none] using he
  | revoked o r r' ho ho' hr hr' hp hrev =>
    apply Advances.of_lt
    rw [hepoch db o ho, hepoch db' _ ho']
    exact Int.lt_succ o.epoch
  | committed h o o' ho ho' he =>
    apply Advances.of_lt
    rwa [hepoch db o ho, hepoch db' o' ho']

theorem HeadStep.trusted (h : HeadStep db db' id committed) {piece : Nat}
    (hp : db'.trusted fold id piece = true) : db.trusted fold id piece = true ∨ committed := by
  have hinvalid : ∀ o', db'.owners.find id = some o' → o'.invalidated = false := by
    intro o' ho'
    unfold ResumeDB.trusted at hp
    rw [ho'] at hp
    split at hp
    next o r ho _ =>
      cases ho
      split at hp
      · simp only [Bool.and_eq_true, Bool.not_eq_true'] at hp
        exact hp.1.1
      · cases hp
    · cases hp
  cases h with
  | bumped hc hb =>
    cases hb with
    | same ho =>
      left
      unfold ResumeDB.trusted at hp ⊢
      rwa [ho, hc] at hp
    | fenced o o' ho ho' hi he =>
      rw [hinvalid o' ho'] at hi
      cases hi
  | created hc o' ho ho' hi he =>
    rw [hinvalid o' ho'] at hi
    cases hi
  | revoked o r r' ho ho' hr hr' hpayload hrevoked =>
    left
    unfold ResumeDB.trusted at hp ⊢
    simp only [ho, ho', hr, hr', hpayload] at hp ⊢
    split at hp
    · simp only [Bool.and_eq_true, Bool.not_eq_true'] at hp ⊢
      refine ⟨hp.1, ?_⟩
      by_contra hb
      have hb' := hrevoked piece (by simpa using hb)
      rw [hp.2] at hb'
      cases hb'
    · cases hp
  | committed h => exact .inr h

end TorrentHub
