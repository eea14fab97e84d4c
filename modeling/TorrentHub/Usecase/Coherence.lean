import TorrentHub.Usecase.Migration

namespace TorrentHub
open Lib Function Table StorageMapping Layout Option

namespace StorageMapping

def Settled (row : StorageMapping) : Prop := row.state = .ready ∨ row.state = .reserved

def IsReady (row : StorageMapping) : Prop := row.state = .ready ∧ row.manifest = []

instance (row : StorageMapping) : Decidable row.IsReady :=
  inferInstanceAs (Decidable (row.state = .ready ∧ row.manifest = []))

def Usable (row : StorageMapping) : Prop := row.Settled ∧ row.manifest = []

/-- The revision of the row at a layout of its own: a row at version zero has one change still to
come. -/
def due (row : StorageMapping) : Int := row.revision + if row.version = 0 then 1 else 0

def Mirrors (row m : StorageMapping) : Prop := row = { m with revision := row.revision }

variable {row m : StorageMapping}

theorem revision_of_layouts (a b : Layout) (n : Int) :
    (if a = b then n else n + 1) = n + if b = a then 0 else 1 := by
  by_cases h : a = b
  · rw [if_pos h, if_pos h.symm, Int.add_zero]
  · rw [if_neg h, if_neg fun hb => h hb.symm]

theorem written_revision (row m : StorageMapping) :
    (row.written m).revision = row.revision + if m.layout = row.layout then 0 else 1 :=
  revision_of_layouts row.layout m.layout row.revision

theorem relocate_revision (row : StorageMapping) (next : Layout) :
    (row.relocate next).revision = row.revision + if next = row.layout then 0 else 1 :=
  revision_of_layouts row.layout next row.revision

theorem Mirrors.written_eq (h : row.Mirrors m) : row.written m = row := by
  have hrev := written_revision row m
  have hlayout : m.layout = row.layout := by rw [h]; rfl
  rw [if_pos hlayout, Int.add_zero] at hrev
  calc row.written m
      = { m with hash := row.hash, storageID := row.storageID
                 revision := (row.written m).revision } := rfl
    _ = { m with hash := row.hash, storageID := row.storageID, revision := row.revision } := by
        rw [hrev]
    _ = row := by rw [h]

theorem due_written_of_layout (h : m.layout = row.layout) : (row.written m).due = row.due := by
  have hversion : m.version = row.version := congrArg Layout.version h
  rw [due, due, written_revision, if_pos h, Int.add_zero]
  change row.revision + (if m.version = 0 then 1 else 0) = _
  rw [hversion]

theorem due_written_of_advance (h : row.version = 0) (hm : m.version ≠ 0) :
    (row.written m).due = row.due := by
  have hlayout : m.layout ≠ row.layout := by
    intro heq
    exact hm ((congrArg Layout.version heq).trans h)
  rw [due, due, written_revision, if_neg hlayout, if_pos h]
  change row.revision + 1 + (if m.version = 0 then 1 else 0) = _
  rw [if_neg hm, Int.add_zero]

theorem counted_written (h : 1 ≤ row.revision) (m : StorageMapping) :
    1 ≤ (row.written m).revision := by
  rw [written_revision]
  split <;> omega

theorem mirrors_written (hhash : row.hash = m.hash) (hid : row.storageID = m.storageID) :
    (row.written m).Mirrors m := by
  change { m with hash := row.hash, storageID := row.storageID
                  revision := (row.written m).revision } = _
  rw [hhash, hid]

end StorageMapping

open StorageMapping

structure RowSound (c : MigrationContext) (records : Bytes → Option Bytes) (t : MappingTable)
    (row : StorageMapping) : Prop where
  identified : row.storageID ≠ []
  counted : 1 ≤ row.revision
  laid : row.Settled → row.version ≠ 0
  unwritten : row.state = .reserved → row.manifest = []
  journal : row.manifest ≠ [] → row.version ≠ 0 → row.version = layoutVersion ∧
    c.decode row.manifest = some ⟨row.root⟩ ∧ ∀ a ∈ c.aliases row.hash, (t.find a).isSome = true
  interrupted : ¬row.Settled → row.version ≠ 0 → row.manifest ≠ []
  owned : row.manifest ≠ [] → (records row.hash).isSome = true

structure Agree (records : Bytes → Option Bytes) (x y : StorageMapping) : Prop where
  due : x.due = y.due
  prefixed : x.layoutPrefix = y.layoutPrefix
  placed : x.version ≠ 0 → y.version ≠ 0 → x.version = y.version ∧ x.root = y.root
  behind : (records x.hash).isSome = true → ¬x.Settled → y.version = 0
  sole : (records x.hash).isSome = true → records y.hash = none

structure Coherent (c : MigrationContext) (records : Bytes → Option Bytes) (t : MappingTable) :
    Prop where
  row : ∀ k x, t.find k = some x → RowSound c records t x
  agree : ∀ k x l y, t.find k = some x → t.find l = some y → k ≠ l → x.storageID = y.storageID →
    Agree records x y
  stored : ∀ k, (records k).isSome = true → (t.find k).isSome = true

def Grows (t t' : MappingTable) : Prop :=
  ∀ k x, t.find k = some x → ∃ x', t'.find k = some x' ∧ x'.storageID = x.storageID ∧
    x'.revision = x.revision + (if x'.layout = x.layout then 0 else 1) ∧ (x.Usable → x'.Usable)

variable {c : MigrationContext} {records records' : Bytes → Option Bytes} {t t' : MappingTable}
  {row m x y : StorageMapping} {k l : Bytes} {o : StorageMapping}

theorem Grows.refl (t : MappingTable) : Grows t t := by
  intro k x hx
  exact ⟨x, hx, rfl, by simp, id⟩

theorem Grows.isSome (h : Grows t t') (hk : (t.find k).isSome = true) :
    (t'.find k).isSome = true := by
  obtain ⟨x, hx⟩ := isSome_iff_exists.1 hk
  obtain ⟨x', hx', -⟩ := h k x hx
  rw [hx']
  rfl

theorem RowSound.mono (h : RowSound c records t row)
    (ht : ∀ k, (t.find k).isSome = true → (t'.find k).isSome = true)
    (hr : ∀ k, (records k).isSome = true → (records' k).isSome = true) :
    RowSound c records' t' row := by
  refine { h with journal := ?_, owned := fun hm => hr _ (h.owned hm) }
  intro hm hv
  obtain ⟨hversion, hdecode, haliases⟩ := h.journal hm hv
  exact ⟨hversion, hdecode, fun a ha => ht a (haliases a ha)⟩

namespace MappingTable.Writes

theorem find_self (hw : Writes t t' row) : t'.find row.hash = some row := by
  rw [hw, if_pos rfl]

theorem find_ne (hw : Writes t t' row) (hk : k ≠ row.hash) : t'.find k = t.find k := by
  rw [hw, if_neg hk]

theorem grows_insert (hw : Writes t t' row) (hnone : t.find row.hash = none) : Grows t t' := by
  intro k x hx
  have hk : k ≠ row.hash := by
    rintro rfl
    rw [hnone] at hx
    cases hx
  exact ⟨x, (hw.find_ne hk).trans hx, rfl, by simp, id⟩

theorem grows_written (hw : Writes t t' (x.written m)) (hx : t.find x.hash = some x)
    (husable : x.Usable → (x.written m).Usable) : Grows t t' := by
  intro k y hy
  by_cases hk : k = x.hash
  · rw [hk, hx] at hy
    cases hy
    exact ⟨x.written m, hk ▸ hw.find_self, rfl, written_revision x m, husable⟩
  · exact ⟨y, (hw.find_ne hk).trans hy, rfl, by simp, id⟩

end MappingTable.Writes

namespace Coherent

section

variable (h : Coherent c records t)
include h

theorem write (hw : t.Writes t' row) (hgrows : Grows t t') (hrow : RowSound c records t' row)
    (hagree : ∀ l y, l ≠ row.hash → t.find l = some y → row.storageID = y.storageID →
      Agree records row y ∧ Agree records y row) : Coherent c records t' := by
  refine ⟨?_, ?_, fun k hk => hgrows.isSome (h.stored k hk)⟩
  · intro k x hx
    rw [hw] at hx
    split at hx
    · cases hx
      exact hrow
    · exact (h.row k x hx).mono (fun _ => hgrows.isSome) fun _ => id
  intro k x l y hx hy hkl hid
  rw [hw] at hx hy
  split at hx
  next hk =>
    cases hx
    rw [if_neg (hk ▸ hkl.symm)] at hy
    exact (hagree l y (hk ▸ hkl.symm) hy hid).1
  next hk =>
  split at hy
  · cases hy
    exact (hagree k x hk hx hid.symm).2
  · exact h.agree k x l y hx hy hkl hid

theorem agree_of (hx : t.find k = some x) (hy : t.find l = some y)
    (hkl : k ≠ l) (hid : x.storageID = y.storageID) (hhash : row.hash = x.hash)
    (hdue : row.due = x.due) (hpre : row.layoutPrefix = x.layoutPrefix)
    (hplaced : row.version ≠ 0 → y.version ≠ 0 → row.version = y.version ∧ row.root = y.root)
    (hbehind : (records x.hash).isSome = true → ¬row.Settled → y.version = 0)
    (hbehind' : (records y.hash).isSome = true → ¬y.Settled → row.version = 0) :
    Agree records row y ∧ Agree records y row := by
  have hxy := h.agree k x l y hx hy hkl hid
  have hyx := h.agree l y k x hy hx hkl.symm hid.symm
  refine ⟨⟨hdue.trans hxy.due, hpre.trans hxy.prefixed, hplaced, ?_, ?_⟩,
    ⟨hyx.due.trans hdue.symm, hyx.prefixed.trans hpre.symm, ?_, hbehind', ?_⟩⟩
  · rw [hhash]
    exact hbehind
  · rw [hhash]
    exact hxy.sole
  · intro hvy hvr
    obtain ⟨hv, hr⟩ := hplaced hvr hvy
    exact ⟨hv.symm, hr.symm⟩
  · rw [hhash]
    exact hyx.sole

theorem ready_agree (hx : t.find k = some x) (hy : t.find l = some y)
    (hid : x.storageID = y.storageID) (hxs : x.Settled) (hys : y.Settled) :
    x.layout = y.layout ∧ x.revision = y.revision := by
  by_cases hkl : k = l
  · rw [hkl, hy] at hx
    cases hx
    exact ⟨rfl, rfl⟩
  have hxy := h.agree k x l y hx hy hkl hid
  have hvx := (h.row k x hx).laid hxs
  have hvy := (h.row l y hy).laid hys
  obtain ⟨hversion, hroot⟩ := hxy.placed hvx hvy
  have hdue := hxy.due
  rw [due, due, if_neg hvx, if_neg hvy, Int.add_zero, Int.add_zero] at hdue
  refine ⟨?_, hdue⟩
  rw [layout, layout, hversion, hroot, hxy.prefixed]

theorem publish (hk : t.find k = some x) (id : Bytes)
    (hnone : ∀ l y, t.find l = some y → y.storageID = x.storageID → records l = none)
    (hbehind : ∀ l y, l ≠ k → t.find l = some y → y.storageID = x.storageID → ¬x.Settled →
      y.version = 0) : Coherent c (Function.update records k (some id)) t := by
  have hmono : ∀ l, (records l).isSome = true → (update records k (some id) l).isSome = true := by
    intro l hl
    by_cases hlk : l = k
    · rw [hlk, update_self]
      rfl
    rw [update_of_ne hlk]
    exact hl
  refine ⟨fun l y hy => (h.row l y hy).mono (fun _ hs => hs) hmono, ?_, ?_⟩
  · intro k' x' l y hx' hy hkl hid
    have hxy := h.agree k' x' l y hx' hy hkl hid
    have hkey : x'.hash = k' := find_key hx'
    have hkey' : y.hash = l := find_key hy
    by_cases hk' : k' = k
    · rw [hk', hk] at hx'
      cases hx'
      have hlk : l ≠ k := hk' ▸ hkl.symm
      refine { hxy with behind := fun _ hs => hbehind l y hlk hy hid.symm hs, sole := ?_ }
      intro _
      rw [hkey', update_of_ne hlk]
      exact hnone l y hy hid.symm
    refine { hxy with behind := ?_, sole := ?_ }
    · rw [hkey, update_of_ne hk', ← hkey]
      exact hxy.behind
    rw [hkey, update_of_ne hk', hkey']
    intro hrecord
    have hlk : l ≠ k := by
      rintro rfl
      rw [hk] at hy
      cases hy
      rw [hnone k' x' hx' hid] at hrecord
      cases hrecord
    rw [update_of_ne hlk, ← hkey']
    rw [← hkey] at hrecord
    exact hxy.sole hrecord
  · intro l hl
    by_cases hlk : l = k
    · rw [hlk, hk]
      rfl
    rw [update_of_ne hlk] at hl
    exact h.stored l hl

theorem insert_fresh (hw : t.Writes t' row) (hnone : t.find row.hash = none)
    (hfresh : ∀ l y, t.find l = some y → y.storageID ≠ row.storageID)
    (hrow : RowSound c records t' row) : Coherent c records t' := by
  refine h.write hw (hw.grows_insert hnone) hrow ?_
  intro l y _ hy hid
  exact absurd hid.symm (hfresh l y hy)

theorem no_record (hnone : t.find k = none) : records k = none := by
  cases hk : records k with
  | none => rfl
  | some id =>
    have hsome := h.stored k (by rw [hk]; rfl)
    rw [hnone] at hsome
    cases hsome

end

theorem claim {owner : Bytes} (h : Coherent c records t)
    (hx : t.find owner = some x) (hnone : t.find k = none) (hs : x.Settled)
    (hw : t.Writes t' { x with hash := k, manifest := [] }) : Coherent c records t' := by
  have hgrows := hw.grows_insert hnone
  have hrx := h.row owner x hx
  have hkey : x.hash = owner := find_key hx
  have hrecord : records k = none := h.no_record hnone
  refine h.write hw hgrows ?_ ?_
  · exact {
        identified := hrx.identified, counted := hrx.counted, laid := hrx.laid
        unwritten := fun _ => rfl
        journal := fun hm => absurd rfl hm
        interrupted := fun hns => absurd hs hns
        owned := fun hm => absurd rfl hm }
  intro l y hl hy hid
  by_cases hlo : l = owner
  · rw [hlo, hx] at hy
    cases hy
    refine ⟨⟨rfl, rfl, fun _ _ => ⟨rfl, rfl⟩, fun hr => ?_, fun hr => ?_⟩,
      ⟨rfl, rfl, fun _ _ => ⟨rfl, rfl⟩, fun _ hns => absurd hs hns, fun _ => hrecord⟩⟩
    · rw [hrecord] at hr
      cases hr
    · rw [hrecord] at hr
      cases hr
  have hxy := h.agree owner x l y hx hy (Ne.symm hlo) hid
  have hyx := h.agree l y owner x hy hx hlo hid.symm
  refine ⟨⟨hxy.due, hxy.prefixed, hxy.placed, fun hr => ?_, fun hr => ?_⟩,
    ⟨hyx.due, hyx.prefixed, hyx.placed, hyx.behind, fun _ => hrecord⟩⟩
  · rw [hrecord] at hr
    cases hr
  · rw [hrecord] at hr
    cases hr

theorem relocate {before : StorageMapping} {next : Layout} (h : Coherent c records t)
    (hset : t.setStorageLayout before next = .ok t')
    (hjournal : ∀ k x, t.find k = some x → x.storageID = before.storageID → x.manifest = []) :
    Coherent c records t' ∧ Grows t t' := by
  obtain ⟨hvalid, -, hall, hfind⟩ := MappingTable.setStorageLayout_ok hset
  have hversion : next.version ≠ 0 := by
    intro hzero
    have hsupported := supported_of_validate hvalid
    rw [hzero] at hsupported
    exact absurd hsupported (by decide)
  have hgrows : Grows t t' := by
    intro k x hx
    by_cases hid : x.storageID = before.storageID
    · refine ⟨x.relocate next, ?_, rfl, relocate_revision x next, fun hu => ⟨.inl rfl, hu.2⟩⟩
      rw [hfind, hx, map_some, if_pos hid]
    refine ⟨x, ?_, rfl, by simp, fun hu => hu⟩
    rw [hfind, hx, map_some, if_neg hid]
  have hinv : ∀ k x, t'.find k = some x → ∃ x₀, t.find k = some x₀ ∧
      x = if x₀.storageID = before.storageID then x₀.relocate next else x₀ := by
    intro k x hx
    rw [hfind] at hx
    obtain ⟨x₀, hx₀, rfl⟩ := map_eq_some_iff.1 hx
    exact ⟨x₀, hx₀, rfl⟩
  refine ⟨⟨?_, ?_, fun k hk => hgrows.isSome (h.stored k hk)⟩, hgrows⟩
  · intro k x hx
    obtain ⟨x₀, hx₀, rfl⟩ := hinv k x hx
    have hrow := (h.row k x₀ hx₀).mono (fun _ => hgrows.isSome) fun _ hs => hs
    split
    next hid =>
      have hempty : x₀.manifest = [] := hjournal k x₀ hx₀ hid
      refine ⟨hrow.identified, ?_, fun _ => hversion, fun _ => hempty, fun hm => absurd hempty hm,
        fun hns => absurd (.inl rfl) hns, fun hm => absurd hempty hm⟩
      have hcounted := hrow.counted
      rw [relocate_revision]
      split <;> omega
    · exact hrow
  intro k x l y hx hy hkl hid
  obtain ⟨x₀, hx₀, rfl⟩ := hinv k x hx
  obtain ⟨y₀, hy₀, rfl⟩ := hinv l y hy
  by_cases hxid : x₀.storageID = before.storageID
  · by_cases hyid : y₀.storageID = before.storageID
    · rw [if_pos hxid, if_pos hyid]
      obtain ⟨hlx, hrx⟩ := hall k x₀ hx₀ hxid
      obtain ⟨hly, hry⟩ := hall l y₀ hy₀ hyid
      refine ⟨?_, rfl, fun _ _ => ⟨rfl, rfl⟩, fun _ hns => absurd (.inl rfl) hns,
        (h.agree k x₀ l y₀ hx₀ hy₀ hkl (hxid.trans hyid.symm)).sole⟩
      rw [due, due, relocate_revision, relocate_revision, hlx, hly, hrx, hry]
      rfl
    · rw [if_pos hxid, if_neg hyid] at hid
      exact absurd (hid.symm.trans hxid) hyid
  · by_cases hyid : y₀.storageID = before.storageID
    · rw [if_neg hxid, if_pos hyid] at hid
      exact absurd (hid.trans hyid) hxid
    · rw [if_neg hxid, if_neg hyid] at hid ⊢
      exact h.agree k x₀ l y₀ hx₀ hy₀ hkl hid

section

variable (h : Coherent c records t)
include h

theorem save_owner (hfind : t.find m.hash = some row)
    (hrecord : (records m.hash).isSome = true) (hsave : t.saveStorageMapping m = some t')
    (hnot : ¬row.Usable) (hpre : m.layoutPrefix = row.layoutPrefix)
    (hdue : (row.written m).due = row.due) (hrow : RowSound c records t (row.written m))
    (hplaced : ∀ l y, l ≠ m.hash → t.find l = some y → row.storageID = y.storageID →
      m.version ≠ 0 → y.version ≠ 0 → m.version = y.version ∧ m.root = y.root)
    (hbehind : ∀ l y, l ≠ m.hash → t.find l = some y → row.storageID = y.storageID →
      ¬m.Settled → y.version = 0) :
    Coherent c records t' ∧ Grows t t' ∧ t'.find m.hash = some (row.written m) := by
  have hkey : row.hash = m.hash := find_key hfind
  have hw := MappingTable.saveStorageMapping_some hfind hsave
  have hgrows := hw.grows_written (hkey.symm ▸ hfind) fun hu => absurd hu hnot
  refine ⟨?_, hgrows, hkey ▸ hw.find_self⟩
  refine h.write hw hgrows (hrow.mono (fun _ => hgrows.isSome) fun _ hs => hs) ?_
  intro l y hl hy hid
  have hlm : l ≠ m.hash := hkey ▸ hl
  refine h.agree_of hfind hy hlm.symm hid rfl hdue hpre (hplaced l y hlm hy hid)
    (fun _ => hbehind l y hlm hy hid) ?_
  intro hother _
  have hsole := (h.agree l y m.hash row hy hfind hlm hid.symm).sole hother
  rw [hkey] at hsole
  rw [hsole] at hrecord
  cases hrecord

theorem insert_alias (ho : t.find k = some o)
    (hw : t.Writes t' row) (hnone : t.find row.hash = none)
    (hid : row.storageID = o.storageID) (hpre : row.layoutPrefix = o.layoutPrefix)
    (hmanifest : row.manifest = []) (hversion : row.version = 0) (hns : ¬row.Settled)
    (hoversion : o.version = 0) (hrevision : row.revision = o.revision) :
    Coherent c records t' ∧ Grows t t' := by
  have hgrows := hw.grows_insert hnone
  have hrecord : records row.hash = none := h.no_record hnone
  have hro := h.row k o ho
  have hdue : row.due = o.due := by
    rw [due, due, hversion, hoversion, hrevision]
  have hrow : RowSound c records t' row := {
      identified := hid ▸ hro.identified
      counted := hrevision ▸ hro.counted
      laid := fun hs => absurd hs hns
      unwritten := fun _ => hmanifest
      journal := fun hm => absurd hmanifest hm
      interrupted := fun _ hv => absurd hversion hv
      owned := fun hm => absurd hmanifest hm }
  refine ⟨h.write hw hgrows hrow ?_, hgrows⟩
  intro l y _ hy hyid
  have hboth : y.due = o.due ∧ y.layoutPrefix = o.layoutPrefix := by
    by_cases hlk : l = k
    · rw [hlk, ho] at hy
      cases hy
      exact ⟨rfl, rfl⟩
    · have hyo := h.agree l y k o hy ho hlk (hyid.symm.trans hid)
      exact ⟨hyo.due, hyo.prefixed⟩
  refine ⟨⟨hdue.trans hboth.1.symm, hpre.trans hboth.2.symm, fun hv => absurd hversion hv,
      fun hr => ?_, fun hr => ?_⟩,
    ⟨hboth.1.trans hdue.symm, hboth.2.trans hpre.symm, fun _ hv => absurd hversion hv,
      fun _ _ => hversion, fun _ => hrecord⟩⟩
  · rw [hrecord] at hr
    cases hr
  · rw [hrecord] at hr
    cases hr

theorem claim_alias (ho : t.find k = some o)
    (hrecord : (records k).isSome = true) (hos : ¬o.Settled) (hne : m.hash ≠ k)
    (hx : t.find m.hash = some x) (hid : x.storageID = o.storageID) (hroot : x.root = m.root)
    (hpre : m.layoutPrefix = o.layoutPrefix) (hmanifest : m.manifest = [])
    (hversion : m.version = 0)
    (hns : ¬m.Settled) (hw : t.Writes t' (x.written m)) : Coherent c records t' ∧ Grows t t' := by
  have hkey : x.hash = m.hash := find_key hx
  have hokey : o.hash = k := find_key ho
  have hox := h.agree k o m.hash x ho hx hne.symm hid.symm
  have hxversion : x.version = 0 := hox.behind (hokey.symm ▸ hrecord) hos
  have hlayout : m.layout = x.layout := by
    rw [layout, layout, hversion, hxversion, hroot, hpre, hox.prefixed]
  have hxns : ¬x.Settled := fun hs => (h.row _ x hx).laid hs hxversion
  have hgrows := hw.grows_written (hkey.symm ▸ hx) fun hu => absurd hu.1 hxns
  have hrx := h.row _ x hx
  have hrow : RowSound c records t' (x.written m) := {
      identified := hrx.identified
      counted := counted_written hrx.counted m
      laid := fun hs => absurd hs hns
      unwritten := fun _ => hmanifest
      journal := fun hm => absurd hmanifest hm
      interrupted := fun _ hv => absurd hversion hv
      owned := fun hm => absurd hmanifest hm }
  refine ⟨h.write hw hgrows hrow ?_, hgrows⟩
  intro l y hl hy hyid
  have hlm : m.hash ≠ l := fun heq => hl (heq ▸ hkey.symm)
  refine h.agree_of hx hy hlm hyid rfl (due_written_of_layout hlayout)
    (hpre.trans hox.prefixed) (fun hv => absurd hversion hv) ?_ fun _ _ => hversion
  intro hr
  rw [hox.sole (hokey.symm ▸ hrecord)] at hr
  cases hr

theorem register_alias (ho : t.find k = some o)
    (hrecord : (records k).isSome = true) (hos : o.Settled) (hne : m.hash ≠ k)
    (hx : t.find m.hash = some x) (hid : x.storageID = o.storageID) (hroot : x.root = m.root)
    (hlayout : m.layout = o.layout) (hmanifest : m.manifest = []) (hms : m.Settled)
    (hw : t.Writes t' (x.written m)) : Coherent c records t' ∧ Grows t t' := by
  have hkey : x.hash = m.hash := find_key hx
  have hokey : o.hash = k := find_key ho
  have hox := h.agree k o m.hash x ho hx hne.symm hid.symm
  have hversion : m.version = o.version := congrArg Layout.version hlayout
  have hmroot : m.root = o.root := congrArg Layout.root hlayout
  have hpre : m.layoutPrefix = o.layoutPrefix := congrArg Layout.layoutPrefix hlayout
  have hoversion : o.version ≠ 0 := (h.row k o ho).laid hos
  have hmversion : m.version ≠ 0 := hversion ▸ hoversion
  have hrx := h.row _ x hx
  have hdue : (x.written m).due = x.due := by
    by_cases hxversion : x.version = 0
    · exact due_written_of_advance hxversion hmversion
    refine due_written_of_layout ?_
    rw [layout, layout, hversion, hroot, hpre, hox.prefixed, (hox.placed hoversion hxversion).1]
  have hgrows := hw.grows_written (hkey.symm ▸ hx) fun _ => ⟨hms, hmanifest⟩
  have hrow : RowSound c records t' (x.written m) := {
      identified := hrx.identified
      counted := counted_written hrx.counted m
      laid := fun _ => hmversion
      unwritten := fun _ => hmanifest
      journal := fun hm => absurd hmanifest hm
      interrupted := fun hns => absurd hms hns
      owned := fun hm => absurd hmanifest hm }
  refine ⟨h.write hw hgrows hrow ?_, hgrows⟩
  intro l y hl hy hyid
  have hlm : m.hash ≠ l := fun heq => hl (heq ▸ hkey.symm)
  have howner : (y.version ≠ 0 → o.version = y.version ∧ o.root = y.root) ∧
      ((records y.hash).isSome = true → ¬y.Settled → False) := by
    by_cases hlk : l = k
    · rw [hlk, ho] at hy
      cases hy
      exact ⟨fun _ => ⟨rfl, rfl⟩, fun _ hns => hns hos⟩
    have hoy := h.agree k o l y ho hy (Ne.symm hlk) (hid.symm.trans hyid)
    refine ⟨hoy.placed hoversion, fun hr _ => ?_⟩
    rw [hoy.sole (hokey.symm ▸ hrecord)] at hr
    cases hr
  refine h.agree_of hx hy hlm hyid rfl hdue (hpre.trans hox.prefixed) ?_
    (fun _ hns => absurd hms hns) fun hr hns => (howner.2 hr hns).elim
  intro _ hyversion
  obtain ⟨hv, hr⟩ := howner.1 hyversion
  exact ⟨hversion.trans hv, hmroot.trans hr⟩

end

end Coherent

end TorrentHub
