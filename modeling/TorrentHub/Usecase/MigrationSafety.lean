import TorrentHub.Usecase.Coherence

namespace TorrentHub
open Lib StorageMapping

def Registered (c : MigrationContext) (t : MappingTable) (hash : Bytes) : Prop :=
  ∀ a ∈ c.aliases hash, (t.find a).isSome = true

structure Opened (c : MigrationContext) (m : StorageMapping) (journal : MigrationJournal)
    (row : StorageMapping) : Prop where
  read : row = m
  unreserved : m.state ≠ .reserved
  saved : m.manifest ≠ [] → c.decode m.manifest = some journal

structure Copying (c : MigrationContext) (t : MappingTable) (m : StorageMapping)
    (journal : MigrationJournal) (row : StorageMapping) : Prop where
  mirrors : row.Mirrors m
  moving : m.state = .moving
  journaled : m.manifest = c.encode journal
  resumed : m.version ≠ 0 → m.version = layoutVersion ∧ m.root = journal.root
  registered : Registered c t m.hash

structure Committed (c : MigrationContext) (t : MappingTable) (m row : StorageMapping) :
    Prop where
  mirrors : row.Mirrors m
  ready : m.state = .ready
  journaled : m.manifest ≠ []
  registered : Registered c t m.hash

def At (c : MigrationContext) (t : MappingTable) (w : Migration) (row : StorageMapping) : Prop :=
  match w.point with
  | .opened => Opened c w.m w.journal row
  | .claiming todo => Opened c w.m w.journal row ∧ ¬w.m.Settled ∧
    (∀ a ∈ todo, a ∈ c.aliases w.m.hash) ∧
      ∀ a ∈ c.aliases w.m.hash, a ∈ todo ∨ (t.find a).isSome = true
  | .copying => Copying c t w.m w.journal row
  | .cleaning => Committed c t w.m row
  | .registering todo => Committed c t w.m row ∧ ∀ a ∈ todo, a ∈ c.aliases w.m.hash
  | .failing => row.Mirrors w.m ∨
      ∃ m, Copying c t m w.journal row ∧ w.m = Migration.committed c { w with m }

structure Working (c : MigrationContext) (records : Bytes → Option Bytes) (t : MappingTable)
    (w : Migration) : Prop where
  owned : (records w.m.hash).isSome = true
  held : ∃ row, t.find w.m.hash = some row ∧ ¬row.Usable ∧ row.storageID = w.m.storageID ∧
    At c t w row

variable {c : MigrationContext} {s : AliasState} {w : Migration} {t t' : MappingTable}
  {records records' : Bytes → Option Bytes} {row m : StorageMapping}

theorem At.mono (h : At c t w row)
    (ht : ∀ k, (t.find k).isSome = true → (t'.find k).isSome = true) : At c t' w row := by
  unfold At at h ⊢
  cases hp : w.point with
  | opened =>
    rw [hp] at h
    exact h
  | claiming todo =>
    rw [hp] at h
    exact ⟨h.1, h.2.1, h.2.2.1, fun a ha => (h.2.2.2 a ha).imp_right (ht a)⟩
  | copying | cleaning =>
    rw [hp] at h
    exact { h with registered := fun a ha => ht a (h.registered a ha) }
  | registering todo =>
    rw [hp] at h
    exact ⟨{ h.1 with registered := fun a ha => ht a (h.1.registered a ha) }, h.2⟩
  | failing =>
    rw [hp] at h
    refine h.imp_right ?_
    rintro ⟨m, hm, heq⟩
    exact ⟨m, { hm with registered := fun a ha => ht a (hm.registered a ha) }, heq⟩

theorem Working.frame (h : Working c records t w)
    (hr : ∀ k, (records k).isSome = true → (records' k).isSome = true) (hgrows : Grows t t')
    (hrow : t'.find w.m.hash = t.find w.m.hash) : Working c records' t' w := by
  obtain ⟨row, hfind, hnot, hid, hat⟩ := h.held
  exact ⟨hr _ h.owned, row, hrow.trans hfind, hnot, hid, hat.mono fun _ => hgrows.isSome⟩

namespace AliasState

structure Sound (c : MigrationContext) (s : AliasState) : Prop where
  coherent : Coherent c s.records s.table
  planned : ∀ b ∈ s.plans, ∃ row, s.table.find b.hash = some row ∧ row.Usable
  working : ∀ w, s.worker = some w → Working c s.records s.table w

def Advances (c : MigrationContext) (s s' : AliasState) : Prop :=
  Sound c s' ∧ Grows s.table s'.table

section

variable (hs : Sound c s)
include hs

theorem Sound.advance {worker : Option Migration}
    (hc : Coherent c records t) (hgrows : Grows s.table t)
    (hw : ∀ w, worker = some w → Working c records t w) :
    Advances c s ⟨t, records, s.plans, worker⟩ := by
  refine ⟨⟨hc, ?_, hw⟩, hgrows⟩
  intro b hb
  obtain ⟨row, hrow, husable⟩ := hs.planned b hb
  obtain ⟨row', hrow', -, -, hkeeps⟩ := hgrows _ row hrow
  exact ⟨row', hrow', hkeeps husable⟩

theorem Sound.refl : Advances c s s := ⟨hs, Grows.refl _⟩

theorem Sound.stop : Advances c s { s with worker := none } :=
  hs.advance hs.coherent (Grows.refl _) fun _ hw => nomatch hw

theorem Sound.resume (hw : Working c s.records s.table w) :
    Advances c s { s with worker := some w } := by
  refine hs.advance hs.coherent (Grows.refl _) ?_
  rintro w' ⟨⟩
  exact hw

theorem Sound.failed (hw : Working c s.records s.table w) : Advances c s (s.failed w) := by
  obtain ⟨row, hfind, hnot, hid, hat⟩ := hw.held
  have hfailing : row.Mirrors w.m ∨
      (∃ m, Copying c s.table m w.journal row ∧ w.m = Migration.committed c { w with m }) →
      Advances c s { s with worker := some { w with point := .failing } } :=
    fun h => hs.resume ⟨hw.owned, row, hfind, hnot, hid, h⟩
  unfold AliasState.failed
  unfold At at hat
  cases hp : w.point with
  | opened | claiming todo => exact hs.stop
  | copying | cleaning =>
    rw [hp] at hat
    exact hfailing (.inl hat.mirrors)
  | registering todo =>
    rw [hp] at hat
    exact hfailing (.inl hat.1.mirrors)
  | failing =>
    rw [hp] at hat
    exact hfailing hat

end

section

variable (h : Coherent c records t)
include h

theorem save_mirrored (hfind : t.find m.hash = some row)
    (hrecord : (records m.hash).isSome = true) (hnot : ¬row.Usable) (hmirrors : row.Mirrors m)
    (hsave : t.saveStorageMapping m = some t') :
    Coherent c records t' ∧ Grows t t' ∧ t'.find m.hash = some row := by
  have heq := hmirrors.written_eq
  have hkey : row.hash = m.hash := Table.find_key hfind
  have hversion : m.version = row.version := by rw [hmirrors]
  have hroot : m.root = row.root := by rw [hmirrors]
  have hsettled : m.Settled ↔ row.Settled := by
    rw [hmirrors]
    exact Iff.rfl
  have hsaved := h.save_owner hfind hrecord hsave hnot (by rw [hmirrors]) (by rw [heq])
    (by rw [heq]; exact h.row _ row hfind) ?_ ?_
  · rw [heq] at hsaved
    exact hsaved
  · intro l y hl hy hid
    rw [hversion, hroot]
    exact (h.agree _ row l y hfind hy hl.symm hid).placed
  · intro l y hl hy hid hns
    refine (h.agree _ row l y hfind hy hl.symm hid).behind ?_ fun hs => hns (hsettled.2 hs)
    rw [hkey]
    exact hrecord

theorem save_committed (hfind : t.find w.m.hash = some row)
    (hrecord : (records w.m.hash).isSome = true) (hnot : ¬row.Usable)
    (hcopy : Copying c t w.m w.journal row)
    (hsave : t.saveStorageMapping (w.committed c) = some t') :
    Coherent c records t' ∧ Grows t t' ∧ t'.find w.m.hash = some (row.written (w.committed c)) := by
  have hkey : row.hash = w.m.hash := Table.find_key hfind
  have hrow := h.row _ row hfind
  have hversion : row.version = w.m.version := by rw [hcopy.mirrors]
  have hroot : row.root = w.m.root := by rw [hcopy.mirrors]
  have hpre : row.layoutPrefix = w.m.layoutPrefix := by rw [hcopy.mirrors]
  have hns : ¬row.Settled := by
    rw [hcopy.mirrors]
    unfold Settled
    rw [hcopy.moving]
    simp
  have hothers : ∀ l y, l ≠ w.m.hash → t.find l = some y → row.storageID = y.storageID →
      y.version = 0 := by
    intro l y hl hy hid
    refine (h.agree _ row l y hfind hy hl.symm hid).behind ?_ hns
    rw [hkey]
    exact hrecord
  have hdue : (row.written (w.committed c)).due = row.due := by
    by_cases hzero : row.version = 0
    · exact due_written_of_advance hzero (by change layoutVersion ≠ 0; decide)
    obtain ⟨hv, hr⟩ := hcopy.resumed (hversion ▸ hzero)
    refine due_written_of_layout ?_
    rw [layout, layout, hversion, hv, hroot, hr, hpre]
    rfl
  refine h.save_owner (m := w.committed c) hfind hrecord hsave hnot hpre.symm hdue ?_
    (fun l y hl hy hid _ hv => absurd (hothers l y hl hy hid) hv)
    fun _ _ _ _ _ hns => absurd (.inl rfl) hns
  exact {
      identified := hrow.identified, counted := counted_written hrow.counted _
      laid := fun _ => by change layoutVersion ≠ 0; decide
      unwritten := by rintro ⟨⟩
      journal := fun _ _ => ⟨rfl, c.decode_encode w.journal, by
        intro a ha
        exact hcopy.registered a (hkey ▸ ha)⟩
      interrupted := fun hns => absurd (.inl rfl) hns
      owned := fun _ => by
        change (records row.hash).isSome = true
        rw [hkey]
        exact hrecord }

theorem save_workflow (hfind : t.find m.hash = some row)
    (hrecord : (records m.hash).isSome = true) (hnot : ¬row.Usable)
    (hlayout : m.layout = row.layout)
    (hsave : t.saveStorageMapping m = some t')
    (hunreserved : m.state ≠ .reserved) (hlaid : m.Settled → m.version ≠ 0)
    (hjournal : m.manifest ≠ [] → m.version ≠ 0 → m.version = layoutVersion ∧
      c.decode m.manifest = some ⟨m.root⟩ ∧ Registered c t m.hash)
    (hinterrupted : ¬m.Settled → m.version ≠ 0 → m.manifest ≠ [])
    (hbehind : ∀ l y, l ≠ m.hash → t.find l = some y → row.storageID = y.storageID →
      ¬m.Settled → y.version = 0) :
    Coherent c records t' ∧ Grows t t' ∧ t'.find m.hash = some (row.written m) := by
  have hkey : row.hash = m.hash := Table.find_key hfind
  have hrow := h.row _ row hfind
  have hversion : m.version = row.version := congrArg Layout.version hlayout
  have hroot : m.root = row.root := congrArg Layout.root hlayout
  refine h.save_owner hfind hrecord hsave hnot (congrArg Layout.layoutPrefix hlayout)
    (due_written_of_layout hlayout) ?_ ?_ hbehind
  · exact {
        identified := hrow.identified, counted := counted_written hrow.counted _, laid := hlaid
        unwritten := fun hreserved => absurd hreserved hunreserved
        journal := fun hm hv => by
          obtain ⟨h1, h2, h3⟩ := hjournal hm hv
          refine ⟨h1, h2, ?_⟩
          intro a ha
          exact h3 a (hkey ▸ ha)
        interrupted := hinterrupted
        owned := fun _ => by
          change (records row.hash).isSome = true
          rw [hkey]
          exact hrecord }
  · intro l y hl hy hid
    rw [hversion, hroot]
    exact (h.agree _ row l y hfind hy hl.symm hid).placed

end

/-- A migration is not blocked once an alias of its mapping is registered under the layout that the
mapping has. -/
def Unadvanced (s : AliasState) (a : AliasAction) : Prop :=
  a = .block → ∀ w ∈ s.worker, w.m.state = .ready → ∀ row ∈ s.table.rows,
    row.storageID = w.m.storageID → row.hash ≠ w.m.hash → row.version = 0

instance (s : AliasState) (a : AliasAction) : Decidable (s.Unadvanced a) :=
  inferInstanceAs (Decidable (a = .block → ∀ w ∈ s.worker, w.m.state = .ready →
    ∀ row ∈ s.table.rows, row.storageID = w.m.storageID → row.hash ≠ w.m.hash → row.version = 0))

end AliasState

end TorrentHub
