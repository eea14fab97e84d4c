import TorrentHub.Usecase.MigrationSafety

namespace TorrentHub
open Lib StorageMapping List Table MappingTable AliasState Migration

namespace AliasState

variable {c : MigrationContext} {s : AliasState} {w : Migration} {t t' : MappingTable}
  {row m : StorageMapping} {hash : Bytes} {rest : List Bytes}

section

variable (hs : Sound c s)
include hs

theorem Sound.block (hworker : s.worker = some w) (hpoint : w.point = .opened)
    (hclear : s.Unadvanced .block) (hsave : s.table.saveStorageMapping w.blocked = some t') :
    Advances c s { s with table := t', worker := none } := by
  have hw := hs.working w hworker
  obtain ⟨row, hfind, hnot, -, hat⟩ := hw.held
  unfold At at hat
  rw [hpoint] at hat
  obtain ⟨rfl, hunreserved, -⟩ := hat
  have hrow := hs.coherent.row _ _ hfind
  have hmanifest : w.m.version ≠ 0 → w.m.manifest ≠ [] := by
    intro hv hm
    by_cases hset : w.m.Settled
    · exact hnot ⟨hset, hm⟩
    · exact hrow.interrupted hset hv hm
  have hsaved := save_workflow (m := w.blocked) hs.coherent hfind hw.owned hnot rfl hsave
    (fun h => nomatch h) (fun hset => absurd hset (by simp [Settled, blocked])) hrow.journal
    (fun _ => hmanifest) ?_
  · exact hs.advance hsaved.1 hsaved.2.1 fun _ h => nomatch h
  · intro l y hl hy hid _
    by_cases hready : w.m.state = .ready
    · have hkey : y.hash = l := find_key hy
      exact hclear rfl w hworker hready y (find_mem hy) hid.symm (hkey ▸ hl)
    refine (hs.coherent.agree _ _ l y hfind hy hl.symm hid).behind hw.owned ?_
    rintro (h | h)
    · exact hready h
    · exact hunreserved h

section

variable (hw : Working c s.records s.table w)
include hw

theorem Sound.reserveOwnership (hpoint : w.point = .opened) :
    Advances c s { s with worker := some { w with point :=
      if w.m.state == .ready then .cleaning else .claiming (c.aliases w.m.hash) } } := by
  obtain ⟨row, hfind, hnot, hid, hat⟩ := hw.held
  unfold At at hat
  rw [hpoint] at hat
  obtain ⟨rfl, hunreserved, hsaved⟩ := hat
  have hrow := hs.coherent.row _ _ hfind
  refine hs.resume ⟨hw.owned, w.m, hfind, hnot, hid, ?_⟩
  unfold At
  by_cases hready : w.m.state = .ready
  · have hmanifest : w.m.manifest ≠ [] := fun hm => hnot ⟨.inl hready, hm⟩
    have hregistered := (hrow.journal hmanifest (hrow.laid (.inl hready))).2.2
    simp only [hready, beq_self_eq_true, if_true]
    exact ⟨rfl, hready, hmanifest, hregistered⟩
  have hskip : ¬(w.m.state == .ready) = true := by
    rw [beq_iff_eq]
    exact hready
  simp only [if_neg hskip]
  refine ⟨⟨rfl, hunreserved, hsaved⟩, ?_, fun _ ha => ha, fun _ ha => .inl ha⟩
  rintro (h | h)
  · exact hready h
  · exact hunreserved h

theorem Sound.claimAlias (hpoint : w.point = .claiming (hash :: rest)) :
    Advances c s (s.registerAlias w w.claim hash (.claiming rest)) := by
  obtain ⟨row, hfind, hnot, hid, hat⟩ := hw.held
  unfold At at hat
  rw [hpoint] at hat
  obtain ⟨⟨rfl, hunreserved, hsaved⟩, hns, htodo, hdone⟩ := hat
  have hrow := hs.coherent.row _ _ hfind
  have hnext : ∀ t', Grows s.table t' → (t'.find hash).isSome = true →
      t'.find w.m.hash = s.table.find w.m.hash →
      Working c s.records t' { w with point := .claiming rest } := by
    intro t' hgrows hsome hsame
    refine ⟨hw.owned, w.m, hsame.trans hfind, hnot, rfl, ⟨rfl, hunreserved, hsaved⟩, hns,
      fun a ha => htodo a (mem_cons_of_mem _ ha), ?_⟩
    intro a ha
    rcases hdone a ha with h | h
    · rcases mem_cons.1 h with rfl | h
      · exact .inr hsome
      · exact .inl h
    · exact .inr (hgrows.isSome h)
  unfold registerAlias
  split
  next heq =>
    have heq : hash = w.m.hash := beq_iff_eq.1 heq
    refine hs.resume (hnext _ (Grows.refl _) ?_ rfl)
    rw [heq, hfind]
    rfl
  next hne =>
  have hne : hash ≠ w.m.hash := fun heq => hne (beq_iff_eq.2 heq)
  split
  · exact hs.failed hw
  split
  next t' hsave =>
    have hcoherent : (Coherent c s.records t' ∧ Grows s.table t') ∧
        ∃ x, s.table.Writes t' x ∧ x.hash = hash := by
      rcases saveStorageAlias_some (m := { w.claim with hash }) hrow.identified hsave
        with ⟨hnone, hwrites⟩ | ⟨x, hx, hroot, hxid, hwrites⟩
      · have hzero : w.m.version = 0 := by
          by_contra hv
          have hregistered := (hrow.journal (hrow.interrupted hns hv) hv).2.2 hash
            (htodo hash mem_cons_self)
          rw [hnone] at hregistered
          cases hregistered
        refine ⟨hs.coherent.insert_alias hfind hwrites hnone rfl rfl rfl rfl ?_ hzero ?_,
          _, hwrites, rfl⟩
        · simp [Settled, claim]
        have hcounted := hrow.counted
        change max 1 w.m.revision = w.m.revision
        omega
      · have hxhash : x.hash = hash := find_key hx
        refine ⟨hs.coherent.claim_alias hfind hw.owned hns hne hx hxid hroot rfl rfl rfl ?_
          hwrites, _, hwrites, hxhash⟩
        simp [Settled, claim]
    obtain ⟨⟨hc, hgrows⟩, x, hwrites, hxhash⟩ := hcoherent
    refine hs.advance hc hgrows ?_
    rintro w' ⟨⟩
    refine hnext t' hgrows ?_ (hwrites.find_ne (hxhash ▸ hne.symm))
    rw [← hxhash, hwrites.find_self]
    rfl
  · exact hs.failed hw

theorem Sound.registerFinal (hpoint : w.point = .registering (hash :: rest)) :
    Advances c s (s.registerAlias w w.final hash (.registering rest)) := by
  obtain ⟨row, hfind, hnot, hid, hat⟩ := hw.held
  unfold At at hat
  rw [hpoint] at hat
  obtain ⟨hcommitted, htodo⟩ := hat
  have hrow := hs.coherent.row _ _ hfind
  have hset : row.Settled := by
    rw [hcommitted.mirrors]
    exact .inl hcommitted.ready
  have hlayout : w.final.layout = row.layout := by
    rw [hcommitted.mirrors]
    rfl
  have hnext : ∀ t', Grows s.table t' → t'.find w.m.hash = s.table.find w.m.hash →
      Working c s.records t' { w with point := .registering rest } := by
    intro t' hgrows hsame
    refine ⟨hw.owned, row, hsame.trans hfind, hnot, hid, { hcommitted with
        registered := fun a ha => hgrows.isSome (hcommitted.registered a ha) },
      fun a ha => htodo a (mem_cons_of_mem _ ha)⟩
  unfold registerAlias
  split
  · exact hs.resume (hnext _ (Grows.refl _) rfl)
  next hne =>
  have hne : hash ≠ w.m.hash := fun heq => hne (beq_iff_eq.2 heq)
  split
  · exact hs.failed hw
  split
  next t' hsave =>
    have hmid : w.m.storageID ≠ [] := hid ▸ hrow.identified
    rcases saveStorageAlias_some (m := { w.final with hash }) hmid hsave
      with ⟨hnone, -⟩ | ⟨x, hx, hroot, hxid, hwrites⟩
    · have hregistered := hcommitted.registered hash (htodo hash mem_cons_self)
      rw [hnone] at hregistered
      cases hregistered
    have hxhash : x.hash = hash := find_key hx
    obtain ⟨hc, hgrows⟩ := hs.coherent.register_alias hfind hw.owned hset hne hx
      (hxid.trans hid.symm) hroot hlayout rfl (.inl hcommitted.ready) hwrites
    refine hs.advance hc hgrows ?_
    rintro w' ⟨⟩
    refine hnext t' hgrows (hwrites.find_ne ?_)
    rw [written_hash, hxhash]
    exact hne.symm
  · exact hs.failed hw

theorem Sound.saveClaimed (hpoint : w.point = .claiming []) :
    Advances c s (s.saves w (w.claimed c) .copying) := by
  obtain ⟨row, hfind, hnot, -, hat⟩ := hw.held
  unfold At at hat
  rw [hpoint] at hat
  obtain ⟨⟨rfl, -, hsaved⟩, hns, -, hdone⟩ := hat
  have hrow := hs.coherent.row _ _ hfind
  have hregistered : Registered c s.table w.m.hash := by
    intro a ha
    exact (hdone a ha).resolve_left not_mem_nil
  have hresumed : w.m.version ≠ 0 → w.m.version = layoutVersion ∧ w.m.root = w.journal.root := by
    intro hv
    have hmanifest := hrow.interrupted hns hv
    obtain ⟨hversion, hdecode, -⟩ := hrow.journal hmanifest hv
    rw [hsaved hmanifest] at hdecode
    exact ⟨hversion, (congrArg MigrationJournal.root (Option.some.inj hdecode)).symm⟩
  unfold saves
  split
  next t' hsave =>
    obtain ⟨hc, hgrows, hfind'⟩ := save_workflow (m := w.claimed c) hs.coherent hfind hw.owned hnot
      rfl hsave (fun h => nomatch h)
      (fun hset => absurd hset (by simp [Settled, claimed]))
      (fun _ hv => by
        obtain ⟨hversion, hroot⟩ := hresumed hv
        refine ⟨hversion, ?_, hregistered⟩
        change c.decode (c.encode w.journal) = some ⟨w.m.root⟩
        rw [c.decode_encode, hroot])
      (fun _ _ => c.encode_ne w.journal)
      (fun l y hl hy hid _ =>
        (hs.coherent.agree _ _ l y hfind hy hl.symm hid).behind hw.owned hns)
    refine hs.advance hc hgrows ?_
    rintro w' ⟨⟩
    refine ⟨hw.owned, _, hfind', ?_, rfl, ?_⟩
    · rintro ⟨hset, -⟩
      exact absurd hset (by simp [Settled, StorageMapping.written, claimed])
    · exact ⟨mirrors_written rfl rfl, rfl, rfl, hresumed,
        fun a ha => hgrows.isSome (hregistered a ha)⟩
  · unfold AliasState.failed
    simp only [hpoint]
    exact hs.stop

theorem Sound.saveProgress (hpoint : w.point = .copying) :
    Advances c s (s.saves w (w.progressed c) .copying) := by
  obtain ⟨row, hfind, hnot, hid, hat⟩ := hw.held
  have hcopy := hat
  unfold At at hcopy
  rw [hpoint] at hcopy
  have hsame : w.progressed c = w.m := by
    unfold progressed
    rw [← hcopy.journaled]
  rw [hsame]
  unfold saves
  split
  next t' hsave =>
    obtain ⟨hc, hgrows, hfind'⟩ := save_mirrored hs.coherent hfind hw.owned hnot hcopy.mirrors hsave
    refine hs.advance hc hgrows ?_
    rintro w' ⟨⟩
    exact ⟨hw.owned, row, hfind', hnot, hid,
      { hcopy with registered := fun a ha => hgrows.isSome (hcopy.registered a ha) }⟩
  · exact hs.failed hw

theorem Sound.saveReady (hpoint : w.point = .copying) :
    Advances c s (s.saves w (w.committed c) .cleaning) := by
  obtain ⟨row, hfind, hnot, hid, hat⟩ := hw.held
  have hcopy := hat
  unfold At at hcopy
  rw [hpoint] at hcopy
  unfold saves
  split
  next t' hsave =>
    obtain ⟨hc, hgrows, hfind'⟩ := save_committed hs.coherent hfind hw.owned hnot hcopy hsave
    have hkey : row.hash = w.m.hash := find_key hfind
    refine hs.advance hc hgrows ?_
    rintro w' ⟨⟩
    refine ⟨hw.owned, _, hfind', fun hu => c.encode_ne w.journal hu.2, hid, ?_⟩
    exact ⟨mirrors_written hkey hid, rfl, c.encode_ne w.journal,
      fun a ha => hgrows.isSome (hcopy.registered a ha)⟩
  · unfold AliasState.failed
    simp only [hpoint]
    exact hs.resume ⟨hw.owned, row, hfind, hnot, hid, .inr ⟨w.m, hcopy, rfl⟩⟩

theorem Sound.lockFinal (hpoint : w.point = .cleaning) : Advances c s { s with
      worker := some { w with point := .registering (c.aliases w.m.hash) } } := by
  obtain ⟨row, hfind, hnot, hid, hat⟩ := hw.held
  unfold At at hat
  rw [hpoint] at hat
  exact hs.resume ⟨hw.owned, row, hfind, hnot, hid, hat, fun _ ha => ha⟩

theorem Sound.saveFinal (hpoint : w.point = .registering [])
    (hsave : s.table.saveStorageMapping w.final = some t') :
    Advances c s { s with table := t', worker := none } := by
  obtain ⟨row, hfind, hnot, hid, hat⟩ := hw.held
  unfold At at hat
  rw [hpoint] at hat
  obtain ⟨hcommitted, -⟩ := hat
  have hset : w.final.Settled := .inl hcommitted.ready
  have hunreserved : w.m.state ≠ .reserved := by
    rw [hcommitted.ready]
    decide
  have hlayout : w.final.layout = row.layout := by
    rw [hcommitted.mirrors]
    rfl
  have hversion : w.final.version ≠ 0 := by
    have hlaid := (hs.coherent.row _ _ hfind).laid (by
      rw [hcommitted.mirrors]
      exact .inl hcommitted.ready)
    have hsame : w.final.version = row.version := congrArg Layout.version hlayout
    rw [hsame]
    exact hlaid
  obtain ⟨hc, hgrows, -⟩ := save_workflow (m := w.final) hs.coherent hfind hw.owned hnot hlayout
    hsave hunreserved (fun _ => hversion) (fun hm => absurd rfl hm) (fun hns => absurd hset hns)
    (fun _ _ _ _ _ hns => absurd hset hns)
  exact hs.advance hc hgrows fun _ h => nomatch h

theorem Sound.saveFailure (hpoint : w.point = .failing)
    (hsave : s.table.saveStorageMapping w.m = some t') :
    Advances c s { s with table := t', worker := none } := by
  obtain ⟨row, hfind, hnot, hid, hat⟩ := hw.held
  unfold At at hat
  rw [hpoint] at hat
  rcases hat with hmirrors | ⟨m, hcopy, hm⟩
  · obtain ⟨hc, hgrows, -⟩ := save_mirrored hs.coherent hfind hw.owned hnot hmirrors hsave
    exact hs.advance hc hgrows fun _ h => nomatch h
  have hhash : w.m.hash = m.hash := by
    rw [hm]
    rfl
  rw [hm] at hsave
  obtain ⟨hc, hgrows, -⟩ := save_committed (w := { w with m }) hs.coherent (hhash ▸ hfind)
    (hhash ▸ hw.owned) hnot hcopy hsave
  exact hs.advance hc hgrows fun _ h => nomatch h

end

theorem Sound.migrationStep (hworker : s.worker = some w) (a : AliasAction)
    (hclear : s.Unadvanced a) : Advances c s (s.migrationStep c w a) := by
  have hw := hs.working w hworker
  cases a with
  | block =>
    unfold AliasState.migrationStep
    dsimp only
    split
    next hpoint =>
      split
      next t' hsave =>
        unfold saveStorageMappingForRecord at hsave
        split at hsave
        · exact hs.block hworker hpoint hclear hsave
        · cases hsave
      · exact hs.stop
    · exact hs.refl
  | reserveOwnership =>
    unfold AliasState.migrationStep
    dsimp only
    split
    next hpoint => exact hs.reserveOwnership hw hpoint
    · exact hs.refl
  | register =>
    unfold AliasState.migrationStep
    dsimp only
    split
    next hpoint => exact hs.claimAlias hw hpoint
    next hpoint => exact hs.registerFinal hw hpoint
    · exact hs.refl
  | saveClaimed =>
    unfold AliasState.migrationStep
    dsimp only
    split
    next hpoint => exact hs.saveClaimed hw hpoint
    · exact hs.refl
  | saveProgress =>
    unfold AliasState.migrationStep
    dsimp only
    split
    next hpoint => exact hs.saveProgress hw hpoint
    · exact hs.refl
  | saveReady =>
    unfold AliasState.migrationStep
    dsimp only
    split
    next hpoint => exact hs.saveReady hw hpoint
    · exact hs.refl
  | lockFinal =>
    unfold AliasState.migrationStep
    dsimp only
    split
    next hpoint =>
      split
      · exact hs.lockFinal hw hpoint
      · exact hs.failed hw
    · exact hs.refl
  | saveFinal =>
    unfold AliasState.migrationStep
    dsimp only
    split
    next hpoint =>
      split
      next t' hsave => exact hs.saveFinal hw hpoint hsave
      · exact hs.failed hw
    · exact hs.refl
  | fail => exact hs.failed hw
  | saveFailure =>
    unfold AliasState.migrationStep
    dsimp only
    split
    next hpoint =>
      split
      next t' hsave =>
        unfold saveStorageMappingForRecord at hsave
        split at hsave
        · exact hs.saveFailure hw hpoint hsave
        · cases hsave
      · exact hs.stop
    · exact hs.refl
  | crash => exact hs.stop
  | _ => exact hs.refl

theorem Sound.planned_row {before x : StorageMapping} {recordID k : Bytes}
    (hplan : before ∈ s.plans) (hauth : s.authorized before recordID = true)
    (hrow : ∃ row, s.table.find before.hash = some row ∧ row.storageID = before.storageID)
    (hx : s.table.find k = some x) (hid : x.storageID = before.storageID)
    (hrecord : (s.records k).isSome = true) : x.Usable := by
  obtain ⟨row, hfind, hrowid⟩ := hrow
  obtain ⟨row', hfind', husable⟩ := hs.planned before hplan
  rw [hfind] at hfind'
  cases hfind'
  have hkey : x.hash = k := find_key hx
  unfold authorized at hauth
  split at hauth
  · have hpublished : s.published before.storageID = true := by
      unfold published
      rw [any_eq_true]
      refine ⟨x, find_mem hx, ?_⟩
      rw [hid, beq_self_eq_true, Bool.true_and, hkey]
      exact hrecord
    rw [hpublished] at hauth
    cases hauth
  by_cases hk : k = before.hash
  · rw [hk, hfind] at hx
    cases hx
    exact husable
  have hsole := (hs.coherent.agree _ row k x hfind hx (Ne.symm hk) (hrowid.trans hid.symm)).sole
  have hrowkey : row.hash = before.hash := find_key hfind
  rw [hrowkey, beq_iff_eq.1 hauth, hkey] at hsole
  rw [hsole rfl] at hrecord
  cases hrecord

theorem Sound.setLayout (before : StorageMapping) (recordID : Bytes)
    (next : Layout) : Advances c s (s.setLayout before recordID next) := by
  unfold AliasState.setLayout
  split
  next hguard =>
    rw [Bool.and_eq_true, contains_iff_mem] at hguard
    obtain ⟨hplan, hauth⟩ := hguard
    split
    next t' hset =>
      obtain ⟨-, hrow, -, hfind'⟩ := setStorageLayout_ok hset
      have husable : ∀ k x, s.table.find k = some x → x.storageID = before.storageID →
          (s.records k).isSome = true → x.Usable :=
        fun k x hx hid => hs.planned_row hplan hauth hrow hx hid
      have hjournal : ∀ k x, s.table.find k = some x → x.storageID = before.storageID →
          x.manifest = [] := by
        intro k x hx hid
        by_contra hm
        have howned := (hs.coherent.row k x hx).owned hm
        have hkey : x.hash = k := find_key hx
        rw [hkey] at howned
        exact hm (husable k x hx hid howned).2
      obtain ⟨hc, hgrows⟩ := hs.coherent.relocate hset hjournal
      refine hs.advance hc hgrows ?_
      intro w hworker
      have hw := hs.working w hworker
      obtain ⟨row, hfind, hnot, -, -⟩ := hw.held
      refine hw.frame (fun _ hr => hr) hgrows ?_
      have hother : row.storageID ≠ before.storageID :=
        fun hid => hnot (husable _ row hfind hid hw.owned)
      rw [hfind', hfind, Option.map_some, if_neg hother]
    · exact hs.refl
  · exact hs.refl

end

theorem settled_of_claimable (h : row.claimable = true) : row.Settled := by
  simp only [claimable, Bool.and_eq_true, Bool.or_eq_true, beq_iff_eq] at h
  exact h.1

theorem Sound.claimStorageAlias (hs : Sound c s) (aliasHash owner : Bytes) :
    Advances c s { s with table := (s.table.claimStorageAlias aliasHash owner).1 } := by
  rcases claimStorageAlias_cases s.table aliasHash owner with
    hsame | ⟨o, ho, hnone, hclaim, hwrites⟩
  · rw [hsame]
    exact hs.refl
  have hgrows := hwrites.grows_insert hnone
  refine hs.advance (hs.coherent.claim ho hnone (settled_of_claimable hclaim) hwrites) hgrows ?_
  intro w hworker
  have hw := hs.working w hworker
  refine hw.frame (fun _ hr => hr) hgrows (hwrites.find_ne ?_)
  obtain ⟨row, hfind, -⟩ := hw.held
  intro heq
  rw [heq, hnone] at hfind
  cases hfind

theorem freshID_iff {storageID : Bytes} : s.freshID storageID = true ↔
    storageID ≠ [] ∧ ∀ row ∈ s.table.rows, row.storageID ≠ storageID := by
  simp [freshID]

theorem Sound.ensure (hs : Sound c s) {hash storageID : Bytes} (version : Int)
    (state : MappingState) (hnone : s.table.find hash = none) (hfresh : s.freshID storageID = true)
    (hlaid : (state = .ready ∨ state = .reserved) ↔ version ≠ 0) :
    Advances c s (s.ensure hash storageID version state) ∧
      ∀ l y, (s.ensure hash storageID version state).table.find l = some y → l ≠ hash →
        y.storageID ≠ storageID := by
  obtain ⟨hne, hfresh⟩ := freshID_iff.1 hfresh
  have hwrites := writes_put s.table ⟨hash, version, [], state, [], storageID, 1, []⟩
  have hgrows := hwrites.grows_insert hnone
  have hothers : ∀ l y, s.table.find l = some y → y.storageID ≠ storageID :=
    fun l y hy => hfresh y (find_mem hy)
  refine ⟨hs.advance (hs.coherent.insert_fresh hwrites hnone hothers ?_) hgrows ?_, ?_⟩
  · exact {
        identified := hne, counted := Int.le_refl 1, laid := hlaid.1, unwritten := fun _ => rfl
        journal := fun hm => absurd rfl hm
        interrupted := fun hns hv => absurd (hlaid.2 hv) hns
        owned := fun hm => absurd rfl hm }
  · intro w hworker
    have hw := hs.working w hworker
    refine hw.frame (fun _ hr => hr) hgrows (hwrites.find_ne ?_)
    obtain ⟨row, hfind, -⟩ := hw.held
    intro heq
    rw [heq, hnone] at hfind
    cases hfind
  · intro l y hy hl
    exact hothers l y ((hwrites.find_ne hl).symm.trans hy)

theorem Sound.publish (hs : Sound c s) {x : StorageMapping} (hx : s.table.find hash = some x)
    (recordID : Bytes)
    (hnone : ∀ l y, s.table.find l = some y → y.storageID = x.storageID → s.records l = none)
    (hbehind : ∀ l y, l ≠ hash → s.table.find l = some y → y.storageID = x.storageID →
      ¬x.Settled → y.version = 0) :
    Advances c s { s with records := Function.update s.records hash (some recordID) } := by
  refine hs.advance (hs.coherent.publish hx recordID hnone hbehind) (Grows.refl _) ?_
  intro w hworker
  refine (hs.working w hworker).frame ?_ (Grows.refl _) rfl
  intro k hk
  by_cases hkh : k = hash
  · rw [hkh, Function.update_self]
    rfl
  rw [Function.update_of_ne hkh]
  exact hk

theorem published_eq_false {storageID : Bytes} (h : s.published storageID = false) {l : Bytes}
    {y : StorageMapping} (hy : s.table.find l = some y) (hid : y.storageID = storageID) :
    s.records l = none := by
  have hkey : y.hash = l := find_key hy
  unfold published at h
  rw [any_eq_false] at h
  have hno := h y (find_mem hy)
  rw [hid, beq_self_eq_true, Bool.true_and, hkey] at hno
  simpa using hno

theorem Sound.usable_of_open (hs : Sound c s) (hfind : s.table.find hash = some row)
    (h : (row.ready || row.state == .reserved) = true) : row.Usable := by
  simp only [ready, Bool.or_eq_true, Bool.and_eq_true, beq_iff_eq] at h
  rcases h with ⟨⟨hready, hempty⟩, -⟩ | hreserved
  · exact ⟨.inl hready, hempty⟩
  · exact ⟨.inr hreserved, (hs.coherent.row hash row hfind).unwritten hreserved⟩

theorem Sound.step (hs : Sound c s) (a : AliasAction) (hclear : s.Unadvanced a) :
    Advances c s (s.step c a) := by
  cases a with
  | initializeStorage hash recordID storageID =>
    unfold AliasState.step
    dsimp only
    split
    next hguard =>
      rw [Bool.and_eq_true, Option.isNone_iff_eq_none] at hguard
      obtain ⟨hnone, hfresh⟩ := hguard
      obtain ⟨hensured, hothers⟩ := hs.ensure 0 (.other "legacy") hnone hfresh (by simp)
      have hrow := find_put_self s.table ⟨hash, 0, [], .other "legacy", [], storageID, 1, []⟩
      have hpublished := hensured.1.publish hrow recordID ?_ ?_
      · exact ⟨hpublished.1, hensured.2⟩
      · intro l y hy hid
        by_cases hl : l = hash
        · rw [hl]
          exact hs.coherent.no_record hnone
        · exact absurd hid (hothers l y hy hl)
      · intro l y hl hy hid
        exact absurd hid (hothers l y hy hl)
    · exact hs.refl
  | reserveStorage hash storageID =>
    unfold AliasState.step
    dsimp only
    split
    next hguard =>
      rw [Bool.and_eq_true, Option.isNone_iff_eq_none] at hguard
      exact (hs.ensure namedLayoutVersion .reserved hguard.1 hguard.2
        (by simp [namedLayoutVersion])).1
    · exact hs.refl
  | publishRecord hash recordID =>
    unfold AliasState.step
    dsimp only
    split
    next row hfind =>
      split
      next hguard =>
        rw [Bool.and_eq_true, Bool.not_eq_true'] at hguard
        have hset := (hs.usable_of_open hfind hguard.1).1
        exact hs.publish hfind recordID (fun l y hy hid => published_eq_false hguard.2 hy hid)
          fun _ _ _ _ _ hns => absurd hset hns
      · exact hs.refl
    · exact hs.refl
  | readMapping hash =>
    unfold AliasState.step
    dsimp only
    split
    next row hfind =>
      split
      next hguard =>
        refine ⟨⟨hs.coherent, ?_, hs.working⟩, Grows.refl _⟩
        intro b hb
        rcases mem_cons.1 hb with rfl | hb
        · have hkey : b.hash = hash := find_key hfind
          exact ⟨b, hkey ▸ hfind, hs.usable_of_open hfind hguard⟩
        · exact hs.planned b hb
      · exact hs.refl
    · exact hs.refl
  | setStorageLayout before recordID next => exact hs.setLayout before recordID next
  | commitStorageOperation before recordID next =>
    unfold AliasState.step
    dsimp only
    split
    · exact hs.setLayout before recordID next
    · exact hs.refl
  | claimStorageAlias aliasHash owner => exact hs.claimStorageAlias aliasHash owner
  | migrate hash =>
    unfold AliasState.step
    dsimp only
    split
    next m recordID hidle hfind hrecord =>
      split
      · exact hs.refl
      next hguard =>
      simp only [Bool.or_eq_true, Bool.and_eq_true, beq_iff_eq, not_or, not_and] at hguard
      obtain ⟨hunreserved, hnotReady⟩ := hguard
      split
      next journal hjournal =>
        have hkey : m.hash = hash := find_key hfind
        refine hs.resume ⟨?_, m, hkey ▸ hfind, ?_, rfl, rfl, hunreserved, ?_⟩
        · change (s.records m.hash).isSome = true
          rw [hkey, hrecord]
          rfl
        · rintro ⟨hready | hreserved, hm⟩
          · exact hnotReady hready hm
          · exact hunreserved hreserved
        · intro hm
          change m.manifest ≠ [] at hm
          unfold journalOf at hjournal
          rw [if_neg (by rw [beq_iff_eq]; exact hm)] at hjournal
          exact hjournal
      · exact hs.refl
    · exact hs.refl
  | block | reserveOwnership | register | saveClaimed | saveProgress | saveReady | lockFinal
  | saveFinal | fail | saveFailure | crash =>
    unfold AliasState.step
    dsimp only
    split
    next w hworker => exact hs.migrationStep hworker _ hclear
    · exact hs.refl

theorem sound_init (c : MigrationContext) : Sound c init := by
  refine ⟨⟨?_, ?_, ?_⟩, ?_, ?_⟩
  · nofun
  · nofun
  · nofun
  · nofun
  · nofun

theorem sound_run (h : Along (step c) Unadvanced init as) : Sound c (run c as) :=
  exec_invariant (fun _ a hs hclear => (hs.step a hclear).1) (sound_init c) h

theorem Advances.revision {s' : AliasState} (h : Advances c s s') {x x' : StorageMapping}
    (hx : x ∈ s.table.rows) (hx' : x' ∈ s'.table.rows)
    (hid : x.storageID = x'.storageID) (hready : x.IsReady) (hready' : x'.IsReady) :
    x'.revision = x.revision + if x'.layout = x.layout then 0 else 1 := by
  obtain ⟨x₁, hx₁, hid₁, hrevision, hkeeps⟩ := h.2 _ x (find_of_mem hx)
  have husable : x₁.Usable := hkeeps ⟨.inl hready.1, hready.2⟩
  obtain ⟨hlayout, hsame⟩ := h.1.coherent.ready_agree hx₁ (find_of_mem hx')
    (hid₁.trans hid) husable.1 (.inl hready'.1)
  rw [← hlayout, ← hsame]
  exact hrevision

/-- Ready rows of one storage agree in a run that never blocks a mapping after its aliases went
ahead, and every change of a layout raises the revision by one. -/
theorem aliases_agree (c : MigrationContext) (as : List AliasAction)
    (h : Along (step c) Unadvanced init as) :
    (∀ x ∈ (run c as).table.rows, ∀ y ∈ (run c as).table.rows, x.storageID = y.storageID →
      x.IsReady → y.IsReady → x.root = y.root ∧ x.version = y.version ∧
        x.layoutPrefix = y.layoutPrefix ∧ x.revision = y.revision) ∧
    ∀ a, (run c as).Unadvanced a →
      (∀ x ∈ (run c as).table.rows, ∀ x' ∈ ((run c as).step c a).table.rows,
        x.storageID = x'.storageID → x.IsReady → x'.IsReady →
        x'.revision = x.revision + if x'.layout = x.layout then 0 else 1) ∧
      ∀ x ∈ (run c as).table.rows, ∃ x' ∈ ((run c as).step c a).table.rows,
        x'.hash = x.hash ∧ x'.storageID = x.storageID ∧
        x'.revision = x.revision + if x'.layout = x.layout then 0 else 1 := by
  have hs := sound_run h
  refine ⟨?_, ?_⟩
  · intro x hx y hy hid hxready hyready
    obtain ⟨hlayout, hrevision⟩ := hs.coherent.ready_agree (find_of_mem hx)
      (find_of_mem hy) hid (.inl hxready.1) (.inl hyready.1)
    exact ⟨congrArg Layout.root hlayout, congrArg Layout.version hlayout,
      congrArg Layout.layoutPrefix hlayout, hrevision⟩
  intro a hclear
  have hstep := hs.step a hclear
  refine ⟨fun x hx x' hx' hid => hstep.revision hx hx' hid, ?_⟩
  intro x hx
  obtain ⟨x', hx', hid, hrevision, -⟩ := hstep.2 _ x (find_of_mem hx)
  exact ⟨x', find_mem hx', find_key hx', hid, hrevision⟩

def hybrid : MigrationContext where
  aliases _ := [List.replicate 40 0x61, List.replicate 40 0x62]
  encode j := 0x7b :: j.root
  decode text := match text with
    | [] => none
    | _ :: root => some ⟨root⟩
  encode_ne _ := List.cons_ne_nil _ _
  decode_encode _ := rfl

def registration : List AliasAction :=
  [.migrate (List.replicate 40 0x61), .reserveOwnership, .register, .register, .saveClaimed,
    .saveReady, .lockFinal, .register, .register]

/-- A migration that is blocked at first, crashes before its last statement and ends after a
restart. -/
def restarted : List AliasAction :=
  [.initializeStorage (List.replicate 40 0x61) [1] [7], .migrate (List.replicate 40 0x61), .block]
    ++ registration ++ [.crash, .migrate (List.replicate 40 0x61), .reserveOwnership, .lockFinal,
    .register, .register, .saveFinal]

theorem restarted_agree :
    Along (step hybrid) Unadvanced init restarted ∧
    (run hybrid restarted).table.rows.map (fun x => decide x.IsReady) = [true, true] ∧
    ∀ x ∈ (run hybrid restarted).table.rows, ∀ y ∈ (run hybrid restarted).table.rows,
      x.storageID = y.storageID → x.IsReady → y.IsReady → x.root = y.root ∧ x.version = y.version ∧
        x.layoutPrefix = y.layoutPrefix ∧ x.revision = y.revision :=
  ⟨by decide +kernel, by decide +kernel, (aliases_agree hybrid restarted (by decide +kernel)).1⟩

/-- The migration meets an ownership conflict when it is restarted: the next attempt takes the alias
back to version zero and forward again, while the row of the record stays. -/
def lateBlock : List AliasAction :=
  [.initializeStorage (List.replicate 40 0x61) [1] [7]] ++ registration ++
    [.crash, .migrate (List.replicate 40 0x61), .block] ++ registration ++ [.saveFinal]

theorem lateBlock_revisions :
    ∃ x ∈ (run hybrid lateBlock).table.rows, ∃ y ∈ (run hybrid lateBlock).table.rows,
      x.storageID = y.storageID ∧ x.IsReady ∧ y.IsReady ∧ x.ready = true ∧ y.ready = true ∧
        x.layout = y.layout ∧ x.revision = 2 ∧ y.revision = 4 := by
  decide +kernel

end AliasState

end TorrentHub
