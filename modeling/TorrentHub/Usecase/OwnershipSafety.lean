import TorrentHub.Lib.Exclusive
import TorrentHub.Usecase.OwnershipClaims

namespace TorrentHub
open Lib List Function ReservationState MappingTable

section Registry

variable {fold : Bytes → Bytes} {claims : List OwnershipClaim} {hash : Bytes}
  {paths : List Bytes}

theorem ownershipOverlap_comm (fold : Bytes → Bytes) (a b : Bytes) :
    ownershipOverlap fold a b = ownershipOverlap fold b a := by
  unfold ownershipOverlap overlap
  rw [Bool.or_assoc, Bool.or_assoc, BEq.comm,
    Bool.or_comm ((RelPath.clean (fold b) ++ [RelPath.slash]).isPrefixOf _)]

def heldPaths (claims : List OwnershipClaim) : List (Bytes × Bytes) :=
  claims.flatMap fun claim => claim.paths.map fun path => (claim.hash, path)

theorem mem_heldPaths : pair ∈ heldPaths claims ↔
    ∃ claim ∈ claims, ∃ path ∈ claim.paths, (claim.hash, path) = pair := by
  simp only [heldPaths, mem_flatMap, mem_map]

theorem claimsConflict_eq_false : claimsConflict fold claims hash paths = false ↔
    ∀ a ∈ paths, Free (fun a b => ownershipOverlap fold a b = true) (heldPaths claims) hash a := by
  simp only [claimsConflict, any_eq_false, Bool.and_eq_true, any_eq_true, bne_iff_ne, Free,
    not_and, not_exists]
  constructor
  · intro h a ha pair hpair hne
    obtain ⟨claim, hclaim, path, hpath, rfl⟩ := mem_heldPaths.1 hpair
    exact h claim hclaim hne a ha path hpath
  · intro h claim hclaim hne a ha path hpath
    exact h a ha _ (mem_heldPaths.2 ⟨claim, hclaim, path, hpath, rfl⟩) hne

end Registry

variable {κ φ : Type}

namespace OwnershipCatalog

def Newer (old new : OwnershipCatalog κ) : Prop := new = old ∨ old.version < new.version

structure Known (c now : OwnershipCatalog κ) : Prop where
  le : c.version ≤ now.version
  eq : c.version = now.version → c = now

theorem Known.refl (c : OwnershipCatalog κ) : Known c c := ⟨Int.le_refl _, fun _ => rfl⟩

theorem Known.newer {c old new : OwnershipCatalog κ} (h : Known c old) (hn : Newer old new) :
    Known c new := by
  rcases hn with rfl | hlt
  · exact h
  · have hle := h.le
    exact ⟨by omega, fun heq => by omega⟩

end OwnershipCatalog

open OwnershipCatalog

/-- The points with `ownershipMu`. -/
def ReservationPoint.Locks : ReservationPoint κ → Prop
  | .locked .. | .compared .. | .checked .. => True
  | _ => False

def ReservationCall.Sound (env : ReservationEnv κ φ) (catalog : OwnershipCatalog κ)
    (claims : List OwnershipClaim) (call : ReservationCall κ) : Prop :=
  match call.point with
  | .snapshotted _ snapshot => Known snapshot catalog
  | .validated _ snapshot verdict | .locked _ snapshot verdict =>
    Known snapshot catalog ∧ ∃ fs, verdict = env.validate fs snapshot call.hash call.paths
  | .compared _ snapshot verdict found => (found.version = snapshot.version → snapshot = found) ∧
      ∃ fs, verdict = env.validate fs snapshot call.hash call.paths
  | .checked _ root => claimsConflict env.fold claims call.hash (nonemptyPaths root) = false
  | _ => True

namespace ReservationCall

variable {env : ReservationEnv κ φ} {call : ReservationCall κ} {catalog new : OwnershipCatalog κ}
  {claims claims' : List OwnershipClaim}

theorem Sound.newer (h : call.Sound env catalog claims) (hn : Newer catalog new) :
    call.Sound env new claims := by
  unfold Sound at h ⊢
  cases hp : call.point with
  | snapshotted attempt snapshot =>
    rw [hp] at h
    exact Known.newer h hn
  | validated attempt snapshot verdict | locked attempt snapshot verdict =>
    rw [hp] at h
    exact ⟨h.1.newer hn, h.2⟩
  | compared attempt snapshot verdict found | checked aliasHash root =>
    rw [hp] at h
    exact h
  | attempting | waiting | granted | returned => trivial

theorem Sound.unlocked (h : call.Sound env catalog claims) (hfree : ¬call.point.Locks) :
    call.Sound env catalog claims' := by
  unfold Sound at h ⊢
  cases hp : call.point with
  | checked aliasHash root =>
    rw [hp] at hfree
    exact absurd trivial hfree
  | snapshotted | validated | locked | compared | attempting | waiting | granted | returned =>
    rw [hp] at h
    exact h

end ReservationCall

namespace ReservationState

/-- The snapshot that a reservation was validated against was the catalog when the version was
compared. -/
structure Sound (env : ReservationEnv κ φ) (s : ReservationState κ) : Prop where
  exclusive : Exclusive (fun a b => ownershipOverlap env.fold a b = true) (heldPaths s.claims)
  held : ∀ g call, s.calls g = some call → call.point.Locks → s.mutex = some g
  calls : ∀ g call, s.calls g = some call → call.Sound env s.catalog s.claims
  grants : ∀ grant ∈ s.grants, grant.snapshot = grant.found ∧
    ∃ fs, env.validate fs grant.snapshot grant.claim.hash grant.claim.paths = none
  granted : ∀ claim ∈ s.claims, ∃ grant ∈ s.grants, grant.claim = claim

variable {env : ReservationEnv κ φ} {s : ReservationState κ} {g : Nat} {call : ReservationCall κ}
  {claims : List OwnershipClaim} {table : MappingTable}

section

variable (hs : Sound env s)
include hs

theorem Sound.free (hmutex : s.mutex = none) {g : Nat}
    {call : ReservationCall κ} (hcall : s.calls g = some call) : ¬call.point.Locks := by
  intro hlocks
  have hheld := hs.held g call hcall hlocks
  rw [hmutex] at hheld
  cases hheld

theorem Sound.recatalog {catalog : OwnershipCatalog κ}
    (hn : Newer s.catalog catalog) : Sound env { s with catalog } :=
  { hs with calls := fun g call hcall => (hs.calls g call hcall).newer hn }

theorem Sound.setTable (table : MappingTable) : Sound env (s.setTable table) := by
  unfold ReservationState.setTable
  split
  · exact hs
  refine hs.recatalog (.inr ?_)
  change s.catalog.version < s.catalog.version + 1
  omega

theorem Sound.replace {mutex : Option Nat}
    (hother : ∀ g', g' ≠ g → s.mutex = some g' → mutex = some g')
    (hlocks : call.point.Locks → mutex = some g) (hcall : call.Sound env s.catalog s.claims) :
    Sound env { s.setCall g call with mutex } := by
  refine { hs with held := ?_, calls := ?_ }
  · intro g' call' hcall' hlocks'
    change update s.calls g (some call) g' = some call' at hcall'
    by_cases hg : g' = g
    · rw [hg, update_self] at hcall'
      cases hcall'
      rw [hg]
      exact hlocks hlocks'
    · rw [update_of_ne hg] at hcall'
      exact hother g' hg (hs.held g' call' hcall' hlocks')
  · intro g' call' hcall'
    change update s.calls g (some call) g' = some call' at hcall'
    by_cases hg : g' = g
    · rw [hg, update_self] at hcall'
      cases hcall'
      exact hcall
    · rw [update_of_ne hg] at hcall'
      exact hs.calls g' call' hcall'

theorem Sound.move (hmutex : s.mutex = none ∨ s.mutex = some g)
    (mutex : Option Nat) (hlocks : call.point.Locks → mutex = some g)
    (hcall : call.Sound env s.catalog s.claims) : Sound env { s.setCall g call with mutex } := by
  refine hs.replace ?_ hlocks hcall
  intro g' hg hheld
  rcases hmutex with heq | heq <;> rw [heq] at hheld <;> cases hheld
  exact absurd rfl hg

theorem Sound.setCall (hlocks : call.point.Locks → s.mutex = some g)
    (hcall : call.Sound env s.catalog s.claims) : Sound env (s.setCall g call) :=
  hs.replace (fun _ _ h => h) hlocks hcall

theorem Sound.leave (g : Nat) (call : ReservationCall κ)
    (err : Option OwnershipError) : Sound env (s.leave g call err) := by
  unfold ReservationState.leave
  split
  next hmutex => exact hs.move (.inr hmutex) none (fun h => h.elim) trivial
  · exact hs.setCall (fun h => h.elim) trivial

theorem Sound.grant (hmutex : s.mutex = some g) {snapshot found : OwnershipCatalog κ}
    (hfree : claimsConflict env.fold s.claims call.hash call.paths = false)
    (hsame : snapshot = found)
    (hvalid : ∃ fs, env.validate fs snapshot call.hash call.paths = none) :
    Sound env
      { s.setCall g { call with point := .granted s.next } with
        claims := ⟨s.next, call.hash, call.paths⟩ :: s.claims, mutex := none, next := s.next + 1
        grants := ⟨⟨s.next, call.hash, call.paths⟩, snapshot, found, s.catalog⟩ :: s.grants } := by
  have hmoved : Sound env { s.setCall g { call with point := .granted s.next } with
      mutex := none } := hs.move (.inr hmutex) none (fun h => h.elim) trivial
  refine ⟨?_, hmoved.held, ?_, ?_, ?_⟩
  · refine hs.exclusive.take (o := call.hash)
      (fun a b h => (ownershipOverlap_comm env.fold b a).trans h) ?_
    intro pair hpair
    obtain ⟨claim, hclaim, path, hpath, rfl⟩ := mem_heldPaths.1 hpair
    rcases mem_cons.1 hclaim with rfl | hclaim
    · exact .inr ⟨rfl, claimsConflict_eq_false.1 hfree path hpath⟩
    · exact .inl (mem_heldPaths.2 ⟨claim, hclaim, path, hpath, rfl⟩)
  · intro g' call' hcall'
    exact (hmoved.calls g' call' hcall').unlocked (hmoved.free rfl hcall')
  · intro grant hgrant
    rcases mem_cons.1 hgrant with rfl | hgrant
    · exact ⟨hsame, hvalid⟩
    · exact hs.grants grant hgrant
  · intro claim hclaim
    rcases mem_cons.1 hclaim with rfl | hclaim
    · exact ⟨_, mem_cons_self, rfl⟩
    · obtain ⟨grant, hgrant, heq⟩ := hs.granted claim hclaim
      exact ⟨grant, mem_cons_of_mem _ hgrant, heq⟩

theorem Sound.enter (hcall : s.calls g = some call) {attempt : Nat}
    {snapshot found : OwnershipCatalog κ} {verdict : Option OwnershipError}
    (hpoint : call.point = .compared attempt snapshot verdict found) :
    Sound env (s.enter env g call attempt snapshot verdict found) := by
  have hmutex : s.mutex = some g := hs.held g call hcall (by rw [hpoint]; trivial)
  have hsound := hs.calls g call hcall
  unfold ReservationCall.Sound at hsound
  rw [hpoint] at hsound
  obtain ⟨hknown, fs, hverdict⟩ := hsound
  unfold ReservationState.enter
  split
  next hversion =>
    split
    · exact hs.leave g call _
    split
    · exact hs.leave g call _
    next hconflict =>
      exact hs.grant hmutex (by simpa using hconflict) (hknown hversion) ⟨fs, hverdict.symm⟩
  · exact hs.move (.inr hmutex) none (fun h => h.elim) trivial

theorem Sound.publishStorage (m : StorageMapping) (aliased ensured : Bool)
    (actor : Bytes) : Sound env (s.publishStorage env m aliased ensured actor) := by
  unfold ReservationState.publishStorage
  split
  · exact hs
  split
  · split
    · exact hs.setTable _
    · exact hs
  split
  · exact hs.setTable _
  split
  · exact hs.setTable _
  · exact hs

theorem Sound.release (hmutex : s.mutex = none) (g id : Nat) (call : ReservationCall κ) :
    Sound env { s.setCall g { call with point := .returned none } with
      claims := s.claims.filter fun claim => claim.id != id } := by
  have hmoved : Sound env (s.setCall g { call with point := .returned none }) :=
    hs.setCall (fun h => h.elim) trivial
  refine ⟨?_, hmoved.held, ?_, hs.grants, ?_⟩
  · refine hs.exclusive.mono ?_
    intro pair hpair
    obtain ⟨claim, hclaim, path, hpath, rfl⟩ := mem_heldPaths.1 hpair
    exact mem_heldPaths.2 ⟨claim, mem_of_mem_filter hclaim, path, hpath, rfl⟩
  · intro g' call' hcall'
    exact (hmoved.calls g' call' hcall').unlocked (hmoved.free hmutex hcall')
  · intro claim hclaim
    exact hs.granted claim (mem_of_mem_filter hclaim)

theorem Sound.step (a : ReservationAction κ φ) : Sound env (s.step env a) := by
  cases a with
  | reserveOwnership g hash paths mounted =>
    simp only [ReservationState.step]
    split
    · exact hs
    cases mounted
    · exact hs.setCall (fun h => h.elim) trivial
    · exact hs.setCall (fun h => h.elim) trivial
  | readOwnership g =>
    simp only [ReservationState.step]
    split
    · split
      · exact hs.setCall (fun h => h.elim) (Known.refl s.catalog)
      · exact hs
    · exact hs
  | validate g fs =>
    simp only [ReservationState.step]
    split
    next call hcall =>
      split
      next attempt snapshot hpoint =>
        have hsound := hs.calls g call hcall
        unfold ReservationCall.Sound at hsound
        rw [hpoint] at hsound
        exact hs.setCall (fun h => h.elim) ⟨hsound, fs, rfl⟩
      · exact hs
    · exact hs
  | lock g =>
    simp only [ReservationState.step]
    split
    next call hcall hmutex =>
      split
      next attempt snapshot verdict hpoint =>
        have hsound := hs.calls g call hcall
        unfold ReservationCall.Sound at hsound
        rw [hpoint] at hsound
        exact hs.move (.inl hmutex) (some g) (fun _ => rfl) hsound
      · exact hs
    · exact hs
  | ownershipVersion g =>
    simp only [ReservationState.step]
    split
    next call hcall =>
      split
      next attempt snapshot verdict hpoint =>
        have hmutex : s.mutex = some g := hs.held g call hcall (by rw [hpoint]; trivial)
        have hsound := hs.calls g call hcall
        unfold ReservationCall.Sound at hsound
        rw [hpoint] at hsound
        exact hs.setCall (fun _ => hmutex) ⟨fun heq => hsound.1.eq heq.symm, hsound.2⟩
      · exact hs
    · exact hs
  | enter g =>
    simp only [ReservationState.step]
    split
    next call hcall =>
      split
      next attempt snapshot verdict found hpoint => exact hs.enter hcall hpoint
      · exact hs
    · exact hs
  | retry g =>
    simp only [ReservationState.step]
    split
    · split
      · split
        · exact hs.setCall (fun h => h.elim) trivial
        · exact hs.setCall (fun h => h.elim) trivial
      · exact hs
    · exact hs
  | abort g err =>
    simp only [ReservationState.step]
    split
    · split
      · exact hs
      · exact hs
      · exact hs.leave g _ _
    · exact hs
  | release g =>
    simp only [ReservationState.step]
    split
    next call hcall hmutex =>
      split
      · exact hs.release hmutex g _ call
      · exact hs
    · exact hs
  | publishStorage m aliased ensured actor => exact hs.publishStorage m aliased ensured actor
  | claimStorageAlias g aliasHash owner =>
    simp only [ReservationState.step]
    split
    next hmutex =>
      split
      · exact hs.setCall (fun h => h.elim) trivial
      split
      · exact hs.setCall (fun h => h.elim) trivial
      next hconflict =>
      refine hs.move (.inl hmutex) (some g) (fun _ => rfl) ?_
      change claimsConflict _ _ _ _ = false
      simpa using hconflict
    · exact hs
  | insertAlias g =>
    simp only [ReservationState.step]
    split
    · split
      · exact (hs.setTable _).leave g _ _
      · exact hs
    · exact hs
  | commit table rest bumps =>
    refine hs.recatalog (.inr ?_)
    change s.catalog.version < s.catalog.version + bumps + 1
    omega

end

section

variable (env : ReservationEnv κ φ) (catalog : OwnershipCatalog κ)

theorem sound_init : Sound env (init catalog) := by
  refine ⟨?_, ?_, ?_, ?_, ?_⟩
  · nofun
  · nofun
  · nofun
  · nofun
  · nofun

theorem sound_run (as : List (ReservationAction κ φ)) : Sound env (run env catalog as) :=
  exec_invariant_forall (fun _ a hs => hs.step a) (sound_init env catalog) as

end

def Publishes (s s' : ReservationState κ) (root : Bytes) : Prop :=
  root ≠ [] ∧ ∃ row ∈ s'.catalog.table.rows, row.root = root ∧
    ∀ old ∈ s.catalog.table.rows, old.hash = row.hash → old.root ≠ root

instance (s s' : ReservationState κ) (root : Bytes) : Decidable (s.Publishes s' root) :=
  inferInstanceAs (Decidable (_ ∧ _))

def actor (s : ReservationState κ) : ReservationAction κ φ → Option Bytes
  | .publishStorage _ _ _ actor => some actor
  | .insertAlias g => (s.calls g).map ReservationCall.hash
  | _ => none

/-- The owner of an alias still has the root that `claimStorageAlias` has checked, and a reservation
is entered into the catalog whose version was compared. -/
def Steady (s : ReservationState κ) : ReservationAction κ φ → Prop
  | .enter g => ∀ call ∈ s.calls g, ∀ attempt snapshot verdict found,
      call.point = .compared attempt snapshot verdict found → s.catalog = found
  | .insertAlias g => ∀ call ∈ s.calls g, ∀ aliasHash root, call.point = .checked aliasHash root →
      ∀ owner ∈ s.catalog.table.find call.hash, owner.root = root
  | _ => True

def Clear (fold : Bytes → Bytes) (claims : List OwnershipClaim) (actor root : Bytes) : Prop :=
  ∀ claim ∈ claims, claim.hash ≠ actor → ∀ path ∈ claim.paths,
    ownershipOverlap fold root path = false

theorem clear_of_claimsConflict {fold : Bytes → Bytes} {actor root : Bytes} (hroot : root ≠ [])
    (h : claimsConflict fold claims actor (nonemptyPaths root) = false) :
    Clear fold claims actor root := by
  intro claim hclaim hne path hpath
  rw [nonemptyPaths, if_neg hroot, claimsConflict_eq_false] at h
  have hfree := h root mem_cons_self _ (mem_heldPaths.2 ⟨claim, hclaim, path, hpath, rfl⟩) hne
  simpa using hfree

theorem publishes_of_writes {row : StorageMapping} (hw : s.catalog.table.Writes table row)
    {s' : ReservationState κ} (hs' : s'.catalog.table = table) {root : Bytes}
    (h : s.Publishes s' root) : root = row.root := by
  obtain ⟨-, x, hx, rfl, hnew⟩ := h
  rw [hs'] at hx
  have hfind := Table.find_of_mem hx
  rw [hw] at hfind
  split at hfind
  · cases hfind
    rfl
  · exact absurd rfl (hnew x (Table.find_mem hfind) rfl)

theorem not_publishes_self {s' : ReservationState κ} {root : Bytes}
    (hs' : s'.catalog.table = s.catalog.table) : ¬s.Publishes s' root := by
  rintro ⟨-, x, hx, rfl, hnew⟩
  rw [hs'] at hx
  exact hnew x hx rfl rfl

theorem setTable_table (s : ReservationState κ) (table : MappingTable) :
    (s.setTable table).catalog.table = table := by
  unfold setTable
  split
  next hrows =>
    obtain ⟨rows, checked, unique⟩ := table
    obtain ⟨⟨version, ⟨rows', checked', unique'⟩, rest⟩, claims, mutex, calls, next, grants⟩ := s
    subst hrows
    rfl
  · rfl

theorem saveStorageAlias_root {t t' : MappingTable} {m : StorageMapping}
    (h : t.saveStorageAlias m = some t') : ∃ row, t.Writes t' row ∧ row.root = m.root := by
  unfold saveStorageAlias at h
  split at h
  · cases h
    exact ⟨_, writes_put t _, rfl⟩
  next row hfind =>
  split at h
  · exact ⟨_, write_some hfind h, rfl⟩
  · cases h

theorem saveStorageMapping_root {t t' : MappingTable} {m : StorageMapping}
    (h : t.saveStorageMapping m = some t') : ∃ row, t.Writes t' row ∧ row.root = m.root := by
  unfold saveStorageMapping at h
  split at h
  · cases h
    exact ⟨_, writes_put t _, rfl⟩
  next row hfind => exact ⟨_, write_some hfind h, rfl⟩

/-- `publishStorage` publishes the root that it has checked, or nothing. -/
theorem publishStorage_clear {m : StorageMapping} {aliased ensured : Bool} {actor root : Bytes}
    (h : s.Publishes (s.publishStorage env m aliased ensured actor) root) :
    Clear env.fold s.claims actor root := by
  have hroot := h.1
  have hwritten : ∀ t row, s.catalog.table.Writes t row → row.root = m.root →
      s.Publishes (s.setTable t) root → root = m.root :=
    fun t row hw hrow hpub => (publishes_of_writes hw (setTable_table s t) hpub).trans hrow
  unfold publishStorage at h
  split at h
  · exact absurd h (not_publishes_self rfl)
  next hguard =>
  simp only [Bool.or_eq_true, not_or, Bool.not_eq_true] at hguard
  have hsame : root = m.root := by
    split at h
    · split at h
      next t ht =>
        obtain ⟨row, hw, hrow⟩ := saveStorageAlias_root ht
        exact hwritten t row hw hrow h
      · exact absurd h (not_publishes_self rfl)
    split at h
    · unfold ensureStorageMapping at h
      split at h
      · exact hwritten _ { m with revision := 1 } (writes_put _ _) rfl h
      · exact absurd h (not_publishes_self (setTable_table s _))
    split at h
    next t ht =>
      obtain ⟨row, hw, hrow⟩ := saveStorageMapping_root ht
      exact hwritten t row hw hrow h
    · exact absurd h (not_publishes_self rfl)
  rw [hsame] at hroot ⊢
  exact clear_of_claimsConflict hroot hguard.2

theorem leave_catalog (g : Nat) (call : ReservationCall κ) (err : Option OwnershipError) :
    (s.leave g call err).catalog = s.catalog := rfl

theorem Sound.insertAlias_clear (hs : Sound env s) {root : Bytes} (hcall : s.calls g = some call)
    (hsteady : s.Steady (.insertAlias g : ReservationAction κ φ))
    (h : s.Publishes (s.step env (.insertAlias g)) root) :
    Clear env.fold s.claims call.hash root := by
  have hroot := h.1
  simp only [ReservationState.step, hcall] at h
  split at h
  next aliasHash checked hpoint =>
    rcases MappingTable.claimStorageAlias_cases s.catalog.table aliasHash call.hash with
      hsame | ⟨o, ho, -, -, hw⟩
    · refine absurd h (not_publishes_self ?_)
      rw [leave_catalog, setTable_table, hsame]
    have heq : root = o.root := publishes_of_writes hw (by rw [leave_catalog, setTable_table]) h
    have hchecked : o.root = checked := hsteady call hcall aliasHash checked hpoint o ho
    have hsound := hs.calls g call hcall
    unfold ReservationCall.Sound at hsound
    rw [hpoint] at hsound
    rw [heq, hchecked] at hroot ⊢
    exact clear_of_claimsConflict hroot hsound
  · exact absurd h (not_publishes_self rfl)

theorem grants_publishStorage (m : StorageMapping) (aliased ensured : Bool) (actor : Bytes) :
    (s.publishStorage env m aliased ensured actor).grants = s.grants := by
  have hset : ∀ table, (s.setTable table).grants = s.grants := by
    intro table
    unfold setTable
    split <;> rfl
  unfold publishStorage
  repeat' split
  all_goals first | rfl | exact hset _

/-- Only the last part of an attempt grants a reservation. -/
theorem grants_step (env : ReservationEnv κ φ) (s : ReservationState κ)
    (a : ReservationAction κ φ) :
    (s.step env a).grants = s.grants ∨ ∃ g call attempt snapshot found, a = .enter g ∧
      s.calls g = some call ∧ call.point = .compared attempt snapshot none found ∧
      (s.step env a).grants =
        ⟨⟨s.next, call.hash, call.paths⟩, snapshot, found, s.catalog⟩ :: s.grants := by
  cases a with
  | publishStorage m aliased ensured actor =>
    exact .inl (grants_publishStorage m aliased ensured actor)
  | enter g =>
    simp only [step]
    split
    next call hcall =>
      split
      next attempt snapshot verdict found hpoint =>
        unfold enter
        split
        · split
          · exact .inl rfl
          · split
            · exact .inl rfl
            · exact .inr ⟨g, call, attempt, snapshot, found, rfl, hcall, hpoint, rfl⟩
        · exact .inl rfl
      · exact .inl rfl
    · exact .inl rfl
  | insertAlias g =>
    left
    simp only [step, setTable]
    repeat' split
    all_goals rfl
  | _ =>
    left
    simp only [step]
    repeat' split
    all_goals rfl

theorem entered_run (env : ReservationEnv κ φ) (catalog : OwnershipCatalog κ)
    {as : List (ReservationAction κ φ)}
    (hsteady : Along (step env) Steady (init catalog) as) :
    ∀ grant ∈ (run env catalog as).grants, grant.entered = grant.found := by
  refine exec_invariant (I := fun s => ∀ grant ∈ s.grants, grant.entered = grant.found) ?_ nofun
    hsteady
  intro s a hs ha grant hgrant
  rcases grants_step env s a with hsame |
    ⟨g, call, attempt, snapshot, found, rfl, hcall, hpoint, hnew⟩
  · exact hs grant (hsame ▸ hgrant)
  · rw [hnew] at hgrant
    rcases mem_cons.1 hgrant with rfl | hold
    · exact ha call hcall attempt snapshot none found hpoint
    · exact hs grant hold

/-- Reservations of two hashes never overlap; a root is published clear of those of other hashes,
where the owner of an alias is steady; every reservation was validated against the whole catalog of
its version, and in a steady run that is the catalog into which it was entered. -/
theorem reservations_exclude (env : ReservationEnv κ φ) (catalog : OwnershipCatalog κ)
    (as : List (ReservationAction κ φ)) :
    (∀ c ∈ (run env catalog as).claims, ∀ d ∈ (run env catalog as).claims, c.hash ≠ d.hash →
      ∀ a ∈ c.paths, ∀ b ∈ d.paths, ownershipOverlap env.fold a b = false) ∧
    (∀ (a : ReservationAction κ φ) (hash root : Bytes), (run env catalog as).Steady a →
      (run env catalog as).actor a = some hash →
      (run env catalog as).Publishes ((run env catalog as).step env a) root →
      Clear env.fold (run env catalog as).claims hash root) ∧
    (∀ claim ∈ (run env catalog as).claims, ∃ grant ∈ (run env catalog as).grants,
      grant.claim = claim) ∧
    (∀ grant ∈ (run env catalog as).grants, grant.snapshot = grant.found ∧
      ∃ fs, env.validate fs grant.snapshot grant.claim.hash grant.claim.paths = none) ∧
    (Along (step env) Steady (init catalog) as → ∀ grant ∈ (run env catalog as).grants,
      grant.snapshot = grant.entered) := by
  have hs := sound_run env catalog as
  refine ⟨?_, ?_, hs.granted, hs.grants, fun hsteady grant hgrant =>
    (hs.grants grant hgrant).1.trans (entered_run env catalog hsteady grant hgrant).symm⟩
  · intro c hc d hd hne a ha b hb
    have hfree := hs.exclusive _ (mem_heldPaths.2 ⟨c, hc, a, ha, rfl⟩) _
      (mem_heldPaths.2 ⟨d, hd, b, hb, rfl⟩) hne
    simpa using hfree
  intro a hash root hsteady hactor hpub
  cases a with
  | publishStorage m aliased ensured actor =>
    cases hactor
    exact publishStorage_clear hpub
  | insertAlias g =>
    obtain ⟨call, hcall, rfl⟩ := Option.map_eq_some_iff.1 hactor
    exact hs.insertAlias_clear hcall hsteady hpub
  | reserveOwnership | readOwnership | validate | lock | ownershipVersion | enter | retry | abort
  | release | claimStorageAlias | commit => cases hactor

def sharedRows (root : Bytes) : MappingTable :=
  (Table.empty.put ⟨[1], namedLayoutVersion, root, .ready, [], [7], 1, []⟩).put
    ⟨[2], namedLayoutVersion, root, .ready, [], [7], 1, []⟩

def plainEnv : ReservationEnv Unit Unit := ⟨id, fun _ _ _ _ => none⟩

def emptyCatalog : OwnershipCatalog Unit := ⟨1, Table.empty, ()⟩

/-- The record of the storage reserves its next root, and the other hash of the storage is about to
be claimed for a third one. -/
def aliasChecked : List (ReservationAction Unit Unit) :=
  [.commit (sharedRows (ascii "old")) () 0, .reserveOwnership 0 [1] [ascii "new"] true,
    .readOwnership 0, .validate 0 (), .lock 0, .ownershipVersion 0, .enter 0,
    .claimStorageAlias 1 [3] [2]]

theorem aliasChecked_clear :
    (run plainEnv emptyCatalog aliasChecked).Publishes
      ((run plainEnv emptyCatalog aliasChecked).step plainEnv (.insertAlias 1)) (ascii "old") ∧
    Clear id (run plainEnv emptyCatalog aliasChecked).claims [2] (ascii "old") ∧
    ((run plainEnv emptyCatalog aliasChecked).grants.map (·.claim.paths) = [[ascii "new"]] ∧
      ∀ grant ∈ (run plainEnv emptyCatalog aliasChecked).grants,
        grant.snapshot = grant.entered) := by
  have hpub : (run plainEnv emptyCatalog aliasChecked).Publishes
      ((run plainEnv emptyCatalog aliasChecked).step plainEnv (.insertAlias 1)) (ascii "old") := by
    decide
  obtain ⟨-, hclear, -, -, hentered⟩ := reservations_exclude plainEnv emptyCatalog aliasChecked
  refine ⟨hpub, hclear (.insertAlias 1) [2] (ascii "old") ?_ rfl hpub, by decide, hentered ?_⟩
  · rintro call ⟨⟩ aliasHash root ⟨⟩ owner ⟨⟩
    rfl
  · refine ⟨trivial, trivial, trivial, trivial, trivial, trivial, ?_, trivial, trivial⟩
    rintro call ⟨⟩ attempt snapshot verdict found ⟨⟩
    rfl

/-- The record of the storage is moved before its alias is inserted. -/
def locatedAlias : List (ReservationAction Unit Unit) :=
  aliasChecked ++ [.commit (sharedRows (ascii "new")) () 0]

/-- The catalog changes between the comparison of the versions and the entry. -/
def enteredLate : List (ReservationAction Unit Unit) :=
  [.reserveOwnership 0 [1] [ascii "new"] true, .readOwnership 0, .validate 0 (), .lock 0,
    .ownershipVersion 0, .commit (sharedRows (ascii "new")) () 0, .enter 0]

theorem locatedAlias_overlaps :
    (∃ claim ∈ (run plainEnv emptyCatalog locatedAlias).claims,
      claim.hash = [1] ∧ claim.paths = [ascii "new"] ∧
      (run plainEnv emptyCatalog locatedAlias).actor
        (.insertAlias 1 : ReservationAction Unit Unit) = some [2] ∧
      (run plainEnv emptyCatalog locatedAlias).Publishes
        ((run plainEnv emptyCatalog locatedAlias).step plainEnv (.insertAlias 1)) (ascii "new") ∧
      ownershipOverlap id (ascii "new") (ascii "new") = true) ∧
    (run plainEnv emptyCatalog enteredLate).claims = [⟨0, [1], [ascii "new"]⟩] ∧
    ∃ grant ∈ (run plainEnv emptyCatalog enteredLate).grants,
      grant.claim = ⟨0, [1], [ascii "new"]⟩ ∧ grant.snapshot.version = 1 ∧
        grant.entered.version = 2 := by
  decide

end ReservationState

end TorrentHub
