import TorrentHub.Lib.Exclusive
import TorrentHub.Repository.Claims

namespace TorrentHub
open Lib List

variable {fold : Bytes → Bytes} {db db' : StorageDB}

theorem collides_symm (p q : Bytes) (h : collides fold p q = true) : collides fold q p = true := by
  simp only [collides, overlap, Bool.or_eq_true, beq_iff_eq] at h ⊢
  rcases h with (h | h) | h
  · exact .inl (.inl h.symm)
  · exact .inr h
  · exact .inl (.inr h)

theorem constrained_eq_ok {α : Type} {result : Option α} {a : α} :
    constrained result = .ok a ↔ result = some a := by
  cases result with
  | none => exact ⟨nofun, nofun⟩
  | some a' => simp [constrained]

theorem mem_insertClaims {claims claims' : ClaimTable} {new : List StorageClaim}
    (h : insertClaims claims new = .ok claims') (c : StorageClaim) :
    c ∈ claims'.rows ↔ c ∈ claims.rows ∨ c ∈ new := by
  induction new generalizing claims with
  | nil =>
    cases h
    simp
  | cons c' new ih =>
    unfold insertClaims at h
    rw [foldlM_cons, bind_eq_ok] at h
    obtain ⟨claims₁, hinsert, h⟩ := h
    rw [ih h, Table.rows_of_store (constrained_eq_ok.1 hinsert)]
    simp only [mem_append, mem_cons, not_mem_nil, or_false, or_assoc]

namespace StorageDB

def Disjoint (fold : Bytes → Bytes) (db : StorageDB) : Prop :=
  Exclusive (fun p q => collides fold p q = true) db.places

theorem mem_places : p ∈ db.places ↔ (∃ c ∈ db.claims.rows, (c.storageID, c.path) = p) ∨
      ∃ m ∈ db.mappings.rows, m.root ≠ [] ∧ (m.storageID, m.root) = p := by
  simp only [places, mem_append, mem_map, mem_filter, bne_iff_ne, and_assoc]

theorem checkStorageClaims_ok (h : db.checkStorageClaims fold owner path = .ok ()) :
    Free (fun p q => collides fold p q = true) db.places owner path := by
  intro p hp hne hcollides
  simp only [checkStorageClaims, ite_error_eq_ok, any_eq_true, Bool.and_eq_true, bne_iff_ne,
    not_exists, not_and] at h
  exact h.1 p hp hne hcollides

theorem setStorageLayoutTx_ok {before : StorageMapping} {recordID : String} {next : Layout}
    (h : db.setStorageLayoutTx fold before recordID next = .ok db') : db'.claims = db.claims ∧
      Free (fun p q => collides fold p q = true) db.places before.storageID next.root ∧
      ∀ m ∈ db'.mappings.rows,
        m ∈ db.mappings.rows ∨ m.storageID = before.storageID ∧ m.root = next.root := by
  unfold setStorageLayoutTx at h
  cases hvalid : next.validate with
  | error err =>
    rw [hvalid] at h
    cases h
  | ok _ =>
    simp only [hvalid, bind_eq_ok] at h
    obtain ⟨_, hclaims, h⟩ := h
    simp only [throw_eq, error_bind, ite_error_eq_ok, bind_eq_ok, pure_eq, constrained_eq_ok] at h
    obtain ⟨-, -, _, -, mappings, hupdate, rfl⟩ := h
    refine ⟨rfl, checkStorageClaims_ok hclaims, ?_⟩
    intro m hm
    rw [Table.rows_of_store hupdate] at hm
    obtain ⟨row, hrow, rfl⟩ := mem_map.1 hm
    split
    next halias =>
      simp only [aliasOf, Bool.and_eq_true, beq_iff_eq] at halias
      exact .inr ⟨halias.1, rfl⟩
    · exact .inl hrow

def MayHold (fold : Bytes → Bytes) (db : StorageDB) (o : Bytes) (p : Bytes × Bytes) : Prop :=
  p ∈ db.places ∨ p.1 = o ∧ Free (fun p q => collides fold p q = true) db.places o p.2

theorem Disjoint.take (o : Bytes) (h : db.Disjoint fold)
    (hclaims : ∀ c ∈ db'.claims.rows, db.MayHold fold o (c.storageID, c.path))
    (hmappings : ∀ m ∈ db'.mappings.rows, m.root ≠ [] → db.MayHold fold o (m.storageID, m.root)) :
    db'.Disjoint fold := by
  have hnew : ∀ p ∈ db'.places, db.MayHold fold o p := by
    intro p hp
    rcases mem_places.1 hp with ⟨c, hc, rfl⟩ | ⟨m, hm, hroot, rfl⟩
    · exact hclaims c hc
    · exact hmappings m hm hroot
  exact Exclusive.take h collides_symm hnew

theorem mayHold_claim {o : Bytes} {c : StorageClaim} (hc : c ∈ db.claims.rows) :
    db.MayHold fold o (c.storageID, c.path) :=
  .inl (mem_places.2 (.inl ⟨c, hc, rfl⟩))

theorem mayHold_mapping {o : Bytes} {m : StorageMapping} (hm : m ∈ db.mappings.rows)
    (hroot : m.root ≠ []) : db.MayHold fold o (m.storageID, m.root) :=
  .inl (mem_places.2 (.inr ⟨m, hm, hroot, rfl⟩))

theorem withOperation_ok {hash : Bytes} {row : Option RecoveryRecord}
    (h : db.withOperation hash row = .ok db') :
    db'.claims = db.claims ∧ db'.mappings = db.mappings := by
  cases row with
  | none => cases h
  | some r =>
    cases h
    exact ⟨rfl, rfl⟩

section

variable {m : StorageMapping} {hash : Bytes} {v : RecoveryRecord} {previous : Nat}
  {claims : List StorageClaim}

theorem createStorageOperation_ok
    (h : db.createStorageOperation fold m hash v previous claims = .ok db') :
    db'.mappings = db.mappings ∧ (∀ c ∈ claims, c.storageID = m.storageID ∧
        Free (fun p q => collides fold p q = true) db.places m.storageID c.path) ∧
      ∀ c, c ∈ db'.claims.rows ↔
        c ∈ db.claims.rows ∧ ¬ (c.recordID = v.recordID ∧ c.kind ≠ .retained) ∨ c ∈ claims := by
  simp only [createStorageOperation, throw_eq, error_bind, ite_error_eq_ok, bind_eq_ok,
    pure_eq] at h
  obtain ⟨-, -, -, _, hchecks, claims', hinsert, rfl⟩ := h
  refine ⟨rfl, ?_, ?_⟩
  · intro c hc
    have hcheck := forM_eq_ok.1 hchecks c hc
    simp only [checkClaim, ite_error_eq_ok, not_or, not_not] at hcheck
    obtain ⟨⟨hid, -⟩, hfree⟩ := hcheck
    rw [hid] at hfree
    exact ⟨hid, checkStorageClaims_ok hfree⟩
  · intro c
    simp only [mem_insertClaims hinsert, Table.remove, mem_filter, Bool.not_eq_true',
      Bool.and_eq_false_iff, beq_eq_false_iff_ne, bne_eq_false_iff_eq, not_and_or, not_not, ne_eq]

theorem commitStorageOperation_ok {before : StorageMapping} {next : Layout}
    (h : db.commitStorageOperation fold before hash v next = .ok db') :
    Free (fun p q => collides fold p q = true) db.places before.storageID next.root ∧
      (∀ m ∈ db'.mappings.rows,
        m ∈ db.mappings.rows ∨ m.storageID = before.storageID ∧ m.root = next.root) ∧
      db'.claims.rows = db.claims.rows.map (retainSource v) := by
  simp only [commitStorageOperation, bind_eq_ok, pure_eq] at h
  obtain ⟨committed, hcommitted, moved, hmoved, rfl⟩ := h
  obtain ⟨hclaims, hmappings⟩ := withOperation_ok hcommitted
  obtain ⟨hclaims', hfree, hrows⟩ := setStorageLayoutTx_ok hmoved
  have hplaces : committed.places = db.places := by
    simp only [places, hclaims, hmappings]
  rw [hplaces] at hfree
  rw [hmappings] at hrows
  refine ⟨hfree, hrows, ?_⟩
  simp only [Table.adjust, if_true, hclaims', hclaims]

theorem finishStorageOperation_ok {stage : Stage} {retained : List Bytes}
    (h : db.finishStorageOperation m hash v stage retained = .ok db') :
    db'.mappings = db.mappings ∧ ∀ c, c ∈ db'.claims.rows ↔
      c ∈ db.claims.rows ∧ ¬ (c.recordID = v.recordID ∧ c.version = v.version) ∨
        ∃ path ∈ retained, ⟨m.storageID, v.recordID, v.version, path, .retained⟩ = c := by
  simp only [finishStorageOperation, bind_eq_ok, pure_eq] at h
  obtain ⟨finished, hfinished, _, -, claims, hinsert, rfl⟩ := h
  obtain ⟨hclaims, hmappings⟩ := withOperation_ok hfinished
  refine ⟨hmappings, ?_⟩
  intro c
  simp only [mem_insertClaims hinsert, Table.remove, mem_filter, hclaims, mem_map,
    Bool.not_eq_true', Bool.and_eq_false_iff, beq_eq_false_iff_ne, not_and_or, ne_eq]

end

theorem claimStorageAlias_rows (hash owner : Bytes) :
    (db.claimStorageAlias hash owner).claims = db.claims ∧
      ∀ m ∈ (db.claimStorageAlias hash owner).mappings.rows,
        ∃ m' ∈ db.mappings.rows, m.storageID = m'.storageID ∧ m.root = m'.root := by
  have hkept : ∀ m ∈ db.mappings.rows,
      ∃ m' ∈ db.mappings.rows, m.storageID = m'.storageID ∧ m.root = m'.root :=
    fun m hm => ⟨m, hm, rfl, rfl⟩
  unfold claimStorageAlias
  split
  · exact ⟨rfl, hkept⟩
  next row hrow =>
  split
  · refine ⟨rfl, ?_⟩
    intro m hm
    cases hinsert : db.mappings.insert { row with hash, manifest := [] } with
    | none =>
      simp only [hinsert, Option.getD_none] at hm
      exact hkept m hm
    | some mappings =>
      simp only [hinsert, Option.getD_some, Table.rows_of_store hinsert, mem_append,
        mem_singleton] at hm
      rcases hm with hm | rfl
      · exact hkept m hm
      · exact ⟨row, mem_of_find?_eq_some hrow, rfl, rfl⟩
  · exact ⟨rfl, hkept⟩

end StorageDB

namespace StorageTransaction

def RetainsClaimed (db : StorageDB) : StorageTransaction → Prop
  | .finish m _ v _ retained => ∀ path ∈ retained, ∃ c ∈ db.claims.rows,
      c.storageID = m.storageID ∧ c.recordID = v.recordID ∧ c.version = v.version ∧ c.path = path
  | _ => True

/-- The end of the operation that a claim belongs to, where what it retains is reported anew. -/
def finishes (c : StorageClaim) : StorageTransaction → Bool
  | .finish _ _ v _ _ => c.recordID == v.recordID && c.version == v.version
  | _ => false

/-- The transaction reports the claim as retained: the source of a committed operation, or what a
finished one keeps. -/
def Retains (fold : Bytes → Bytes) (db : StorageDB) (t : StorageTransaction) (c : StorageClaim) :
    Prop :=
  (db.transact fold t).isOk = true ∧
    match t with
    | .commit _ _ v _ => ∃ c' ∈ db.claims.rows, c'.recordID = v.recordID ∧
        c'.version = v.version ∧ c'.kind = .source ∧ c = { c' with kind := .retained }
    | .finish m _ v _ retained => ∃ path ∈ retained,
        c = ⟨m.storageID, v.recordID, v.version, path, .retained⟩
    | _ => False

end StorageTransaction

namespace StorageDB

variable {t : StorageTransaction}

theorem step_ok (h : db.transact fold t = .ok db') : db.step fold t = db' := by
  simp only [step, h]

section

variable (h : db.Disjoint fold) (ht : t.RetainsClaimed db)
include h ht

theorem transact_disjoint (hok : db.transact fold t = .ok db') : db'.Disjoint fold := by
  cases t with
  | create m hash v previous claims =>
    obtain ⟨hmappings, hfree, hclaims⟩ := createStorageOperation_ok hok
    refine h.take m.storageID ?_ ?_
    · intro c hc
      rcases (hclaims c).1 hc with ⟨hc, -⟩ | hc
      · exact mayHold_claim hc
      · exact .inr (hfree c hc)
    · rw [hmappings]
      exact fun m hm hroot => mayHold_mapping hm hroot
  | transition m hash v stage =>
    obtain ⟨hclaims, hmappings⟩ := withOperation_ok hok
    refine h.take m.storageID ?_ ?_
    · rw [hclaims]
      exact fun c hc => mayHold_claim hc
    · rw [hmappings]
      exact fun m hm hroot => mayHold_mapping hm hroot
  | commit before hash v next =>
    obtain ⟨hfree, hmappings, hclaims⟩ := commitStorageOperation_ok hok
    refine h.take before.storageID ?_ ?_
    · intro c hc
      rw [hclaims] at hc
      obtain ⟨c', hc', rfl⟩ := mem_map.1 hc
      have hkept : ((retainSource v c').storageID, (retainSource v c').path) =
          (c'.storageID, c'.path) := by
        unfold retainSource
        split <;> rfl
      rw [hkept]
      exact mayHold_claim hc'
    · intro m hm hroot
      rcases hmappings m hm with hm | ⟨hid, hnext⟩
      · exact mayHold_mapping hm hroot
      · rw [hnext]
        exact .inr ⟨hid, hfree⟩
  | finish m hash v stage retained =>
    obtain ⟨hmappings, hclaims⟩ := finishStorageOperation_ok hok
    refine h.take m.storageID ?_ ?_
    · intro c hc
      rcases (hclaims c).1 hc with ⟨hc, -⟩ | ⟨path, hpath, rfl⟩
      · exact mayHold_claim hc
      obtain ⟨c', hc', hid, -, -, rfl⟩ := ht path hpath
      have hheld : db.MayHold fold m.storageID (c'.storageID, c'.path) := mayHold_claim hc'
      rw [hid] at hheld
      exact hheld
    · rw [hmappings]
      exact fun m hm hroot => mayHold_mapping hm hroot
  | setLayout before recordID next =>
    simp only [transact, setStorageLayout] at hok
    split at hok
    · cases hok
    obtain ⟨hclaims, hfree, hmappings⟩ := setStorageLayoutTx_ok hok
    refine h.take before.storageID ?_ ?_
    · rw [hclaims]
      exact fun c hc => mayHold_claim hc
    intro m hm hroot
    rcases hmappings m hm with hm | ⟨hid, hnext⟩
    · exact mayHold_mapping hm hroot
    · rw [hnext]
      exact .inr ⟨hid, hfree⟩
  | claimAlias hash owner =>
    cases hok
    obtain ⟨hclaims, hmappings⟩ := claimStorageAlias_rows hash owner
    refine h.take [] ?_ ?_
    · rw [hclaims]
      exact fun c hc => mayHold_claim hc
    intro m hm hroot
    obtain ⟨m', hm', hid, hroot'⟩ := hmappings m hm
    rw [hid, hroot']
    rw [hroot'] at hroot
    exact mayHold_mapping hm' hroot

theorem step_disjoint : (db.step fold t).Disjoint fold := by
  cases hok : db.transact fold t with
  | error err =>
    simp only [step, hok]
    exact h
  | ok db' =>
    rw [step_ok hok]
    exact transact_disjoint h ht hok

end

theorem transact_retained {c : StorageClaim} (hc : c ∈ db.claims.rows) (hkind : c.kind = .retained)
    (ht : t.finishes c = false) (hok : db.transact fold t = .ok db') : c ∈ db'.claims.rows := by
  cases t with
  | create m hash v previous claims =>
    obtain ⟨-, -, hclaims⟩ := createStorageOperation_ok hok
    exact (hclaims c).2 (.inl ⟨hc, fun h => h.2 hkind⟩)
  | transition m hash v stage =>
    rw [(withOperation_ok hok).1]
    exact hc
  | commit before hash v next =>
    obtain ⟨-, -, hclaims⟩ := commitStorageOperation_ok hok
    have hsame : retainSource v c = c := by simp [retainSource, hkind]
    rw [hclaims, ← hsame]
    exact mem_map_of_mem hc
  | finish m hash v stage retained =>
    obtain ⟨-, hclaims⟩ := finishStorageOperation_ok hok
    refine (hclaims c).2 (.inl ⟨hc, ?_⟩)
    rintro ⟨hrecord, hversion⟩
    simp [StorageTransaction.finishes, hrecord, hversion] at ht
  | setLayout before recordID next =>
    simp only [transact, setStorageLayout] at hok
    split at hok
    · cases hok
    rw [(setStorageLayoutTx_ok hok).1]
    exact hc
  | claimAlias hash owner =>
    cases hok
    rw [(claimStorageAlias_rows hash owner).1]
    exact hc

theorem step_retained {c : StorageClaim} (hc : c ∈ db.claims.rows) (hkind : c.kind = .retained)
    (ht : t.finishes c = false) : c ∈ (db.step fold t).claims.rows := by
  cases hok : db.transact fold t with
  | error err =>
    simp only [step, hok]
    exact hc
  | ok db' =>
    rw [step_ok hok]
    exact transact_retained hc hkind ht hok

theorem mem_of_retains {c : StorageClaim} (h : t.Retains fold db c) :
    c ∈ (db.step fold t).claims.rows ∧ c.kind = .retained := by
  obtain ⟨hok, h⟩ := h
  obtain ⟨db', hok⟩ := exists_of_isOk hok
  rw [step_ok hok]
  cases t with
  | commit before hash v next =>
    obtain ⟨c', hc', hrecord, hversion, hkind, rfl⟩ := h
    obtain ⟨-, -, hclaims⟩ := commitStorageOperation_ok hok
    have hretained : retainSource v c' = { c' with kind := .retained } := by
      simp [retainSource, hrecord, hversion, hkind]
    rw [hclaims, ← hretained]
    refine ⟨mem_map_of_mem hc', ?_⟩
    rw [hretained]
  | finish m hash v stage retained =>
    obtain ⟨path, hpath, rfl⟩ := h
    obtain ⟨-, hclaims⟩ := finishStorageOperation_ok hok
    exact ⟨(hclaims _).2 (.inr ⟨path, hpath, rfl⟩), rfl⟩
  | _ => exact h.elim

/-- The paths of different owners stay apart, and what a commit or the end of an operation reports
as retained stays reserved until that operation ends again. -/
theorem namespaces_stay_disjoint (fold : Bytes → Bytes) (db : StorageDB)
    (ts : List StorageTransaction) (h : db.Disjoint fold)
    (hts : Along (step fold) (fun db t => t.RetainsClaimed db) db ts) :
    (exec (step fold) db ts).Disjoint fold ∧
      ∀ before t after c, ts = before ++ t :: after →
        t.Retains fold (exec (step fold) db before) c → (∀ t' ∈ after, t'.finishes c = false) →
        c ∈ (exec (step fold) db ts).claims.rows ∧
          ∀ p ∈ (exec (step fold) db ts).places, p.1 ≠ c.storageID →
            collides fold c.path p.2 = false := by
  have hdisjoint : (exec (step fold) db ts).Disjoint fold :=
    exec_invariant (fun _ _ hs ht => step_disjoint hs ht) h hts
  refine ⟨hdisjoint, ?_⟩
  intro before t after c hsplit hretains hafter
  obtain ⟨hc, hkind⟩ := mem_of_retains hretains
  have hkept : ∀ (db : StorageDB) (after : List StorageTransaction), c ∈ db.claims.rows →
      (∀ t' ∈ after, t'.finishes c = false) → c ∈ (exec (step fold) db after).claims.rows := by
    intro db after hc hafter
    induction after generalizing db with
    | nil => exact hc
    | cons t' after ih =>
      rw [forall_mem_cons] at hafter
      exact ih _ (step_retained hc hkind hafter.1) hafter.2
  have hmem : c ∈ (exec (step fold) db ts).claims.rows := by
    rw [hsplit, exec_append]
    exact hkept _ after hc hafter
  refine ⟨hmem, ?_⟩
  intro p hp hne
  have hplace : (c.storageID, c.path) ∈ (exec (step fold) db ts).places :=
    mem_places.2 (.inl ⟨c, hmem, rfl⟩)
  have hcollides := hdisjoint _ hplace p hp hne.symm
  simpa using hcollides

def twoStorages : StorageDB where
  mappings := ⟨[⟨ascii "h", 2, ascii "a", .ready, [], ascii "s", 1, []⟩,
    ⟨ascii "g", 2, ascii "b", .ready, [], ascii "t", 1, []⟩], by decide, by decide⟩
  intents hash := if hash = ascii "h" then some "record" else none
  torrents hash := if hash = ascii "h" then some false else none
  operations := .empty
  claims := .empty

def movingAway : List StorageTransaction :=
  let m : StorageMapping := ⟨ascii "h", 2, ascii "a", .ready, [], ascii "s", 1, []⟩
  let v : RecoveryRecord :=
    { recordID := "record", version := 1, reason := .move, stage := .planning }
  [.create m (ascii "h") v 0 [⟨ascii "s", "record", 1, ascii "a", .source⟩,
      ⟨ascii "s", "record", 1, ascii "c", .target⟩],
    .transition m (ascii "h") { v with stage := .published } .planning,
    .commit m (ascii "h") { v with stage := .published } ⟨2, ascii "c", []⟩]

/-- The end of the move, which keeps the directory that was left. -/
def movedAway : StorageTransaction :=
  .finish ⟨ascii "h", 2, ascii "c", .ready, [], ascii "s", 2, []⟩ (ascii "h")
    { recordID := "record", version := 1, reason := .move, stage := .completed } .committed
    [ascii "a"]

/-- The first storage has left its directory, which stays reserved for it: the second one may
not take it. -/
theorem namespaces_stay_disjoint_moving :
    let other : StorageMapping := ⟨ascii "g", 2, ascii "b", .ready, [], ascii "t", 1, []⟩
    let ts := movingAway ++ [movedAway, .setLayout other "" ⟨2, ascii "A", []⟩]
    let fold := fun path : Bytes => path.map lowerByte
    (exec (step fold) twoStorages ts).Disjoint fold ∧
      (exec (step fold) twoStorages ts).places =
        [(ascii "s", ascii "a"), (ascii "s", ascii "c"), (ascii "t", ascii "b")] := by
  intro other ts fold
  have hdisjoint : twoStorages.Disjoint fold := by
    unfold Disjoint Exclusive
    decide +kernel
  have hclaimed : (⟨ascii "s", "record", 1, ascii "a", .retained⟩ : StorageClaim) ∈
      (exec (step fold) twoStorages movingAway).claims.rows := by decide +kernel
  have hretains : movedAway.RetainsClaimed (exec (step fold) twoStorages movingAway) := by
    intro path hpath
    obtain rfl := mem_singleton.1 hpath
    exact ⟨_, hclaimed, rfl, rfl, rfl, rfl⟩
  have hrun : Along (step fold) (fun db t => t.RetainsClaimed db) twoStorages ts := by
    refine Along.append.2 ⟨⟨trivial, trivial, trivial, trivial⟩, hretains, ?_⟩
    exact ⟨trivial, trivial⟩
  exact ⟨(namespaces_stay_disjoint fold twoStorages ts hdisjoint hrun).1, by decide +kernel⟩

end StorageDB

end TorrentHub
