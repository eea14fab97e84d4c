import TorrentHub.Engine.ReadStamp
import TorrentHub.Repository.ReadVersion

namespace TorrentHub
open Lib List Along StampedEngine

structure Hub where
  runtime : StampedEngine
  db : ReadDB

structure Snapshot where
  before : List ReadDB.TorrentColumns
  runtime : List EngineTorrent

namespace Hub

inductive Action where
  | commit (t : ReadDB.Transaction)
  | engine (action : Engine.Action)

def step (s : Hub) : Action → Hub
  | .commit t => { s with db := s.db.transact t }
  | .engine action => { s with runtime := s.runtime.step action }

structure Gaps where
  versionError : Option RepoError := none
  toRead : List Action := []
  readError : Option RepoError := none
  toStamp : List Action := []
  toTable : List Action := []
  toRuntime : List (List Action) := []
  toAfter : List Action := []
  afterError : Option RepoError := none
  toValidate : List Action := []

variable (s : Hub)

/-- `GetAllTorrentsCached` after it has copied the table: one runtime after the other. -/
def readRuntimes : Hub → List Nat → List (List Action) → Hub × List EngineTorrent
  | s, [], _ => (s, [])
  | s, i :: rest, gaps =>
    let s := exec step s (gaps.headD [])
    let (s', read) := readRuntimes s rest gaps.tail
    (s', (s.runtime.engine.torrents[i]?).toList ++ read)

def table : List Nat := s.runtime.engine.managedTorrents.map (·.2)

def attempt (g : Gaps) : Hub × Except RepoError (Option Snapshot) :=
  match g.versionError with
  | some err => (s, .error err)
  | none =>
    let version := s.db.version
    let s := exec step s g.toRead
    match g.readError.elim s.db.getAllTorrents .error with
    | .error err => (s, .error err)
    | .ok before =>
      let s := exec step s g.toStamp
      let stamp := s.runtime.captureReadStamp ""
      let s := exec step s g.toTable
      let (s, runtime) := s.readRuntimes s.table g.toRuntime
      let s := exec step s g.toAfter
      match g.afterError with
      | some err => (s, .error err)
      | none =>
        let after := s.db.version
        let s := exec step s g.toValidate
        if version ≠ after || !s.runtime.validateReadStamp stamp then (s, .ok none)
        else (s, .ok (some ⟨before, runtime⟩))

def readConsistentTorrents (first second : Gaps) : Hub × Except RepoError Snapshot :=
  match s.attempt first with
  | (s, .error err) => (s, .error err)
  | (s, .ok (some snapshot)) => (s, .ok snapshot)
  | (s, .ok none) =>
    match s.attempt second with
    | (s, .error err) => (s, .error err)
    | (s, .ok (some snapshot)) => (s, .ok snapshot)
    | (s, .ok none) => (s, .error .conflict)

def atRead (g : Gaps) : Hub := exec step s g.toRead

def atStamp (g : Gaps) : Hub := exec step (s.atRead g) g.toStamp

def atTable (g : Gaps) : Hub := exec step (s.atStamp g) g.toTable

def capturing (g : Gaps) : List Action := (g.toRuntime.take (s.atTable g).table.length).flatten

def reading (g : Gaps) : List Action := g.toStamp ++ g.toTable ++ s.capturing g

def stamped (g : Gaps) : List Action := g.toTable ++ s.capturing g ++ g.toAfter ++ g.toValidate

def trace (g : Gaps) : List Action := g.toRead ++ g.toStamp ++ s.stamped g

variable {s : Hub} {g : Gaps} {snapshot : Snapshot} {actions : List Action}

theorem readRuntimes_fst (s : Hub) (runtimes : List Nat) (gaps : List (List Action)) :
    (s.readRuntimes runtimes gaps).1 = exec step s (gaps.take runtimes.length).flatten := by
  induction runtimes generalizing s gaps with
  | nil => rfl
  | cons i rest ih =>
    cases gaps with
    | nil =>
      have hrest := ih s []
      rw [take_nil] at hrest ⊢
      exact hrest
    | cons gap gaps =>
      simp only [readRuntimes, headD_cons, tail_cons, ih, length_cons,
        take_succ_cons, flatten_cons, exec_append]

theorem mem_readRuntimes {runtimes : List Nat} {gaps : List (List Action)} {t : EngineTorrent}
    (h : t ∈ (s.readRuntimes runtimes gaps).2) :
    ∃ i ∈ runtimes, ∃ x y, (gaps.take runtimes.length).flatten = x ++ y ∧
      (exec step s x).runtime.engine.torrents[i]? = some t := by
  induction runtimes generalizing s gaps with
  | nil => cases h
  | cons i rest ih =>
    obtain ⟨gap, tail, hflat⟩ : ∃ gap tail, gaps.headD [] = gap ∧ gaps.tail = tail ∧
        (gaps.take (rest.length + 1)).flatten = gap ++ (tail.take rest.length).flatten := by
      cases gaps with
      | nil => exact ⟨[], [], rfl, rfl, by simp⟩
      | cons gap tail => exact ⟨gap, tail, rfl, rfl, by simp⟩
    simp only [readRuntimes, hflat.1, hflat.2.1, mem_append, Option.mem_toList] at h
    rcases h with h | h
    · exact ⟨i, mem_cons_self, gap, _, hflat.2.2, h⟩
    · obtain ⟨j, hj, x, y, hxy, ht⟩ := ih h
      refine ⟨j, mem_cons_of_mem i hj, gap ++ x, y, ?_, by rwa [exec_append]⟩
      rw [length_cons, hflat.2.2, hxy, append_assoc]

theorem exec_trace (s : Hub) (g : Gaps) :
    exec step s (s.trace g) = exec step (exec step ((s.atTable g).readRuntimes (s.atTable g).table
      g.toRuntime).1 g.toAfter) g.toValidate := by
  simp only [trace, stamped, capturing, exec_append, readRuntimes_fst]
  rfl

theorem attempt_ok {s' : Hub} {result : Option Snapshot} (h : s.attempt g = (s', .ok result)) :
    s' = exec step s (s.trace g) ∧ ∀ snapshot, result = some snapshot →
      (s.atRead g).db.getAllTorrents = .ok snapshot.before ∧
      (exec step (s.atRead g) (s.reading g ++ g.toAfter)).db.version = s.db.version ∧
      s'.runtime.validateReadStamp ((s.atStamp g).runtime.captureReadStamp "") = true ∧
      snapshot.runtime = ((s.atTable g).readRuntimes (s.atTable g).table g.toRuntime).2 := by
  have hafter : exec step ((s.atTable g).readRuntimes (s.atTable g).table g.toRuntime).1
      g.toAfter = exec step (s.atRead g) (s.reading g ++ g.toAfter) := by
    simp only [reading, capturing, exec_append, readRuntimes_fst]
    rfl
  rw [exec_trace, ← hafter]
  cases hversion : g.versionError with
  | some err =>
    simp only [attempt, hversion] at h
    cases h
  | none =>
    cases hread : g.readError.elim (s.atRead g).db.getAllTorrents .error with
    | error err =>
      unfold atRead at hread
      simp only [attempt, hversion, hread] at h
      cases h
    | ok before =>
      have hrows : (s.atRead g).db.getAllTorrents = .ok before := by
        cases he : g.readError with
        | none =>
          rw [he] at hread
          exact hread
        | some err =>
          rw [he] at hread
          cases hread
      cases hlast : g.afterError with
      | some err =>
        unfold atRead at hread
        simp only [attempt, hversion, hread, hlast] at h
        cases h
      | none =>
        unfold atRead at hread
        simp only [attempt, hversion, hread, hlast] at h
        split at h
        · cases h
          exact ⟨rfl, nofun⟩
        next hvalid =>
        cases h
        simp only [Bool.or_eq_true, decide_eq_true_eq, not_or, not_not, Bool.not_eq_true',
          Bool.not_eq_false] at hvalid
        refine ⟨rfl, fun snapshot hs => ?_⟩
        cases hs
        exact ⟨hrows, hvalid.1.symm, hvalid.2, rfl⟩

def readFence : Fence Hub (String → Option ReadDB.TorrentColumns) where
  epoch s := s.db.version
  content s := s.db.columns

/-- The steps of others: transactions announce what they change, and every binding has an
attachment of its own. -/
def Admissible (s : Hub) : Action → Prop
  | .commit t => s.db.Announced (s.db.writes t)
  | .engine action => s.runtime.FreshBinding action

theorem step_advances (h : s.Admissible action) : readFence.Advances s (s.step action) := by
  cases action with
  | commit t => exact ⟨h.advances.le, h.advances.lt⟩
  | engine action => exact .of_eq rfl rfl

theorem exec_advances (h : Along step Admissible s actions) :
    readFence.Advances s (exec step s actions) := by
  induction actions generalizing s with
  | nil => exact .refl s
  | cons a actions ih => exact (step_advances h.1).trans (ih h.2)

theorem exec_later (h : Along step Admissible s actions) :
    s.runtime.Later (exec step s actions).runtime := by
  induction actions generalizing s with
  | nil => exact .refl _
  | cons a actions ih =>
    refine Later.trans ?_ (ih h.2)
    cases a with
    | commit t => exact .refl _
    | engine action => exact step_later h.1

theorem exec_inv (hs : s.runtime.Inv) (h : Along step Admissible s actions) :
    (exec step s actions).runtime.Inv := by
  refine exec_invariant (I := fun s : Hub => s.runtime.Inv) ?_ hs h
  intro s a hs ha
  cases a with
  | commit t => exact hs
  | engine action => exact hs.step ha

def start (limit : Int) (db : ReadDB) : Hub := ⟨{ engine := { maxActiveDownloads := limit } }, db⟩

theorem start_inv (limit : Int) (db : ReadDB) : (start limit db).runtime.Inv where
  bounded := Engine.run_bounded limit []
  kept i a h := by simp [start] at h

/-- A snapshot holds the rows that were read; what the list reads stays until the runtimes are
captured; and each stamped runtime looks the same until the stamp is validated. -/
structure Unchanged (s : Hub) (g : Gaps) (snapshot : Snapshot) : Prop where
  built : (s.atRead g).db.getAllTorrents = .ok snapshot.before
  durable : ∀ x y, s.reading g = x ++ y →
    (exec step (s.atRead g) x).db.columns = (s.atRead g).db.columns
  runtime : ∀ x y, s.stamped g = x ++ y →
    ∀ key entry, (key, entry) ∈ ((s.atStamp g).runtime.captureReadStamp "").entries →
      ((exec step (s.atStamp g) x).runtime.lookup key).map
        (fun e => (exec step (s.atStamp g) x).runtime.readEntry e.1 e.2) = some entry

/-- Moreover each runtime of the snapshot was read with a stamped entry. -/
structure Consistent (s : Hub) (g : Gaps) (snapshot : Snapshot) : Prop
    extends Unchanged s g snapshot where
  captured : ∀ t ∈ snapshot.runtime, ∃ x y i, s.stamped g = x ++ y ∧
    (exec step (s.atStamp g) x).runtime.engine.torrents[i]? = some t ∧
    (t.hash, (exec step (s.atStamp g) x).runtime.readEntry t i) ∈
      ((s.atStamp g).runtime.captureReadStamp "").entries

/-- A runtime that was captured but not stamped is still there when the stamp is validated. -/
def Enduring (s : Hub) (g : Gaps) : Prop :=
  ∀ i ∈ (s.atTable g).table, i ∈ (s.atStamp g).table ∨ i ∈ (exec step s (s.trace g)).table

instance (s : Hub) (g : Gaps) : Decidable (s.Enduring g) :=
  inferInstanceAs (Decidable (∀ i ∈ _, _))

theorem Unchanged.consistent (hu : Unchanged s g snapshot) (hg : s.Enduring g)
    (hvalid : (exec step s (s.trace g)).runtime.validateReadStamp
      ((s.atStamp g).runtime.captureReadStamp "") = true)
    (hread : snapshot.runtime = ((s.atTable g).readRuntimes (s.atTable g).table g.toRuntime).2) :
    Consistent s g snapshot := by
  refine { hu with captured := fun t ht => ?_ }
  rw [hread] at ht
  obtain ⟨i, hi, x, y, hxy, ht⟩ := mem_readRuntimes ht
  have hstamped : i ∈ (s.atStamp g).table := by
    rcases hg i hi with h | h
    · exact h
    · exact stamped_of_valid hvalid h
  obtain ⟨⟨a, j⟩, hmem, rfl⟩ := mem_map.1 hstamped
  have hentry : (a.hash, (s.atStamp g).runtime.readEntry a j) ∈
      ((s.atStamp g).runtime.captureReadStamp "").entries := by
    simp only [captureReadStamp, true_or, decide_true, filter_true]
    exact mem_map_of_mem hmem
  have hsplit : s.stamped g = (g.toTable ++ x) ++ (y ++ g.toAfter ++ g.toValidate) := by
    rw [stamped, capturing, hxy]
    simp only [append_assoc]
  have hsame := hu.runtime _ _ hsplit _ _ hentry
  rw [exec_append] at hsame
  obtain ⟨⟨b, k⟩, hlookup, heq⟩ := Option.map_eq_some_iff.1 hsame
  obtain ⟨hb, -, hhash⟩ := lookup_some hlookup
  obtain rfl : k = j := congrArg RuntimeReadEntry.owner heq
  obtain rfl : b = t := Option.some.inj (hb.symm.trans ht)
  exact ⟨_, _, k, hsplit, by rw [exec_append]; exact hb, by
    rw [exec_append, hhash]
    exact heq ▸ hentry⟩

theorem attempt_consistent (hs : s.runtime.Inv) (hadm : Along step Admissible s (s.trace g))
    (h : s.attempt g = (s', .ok (some snapshot))) :
    Unchanged s g snapshot ∧ (s.Enduring g → Consistent s g snapshot) := by
  obtain ⟨rfl, hsnap⟩ := attempt_ok h
  obtain ⟨hbuilt, hversion, hvalid, hcaptured⟩ := hsnap snapshot rfl
  suffices hu : Unchanged s g snapshot from ⟨hu, fun hg => hu.consistent hg hvalid hcaptured⟩
  rw [trace, append_assoc, append, append] at hadm
  obtain ⟨hread, hstamp, hrest⟩ := hadm
  have hsame : ∀ x y, s.reading g = x ++ y →
      (exec step (s.atRead g) x).db.columns = s.db.columns := by
    intro x y hxy
    have hall : Along step Admissible (s.atRead g) (x ++ (y ++ g.toAfter)) := by
      rw [← append_assoc, ← hxy, reading, append_assoc, append_assoc, append]
      rw [stamped, append] at hrest
      refine ⟨hstamp, ?_⟩
      rw [← append_assoc]
      exact hrest.1
    rw [append] at hall
    have hlater := (exec_advances hread).trans (exec_advances hall.1)
    refine hlater.pinned (exec_advances hall.2) ?_
    rw [← exec_append, ← append_assoc, ← hxy]
    exact hversion
  refine ⟨hbuilt, ?_, ?_⟩
  · intro x y hxy
    rw [hsame x y hxy]
    exact (hsame [] (s.reading g) rfl).symm
  intro x y hxy key entry hmem
  rw [hxy, append] at hrest
  have hinv : (s.atStamp g).runtime.Inv := exec_inv (exec_inv hs hread) hstamp
  refine stamp_between hinv (exec_inv hinv hrest.1) (exec_later hrest.1)
    (exec_later hrest.2) ?_ hmem
  have hend : exec step s (s.trace g) = exec step (exec step (s.atStamp g) x) y := by
    rw [trace, exec_append, exec_append, hxy, exec_append]
    rfl
  rw [← hend]
  exact hvalid

theorem readConsistentTorrents_cases
    (h : (s.readConsistentTorrents first second).2 = .ok snapshot) :
    (∃ s', s.attempt first = (s', .ok (some snapshot))) ∨
      ∃ s', (exec step s (s.trace first)).attempt second = (s', .ok (some snapshot)) := by
  unfold readConsistentTorrents at h
  split at h
  · cases h
  next s' snapshot' hfirst =>
    cases h
    exact .inl ⟨s', hfirst⟩
  next s' hfirst =>
  obtain ⟨rfl, -⟩ := attempt_ok hfirst
  split at h
  · cases h
  next s'' snapshot' hsecond =>
    cases h
    exact .inr ⟨s'', hsecond⟩
  · cases h

/-- A committed transaction raises the global version with every change if and only if it announces
it. In a run in which all do, the version rises with every change, and a snapshot that is returned
is consistent if the runtimes captured but not stamped are enduring. -/
theorem consistent_read_when_announced (limit : Int) (db : ReadDB) :
    (∀ (db : ReadDB) (t : ReadDB.Transaction), db.Announced (db.writes t) ↔
      ((∃ hash, (db.transact t).columns hash ≠ db.columns hash) →
        db.version < (db.transact t).version)) ∧
    ∀ (past : List Action) (first second : Gaps),
      let s := exec step (start limit db) past
      let s' := exec step s (s.trace first)
      Along step Admissible (start limit db) (past ++ (s.trace first ++ s'.trace second)) →
        (∀ x y z, past ++ (s.trace first ++ s'.trace second) = x ++ (y ++ z) →
          let u := exec step (start limit db) x
          let v := exec step u y
          u.db.version ≤ v.db.version ∧
            (v.db.columns ≠ u.db.columns → u.db.version < v.db.version)) ∧
        ∀ snapshot, (s.readConsistentTorrents first second).2 = .ok snapshot →
          (Unchanged s first snapshot ∧ (s.Enduring first → Consistent s first snapshot)) ∨
          (Unchanged s' second snapshot ∧
            (s'.Enduring second → Consistent s' second snapshot)) := by
  refine ⟨fun db t => ReadDB.announced_iff db (db.writes t), ?_⟩
  intro past first second s s' hadm
  refine ⟨?_, ?_⟩
  · intro x y z hxyz u v
    rw [hxyz, append, append] at hadm
    have hadvances := exec_advances hadm.2.1
    exact ⟨hadvances.le, hadvances.lt⟩
  intro snapshot hread
  rw [append, append] at hadm
  obtain ⟨hpast, hfirst, hsecond⟩ := hadm
  have hs : s.runtime.Inv := exec_inv (start_inv limit db) hpast
  rcases readConsistentTorrents_cases hread with ⟨_, h⟩ | ⟨_, h⟩
  · exact .inl (attempt_consistent hs hfirst h)
  · exact .inr (attempt_consistent (exec_inv hs hfirst) hsecond h)

def newMapping : ReadDB.StorageRow := { hash := "a", storageID := "v" }

def mappedDB : ReadDB where
  session := "s"
  torrents := Table.empty.put { hash := "a" }
  files := Table.empty.put { hash := "a", index := 0, path := "f", size := 1 }
  intents := Table.empty.put { hash := "a", recordID := "r" }
  storage := Table.empty.put newMapping

def walkedDB : ReadDB :=
  { mappedDB with
    inventory := Table.empty.put { storageID := "v", mappingRevision := 1, session := "s" } }

def firstPage : SaveRequest where
  status := .pending
  reason := ""
  cursor := 0
  files := [{ index := 0, path := "f", size := 1, expected := true, metadataPath := "f" }]

def primed : Gaps where
  toStamp := [.commit (.primeNewInventory newMapping "s")]

def retitled : Gaps where
  toStamp := [.commit (.other [.torrent (.update { hash := "a", title := "t" })])]

/-- A runtime of torrent `a` is registered and published. -/
def registered : List Action :=
  [.engine (.register "a" 0 ⟨true, some 1, true⟩ none false {}),
    .engine (.torrent 0 (.returned 0 {}) ⟨id, .refl⟩)]

/-- It is registered after the stamp and deleted again before the validation. -/
def fleeting : Gaps where
  toTable := registered
  toValidate := [.engine (.torrent 0 (.call .delete {}) ⟨id, .refl⟩)]

def withRuntime : Hub := exec step (start 1 mappedDB) registered

theorem consistent_read_retitled :
    ∃ snapshot, (withRuntime.readConsistentTorrents retitled {}).2 = .ok snapshot ∧
      (withRuntime.atTable retitled).table = [0] ∧
      (Consistent withRuntime retitled snapshot ∨
        Consistent (exec step withRuntime (withRuntime.trace retitled)) {} snapshot) := by
  have hok : (withRuntime.readConsistentTorrents retitled {}).2.isOk = true := by
    decide +kernel
  obtain ⟨snapshot, hread⟩ := exists_of_isOk hok
  have hannounced := (consistent_read_when_announced 1 mappedDB).2 registered retitled {}
    ⟨trivial, trivial, .inl (by decide +kernel), trivial⟩
  refine ⟨snapshot, hread, by decide +kernel, ?_⟩
  rcases hannounced.2 snapshot hread with h | h
  · exact .inl (h.2 (by decide +kernel))
  · exact .inr (h.2 (by decide +kernel))

/-- Neither the first row of an inventory nor a metadata path moves the version, so that a snapshot
is returned although the list has changed; and a snapshot is returned with a runtime that was never
stamped, in a run in which every change is announced. -/
theorem list_changes_unannounced :
    (∃ snapshot, ((start 1 mappedDB).readConsistentTorrents primed {}).2 = .ok snapshot ∧
      ¬ Unchanged (start 1 mappedDB) primed snapshot) ∧
    (mappedDB.transact (.primeNewInventory newMapping "s")).version = mappedDB.version ∧
    (mappedDB.transact (.primeNewInventory newMapping "s")).columns "a" ≠ mappedDB.columns "a" ∧
    (walkedDB.transact (.saveInventory newMapping "r" "s" firstPage 1)).version =
      walkedDB.version ∧
    (walkedDB.transact (.saveInventory newMapping "r" "s" firstPage 1)).columns "a" ≠
      walkedDB.columns "a" ∧
    Along step Admissible (start 1 mappedDB) ((start 1 mappedDB).trace fleeting) ∧
    ∃ snapshot, ((start 1 mappedDB).readConsistentTorrents fleeting {}).2 = .ok snapshot ∧
      ¬ Consistent (start 1 mappedDB) fleeting snapshot := by
  have hok : ((start 1 mappedDB).readConsistentTorrents primed {}).2.isOk = true := by
    decide +kernel
  obtain ⟨snapshot, hread⟩ := exists_of_isOk hok
  have hfleeting : (((start 1 mappedDB).readConsistentTorrents fleeting {}).2.toOption.any
      fun snapshot => snapshot.runtime.length = 1) = true := by
    decide +kernel
  refine ⟨⟨snapshot, hread, fun h => ?_⟩, by decide +kernel, by decide +kernel, by decide +kernel,
    by decide +kernel, ⟨trivial, trivial, trivial, trivial⟩, ?_⟩
  · have hsame := h.durable ((start 1 mappedDB).reading primed) [] (append_nil _).symm
    have hread := congrFun hsame "a"
    revert hread
    decide +kernel
  · cases hread : ((start 1 mappedDB).readConsistentTorrents fleeting {}).2 with
    | error err => simp [hread, Except.toOption] at hfleeting
    | ok snapshot =>
      refine ⟨snapshot, rfl, fun h => ?_⟩
      have hone : snapshot.runtime.length = 1 := by
        simpa [hread, Except.toOption] using hfleeting
      obtain ⟨t, ht⟩ := length_eq_one_iff.1 hone
      obtain ⟨_, _, _, -, -, hmem⟩ := h.captured t (by simp [ht])
      have hnone :
          (((start 1 mappedDB).atStamp fleeting).runtime.captureReadStamp "").entries = [] := by
        decide +kernel
      rw [hnone] at hmem
      cases hmem

end Hub

end TorrentHub
