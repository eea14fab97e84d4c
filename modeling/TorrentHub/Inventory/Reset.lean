import TorrentHub.Inventory.Verdict

namespace TorrentHub
open Lib InventoryFile List

structure VisitFlight where
  mapping : StorageMapping
  recordID : Bytes
  request : SaveRequest
  current : Bool

/-- The tables, the visit that holds the ticket, and the indices observed by visits that began after
the latest committed reset. -/
structure InventoryRun where
  db : InventoryDB
  flight : Option VisitFlight := none
  fresh : List Nat := []

inductive InventoryAction where
  | begin (world : VisitWorld) (repair : Bool)
  | commit
  | abandon
  | queue
  | observe

namespace InventoryRun

def step (session : String) (s : InventoryRun) : InventoryAction → InventoryRun
  | .begin world repair =>
    match s.flight, inspectInventory s.db session world repair with
    | none, some req =>
      { s with flight := some ⟨s.db.owner.mapping, s.db.owner.recordID, req, true⟩ }
    | _, _ => s
  | .commit =>
    match s.flight with
    | none => s
    | some v =>
      match saveInventory s.db v.mapping v.recordID session v.request with
      | none => { s with flight := none }
      | some db =>
        { db := db
          flight := none
          fresh :=
            if v.current then s.fresh ++ v.request.files.map InventoryFile.index else s.fresh }
  | .abandon => { s with flight := none }
  | .queue =>
    match queueInventory s.db s.db.owner.mapping s.db.owner.recordID session with
    | none => s
    | some db =>
      { db := db, flight := s.flight.map fun v => { v with current := false }, fresh := [] }
  | .observe =>
    match saveInventory s.db s.db.owner.mapping s.db.owner.recordID session
        { status := .observing, reason := "", cursor := -1 } with
    | none => s
    | some db => { s with db := db }

def Covered (catalog : Catalog) (indices : List Nat) (c : Int) : Prop :=
  ∀ f ∈ catalog.files, (f.index : Int) ≤ c → f.index ∈ indices

structure Promise (catalog : Catalog) (indices : List Nat) (status : InventoryStatus)
    (cursor : Int) : Prop where
  ready : status = .ready → ∀ f ∈ catalog.files, f.index ∈ indices
  walking : status = .pending ∨ status = .observing → Covered catalog indices cursor

/-- The row keeps its promise about the current session and revision, and so does the save in
flight of a visit that began after the latest reset. -/
structure Tracked (session : String) (s : InventoryRun) : Prop where
  row : ∀ r, s.db.row = some r → r.session = session →
    r.revision = s.db.owner.mapping.revision → Promise s.db.catalog s.fresh r.status r.cursor
  flight : ∀ v, s.flight = some v → v.current = true →
    v.mapping.revision = s.db.owner.mapping.revision ∧
    Promise s.db.catalog (s.fresh ++ v.request.files.map InventoryFile.index) v.request.status
      v.request.cursor

variable {session : String} {s : InventoryRun} {world : VisitWorld} {repair : Bool}
  {db db' : InventoryDB} {req : SaveRequest} {start : VisitStart} {indices : List Nat}
  {catalog : Catalog}

theorem covered_start (catalog : Catalog) (indices : List Nat) : Covered catalog indices (-1) := by
  intro f _ hle
  omega

theorem promise_blocked (catalog : Catalog) (indices : List Nat) (cursor : Int) :
    Promise catalog indices .blocked cursor :=
  ⟨fun h => (by cases h), fun h => by rcases h with h | h <;> cases h⟩

theorem Tracked.covered (h : Tracked session s)
    (hs : visitStart s.db.row s.db.owner.mapping session repair = some start) :
    Covered s.db.catalog s.fresh start.cursor := by
  unfold visitStart at hs
  split at hs
  · cases hs
    exact covered_start _ _
  next r hr =>
  split at hs
  · cases hs
  split at hs
  · cases hs
  split at hs
  next hcur =>
    cases hs
    exact (h.row r hr hcur.2.2 hcur.2.1).walking hcur.1
  · cases hs
    exact covered_start _ _

theorem promise_request (hc : Covered db.catalog indices start.cursor)
    (h : inspectStarted db world repair start = some req) :
    Promise db.catalog (indices ++ req.files.map index) req.status req.cursor := by
  rcases inspectStarted_cases h with ⟨hb, -⟩ | ⟨count, hpage⟩
  · rw [hb]
    exact promise_blocked _ _ _
  obtain ⟨hs, hcur, hm, -⟩ := inspectPage_request hpage
  have hmem : ∀ f ∈ page (fun f : CatalogFile => (f.index : Int)) inventoryPageSize
      start.cursor db.catalog.files, f.index ∈ req.files.map index := by
    intro f hf
    rw [hm, visitPage, inventoryFiles, map_map]
    exact mem_map.2 ⟨f, hf, rfl⟩
  refine ⟨fun hready f hf => ?_, fun _ f hf hle => ?_⟩
  · have hlen : (visitPage db start).length < inventoryPageSize := by
      rw [hs] at hready
      unfold pageStatus at hready
      split at hready
      · assumption
      · split at hready <;> cases hready
    rw [visitPage, inventoryFiles, length_map] at hlen
    rw [mem_append]
    rcases le_or_mem_last_page hlen hf with hle | hpage
    · exact .inl (hc f hf hle)
    · exact .inr (hmem f hpage)
  · rw [hcur, advance_visitPage] at hle
    rw [mem_append]
    rcases le_or_mem_page db.catalog.ascending hf hle with hle | hpage
    · exact .inl (hc f hf hle)
    · exact .inr (hmem f hpage)

/-- A save that succeeds is one of a visit that began after the latest reset. -/
def SavesCurrent (session : String) (s : InventoryRun) (action : InventoryAction) : Prop :=
  action = .commit → ∀ v, s.flight = some v →
    (saveInventory s.db v.mapping v.recordID session v.request).isSome = true → v.current = true

section

variable (h : Tracked session s)
include h

theorem Tracked.begin (world : VisitWorld) (repair : Bool) :
    Tracked session (s.step session (.begin world repair)) := by
  simp only [step]
  split
  next req hf hreq =>
    obtain ⟨start, hs, hi⟩ := inspectInventory_started hreq
    refine ⟨h.row, fun v hv _ => ?_⟩
    cases hv
    exact ⟨rfl, promise_request (h.covered hs) hi⟩
  · exact h

theorem Tracked.commit (hq : s.SavesCurrent session .commit) :
    Tracked session (s.step session .commit) := by
  simp only [step]
  split
  · exact h
  next v hv =>
  split
  · exact ⟨h.row, fun v hv => by cases hv⟩
  next db hsave =>
  have hcur := hq rfl v hv (by rw [hsave]; rfl)
  obtain ⟨hrev, hp⟩ := h.flight v hv hcur
  have hs := saveInventory_saved hsave
  refine ⟨fun r hr _ _ => ?_, fun v hv => by cases hv⟩
  rw [hs.row] at hr
  cases hr
  rw [hcur, if_pos rfl, hs.catalog]
  exact hp

theorem Tracked.abandon : Tracked session (s.step session .abandon) :=
  ⟨h.row, fun v hv => by cases hv⟩

end

theorem tracked_restarted {status : InventoryStatus} {reason : String} {m : StorageMapping}
    (hsave : Saved db m session ⟨status, reason, -1, [], false⟩ db')
    (hstatus : status ≠ .ready) {flight : Option VisitFlight}
    (hflight : ∀ v, flight = some v → v.current = true →
      v.mapping.revision = db.owner.mapping.revision ∧
      Promise db.catalog (indices ++ v.request.files.map index) v.request.status
        v.request.cursor) : Tracked session ⟨db', flight, indices⟩ := by
  refine ⟨fun r hr _ _ => ?_, fun v hv hcur => ?_⟩
  · change db'.row = some r at hr
    rw [hsave.row] at hr
    cases hr
    exact ⟨fun hready => absurd hready hstatus, fun _ => covered_start _ _⟩
  obtain ⟨hrev, hp⟩ := hflight v hv hcur
  refine ⟨?_, ?_⟩
  · change _ = db'.owner.mapping.revision
    rw [hsave.owner]
    exact hrev
  change Promise db'.catalog _ _ _
  rw [hsave.catalog]
  exact hp

theorem Tracked.queue (h : Tracked session s) : Tracked session (s.step session .queue) := by
  simp only [step]
  split
  · exact h
  next db hsave =>
  apply tracked_restarted (saveInventory_saved hsave) (by decide)
  intro v hv hcur
  obtain ⟨u, -, rfl⟩ := Option.map_eq_some_iff.1 hv
  cases hcur

theorem Tracked.observe (h : Tracked session s) : Tracked session (s.step session .observe) := by
  simp only [step]
  split
  · exact h
  next db hsave => exact tracked_restarted (saveInventory_saved hsave) (by decide) h.flight

theorem Tracked.step (h : Tracked session s) {action : InventoryAction}
    (hq : s.SavesCurrent session action) : Tracked session (s.step session action) := by
  cases action with
  | begin world repair => exact h.begin world repair
  | commit => exact h.commit hq
  | abandon => exact h.abandon
  | queue => exact h.queue
  | observe => exact h.observe

theorem Tracked.ready (h : Tracked session s) (hr : InventoryReady session s.db) :
    ∀ f ∈ s.db.catalog.files, f.index ∈ s.fresh := by
  obtain ⟨r, hrow, hs, hrev, hready⟩ := hr
  exact (h.row r hrow hs hrev).ready hready

/-- As long as no visit that began before a reset saves after it: whenever the row is ready,
every file of the catalog was observed by a visit that began after the latest reset. -/
theorem inventory_reset_not_lost {actions : List InventoryAction}
    (hreset : queueInventory db db.owner.mapping db.owner.recordID session = some db')
    (h : Along (step session) (SavesCurrent session) ⟨db', none, []⟩ actions)
    (hready : InventoryReady session (exec (step session) ⟨db', none, []⟩ actions).db) :
    ∀ f ∈ (exec (step session) ⟨db', none, []⟩ actions).db.catalog.files,
      f.index ∈ (exec (step session) ⟨db', none, []⟩ actions).fresh := by
  have hstart : Tracked session ⟨db', none, []⟩ :=
    tracked_restarted (saveInventory_saved hreset) (by decide) (fun v hv => by cases hv)
  have hend := exec_invariant (fun s a (hs : Tracked session s) hq => hs.step hq) hstart h
  exact hend.ready hready

def oneFileInventory : InventoryDB :=
  { blockedInventory with catalog := ⟨[⟨0, "a", 1⟩], by simp⟩ }

def oneFileQueued : InventoryDB :=
  { oneFileInventory with row := some ⟨1, "old", .pending, "", -1⟩ }

theorem oneFile_observed :
    0 ∈ (exec (step "old") ⟨oneFileQueued, none, []⟩
      [.begin (presentWorld 1) false, .commit]).fresh := by
  have hreset : queueInventory oneFileInventory oneFileInventory.owner.mapping
      oneFileInventory.owner.recordID "old" = some oneFileQueued := rfl
  have hq : Along (step "old") (SavesCurrent "old") ⟨oneFileQueued, none, []⟩
      [.begin (presentWorld 1) false, .commit] :=
    ⟨fun h => (by cases h), fun _ v hv _ => (by cases hv; rfl), trivial⟩
  exact inventory_reset_not_lost hreset hq ⟨⟨1, "old", .ready, "", 0⟩, by decide, rfl, rfl, rfl⟩
    ⟨0, "a", 1⟩ (by decide)

/-- A reset committed inside a visit is overwritten: the row is ready, and the one file was observed
before the reset. -/
theorem inventory_reset_overwritten :
    let s := exec (step "old") ⟨oneFileQueued, none, []⟩
      [.begin (presentWorld 1) false, .queue, .commit]
    s.db.row = some ⟨1, "old", .ready, "", 0⟩ ∧
      s.db.catalog.files = [⟨0, "a", 1⟩] ∧ 0 ∉ s.fresh := by
  exact ⟨by decide, rfl, by decide⟩

end InventoryRun

end TorrentHub
