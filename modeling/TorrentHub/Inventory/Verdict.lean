import TorrentHub.Inventory.Spec
import TorrentHub.Lib.Run

namespace TorrentHub
open Lib List Option

variable {session : String} {db db' : InventoryDB} {req : SaveRequest} {world : VisitWorld}
  {start : VisitStart} {f : InventoryFile} {files : List InventoryFile} {reason : String}
  {count : Nat}

variable {observing : Bool} {length : Nat} {worlds : List VisitWorld}

theorem visit_cases (session : String) (db : InventoryDB) (world : VisitWorld) :
    visit session false db world = db ∨
      ∃ start req, visitStart db.row db.owner.mapping session false = some start ∧
        inspectStarted db world false start = some req ∧
        saveInventory db db.owner.mapping db.owner.recordID session req =
          some (visit session false db world) := by
  unfold visit
  split
  · exact .inl rfl
  next req hreq =>
  obtain ⟨start, hstart, hi⟩ := inspectInventory_started hreq
  cases hs : saveInventory db db.owner.mapping db.owner.recordID session req with
  | none => exact .inl rfl
  | some db' => exact .inr ⟨start, req, hstart, hi, hs⟩

def InventoryReady (session : String) (db : InventoryDB) : Prop :=
  ∃ s, db.row = some s ∧ s.session = session ∧ s.revision = db.owner.mapping.revision ∧
    s.status = .ready

def InventoryBlocked (db : InventoryDB) : Prop := ∃ s, db.row = some s ∧ s.status = .blocked

def WalkEnded (session : String) (db : InventoryDB) : Prop :=
  visitStart db.row db.owner.mapping session false = none

theorem WalkEnded.cases (h : WalkEnded session db) :
    InventoryReady session db ∨ InventoryBlocked db := by
  unfold WalkEnded visitStart at h
  split at h
  · cases h
  next s hs =>
  split at h
  next hr => exact .inl ⟨s, hs, hr.1, hr.2.1, hr.2.2.1⟩
  split at h
  next hb => exact .inr ⟨s, hs, hb.1⟩
  · split at h <;> cases h

/-- A walk whose visits start with the reason `ρ`. -/
structure Walk (session ρ : String) (db : InventoryDB) : Prop where
  start : ∀ start, visitStart db.row db.owner.mapping session false = some start →
    start.reason = ρ
  not_blocked : ρ = "" → ¬ InventoryBlocked db
  not_ready : ρ ≠ "" → ¬ InventoryReady session db

theorem visitStart_saved (m : StorageMapping) (session : String) (observing : Bool)
    (length : Nat) (reason : String) (cursor : Int) :
    visitStart (some ⟨m.revision, session, pageStatus observing length reason, reason, cursor⟩)
        m session false =
      if length < inventoryPageSize then none else some ⟨cursor, reason, observing⟩ := by
  unfold pageStatus
  split
  · split <;> simp [visitStart]
  · cases observing <;> simp [visitStart]

theorem pageStatus_blocked (h : pageStatus observing length reason = .blocked) : reason ≠ "" := by
  unfold pageStatus at h
  split at h
  · split at h
    · cases h
    · assumption
  · split at h <;> cases h

theorem pageStatus_ready (h : pageStatus observing length reason = .ready) : reason = "" := by
  unfold pageStatus at h
  split at h
  · split at h
    · assumption
    · cases h
  · split at h <;> cases h

variable {ρ : String}

section

variable (hw : Walk session ρ db) (hc : CleanVisit session db world)
include hw hc

theorem visit_clean (hs : visitStart db.row db.owner.mapping session false = some start)
    (hi : inspectStarted db world false start = some req)
    (h : saveInventory db db.owner.mapping db.owner.recordID session req = some db') :
    db'.owner = db.owner ∧ db'.catalog = db.catalog ∧
      db'.row = some ⟨db.owner.mapping.revision, session,
        pageStatus start.observing (visitPage db start).length ρ, ρ,
        advance (fun f : InventoryFile => (f.index : Int)) start.cursor (visitPage db start)⟩ ∧
      (ρ ≠ "expected_file_missing" → db'.missingBlock = db.missingBlock) := by
  have hsaved := saveInventory_saved h
  obtain ⟨hr, hp, hst, hcur⟩ := inspectStarted_clean hc.volume hc.metadata (hc.files start hs) hi
  have hρ := hw.start start hs
  rw [hρ] at hr hst
  refine ⟨hsaved.owner, hsaved.catalog, ?_, fun hne => ?_⟩
  · rw [hsaved.row, hr, hst, hcur]
  · exact hsaved.missingBlock (by rw [hr]; exact hne) hp

theorem Walk.step : Walk session ρ (visit session false db world) := by
  rcases visit_cases session db world with he | ⟨start, req, hs, hi, h⟩
  · rw [he]
    exact hw
  obtain ⟨ho, -, hrow, -⟩ := visit_clean hw hc hs hi h
  refine ⟨fun start' hs' => ?_, fun hρ => ?_, fun hρ => ?_⟩
  · rw [hrow, ho, visitStart_saved] at hs'
    split at hs' <;> cases hs'
    rfl
  · rintro ⟨s, hrow', hb⟩
    rw [hrow] at hrow'
    cases hrow'
    exact pageStatus_blocked hb hρ
  · rintro ⟨s, hrow', -, -, hb⟩
    rw [hrow] at hrow'
    cases hrow'
    exact hρ (pageStatus_ready hb)

end

theorem Walk.missingBlock (hw : Walk session "" db) (hc : CleanVisit session db world) :
    (visit session false db world).missingBlock = db.missingBlock := by
  rcases visit_cases session db world with he | ⟨start, req, hs, hi, h⟩
  · rw [he]
  · exact (visit_clean hw hc hs hi h).2.2.2 (by decide)

def VisitSaves (session : String) (db : InventoryDB) (world : VisitWorld) : Prop :=
  ∃ req db', inspectInventory db session world false = some req ∧
    saveInventory db db.owner.mapping db.owner.recordID session req = some db'

def remaining (db : InventoryDB) (start : VisitStart) : Nat :=
  (beyond (fun f : CatalogFile => (f.index : Int)) start.cursor db.catalog.files).length

theorem visitPage_length (db : InventoryDB) (start : VisitStart) :
    (visitPage db start).length = min inventoryPageSize (remaining db start) := by
  simp only [visitPage, inventoryFiles, length_map, page, length_take, remaining]

theorem visit_progress (hw : Walk session ρ db) (hc : CleanVisit session db world)
    (hs : visitStart db.row db.owner.mapping session false = some start)
    (hv : VisitSaves session db world) : WalkEnded session (visit session false db world) ∨
      ∃ start', visitStart (visit session false db world).row
          (visit session false db world).owner.mapping session false = some start' ∧
        remaining (visit session false db world) start' + inventoryPageSize =
          remaining db start := by
  obtain ⟨req, db', hreq, hsave⟩ := hv
  have hvisit : visit session false db world = db' := by
    simp only [visit, hreq, hsave, getD_some]
  have hi : inspectStarted db world false start = some req := by
    obtain ⟨start', hs', hi⟩ := inspectInventory_started hreq
    rw [hs] at hs'
    cases hs'
    exact hi
  obtain ⟨ho, hcat, hrow, -⟩ := visit_clean hw hc hs hi hsave
  rw [hvisit]
  by_cases hlen : (visitPage db start).length < inventoryPageSize
  · left
    rw [WalkEnded, hrow, ho, visitStart_saved, if_pos hlen]
  right
  refine ⟨_, by rw [hrow, ho, visitStart_saved, if_neg hlen], ?_⟩
  have hfull := visitPage_length db start
  simp only [remaining, hcat] at hfull ⊢
  rw [advance_visitPage, beyond_advance db.catalog.ascending, length_drop]
  omega

theorem visit_ended (h : WalkEnded session db) (world : VisitWorld) :
    visit session false db world = db := by
  rcases visit_cases session db world with he | ⟨start, req, hs, -, -⟩
  · exact he
  · rw [WalkEnded, hs] at h
    cases h

/-- From a reset on, as long as nothing goes wrong in a visit, the storage is not blocked and no
block is inserted, the walk ends ready as soon as enough visits have committed a page. -/
def VerdictLaw (session : String) (db : InventoryDB) : Prop :=
  ∀ worlds, Along (visit session false) (CleanVisit session) db worlds →
    ¬ InventoryBlocked (exec (visit session false) db worlds) ∧
      (exec (visit session false) db worlds).missingBlock = db.missingBlock ∧
      (Along (visit session false)
        (fun db world => VisitSaves session db world ∨ WalkEnded session db) db worlds →
        db.catalog.files.length / inventoryPageSize < worlds.length →
        InventoryReady session (exec (visit session false) db worlds))

theorem Walk.run (hw : Walk session ρ db)
    (hc : Along (visit session false) (CleanVisit session) db worlds) :
    Walk session ρ (exec (visit session false) db worlds) :=
  exec_invariant (fun _ _ hw hc => hw.step hc) hw hc

theorem Walk.missingBlock_run (hw : Walk session "" db)
    (hc : Along (visit session false) (CleanVisit session) db worlds) :
    (exec (visit session false) db worlds).missingBlock = db.missingBlock := by
  induction worlds generalizing db with
  | nil => rfl
  | cons world worlds ih => rw [exec_cons, ih (hw.step hc.1) hc.2, hw.missingBlock hc.1]

theorem Walk.ends (hw : Walk session ρ db)
    (hc : Along (visit session false) (CleanVisit session) db worlds)
    (hv : Along (visit session false)
      (fun db world => VisitSaves session db world ∨ WalkEnded session db) db worlds)
    (hlen : ∀ start, visitStart db.row db.owner.mapping session false = some start →
      remaining db start < inventoryPageSize * worlds.length) :
    WalkEnded session (exec (visit session false) db worlds) := by
  induction worlds generalizing db with
  | nil =>
    cases hs : visitStart db.row db.owner.mapping session false with
    | none => exact hs
    | some start =>
      have hlt := hlen start hs
      simp at hlt
  | cons world worlds ih =>
    rw [exec_cons]
    apply ih (hw.step hc.1) hc.2 hv.2
    intro start' hs'
    cases hs : visitStart db.row db.owner.mapping session false with
    | none =>
      rw [visit_ended hs, hs] at hs'
      cases hs'
    | some start =>
      have hsaves : VisitSaves session db world := by
        rcases hv.1 with hsaves | hend
        · exact hsaves
        · rw [WalkEnded, hs] at hend
          cases hend
      rcases visit_progress hw hc.1 hs hsaves with hend | ⟨start'', hs'', hrem⟩
      · rw [WalkEnded, hs'] at hend
        cases hend
      rw [hs'] at hs''
      cases hs''
      have hlt := hlen start hs
      rw [length_cons, Nat.mul_add] at hlt
      omega

/-- The tables are open to the session: its token is the active one and the record is not
being deleted. -/
structure LiveInventory (session : String) (db : InventoryDB) : Prop where
  session_ne : session ≠ ""
  active : db.activeSession = session
  not_deleting : db.owner.deleting = false

def presentWorld (count : Nat) : VisitWorld where
  metadata := .info count

theorem presentWorld_clean (session : String) (db : InventoryDB) (count : Nat) :
    CleanVisit session db (presentWorld count) where
  volume := rfl
  metadata h := by cases h
  files _ _ _ _ := ⟨fun h => (by cases h), fun h => by cases h⟩

def presentFile (f : InventoryFile) : InventoryFile :=
  { f with metadataPath := "", presence := .present, expected := true }

theorem inspectFiles_present (hc : ∀ f ∈ files, f.index < count) (cursor : Int) (reason : String) :
    inspectFiles (presentWorld count) false count files cursor reason = some (files.map presentFile,
        advance (fun f : InventoryFile => (f.index : Int)) cursor files, reason) := by
  induction files generalizing cursor with
  | nil => rfl
  | cons f files ih =>
    have hf := hc f (by simp)
    have hfile : inspectFile (presentWorld count) false f reason =
        some (presentFile f, reason) := rfl
    have hgo : ¬ ((presentWorld count).cancelled f.index = true ∨ count ≤ f.index ∨
        (presentWorld count).located f.index = false) := by
      simp only [presentWorld, Bool.false_eq_true, Bool.true_eq_false, or_false, false_or]
      omega
    have hrest := ih (fun g hg => hc g (by simp [hg])) (presentFile f).index
    simp only [inspectFiles, if_neg hgo, hfile, hrest]
    rfl

theorem saveFiles_present (m : StorageMapping) (id : Bytes) (h : ∀ f ∈ files, f.metadataPath = "" ∧
      ∃ c ∈ db.catalog.files, c.index = f.index ∧ c.path = f.path ∧ c.size = f.size) :
    ∃ db', files.foldlM (saveFile m id) db = some db' := by
  induction files generalizing db with
  | nil => exact ⟨db, rfl⟩
  | cons f files ih =>
    obtain ⟨hm, c, hc, hi, hp, hs⟩ := h f (by simp)
    have hone : (db.catalog.files.filter fun c =>
        c.index == f.index && c.path == f.path && c.size == f.size).length = 1 := by
      apply filter_length_eq_one db.catalog.ascending hc
      · simp [hi, hp, hs]
      · intro b _ hb
        simp only [Bool.and_eq_true, beq_iff_eq] at hb
        rw [hb.1.1, hi]
    have hsave : ∃ mid, saveFile m id db f = some mid := by
      simp [saveFile, hone, hm]
    obtain ⟨mid, hmid⟩ := hsave
    rw [foldlM_cons, hmid, bind_eq_bind, bind_some]
    apply ih
    intro g hg
    rw [(saveFile_same hmid).catalog]
    exact h g (by simp [hg])

theorem mem_visitPage (hf : f ∈ visitPage db start) : f.metadataPath = "" ∧
      ∃ c ∈ db.catalog.files, c.index = f.index ∧ c.path = f.path ∧ c.size = f.size := by
  obtain ⟨c, hc, rfl⟩ := mem_map.1 hf
  exact ⟨rfl, c, (mem_page_beyond hc).1, rfl, rfl, rfl⟩

def presentRequest (db : InventoryDB) (start : VisitStart) : SaveRequest where
  status := pageStatus start.observing (visitPage db start).length start.reason
  reason := start.reason
  cursor := advance (fun f : InventoryFile => (f.index : Int)) start.cursor (visitPage db start)
  files := (visitPage db start).map presentFile

theorem presentWorld_request (hs : visitStart db.row db.owner.mapping session false = some start)
    (hc : ∀ c ∈ db.catalog.files, c.index < count) :
    inspectInventory db session (presentWorld count) false = some (presentRequest db start) := by
  have hindex : ∀ f ∈ visitPage db start, f.index < count := by
    intro f hf
    obtain ⟨-, c, hmem, hi, -, -⟩ := mem_visitPage hf
    rw [← hi]
    exact hc c hmem
  have hfiles := inspectFiles_present hindex start.cursor start.reason
  have hpage : inspectPage (presentWorld count) false count start (visitPage db start) =
      some (presentRequest db start) := by
    simp only [inspectPage, hfiles]
    rfl
  simp only [inspectInventory, hs]
  exact hpage

section

variable (hl : LiveInventory session db)
include hl

theorem presentRequest_saved (start : VisitStart) :
    ∃ db', saveInventory db db.owner.mapping db.owner.recordID session (presentRequest db start) =
      some db' := by
  have hfiles : ∀ f ∈ (visitPage db start).map presentFile, f.metadataPath = "" ∧
      ∃ c ∈ db.catalog.files, c.index = f.index ∧ c.path = f.path ∧ c.size = f.size := by
    intro g hg
    obtain ⟨f, hf, rfl⟩ := mem_map.1 hg
    obtain ⟨-, c, hmem, hi, hp, hsz⟩ := mem_visitPage hf
    exact ⟨rfl, c, hmem, hi, hp, hsz⟩
  obtain ⟨mid, hmid⟩ := saveFiles_present db.owner.mapping db.owner.recordID hfiles
  refine ⟨saveRow mid db.owner.mapping session (presentRequest db start), ?_⟩
  have hopen : ¬ (db.activeSession ≠ session ∨ session = "") := by
    simp [hl.active, hl.session_ne]
  rw [saveInventory, checkStorageFence_self hl.not_deleting, if_neg Bool.true_eq_false.mp,
    if_neg hopen]
  exact congrArg (Option.map _) hmid

theorem presentWorld_saves (hc : ∀ c ∈ db.catalog.files, c.index < count) :
    VisitSaves session db (presentWorld count) ∨ WalkEnded session db := by
  cases hs : visitStart db.row db.owner.mapping session false with
  | none => exact .inr hs
  | some start =>
    obtain ⟨db', hsave⟩ := presentRequest_saved hl start
    exact .inl ⟨_, db', presentWorld_request hs hc, hsave⟩

theorem visit_live (world : VisitWorld) : LiveInventory session (visit session false db world) ∧
      (visit session false db world).catalog = db.catalog := by
  rcases visit_cases session db world with he | ⟨start, req, -, -, h⟩
  · rw [he]
    exact ⟨hl, rfl⟩
  have hs := saveInventory_saved h
  exact ⟨⟨hl.session_ne, hs.activeSession.trans hl.active, hs.owner ▸ hl.not_deleting⟩, hs.catalog⟩

end

theorem exists_count (db : InventoryDB) : ∃ count, ∀ c ∈ db.catalog.files, c.index < count := by
  induction db.catalog.files with
  | nil => exact ⟨0, fun c hc => by cases hc⟩
  | cons c files ih =>
    obtain ⟨count, hcount⟩ := ih
    refine ⟨max count (c.index + 1), fun d hd => ?_⟩
    rcases mem_cons.1 hd with rfl | hd
    · omega
    · have := hcount d hd
      omega

theorem presentWorlds_along (hl : LiveInventory session db)
    (hc : ∀ c ∈ db.catalog.files, c.index < count) (n : Nat) :
    Along (visit session false) (CleanVisit session) db (List.replicate n (presentWorld count)) ∧
      Along (visit session false)
        (fun db world => VisitSaves session db world ∨ WalkEnded session db) db
        (List.replicate n (presentWorld count)) := by
  induction n generalizing db with
  | zero => exact ⟨trivial, trivial⟩
  | succ n ih =>
    obtain ⟨hlive, hcat⟩ := visit_live hl (presentWorld count)
    obtain ⟨h₁, h₂⟩ := ih hlive (by rw [hcat]; exact hc)
    exact ⟨⟨presentWorld_clean session db count, h₁⟩, ⟨presentWorld_saves hl hc, h₂⟩⟩

theorem verdictLaw_iff (hl : LiveInventory session db) (hw : Walk session ρ db) :
    VerdictLaw session db ↔ ρ = "" := by
  have hrem : ∀ start', visitStart db.row db.owner.mapping session false = some start' →
      remaining db start' ≤ db.catalog.files.length := by
    intro start' _
    exact length_filter_le _ _
  constructor
  · intro hlaw
    by_contra hρ
    obtain ⟨count, hcount⟩ := exists_count db
    obtain ⟨hclean, hsaves⟩ := presentWorlds_along hl hcount
      (db.catalog.files.length / inventoryPageSize + 1)
    have hready := (hlaw _ hclean).2.2 hsaves (by rw [length_replicate]; omega)
    exact (hw.run hclean).not_ready hρ hready
  rintro rfl worlds hclean
  refine ⟨(hw.run hclean).not_blocked rfl, hw.missingBlock_run hclean, ?_⟩
  intro hsaves hlen
  have hend := hw.ends hclean hsaves fun start' hs' => by
    have hle := hrem start' hs'
    have hlt := Nat.lt_mul_of_div_lt hlen (by decide)
    rw [Nat.mul_comm] at hlt
    omega
  exact hend.cases.resolve_right ((hw.run hclean).not_blocked rfl)

inductive InventoryReset where
  | session
  | mapping (revision : Int)
  | queue
deriving DecidableEq

/-- A session begins for ready mappings only, the trigger fires on a new revision only, and a
queueing may be refused. -/
def InventoryReset.apply (session : String) (db : InventoryDB) :
    InventoryReset → Option InventoryDB
  | .session =>
    if db.owner.mapping.state = .ready then some (beginInventorySession db session) else none
  | .mapping revision =>
    if revision ≠ db.owner.mapping.revision then some (inventoryMapping db revision) else none
  | .queue => queueInventory db db.owner.mapping db.owner.recordID session

def InventoryReset.Clears (session : String) (db : InventoryDB) : InventoryReset → Prop
  | .session => ∀ s, db.row = some s → s.reason = ""
  | .mapping _ => ∀ s, db.row = some s → s.reason = "" ∨ s.session ≠ session
  | .queue => True

def InventoryReset.carried (session : String) (db : InventoryDB) : InventoryReset → String
  | .session => db.row.elim "" InventoryState.reason
  | .mapping _ => db.row.elim "" fun s => if s.session = session then s.reason else ""
  | .queue => ""

variable {reset : InventoryReset}

theorem Walk.of_pending {s : InventoryState} (hrow : db.row = some s) (hs : s.status = .pending)
    (hr : (if s.revision = db.owner.mapping.revision ∧ s.session = session then s.reason else "")
      = ρ) : Walk session ρ db := by
  refine ⟨fun start hstart => ?_, fun _ => ?_, fun _ => ?_⟩
  · rw [hrow] at hstart
    simp only [visitStart, hs, reduceCtorEq, false_and, and_false, true_or, true_and,
      ↓reduceIte] at hstart
    split at hstart
    next hcur =>
      rw [if_pos hcur] at hr
      cases hstart
      exact hr
    next hcur =>
    rw [if_neg hcur] at hr
    cases hstart
    exact hr
  · rintro ⟨s', hrow', hb⟩
    rw [hrow] at hrow'
    cases hrow'
    rw [hs] at hb
    cases hb
  · rintro ⟨s', hrow', -, -, hb⟩
    rw [hrow] at hrow'
    cases hrow'
    rw [hs] at hb
    cases hb

theorem Walk.of_none (hrow : db.row = none) : Walk session "" db := by
  refine ⟨fun start hstart => ?_, fun _ => ?_, fun h => absurd rfl h⟩
  · rw [hrow] at hstart
    cases hstart
    rfl
  rintro ⟨s, hs, -⟩
  rw [hrow] at hs
  cases hs

open InventoryReset

theorem InventoryReset.walk (h : reset.apply session db = some db') :
    Walk session (reset.carried session db) db' := by
  cases reset with
  | session =>
    simp only [apply] at h
    split at h
    next hready =>
      cases h
      cases hrow : db.row with
      | none =>
        have hnew : (beginInventorySession db session).row =
            some ⟨db.owner.mapping.revision, session, .pending, "", -1⟩ := by
          simp only [beginInventorySession, hready, hrow, ↓reduceIte]
        exact .of_pending hnew rfl (by simp [carried, hrow])
      | some s =>
        have hnew : (beginInventorySession db session).row =
            some ⟨db.owner.mapping.revision, session, .pending, s.reason, -1⟩ := by
          simp only [beginInventorySession, hready, hrow, ↓reduceIte]
        exact .of_pending hnew rfl (by simp [carried, hrow, beginInventorySession])
    · cases h
  | mapping revision =>
    simp only [apply] at h
    split at h
    next hrev =>
      cases h
      cases hrow : db.row with
      | none =>
        have hnone : (inventoryMapping db revision).row = none := by
          simp [inventoryMapping, hrev, hrow]
        simpa [carried, hrow] using Walk.of_none hnone
      | some s =>
        have hnew : (inventoryMapping db revision).row =
            some ⟨revision, s.session, .pending, s.reason, -1⟩ := by
          simp only [inventoryMapping, hrev, hrow, map_some, ne_eq, not_false_eq_true, ↓reduceIte]
        refine .of_pending hnew rfl ?_
        by_cases hs : s.session = session
        · simp [carried, hrow, inventoryMapping, hs]
        · simp [carried, hrow, hs]
    · cases h
  | queue =>
    have hs := saveInventory_saved h
    exact .of_pending hs.row rfl (by simp [carried])

theorem InventoryReset.carried_eq_iff (reset : InventoryReset) (session : String)
    (db : InventoryDB) : reset.carried session db = "" ↔ reset.Clears session db := by
  cases reset with
  | session => cases hrow : db.row <;> simp [carried, Clears, hrow]
  | mapping revision =>
    cases hrow : db.row with
    | none => simp [carried, Clears, hrow]
    | some s =>
      by_cases hs : s.session = session
      · simp [carried, Clears, hrow, hs]
      · simp [carried, Clears, hrow, hs]
  | queue => simp [carried, Clears]

/-- The verdict is about the walk after the reset exactly when the reset has dropped the reason of
the one before. -/
theorem inventory_verdict_iff (hreset : reset.apply session db = some db')
    (hl : LiveInventory session db') :
    VerdictLaw session db' ↔ reset.Clears session db := by
  rw [verdictLaw_iff hl (walk hreset), carried_eq_iff]

def blockedInventory : InventoryDB where
  activeSession := "old"
  owner :=
    { mapping :=
        { hash := [], version := 2, root := ascii "a", state := .ready, manifest := [],
          storageID := ascii "s", revision := 1, layoutPrefix := [] }
      recordID := ascii "r"
      deleting := false }
  catalog := ⟨[], .nil⟩
  metadataPath _ := ""
  row := some ⟨1, "old", .blocked, "expected_file_missing", -1⟩
  observations _ := none
  missingBlock := none

theorem blockedInventory_queued :
    ∃ db', InventoryReset.queue.apply "old" blockedInventory = some db' ∧
      (VerdictLaw "old" db' ↔ InventoryReset.queue.Clears "old" blockedInventory) := by
  refine ⟨_, rfl, inventory_verdict_iff rfl ?_⟩
  exact ⟨by decide, rfl, rfl⟩

/-- The new session keeps the reason, so its first, clean visit blocks the storage again. -/
theorem inventory_verdict_of_old_walk :
    let db := beginInventorySession blockedInventory "new"
    let world : VisitWorld := { metadata := .info 0 }
    CleanVisit "new" db world ∧ db.missingBlock = none ∧
      (visit "new" false db world).row = some ⟨1, "new", .blocked, "expected_file_missing", -1⟩ ∧
      (visit "new" false db world).missingBlock = some missingBlockReason :=
  ⟨presentWorld_clean "new" _ 0, rfl, by decide, by decide⟩

end TorrentHub
