import TorrentHub.Lib.Lineage
import TorrentHub.Lib.Search
import TorrentHub.Payload.Files
import Mathlib.Data.List.Dedup

namespace TorrentHub
open Lib RelPath List

structure MigrationEntry where
  source : Bytes
  target : Bytes
  size : Nat
  digest : Bytes
  copied : Bool
deriving DecidableEq

namespace MigrationEntry

def suffix : Bytes := ascii ".tsh-migrate"

def temporary (e : MigrationEntry) : Bytes := e.target ++ suffix

end MigrationEntry

inductive MigrationPathError where
  | cancelled
  | conflict
deriving DecidableEq

/-- The keys of the map `targets`. -/
def migrationTargets (entries : List MigrationEntry) : List Bytes :=
  (entries.map fun e => clean e.target).dedup

/-- The body of the loop for one entry. The walk to the parents gets fuel enough for every path. -/
def checkTemporaryPath (targets : List Bytes) (e : MigrationEntry) :
    Option (Except MigrationPathError Unit) :=
  let temp := clean e.temporary
  (lineage (temp.length + 1) temp).map fun parents =>
    let sorted := targets.mergeSort bytesLe
    if parents.any fun parent => targets.contains parent then .error .conflict
    else if (sorted[searchStrings sorted (temp ++ [slash])]?).any
        (fun target => (temp ++ [slash]).isPrefixOf target) then .error .conflict
    else .ok ()

/-- The loop over the entries; `live` answers the checks of the context in turn. -/
def checkTemporaryPaths (targets : List Bytes) :
    List Bool → List MigrationEntry → Option (Except MigrationPathError Unit)
  | _, [] => some (.ok ())
  | [], _ :: _ => some (.error .cancelled)
  | live :: lives, e :: rest =>
    if live then
      match checkTemporaryPath targets e with
      | none => none
      | some (.error err) => some (.error err)
      | some (.ok ()) => checkTemporaryPaths targets lives rest
    else some (.error .cancelled)

def validateMigrationTemporaryPaths (live : List Bool) (entries : List MigrationEntry) :
    Option (Except MigrationPathError Unit) :=
  checkTemporaryPaths (migrationTargets entries) live entries

def TemporaryApart (entries : List MigrationEntry) : Prop :=
  ∀ e ∈ entries, ∀ f ∈ entries, overlap e.temporary f.target = false

variable {entries rest : List MigrationEntry} {e f : MigrationEntry}

theorem mem_migrationTargets {x : Bytes} :
    x ∈ migrationTargets entries ↔ ∃ f ∈ entries, clean f.target = x := by
  unfold migrationTargets
  rw [mem_dedup, mem_map]

theorem exists_temporary (h : isLocal e.target = true) :
    ∃ cs c, (∀ d ∈ cs ++ [c], Normal d) ∧ clean e.temporary = joined (cs ++ [c]) ∧
      dir e.temporary = if cs = [] then dot else joined cs :=
  clean_append h (by decide) (by decide)

theorem mem_lineage_iff {cs : List Bytes} {ps : List Bytes} {x : Bytes} (h : ∀ c ∈ cs, Normal c)
    (hps : ∀ x, x ∈ ps ↔ ∃ k, 0 < k ∧ k ≤ cs.length ∧ x = joined (cs.take k)) (hn : cs ≠ []) :
    x ∈ ps ↔ joined cs = x ∨ (x ++ [slash]) <+: joined cs := by
  rw [hps, isPrefix_joined_iff h]
  constructor
  · rintro ⟨k, hk, hle, rfl⟩
    rcases Nat.eq_or_lt_of_le hle with heq | hlt
    · exact .inl (by rw [take_of_length_le (by omega)])
    · exact .inr ⟨k, hk, hlt, rfl⟩
  · rintro (rfl | ⟨k, hk, hlt, rfl⟩)
    · exact ⟨cs.length, length_pos_of_ne_nil hn, Nat.le_refl _, by rw [take_length]⟩
    · exact ⟨k, hk, by omega, rfl⟩

theorem checkTemporaryPath_iff (entries : List MigrationEntry) (h : isLocal e.target = true) :
    ∃ verdict, checkTemporaryPath (migrationTargets entries) e = some verdict ∧
      (verdict = .ok () ↔ ∀ f ∈ entries, overlap e.temporary f.target = false) := by
  obtain ⟨cs, hn, hnormal, hclean⟩ :
      ∃ cs, cs ≠ [] ∧ (∀ c ∈ cs, Normal c) ∧ clean e.temporary = joined cs := by
    obtain ⟨cs, c, hnormal, hclean, -⟩ := exists_temporary h
    exact ⟨cs ++ [c], by simp, hnormal, hclean⟩
  obtain ⟨ps, hps, hmem⟩ := lineage_joined hn hnormal (Nat.lt_succ_of_le (length_le_joined hnormal))
  have hsorted := pairwise_mergeSort bytesLe_trans bytesLe_total (migrationTargets entries)
  have habove : ps.any (fun parent => (migrationTargets entries).contains parent) = true ↔
      ∃ f ∈ entries, joined cs = clean f.target ∨ (clean f.target ++ [slash]) <+: joined cs := by
    rw [any_eq_true]
    constructor
    · rintro ⟨x, hx, hcontains⟩
      obtain ⟨f, hf, rfl⟩ := mem_migrationTargets.1 (contains_iff_mem.1 hcontains)
      exact ⟨f, hf, (mem_lineage_iff hnormal hmem hn).1 hx⟩
    rintro ⟨f, hf, hx⟩
    exact ⟨clean f.target, (mem_lineage_iff hnormal hmem hn).2 hx,
      contains_iff_mem.2 (mem_migrationTargets.2 ⟨f, hf, rfl⟩)⟩
  have hbelow := searchStrings_isPrefix hsorted (joined cs ++ [slash])
  have hbelow' : (∃ y ∈ (migrationTargets entries).mergeSort bytesLe, joined cs ++ [slash] <+: y) ↔
      ∃ f ∈ entries, joined cs ++ [slash] <+: clean f.target := by
    constructor
    · rintro ⟨y, hy, hpre⟩
      obtain ⟨f, hf, rfl⟩ := mem_migrationTargets.1 (mem_mergeSort.1 hy)
      exact ⟨f, hf, hpre⟩
    · rintro ⟨f, hf, hpre⟩
      exact ⟨_, mem_mergeSort.2 (mem_migrationTargets.2 ⟨f, hf, rfl⟩), hpre⟩
  have hoverlap : ∀ f : MigrationEntry, overlap e.temporary f.target = false ↔
      ¬(joined cs = clean f.target ∨ (clean f.target ++ [slash]) <+: joined cs) ∧
        ¬(joined cs ++ [slash]) <+: clean f.target := by
    intro f
    rw [overlap, hclean, ← Bool.not_eq_true]
    simp only [Bool.or_eq_true, beq_iff_eq, isPrefixOf_iff_prefix, not_or]
  unfold checkTemporaryPath
  simp only [hclean, hps, Option.map_some]
  refine ⟨_, rfl, ?_⟩
  split
  next hhit =>
    obtain ⟨f, hf, hx⟩ := habove.1 hhit
    refine ⟨fun heq => (nomatch heq), fun hall => ?_⟩
    exact absurd hx ((hoverlap f).1 (hall f hf)).1
  next hmiss =>
  split
  next hhit =>
    obtain ⟨f, hf, hx⟩ := hbelow'.1 (hbelow.1 hhit)
    refine ⟨fun heq => (nomatch heq), fun hall => ?_⟩
    exact absurd hx ((hoverlap f).1 (hall f hf)).2
  next hmiss' =>
  refine ⟨fun _ f hf => (hoverlap f).2 ⟨?_, ?_⟩, fun _ => rfl⟩
  · exact fun hx => hmiss (habove.2 ⟨f, hf, hx⟩)
  · exact fun hx => hmiss' (hbelow.2 (hbelow'.2 ⟨f, hf, hx⟩))

theorem checkTemporaryPaths_iff (entries : List MigrationEntry)
    (hlocal : ∀ e ∈ rest, isLocal e.target = true) {live : List Bool}
    (hlive : ∀ b ∈ live, b = true) (hlength : rest.length ≤ live.length) :
    ∃ verdict, checkTemporaryPaths (migrationTargets entries) live rest = some verdict ∧
      (verdict = .ok () ↔ ∀ e ∈ rest, ∀ f ∈ entries, overlap e.temporary f.target = false) := by
  induction rest generalizing live with
  | nil => exact ⟨.ok (), by cases live <;> rfl, by simp⟩
  | cons e rest ih =>
    obtain ⟨b, lives, rfl⟩ := exists_cons_of_ne_nil (show live ≠ [] by rintro rfl; simp at hlength)
    obtain rfl := hlive b mem_cons_self
    obtain ⟨verdict, hcheck, hiff⟩ := checkTemporaryPath_iff entries (hlocal e mem_cons_self)
    unfold checkTemporaryPaths
    rw [if_pos rfl, hcheck]
    cases verdict with
    | error err =>
      refine ⟨.error err, rfl, fun heq => (nomatch heq), fun hall => ?_⟩
      exact hiff.2 (hall e mem_cons_self)
    | ok u =>
      obtain ⟨verdict, hrest, hiff'⟩ := ih (fun f hf => hlocal f (mem_cons_of_mem _ hf))
        (fun b hb => hlive b (mem_cons_of_mem _ hb)) (by simpa using hlength)
      refine ⟨verdict, hrest, hiff'.trans ?_⟩
      rw [forall_mem_cons]
      exact ⟨fun h => ⟨hiff.1 rfl, h⟩, fun h => h.2⟩

theorem validateMigrationTemporaryPaths_iff (hlocal : ∀ e ∈ entries, isLocal e.target = true)
    {live : List Bool} (hlive : ∀ b ∈ live, b = true) (hlength : entries.length ≤ live.length) :
    validateMigrationTemporaryPaths live entries = some (.ok ()) ↔ TemporaryApart entries := by
  obtain ⟨verdict, hcheck, hiff⟩ := checkTemporaryPaths_iff entries hlocal hlive hlength
  unfold validateMigrationTemporaryPaths
  rw [hcheck, Option.some.injEq]
  exact hiff

end TorrentHub
