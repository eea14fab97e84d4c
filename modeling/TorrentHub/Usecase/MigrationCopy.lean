import TorrentHub.Usecase.MigrationPaths
import Mathlib.Logic.Function.Basic

namespace TorrentHub
open Lib RelPath List Function

inductive TreeNode where
  | directory
  | file (inode : Nat)
  | symlink
  | other
deriving DecidableEq

/-- By clean paths, with hard links as shared inodes. Inodes from `next` on are not in use. -/
structure FileTree where
  nodes : Bytes → Option TreeNode
  contents : Nat → Bytes
  next : Nat
  used : ∀ p i, nodes p = some (.file i) → i < next

namespace FileTree

variable (t : FileTree)

def lookup (p : Bytes) : Option TreeNode := t.nodes (clean p)

def set (p : Bytes) (node : Option TreeNode) (h : ∀ i, node = some (.file i) → i < t.next) :
    FileTree where
  nodes := Function.update t.nodes (clean p) node
  contents := t.contents
  next := t.next
  used := by
    intro q i hq
    by_cases hqp : q = clean p
    · rw [hqp, Function.update_self] at hq
      exact h i hq
    rw [Function.update_of_ne hqp] at hq
    exact t.used q i hq

def remove (p : Bytes) : FileTree := t.set p none fun _ h => nomatch h

def mkdir (p : Bytes) : FileTree := t.set p (some .directory) fun _ h => nomatch h

/-- `MkdirAll`, over the directories from the topmost to the last. -/
def mkdirAll : List Bytes → FileTree → FileTree × Bool
  | [], t => (t, true)
  | p :: ps, t =>
    match t.lookup p with
    | none => mkdirAll ps (t.mkdir p)
    | some .directory => mkdirAll ps t
    | some _ => (t, false)

def create (p : Bytes) (data : Bytes) : FileTree where
  nodes := Function.update t.nodes (clean p) (some (.file t.next))
  contents := Function.update t.contents t.next data
  next := t.next + 1
  used := by
    intro q i hq
    by_cases hqp : q = clean p
    · rw [hqp, Function.update_self] at hq
      cases hq
      omega
    rw [Function.update_of_ne hqp] at hq
    have hused := t.used q i hq
    omega

def link (p q : Bytes) : FileTree × Bool :=
  match hp : t.lookup p, t.lookup q with
  | some (.file i), none => (t.set q (some (.file i)) (by
      rintro j ⟨⟩
      exact t.used _ i hp), true)
  | _, _ => (t, false)

/-- `payload.Validate`, over the path and its parents from the topmost on. -/
def validate : List Bytes → Bool
  | [] => true
  | p :: ps =>
    match t.lookup p with
    | none => true
    | some .symlink => false
    | some (.file _) => validate ps
    | some _ => !ps.isEmpty && validate ps

/-- The file that `payload.Open` gives. -/
def fileAt (p : Bytes) : Option Nat :=
  match t.lookup p with
  | some (.file i) => some i
  | _ => none

end FileTree

def descent (p : Bytes) : List Bytes := ((lineage (p.length + 1) p).getD []).reverse

inductive CopyError where
  | io
  | targetConflict
  | sourceChanged
deriving DecidableEq

inductive CopyOperation where
  | lstat | recover | digestTarget | sync | validate | remove | openSource | openTemporary
  | digestTemporary | link | unlink
deriving DecidableEq

/-- The operations that succeed, how many parent directories are gone through before `MkdirAll`
stops, and how many bytes are copied. -/
structure CopyEnv where
  succeeds : CopyOperation → Bool
  directories : Nat
  copied : Nat
  sha256 : Bytes → Bytes

def FileTree.matchesEntry (t : FileTree) (env : CopyEnv) (p : Bytes) (e : MigrationEntry) : Bool :=
  (t.fileAt p).any fun i => env.sha256 (t.contents i) == e.digest && (t.contents i).length == e.size

/-- The first branch of `copyMigrationEntry`: the target is there, and a temporary hard link to it
is left over from a crash. -/
def acceptMigrationTarget (env : CopyEnv) (e : MigrationEntry) (t : FileTree) :
    FileTree × Option CopyError :=
  let same := (t.fileAt e.target).isSome && t.fileAt e.target == t.fileAt e.temporary
  if same && !env.succeeds .recover then (t, some .io)
  else
    let t := if same then t.remove e.temporary else t
    if !(env.succeeds .digestTarget && t.matchesEntry env e.target e) then (t, some .targetConflict)
    else (t, if env.succeeds .sync then none else some .io)

/-- The last part of `copyMigrationEntry`: the temporary file is written and closed. -/
def publishMigrationEntry (env : CopyEnv) (e : MigrationEntry) (t : FileTree) :
    FileTree × Option CopyError :=
  if !(env.succeeds .digestTemporary && t.matchesEntry env e.temporary e) then
    (t, some .sourceChanged)
  else if !env.succeeds .link then (t, some .io)
  else
    let linked := t.link e.temporary e.target
    if !linked.2 then (linked.1, some .io)
    else if !env.succeeds .unlink then (linked.1, some .io)
    else (linked.1.remove e.temporary, if env.succeeds .sync then none else some .io)

/-- The middle part of `copyMigrationEntry`: the parents of the temporary file are there. -/
def writeMigrationEntry (env : CopyEnv) (e : MigrationEntry) (t : FileTree) :
    FileTree × Option CopyError :=
  if !env.succeeds .remove then (t, some .io)
  else
    let t := t.remove e.temporary
    if !env.succeeds .openSource then (t, some .io)
    else
      match t.fileAt e.source with
      | none => (t, some .io)
      | some i =>
        if !env.succeeds .openTemporary then (t, some .io)
        else
          let data := t.contents i
          let t := t.create e.temporary (data.take env.copied)
          if env.copied < data.length then (t, some .io) else publishMigrationEntry env e t

def copyMigrationEntry (env : CopyEnv) (e : MigrationEntry) (t : FileTree) :
    FileTree × Option CopyError :=
  if !env.succeeds .lstat then (t, some .io)
  else if (t.lookup e.target).isSome then acceptMigrationTarget env e t
  else if !(env.succeeds .validate && t.validate (descent (clean e.temporary))) then (t, some .io)
  else
    let parents := descent (dir e.temporary)
    let made := FileTree.mkdirAll (parents.take env.directories) t
    if !made.2 || env.directories < parents.length then (made.1, some .io)
    else writeMigrationEntry env e made.1

/-- A file at the target stays, and what comes to be at the target or above it is a directory above
it or the file published at `published`. -/
structure Spares (published target : Bytes) (t t' : FileTree) : Prop where
  kept : ∀ node, t.lookup target = some node → t'.lookup target = some node
  contents : ∀ i, t.lookup target = some (.file i) → t'.contents i = t.contents i
  clear : ∀ p, p = clean target ∨ (p ++ [slash]) <+: clean target →
    ∀ node, t'.nodes p = some node →
      t.nodes p = some node ∨ (p ≠ clean target ∧ node = .directory) ∨ p = published

namespace Spares

variable {published target p q : Bytes} {t t' t'' : FileTree}

theorem refl (published target : Bytes) (t : FileTree) : Spares published target t t :=
  ⟨fun _ h => h, fun _ _ => rfl, fun _ _ _ h => .inl h⟩

theorem trans (h : Spares published target t t') (h' : Spares published target t' t'') :
    Spares published target t t'' := by
  refine ⟨fun node hnode => h'.kept node (h.kept node hnode), ?_, ?_⟩
  · intro i hi
    rw [h'.contents i (h.kept _ hi), h.contents i hi]
  intro p hp node hnode
  rcases h'.clear p hp node hnode with hold | hnew
  · exact h.clear p hp node hold
  · exact .inr hnew

theorem set (hused : ∀ i, node = some (.file i) → i < t.next)
    (hat : clean target = clean p → t.lookup target = none ∧ clean p = published)
    (habove : (clean p ++ [slash]) <+: clean target → ∀ n, node = some n →
      (clean p ≠ clean target ∧ n = .directory) ∨ clean p = published) :
    Spares published target t (t.set p node hused) := by
  refine ⟨?_, fun _ _ => rfl, ?_⟩
  · intro n hn
    have hne : clean target ≠ clean p := by
      intro heq
      rw [(hat heq).1] at hn
      cases hn
    exact (update_of_ne hne node t.nodes).trans hn
  intro q hq n hn
  change update t.nodes (clean p) node q = some n at hn
  by_cases hqp : q = clean p
  · subst hqp
    rw [update_self] at hn
    rcases hq with hq | hq
    · exact .inr (.inr (hat hq.symm).2)
    · exact .inr (habove hq n hn)
  · rw [update_of_ne hqp] at hn
    exact .inl hn

theorem remove (hne : clean target ≠ clean p) : Spares published target t (t.remove p) :=
  set _ (fun heq => absurd heq hne) fun _ _ h => nomatch h

theorem mkdirAll {ps : List Bytes} (hne : ∀ p ∈ ps, clean target ≠ clean p) (t : FileTree) :
    Spares published target t (FileTree.mkdirAll ps t).1 := by
  induction ps generalizing t with
  | nil => exact refl published target t
  | cons p ps ih =>
    have hp := hne p mem_cons_self
    have hps : ∀ q ∈ ps, clean target ≠ clean q := fun q hq => hne q (mem_cons_of_mem _ hq)
    unfold FileTree.mkdirAll
    split
    · refine trans (set _ (fun heq => absurd heq hp) ?_) (ih hps (t.mkdir p))
      rintro _ n ⟨⟩
      exact .inl ⟨hp.symm, rfl⟩
    · exact ih hps t
    · exact refl published target t

theorem create (hne : clean target ≠ clean p) (hnot : ¬(clean p ++ [slash]) <+: clean target) :
    Spares published target t (t.create p data) := by
  refine ⟨fun _ hn => (update_of_ne hne _ _).trans hn, ?_, ?_⟩
  · intro i hi
    have hused := t.used _ i hi
    exact update_of_ne (by omega) _ _
  intro q hq n hn
  change update t.nodes (clean p) _ q = some n at hn
  have hqp : q ≠ clean p := by
    rintro rfl
    rcases hq with hq | hq
    · exact hne hq.symm
    · exact hnot hq
  rw [update_of_ne hqp] at hn
  exact .inl hn

theorem link : Spares (clean q) target t (t.link p q).1 := by
  unfold FileTree.link
  split
  next i hp hq =>
    have hused : ∀ j, some (TreeNode.file i) = some (.file j) → j < t.next := by
      rintro j ⟨⟩
      exact t.used _ i hp
    refine set hused (fun heq => ⟨?_, rfl⟩) fun _ _ _ => .inr rfl
    rw [FileTree.lookup, heq]
    exact hq
  · exact refl _ target t

end Spares

variable {entries : List MigrationEntry} {e f : MigrationEntry} {env : CopyEnv}

structure Apart (e f : MigrationEntry) : Prop where
  ne : clean f.target ≠ clean e.temporary
  not_above : ¬(clean f.target ++ [slash]) <+: clean e.temporary
  not_below : ¬(clean e.temporary ++ [slash]) <+: clean f.target

theorem apart_of_overlap (h : overlap e.temporary f.target = false) : Apart e f := by
  rw [overlap, ← Bool.not_eq_true] at h
  simp only [Bool.or_eq_true, beq_iff_eq, isPrefixOf_iff_prefix, not_or] at h
  exact ⟨fun heq => h.1.1 heq.symm, h.1.2, h.2⟩

section

variable (h : Apart e f)
include h

theorem Apart.descent (hlocal : isLocal e.target = true) :
    ∀ p ∈ descent (dir e.temporary), clean f.target ≠ clean p := by
  obtain ⟨cs, c, hnormal, hclean, hdir⟩ := exists_temporary hlocal
  intro p hp heq
  by_cases hcs : cs = []
  · rw [if_pos hcs] at hdir
    have hnone : TorrentHub.descent dot = [] := rfl
    rw [hdir, hnone] at hp
    cases hp
  rw [if_neg hcs] at hdir
  have hcsnormal : ∀ d ∈ cs, Normal d := fun d hd => hnormal d (mem_append_left _ hd)
  obtain ⟨ps, hps, hmem⟩ := lineage_joined hcs hcsnormal
    (Nat.lt_succ_of_le (length_le_joined hcsnormal))
  rw [TorrentHub.descent, hdir, hps, Option.getD_some, mem_reverse, hmem] at hp
  obtain ⟨k, hk, hle, rfl⟩ := hp
  refine h.not_above ?_
  rw [heq, hclean, isPrefix_joined_iff hnormal]
  refine ⟨k, hk, by simp; omega, ?_⟩
  rw [take_append_of_le_length hle]
  refine clean_joined ?_ fun d hd => hcsnormal d (mem_of_mem_take hd)
  intro hnil
  have hlength := congrArg length hnil
  rw [length_take, length_nil] at hlength
  have hpos := length_pos_of_ne_nil hcs
  omega

theorem Apart.accept (t : FileTree) :
    Spares (clean e.target) f.target t (acceptMigrationTarget env e t).1 := by
  unfold acceptMigrationTarget
  dsimp only
  split
  · exact .refl _ _ t
  split
  · split
    · exact .remove h.ne
    · exact .remove h.ne
  split
  · exact .refl _ _ t
  · exact .refl _ _ t

theorem Apart.publish (t : FileTree) :
    Spares (clean e.target) f.target t (publishMigrationEntry env e t).1 := by
  unfold publishMigrationEntry
  dsimp only
  split
  · exact .refl _ _ t
  split
  · exact .refl _ _ t
  split
  · exact .link
  split
  · exact .link
  · exact .trans .link (.remove h.ne)

theorem Apart.write (t : FileTree) :
    Spares (clean e.target) f.target t (writeMigrationEntry env e t).1 := by
  have hremove : Spares (clean e.target) f.target t (t.remove e.temporary) := .remove h.ne
  unfold writeMigrationEntry
  dsimp only
  split
  · exact .refl _ _ t
  split
  · exact hremove
  split
  · exact hremove
  split
  · exact hremove
  split
  · exact hremove.trans (.create h.ne h.not_below)
  · exact (hremove.trans (.create h.ne h.not_below)).trans (h.publish _)

theorem Apart.copy (hlocal : isLocal e.target = true) (t : FileTree) :
    Spares (clean e.target) f.target t (copyMigrationEntry env e t).1 := by
  have hmade : Spares (clean e.target) f.target t
      (FileTree.mkdirAll ((TorrentHub.descent (dir e.temporary)).take env.directories) t).1 :=
    .mkdirAll (fun p hp => h.descent hlocal p (mem_of_mem_take hp)) t
  unfold copyMigrationEntry
  dsimp only
  split
  · exact .refl _ _ t
  split
  · exact h.accept t
  split
  · exact .refl _ _ t
  split
  · exact hmade
  · exact hmade.trans (h.write _)

end

/-- With a live context the check accepts exactly the lists in which no temporary path overlaps
a target, and then no copy harms one. -/
theorem validateMigrationTemporaryPaths_spares (entries : List MigrationEntry)
    (hlocal : ∀ e ∈ entries, isLocal e.target = true) (live : List Bool)
    (hlive : ∀ b ∈ live, b = true) (hlength : entries.length ≤ live.length) :
    (validateMigrationTemporaryPaths live entries = some (.ok ()) ↔ TemporaryApart entries) ∧
      (validateMigrationTemporaryPaths live entries = some (.ok ()) →
        ∀ e ∈ entries, ∀ f ∈ entries, ∀ env t,
          Spares (clean e.target) f.target t (copyMigrationEntry env e t).1) := by
  have hiff := validateMigrationTemporaryPaths_iff hlocal hlive hlength
  refine ⟨hiff, fun hok e he f hf env t => ?_⟩
  exact (apart_of_overlap (hiff.1 hok e he f hf)).copy (hlocal e he) t

def twoEntries : List MigrationEntry :=
  [⟨ascii "a", ascii "payload/a", 1, [], false⟩, ⟨ascii "a.b", ascii "payload/a.b", 1, [], false⟩]

theorem twoEntries_spares :
    validateMigrationTemporaryPaths [true, true] twoEntries = some (.ok ()) ∧
      ∀ e ∈ twoEntries, ∀ f ∈ twoEntries, ∀ env t,
        Spares (clean e.target) f.target t (copyMigrationEntry env e t).1 := by
  have hapart : TemporaryApart twoEntries := by
    unfold TemporaryApart
    decide +kernel
  obtain ⟨hiff, hspares⟩ := validateMigrationTemporaryPaths_spares twoEntries
    (by decide +kernel) [true, true] (by decide) (by decide)
  exact ⟨hiff.2 hapart, hspares (hiff.2 hapart)⟩

end TorrentHub
