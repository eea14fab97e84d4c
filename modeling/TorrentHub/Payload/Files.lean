import TorrentHub.Lib.RelPath

namespace TorrentHub
open Lib RelPath

inductive FsError where
  | notExist | unsafeFile
  | other (text : String)
deriving DecidableEq

inductive FileMode where
  | regular | directory | symlink | other
deriving DecidableEq

/-- The tree below the managed root. What opens has an identity or contents, and may still fail to
be read. -/
structure Filesystem where
  lstat : Bytes → Except FsError FileMode
  openDirectory : Bytes → Except FsError (Except FsError Bytes)
  openRootFile : Bytes → Except FsError (Except FsError Bytes)

inductive PayloadError where
  | unsafePath | unsafeRelative | symlinkRejected | notRegular
  | fs (err : FsError)
deriving DecidableEq

def validateRelative (name : Bytes) : Except PayloadError Unit :=
  if !isLocal name || clean name == dot then .error .unsafeRelative else .ok ()

def overlap (a b : Bytes) : Bool :=
  clean a == clean b || (clean b ++ [slash]).isPrefixOf (clean a) ||
    (clean a ++ [slash]).isPrefixOf (clean b)

/-- The walk of `validate` from the parts already seen. -/
def validateParts (fs : Filesystem) (seen : List Bytes) : List Bytes → Except PayloadError Unit
  | [] => .ok ()
  | part :: rest =>
    match fs.lstat (join (seen ++ [part])) with
    | .error .notExist => .ok ()
    | .error err => .error (.fs err)
    | .ok mode =>
      if mode = .symlink then .error .symlinkRejected
      else if rest = [] ∧ mode ≠ .regular then .error .notRegular
      else validateParts fs (seen ++ [part]) rest

def validate (fs : Filesystem) (name : Bytes) : Except PayloadError Unit :=
  match validateRelative name with
  | .error err => .error err
  | .ok () => validateParts fs [] (components (clean name))

def openPayload (fs : Filesystem) (name : Bytes) : Except PayloadError (Except FsError Bytes) :=
  match validate fs name with
  | .error err => .error err
  | .ok () =>
    match fs.openRootFile name with
    | .error .unsafeFile => .error .notRegular
    | .error err => .error (.fs err)
    | .ok file => .ok file

/-- A path that the storage functions are called with: the managed root itself, or a clean
relative path below it. -/
def managed (path : Bytes) : Bool :=
  path == dot || ((validateRelative path).isOk && clean path == path)

variable {path name : Bytes}

theorem validateRelative_ok (h : (validateRelative name).isOk = true) :
    isLocal name = true ∧ clean name ≠ dot := by
  unfold validateRelative at h
  split at h
  · cases h
  next hn => simpa using hn

theorem managed_clean (h : managed path = true) : clean path = path := by
  rcases Bool.or_eq_true _ _ ▸ h with h | h
  · rw [beq_iff_eq.1 h]
    decide
  · exact beq_iff_eq.1 (Bool.and_eq_true _ _ ▸ h).2

theorem managed_joined (h : managed path = true) (hd : path ≠ dot) :
    ∃ cs, cs ≠ [] ∧ (∀ c ∈ cs, Normal c) ∧ path = joined cs := by
  have hc := managed_clean h
  simp only [managed, Bool.or_eq_true, beq_iff_eq, Bool.and_eq_true] at h
  have hv := validateRelative_ok (h.resolve_left hd).1
  exact exists_joined hv.1 hc hd

theorem managed_of_joined {cs : List Bytes} (hn : cs ≠ []) (h : ∀ c ∈ cs, Normal c) :
    managed (joined cs) = true := by
  simp only [managed, Bool.or_eq_true, Bool.and_eq_true, beq_iff_eq, clean_joined hn h, and_true]
  by_cases hd : joined cs = dot
  · exact .inl hd
  right
  simp [validateRelative, isLocal_joined hn h, clean_joined hn h, hd, Except.isOk, Except.toBool]

theorem managed_ne_nil (h : managed path = true) : path ≠ [] := by
  rintro rfl
  revert h
  decide

theorem dir_managed (h : managed path = true) (hd : path ≠ dot) :
    dir path = dot ∨ ∃ cs, cs ≠ [] ∧ (∀ c ∈ cs, Normal c) ∧ dir path = joined cs ∧
      (joined cs).length < path.length := by
  obtain ⟨cs, hn, hcs, rfl⟩ := managed_joined h hd
  rw [← List.dropLast_append_getLast hn] at hcs ⊢
  rw [dir_joined hcs]
  by_cases hi : cs.dropLast = []
  · exact .inl (if_pos hi)
  rw [if_neg hi]
  refine .inr ⟨_, hi, fun c hc => hcs c (by simp [hc]), rfl, ?_⟩
  rw [joined_concat hi]
  simp only [List.length_append, List.length_cons]
  omega

end TorrentHub
