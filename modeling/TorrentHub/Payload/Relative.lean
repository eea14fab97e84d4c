import TorrentHub.Payload.Layout
import TorrentHub.Lib.Lineage

namespace TorrentHub
open Lib RelPath

inductive ResolveError where
  | layout (err : LayoutError)
  | path (err : PayloadError)
  | outsidePrefix
deriving DecidableEq

namespace Layout

def relative (l : Layout) (metadataPath : Bytes) : Except ResolveError Bytes :=
  match l.validate with
  | .error err => .error (.layout err)
  | .ok () =>
    match validateRelative metadataPath with
    | .error err => .error (.path err)
    | .ok () =>
      let path := clean metadataPath
      if l.layoutPrefix = [] then .ok path
      else if (l.layoutPrefix ++ [slash]).isPrefixOf path then
        let rest := path.drop (l.layoutPrefix ++ [slash]).length
        if (validateRelative rest).isOk then .ok rest else .error .outsidePrefix
      else .error .outsidePrefix

def path (l : Layout) (metadataPath : Bytes) : Except ResolveError Bytes :=
  match l.relative metadataPath with
  | .error err => .error err
  | .ok path => .ok (join [l.root, path])

variable {l : Layout} {name rest : Bytes}

def cut (l : Layout) : Bytes := if l.layoutPrefix = [] then [] else l.layoutPrefix ++ [slash]

theorem relative_ok (h : l.relative name = .ok rest) :
    l.validate = .ok () ∧ (validateRelative name).isOk = true ∧ clean name = l.cut ++ rest ∧
      (validateRelative rest).isOk = true := by
  unfold relative at h
  split at h
  · cases h
  rename_i hlayout
  split at h
  · cases h
  rename_i hname
  have hok : (validateRelative name).isOk = true := by rw [hname]; rfl
  dsimp only at h
  by_cases hnone : l.layoutPrefix = []
  · rw [if_pos hnone] at h
    obtain rfl := Except.ok.inj h
    refine ⟨hlayout, hok, by rw [cut, if_pos hnone, List.nil_append], ?_⟩
    obtain ⟨hlocal, hdot⟩ := validateRelative_ok hok
    obtain ⟨cs, hcs, hnormal, heq⟩ := (clean_of_isLocal hlocal).resolve_left hdot
    rw [heq]
    simp [validateRelative, isLocal_joined hcs hnormal, clean_joined hcs hnormal,
      joined_ne_dot hcs hnormal, Except.isOk, Except.toBool]
  rw [if_neg hnone] at h
  split at h
  next hpre =>
    split at h
    next hrest =>
      obtain rfl := Except.ok.inj h
      refine ⟨hlayout, hok, ?_, hrest⟩
      rw [cut, if_neg hnone]
      have hpath := List.isPrefixOf_iff_prefix.1 hpre
      exact (List.prefix_iff_eq_append.1 hpath).symm
    · cases h
  · cases h

end Layout

end TorrentHub
