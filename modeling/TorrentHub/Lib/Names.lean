import TorrentHub.Lib.Lineage

namespace TorrentHub.Lib.RelPath

open List

variable {t c : Bytes} {cs ds xs : List Bytes}

def pathOf (cs : List Bytes) : Bytes := if cs = [] then dot else joined cs

structure Spells (t : Bytes) (cs : List Bytes) : Prop where
  kept : (components t).foldl (cleanStep false) [] = cs.reverse
  rooted : rooted t = false
  ne_nil : t ≠ []
  normal : ∀ c ∈ cs, Normal c

theorem exists_spells (h : isLocal t = true) : ∃ cs, Spells t cs := by
  obtain ⟨hroot, hne⟩ := rooted_of_isLocal h
  refine ⟨((components t).foldl (cleanStep false) []).reverse, ?_, hroot, hne, ?_⟩
  · rw [reverse_reverse]
  · exact fun c hc => normal_of_isLocal h c (mem_reverse.1 hc)

theorem Spells.unique (h : Spells t cs) (h' : Spells t ds) : cs = ds :=
  reverse_injective (h.kept.symm.trans h'.kept)

theorem Spells.clean (h : Spells t cs) : clean t = pathOf cs := by
  rw [RelPath.clean, h.rooted, cleanComponents, h.kept, reverse_reverse, pathOf]
  simp only [Bool.false_eq_true, ↓reduceIte]
  by_cases hcs : cs = []
  · rw [if_pos hcs, hcs]
    rfl
  · rw [if_neg hcs, if_neg (joined_ne_nil hcs h.normal)]

theorem foldl_cleanStep_normal (h : ∀ c ∈ xs, Normal c) (kept : List Bytes) :
    xs.foldl (cleanStep false) kept = xs.reverse ++ kept := by
  induction xs generalizing kept with
  | nil => rfl
  | cons x xs ih =>
    rw [foldl_cons, cleanStep_normal (h x mem_cons_self),
      ih fun c hc => h c (mem_cons_of_mem _ hc), reverse_cons, append_assoc]
    rfl

theorem spells_joined (hcs : cs ≠ []) (h : ∀ c ∈ cs, Normal c) : Spells (joined cs) cs := by
  refine ⟨?_, rooted_joined h, joined_ne_nil hcs h, h⟩
  rw [components_joined hcs fun c hc => (h c hc).no_slash, foldl_cleanStep_normal h, append_nil]

theorem spells_pathOf (h : ∀ c ∈ cs, Normal c) : Spells (pathOf cs) cs := by
  unfold pathOf
  split
  · subst cs
    exact ⟨by decide, by decide, by decide, h⟩
  next hcs => exact spells_joined hcs h

theorem pathOf_inj (h : ∀ c ∈ cs, Normal c) (h' : ∀ d ∈ ds, Normal d)
    (heq : pathOf cs = pathOf ds) : cs = ds := by
  have hnamed := spells_pathOf h
  rw [heq] at hnamed
  exact hnamed.unique (spells_pathOf h')

theorem joined_inj (hcs : cs ≠ []) (hds : ds ≠ []) (h : ∀ c ∈ cs, Normal c)
    (h' : ∀ d ∈ ds, Normal d) (heq : joined cs = joined ds) : cs = ds := by
  refine pathOf_inj h h' ?_
  rw [pathOf, pathOf, if_neg hcs, if_neg hds, heq]

theorem joined_append (hcs : cs ≠ []) (hds : ds ≠ []) :
    joined (cs ++ ds) = joined cs ++ [slash] ++ joined ds := by
  induction cs with
  | nil => exact absurd rfl hcs
  | cons c cs ih =>
    cases cs with
    | nil =>
      obtain ⟨d, ds, rfl⟩ := exists_cons_of_ne_nil hds
      rw [singleton_append, joined_cons_cons, joined_singleton]
    | cons c' cs =>
      have hrest := ih (by simp)
      rw [cons_append] at hrest
      rw [cons_append, cons_append, joined_cons_cons, hrest, joined_cons_cons]
      simp only [append_assoc]

theorem Spells.join (h : Spells t cs) (hxs : xs ≠ []) (hn : ∀ x ∈ xs, Normal x) :
    join [t, joined xs] = joined (cs ++ xs) := by
  have htext : joined [t, joined xs] = joined (components t ++ xs) := by
    rw [joined_append (components_ne_nil t) hxs, joined_components, joined_cons_cons,
      joined_singleton]
  have hnamed : Spells (joined (components t ++ xs)) (cs ++ xs) := by
    refine ⟨?_, ?_, ?_, ?_⟩
    · rw [components_joined (by simp [hxs]), foldl_append, h.kept,
        foldl_cleanStep_normal hn, reverse_append]
      intro c hc
      rcases mem_append.1 hc with hc | hc
      · exact components_no_slash hc
      · exact (hn c hc).no_slash
    · rw [← htext, joined_cons_cons]
      obtain ⟨b, t, rfl⟩ := exists_cons_of_ne_nil h.ne_nil
      exact h.rooted
    · rw [← htext, joined_cons_cons]
      simp
    · exact forall_mem_append.2 ⟨h.normal, hn⟩
  rw [RelPath.join, if_neg h.ne_nil, htext, hnamed.clean, pathOf, if_neg (by simp [hxs])]

theorem Spells.dir (h : Spells t cs) :
    ∃ ds, (∀ d ∈ ds, Normal d) ∧ dir t = pathOf ds ∧ (ds = cs.dropLast ∨ cs <+: ds) := by
  obtain ⟨init, last, hlast⟩ : ∃ init last, components t = init ++ [last] :=
    ⟨_, _, (dropLast_append_getLast (components_ne_nil t)).symm⟩
  have hkept : Kept (init.foldl (cleanStep false) []) := by
    refine (show Kept [] from ⟨[], [], rfl, by simp, by simp⟩).foldl fun c hc => ?_
    exact components_no_slash (s := t) (hlast ▸ mem_append_left _ hc)
  have hstep : cleanStep false (init.foldl (cleanStep false) []) last = cs.reverse := by
    rw [← h.kept, hlast, foldl_append]
    rfl
  have hnormal : ∀ d ∈ init.foldl (cleanStep false) [], Normal d := by
    refine normal_before_cleanStep hkept (c := last) fun d hd => h.normal d ?_
    rw [hstep] at hd
    exact mem_reverse.1 hd
  have hdir := dir_of_components h.rooted hlast hnormal
  generalize init.foldl (cleanStep false) [] = kept at hstep hnormal hdir
  refine ⟨kept.reverse, fun d hd => hnormal d (mem_reverse.1 hd), hdir, ?_⟩
  unfold cleanStep at hstep
  split at hstep
  · right
    refine ⟨[], ?_⟩
    rw [hstep, reverse_reverse, append_nil]
  split at hstep
  · right
    cases kept with
    | nil =>
      have hmem : dotdot ∈ cs.reverse := by
        rw [← hstep]
        simp
      exact absurd rfl (h.normal dotdot (mem_reverse.1 hmem)).ne_dotdot
    | cons n ns =>
      have hn := (hnormal n mem_cons_self).ne_dotdot
      simp only [hn, ↓reduceIte] at hstep
      rw [reverse_cons, hstep, reverse_reverse]
      exact prefix_append _ _
  · left
    have hcs' := congrArg reverse hstep
    rw [reverse_reverse, reverse_cons] at hcs'
    rw [← hcs', dropLast_concat]

structure Below (root path : Bytes) : Prop where
  inside : clean root ++ [slash] <+: path
  isLocal : RelPath.isLocal path = true
  clean : RelPath.clean path = path

section

variable (h : Spells t cs) (hcs : cs ≠ []) (hxs : xs ≠ []) (hn : ∀ x ∈ xs, Normal x)
include h hcs hxs hn

theorem Spells.below : Below t (joined (cs ++ xs)) := by
  have hall : ∀ c ∈ cs ++ xs, Normal c := forall_mem_append.2 ⟨h.normal, hn⟩
  refine ⟨?_, isLocal_joined (by simp [hcs]) hall, clean_joined (by simp [hcs]) hall⟩
  rw [h.clean, pathOf, if_neg hcs, joined_append hcs hxs]
  exact ⟨joined xs, rfl⟩

theorem Spells.below_join : Below t (RelPath.join [t, joined xs]) := by
  rw [h.join hxs hn]
  exact h.below hcs hxs hn

end

end TorrentHub.Lib.RelPath
