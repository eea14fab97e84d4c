import TorrentHub.Lib.Except
import TorrentHub.Move.Plan

namespace TorrentHub
open Lib RelPath List Layout

variable {l source target : Layout} {name rest p : Bytes}

theorem exists_joined_of_validateRelative (h : (validateRelative p).isOk = true)
    (hclean : clean p = p) : ∃ xs, xs ≠ [] ∧ (∀ x ∈ xs, Normal x) ∧ p = joined xs := by
  obtain ⟨hlocal, hdot⟩ := validateRelative_ok h
  rw [hclean] at hdot
  exact exists_joined hlocal hclean hdot

theorem normal_of_validateRelative (h : (validateRelative p).isOk = true) (hslash : slash ∉ p) :
    Normal p := by
  obtain ⟨hlocal, hdot⟩ := validateRelative_ok h
  obtain ⟨hroot, hne⟩ := rooted_of_isLocal hlocal
  have hcomponents : components p = [p] := by
    have := components_joined (cons_ne_nil p []) (by simpa using hslash)
    rwa [joined_singleton] at this
  have hnormal := normal_of_isLocal hlocal
  rw [hcomponents, foldl_cons, foldl_nil] at hnormal
  by_cases hdots : p = dot
  · subst hdots
    exact absurd (by decide) hdot
  by_cases hups : p = dotdot
  · subst hups
    exact absurd rfl (hnormal dotdot (by decide)).ne_dotdot
  · exact ⟨hne, hdots, hups, hslash⟩

/-- Names none of which is the service's own, and a name or nothing that it cuts. -/
structure Layout.Sound (l : Layout) (cs : List Bytes) : Prop where
  named : Spells l.root cs
  ne_nil : cs ≠ []
  free : ∀ c ∈ cs, reservedComponent c = false
  cuts : l.layoutPrefix = [] ∨ Normal l.layoutPrefix

theorem reservedComponent_hex {hash : Bytes} (h : hexText hash = true) (hne : hash ≠ []) :
    reservedComponent hash = false := by
  obtain ⟨b, hash, rfl⟩ := exists_cons_of_ne_nil hne
  simp only [hexText, all_cons, Bool.and_eq_true] at h
  have hb : lowerByte b ≠ 0x2e := by
    intro heq
    have hdigit := h.2.1
    have hall : ∀ n < 256, lowerByte (UInt8.ofNat n) = 0x2e → hexDigit (UInt8.ofNat n) = false := by
      decide +kernel
    have := hall b.toNat b.toNat_lt
    simp only [UInt8.ofNat_toNat] at this
    rw [this heq] at hdigit
    cases hdigit
  have hstart : ascii ".tsh-" = 0x2e :: ascii "tsh-" := by decide
  rw [reservedComponent, hstart, map_cons, isPrefixOf_cons_cons, beq_false_of_ne hb.symm,
    Bool.false_and]

theorem Layout.exists_sound (h : l.validate = .ok ()) : ∃ cs, l.Sound cs := by
  unfold validate at h
  split at h
  · cases h
  rename_i hvalid
  simp only [Bool.or_eq_true, Bool.not_eq_true', not_or, Bool.not_eq_false] at hvalid
  obtain ⟨hlocal, hdot⟩ := validateRelative_ok hvalid.2
  obtain ⟨cs, hnamed⟩ := exists_spells hlocal
  have hcs : cs ≠ [] := by
    rintro rfl
    exact hdot hnamed.clean
  have hclean : clean l.root = joined cs := by rw [hnamed.clean, pathOf, if_neg hcs]
  have hcomponents : components (clean l.root) = cs := by
    rw [hclean, components_joined hcs fun c hc => (hnamed.normal c hc).no_slash]
  refine ⟨cs, hnamed, hcs, ?_, ?_⟩
  · split at h
    · split at h
      · cases h
      rename_i hlegacy
      simp only [Bool.or_eq_true, Bool.not_eq_true', not_or, Bool.not_eq_false] at hlegacy
      have hroot := hlegacy.1
      rw [validRoot, hcomponents] at hroot
      split at hroot
      · simp only [Bool.and_eq_true, beq_iff_eq] at hroot
        obtain ⟨⟨rfl, hlen⟩, hhex⟩ := hroot
        intro c hc
        rcases mem_cons.1 hc with rfl | hc
        · decide
        rw [mem_singleton.1 hc]
        refine reservedComponent_hex hhex ?_
        rintro rfl
        cases hlen
      · cases hroot
    · split at h
      · cases h
      rename_i hunclean
      simp only [Bool.or_eq_true, bne_iff_ne, ne_eq, not_or, not_not] at hunclean
      split at h
      · cases h
      rename_i hfree
      rw [hunclean.2] at hcomponents
      rw [hcomponents, any_eq_true, not_exists] at hfree
      intro c hc
      exact Bool.not_eq_true _ ▸ fun hreserved => hfree c ⟨hc, hreserved⟩
  · split at h
    · split at h
      · cases h
      rename_i hlegacy
      simp only [Bool.or_eq_true, bne_iff_ne, ne_eq, not_or, not_not] at hlegacy
      exact .inl hlegacy.2
    · split at h
      · cases h
      split at h
      · cases h
      split at h
      · cases h
      rename_i hcut
      by_cases hnone : l.layoutPrefix = []
      · exact .inl hnone
      right
      simp only [Bool.and_eq_true, bne_iff_ne, ne_eq, hnone, not_false_eq_true, true_and,
        Bool.or_eq_true, Bool.not_eq_true', not_or, Bool.not_eq_false, Bool.not_eq_true,
        contains_eq_mem, decide_eq_false_iff_not] at hcut
      exact normal_of_validateRelative hcut.1.1 hcut.1.2

def Layout.cutNames (l : Layout) : List Bytes :=
  if l.layoutPrefix = [] then [] else [l.layoutPrefix]

theorem Layout.relative_names (h : l.relative name = .ok rest) :
    ∃ rs, rs ≠ [] ∧ (∀ r ∈ l.cutNames ++ rs, Normal r) ∧ rest = joined rs ∧
      clean name = joined (l.cutNames ++ rs) := by
  obtain ⟨hlayout, hname, hcut, -⟩ := relative_ok h
  obtain ⟨hlocal, hdot⟩ := validateRelative_ok hname
  obtain ⟨ps, hps, hnormal, hclean⟩ := (clean_of_isLocal hlocal).resolve_left hdot
  have hcomponents : components (clean name) = ps := by
    rw [hclean, components_joined hps fun c hc => (hnormal c hc).no_slash]
  by_cases hnone : l.layoutPrefix = []
  · rw [cut, if_pos hnone, nil_append] at hcut
    rw [cutNames, if_pos hnone]
    exact ⟨ps, hps, hnormal, by rw [← hcut, hclean], hclean⟩
  rw [cut, if_neg hnone] at hcut
  rw [cutNames, if_neg hnone]
  obtain ⟨cs, hsound⟩ := exists_sound hlayout
  have hslash := (hsound.cuts.resolve_left hnone).no_slash
  have hlist : ps = l.layoutPrefix :: components rest := by
    have htext : clean name = joined (l.layoutPrefix :: components rest) := by
      obtain ⟨c, cs, hc⟩ := exists_cons_of_ne_nil (components_ne_nil rest)
      rw [hcut, hc, joined_cons_cons, ← hc, joined_components]
    rw [← hcomponents, htext]
    refine components_joined (cons_ne_nil _ _) fun c hc => ?_
    rcases mem_cons.1 hc with rfl | hc
    · exact hslash
    · exact components_no_slash hc
  refine ⟨components rest, components_ne_nil rest, ?_, (joined_components rest).symm, ?_⟩
  · rw [singleton_append, ← hlist]
    exact hnormal
  · rw [singleton_append, ← hlist, hclean]

theorem Layout.relative_clean (h : (validateRelative name).isOk = true) :
    l.relative (clean name) = l.relative name := by
  obtain ⟨hlocal, hdot⟩ := validateRelative_ok h
  obtain ⟨ps, hps, hnormal, hclean⟩ := (clean_of_isLocal hlocal).resolve_left hdot
  have hname : validateRelative name = .ok () := by
    obtain ⟨⟨⟩, h⟩ := exists_of_isOk h
    exact h
  have hcleaned : validateRelative (clean name) = .ok () := by
    have hisdot : (joined ps == dot) = false := beq_false_of_ne (joined_ne_dot hps hnormal)
    rw [hclean, validateRelative, isLocal_joined hps hnormal, clean_joined hps hnormal, hisdot]
    rfl
  have htwice : clean (clean name) = clean name := by rw [hclean, clean_joined hps hnormal]
  unfold relative
  rw [hname, hcleaned, htwice]

theorem relative_metadataPath (h : source.relative name = .ok p) :
    target.relative (metadataPath source p) = target.relative name := by
  obtain ⟨hlayout, hname, -⟩ := relative_ok h
  obtain ⟨rs, hrs, hnormal, rfl, hclean⟩ := relative_names h
  have hpath : metadataPath source (joined rs) = clean name := by
    rw [hclean, metadataPath, cutNames]
    by_cases hnone : source.layoutPrefix = []
    · rw [if_pos hnone, if_pos hnone, nil_append]
    rw [if_neg hnone, if_neg hnone]
    rw [cutNames, if_neg hnone] at hnormal
    have hcut : ∀ c ∈ [source.layoutPrefix], Normal c :=
      fun c hc => hnormal c (mem_append_left _ hc)
    have hjoin := (spells_joined (cons_ne_nil _ _) hcut).join hrs
      fun r hr => hnormal r (mem_append_right _ hr)
    rwa [joined_singleton] at hjoin
  rw [hpath, relative_clean hname]

theorem relative_of_path {xs : List Bytes} (hxs : xs ≠ []) (hnormal : ∀ x ∈ xs, Normal x)
    (h : source.path name = .ok (join [source.root, joined xs])) :
    source.relative name = .ok (joined xs) := by
  unfold path at h
  split at h
  · cases h
  rename_i rest hrest
  obtain ⟨hlayout, -⟩ := relative_ok hrest
  obtain ⟨rs, hrs, hrnormal, rfl, -⟩ := relative_names hrest
  obtain ⟨cs, hsound⟩ := exists_sound hlayout
  have hrnormal' : ∀ r ∈ rs, Normal r := fun r hr => hrnormal r (mem_append_right _ hr)
  have heq := Except.ok.inj h
  rw [hsound.named.join hrs hrnormal', hsound.named.join hxs hnormal] at heq
  have hlists := joined_inj (by simp [hrs]) (by simp [hxs])
    (forall_mem_append.2 ⟨hsound.named.normal, hrnormal'⟩)
    (forall_mem_append.2 ⟨hsound.named.normal, hnormal⟩) heq
  rw [append_cancel_left hlists] at hrest
  exact hrest

section

variable {volumes : List VolumeRegistration}

def planned (volumes : List VolumeRegistration) (source target : Layout) (e : StorageTreeEntry) :
    Option PlannedEntry :=
  if isVolumeMarker volumes (join [source.root, e.path]) then none
  else
    match target.relative (metadataPath source e.path) with
    | .error _ => none
    | .ok path => if e.directory then none else some ⟨e.path, path, e.evidence⟩

theorem planEntries_ok {es : List StorageTreeEntry} {plan plan' : LocationPlan}
    (h : planEntries volumes source target es plan = .ok plan') :
    plan'.entries = plan.entries ++ es.filterMap (planned volumes source target) ∧
      plan'.method = if es.any (fun e => isVolumeMarker volumes (join [source.root, e.path]))
        then .copy else plan.method := by
  induction es generalizing plan with
  | nil =>
    obtain rfl := Except.ok.inj h
    exact ⟨(append_nil _).symm, rfl⟩
  | cons e es ih =>
    unfold planEntries at h
    rw [filterMap_cons, any_cons, planned]
    by_cases hmarker : isVolumeMarker volumes (join [source.root, e.path]) = true
    · rw [if_pos hmarker] at h ⊢
      obtain ⟨hentries, hmethod⟩ := ih h
      refine ⟨hentries, ?_⟩
      rw [hmethod, hmarker, Bool.true_or, if_pos rfl, ite_self]
    rw [if_neg hmarker] at h ⊢
    rw [Bool.not_eq_true] at hmarker
    rw [hmarker, Bool.false_or]
    cases hpath : target.relative (metadataPath source e.path) with
    | error err =>
      rw [hpath] at h
      dsimp only at h ⊢
      split at h
      · exact ih h
      obtain ⟨hentries, hmethod⟩ := ih h
      exact ⟨hentries, hmethod⟩
    | ok path =>
      rw [hpath] at h
      dsimp only at h ⊢
      by_cases hdirectory : e.directory = true
      · rw [if_pos hdirectory] at h ⊢
        obtain ⟨hentries, hmethod⟩ := ih h
        exact ⟨hentries, hmethod⟩
      rw [if_neg hdirectory] at h ⊢
      split at h
      · cases h
      obtain ⟨hentries, hmethod⟩ := ih h
      refine ⟨?_, hmethod⟩
      rw [hentries]
      simp only [append_assoc, singleton_append]

theorem planLocation_ok {env : PlanEnv} {tree : StorageTree} {plan : LocationPlan}
    (htree : env.snapshot = .ok tree) (h : planLocation volumes source target env = .ok plan) :
    plan.entries = tree.entries.filterMap (planned volumes source target) ∧
      plan.method = if tree.entries.any
          (fun e => isVolumeMarker volumes (join [source.root, e.path])) then .copy
        else if source.layoutPrefix == target.layoutPrefix && tree.identity != "" then .rename
        else .copy := by
  unfold planLocation at h
  split at h
  · cases h
  · cases h
  rw [htree] at h
  dsimp only at h
  split at h
  · cases h
  split at h
  · cases h
  · exact planEntries_ok h

end

/-- A tree as a walk finds it: every entry has its own path, a clean one below the root. -/
structure StorageTree.Walked (tree : StorageTree) : Prop where
  named : ∀ e ∈ tree.entries, ∃ xs, xs ≠ [] ∧ (∀ x ∈ xs, Normal x) ∧ e.path = joined xs
  nodup : (tree.entries.map (·.path)).Nodup

def LocationPlan.Brings (plan : LocationPlan) (target : Layout) (e : StorageTreeEntry)
    (path : Bytes) : Prop :=
  match plan.method with
  | .rename => join [target.root, e.path] = path
  | _ => ∃ p ∈ plan.entries, p.source = e.path ∧ p.evidence = e.evidence ∧
      join [target.root, p.target] = path

theorem planLocation_brings {volumes : List VolumeRegistration} {env : PlanEnv}
    {tree : StorageTree} {plan : LocationPlan} (htree : env.snapshot = .ok tree)
    (hwalked : tree.Walked) (h : planLocation volumes source target env = .ok plan)
    {e : StorageTreeEntry} (he : e ∈ tree.entries) (hfile : e.directory = false)
    {path path' : Bytes} (hsource : source.path path = .ok (join [source.root, e.path]))
    (htarget : target.path path = .ok path') : plan.Brings target e path' ↔
      isVolumeMarker volumes (join [source.root, e.path]) = false := by
  obtain ⟨hentries, hmethod⟩ := planLocation_ok htree h
  obtain ⟨xs, hxs, hnormal, hpath⟩ := hwalked.named e he
  have hrelative : source.relative path = .ok e.path := by
    rw [hpath] at hsource ⊢
    exact relative_of_path hxs hnormal hsource
  have hresolved : target.relative (metadataPath source e.path) = target.relative path :=
    relative_metadataPath hrelative
  unfold Layout.path at htarget
  split at htarget
  · cases htarget
  rename_i rest hrest
  obtain rfl := Except.ok.inj htarget
  rw [hrest] at hresolved
  unfold LocationPlan.Brings
  by_cases hmarker : isVolumeMarker volumes (join [source.root, e.path]) = true
  · have hany : tree.entries.any
        (fun e => isVolumeMarker volumes (join [source.root, e.path])) = true :=
      any_eq_true.2 ⟨e, he, hmarker⟩
    rw [hany, if_pos rfl] at hmethod
    rw [hmethod, hmarker]
    refine ⟨?_, nofun⟩
    rintro ⟨p, hp, hpsource, -⟩
    rw [hentries, mem_filterMap] at hp
    obtain ⟨e', he', hplanned⟩ := hp
    have hsame : e'.path = e.path := by
      rw [← hpsource]
      unfold planned at hplanned
      split at hplanned
      · cases hplanned
      split at hplanned
      · cases hplanned
      split at hplanned
      · cases hplanned
      · rw [← Option.some.inj hplanned]
    obtain rfl := inj_on_of_nodup_map hwalked.nodup he' he hsame
    rw [planned, if_pos hmarker] at hplanned
    cases hplanned
  have hplanned : planned volumes source target e = some ⟨e.path, rest, e.evidence⟩ := by
    rw [planned, if_neg hmarker, hresolved, hfile]
    rfl
  rw [Bool.not_eq_true] at hmarker
  refine ⟨fun _ => hmarker, fun _ => ?_⟩
  have hcopied : ∃ p ∈ plan.entries, p.source = e.path ∧ p.evidence = e.evidence ∧
      join [target.root, p.target] = join [target.root, rest] := by
    refine ⟨⟨e.path, rest, e.evidence⟩, ?_, rfl, rfl, rfl⟩
    rw [hentries]
    exact mem_filterMap.2 ⟨e, he, hplanned⟩
  split
  next hrename =>
    rw [hrename] at hmethod
    split at hmethod
    · cases hmethod
    split at hmethod
    next hsame =>
      rw [Bool.and_eq_true, beq_iff_eq] at hsame
      have hcut := (relative_ok hrelative).2.2.1
      have hcut' := (relative_ok hrest).2.2.1
      rw [hcut, Layout.cut, Layout.cut, hsame.1] at hcut'
      rw [append_cancel_left hcut']
    · cases hmethod
  · exact hcopied

end TorrentHub
