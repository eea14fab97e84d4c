import TorrentHub.Lib.RelPath

namespace TorrentHub.Lib.RelPath

open List

variable {s t c x p : Bytes} {cs kept : List Bytes}

def lineage : Nat → Bytes → Option (List Bytes)
  | 0, _ => none
  | fuel + 1, p => if p = dot then some [] else (lineage fuel (dir p)).map (p :: ·)

theorem mem_foldl_cleanStep (h : c ∈ cs.foldl (cleanStep false) kept) : c ∈ kept ∨ c ∈ cs := by
  induction cs generalizing kept with
  | nil => exact .inl h
  | cons d cs ih =>
    rcases ih h with hmem | hmem
    · unfold cleanStep at hmem
      split at hmem
      · exact .inl hmem
      split at hmem
      next hdd =>
        cases kept with
        | nil =>
          refine .inr (mem_cons.2 (.inl ?_))
          simpa [hdd] using hmem
        | cons top rest =>
          dsimp only at hmem
          split at hmem
          · rcases mem_cons.1 hmem with rfl | hmem
            · exact .inr (mem_cons.2 (.inl hdd.symm))
            · exact .inl hmem
          · exact .inl (mem_cons_of_mem _ hmem)
      · rcases mem_cons.1 hmem with rfl | hmem
        · exact .inr mem_cons_self
        · exact .inl hmem
    · exact .inr (mem_cons_of_mem _ hmem)

theorem rooted_of_isLocal (h : isLocal t = true) : rooted t = false ∧ t ≠ [] := by
  unfold isLocal at h
  split at h
  · cases h
  next hr => simpa only [Bool.or_eq_true, beq_iff_eq, not_or, Bool.not_eq_true] using hr

theorem joined_dotdot_cons (ds : List Bytes) :
    joined (dotdot :: ds) = dotdot ∨ (dotdot ++ [slash]) <+: joined (dotdot :: ds) := by
  cases ds with
  | nil => exact .inl (joined_singleton dotdot)
  | cons d ds => exact .inr ⟨joined (d :: ds), (joined_cons_cons dotdot d ds).symm⟩

theorem normal_of_isLocal (h : isLocal t = true) :
    ∀ c ∈ (components t).foldl (cleanStep false) [], Normal c := by
  obtain ⟨hroot, hne⟩ := rooted_of_isLocal h
  obtain ⟨names, ups, hk, hnames, hups⟩ := (show Kept [] from ⟨[], [], rfl, by simp, by simp⟩).foldl
      fun c hc => components_no_slash (s := t) hc
  have hnone : ups = [] := by
    by_contra hupsne
    have hmem : dotdot ∈ (components t).foldl (cleanStep false) [] := by
      obtain ⟨u, us, rfl⟩ := exists_cons_of_ne_nil hupsne
      rw [hk, mem_append]
      exact .inr (mem_cons.2 (.inl (hups u mem_cons_self).symm))
    have hcomponent : dotdot ∈ components t := by
      rcases mem_foldl_cleanStep hmem with h | h
      · cases h
      · exact h
    have hdots : (components t).any (fun c => c == dot || c == dotdot) = true :=
      any_eq_true.2 ⟨dotdot, hcomponent, by simp⟩
    have hups' : ∃ us, ups.reverse = dotdot :: us := by
      cases hr : ups.reverse with
      | nil => exact absurd (reverse_eq_nil_iff.1 hr) hupsne
      | cons u us =>
        have hu : u ∈ ups := by
          rw [← mem_reverse, hr]
          exact mem_cons_self
        exact ⟨us, by rw [hups u hu]⟩
    obtain ⟨us, hrev⟩ := hups'
    have hbody : joined (cleanComponents false (components t))
        = joined (dotdot :: (us ++ names.reverse)) := by
      rw [cleanComponents, hk, reverse_append, hrev, cons_append]
    have hclean : clean t = joined (dotdot :: (us ++ names.reverse)) := by
      have hnonempty : joined (dotdot :: (us ++ names.reverse)) ≠ [] := by
        rcases joined_dotdot_cons (us ++ names.reverse) with h | ⟨r, h⟩
        · rw [h]
          decide
        · rw [← h]
          simp [dotdot]
      rw [clean, hroot]
      simp only [Bool.false_eq_true, ↓reduceIte, hbody, if_neg hnonempty]
    unfold isLocal at h
    rw [if_neg (by simp [hroot, hne])] at h
    simp only [hdots, ↓reduceIte, Bool.not_eq_true', Bool.or_eq_false_iff, beq_eq_false_iff_ne] at h
    rw [hclean] at h
    rcases joined_dotdot_cons (us ++ names.reverse) with heq | hpre
    · exact h.1 heq
    · have hdots := isPrefixOf_iff_prefix.2 hpre
      rw [hdots] at h
      cases h.2
  rw [hk, hnone, append_nil]
  exact hnames

theorem clean_of_isLocal (h : isLocal t = true) :
    clean t = dot ∨ ∃ cs, cs ≠ [] ∧ (∀ c ∈ cs, Normal c) ∧ clean t = joined cs := by
  have hnormal := normal_of_isLocal h
  obtain ⟨hroot, -⟩ := rooted_of_isLocal h
  cases hk : (components t).foldl (cleanStep false) [] with
  | nil =>
    refine .inl ?_
    rw [clean, hroot, cleanComponents, hk]
    rfl
  | cons d ds =>
    rw [hk] at hnormal
    have hrev : ∀ c ∈ (d :: ds).reverse, Normal c := fun c hc => hnormal c (mem_reverse.1 hc)
    refine .inr ⟨(d :: ds).reverse, by simp, hrev, ?_⟩
    rw [clean, hroot, cleanComponents, hk]
    simp only [Bool.false_eq_true, ↓reduceIte]
    rw [if_neg (joined_ne_nil (by simp) hrev)]

theorem components_ne_nil (t : Bytes) : components t ≠ [] := splitOnP_ne_nil _ _

theorem joined_components (t : Bytes) : joined (components t) = t := intercalate_splitOn slash

theorem normal_before_cleanStep (hkept : Kept kept)
    (h : ∀ d ∈ cleanStep false kept c, Normal d) : ∀ d ∈ kept, Normal d := by
  obtain ⟨names, ups, rfl, hnames, hups⟩ := hkept
  have hnone : ups = [] := by
    by_contra hne
    obtain ⟨u, us, rfl⟩ := exists_cons_of_ne_nil hne
    obtain rfl := hups u mem_cons_self
    have hmem : dotdot ∈ cleanStep false (names ++ dotdot :: us) c := by
      unfold cleanStep
      split
      · simp
      split
      · cases names with
        | nil => simp
        | cons n ns =>
          have hn := (hnames n mem_cons_self).ne_dotdot
          simp [hn]
      · simp
    exact (h dotdot hmem).ne_dotdot rfl
  rw [hnone, append_nil]
  exact hnames

theorem dir_of_components {init : List Bytes} {last : Bytes} (hroot : rooted t = false)
    (hlast : components t = init ++ [last])
    (hkept : ∀ d ∈ init.foldl (cleanStep false) [], Normal d) :
    dir t = if (init.foldl (cleanStep false) []).reverse = [] then dot
      else joined (init.foldl (cleanStep false) []).reverse := by
  have hslash : ∀ c ∈ init ++ [last], slash ∉ c := by
    rw [← hlast]
    exact fun c hc => components_no_slash hc
  have hlastslash : slash ∉ last := hslash last (by simp)
  have ht : joined (init ++ [last]) = t := by rw [← hlast, joined_components]
  have hkept' : ∀ d ∈ (init.foldl (cleanStep false) []).reverse, Normal d :=
    fun d hd => hkept d (mem_reverse.1 hd)
  by_cases hinit : init = []
  · subst hinit
    have hdrop : last.rdropWhile (fun b => b != slash) = [] := by
      rw [rdropWhile_eq_nil_iff]
      intro b hb
      simpa using fun heq : b = slash => hlastslash (heq ▸ hb)
    rw [dir, ← ht, nil_append, joined_singleton, hdrop]
    rfl
  have hdir : dir t = clean (joined (init ++ [[]])) := by
    rw [dir, ← ht, joined_concat hinit, rdropWhile_slash hlastslash, joined_concat hinit,
      append_nil]
  have hdirroot : rooted (joined (init ++ [[]])) = false := by
    rw [← ht, joined_concat hinit] at hroot
    rw [joined_concat hinit]
    cases hj : joined init with
    | nil =>
      rw [hj] at hroot
      exact absurd hroot (by simp [rooted])
    | cons b rest =>
      rw [hj] at hroot
      exact hroot
  have hdircomponents : components (joined (init ++ [[]])) = init ++ [[]] := by
    refine components_joined (by simp) ?_
    intro c hc
    rcases mem_append.1 hc with hc | hc
    · exact hslash c (mem_append_left _ hc)
    · rw [mem_singleton.1 hc]
      simp
  rw [hdir, clean, hdirroot, cleanComponents, hdircomponents, foldl_append]
  simp only [foldl_cons, foldl_nil, Bool.false_eq_true, ↓reduceIte, cleanStep, true_or]
  by_cases hnil : (init.foldl (cleanStep false) []).reverse = []
  · rw [if_pos hnil, hnil]
    rfl
  · rw [if_neg hnil, if_neg (joined_ne_nil hnil hkept')]

theorem clean_append (h : isLocal t = true) (hx : slash ∉ x) (hlen : 2 < x.length) :
    ∃ cs c, (∀ d ∈ cs ++ [c], Normal d) ∧ clean (t ++ x) = joined (cs ++ [c]) ∧
      dir (t ++ x) = if cs = [] then dot else joined cs := by
  obtain ⟨hroot, hne⟩ := rooted_of_isLocal h
  have hnormal := normal_of_isLocal h
  obtain ⟨init, last, hlast⟩ : ∃ init last, components t = init ++ [last] :=
    ⟨_, _, (dropLast_append_getLast (components_ne_nil t)).symm⟩
  have hslash : ∀ c ∈ init ++ [last], slash ∉ c := by
    rw [← hlast]
    exact fun c hc => components_no_slash hc
  have hinitslash : ∀ c ∈ init, slash ∉ c := fun c hc => hslash c (mem_append_left _ hc)
  have ht : joined (init ++ [last]) = t := by rw [← hlast, joined_components]
  have happend : t ++ x = joined (init ++ [last ++ x]) := by
    rw [← ht]
    by_cases hinit : init = []
    · rw [hinit, nil_append, nil_append, joined_singleton, joined_singleton]
    · rw [joined_concat hinit, joined_concat hinit, append_assoc]
  have hname : Normal (last ++ x) := by
    have hlength : 2 < (last ++ x).length := by
      rw [length_append]
      omega
    refine ⟨?_, ?_, ?_, ?_⟩
    · intro heq
      rw [heq] at hlength
      simp at hlength
    · intro heq
      rw [heq] at hlength
      simp [dot] at hlength
    · intro heq
      rw [heq] at hlength
      simp [dotdot] at hlength
    · rw [mem_append, not_or]
      exact ⟨hslash last (by simp), hx⟩
  have hcomponents : components (t ++ x) = init ++ [last ++ x] := by
    rw [happend]
    refine components_joined (by simp) ?_
    intro c hc
    rcases mem_append.1 hc with hc | hc
    · exact hinitslash c hc
    · rw [mem_singleton.1 hc]
      exact hname.no_slash
  have hkept : ∀ d ∈ init.foldl (cleanStep false) [], Normal d := by
    refine normal_before_cleanStep (c := last) ?_ ?_
    · exact (show Kept [] from ⟨[], [], rfl, by simp, by simp⟩).foldl hinitslash
    · rw [hlast, foldl_append] at hnormal
      exact hnormal
  have hkept' : ∀ d ∈ (init.foldl (cleanStep false) []).reverse, Normal d :=
    fun d hd => hkept d (mem_reverse.1 hd)
  have hall : ∀ d ∈ (init.foldl (cleanStep false) []).reverse ++ [last ++ x], Normal d := by
    intro d hd
    rcases mem_append.1 hd with hd | hd
    · exact hkept' d hd
    · rw [mem_singleton.1 hd]
      exact hname
  have hroot' : rooted (t ++ x) = false := by
    obtain ⟨b, t, rfl⟩ := exists_cons_of_ne_nil hne
    exact hroot
  refine ⟨_, _, hall, ?_, ?_⟩
  · rw [clean, hroot', cleanComponents, hcomponents, foldl_append, foldl_cons,
      foldl_nil, cleanStep_normal hname, reverse_cons]
    simp only [Bool.false_eq_true, ↓reduceIte]
    rw [if_neg (joined_ne_nil (by simp) hall)]
  · exact dir_of_components hroot' hcomponents hkept

theorem length_le_joined (h : ∀ c ∈ cs, Normal c) : cs.length ≤ (joined cs).length := by
  induction cs with
  | nil => simp
  | cons c cs ih =>
    have hc := length_pos_of_ne_nil (h c mem_cons_self).ne_nil
    cases cs with
    | nil =>
      rw [joined_singleton, length_singleton]
      exact hc
    | cons d cs =>
      have hrest := ih fun e he => h e (mem_cons_of_mem _ he)
      rw [joined_cons_cons, length_append, length_append]
      simp only [length_cons, length_nil] at hrest ⊢
      omega

theorem joined_ne_dot (hn : cs ≠ []) (h : ∀ c ∈ cs, Normal c) : joined cs ≠ dot := by
  intro heq
  have hc := components_joined hn fun c hc => (h c hc).no_slash
  rw [heq] at hc
  exact (h dot (hc ▸ by decide)).ne_dot rfl

theorem lineage_joined (hn : cs ≠ []) (h : ∀ c ∈ cs, Normal c) {fuel : Nat}
    (hfuel : cs.length < fuel) : ∃ ps, lineage fuel (joined cs) = some ps ∧
      ∀ x, x ∈ ps ↔ ∃ k, 0 < k ∧ k ≤ cs.length ∧ x = joined (cs.take k) := by
  induction cs using reverseRecOn generalizing fuel with
  | nil => exact absurd rfl hn
  | append_singleton cs c ih =>
    obtain ⟨fuel, rfl⟩ : ∃ f, fuel = f + 1 := ⟨fuel - 1, by omega⟩
    have hlength : (cs ++ [c]).length = cs.length + 1 := by simp
    unfold lineage
    rw [if_neg (joined_ne_dot hn h), dir_joined h]
    by_cases hcs : cs = []
    · subst hcs
      obtain ⟨fuel, rfl⟩ : ∃ f, fuel = f + 1 := ⟨fuel - 1, by simp at hfuel; omega⟩
      refine ⟨[joined ([] ++ [c])], by simp [lineage], ?_⟩
      intro x
      rw [mem_singleton]
      constructor
      · rintro rfl
        exact ⟨1, by omega, by simp, by simp⟩
      rintro ⟨k, hk, hk', rfl⟩
      obtain rfl : k = 1 := by simp at hk'; omega
      simp
    obtain ⟨ps, hps, hmem⟩ := ih hcs (fun d hd => h d (mem_append_left _ hd))
      (show cs.length < fuel by omega)
    rw [if_neg hcs, hps]
    refine ⟨_, rfl, ?_⟩
    intro x
    rw [mem_cons, hmem]
    constructor
    · rintro (rfl | ⟨k, hk, hk', rfl⟩)
      · exact ⟨cs.length + 1, by omega, by omega, by rw [take_of_length_le (by omega)]⟩
      · exact ⟨k, hk, by omega, by rw [take_append_of_le_length hk']⟩
    rintro ⟨k, hk, hk', rfl⟩
    by_cases hlast : k = cs.length + 1
    · exact .inl (by rw [take_of_length_le (by omega)])
    refine .inr ⟨k, hk, by omega, ?_⟩
    rw [take_append_of_le_length (by omega)]

theorem isPrefix_joined_iff (h : ∀ c ∈ cs, Normal c) :
    (p ++ [slash]) <+: joined cs ↔ ∃ k, 0 < k ∧ k < cs.length ∧ p = joined (cs.take k) := by
  constructor
  · intro hpre
    induction cs generalizing p with
    | nil =>
      have hnil := prefix_nil.1 hpre
      simp at hnil
    | cons c cs ih =>
      cases cs with
      | nil =>
        rw [joined_singleton] at hpre
        exact absurd (hpre.subset (by simp)) (h c mem_cons_self).no_slash
      | cons d cs =>
        rw [joined_cons_cons] at hpre
        have hc := (h c mem_cons_self).no_slash
        by_cases hlen : p.length ≤ c.length
        · have heq : p ++ [slash] <+: c ++ [slash] := by
            refine prefix_of_prefix_length_le hpre (prefix_append _ _) ?_
            simpa using hlen
          have hp : p = c := by
            rcases Nat.eq_or_lt_of_le hlen with hl | hl
            · exact append_cancel_right (heq.eq_of_length (by simp [hl]))
            have hpc : p ++ [slash] <+: c := by
              refine prefix_of_prefix_length_le heq (prefix_append _ _) ?_
              simp
              omega
            exact absurd (hpc.subset (by simp)) hc
          exact ⟨1, by omega, by simp, by simp [hp]⟩
        obtain ⟨q, rfl⟩ : ∃ q, p = c ++ [slash] ++ q := by
          have hcp : c ++ [slash] <+: p ++ [slash] := by
            refine prefix_of_prefix_length_le (prefix_append _ _) hpre ?_
            simp
            omega
          have hcp' : c ++ [slash] <+: p := by
            refine prefix_of_prefix_length_le hcp (prefix_append _ _) ?_
            simp
            omega
          obtain ⟨q, hq⟩ := hcp'
          exact ⟨q, hq.symm⟩
        rw [append_assoc, prefix_append_right_inj] at hpre
        obtain ⟨k, hk, hk', rfl⟩ := ih (fun e he => h e (mem_cons_of_mem _ he)) hpre
        refine ⟨k + 1, by omega, by simpa using hk', ?_⟩
        obtain ⟨k, rfl⟩ : ∃ j, k = j + 1 := ⟨k - 1, by omega⟩
        simp only [take_succ_cons]
        rw [joined_cons_cons]
  · rintro ⟨k, hk, hk', rfl⟩
    have hsplit : cs = cs.take k ++ cs.drop k := (take_append_drop k cs).symm
    obtain ⟨d, ds, hd⟩ := exists_cons_of_ne_nil
      (show cs.drop k ≠ [] by simp [drop_eq_nil_iff]; omega)
    have hne : cs.take k ≠ [] := by
      intro heq
      have hlength := congrArg length heq
      rw [length_take, length_nil] at hlength
      omega
    have hjoin : ∀ (as : List Bytes) (e : Bytes) (es : List Bytes), as ≠ [] →
        joined (as ++ e :: es) = joined as ++ [slash] ++ joined (e :: es) := by
      intro as e es has
      induction as with
      | nil => exact absurd rfl has
      | cons a as ih =>
        cases as with
        | nil => simp [joined_cons_cons]
        | cons b as =>
          rw [cons_append, cons_append, joined_cons_cons, ← cons_append,
            ih (by simp), joined_cons_cons]
          simp
    rw [hd] at hsplit
    refine ⟨joined (d :: ds), ?_⟩
    conv_rhs => rw [hsplit]
    rw [hjoin _ d ds hne]

end TorrentHub.Lib.RelPath
