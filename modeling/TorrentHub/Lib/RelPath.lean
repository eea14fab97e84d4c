import Mathlib.Data.List.DropRight

namespace TorrentHub.Lib

open List

abbrev Bytes := List UInt8

def ascii (text : String) : Bytes := text.toList.map fun c => c.toNat.toUInt8

namespace RelPath

def slash : UInt8 := 0x2f
def dot : Bytes := [0x2e]
def dotdot : Bytes := [0x2e, 0x2e]

def components (s : Bytes) : List Bytes := s.splitOn slash

def joined (cs : List Bytes) : Bytes := [slash].intercalate cs

def rooted (s : Bytes) : Bool := s.head? == some slash

def cleanStep (root : Bool) (kept : List Bytes) (c : Bytes) : List Bytes :=
  if c = [] ∨ c = dot then kept
  else if c = dotdot then
    match kept with
    | [] => if root then [] else [dotdot]
    | top :: rest => if top = dotdot then dotdot :: top :: rest else rest
  else c :: kept

def cleanComponents (root : Bool) (cs : List Bytes) : List Bytes :=
  (cs.foldl (cleanStep root) []).reverse

/-- The shortest path that means the same: no empty or dot component, and no parent
component after a name. -/
def clean (s : Bytes) : Bytes :=
  let body := joined (cleanComponents (rooted s) (components s))
  if rooted s then slash :: body else if body = [] then dot else body

def dir (s : Bytes) : Bytes := clean (s.rdropWhile fun b => b != slash)

def join : List Bytes → Bytes
  | [] => []
  | c :: cs => if c = [] then join cs else clean (joined (c :: cs))

def isLocal (s : Bytes) : Bool :=
  if rooted s || s == [] then false
  else
    let hasDots := (components s).any fun c => c == dot || c == dotdot
    let s := if hasDots then clean s else s
    !(s == dotdot || (dotdot ++ [slash]).isPrefixOf s)

structure Normal (c : Bytes) : Prop where
  ne_nil : c ≠ []
  ne_dot : c ≠ dot
  ne_dotdot : c ≠ dotdot
  no_slash : slash ∉ c

variable {root : Bool} {s c p : Bytes} {cs kept : List Bytes}

theorem cleanStep_normal (hc : Normal c) : cleanStep root kept c = c :: kept := by
  simp only [cleanStep, hc.ne_nil, hc.ne_dot, hc.ne_dotdot, or_self, ↓reduceIte]

theorem cleanComponents_normal (h : ∀ c ∈ cs, Normal c) : cleanComponents root cs = cs := by
  have hfold : ∀ (cs kept : List Bytes), (∀ c ∈ cs, Normal c) →
      cs.foldl (cleanStep root) kept = cs.reverse ++ kept := by
    intro cs
    induction cs with
    | nil => intro kept _; rfl
    | cons c cs ih =>
      intro kept h
      rw [foldl_cons, cleanStep_normal (h c (by simp)), ih _ fun d hd => h d (by simp [hd])]
      simp
  rw [cleanComponents, hfold cs [] h]
  simp

/-- What the kept components are while a path that is not rooted is cleaned: names, over
leading parent components. -/
def Kept (kept : List Bytes) : Prop :=
  ∃ names ups : List Bytes, kept = names ++ ups ∧ (∀ c ∈ names, Normal c) ∧
    ∀ c ∈ ups, c = dotdot

theorem Kept.cleanStep (h : Kept kept) (hs : slash ∉ c) : Kept (cleanStep false kept c) := by
  obtain ⟨names, ups, rfl, hn, hu⟩ := h
  unfold RelPath.cleanStep
  split
  · exact ⟨names, ups, rfl, hn, hu⟩
  next hc =>
  split
  · cases names with
    | nil =>
      cases ups with
      | nil => exact ⟨[], [dotdot], rfl, by simp, by simp⟩
      | cons u ups =>
        obtain rfl := hu u (by simp)
        refine ⟨[], dotdot :: dotdot :: ups, by simp, by simp, ?_⟩
        intro c hc
        rcases mem_cons.1 hc with rfl | hc
        · rfl
        · exact hu c hc
    | cons n names =>
      have hne := (hn n (by simp)).ne_dotdot
      refine ⟨names, ups, ?_, fun c hc => hn c (by simp [hc]), hu⟩
      simp [hne]
  next hd =>
  rw [not_or] at hc
  refine ⟨c :: names, ups, rfl, ?_, hu⟩
  intro d hd'
  rcases mem_cons.1 hd' with rfl | hd'
  · exact ⟨hc.1, hc.2, hd, hs⟩
  · exact hn d hd'

theorem Kept.foldl (h : Kept kept) (hs : ∀ c ∈ cs, slash ∉ c) :
    Kept (cs.foldl (RelPath.cleanStep false) kept) := by
  induction cs generalizing kept with
  | nil => exact h
  | cons c cs ih => exact ih (h.cleanStep (hs c (by simp))) fun d hd => hs d (by simp [hd])

theorem components_no_slash (h : c ∈ components s) : slash ∉ c := by
  induction s generalizing c with
  | nil =>
    obtain rfl : c = [] := by simpa [components, splitOn] using h
    simp
  | cons b s ih =>
    rw [components, splitOn, splitOnP_cons_eq_if_modifyHead] at h
    split at h
    · rcases mem_cons.1 h with rfl | h
      · simp
      · exact ih h
    next hb =>
    cases hs : splitOnP (fun x => x == slash) s with
    | nil => simp [hs] at h
    | cons d ds =>
      rw [hs, modifyHead_cons] at h
      rcases mem_cons.1 h with rfl | h
      · have hd : slash ∉ d := ih (by simp [components, splitOn, hs])
        rw [mem_cons, not_or]
        exact ⟨fun he => hb (by simp [← he]), hd⟩
      · exact ih (by simp [components, splitOn, hs, h])

theorem components_joined (hn : cs ≠ []) (h : ∀ c ∈ cs, slash ∉ c) :
    components (joined cs) = cs := splitOn_intercalate slash h hn

theorem joined_cons_cons (c d : Bytes) (cs : List Bytes) :
    joined (c :: d :: cs) = c ++ [slash] ++ joined (d :: cs) := intercalate_cons_cons

@[simp] theorem joined_singleton (c : Bytes) : joined [c] = c := intercalate_singleton

theorem joined_concat (hn : cs ≠ []) (c : Bytes) :
    joined (cs ++ [c]) = joined cs ++ [slash] ++ c := by
  induction cs with
  | nil => exact absurd rfl hn
  | cons d cs ih =>
    cases cs with
    | nil => simp [joined_cons_cons]
    | cons e cs =>
      rw [cons_append, cons_append, joined_cons_cons, ← cons_append, ih (by simp), joined_cons_cons]
      simp

theorem joined_ne_nil (hn : cs ≠ []) (h : ∀ c ∈ cs, Normal c) : joined cs ≠ [] := by
  cases cs with
  | nil => exact absurd rfl hn
  | cons c cs =>
    have hc := (h c (by simp)).ne_nil
    cases cs with
    | nil => simpa using hc
    | cons d cs => simp [joined_cons_cons, hc]

theorem rooted_joined (h : ∀ c ∈ cs, Normal c) : rooted (joined cs) = false := by
  cases cs with
  | nil => rfl
  | cons c cs =>
    have hc := h c (by simp)
    obtain ⟨b, c, rfl⟩ := exists_cons_of_ne_nil hc.ne_nil
    have hb : b ≠ slash := fun he => hc.no_slash (by simp [he])
    cases cs with
    | nil => simp [rooted, hb]
    | cons d cs => simp [joined_cons_cons, rooted, hb]

theorem clean_joined (hn : cs ≠ []) (h : ∀ c ∈ cs, Normal c) : clean (joined cs) = joined cs := by
  rw [clean, rooted_joined h, components_joined hn fun c hc => (h c hc).no_slash,
    cleanComponents_normal h]
  simp [joined_ne_nil hn h]

theorem isLocal_joined (hn : cs ≠ []) (h : ∀ c ∈ cs, Normal c) : isLocal (joined cs) = true := by
  have hdots : (components (joined cs)).any (fun c => c == dot || c == dotdot) = false := by
    rw [components_joined hn fun c hc => (h c hc).no_slash, any_eq_false]
    intro c hc
    simp [(h c hc).ne_dot, (h c hc).ne_dotdot]
  have hfirst : ¬ (joined cs = dotdot ∨ (dotdot ++ [slash]).isPrefixOf (joined cs) = true) := by
    rintro (he | hp)
    · have hc := components_joined hn fun c hc => (h c hc).no_slash
      rw [he] at hc
      exact (h dotdot (hc ▸ by decide)).ne_dotdot rfl
    · obtain ⟨t, ht⟩ := isPrefixOf_iff_prefix.1 hp
      have hc := components_joined hn fun c hc => (h c hc).no_slash
      rw [← ht] at hc
      refine (h dotdot (hc ▸ ?_)).ne_dotdot rfl
      simp [components, dotdot, slash, splitOn, splitOnP_cons_eq_if_modifyHead]
  rw [not_or] at hfirst
  simp [isLocal, rooted_joined h, joined_ne_nil hn h, hdots, hfirst.1, hfirst.2]

theorem exists_joined (hl : isLocal s = true) (hc : clean s = s) (hd : s ≠ dot) :
    ∃ cs, cs ≠ [] ∧ (∀ c ∈ cs, Normal c) ∧ s = joined cs := by
  unfold isLocal at hl
  split at hl
  · cases hl
  rename_i hr
  simp only [Bool.or_eq_true, beq_iff_eq, not_or, Bool.not_eq_true] at hr
  have hl' : ¬ (s = dotdot ∨ (dotdot ++ [slash]) <+: s) := by
    simp only [hc, ite_self, Bool.not_eq_true', Bool.or_eq_false_iff, beq_eq_false_iff_ne] at hl
    rintro (h | h)
    · exact hl.1 h
    · have hdots := isPrefixOf_iff_prefix.2 h
      rw [hdots] at hl
      cases hl.2
  obtain ⟨names, ups, hk, hnames, hups⟩ := (show Kept [] from ⟨[], [], rfl, by simp, by simp⟩).foldl
      fun c hc => components_no_slash (s := s) hc
  have hbody : joined (ups.reverse ++ names.reverse) = s := by
    rw [clean, hr.1, cleanComponents, hk, reverse_append] at hc
    simp only [Bool.false_eq_true, ↓reduceIte] at hc
    split at hc
    · exact absurd hc.symm hd
    · exact hc
  have hnoups : ups.reverse = [] := by
    cases hu : ups.reverse with
    | nil => rfl
    | cons u us =>
      have hmem : u ∈ ups := by
        rw [← mem_reverse, hu]
        simp
      obtain rfl := hups u hmem
      rw [hu, cons_append] at hbody
      refine absurd ?_ hl'
      cases hrest : us ++ names.reverse with
      | nil =>
        rw [hrest, joined_singleton] at hbody
        exact .inl hbody.symm
      | cons d ds =>
        rw [hrest, joined_cons_cons] at hbody
        exact .inr ⟨joined (d :: ds), hbody⟩
  rw [hnoups, nil_append] at hbody
  refine ⟨names.reverse, ?_, fun c hc => hnames c (by simpa using hc), hbody.symm⟩
  intro hnil
  rw [hnil] at hbody
  exact hr.2 hbody.symm

theorem rdropWhile_slash (hs : slash ∉ c) :
    (p ++ [slash] ++ c).rdropWhile (fun b => b != slash) = p ++ [slash] := by
  induction c using reverseRecOn with
  | nil => rw [append_nil, rdropWhile_concat_neg _ _ _ (by simp)]
  | append_singleton c b ih =>
    rw [mem_append, not_or] at hs
    have hb : b ≠ slash := fun he => hs.2 (by simp [he])
    rw [← append_assoc, rdropWhile_concat_pos _ _ _ (by simpa using hb), ih hs.1]

theorem dir_joined (h : ∀ d ∈ cs ++ [c], Normal d) :
    dir (joined (cs ++ [c])) = if cs = [] then dot else joined cs := by
  have hc : slash ∉ c := (h c (by simp)).no_slash
  by_cases hn : cs = []
  · subst hn
    have hall : c.rdropWhile (fun b => b != slash) = [] := by
      rw [rdropWhile_eq_nil_iff]
      intro b hb
      simpa using fun he : b = slash => hc (he ▸ hb)
    rw [nil_append, joined_singleton, dir, hall]
    decide
  have hcs : ∀ d ∈ cs, Normal d := fun d hd => h d (by simp [hd])
  rw [if_neg hn, joined_concat hn, dir, rdropWhile_slash hc]
  have hj : joined cs ++ [slash] = joined (cs ++ [[]]) := by
    rw [joined_concat hn, append_nil]
  have hslash : ∀ d ∈ cs ++ [[]], slash ∉ d := by
    intro d hd
    rcases mem_append.1 hd with hd | hd
    · exact (hcs d hd).no_slash
    · simp [mem_singleton.1 hd]
  have hroot : rooted (joined cs ++ [slash]) = false := by
    have hr := rooted_joined hcs
    obtain ⟨b, t, ht⟩ := exists_cons_of_ne_nil (joined_ne_nil hn hcs)
    rw [ht] at hr ⊢
    exact hr
  have hkept : cleanComponents false (cs ++ [[]]) = cs := by
    have hk := @cleanComponents_normal false cs hcs
    simp only [cleanComponents, foldl_append, foldl_cons, foldl_nil] at hk ⊢
    simpa [cleanStep] using hk
  rw [clean, hroot, hj, components_joined (by simp) hslash, hkept]
  simp [joined_ne_nil hn hcs]

end RelPath

end TorrentHub.Lib
