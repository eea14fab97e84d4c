import Mathlib.Algebra.Order.BigOperators.Group.List
import Mathlib.Algebra.Order.Group.Int
import Mathlib.Data.Int.ConditionallyCompleteOrder
import Mathlib.Data.List.Nodup
import Mathlib.Order.ConditionallyCompleteLattice.Basic

namespace TorrentHub.Lib

open List Function

structure Entry where
  permit : Bool
  refs : Int
deriving DecidableEq

/-- An entry is made at the first reference to its key and forgotten with the last. `heap` gives the
object of each number, `fresh` is the next number, and an object that left the map still exists. -/
structure Registry (κ : Type) where
  entries : List (κ × Nat) := []
  heap : Nat → Entry := fun _ => ⟨false, 0⟩
  fresh : Nat := 0
  refs : Int := 0

inductive Standing where
  | waits
  | holds
  | gone
deriving DecidableEq

structure Use (κ : Type) where
  key : κ
  entry : Nat
  standing : Standing
deriving DecidableEq

namespace Registry

variable {κ : Type} {r : Registry κ} {us : List (Use κ)} {u v : Use κ}
  {k : κ} {e i j : Nat}

def find [DecidableEq κ] (r : Registry κ) (k : κ) : Option Nat :=
  (r.entries.find? fun p => p.1 = k).map Prod.snd

def adjust (r : Registry κ) (e : Nat) (f : Entry → Entry) : Nat → Entry :=
  Function.update r.heap e (f (r.heap e))

/-- The registry with one more reference to `k`, and the entry that the reference is to. -/
def reference [DecidableEq κ] (r : Registry κ) (k : κ) : Registry κ × Nat :=
  match r.find k with
  | some e =>
    ({ r with heap := r.adjust e fun o => { o with refs := o.refs + 1 }, refs := r.refs + 1 }, e)
  | none =>
    ({ entries := r.entries ++ [(k, r.fresh)]
       heap := r.adjust r.fresh fun _ => ⟨true, 1⟩
       fresh := r.fresh + 1
       refs := r.refs + 1 }, r.fresh)

/-- The map loses the key, whatever object it has there, once `e` has no reference. -/
def unreference [DecidableEq κ] (r : Registry κ) (k : κ) (e : Nat) : Registry κ :=
  { r with
    entries := if (r.heap e).refs - 1 = 0 then r.entries.filter fun p => p.1 ≠ k else r.entries
    heap := r.adjust e fun o => { o with refs := o.refs - 1 }
    refs := r.refs - 1 }

def take (r : Registry κ) (e : Nat) : Registry κ :=
  { r with heap := r.adjust e fun o => { o with permit := false } }

def give (r : Registry κ) (e : Nat) : Registry κ :=
  { r with heap := r.adjust e fun o => { o with permit := true } }

def total (r : Registry κ) : Int := (r.entries.map fun p => (r.heap p.2).refs).sum

def usesOf (us : List (Use κ)) (e : Nat) : Nat :=
  us.countP fun u => u.entry = e ∧ u.standing ≠ .gone

def holdersOf (us : List (Use κ)) (e : Nat) : Nat :=
  us.countP fun u => u.entry = e ∧ u.standing = .holds

/-- Every live user's entry is the one that the map has for its key, references are counted, and of
every entry's one permit it is known where it is. -/
structure Accounts (r : Registry κ) (us : List (Use κ)) : Prop where
  keys : (r.entries.map Prod.fst).Nodup
  ids : (r.entries.map Prod.snd).Nodup
  known : ∀ u ∈ us, u.standing ≠ .gone → (u.key, u.entry) ∈ r.entries
  made : ∀ p ∈ r.entries, p.2 < r.fresh
  bounded : ∀ u ∈ us, u.entry < r.fresh
  counted : ∀ e < r.fresh, (r.heap e).refs = usesOf us e
  present : ∀ p ∈ r.entries, 0 < (r.heap p.2).refs
  permits : ∀ e < r.fresh, holdersOf us e + (if (r.heap e).permit then 1 else 0) = 1
  sum : r.refs = r.total

theorem mem_of_find [DecidableEq κ] (h : r.find k = some e) : (k, e) ∈ r.entries := by
  obtain ⟨p, hp, rfl⟩ := Option.map_eq_some_iff.1 h
  have hk : p.1 = k := by simpa using find?_some hp
  subst hk
  exact mem_of_find?_eq_some hp

theorem not_mem_of_find [DecidableEq κ] (h : r.find k = none) : k ∉ r.entries.map Prod.fst := by
  intro hk
  obtain ⟨p, hp, rfl⟩ := mem_map.1 hk
  simpa using find?_eq_none.1 (Option.map_eq_none_iff.1 h) p hp

theorem sum_adjust {entries : List (κ × Nat)} (heap : Nat → Entry) {o : Entry}
    (hids : (entries.map Prod.snd).Nodup) (hmem : (k, e) ∈ entries) :
    (entries.map fun p => (Function.update heap e o p.2).refs).sum
      = (entries.map fun p => (heap p.2).refs).sum + (o.refs - (heap e).refs) := by
  induction entries with
  | nil => cases hmem
  | cons p rest ih =>
    have hnodup := nodup_cons.1 hids
    rw [map_cons, map_cons, sum_cons, sum_cons]
    rcases mem_cons.1 hmem with rfl | hrest
    · have hsame : (rest.map fun p => (update heap e o p.2).refs)
          = rest.map fun p => (heap p.2).refs := by
        refine map_congr_left fun p hp => ?_
        have hne : p.2 ≠ e := fun he => hnodup.1 (mem_map.2 ⟨p, hp, he⟩)
        rw [update_of_ne hne]
      rw [hsame, update_self]
      dsimp only
      omega
    · have hne : p.2 ≠ e := fun he => hnodup.1 (mem_map.2 ⟨_, hrest, he.symm⟩)
      rw [ih hnodup.2 hrest, update_of_ne hne]
      omega

theorem sum_adjust_of_not_mem {entries : List (κ × Nat)} (heap : Nat → Entry) {o : Entry}
    (hne : ∀ p ∈ entries, p.2 ≠ e) : (entries.map fun p => (Function.update heap e o p.2).refs).sum
      = (entries.map fun p => (heap p.2).refs).sum := by
  congr 1
  exact map_congr_left fun p hp => by rw [update_of_ne (hne p hp)]

theorem countP_set_add {α : Type} (p : α → Bool) {l : List α} {x y : α} (h : l[i]? = some x) :
    (l.set i y).countP p + (if p x then 1 else 0) = l.countP p + if p y then 1 else 0 := by
  induction l generalizing i with
  | nil => cases h
  | cons a rest ih =>
    cases i with
    | zero =>
      cases h
      simp only [set_cons_zero, countP_cons]
      omega
    | succ i =>
      have := ih (i := i) h
      simp only [set_cons_succ, countP_cons]
      omega

theorem usesOf_set (h : us[i]? = some u) (e : Nat) :
    usesOf (us.set i v) e + (if u.entry = e ∧ u.standing ≠ .gone then 1 else 0)
      = usesOf us e + if v.entry = e ∧ v.standing ≠ .gone then 1 else 0 := by
  simpa only [usesOf, decide_eq_true_eq] using
    countP_set_add (y := v) (fun u => decide (u.entry = e ∧ u.standing ≠ .gone)) h

theorem holdersOf_set (h : us[i]? = some u) (e : Nat) :
    holdersOf (us.set i v) e + (if u.entry = e ∧ u.standing = .holds then 1 else 0)
      = holdersOf us e + if v.entry = e ∧ v.standing = .holds then 1 else 0 := by
  simpa only [holdersOf, decide_eq_true_eq] using
    countP_set_add (y := v) (fun u => decide (u.entry = e ∧ u.standing = .holds)) h

theorem usesOf_append (us : List (Use κ)) (u : Use κ) (e : Nat) :
    usesOf (us ++ [u]) e = usesOf us e + if u.entry = e ∧ u.standing ≠ .gone then 1 else 0 := by
  simp only [usesOf, countP_append, countP_singleton, decide_eq_true_eq]

theorem holdersOf_append (us : List (Use κ)) (u : Use κ) (e : Nat) : holdersOf (us ++ [u]) e
      = holdersOf us e + if u.entry = e ∧ u.standing = .holds then 1 else 0 := by
  simp only [holdersOf, countP_append, countP_singleton, decide_eq_true_eq]

theorem usesOf_eq_zero (h : ∀ u ∈ us, u.entry ≠ e) : usesOf us e = 0 := by
  refine countP_eq_zero.2 fun u hu => ?_
  simpa using fun he => absurd he (h u hu)

theorem holdersOf_eq_zero (h : ∀ u ∈ us, u.entry ≠ e) : holdersOf us e = 0 := by
  refine countP_eq_zero.2 fun u hu => ?_
  simpa using fun he => absurd he (h u hu)

theorem holdersOf_pos (hu : u ∈ us) (hs : u.standing = .holds) : 0 < holdersOf us u.entry :=
  countP_pos_iff.2 ⟨u, hu, by simp [hs]⟩

theorem usesOf_pos (hu : u ∈ us) (hs : u.standing ≠ .gone) : 0 < usesOf us u.entry :=
  countP_pos_iff.2 ⟨u, hu, by simp [hs]⟩

theorem two_le_holdersOf (hi : us[i]? = some u) (hj : us[j]? = some v) (hij : i ≠ j)
    (hu : u.standing = .holds) (hv : v.standing = .holds) (he : v.entry = u.entry) :
    2 ≤ holdersOf us u.entry := by
  have hset := holdersOf_set (v := { u with standing := .gone }) hi u.entry
  have hj' : (us.set i { u with standing := .gone })[j]? = some v := by
    rw [getElem?_set_ne hij, hj]
  have hpos := holdersOf_pos (mem_of_getElem? hj') hv
  rw [he] at hpos
  simp only [hu, and_self, if_true, reduceCtorEq, and_false, if_false] at hset
  omega

namespace Accounts

theorem empty : (({} : Registry κ)).Accounts [] where
  keys := nodup_nil
  ids := nodup_nil
  known := nofun
  made := nofun
  bounded := nofun
  counted := fun e he => absurd he (Nat.not_lt_zero e)
  present := nofun
  permits := fun e he => absurd he (Nat.not_lt_zero e)
  sum := rfl

section

variable (h : r.Accounts us)
include h

theorem shares (hu : u ∈ us) (hv : v ∈ us) (hul : u.standing ≠ .gone)
    (hvl : v.standing ≠ .gone) (hk : u.key = v.key) : u.entry = v.entry := by
  have hue := h.known u hu hul
  have hve := h.known v hv hvl
  have := inj_on_of_nodup_map h.keys hue hve hk
  exact congrArg Prod.snd this

theorem permit_of_holds (hu : u ∈ us) (hs : u.standing = .holds) :
    (r.heap u.entry).permit = false := by
  have hone := h.permits u.entry (h.bounded u hu)
  have hpos := holdersOf_pos hu hs
  split at hone
  · omega
  next hfree => simpa using hfree

theorem exclusive (hi : us[i]? = some u) (hj : us[j]? = some v)
    (hu : u.standing = .holds) (hv : v.standing = .holds) (hk : u.key = v.key) : i = j := by
  by_contra hij
  have hshare := h.shares (mem_of_getElem? hi) (mem_of_getElem? hj)
    (by rw [hu]; nofun) (by rw [hv]; nofun) hk
  have htwo := two_le_holdersOf hi hj hij hu hv hshare.symm
  have hone := h.permits u.entry (h.bounded u (mem_of_getElem? hi))
  omega

theorem present_iff (he : e < r.fresh) : (∃ k, (k, e) ∈ r.entries) ↔ 0 < (r.heap e).refs := by
  constructor
  · rintro ⟨k, hk⟩
    exact h.present _ hk
  intro hpos
  rw [h.counted e he] at hpos
  obtain ⟨u, hu, hlive⟩ := countP_pos_iff.1 (Int.natCast_pos.1 hpos)
  have hlive : u.entry = e ∧ u.standing ≠ .gone := by simpa using hlive
  exact ⟨u.key, hlive.1 ▸ h.known u hu hlive.2⟩

theorem gone_of_refs (hr : r.refs = 0) (hu : u ∈ us) : u.standing = .gone := by
  by_contra hlive
  have hmem := h.known u hu hlive
  have hall : ∀ x ∈ r.entries.map fun p => (r.heap p.2).refs, 0 ≤ x := by
    intro x hx
    obtain ⟨p, hp, rfl⟩ := mem_map.1 hx
    exact Int.le_of_lt (h.present p hp)
  have hle : (r.heap u.entry).refs ≤ r.total := single_le_sum hall _ (mem_map.2 ⟨_, hmem, rfl⟩)
  have hpos := h.present _ hmem
  rw [← h.sum, hr] at hle
  exact absurd hpos (not_lt.2 hle)

end

theorem reference [DecidableEq κ] (h : r.Accounts us) (k : κ) :
    (r.reference k).1.Accounts (us ++ [⟨k, (r.reference k).2, .waits⟩]) := by
  unfold Registry.reference
  split
  next e hfind =>
    have hmem := mem_of_find hfind
    have hfresh := h.made _ hmem
    refine ⟨h.keys, h.ids, ?_, h.made, ?_, ?_, ?_, ?_, ?_⟩
    · intro u hu hlive
      rcases mem_append.1 hu with hu | hu
      · exact h.known u hu hlive
      · rw [mem_singleton.1 hu]
        exact hmem
    · intro u hu
      rcases mem_append.1 hu with hu | hu
      · exact h.bounded u hu
      · rw [mem_singleton.1 hu]
        exact hfresh
    · intro e' he'
      rw [usesOf_append]
      by_cases heq : e' = e
      · subst heq
        simp [adjust, h.counted e' he']
      · simp [adjust, update_of_ne heq, h.counted e' he', Ne.symm heq]
    · intro p hp
      by_cases heq : p.2 = e
      · have := h.present p hp
        simp only [adjust, heq, update_self] at this ⊢
        omega
      · simpa only [adjust, update_of_ne heq] using h.present p hp
    · intro e' he'
      rw [holdersOf_append]
      by_cases heq : e' = e
      · subst heq
        simpa [adjust] using h.permits e' he'
      · simpa [adjust, update_of_ne heq] using h.permits e' he'
    · have := sum_adjust (o := { r.heap e with refs := (r.heap e).refs + 1 }) r.heap h.ids hmem
      have hsum := h.sum
      simp only [total, adjust] at this hsum ⊢
      omega
  next hfind =>
  have hnew := not_mem_of_find hfind
  have hentries : ∀ p ∈ r.entries, p.2 ≠ r.fresh := fun p hp => Nat.ne_of_lt (h.made p hp)
  have huses : ∀ u ∈ us, u.entry ≠ r.fresh := fun u hu => Nat.ne_of_lt (h.bounded u hu)
  refine ⟨?_, ?_, ?_, ?_, ?_, ?_, ?_, ?_, ?_⟩
  · rw [map_append, map_singleton, nodup_append]
    refine ⟨h.keys, nodup_singleton _, ?_⟩
    intro a ha b hb hab
    rw [hab, mem_singleton.1 hb] at ha
    exact hnew ha
  · rw [map_append, map_singleton, nodup_append]
    refine ⟨h.ids, nodup_singleton _, ?_⟩
    intro a ha b hb hab
    obtain ⟨p, hp, rfl⟩ := mem_map.1 ha
    rw [mem_singleton.1 hb] at hab
    exact hentries p hp hab
  · intro u hu hlive
    rcases mem_append.1 hu with hu | hu
    · exact mem_append_left _ (h.known u hu hlive)
    · rw [mem_singleton.1 hu]
      exact mem_append_right _ (mem_singleton.2 rfl)
  · intro p hp
    rcases mem_append.1 hp with hp | hp
    · exact Nat.lt_succ_of_lt (h.made p hp)
    · rw [mem_singleton.1 hp]
      exact Nat.lt_succ_self _
  · intro u hu
    rcases mem_append.1 hu with hu | hu
    · exact Nat.lt_succ_of_lt (h.bounded u hu)
    · rw [mem_singleton.1 hu]
      exact Nat.lt_succ_self _
  · intro e he
    rw [usesOf_append]
    rcases Nat.lt_succ_iff_lt_or_eq.1 he with hlt | rfl
    · have hne := Nat.ne_of_lt hlt
      simp [adjust, update_of_ne hne, h.counted e hlt, Ne.symm hne]
    · simp [adjust, usesOf_eq_zero huses]
  · intro p hp
    rcases mem_append.1 hp with hp | hp
    · simpa only [adjust, update_of_ne (hentries p hp)] using h.present p hp
    · rw [mem_singleton.1 hp]
      simp [adjust]
  · intro e he
    rw [holdersOf_append]
    rcases Nat.lt_succ_iff_lt_or_eq.1 he with hlt | rfl
    · simpa [adjust, update_of_ne (Nat.ne_of_lt hlt)] using h.permits e hlt
    · simp [adjust, holdersOf_eq_zero huses]
  · have := sum_adjust_of_not_mem (o := ⟨true, 1⟩) r.heap hentries
    have hsum := h.sum
    simp only [total, adjust, map_append, sum_append, map_singleton,
      sum_singleton, update_self] at this hsum ⊢
    omega

theorem transfer {b : Bool} {st : Standing} (h : r.Accounts us) (hi : us[i]? = some u)
    (hlive : u.standing ≠ .gone) (hst : st ≠ .gone)
    (hone : (if u.standing = .holds then 1 else 0) + (if (r.heap u.entry).permit then 1 else 0)
      = (if st = .holds then 1 else 0) + if b then 1 else 0) :
    ({ r with heap := r.adjust u.entry fun o => { o with permit := b } } : Registry κ).Accounts
      (us.set i { u with standing := st }) := by
  have hu := mem_of_getElem? hi
  have hrefs : ∀ e, (r.adjust u.entry (fun o => { o with permit := b }) e).refs
      = (r.heap e).refs := by
    intro e
    by_cases heq : e = u.entry
    · subst heq
      simp [adjust]
    · simp [adjust, update_of_ne heq]
  refine ⟨h.keys, h.ids, ?_, h.made, ?_, ?_, ?_, ?_, ?_⟩
  · intro v hv hvl
    rcases mem_or_eq_of_mem_set hv with hv | rfl
    · exact h.known v hv hvl
    · exact h.known u hu hlive
  · intro v hv
    rcases mem_or_eq_of_mem_set hv with hv | rfl
    · exact h.bounded v hv
    · exact h.bounded u hu
  · intro e he
    have hset := usesOf_set (v := { u with standing := st }) hi e
    simp only [hlive, hst, ne_eq, not_false_eq_true, and_true] at hset
    rw [hrefs, h.counted e he]
    omega
  · intro p hp
    rw [hrefs]
    exact h.present p hp
  · intro e he
    have hset := holdersOf_set (v := { u with standing := st }) hi e
    have hold := h.permits e he
    by_cases heq : e = u.entry
    · subst heq
      simp only [true_and] at hset
      simp only [adjust, update_self]
      omega
    · simp only [Ne.symm heq, false_and, if_false, Nat.add_zero] at hset
      simpa only [adjust, update_of_ne heq, hset] using hold
  · have hsum := h.sum
    simp only [total, hrefs] at hsum ⊢
    exact hsum

theorem take (h : r.Accounts us) (hi : us[i]? = some u) (hs : u.standing = .waits)
    (hp : (r.heap u.entry).permit = true) :
    (r.take u.entry).Accounts (us.set i { u with standing := .holds }) :=
  h.transfer hi (by rw [hs]; nofun) nofun (by simp [hs, hp])

theorem give (h : r.Accounts us) (hi : us[i]? = some u) (hs : u.standing = .holds) :
    (r.give u.entry).Accounts (us.set i { u with standing := .waits }) :=
  h.transfer hi (by rw [hs]; nofun) nofun (by simp [hs, h.permit_of_holds (mem_of_getElem? hi) hs])

theorem unreference [DecidableEq κ] (h : r.Accounts us) (hi : us[i]? = some u)
    (hs : u.standing = .waits) :
    (r.unreference u.key u.entry).Accounts (us.set i { u with standing := .gone }) := by
  have hu := mem_of_getElem? hi
  have hmem := h.known u hu (by rw [hs]; nofun)
  have hfresh := h.bounded u hu
  have huses : ∀ e, usesOf (us.set i { u with standing := .gone }) e
      + (if u.entry = e then 1 else 0) = usesOf us e := by
    intro e
    simpa [hs] using usesOf_set (v := { u with standing := .gone }) hi e
  have hcount : ∀ e < r.fresh, (r.adjust u.entry (fun o => { o with refs := o.refs - 1 }) e).refs
      = usesOf (us.set i { u with standing := .gone }) e := by
    intro e he
    have hold := h.counted e he
    have hone := huses e
    by_cases heq : u.entry = e
    · rw [if_pos heq] at hone
      subst heq
      simp only [adjust, Function.update_self]
      omega
    · rw [if_neg heq] at hone
      simp only [adjust, Function.update_of_ne (Ne.symm heq)]
      omega
  have hlose : ∀ p ∈ r.entries, p.1 = u.key → p = (u.key, u.entry) :=
    fun p hp hk => inj_on_of_nodup_map h.keys hp hmem hk
  have hsub : ∀ p ∈ (r.unreference u.key u.entry).entries, p ∈ r.entries := by
    intro p hp
    unfold Registry.unreference at hp
    dsimp only at hp
    split at hp
    · exact mem_of_mem_filter hp
    · exact hp
  refine ⟨?_, ?_, ?_, fun p hp => h.made p (hsub p hp), ?_, hcount, ?_, ?_, ?_⟩
  · unfold Registry.unreference
    dsimp only
    split
    · exact (filter_sublist.map _).nodup h.keys
    · exact h.keys
  · unfold Registry.unreference
    dsimp only
    split
    · exact (filter_sublist.map _).nodup h.ids
    · exact h.ids
  · intro v hv hvl
    rcases mem_or_eq_of_mem_set hv with hv' | rfl
    · have hve := h.known v hv' hvl
      unfold Registry.unreference
      dsimp only
      split
      next hzero =>
        refine mem_filter.2 ⟨hve, ?_⟩
        have hne : v.key ≠ u.key := by
          intro hk
          have hpos := usesOf_pos hv hvl
          have hent : v.entry = u.entry := congrArg Prod.snd (hlose _ hve hk)
          have hc := hcount v.entry (h.bounded v hv')
          rw [hent] at hc hpos
          simp only [adjust, Function.update_self] at hc
          omega
        simpa using hne
      · exact hve
    · exact absurd rfl hvl
  · intro v hv
    rcases mem_or_eq_of_mem_set hv with hv | rfl
    · exact h.bounded v hv
    · exact hfresh
  · intro p hp
    have hmemp := hsub p hp
    have hpos := h.present p hmemp
    by_cases heq : p.2 = u.entry
    · have hp' : p = (u.key, u.entry) := inj_on_of_nodup_map h.ids hmemp hmem heq
      subst hp'
      simp only [Registry.unreference] at hp
      split at hp
      · simp at hp
      next hnz =>
      simp only [Registry.unreference, adjust, Function.update_self] at hpos ⊢
      omega
    · simpa only [Registry.unreference, adjust, Function.update_of_ne heq] using hpos
  · intro e he
    have hset := holdersOf_set (v := { u with standing := .gone }) hi e
    have hold := h.permits e he
    simp only [hs, reduceCtorEq, and_false, if_false, Nat.add_zero] at hset
    rw [hset]
    by_cases heq : e = u.entry
    · subst heq
      simpa [Registry.unreference, adjust] using hold
    · simpa [Registry.unreference, adjust, Function.update_of_ne heq] using hold
  · have hadj := sum_adjust (o := { r.heap u.entry with refs := (r.heap u.entry).refs - 1 })
      r.heap h.ids hmem
    have hsum := h.sum
    simp only [total] at hsum
    simp only [total, Registry.unreference, adjust]
    split
    next hzero =>
      have hperm : r.entries.Perm ((u.key, u.entry) :: r.entries.filter fun p => p.1 ≠ u.key) := by
        refine (perm_ext_iff_of_nodup (List.Nodup.of_map _ h.keys) ?_).2 ?_
        · exact nodup_cons.2 ⟨by simp, (List.Nodup.of_map _ h.keys).filter _⟩
        intro p
        by_cases hk : p.1 = u.key
        · constructor
          · intro hp
            rw [hlose p hp hk]
            exact mem_cons_self
          · intro hp
            rcases mem_cons.1 hp with rfl | hp
            · exact hmem
            · exact mem_of_mem_filter hp
        · constructor
          · intro hp
            exact mem_cons_of_mem _ (mem_filter.2 ⟨hp, by simpa using hk⟩)
          · intro hp
            rcases mem_cons.1 hp with rfl | hp
            · exact hmem
            · exact mem_of_mem_filter hp
      have hsplit := (hperm.map fun p => (Function.update r.heap u.entry
        { r.heap u.entry with refs := (r.heap u.entry).refs - 1 } p.2).refs).sum_eq
      rw [map_cons, sum_cons, Function.update_self] at hsplit
      dsimp only at hsplit hadj ⊢
      omega
    dsimp only at hadj
    omega

end Accounts

end Registry

end TorrentHub.Lib
