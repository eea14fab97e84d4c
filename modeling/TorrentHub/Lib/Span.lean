import Mathlib.Order.Lattice

namespace TorrentHub.Lib

open List

structure Span (α : Type) where
  first : α
  stop : α
deriving DecidableEq

namespace Span

variable {α : Type} [LinearOrder α] {r last : Span α} {rs : List (Span α)} {p : α}

def Has (r : Span α) (p : α) : Prop := r.first ≤ p ∧ p < r.stop

instance (r : Span α) (p : α) : Decidable (r.Has p) := inferInstanceAs (Decidable (_ ∧ _))

def Covers (rs : List (Span α)) (p : α) : Prop := ∃ r ∈ rs, r.Has p

instance (rs : List (Span α)) (p : α) : Decidable (Covers rs p) :=
  inferInstanceAs (Decidable (∃ r ∈ rs, r.Has p))

@[simp] theorem covers_nil : ¬ Covers [] p := by
  rintro ⟨r, hr, -⟩
  cases hr

@[simp] theorem covers_cons : Covers (r :: rs) p ↔ r.Has p ∨ Covers rs p := by
  simp [Covers]

@[simp] theorem covers_append : Covers (rs ++ ts) p ↔ Covers rs p ∨ Covers ts p := by
  simp only [Covers, mem_append, or_and_right, exists_or]

theorem covers_flatMap {β : Type} {l : List β} {f : β → List (Span α)} :
    Covers (l.flatMap f) p ↔ ∃ x ∈ l, Covers (f x) p := by
  simp only [Covers, mem_flatMap]
  constructor
  · rintro ⟨r, ⟨x, hx, hr⟩, hp⟩
    exact ⟨x, hx, r, hr, hp⟩
  · rintro ⟨x, hx, r, hr, hp⟩
    exact ⟨r, ⟨x, hx, hr⟩, hp⟩

def before (r t : Span α) : Bool :=
  decide (r.first < t.first ∨ r.first = t.first ∧ r.stop ≤ t.stop)

theorem before_trans (r t u : Span α) (h : before r t = true) (h' : before t u = true) :
    before r u = true := by
  simp only [before, decide_eq_true_eq] at *
  rcases h with h | ⟨h, hs⟩ <;> rcases h' with h' | ⟨h', hs'⟩
  · exact .inl (h.trans h')
  · exact .inl (h' ▸ h)
  · exact .inl (h ▸ h')
  · exact .inr ⟨h.trans h', hs.trans hs'⟩

theorem before_total (r t : Span α) : (before r t || before t r) = true := by
  simp only [before, Bool.or_eq_true, decide_eq_true_eq]
  rcases lt_trichotomy r.first t.first with h | h | h
  · exact .inl (.inl h)
  · rcases le_total r.stop t.stop with hs | hs
    · exact .inl (.inr ⟨h, hs⟩)
    · exact .inr (.inr ⟨h.symm, hs⟩)
  · exact .inr (.inl h)

theorem first_le_of_before {r t : Span α} (h : before r t = true) : r.first ≤ t.first := by
  simp only [before, decide_eq_true_eq] at h
  rcases h with h | ⟨h, -⟩
  · exact h.le
  · exact h.le

def join (last : Span α) : List (Span α) → List (Span α)
  | [] => [last]
  | r :: rest =>
    if r.first ≤ last.stop then
      join { last with stop := if last.stop < r.stop then r.stop else last.stop } rest
    else last :: join r rest

theorem has_extend (hfirst : last.first ≤ r.first) (hstop : r.first ≤ last.stop) :
    ({ last with stop := if last.stop < r.stop then r.stop else last.stop } : Span α).Has p
      ↔ last.Has p ∨ r.Has p := by
  unfold Has
  split
  next hlt =>
    constructor
    · rintro ⟨hp, hps⟩
      rcases lt_or_ge p last.stop with hlast | hlast
      · exact .inl ⟨hp, hlast⟩
      · exact .inr ⟨hstop.trans hlast, hps⟩
    · rintro (⟨hp, hps⟩ | ⟨hp, hps⟩)
      · exact ⟨hp, hps.trans hlt⟩
      · exact ⟨hfirst.trans hp, hps⟩
  next hge =>
  constructor
  · exact .inl
  rintro (h | ⟨hp, hps⟩)
  · exact h
  · exact ⟨hfirst.trans hp, hps.trans_le (not_lt.1 hge)⟩

theorem covers_join (last : Span α) (rs : List (Span α))
    (h : (last :: rs).Pairwise fun r t => r.first ≤ t.first) :
    Covers (join last rs) p ↔ last.Has p ∨ Covers rs p := by
  induction rs generalizing last with
  | nil => simp [join]
  | cons r rest ih =>
    obtain ⟨hlast, hrest⟩ := pairwise_cons.1 h
    unfold join
    split
    next hstop =>
      rw [ih, has_extend (hlast r mem_cons_self) hstop, covers_cons, or_assoc]
      refine pairwise_cons.2 ⟨?_, (pairwise_cons.1 hrest).2⟩
      intro t ht
      exact hlast t (mem_cons_of_mem _ ht)
    · rw [covers_cons, ih r hrest, covers_cons]

def merge (rs : List (Span α)) : List (Span α) :=
  match (rs.filter fun r => decide (r.first < r.stop)).mergeSort before with
  | [] => []
  | r :: rest => join r rest

theorem covers_merge (rs : List (Span α)) (p : α) : Covers (merge rs) p ↔ Covers rs p := by
  have hsorted := pairwise_mergeSort before_trans before_total
    (rs.filter fun r => decide (r.first < r.stop))
  have hmem : Covers ((rs.filter fun r => decide (r.first < r.stop)).mergeSort before) p
      ↔ Covers rs p := by
    constructor
    · rintro ⟨r, hr, hp⟩
      exact ⟨r, (mem_filter.1 (mem_mergeSort.1 hr)).1, hp⟩
    rintro ⟨r, hr, hp⟩
    refine ⟨r, mem_mergeSort.2 (mem_filter.2 ⟨hr, ?_⟩), hp⟩
    simpa using hp.1.trans_lt hp.2
  rw [← hmem]
  unfold merge
  split
  next hnil => rw [hnil]
  next r rest hcons =>
  rw [hcons] at hsorted ⊢
  rw [covers_join r rest (hsorted.imp first_le_of_before), covers_cons]

structure Normal (rs : List (Span α)) : Prop where
  nonempty : ∀ r ∈ rs, r.first < r.stop
  apart : rs.Pairwise fun r t => r.stop < t.first

theorem normal_join (last : Span α) (rs : List (Span α))
    (h : (last :: rs).Pairwise fun r t => r.first ≤ t.first)
    (hne : ∀ r ∈ last :: rs, r.first < r.stop) :
    Normal (join last rs) ∧ ∀ r ∈ join last rs, last.first ≤ r.first := by
  induction rs generalizing last with
  | nil =>
    refine ⟨⟨hne, pairwise_singleton _ _⟩, ?_⟩
    intro r hr
    rw [mem_singleton.1 hr]
  | cons r rest ih =>
    obtain ⟨hlast, hrest⟩ := pairwise_cons.1 h
    obtain ⟨hn, hne⟩ := forall_mem_cons.1 hne
    unfold join
    split
    · refine ih { last with stop := if last.stop < r.stop then r.stop else last.stop } ?_ ?_
      · refine pairwise_cons.2 ⟨?_, (pairwise_cons.1 hrest).2⟩
        intro t ht
        exact hlast t (mem_cons_of_mem _ ht)
      · refine forall_mem_cons.2 ⟨?_, (forall_mem_cons.1 hne).2⟩
        change last.first < if last.stop < r.stop then r.stop else last.stop
        split
        · exact hn.trans ‹_›
        · exact hn
    next hgap =>
    obtain ⟨hnormal, hfirst⟩ := ih r hrest hne
    refine ⟨⟨forall_mem_cons.2 ⟨hn, hnormal.nonempty⟩,
      pairwise_cons.2 ⟨?_, hnormal.apart⟩⟩, forall_mem_cons.2 ⟨le_rfl, ?_⟩⟩
    · intro t ht
      exact (not_le.1 hgap).trans_le (hfirst t ht)
    · intro t ht
      exact (hlast r mem_cons_self).trans (hfirst t ht)

theorem normal_merge (rs : List (Span α)) : Normal (merge rs) := by
  have hsorted := pairwise_mergeSort before_trans before_total
    (rs.filter fun r => decide (r.first < r.stop))
  have hne : ∀ r ∈ (rs.filter fun r => decide (r.first < r.stop)).mergeSort before,
      r.first < r.stop := by
    intro r hr
    simpa using (mem_filter.1 (mem_mergeSort.1 hr)).2
  unfold merge
  split
  · exact ⟨by simp, List.Pairwise.nil⟩
  next r rest hcons =>
  rw [hcons] at hsorted hne
  exact (normal_join r rest (hsorted.imp first_le_of_before) hne).1

namespace Normal

section

variable (h : Normal (r :: rs))
include h

theorem tail : Normal rs :=
  ⟨(forall_mem_cons.1 h.nonempty).2, (pairwise_cons.1 h.apart).2⟩

theorem stop_lt (hp : Covers rs p) : r.stop < p := by
  obtain ⟨t, ht, hp⟩ := hp
  exact ((pairwise_cons.1 h.apart).1 t ht).trans_le hp.1

theorem covers_tail : Covers rs p ↔ Covers (r :: rs) p ∧ r.stop < p := by
  rw [covers_cons]
  constructor
  · intro hp
    exact ⟨.inr hp, h.stop_lt hp⟩
  rintro ⟨hr | hp, hlt⟩
  · exact absurd hr.2 hlt.not_gt
  · exact hp

theorem first_le (hp : Covers (r :: rs) p) : r.first ≤ p := by
  rcases covers_cons.1 hp with hp | hp
  · exact hp.1
  · exact ((h.nonempty r mem_cons_self).trans (h.stop_lt hp)).le

theorem covers_first : Covers (r :: rs) r.first :=
  covers_cons.2 (.inl ⟨le_rfl, h.nonempty r mem_cons_self⟩)

theorem not_covers_stop : ¬ Covers (r :: rs) r.stop := by
  rw [covers_cons]
  rintro (hp | hp)
  · exact hp.2.false
  · exact (h.stop_lt hp).false

end

theorem stop_le {t : Span α} {ts : List (Span α)} (h : Normal (r :: rs))
    (hfirst : t.first = r.first)
    (hp : ∀ p, Covers (t :: ts) p → Covers (r :: rs) p) : t.stop ≤ r.stop := by
  by_contra hlt
  refine h.not_covers_stop (hp _ (covers_cons.2 (.inl ⟨?_, not_le.1 hlt⟩)))
  rw [hfirst]
  exact (h.nonempty r mem_cons_self).le

theorem eq_of_covers (h : Normal rs) (h' : Normal ts)
    (hp : ∀ p, Covers rs p ↔ Covers ts p) : rs = ts := by
  induction rs generalizing ts with
  | nil =>
    cases ts with
    | nil => rfl
    | cons t ts => exact absurd ((hp _).2 h'.covers_first) covers_nil
  | cons r rs ih =>
    cases ts with
    | nil => exact absurd ((hp _).1 h.covers_first) covers_nil
    | cons t ts =>
      have hfirst : r.first = t.first :=
        le_antisymm (h.first_le ((hp _).2 h'.covers_first)) (h'.first_le ((hp _).1 h.covers_first))
      have hstop : r.stop = t.stop := le_antisymm (h'.stop_le hfirst fun p => (hp p).1)
        (h.stop_le hfirst.symm fun p => (hp p).2)
      have htail : rs = ts := by
        refine ih h.tail h'.tail fun p => ?_
        rw [h.covers_tail, h'.covers_tail, hp p, hstop]
      obtain ⟨first, stop⟩ := r
      obtain ⟨first', stop'⟩ := t
      subst hfirst hstop htail
      rfl

end Normal

theorem merge_idem (rs : List (Span α)) : merge (merge rs) = merge rs :=
  (normal_merge _).eq_of_covers (normal_merge rs) fun p => covers_merge (merge rs) p

theorem merge_congr (h : ∀ r, r ∈ rs ↔ r ∈ ts) : merge rs = merge ts := by
  refine (normal_merge rs).eq_of_covers (normal_merge ts) fun p => ?_
  rw [covers_merge, covers_merge]
  simp only [Covers, h]

end Span

end TorrentHub.Lib
