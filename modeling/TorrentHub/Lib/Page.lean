import Mathlib.Data.List.Pairwise

namespace TorrentHub.Lib

open List

variable {α : Type*} {key : α → Int} {limit : Nat} {c : Int} {l : List α} {a : α}

def beyond (key : α → Int) (c : Int) (l : List α) : List α := l.filter fun a => c < key a

/-- The next page: at most `limit` elements beyond the cursor. -/
def page (key : α → Int) (limit : Nat) (c : Int) (l : List α) : List α :=
  (beyond key c l).take limit

def advance (key : α → Int) (c : Int) (p : List α) : Int := p.foldl (fun _ a => key a) c

@[simp] theorem advance_nil (key : α → Int) (c : Int) : advance key c [] = c := rfl

@[simp] theorem advance_cons (key : α → Int) (c : Int) (a : α) (p : List α) :
    advance key c (a :: p) = advance key (key a) p := rfl

abbrev Ascending (key : α → Int) (l : List α) : Prop := l.Pairwise fun a b => key a < key b

theorem Ascending.beyond (h : Ascending key l) : Ascending key (Lib.beyond key c l) :=
  h.sublist filter_sublist

theorem mem_beyond : a ∈ beyond key c l ↔ a ∈ l ∧ c < key a := by
  simp [beyond]

theorem mem_page_beyond (h : a ∈ page key limit c l) : a ∈ l ∧ c < key a :=
  mem_beyond.1 (mem_of_mem_take h)

theorem le_advance (h : Ascending key l) (ha : a ∈ l) : key a ≤ advance key c l := by
  induction l generalizing c a with
  | nil => cases ha
  | cons b l ih =>
    obtain ⟨hb, hl⟩ := pairwise_cons.1 h
    rw [advance_cons]
    cases l with
    | nil =>
      obtain rfl := mem_singleton.1 ha
      exact Int.le_refl _
    | cons d l =>
      rcases mem_cons.1 ha with rfl | ha
      · have hlt := hb d (by simp)
        have hle : key d ≤ advance key (key a) (d :: l) := ih hl (by simp)
        omega
      · exact ih hl ha

theorem advance_lt {p q : List α} (h : Ascending key (p ++ q)) (hc : ∀ b ∈ q, c < key b)
    (ha : a ∈ q) : advance key c p < key a := by
  induction p generalizing c with
  | nil => exact hc a ha
  | cons b p ih =>
    rw [cons_append] at h
    obtain ⟨hb, hl⟩ := pairwise_cons.1 h
    exact ih hl fun d hd => hb d (by simp [hd])

section

variable (h : Ascending key l)
include h

theorem advance_lt_drop (ha : a ∈ (beyond key c l).drop limit) :
    advance key c (page key limit c l) < key a := by
  have hasc : Ascending key ((beyond key c l).take limit ++ (beyond key c l).drop limit) := by
    rw [take_append_drop]
    exact h.beyond
  apply advance_lt hasc _ ha
  intro b hb
  exact (mem_beyond.1 (mem_of_mem_drop hb)).2

theorem le_advance_page (ha : a ∈ page key limit c l) :
    key a ≤ advance key c (page key limit c l) :=
  le_advance (h.beyond.sublist (take_sublist _ _)) ha

theorem cursor_le_advance : c ≤ advance key c (page key limit c l) := by
  cases hp : page key limit c l with
  | nil => exact Int.le_refl _
  | cons b p =>
    have hb : b ∈ page key limit c l := by simp [hp]
    have hlt := (mem_page_beyond hb).2
    have hle := le_advance_page h hb
    rw [hp] at hle
    omega

theorem le_or_mem_page (ha : a ∈ l)
    (hle : key a ≤ advance key c (page key limit c l)) : key a ≤ c ∨ a ∈ page key limit c l := by
  by_cases hc : key a ≤ c
  · exact .inl hc
  right
  have hb : a ∈ beyond key c l := mem_beyond.2 ⟨ha, by omega⟩
  rw [← take_append_drop limit (beyond key c l)] at hb
  rcases mem_append.1 hb with hb | hb
  · exact hb
  · have hlt := advance_lt_drop h hb
    omega

end

theorem le_or_mem_last_page (hlen : (page key limit c l).length < limit) (ha : a ∈ l) :
    key a ≤ c ∨ a ∈ page key limit c l := by
  by_cases hc : key a ≤ c
  · exact .inl hc
  right
  have hb : a ∈ beyond key c l := mem_beyond.2 ⟨ha, by omega⟩
  rw [page, length_take] at hlen
  rw [page, take_of_length_le (by omega)]
  exact hb

theorem beyond_advance (h : Ascending key l) :
    beyond key (advance key c (page key limit c l)) l = (beyond key c l).drop limit := by
  have hagain : beyond key (advance key c (page key limit c l)) l =
      (beyond key c l).filter fun a => advance key c (page key limit c l) < key a := by
    rw [beyond, beyond, filter_filter]
    apply filter_congr
    intro b _
    have hc := @cursor_le_advance _ key limit c l h
    by_cases hb : advance key c (page key limit c l) < key b
    · have hcb : c < key b := by omega
      simp [hb, hcb]
    · simp [hb]
  have hsplit := take_append_drop limit (beyond key c l)
  have hfirst : (page key limit c l).filter
      (fun a => advance key c (page key limit c l) < key a) = [] := by
    rw [filter_eq_nil_iff]
    intro b hb
    have hle := le_advance_page h hb
    simpa using hle
  have hrest : ((beyond key c l).drop limit).filter
      (fun a => advance key c (page key limit c l) < key a) = (beyond key c l).drop limit := by
    rw [filter_eq_self]
    intro b hb
    simpa using advance_lt_drop h hb
  calc beyond key (advance key c (page key limit c l)) l
      = (page key limit c l ++ (beyond key c l).drop limit).filter
          (fun a => advance key c (page key limit c l) < key a) := by
        rw [hagain, show page key limit c l ++ (beyond key c l).drop limit = _ from hsplit]
    _ = (beyond key c l).drop limit := by
        rw [filter_append, hfirst, hrest, nil_append]

theorem advance_map (key : β → Int) (g : α → β) (c : Int) (p : List α) :
    advance key c (p.map g) = advance (fun a => key (g a)) c p := by
  simp only [advance, foldl_map]

theorem filter_length_eq_one (h : Ascending key l) (ha : a ∈ l)
    (hp : p a = true) (hk : ∀ b ∈ l, p b = true → key b = key a) : (l.filter p).length = 1 := by
  induction l with
  | nil => cases ha
  | cons b l ih =>
    obtain ⟨hb, hl⟩ := pairwise_cons.1 h
    rcases mem_cons.1 ha with rfl | ha
    · have hrest : l.filter p = [] := by
        rw [filter_eq_nil_iff]
        intro d hd hpd
        have hlt := hb d hd
        have heq := hk d (by simp [hd]) hpd
        omega
      rw [filter_cons_of_pos hp, hrest]
      rfl
    · have hnot : ¬ p b = true := by
        intro hpb
        have hlt := hb a ha
        have heq := hk b (by simp) hpb
        omega
      rw [filter_cons_of_neg hnot]
      exact ih hl ha fun d hd => hk d (by simp [hd])

end TorrentHub.Lib
