import Mathlib.Data.List.Induction
import Mathlib.Data.List.Perm.Basic

namespace TorrentHub.Lib

open List

variable {α : Type*} {p : α → Bool} {key : α → Nat} {best b : Option α} {a x : α} {l l' : List α}

def pickStep (p : α → Bool) (key : α → Nat) (best : Option α) (a : α) : Option α :=
  if p a && best.all (fun b => key b < key a) then some a else best

def pick (p : α → Bool) (key : α → Nat) (l : List α) : Option α := l.foldl (pickStep p key) none

/-- What the choice is after the elements of `l` have been seen. -/
structure Picked (p : α → Bool) (key : α → Nat) (l : List α) (a : α) : Prop where
  mem : a ∈ l
  holds : p a = true
  le : ∀ b ∈ l, p b = true → key b ≤ key a

theorem pick_concat (p : α → Bool) (key : α → Nat) (l : List α) (a : α) :
    pick p key (l ++ [a]) = pickStep p key (pick p key l) a := by
  simp only [pick, foldl_append, foldl_cons, foldl_nil]

theorem pick_eq_none_iff : pick p key l = none ↔ ∀ a ∈ l, p a = false := by
  induction l using reverseRecOn with
  | nil => simp [pick]
  | append_singleton l a ih =>
    rw [pick_concat, pickStep]
    cases hp : p a with
    | false =>
      simp only [Bool.false_and, Bool.false_eq_true, ↓reduceIte, ih, mem_append, mem_singleton]
      exact ⟨fun h b hb => hb.elim (h b) fun he => he ▸ hp, fun h b hb => h b (.inl hb)⟩
    | true =>
      have hne : (∃ b ∈ l ++ [a], p b ≠ false) := ⟨a, by simp, by simp [hp]⟩
      constructor
      · intro h
        split at h
        · cases h
        next hn =>
        rw [h] at hn
        simp at hn
      · intro h
        obtain ⟨b, hb, hne⟩ := hne
        exact absurd (h b hb) hne

theorem pick_picked (h : pick p key l = some a) : Picked p key l a := by
  induction l using reverseRecOn generalizing a with
  | nil => cases h
  | append_singleton l x ih =>
    rw [pick_concat, pickStep] at h
    split at h
    next hx =>
      cases h
      rw [Bool.and_eq_true] at hx
      refine ⟨by simp, hx.1, ?_⟩
      intro b hb hp
      rcases mem_append.1 hb with hb | hb
      · cases hc : pick p key l with
        | none =>
          rw [pick_eq_none_iff.1 hc b hb] at hp
          cases hp
        | some c =>
          have hle := (ih hc).le b hb hp
          rw [hc] at hx
          have hlt : key c < key x := by simpa using hx.2
          omega
      · obtain rfl := mem_singleton.1 hb
        exact Nat.le_refl _
    next hx =>
    obtain ⟨hm, hp, hle⟩ := ih h
    refine ⟨by simp [hm], hp, ?_⟩
    intro b hb hpb
    rcases mem_append.1 hb with hb | hb
    · exact hle b hb hpb
    obtain rfl := mem_singleton.1 hb
    rw [h, hpb] at hx
    simpa using hx

theorem pick_eq_some (ha : Picked p key l a)
    (hu : ∀ b ∈ l, p b = true → key b = key a → b = a) : pick p key l = some a := by
  cases h : pick p key l with
  | none =>
    have hf := pick_eq_none_iff.1 h a ha.mem
    rw [ha.holds] at hf
    cases hf
  | some b =>
    obtain ⟨hm, hp, hle⟩ := pick_picked h
    have heq := Nat.le_antisymm (ha.le b hm hp) (hle a ha.mem ha.holds)
    rw [hu b hm hp heq]

theorem Picked.perm (ha : Picked p key l a) (h : l.Perm l') : Picked p key l' a where
  mem := h.mem_iff.1 ha.mem
  holds := ha.holds
  le b hb := ha.le b (h.mem_iff.2 hb)

theorem pick_head (ha : p a = true) (hle : ∀ b ∈ l, p b = true → key b ≤ key a) :
    pick p key (a :: l) = some a := by
  have hkeep : ∀ l : List α, (∀ b ∈ l, p b = true → key b ≤ key a) →
      l.foldl (pickStep p key) (some a) = some a := by
    intro l
    induction l with
    | nil => intro _; rfl
    | cons b l ih =>
      intro h
      have hb : pickStep p key (some a) b = some a := by
        unfold pickStep
        split
        next hc =>
          simp only [Option.all_some, Bool.and_eq_true, decide_eq_true_eq] at hc
          have := h b (by simp) hc.1
          omega
        · rfl
      rw [foldl_cons, hb]
      exact ih fun c hc => h c (by simp [hc])
  have hfirst : pickStep p key none a = some a := by simp [pickStep, ha]
  rw [pick, foldl_cons, hfirst]
  exact hkeep l hle

end TorrentHub.Lib
