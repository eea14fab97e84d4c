import Mathlib.Data.List.Basic

namespace TorrentHub.Lib

variable {σ α : Type*} {step : σ → α → σ} {s : σ} {as bs : List α}

/-- The state reached from `s` when the actions are taken from the left. -/
def exec (step : σ → α → σ) (s : σ) (as : List α) : σ := as.foldl step s

@[simp] theorem exec_nil (step : σ → α → σ) (s : σ) : exec step s [] = s := rfl

@[simp] theorem exec_cons (step : σ → α → σ) (s : σ) (a : α) (as : List α) :
    exec step s (a :: as) = exec step (step s a) as := rfl

theorem exec_append (step : σ → α → σ) (s : σ) (as bs : List α) :
    exec step s (as ++ bs) = exec step (exec step s as) bs := List.foldl_append

/-- Every action of the list meets `P` in the state in which it is taken. -/
def Along (step : σ → α → σ) (P : σ → α → Prop) : σ → List α → Prop
  | _, [] => True
  | s, a :: as => P s a ∧ Along step P (step s a) as

instance Along.decidable (step : σ → α → σ) (P : σ → α → Prop) [∀ s a, Decidable (P s a)] :
    (s : σ) → (as : List α) → Decidable (Along step P s as)
  | _, [] => isTrue trivial
  | s, a :: as =>
    have : Decidable (Along step P (step s a) as) := Along.decidable step P (step s a) as
    inferInstanceAs (Decidable (P s a ∧ Along step P (step s a) as))

theorem Along.of_mem (hP : ∀ a ∈ as, ∀ s, P s a) : Along step P s as := by
  induction as generalizing s with
  | nil => trivial
  | cons a as ih =>
    exact ⟨hP a List.mem_cons_self s, ih fun b hb => hP b (List.mem_cons_of_mem a hb)⟩

theorem Along.of_forall (hP : ∀ s a, P s a) : Along step P s as := of_mem fun a _ s => hP s a

theorem Along.append :
    Along step P s (as ++ bs) ↔ Along step P s as ∧ Along step P (exec step s as) bs := by
  induction as generalizing s with
  | nil => simp only [List.nil_append, Along, exec_nil, true_and]
  | cons a as ih => simp only [List.cons_append, Along, ih, exec_cons, and_assoc]

/-- What one action preserves, a whole run preserves; `P` is what the actions of the run are known
to meet. -/
theorem exec_invariant {I : σ → Prop} {P : σ → α → Prop}
    (hstep : ∀ s a, I s → P s a → I (step s a)) (h : I s) (hP : Along step P s as) :
    I (exec step s as) := by
  induction as generalizing s with
  | nil => exact h
  | cons a as ih => exact ih (hstep _ _ h hP.1) hP.2

theorem exec_invariant_forall {I : σ → Prop} (hstep : ∀ s a, I s → I (step s a)) (h : I s)
    (as : List α) : I (exec step s as) :=
  exec_invariant (P := fun _ _ => True) (fun s a hs _ => hstep s a hs) h
    (Along.of_forall fun _ _ => trivial)

section Progress

variable {I G : σ → Prop} {E : σ → α → Prop} (m : σ → Nat)
  (hstep : ∀ s a, I s → ¬G s → I (step s a) ∧ (G (step s a) ∨ m (step s a) < m s ∨
    ¬E s a ∧ m (step s a) ≤ m s ∧ ∀ b, E s b → E (step s a) b))
include hstep

theorem exec_reaches_or_le (as : List α) (hI : I s) (hG : ¬G s) :
    (∃ bs cs, as = bs ++ cs ∧ G (exec step s bs)) ∨
      I (exec step s as) ∧ ¬G (exec step s as) ∧ m (exec step s as) ≤ m s := by
  induction as generalizing s with
  | nil => exact .inr ⟨hI, hG, Nat.le_refl _⟩
  | cons a as ih =>
    obtain ⟨hI', hcase⟩ := hstep s a hI hG
    by_cases hG' : G (step s a)
    · exact .inl ⟨[a], as, rfl, hG'⟩
    have hle : m (step s a) ≤ m s := by
      rcases hcase with h | h | h
      · exact absurd h hG'
      · exact Nat.le_of_lt h
      · exact h.2.1
    rcases ih hI' hG' with ⟨bs, cs, rfl, h⟩ | ⟨h, h', hm⟩
    · exact .inl ⟨a :: bs, cs, rfl, h⟩
    · exact .inr ⟨h, h', Nat.le_trans hm hle⟩

/-- An action the system waits for is taken in the list, or one before it was of use. -/
theorem exec_reaches_or_lt (as : List α) (hI : I s) (hG : ¬G s) (has : ∃ a ∈ as, E s a) :
    (∃ bs cs, as = bs ++ cs ∧ G (exec step s bs)) ∨
      I (exec step s as) ∧ ¬G (exec step s as) ∧ m (exec step s as) < m s := by
  induction as generalizing s with
  | nil => simp at has
  | cons a as ih =>
    obtain ⟨hI', hcase⟩ := hstep s a hI hG
    by_cases hG' : G (step s a)
    · exact .inl ⟨[a], as, rfl, hG'⟩
    rcases hcase with h | hlt | ⟨hne, hle, hkept⟩
    · exact absurd h hG'
    · rcases exec_reaches_or_le m hstep as hI' hG' with ⟨bs, cs, rfl, h⟩ | ⟨h, h', hm⟩
      · exact .inl ⟨a :: bs, cs, rfl, h⟩
      · exact .inr ⟨h, h', Nat.lt_of_le_of_lt hm hlt⟩
    · obtain ⟨b, hb, hE⟩ := has
      have hb' : b ∈ as := by
        rcases List.mem_cons.1 hb with rfl | hb
        · exact absurd hE hne
        · exact hb
      rcases ih hI' hG' ⟨b, hb', hkept b hE⟩ with ⟨bs, cs, rfl, h⟩ | ⟨h, h', hm⟩
      · exact .inl ⟨a :: bs, cs, rfl, h⟩
      · exact .inr ⟨h, h', Nat.lt_of_lt_of_le hm hle⟩

/-- A run in rounds, each with an action the system waits for, reaches its goal within as many
rounds as the measure allows, whatever else the rounds hold. -/
theorem exec_reaches {rounds : List (List α)}
    (hfair : ∀ s, ∀ as ∈ rounds, I s → ¬G s → ∃ a ∈ as, E s a)
    (hI : I s) (hm : m s < rounds.length) :
    ∃ bs cs, rounds.flatten = bs ++ cs ∧ G (exec step s bs) := by
  induction rounds generalizing s with
  | nil => simp at hm
  | cons as rounds ih =>
    by_cases hG : G s
    · exact ⟨[], _, rfl, hG⟩
    rcases exec_reaches_or_lt m hstep as hI hG (hfair s as (by simp) hI hG) with
      ⟨bs, cs, rfl, h⟩ | ⟨hI', -, hlt⟩
    · exact ⟨bs, cs ++ rounds.flatten, by simp, h⟩
    obtain ⟨bs, cs, hsplit, h⟩ := ih (fun s bs hbs => hfair s bs (by simp [hbs])) hI'
      (by simp only [List.length_cons] at hm; omega)
    exact ⟨as ++ bs, cs, by simp [hsplit], by rwa [exec_append]⟩

end Progress

end TorrentHub.Lib
