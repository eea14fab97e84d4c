import Mathlib.Data.List.Basic

namespace TorrentHub.Lib

variable {ε α β : Type} {err : ε} {x : Except ε α}

theorem ite_error_eq_ok {p : Prop} [Decidable p] {a : α} :
    (if p then .error err else x) = .ok a ↔ ¬p ∧ x = .ok a := by
  split <;> simp [*]

theorem exists_of_isOk (h : x.isOk = true) : ∃ a, x = .ok a := by
  cases x with
  | error err => cases h
  | ok a => exact ⟨a, rfl⟩

theorem toOption_eq_some : x.toOption = some a ↔ x = .ok a := by
  cases x with
  | error err => exact ⟨nofun, nofun⟩
  | ok a' => simp [Except.toOption]

theorem bind_eq_ok : (x >>= f) = .ok b ↔ ∃ a, x = .ok a ∧ f a = .ok b := by
  cases x with
  | error err =>
    constructor
    · nofun
    · rintro ⟨a, h, -⟩
      cases h
  | ok a =>
    constructor
    · intro h
      exact ⟨a, rfl, h⟩
    rintro ⟨a', h, hf⟩
    cases h
    exact hf

theorem map_eq_ok : f <$> x = .ok b ↔ ∃ a, x = .ok a ∧ f a = b := by
  cases x with
  | error err =>
    constructor
    · nofun
    · rintro ⟨a, h, -⟩
      cases h
  | ok a =>
    constructor
    · intro h
      cases h
      exact ⟨a, rfl, rfl⟩
    rintro ⟨a', h, rfl⟩
    cases h
    rfl

theorem error_bind : ((.error err : Except ε α) >>= f) = .error err := rfl

theorem throw_eq : (throw err : Except ε α) = .error err := rfl

theorem pure_eq {a b : α} : (pure a : Except ε α) = .ok b ↔ a = b := by
  constructor
  · intro h
    cases h
    rfl
  · rintro rfl
    rfl

theorem foldlM_keeps {σ : Type} {f : σ → α → Except ε σ} {P : σ → Prop}
    (hstep : ∀ s a s', P s → f s a = .ok s' → P s') {l : List α} {s t : σ} (hs : P s)
    (h : l.foldlM f s = .ok t) : P t := by
  induction l generalizing s with
  | nil =>
    cases h
    exact hs
  | cons a l ih =>
    rw [List.foldlM_cons, bind_eq_ok] at h
    obtain ⟨s', ha, h⟩ := h
    exact ih (hstep s a s' hs ha) h

theorem forM_eq_ok {f : α → Except ε Unit} {l : List α} :
    l.forM f = .ok () ↔ ∀ a ∈ l, f a = .ok () := by
  induction l with
  | nil => exact ⟨fun _ => nofun, fun _ => rfl⟩
  | cons a l ih =>
    change (f a >>= fun _ => l.forM f) = .ok () ↔ _
    rw [bind_eq_ok, List.forall_mem_cons]
    constructor
    · rintro ⟨_, ha, hl⟩
      exact ⟨ha, ih.1 hl⟩
    · rintro ⟨ha, hl⟩
      exact ⟨_, ha, ih.2 hl⟩

end TorrentHub.Lib
