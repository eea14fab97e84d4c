import Mathlib.Logic.Basic

namespace TorrentHub.Lib

structure Gate (σ : Type*) where
  isOpen : σ → Prop
  allowed : σ → Prop

namespace Gate

variable {σ : Type*} {g : Gate σ} {r s t : σ}

def Guarded (g : Gate σ) (s : σ) : Prop := g.isOpen s → g.allowed s

/-- The step may close the gate but not open it, and it withdraws the authority only of a gate that
it leaves closed. -/
def Shut (g : Gate σ) (r s : σ) : Prop := g.isOpen s → g.isOpen r ∧ (g.allowed r → g.allowed s)

/-- The step from `r` to `s` may also open the gate, with authority in hand. -/
def Keeps (g : Gate σ) (r s : σ) : Prop :=
  g.isOpen s → g.allowed s ∨ g.isOpen r ∧ (g.allowed r → g.allowed s)

theorem Guarded.of_closed (h : ¬ g.isOpen s) : g.Guarded s := fun ho => absurd ho h

theorem Shut.refl (g : Gate σ) (s : σ) : g.Shut s s := fun ho => ⟨ho, id⟩

theorem Shut.of_closed (h : ¬ g.isOpen s) : g.Shut r s := fun ho => absurd ho h

theorem Shut.trans (hrs : g.Shut r s) (hst : g.Shut s t) : g.Shut r t := by
  intro ho
  obtain ⟨hs, ha⟩ := hst ho
  obtain ⟨hr, hb⟩ := hrs hs
  exact ⟨hr, fun h => ha (hb h)⟩

theorem Shut.keeps (h : g.Shut r s) : g.Keeps r s := fun ho => .inr (h ho)

theorem Keeps.refl (g : Gate σ) (s : σ) : g.Keeps s s := (Shut.refl g s).keeps

theorem Keeps.of_closed (h : ¬ g.isOpen s) : g.Keeps r s := fun ho => absurd ho h

theorem Keeps.of_allowed (h : g.allowed s) : g.Keeps r s := fun _ => .inl h

theorem Keeps.trans (hrs : g.Keeps r s) (hst : g.Keeps s t) : g.Keeps r t := by
  intro ho
  rcases hst ho with ha | ⟨hs, ha⟩
  · exact .inl ha
  rcases hrs hs with hb | ⟨hr, hb⟩
  · exact .inl (ha hb)
  · exact .inr ⟨hr, fun h => ha (hb h)⟩

theorem Keeps.guarded (h : g.Keeps r s) (hr : g.Guarded r) : g.Guarded s := by
  intro ho
  rcases h ho with ha | ⟨hor, ha⟩
  · exact ha
  · exact ha (hr hor)

end Gate

end TorrentHub.Lib
