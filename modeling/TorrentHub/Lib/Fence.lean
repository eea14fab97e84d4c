import TorrentHub.Lib.Run

namespace TorrentHub.Lib

structure Fence (σ κ : Type*) where
  epoch : σ → Int
  content : σ → κ

namespace Fence

variable {σ κ α : Type*} {F : Fence σ κ} {s s' s'' : σ} {step : σ → α → σ}

structure Advances (F : Fence σ κ) (s s' : σ) : Prop where
  le : F.epoch s ≤ F.epoch s'
  lt : F.content s' ≠ F.content s → F.epoch s < F.epoch s'

theorem Advances.refl (s : σ) : F.Advances s s := ⟨Int.le_refl _, fun h => absurd rfl h⟩

theorem Advances.of_lt (h : F.epoch s < F.epoch s') : F.Advances s s' :=
  ⟨Int.le_of_lt h, fun _ => h⟩

theorem Advances.of_eq (he : F.epoch s' = F.epoch s) (hc : F.content s' = F.content s) :
    F.Advances s s' :=
  ⟨Int.le_of_eq he.symm, fun h => absurd hc h⟩

theorem Advances.trans (h : F.Advances s s') (h' : F.Advances s' s'') : F.Advances s s'' where
  le := Int.le_trans h.le h'.le
  lt hc := by
    by_cases heq : F.content s' = F.content s
    · exact Int.lt_of_le_of_lt h.le (h'.lt (heq ▸ hc))
    · exact Int.lt_of_lt_of_le (h.lt heq) h'.le

theorem Advances.pinned (h : F.Advances s s') (h' : F.Advances s' s'')
    (he : F.epoch s'' = F.epoch s) : F.content s' = F.content s := by
  by_contra hc
  have hlt := Int.lt_of_lt_of_le (h.lt hc) h'.le
  exact absurd he (Int.ne_of_gt hlt)

theorem exec_le (hstep : ∀ s a, F.Advances s (step s a)) (s : σ) (as : List α) :
    F.epoch s ≤ F.epoch (exec step s as) := by
  induction as generalizing s with
  | nil => exact Int.le_refl _
  | cons a as ih => exact Int.le_trans (hstep s a).le (ih (step s a))

theorem stale_of_change (hstep : ∀ s a, F.Advances s (step s a)) (s : σ) (before after : List α)
    (a : α) (hchange : F.content (step (exec step s before) a) ≠ F.content (exec step s before)) :
    F.epoch s < F.epoch (exec step (step (exec step s before) a) after) := by
  have hbefore := exec_le hstep s before
  have hat := (hstep (exec step s before) a).lt hchange
  have hafter := exec_le hstep (step (exec step s before) a) after
  exact Int.lt_of_le_of_lt hbefore (Int.lt_of_lt_of_le hat hafter)

end Fence

end TorrentHub.Lib
