import Mathlib.Data.List.Basic

namespace TorrentHub.Lib

variable {ω π : Type} {conflict : π → π → Prop} {held held' : List (ω × π)} {o : ω}

def Exclusive (conflict : π → π → Prop) (held : List (ω × π)) : Prop :=
  ∀ a ∈ held, ∀ b ∈ held, a.1 ≠ b.1 → ¬ conflict a.2 b.2

def Free (conflict : π → π → Prop) (held : List (ω × π)) (o : ω) (p : π) : Prop :=
  ∀ b ∈ held, b.1 ≠ o → ¬ conflict p b.2

theorem Exclusive.take (h : Exclusive conflict held) (hsymm : ∀ p q, conflict p q → conflict q p)
    (hnew : ∀ a ∈ held', a ∈ held ∨ a.1 = o ∧ Free conflict held o a.2) :
    Exclusive conflict held' := by
  intro a ha b hb hne hconflict
  rcases hnew a ha with ha | ⟨ha, hfree⟩
  · rcases hnew b hb with hb | ⟨hb, hfree⟩
    · exact h a ha b hb hne hconflict
    · exact hfree a ha (fun heq => hne (heq.trans hb.symm)) (hsymm _ _ hconflict)
  rcases hnew b hb with hb | ⟨hb, -⟩
  · exact hfree b hb (fun heq => hne (ha.trans heq.symm)) hconflict
  · exact hne (ha.trans hb.symm)

theorem Exclusive.mono (h : Exclusive conflict held) (hsub : ∀ a ∈ held', a ∈ held) :
    Exclusive conflict held' :=
  fun a ha b hb => h a (hsub a ha) b (hsub b hb)

end TorrentHub.Lib
