import Mathlib.Data.List.Basic

namespace TorrentHub.Lib

open List Option

section Search

variable {p : Nat → Bool} {n : Nat}

/-- The loop of a binary search in `[i, j)` for the first index that passes. -/
def searchLoop (p : Nat → Bool) : Nat → Nat → Nat → Nat
  | 0, i, _ => i
  | fuel + 1, i, j =>
    if i < j then
      if p ((i + j) / 2) then searchLoop p fuel i ((i + j) / 2)
      else searchLoop p fuel ((i + j) / 2 + 1) j
    else i

/-- The first index below `n` that passes, or `n`. -/
def search (n : Nat) (p : Nat → Bool) : Nat := searchLoop p n 0 n

section

variable (hmono : ∀ a b, a ≤ b → b < n → p a = true → p b = true)
include hmono

theorem searchLoop_spec : ∀ fuel i j, j ≤ i + fuel → i ≤ j → j ≤ n → (∀ k, k < i → p k = false) →
      (∀ k, j ≤ k → k < n → p k = true) → (∀ k, k < searchLoop p fuel i j → p k = false) ∧
        ∀ k, searchLoop p fuel i j ≤ k → k < n → p k = true := by
  intro fuel
  induction fuel with
  | zero =>
    intro i j hfuel hij _ hbelow habove
    refine ⟨hbelow, ?_⟩
    intro k hk hkn
    have hk : i ≤ k := hk
    exact habove k (by omega) hkn
  | succ fuel ih =>
    intro i j hfuel hij hjn hbelow habove
    unfold searchLoop
    split
    next hlt =>
      split
      next hp =>
        refine ih i ((i + j) / 2) (by omega) (by omega) (by omega) hbelow ?_
        intro k hk hkn
        exact hmono _ k hk hkn hp
      next hp =>
      refine ih ((i + j) / 2 + 1) j (by omega) (by omega) hjn ?_ habove
      intro k hk
      by_contra hpk
      exact hp (hmono k _ (by omega) (by omega) (by simpa using hpk))
    · refine ⟨hbelow, ?_⟩
      intro k hk hkn
      exact habove k (by omega) hkn

theorem search_spec :
    (∀ k, k < search n p → p k = false) ∧ ∀ k, search n p ≤ k → k < n → p k = true := by
  refine searchLoop_spec hmono n 0 n (by omega) (by omega) (Nat.le_refl n) ?_ ?_
  · intro k hk
    omega
  · intro k hk hkn
    omega

end

theorem getElem?_search {α : Type} {l : List α} {p : α → Bool}
    (h : l.Pairwise fun a b => p a = true → p b = true) :
    l[search l.length fun i => l[i]?.any p]? = l.find? p := by
  obtain ⟨hbelow, habove⟩ := search_spec (n := l.length) (p := fun i => l[i]?.any p) (by
    intro a b hab hb hpa
    rcases Nat.eq_or_lt_of_le hab with rfl | hab
    · exact hpa
    have hmono := pairwise_iff_getElem.1 h a b (by omega) hb hab
    rw [getElem?_eq_getElem (by omega), any_some] at hpa
    rw [getElem?_eq_getElem hb, any_some]
    exact hmono hpa)
  generalize search l.length (fun i => l[i]?.any p) = i at *
  cases hi : l[i]? with
  | none =>
    refine (find?_eq_none.2 ?_).symm
    intro x hx
    obtain ⟨k, hk, rfl⟩ := getElem_of_mem hx
    have hlt := hbelow k (Nat.lt_of_lt_of_le hk (getElem?_eq_none_iff.1 hi))
    rw [getElem?_eq_getElem hk, any_some] at hlt
    simp [hlt]
  | some x =>
    obtain ⟨hlen, rfl⟩ := List.getElem?_eq_some_iff.1 hi
    have hpi := habove i (Nat.le_refl i) hlen
    rw [hi, any_some] at hpi
    refine (find?_eq_some_iff_getElem.2 ⟨hpi, i, hlen, rfl, ?_⟩).symm
    intro j hj
    have hlt := hbelow j hj
    rw [getElem?_eq_getElem (by omega), any_some] at hlt
    simp [hlt]

end Search

def bytesLe : List UInt8 → List UInt8 → Bool
  | [], _ => true
  | _ :: _, [] => false
  | a :: as, b :: bs => if a = b then bytesLe as bs else decide (a.toNat < b.toNat)

theorem bytesLe_total (a b : List UInt8) : (bytesLe a b || bytesLe b a) = true := by
  induction a generalizing b with
  | nil => rfl
  | cons x a ih =>
    cases b with
    | nil => simp [bytesLe]
    | cons y b =>
      unfold bytesLe
      by_cases h : x = y
      · rw [if_pos h, if_pos h.symm]
        exact ih b
      have hne : x.toNat ≠ y.toNat := fun heq => h (UInt8.toNat_inj.1 heq)
      rw [if_neg h, if_neg fun heq => h heq.symm]
      simp only [Bool.or_eq_true, decide_eq_true_eq]
      omega

theorem bytesLe_trans (a b c : List UInt8) (hab : bytesLe a b = true) (hbc : bytesLe b c = true) :
    bytesLe a c = true := by
  induction a generalizing b c with
  | nil => rfl
  | cons x a ih =>
    cases b with
    | nil => cases hab
    | cons y b =>
      cases c with
      | nil => cases hbc
      | cons z c =>
        unfold bytesLe at hab hbc ⊢
        by_cases hxy : x = y
        · by_cases hyz : y = z
          · rw [if_pos hxy] at hab
            rw [if_pos hyz] at hbc
            rw [if_pos (hxy.trans hyz)]
            exact ih b c hab hbc
          · rw [if_neg hyz] at hbc
            rw [hxy, if_neg hyz]
            exact hbc
        rw [if_neg hxy, decide_eq_true_eq] at hab
        by_cases hyz : y = z
        · rw [← hyz, if_neg hxy, decide_eq_true_eq]
          exact hab
        rw [if_neg hyz, decide_eq_true_eq] at hbc
        have hxz : x ≠ z := by
          rintro rfl
          omega
        rw [if_neg hxz, decide_eq_true_eq]
        omega

theorem isPrefix_of_between {p x y : List UInt8} (hpx : bytesLe p x = true)
    (hxy : bytesLe x y = true) (hy : p <+: y) : p <+: x := by
  induction p generalizing x y with
  | nil => exact nil_prefix
  | cons b p ih =>
    obtain ⟨rest, rfl⟩ := hy
    cases x with
    | nil => cases hpx
    | cons c x =>
      rw [cons_append] at hxy
      unfold bytesLe at hpx hxy
      by_cases hbc : b = c
      · rw [if_pos hbc] at hpx
        rw [if_pos hbc.symm] at hxy
        rw [hbc]
        exact (prefix_cons_inj c).2 (ih hpx hxy (prefix_append p rest))
      · rw [if_neg hbc, decide_eq_true_eq] at hpx
        rw [if_neg fun h => hbc h.symm, decide_eq_true_eq] at hxy
        omega

theorem bytesLe_of_isPrefix {p x : List UInt8} (h : p <+: x) : bytesLe p x = true := by
  induction p generalizing x with
  | nil => rfl
  | cons b p ih =>
    obtain ⟨rest, rfl⟩ := h
    rw [cons_append]
    unfold bytesLe
    rw [if_pos rfl]
    exact ih (prefix_append p rest)

def searchStrings (sorted : List (List UInt8)) (x : List UInt8) : Nat :=
  search sorted.length fun i => (sorted[i]?).any fun y => bytesLe x y

/-- Some string begins with `x` exactly if the one at the place of `x` does. -/
theorem searchStrings_isPrefix {sorted : List (List UInt8)}
    (hsorted : sorted.Pairwise fun a b => bytesLe a b = true) (x : List UInt8) :
    (sorted[searchStrings sorted x]?).any (fun y => x.isPrefixOf y) = true ↔
      ∃ y ∈ sorted, x <+: y := by
  constructor
  · intro h
    obtain ⟨y, hy, hxy⟩ := (any_eq_true _ _).1 h
    exact ⟨y, mem_of_getElem? hy, isPrefixOf_iff_prefix.1 hxy⟩
  rintro ⟨y, hy, hxy⟩
  have hmono : ∀ a b, a ≤ b → b < sorted.length → (sorted[a]?).any (fun y => bytesLe x y) = true →
      (sorted[b]?).any (fun y => bytesLe x y) = true := by
    intro a b hab hb ha
    obtain ⟨u, hu, hxu⟩ := (any_eq_true _ _).1 ha
    obtain ⟨v, hv⟩ : ∃ v, sorted[b]? = some v := ⟨_, getElem?_eq_getElem hb⟩
    rw [hv, any_some]
    rcases Nat.eq_or_lt_of_le hab with rfl | hlt
    · rw [hu] at hv
      cases hv
      exact hxu
    obtain ⟨hal, rfl⟩ := List.getElem?_eq_some_iff.1 hu
    obtain ⟨hbl, rfl⟩ := List.getElem?_eq_some_iff.1 hv
    exact bytesLe_trans _ _ _ hxu (pairwise_iff_getElem.1 hsorted a b hal hbl hlt)
  obtain ⟨hbelow, habove⟩ := search_spec hmono
  obtain ⟨k, hk, rfl⟩ := mem_iff_getElem.1 hy
  have hle : searchStrings sorted x ≤ k := by
    by_contra hlt
    have hfalse := hbelow k (by unfold searchStrings at hlt; omega)
    rw [getElem?_eq_getElem hk, any_some, bytesLe_of_isPrefix hxy] at hfalse
    cases hfalse
  have hlen : searchStrings sorted x < sorted.length := by omega
  have hat := habove _ (Nat.le_refl _) hlen
  change (sorted[searchStrings sorted x]?).any (fun y => bytesLe x y) = true at hat
  rw [getElem?_eq_getElem hlen, any_some] at hat ⊢
  apply isPrefixOf_iff_prefix.2
  rcases Nat.eq_or_lt_of_le hle with heq | hlt
  · simp only [heq]
    exact hxy
  · exact isPrefix_of_between hat (pairwise_iff_getElem.1 hsorted _ k hlen hk hlt) hxy

end TorrentHub.Lib
