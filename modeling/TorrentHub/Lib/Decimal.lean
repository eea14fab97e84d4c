import Mathlib.Algebra.Order.Ring.Nat
import Mathlib.Data.Nat.Basic
import Mathlib.Tactic.Ring

namespace TorrentHub.Lib

open List

def digit (c : Char) : Nat := c.toNat - '0'.toNat

def natOf (cs : List Char) : Nat := cs.foldl (fun n c => 10 * n + digit c) 0

def Numeral (cs : List Char) : Prop :=
  (∀ c ∈ cs, c.isDigit = true) ∧ ∃ c rest, cs = c :: rest ∧ (c = '0' → rest = [])

def newer (a b : List Char) : Bool :=
  decide (b.length < a.length) || (decide (a.length = b.length) && decide (b < a))

variable {a b cs : List Char} {c : Char}

theorem digit_le (h : c.isDigit = true) : digit c ≤ 9 := by
  simp only [Char.isDigit, Bool.and_eq_true, decide_eq_true_eq] at h
  have hle : c.toNat ≤ '9'.toNat := h.2
  unfold digit
  have hnine : '9'.toNat = 57 := rfl
  have hzero : '0'.toNat = 48 := rfl
  omega

theorem digit_lt_iff (hc : c.isDigit = true) : digit c < digit d ↔ c < d := by
  simp only [Char.isDigit, Bool.and_eq_true, decide_eq_true_eq] at hc
  have hle : '0'.toNat ≤ c.toNat := hc.1
  have hlt : c < d ↔ c.toNat < d.toNat := Iff.rfl
  rw [hlt]
  unfold digit
  omega

theorem digit_inj {d : Char} (hc : c.isDigit = true) (hd : d.isDigit = true)
    (h : digit c = digit d) : c = d := by
  simp only [Char.isDigit, Bool.and_eq_true, decide_eq_true_eq] at hc hd
  have hle : '0'.toNat ≤ c.toNat := hc.1
  have hle' : '0'.toNat ≤ d.toNat := hd.1
  unfold digit at h
  exact Char.toNat_inj.1 (by omega)

theorem natOf_cons (c : Char) (cs : List Char) :
    natOf (c :: cs) = digit c * 10 ^ cs.length + natOf cs := by
  have hfold : ∀ (cs : List Char) (n : Nat),
      cs.foldl (fun n c => 10 * n + digit c) n = n * 10 ^ cs.length + natOf cs := by
    intro cs
    induction cs with
    | nil => simp [natOf]
    | cons d cs ih =>
      intro n
      rw [natOf, foldl_cons, foldl_cons, ih, ih, length_cons]
      ring
  rw [natOf, foldl_cons, hfold, Nat.mul_zero, Nat.zero_add]

theorem natOf_lt (h : ∀ c ∈ cs, c.isDigit = true) : natOf cs < 10 ^ cs.length := by
  induction cs with
  | nil => simp [natOf]
  | cons c cs ih =>
    obtain ⟨hc, hcs⟩ := forall_mem_cons.1 h
    have hle := Nat.mul_le_mul_right (10 ^ cs.length) (digit_le hc)
    have hlt := ih hcs
    rw [natOf_cons, length_cons, Nat.pow_succ]
    omega

theorem natOf_lt_iff (ha : ∀ c ∈ a, c.isDigit = true) (hb : ∀ c ∈ b, c.isDigit = true)
    (hlen : a.length = b.length) : natOf b < natOf a ↔ b < a := by
  induction a generalizing b with
  | nil =>
    obtain rfl := length_eq_zero_iff.1 hlen.symm
    simp
  | cons c a ih =>
    cases b with
    | nil => cases hlen
    | cons d b =>
      obtain ⟨hc, ha⟩ := forall_mem_cons.1 ha
      obtain ⟨hd, hb⟩ := forall_mem_cons.1 hb
      have hlen : a.length = b.length := Nat.succ.inj hlen
      have hlta := natOf_lt ha
      have hltb := natOf_lt hb
      rw [natOf_cons, natOf_cons, cons_lt_cons_iff, ← ih ha hb hlen, ← digit_lt_iff hd]
      rw [hlen] at hlta ⊢
      rcases lt_trichotomy (digit d) (digit c) with hlt | heq | hgt
      · have hmul := Nat.mul_le_mul_right (10 ^ b.length) (Nat.succ_le_of_lt hlt)
        rw [Nat.succ_mul] at hmul
        exact ⟨fun _ => .inl hlt, fun _ => by omega⟩
      · obtain rfl := digit_inj hd hc heq
        simp
      · have hmul := Nat.mul_le_mul_right (10 ^ b.length) (Nat.succ_le_of_lt hgt)
        rw [Nat.succ_mul] at hmul
        refine ⟨fun h => absurd h (by omega), ?_⟩
        rintro (h | ⟨rfl, -⟩) <;> omega

theorem pow_le_decimal (hc : c.isDigit = true) (hne : c ≠ '0') :
    10 ^ cs.length ≤ natOf (c :: cs) := by
  have hpos : digit c ≠ 0 := fun h => hne (digit_inj hc (by decide) h)
  have hmul := Nat.mul_le_mul_right (10 ^ cs.length) (show 1 ≤ digit c by omega)
  rw [natOf_cons]
  omega

theorem natOf_lt_of_length (ha : Numeral a) (hb : Numeral b) (hlen : b.length < a.length) :
    natOf b < natOf a := by
  obtain ⟨hdigits, c, rest, rfl, hzero⟩ := ha
  have hpow := natOf_lt hb.1
  obtain ⟨-, d, more, rfl, -⟩ := hb
  by_cases hc : c = '0'
  · rw [hzero hc] at hlen
    simp at hlen
  have hle := Nat.pow_le_pow_right (show 0 < 10 by decide) (Nat.le_of_lt_succ hlen)
  exact (hpow.trans_le hle).trans_le (pow_le_decimal (hdigits c mem_cons_self) hc)

theorem newer_iff (ha : Numeral a) (hb : Numeral b) : newer a b = true ↔ natOf b < natOf a := by
  simp only [newer, Bool.or_eq_true, Bool.and_eq_true, decide_eq_true_eq]
  rcases lt_trichotomy b.length a.length with hlt | heq | hgt
  · exact ⟨fun _ => natOf_lt_of_length ha hb hlt, fun _ => .inl hlt⟩
  · rw [natOf_lt_iff ha.1 hb.1 heq.symm]
    constructor
    · rintro (h | h)
      · omega
      · exact h.2
    · exact fun h => .inr ⟨heq.symm, h⟩
  · have hdec := natOf_lt_of_length hb ha hgt
    constructor
    · rintro (h | h) <;> omega
    · intro h
      omega

end TorrentHub.Lib
