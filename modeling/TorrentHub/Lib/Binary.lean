import Mathlib.Algebra.Order.Ring.Nat
import TorrentHub.Lib.RelPath
import TorrentHub.Lib.Except

namespace TorrentHub.Lib.Binary

open List StateT

/-- The `k` low bytes of a number, the lowest first. -/
def littleEndian : Nat → Nat → Bytes
  | 0, _ => []
  | k + 1, n => UInt8.ofNat n :: littleEndian k (n / 256)

def value : Bytes → Nat
  | [] => 0
  | b :: bs => b.toNat + 256 * value bs

@[simp] theorem length_littleEndian (k n : Nat) : (littleEndian k n).length = k := by
  induction k generalizing n with
  | zero => rfl
  | succ k ih => rw [littleEndian, length_cons, ih]

theorem value_littleEndian (k n : Nat) : value (littleEndian k n) = n % 256 ^ k := by
  induction k generalizing n with
  | zero => rw [littleEndian, value, Nat.pow_zero, Nat.mod_one]
  | succ k ih =>
    rw [littleEndian, value, ih, Nat.pow_succ, Nat.mul_comm (256 ^ k), Nat.mod_mul]
    rfl

theorem littleEndian_value (bs : Bytes) : littleEndian bs.length (value bs) = bs := by
  induction bs with
  | nil => rfl
  | cons b bs ih =>
    have hlow : UInt8.ofNat (b.toNat + 256 * value bs) = b := by
      apply UInt8.toNat_inj.1
      rw [UInt8.toNat_ofNat']
      have hb := b.toNat_lt
      omega
    have hhigh : (b.toNat + 256 * value bs) / 256 = value bs := by
      have hb := b.toNat_lt
      omega
    rw [length_cons, value, littleEndian, hlow, hhigh, ih]

theorem value_lt (bs : Bytes) : value bs < 256 ^ bs.length := by
  induction bs with
  | nil => exact Nat.one_pos
  | cons b bs ih =>
    have hb := b.toNat_lt
    rw [length_cons, value, Nat.pow_succ]
    omega

def uint64 (n : UInt64) : Bytes := littleEndian 8 n.toNat

def uint32 (n : UInt32) : Bytes := littleEndian 4 n.toNat

theorem value_uint64 (n : UInt64) : value (uint64 n) = n.toNat := by
  rw [uint64, value_littleEndian]
  exact Nat.mod_eq_of_lt n.toNat_lt

theorem value_uint32 (n : UInt32) : value (uint32 n) = n.toNat := by
  rw [uint32, value_littleEndian]
  exact Nat.mod_eq_of_lt n.toNat_lt

theorem uint64_value {bs : Bytes} (h : bs.length = 8) : uint64 (UInt64.ofNat (value bs)) = bs := by
  have hlt := value_lt bs
  rw [h] at hlt
  rw [uint64, UInt64.toNat_ofNat_of_lt' hlt, ← h, littleEndian_value]

theorem uint32_value {bs : Bytes} (h : bs.length = 4) : uint32 (UInt32.ofNat (value bs)) = bs := by
  have hlt := value_lt bs
  rw [h] at hlt
  rw [uint32, UInt32.toNat_ofNat_of_lt' hlt, ← h, littleEndian_value]

abbrev Reader (ε α : Type) := StateT Bytes (Except ε) α

variable {ε α β : Type}

/-- The next `n` bytes, or `eof` where there are fewer. -/
def take (eof : ε) (n : Nat) : Reader ε Bytes := fun data =>
  if n ≤ data.length then .ok (data.take n, data.drop n) else .error eof

/-- On input that begins with `bs`, the reader gives `x` and leaves what follows. -/
def Reads (r : Reader ε α) (bs : Bytes) (x : α) : Prop :=
  ∀ rest, r.run (bs ++ rest) = .ok (x, rest)

variable {r : Reader ε α} {f : α → Reader ε β} {bs bs' : Bytes} {x y' : α} {y : β}

theorem Reads.pure (x : α) : Reads (Pure.pure x : Reader ε α) [] x := fun _ => rfl

theorem Reads.bind (h : Reads r bs x) (h' : Reads (f x) bs' y) : Reads (r >>= f) (bs ++ bs') y := by
  intro rest
  rw [run_bind, append_assoc, h]
  exact h' rest

theorem Reads.bind_nil (h : Reads r bs x) (h' : Reads (f x) [] y) : Reads (r >>= f) bs y := by
  have hb := h.bind h'
  rwa [append_nil] at hb

theorem Reads.check {e : Except ε α} (h : e = .ok x) (h' : Reads (f x) bs y) :
    Reads ((liftM e : Reader ε α) >>= f) bs y := by
  intro rest
  subst h
  exact h' rest

theorem Reads.take (eof : ε) {n : Nat} (h : bs.length = n) : Reads (take eof n) bs bs := by
  intro rest
  subst h
  simp [Binary.take, run]

theorem run_bind_eq_ok : (r >>= f).run data = .ok (y, rest) ↔
      ∃ x mid, r.run data = .ok (x, mid) ∧ (f x).run mid = .ok (y, rest) := by
  rw [run_bind, bind_eq_ok]
  constructor
  · rintro ⟨⟨x, mid⟩, hr, hf⟩
    exact ⟨x, mid, hr, hf⟩
  · rintro ⟨x, mid, hr, hf⟩
    exact ⟨(x, mid), hr, hf⟩

theorem run_pure_eq_ok :
    (Pure.pure x : Reader ε α).run data = .ok (y', rest) ↔ x = y' ∧ data = rest := by
  rw [run_pure, pure_eq, Prod.mk.injEq]

theorem run_take_eq_ok :
    (take eof n).run data = .ok (bs, rest) ↔ data = bs ++ rest ∧ bs.length = n := by
  simp only [take, run]
  constructor
  · intro h
    split at h
    next hn =>
      cases h
      exact ⟨(take_append_drop n data).symm, length_take_of_le hn⟩
    · cases h
  · rintro ⟨rfl, rfl⟩
    simp

theorem run_liftM_eq_ok {e : Except ε α} {data rest : Bytes} :
    (liftM e : Reader ε α).run data = .ok (x, rest) ↔ e = .ok x ∧ data = rest := by
  cases e with
  | error err =>
    constructor
    · nofun
    · rintro ⟨h, -⟩
      cases h
  | ok a =>
    constructor
    · intro h
      cases h
      exact ⟨rfl, rfl⟩
    rintro ⟨h, rfl⟩
    cases h
    rfl

theorem Reads.run_eq (h : Reads r bs x) : r.run bs = .ok (x, []) := by
  have hr := h []
  rwa [append_nil] at hr

end TorrentHub.Lib.Binary
