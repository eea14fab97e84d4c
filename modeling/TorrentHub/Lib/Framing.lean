import TorrentHub.Lib.Binary

namespace TorrentHub.Lib.Framing
open Binary List

variable {α β : Type}

/-- The encoding of a value of `s` can be told from whatever follows it. -/
def Framed (enc : α → Bytes) (s : Set α) : Prop :=
  ∀ x ∈ s, ∀ y ∈ s, ∀ rest rest', enc x ++ rest = enc y ++ rest' → x = y ∧ rest = rest'

variable {enc : α → Bytes} {enc' : β → Bytes} {s : Set α} {s' : Set β}

theorem Framed.of_length (hlen : ∀ x y, (enc x).length = (enc y).length)
    (hinj : Function.Injective enc) : Framed enc s := by
  intro x _ y _ rest rest' h
  obtain ⟨henc, hrest⟩ := append_inj h (hlen x y)
  exact ⟨hinj henc, hrest⟩

theorem Framed.prod (h : Framed enc s) (h' : Framed enc' s') :
    Framed (fun p : α × β => enc p.1 ++ enc' p.2) (s ×ˢ s') := by
  rintro ⟨x, x'⟩ ⟨hx, hx'⟩ ⟨y, y'⟩ ⟨hy, hy'⟩ rest rest' heq
  simp only [append_assoc] at heq
  obtain ⟨rfl, hsecond⟩ := h x hx y hy _ _ heq
  obtain ⟨rfl, hrest⟩ := h' x' hx' y' hy' _ _ hsecond
  exact ⟨rfl, hrest⟩

theorem Framed.flatMap (h : Framed enc s) {xs ys : List α} (hxs : ∀ x ∈ xs, x ∈ s)
    (hys : ∀ y ∈ ys, y ∈ s) (hlen : xs.length = ys.length) {rest rest' : Bytes}
    (heq : xs.flatMap enc ++ rest = ys.flatMap enc ++ rest') : xs = ys ∧ rest = rest' := by
  induction xs generalizing ys with
  | nil =>
    obtain rfl := length_eq_zero_iff.1 hlen.symm
    exact ⟨rfl, heq⟩
  | cons x xs ih =>
    cases ys with
    | nil => cases hlen
    | cons y ys =>
      simp only [flatMap_cons, append_assoc] at heq
      obtain ⟨rfl, htail⟩ := h x (hxs x mem_cons_self) y (hys y mem_cons_self) _ _ heq
      obtain ⟨rfl, hrest⟩ := ih (fun z hz => hxs z (mem_cons_of_mem _ hz))
        (fun z hz => hys z (mem_cons_of_mem _ hz)) (Nat.succ.inj hlen) htail
      exact ⟨rfl, hrest⟩

theorem length_uint64 (n : UInt64) : (uint64 n).length = 8 := length_littleEndian 8 n.toNat

theorem uint64_injective : Function.Injective uint64 := by
  intro n m h
  have hvalue := congrArg value h
  rw [value_uint64, value_uint64] at hvalue
  exact UInt64.toNat.inj hvalue

theorem framed_uint64 (s : Set UInt64) : Framed uint64 s :=
  .of_length (fun n m => by rw [length_uint64, length_uint64]) uint64_injective

def counted (enc : α → Bytes) (xs : List α) : Bytes :=
  uint64 (UInt64.ofNat xs.length) ++ xs.flatMap enc

theorem Framed.counted (h : Framed enc s) :
    Framed (counted enc) {xs | xs.length < 2 ^ 64 ∧ ∀ x ∈ xs, x ∈ s} := by
  rintro xs ⟨hxs, hxs'⟩ ys ⟨hys, hys'⟩ rest rest' heq
  simp only [Framing.counted, append_assoc] at heq
  obtain ⟨hcount, heq⟩ := framed_uint64 Set.univ _ trivial _ trivial _ _ heq
  have hlen : xs.length = ys.length := by
    have := congrArg UInt64.toNat hcount
    rwa [UInt64.toNat_ofNat_of_lt' hxs, UInt64.toNat_ofNat_of_lt' hys] at this
  exact h.flatMap hxs' hys' hlen heq

def lengthed (text : Bytes) : Bytes := counted (fun b => [b]) text

theorem framed_lengthed : Framed lengthed {text | text.length < 2 ^ 64} := by
  have hbyte : Framed (fun b : UInt8 => [b]) Set.univ :=
    .of_length (fun _ _ => rfl) fun b b' hb => (cons.inj hb).1
  intro x hx y hy
  exact hbyte.counted x ⟨hx, fun _ _ => trivial⟩ y ⟨hy, fun _ _ => trivial⟩

def digit (n : UInt8) : UInt8 := if n < 10 then 0x30 + n else 0x57 + n

def hex (bytes : Bytes) : Bytes :=
  bytes.flatMap fun b : UInt8 => [digit (b >>> 4), digit (b &&& 15)]

def undigit (c : UInt8) : UInt8 := if c < 0x3a then c - 0x30 else c - 0x57

theorem undigit_digit (b : UInt8) :
    undigit (digit (b >>> 4)) <<< 4 ||| undigit (digit (b &&& 15)) = b := by
  have h : ∀ n < 256, undigit (digit (UInt8.ofNat n >>> 4)) <<< 4 |||
      undigit (digit (UInt8.ofNat n &&& 15)) = UInt8.ofNat n := by decide +kernel
  simpa using h b.toNat b.toNat_lt

theorem length_hex (bytes : Bytes) : (hex bytes).length = 2 * bytes.length := by
  induction bytes with
  | nil => rfl
  | cons b bytes ih =>
    rw [hex, flatMap_cons, length_append, ← hex, ih, length_cons]
    simp only [length_cons, length_nil]
    omega

theorem hex_injective : Function.Injective hex := by
  intro a b h
  have hlen : a.length = b.length := by
    have := congrArg length h
    rw [length_hex, length_hex] at this
    omega
  have hbyte : Framed (fun b : UInt8 => [digit (b >>> 4), digit (b &&& 15)]) Set.univ := by
    refine .of_length (fun _ _ => rfl) fun x y hxy => ?_
    obtain ⟨hhigh, hlow⟩ := cons.inj hxy
    rw [← undigit_digit x, ← undigit_digit y, hhigh, (cons.inj hlow).1]
  exact (hbyte.flatMap (fun _ _ => trivial) (fun _ _ => trivial) hlen (congrArg (· ++ []) h)).1

end TorrentHub.Lib.Framing
