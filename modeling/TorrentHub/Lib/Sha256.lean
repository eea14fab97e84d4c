import TorrentHub.Lib.RelPath

namespace TorrentHub.Lib.Sha256

structure Words where
  a : UInt32
  b : UInt32
  c : UInt32
  d : UInt32
  e : UInt32
  f : UInt32
  g : UInt32
  h : UInt32

def initial : Words :=
  ⟨0x6a09e667, 0xbb67ae85, 0x3c6ef372, 0xa54ff53a,
    0x510e527f, 0x9b05688c, 0x1f83d9ab, 0x5be0cd19⟩

def constants : List UInt32 := [
  0x428a2f98, 0x71374491, 0xb5c0fbcf, 0xe9b5dba5, 0x3956c25b, 0x59f111f1, 0x923f82a4,
  0xab1c5ed5, 0xd807aa98, 0x12835b01, 0x243185be, 0x550c7dc3, 0x72be5d74, 0x80deb1fe,
  0x9bdc06a7, 0xc19bf174, 0xe49b69c1, 0xefbe4786, 0x0fc19dc6, 0x240ca1cc, 0x2de92c6f,
  0x4a7484aa, 0x5cb0a9dc, 0x76f988da, 0x983e5152, 0xa831c66d, 0xb00327c8, 0xbf597fc7,
  0xc6e00bf3, 0xd5a79147, 0x06ca6351, 0x14292967, 0x27b70a85, 0x2e1b2138, 0x4d2c6dfc,
  0x53380d13, 0x650a7354, 0x766a0abb, 0x81c2c92e, 0x92722c85, 0xa2bfe8a1, 0xa81a664b,
  0xc24b8b70, 0xc76c51a3, 0xd192e819, 0xd6990624, 0xf40e3585, 0x106aa070, 0x19a4c116,
  0x1e376c08, 0x2748774c, 0x34b0bcb5, 0x391c0cb3, 0x4ed8aa4a, 0x5b9cca4f, 0x682e6ff3,
  0x748f82ee, 0x78a5636f, 0x84c87814, 0x8cc70208, 0x90befffa, 0xa4506ceb, 0xbef9a3f7,
  0xc67178f2]

def rotr (x : UInt32) (n : UInt32) : UInt32 := (x >>> n) ||| (x <<< (32 - n))

def bigEndian (n : UInt32) : Bytes :=
  [(n >>> 24).toUInt8, (n >>> 16).toUInt8, (n >>> 8).toUInt8, n.toUInt8]

def padded (message : Bytes) : Bytes :=
  let bits := UInt64.ofNat (8 * message.length)
  message ++ (0x80 : UInt8) :: List.replicate ((119 - message.length % 64) % 64) 0 ++
    bigEndian (bits >>> 32).toUInt32 ++ bigEndian bits.toUInt32

def words : Bytes → List UInt32
  | b₀ :: b₁ :: b₂ :: b₃ :: rest =>
    (b₀.toUInt32 <<< 24 ||| b₁.toUInt32 <<< 16 ||| b₂.toUInt32 <<< 8 ||| b₃.toUInt32) :: words rest
  | _ => []

def scheduled (w : List UInt32) : UInt32 :=
  let w₂ := w.getD 14 0
  let w₁₅ := w.getD 1 0
  (rotr w₂ 17 ^^^ rotr w₂ 19 ^^^ (w₂ >>> 10)) + w.getD 9 0 +
    (rotr w₁₅ 7 ^^^ rotr w₁₅ 18 ^^^ (w₁₅ >>> 3)) + w.getD 0 0

def round (s : Words) (k w : UInt32) : Words :=
  let t₁ := s.h + (rotr s.e 6 ^^^ rotr s.e 11 ^^^ rotr s.e 25) +
    ((s.e &&& s.f) ^^^ (~~~s.e &&& s.g)) + k + w
  let t₂ := (rotr s.a 2 ^^^ rotr s.a 13 ^^^ rotr s.a 22) +
    ((s.a &&& s.b) ^^^ (s.a &&& s.c) ^^^ (s.b &&& s.c))
  ⟨t₁ + t₂, s.a, s.b, s.c, s.d + t₁, s.e, s.f, s.g⟩

def rounds : List UInt32 → List UInt32 → Words → Words
  | [], _, s => s
  | k :: ks, w, s => rounds ks (w.tail ++ [scheduled w]) (round s k (w.headD 0))

def compress (s : Words) (block : Bytes) : Words :=
  let t := rounds constants (words block) s
  ⟨s.a + t.a, s.b + t.b, s.c + t.c, s.d + t.d, s.e + t.e, s.f + t.f, s.g + t.g, s.h + t.h⟩

def blocks : Nat → Bytes → Words → Words
  | 0, _, s => s
  | n + 1, data, s => blocks n (data.drop 64) (compress s (data.take 64))

def sum256 (message : Bytes) : Bytes :=
  let data := padded message
  let s := blocks (data.length / 64) data initial
  [s.a, s.b, s.c, s.d, s.e, s.f, s.g, s.h].flatMap bigEndian

example : sum256 [0x61, 0x62, 0x63] = [
    0xba, 0x78, 0x16, 0xbf, 0x8f, 0x01, 0xcf, 0xea,
    0x41, 0x41, 0x40, 0xde, 0x5d, 0xae, 0x22, 0x23,
    0xb0, 0x03, 0x61, 0xa3, 0x96, 0x17, 0x7a, 0x9c,
    0xb4, 0x10, 0xff, 0x61, 0xf2, 0x00, 0x15, 0xad] := by
  decide +kernel

end TorrentHub.Lib.Sha256
