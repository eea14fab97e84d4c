import TorrentHub.Payload.Files

namespace TorrentHub
open Lib RelPath

def layoutVersion : Int := 1

def namedLayoutVersion : Int := 2

structure Layout where
  version : Int
  root : Bytes
  layoutPrefix : Bytes
deriving DecidableEq

inductive LayoutError where
  | unsupported | invalidLegacyRoot | unsafePath
deriving DecidableEq

def hexDigit (b : UInt8) : Bool :=
  (0x30 ≤ b && b ≤ 0x39) || (0x61 ≤ b && b ≤ 0x66) || (0x41 ≤ b && b ≤ 0x46)

def hexText (s : Bytes) : Bool := s.length % 2 == 0 && s.all hexDigit

def validRoot (root : Bytes) : Bool :=
  match components (clean root) with
  | [top, hash] => top == ascii "payload" && hash.length == 40 && hexText hash
  | _ => false

def supported (version : Int) : Bool := version == layoutVersion || version == namedLayoutVersion

def backslash : UInt8 := 0x5c

def lowerByte (b : UInt8) : UInt8 := if 0x41 ≤ b && b ≤ 0x5a then b + 0x20 else b

/-- A component reserved for the service's own directories, in any case. No other letter has
one of these as its lower case. -/
def reservedComponent (c : Bytes) : Bool := (ascii ".tsh-").isPrefixOf (c.map lowerByte)

namespace Layout

def validate (l : Layout) : Except LayoutError Unit :=
  if !supported l.version || !(validateRelative l.root).isOk then .error .unsupported
  else if l.version = layoutVersion then
    if !validRoot l.root || l.layoutPrefix != [] then .error .invalidLegacyRoot else .ok ()
  else if l.root.contains backslash || clean l.root != l.root then .error .unsafePath
  else if (components l.root).any reservedComponent then .error .unsafePath
  else if l.layoutPrefix != [] &&
      (!(validateRelative l.layoutPrefix).isOk || l.layoutPrefix.contains slash ||
        l.layoutPrefix.contains backslash) then .error .unsafePath
  else .ok ()

theorem supported_of_validate {l : Layout} (h : l.validate.isOk = true) :
    supported l.version = true := by
  unfold validate at h
  split at h
  · cases h
  next hs =>
  simp only [Bool.or_eq_true, Bool.not_eq_true', not_or, Bool.not_eq_false] at hs
  exact hs.1

end Layout

/-- Two paths with one key may be one file where the file system ignores case or the form of
characters. `fold` is that normalisation. -/
def collisionKey (fold : Bytes → Bytes) (path : Bytes) : Bytes := fold (clean path)

end TorrentHub
