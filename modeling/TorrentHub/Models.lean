import Mathlib.Data.List.Basic

namespace TorrentHub

def maxInt64 : Int := 9223372036854775807

/-- The type is open in the source: `other` is any text that is none of the constants, with `other
""` for the zero value. -/
inductive TorrentState where
  | queued | downloading | streaming | seeding | paused | error | missingFiles | diskFull
  | other (text : String)
deriving DecidableEq

abbrev ErrorReason := String

namespace ErrorReason

def diskFull : ErrorReason := "Disk full"
def missingFiles : ErrorReason := "Missing files"
def verificationFailed : ErrorReason := "Verification failed"
def activationBlocked : ErrorReason := "Activation blocked"
def metadataPersistence : ErrorReason := "metadata persistence failed"
def invalidSelection : ErrorReason := "Invalid file selection"
def none : ErrorReason := ""

end ErrorReason

inductive RunIntent where
  | paused | enabled
  | other (text : String)
deriving DecidableEq

inductive ActivationBlockKind where
  | verification | missingFiles | legacyError | metadataPersistence | invalidSelection
  | other (text : String)
deriving DecidableEq

structure ActivationBlock where
  kind : ActivationBlockKind
  reason : String
deriving DecidableEq

structure RuntimeFence where
  hash : String := ""
  recordID : String := ""
  revision : Int := 0
  attachment : String := ""
deriving DecidableEq

end TorrentHub
