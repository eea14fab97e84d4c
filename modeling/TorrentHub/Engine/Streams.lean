import Mathlib.Algebra.Group.Int.Defs
import TorrentHub.Lib.Span
import TorrentHub.Lib.Run
import TorrentHub.Lib.Table

namespace TorrentHub

open Lib

abbrev PieceRange := Span Int

def defaultStreamHeadPrebuffer : Int := 20 * 2 ^ 20

def defaultStreamTailPieces : Int := 4

def defaultStreamBehindPieces : Int := 2

def defaultStreamSlidingWindow : Int := 20 * 2 ^ 20

structure StreamOptions where
  rangeStart : Int
  windowBytes : Int
  accountingOnly : Bool
deriving DecidableEq

structure StreamFileBounds where
  offset : Int
  length : Int
  beginPiece : Int
  endPiece : Int
  displayPath : String
deriving DecidableEq

namespace StreamFileBounds

variable (bounds : StreamFileBounds)

/-- `filepath.Ext`. -/
def extension (path : String) : List Char :=
  let name := path.toList.reverse
  let suffix := name.takeWhile fun c => c != '.' && c != '/'
  match name.drop suffix.length with
  | '.' :: _ => '.' :: suffix.reverse
  | _ => []

def streamFileHasTailMetadata (path : String) : Bool :=
  let ext := (extension path).map Char.toLower
  ext == ".mp4".toList || ext == ".mov".toList || ext == ".m4v".toList

def minPositive (a b : Int) : Int :=
  if a ≤ 0 then b else if b ≤ 0 then a else if a < b then a else b

def streamByteRegionPieces (pieceLength relOffset size : Int) : Option PieceRange :=
  let size := if relOffset < 0 then size + relOffset else size
  let relOffset := if relOffset < 0 then 0 else relOffset
  if size ≤ 0 ∨ bounds.length ≤ relOffset then none
  else
    let size := if bounds.length < relOffset + size then bounds.length - relOffset else size
    let absStart := bounds.offset + relOffset
    let absEnd := absStart + size
    let first := max (absStart.tdiv pieceLength) bounds.beginPiece
    let stop := min ((absEnd + pieceLength - 1).tdiv pieceLength) bounds.endPiece
    if stop ≤ first then none else some ⟨first, stop⟩

def windowBytes (streamCacheSize : Int) (opts : StreamOptions) : Int :=
  let window := if opts.windowBytes ≤ 0 then streamCacheSize else opts.windowBytes
  if window ≤ 0 then defaultStreamSlidingWindow else window

def headBytes (opts : StreamOptions) : Int :=
  if 0 < opts.windowBytes then minPositive opts.windowBytes bounds.length
  else minPositive defaultStreamHeadPrebuffer bounds.length

def headRanges (pieceLength : Int) (opts : StreamOptions) : List PieceRange :=
  (bounds.streamByteRegionPieces pieceLength 0 (bounds.headBytes opts)).toList

def tailRanges : List PieceRange :=
  if streamFileHasTailMetadata bounds.displayPath then
    [⟨max (bounds.endPiece - defaultStreamTailPieces) bounds.beginPiece, bounds.endPiece⟩]
  else []

def playRanges (pieceLength streamCacheSize : Int) (opts : StreamOptions) : List PieceRange :=
  let playhead := max opts.rangeStart 0
  if bounds.length ≤ playhead then []
  else
    let window := min (windowBytes streamCacheSize opts) (bounds.length - playhead)
    match bounds.streamByteRegionPieces pieceLength playhead window with
    | none => []
    | some r => [⟨max (r.first - defaultStreamBehindPieces) bounds.beginPiece, r.stop⟩]

def computeStreamPieceRangesForBounds (pieceLength streamCacheSize : Int)
    (opts : StreamOptions) : List PieceRange :=
  if bounds.length ≤ 0 ∨ pieceLength ≤ 0 ∨ bounds.endPiece ≤ bounds.beginPiece then []
  else
    Span.merge (bounds.headRanges pieceLength opts ++ bounds.tailRanges ++
      bounds.playRanges pieceLength streamCacheSize opts)

end StreamFileBounds

structure FileKey where
  hash : String
  index : Nat
deriving DecidableEq

/-- A session; its identifier also names its `Done` channel. -/
structure StreamSession where
  id : Nat
  options : StreamOptions
  preload : Bool
deriving DecidableEq

/-- `object` is the identity of the state object, `torrent` that of the managed torrent. That the
`uint64` of `timerVersion` wraps around is left out. -/
structure StreamState where
  key : FileKey
  object : Nat
  torrent : Nat
  timerVersion : Nat := 0
  activeStreams : Int := 0
  activePreloads : Int := 0
  debounceTimer : Bool := false
  sessions : List StreamSession := []
  appliedRanges : List PieceRange := []
  fullyDownloaded : Bool := false
deriving DecidableEq

abbrev StreamTable := Table StreamState FileKey StreamState.key fun _ => true

/-- A managed torrent with known metadata. The library keeps every file inside the pieces of its
torrent. -/
structure StreamTorrent where
  hash : String
  files : List StreamFileBounds
  pieceLength : Int
  numPieces : Int
  inside : ∀ f ∈ files, 0 ≤ f.beginPiece ∧ f.endPiece ≤ numPieces

structure DebounceTimer where
  key : FileKey
  object : Nat
  version : Nat
deriving DecidableEq

/-- `closes` counts the `close` calls on the channel of a session, `high` has the pieces of a
torrent whose priority was last set to High. -/
structure StreamWorld where
  states : StreamTable := Table.empty
  torrents : List StreamTorrent := []
  managed : String → Option Nat := fun _ => none
  eligible : Nat → Bool := fun _ => false
  high : Nat → Int → Bool := fun _ _ => false
  nextSession : Nat := 0
  nextObject : Nat := 0
  closes : Nat → Nat := fun _ => 0
  timers : List DebounceTimer := []
  closed : Bool := false
  engineClosed : Bool := false
  streamCacheSize : Int

/-- `ends` says that the context of the engine ends within the section. -/
structure StreamEnv where
  complete : Nat → Bool
  admitted : Bool
  selectionFault : Bool
  ends : Bool := false

namespace StreamState

def channels (row : StreamState) (id : Nat) : Nat := row.sessions.countP (·.id == id)

def addSession (row : StreamState) (session : StreamSession) : StreamState :=
  { row with
    debounceTimer := false
    timerVersion := row.timerVersion + 1
    sessions := row.sessions ++ [session]
    activeStreams := if session.preload then row.activeStreams else row.activeStreams + 1
    activePreloads := if session.preload then row.activePreloads + 1 else row.activePreloads }

def dropSession (row : StreamState) (session : StreamSession) : StreamState :=
  { row with
    sessions := row.sessions.erase session
    activeStreams := max 0 (if session.preload then row.activeStreams else row.activeStreams - 1)
    activePreloads :=
      max 0 (if session.preload then row.activePreloads - 1 else row.activePreloads) }

def arm (row : StreamState) : StreamState :=
  { row with timerVersion := row.timerVersion + 1, debounceTimer := true }

def unused (row : StreamState) : Bool :=
  row.activeStreams == 0 && row.activePreloads == 0

end StreamState

namespace StreamWorld

variable (w : StreamWorld)

def modify (key : FileKey) (f : StreamState → StreamState) (hf : ∀ r, (f r).key = r.key) :
    StreamWorld :=
  { w with states := w.states.adjust (fun r => r.key == key) f hf }

/-- Take the states with `p` out of the table and close the channels of their sessions. -/
def detach (p : StreamState → Bool) : StreamWorld :=
  { w with
    states := w.states.remove p
    closes := fun id => w.closes id + ((w.states.rows.filter p).map (·.channels id)).sum }

def close (id : Nat) : StreamWorld :=
  { w with closes := Function.update w.closes id (w.closes id + 1) }

def drop (key : FileKey) : StreamWorld :=
  { w with states := w.states.remove fun r => r.key == key }

def setHigh (torrent : Nat) (f : Int → Bool) : StreamWorld :=
  { w with high := Function.update w.high torrent f }

/-- `CancelPieces` over all pieces. -/
def cancelPieces (torrent : Nat) : StreamWorld := w.setHigh torrent fun _ => false

def setEligible (torrent : Nat) (eligible : Bool) : StreamWorld :=
  { w with eligible := Function.update w.eligible torrent eligible }

def currentTorrent (torrent : Nat) : Option StreamTorrent :=
  match w.torrents[torrent]? with
  | some t => if !w.engineClosed && w.managed t.hash == some torrent then some t else none
  | none => none

def streamFile (key : FileKey) : Option (Nat × StreamTorrent) :=
  match w.managed key.hash with
  | none => none
  | some id =>
    match w.torrents[id]? with
    | none => none
    | some t => if key.index < t.files.length then some (id, t) else none

def sessionRanges (t : StreamTorrent) (file : StreamFileBounds) (session : StreamSession) :
    List PieceRange :=
  if session.options.accountingOnly then []
  else file.computeStreamPieceRangesForBounds t.pieceLength w.streamCacheSize session.options

def refreshState (t : StreamTorrent) (id : Nat) (complete : Nat → Bool) (row : StreamState) :
    StreamState :=
  match w.eligible id, t.files[row.key.index]? with
  | true, some file =>
    let full := complete row.key.index
    let kept := if row.sessions.isEmpty && row.debounceTimer then row.appliedRanges else []
    { row with
      fullyDownloaded := full
      appliedRanges := Span.merge
        (if full then [] else kept ++ row.sessions.flatMap (w.sessionRanges t file)) }
  | _, _ => { row with appliedRanges := [] }

theorem refreshState_key (t : StreamTorrent) (id : Nat) (complete : Nat → Bool)
    (row : StreamState) : (w.refreshState t id complete row).key = row.key := by
  unfold refreshState
  split <;> rfl

def ofTorrent (hash : String) (id : Nat) (row : StreamState) : Bool :=
  row.key.hash == hash && row.torrent == id

/-- The ranges of the states with `p`. -/
def rangesOf (states : StreamTable) (p : StreamState → Bool) : List PieceRange :=
  (states.rows.filter p).flatMap (·.appliedRanges)

/-- `refreshTorrentOverlayLocked`; `none` is its error. -/
def refresh (id : Nat) (complete : Nat → Bool) : Option StreamWorld :=
  match w.currentTorrent id with
  | none => none
  | some t =>
    if w.closed then none
    else
      let p := ofTorrent t.hash id
      let states := w.states.adjust p (w.refreshState t id complete)
        (w.refreshState_key t id complete)
      let old := Span.merge (rangesOf w.states p)
      let new := Span.merge (rangesOf states p)
      some ({ w with states }.setHigh id fun piece =>
        if Span.Covers new piece then true
        else if Span.Covers old piece then false else w.high id piece)

def refreshed (id : Nat) (complete : Nat → Bool) : StreamWorld := (w.refresh id complete).getD w

/-- `rollbackSessionLocked`. -/
def rollbackSession (key : FileKey) (id : Nat) : StreamWorld :=
  match w.states.find key with
  | none => w
  | some row =>
    match row.sessions.find? (·.id == id) with
    | none => w
    | some session =>
      let left := row.dropSession session
      let w := (w.modify key (·.dropSession session) fun _ => rfl).close id
      if left.unused && left.appliedRanges.isEmpty then w.drop key else w

/-- The state of the key, which `addSession` makes if there is none. -/
def ensureState (key : FileKey) (id : Nat) : StreamWorld :=
  match w.states.find key with
  | some _ => w
  | none =>
    { w with
      states := w.states.put { key, object := w.nextObject, torrent := id }
      nextObject := w.nextObject + 1 }

def insertSession (key : FileKey) (options : StreamOptions) (preload : Bool) : StreamWorld :=
  { w.modify key (·.addSession ⟨w.nextSession + 1, options, preload⟩) fun _ => rfl with
    nextSession := w.nextSession + 1 }

def endContext (ends : Bool) : StreamWorld := { w with engineClosed := w.engineClosed || ends }

/-- `BeginShutdown` takes no admission, so the context may end between the two looks at it. -/
def addSession (key : FileKey) (options : StreamOptions) (preload : Bool) (env : StreamEnv) :
    StreamWorld :=
  if w.engineClosed then w
  else
    match w.streamFile key with
    | none => w
    | some (id, _) =>
      if !env.admitted || w.closed then w
      else if (w.states.find key).isNone && decide (256 ≤ w.states.rows.length) then w
      else
        let added := ((w.ensureState key id).insertSession key options preload).endContext env.ends
        match added.refresh id env.complete with
        | some w => w
        | none => added.rollbackSession key (w.nextSession + 1)

/-- `scheduleDebounceLocked`. -/
def scheduleDebounce (key : FileKey) : StreamWorld :=
  match w.states.find key with
  | none => w
  | some row =>
    if w.closed || !row.unused then w
    else
      { w.modify key StreamState.arm fun _ => rfl with
        timers := ⟨key, row.object, row.timerVersion + 1⟩ :: w.timers }

/-- `applyOverlayDiff` without new ranges. -/
def lower (key : FileKey) (id : Nat) (t : StreamTorrent) (old : List PieceRange) : StreamWorld :=
  let kept := Span.merge
    (rangesOf w.states fun row => row.key.hash == key.hash && row.key != key)
  w.setHigh id fun piece =>
    if Span.Covers old piece ∧ ¬ Span.Covers kept piece ∧ 0 ≤ piece ∧
        piece < t.numPieces then false
    else w.high id piece

/-- `restoreBasePriorities`. -/
def restoreBasePriorities (id : Nat) (env : StreamEnv) : StreamWorld :=
  if !w.eligible id then w.cancelPieces id
  else if env.selectionFault then
    ((w.setEligible id false).cancelPieces id).refreshed id env.complete
  else w.refreshed id env.complete

/-- `clearStreamOverlayLocked`. -/
def clearStreamOverlay (key : FileKey) (env : StreamEnv) : StreamWorld :=
  match w.states.find key with
  | none => w
  | some row =>
    if !row.unused then w
    else if row.appliedRanges.isEmpty then w.drop key
    else
      match w.streamFile key with
      | none => w.drop key
      | some (id, t) =>
        if row.torrent ≠ id then w.drop key
        else ((w.drop key).lower key id t row.appliedRanges).restoreBasePriorities id env

/-- `removeSessionLocked`. -/
def removeSession (key : FileKey) (id : Nat) (debounce : Bool) (env : StreamEnv) : StreamWorld :=
  match w.states.find key with
  | none => w
  | some row =>
    match row.sessions.find? (·.id == id) with
    | none => w
    | some session =>
      let left := row.dropSession session
      let w := (w.modify key (·.dropSession session) fun _ => rfl).close id
      if left.activeStreams > 0 ∨ left.activePreloads > 0 then
        w.refreshed row.torrent env.complete
      else if debounce then w.scheduleDebounce key
      else w.clearStreamOverlay key env

/-- `RemoveStream`, for the session that the walk over the map meets first. -/
def removeStream (key : FileKey) (id : Nat) (env : StreamEnv) : StreamWorld :=
  match w.states.find key with
  | none => w
  | some row =>
    if row.sessions.any fun s => s.id == id && !s.preload then w.removeSession key id true env
    else if row.sessions.isEmpty ∧ row.activeStreams > 0 then
      let w' := w.modify key
        (fun r => { r with activeStreams := max 0 (r.activeStreams - 1) }) fun _ => rfl
      if row.activeStreams - 1 ≤ 0 ∧ row.activePreloads = 0 then w'.scheduleDebounce key else w'
    else w

/-- `expireDebounce`, for any timer that was ever armed. -/
def expireDebounce (i : Nat) (env : StreamEnv) : StreamWorld :=
  match w.timers[i]? with
  | none => w
  | some timer =>
    match w.states.find timer.key with
    | none => w
    | some row =>
      if !w.closed && row.object == timer.object && row.timerVersion == timer.version
          && row.unused then
        w.clearStreamOverlay timer.key env
      else w

def register (t : StreamTorrent) (eligible : Bool) : StreamWorld :=
  if (w.managed t.hash).isSome || w.engineClosed then w
  else
    { w with
      torrents := w.torrents ++ [t]
      managed := Function.update w.managed t.hash (some w.torrents.length)
      eligible := Function.update w.eligible w.torrents.length eligible
      high := Function.update w.high w.torrents.length fun _ => false }

/-- A change that withdraws the payload, or cancels the pieces, refreshes the overlay in the same
critical section. -/
def setPolicy (hash : String) (eligible cancel again : Bool) (env : StreamEnv) : StreamWorld :=
  match w.managed hash with
  | none => w
  | some id =>
    let changed := w.setEligible id eligible
    let changed := if cancel then changed.cancelPieces id else changed
    if !eligible || cancel || again then changed.refreshed id env.complete else changed

/-- `Delete` up to the library's `Drop`: its own refresh finds the torrent no longer current. -/
def delete (hash : String) : StreamWorld :=
  match w.managed hash with
  | none => w
  | some id =>
    (({ w with managed := Function.update w.managed hash none }.setEligible id false).cancelPieces
      id).detach fun row => row.torrent == id

/-- The first part of `Close`: the context has ended and every torrent is quiesced. -/
def closeEngine : StreamWorld :=
  { w with engineClosed := true, eligible := fun _ => false, high := fun _ _ => false }

def closeAllStreams : StreamWorld := { w with closed := true }.detach fun _ => true

end StreamWorld

inductive StreamAction where
  | register (t : StreamTorrent) (eligible : Bool)
  | setPolicy (hash : String) (eligible cancel again : Bool) (env : StreamEnv)
  | addSession (key : FileKey) (options : StreamOptions) (preload : Bool) (env : StreamEnv)
  | removeSession (key : FileKey) (id : Nat) (debounce : Bool) (env : StreamEnv)
  | removeStream (key : FileKey) (id : Nat) (env : StreamEnv)
  | expireDebounce (i : Nat) (env : StreamEnv)
  | refreshStreamOverlay (key : FileKey) (env : StreamEnv)
  | delete (hash : String)
  | beginShutdown
  | closeEngine
  | closeAllStreams

namespace StreamWorld

def step (w : StreamWorld) : StreamAction → StreamWorld
  | .register t eligible => w.register t eligible
  | .setPolicy hash eligible cancel again env => w.setPolicy hash eligible cancel again env
  | .addSession key options preload env => w.addSession key options preload env
  | .removeSession key id debounce env => w.removeSession key id debounce env
  | .removeStream key id env => w.removeStream key id env
  | .expireDebounce i env => w.expireDebounce i env
  | .refreshStreamOverlay key env =>
    match w.streamFile key with
    | none => w
    | some (id, _) => w.refreshed id env.complete
  | .delete hash => w.delete hash
  | .beginShutdown => w.endContext true
  | .closeEngine => w.closeEngine
  | .closeAllStreams => w.closeAllStreams

def run (streamCacheSize : Int) (actions : List StreamAction) : StreamWorld :=
  exec step { streamCacheSize } actions

end StreamWorld

end TorrentHub
