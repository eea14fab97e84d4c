import Mathlib.Data.Int.ConditionallyCompleteOrder
import Mathlib.Data.Prod.Lex
import Mathlib.Data.String.Basic
import Mathlib.Order.ConditionallyCompleteLattice.Basic
import TorrentHub.Engine.Admission

namespace TorrentHub
open Lib

structure EngineTorrent where
  hash : String
  addedAt : Int
  runtime : Runtime

namespace EngineTorrent

def active (t : EngineTorrent) : Bool := t.runtime.managed || t.runtime.registering

def candidate (t : EngineTorrent) : Bool :=
  t.runtime.mt.policy.payloadEligible && !t.runtime.mt.policy.slot &&
    !t.runtime.mt.policy.selectedComplete && !t.runtime.mt.policy.payloadComplete

def before (a b : EngineTorrent) : Bool :=
  let p := a.runtime.mt.queuePosition
  let position := b.runtime.mt.queuePosition
  if p > 0 ∧ position > 0 ∧ p ≠ position then p < position
  else if decide (p > 0) ≠ decide (position > 0) then p > 0
  else if a.addedAt ≠ b.addedAt then a.addedAt < b.addedAt
  else a.hash < b.hash

/-- What the comparison means: positive positions first and by position, then by age, then by
hash. -/
def key (t : EngineTorrent) : Bool ×ₗ Int ×ₗ Int ×ₗ String :=
  toLex (decide (t.runtime.mt.queuePosition ≤ 0),
    toLex (max t.runtime.mt.queuePosition 0, toLex (t.addedAt, t.hash)))

theorem before_iff (a b : EngineTorrent) : a.before b = true ↔ a.key < b.key := by
  simp only [before, key, Prod.Lex.toLex_lt_toLex]
  generalize a.runtime.mt.queuePosition = p
  generalize b.runtime.mt.queuePosition = q
  rcases Int.lt_or_le 0 p with hp | hp <;> rcases Int.lt_or_le 0 q with hq | hq
  · have hp' : ¬ p ≤ 0 := by omega
    have hq' : ¬ q ≤ 0 := by omega
    by_cases hpq : p = q
    · subst hpq
      by_cases ha : a.addedAt = b.addedAt <;> simp [hp, hp', ha]
    · simp [hp, hq, hp', hq', hpq, max_eq_left hp.le, max_eq_left hq.le]
  · have hp' : ¬ p ≤ 0 := by omega
    have hq' : ¬ 0 < q := by omega
    simp [hp, hq, hp', hq']
  · have hp' : ¬ 0 < p := by omega
    have hq' : ¬ q ≤ 0 := by omega
    simp [hp, hq, hp', hq']
  · have hp' : ¬ 0 < p := by omega
    have hq' : ¬ 0 < q := by omega
    by_cases ha : a.addedAt = b.addedAt <;> simp [hp, hq, hp', hq', ha]

theorem hash_eq_of_key {a b : EngineTorrent} (h : a.key = b.key) : a.hash = b.hash := by
  simp only [key, toLex_inj, Prod.mk.injEq] at h
  exact h.2.2.2

end EngineTorrent

structure Iteration where
  visit : List (EngineTorrent × Nat) → List (EngineTorrent × Nat)
  perm : ∀ l, (visit l).Perm l

/-- Every runtime that was ever registered, and for each scheduler pass the torrents it has not
visited yet. -/
structure Engine where
  maxActiveDownloads : Int
  torrents : List EngineTorrent := []
  passes : List (List Nat) := []

namespace Engine

def managedTorrents (e : Engine) : List (EngineTorrent × Nat) :=
  e.torrents.zipIdx.filter fun entry => entry.1.runtime.managed

def slotCountLocked (e : Engine) : Nat :=
  e.managedTorrents.countP fun entry => entry.1.runtime.mt.policy.slot

def headStep (first : Option (EngineTorrent × Nat)) (entry : EngineTorrent × Nat) :
    Option (EngineTorrent × Nat) :=
  if !entry.1.candidate then first
  else
    match first with
    | none => some entry
    | some f => if entry.1.before f.1 then some entry else first

def schedulerHeadLocked (e : Engine) (order : Iteration) : Option (EngineTorrent × Nat) :=
  (order.visit e.managedTorrents).foldl headStep none

/-- Whether torrent `i` may have a slot. -/
def available (e : Engine) (order : Iteration) (i : Nat) : Bool :=
  decide ((e.slotCountLocked : Int) < e.maxActiveDownloads) &&
    (e.schedulerHeadLocked order).any (·.2 == i)

/-- The engine with the runtime of torrent `i` replaced. -/
def setRuntime (e : Engine) (i : Nat) (runtime : Runtime) : Engine :=
  { e with torrents := e.torrents.modify i fun t => { t with runtime } }

def requesting (e : Engine) (i index : Nat) (r : Runtime) (env : Environment)
    (ticket : PayloadPreparation) : Engine :=
  e.setRuntime i ((r.take index).observed env ticket)

def answer (e : Engine) (order : Iteration) (i : Nat) (r : Runtime) :
    Runtime.Action → Runtime.Action
  | .returned index env =>
    match r.work[index]? with
    | some (.health ticket) =>
      .returned index { env with
        slotAvailable := (e.requesting i index r env ticket).available order i }
    | _ => .returned index env
  | action => action

def registerTorrent (e : Engine) (hash : String) (addedAt : Int) (spec : TorrentSpec)
    (restored : Option SavedTorrent) (noUpload : Bool) (env : Environment) : Engine :=
  if e.torrents.any (fun t => t.hash == hash && t.active) then e
  else
    let runtime := (Runtime.registerTorrent spec restored noUpload env).1
    { e with torrents := e.torrents ++ [⟨hash, addedAt, runtime⟩] }

/-- One section under admission. A pass copies its keys one at a time without admission, so its
snapshot may be any list. -/
inductive Action where
  | register (hash : String) (addedAt : Int) (spec : TorrentSpec)
      (restored : Option SavedTorrent) (noUpload : Bool) (env : Environment)
  | torrent (i : Nat) (action : Runtime.Action) (order : Iteration)
  | startPass (snapshot : List Nat)
  | visit (pass : Nat) (env : Environment)

def step (e : Engine) : Action → Engine
  | .register hash addedAt spec restored noUpload env =>
    e.registerTorrent hash addedAt spec restored noUpload env
  | .torrent i action order =>
    match e.torrents[i]? with
    | none => e
    | some t => e.setRuntime i (t.runtime.step (e.answer order i t.runtime action))
  | .startPass snapshot => { e with passes := e.passes ++ [snapshot] }
  | .visit pass env =>
    match e.passes[pass]? with
    | some (i :: rest) =>
      let e := { e with passes := e.passes.set pass rest }
      match e.torrents[i]? with
      | none => e
      | some t => e.setRuntime i (t.runtime.manageResources env)
    | _ => e

def run (maxActiveDownloads : Int) (actions : List Action) : Engine :=
  exec step { maxActiveDownloads } actions

end Engine

end TorrentHub
