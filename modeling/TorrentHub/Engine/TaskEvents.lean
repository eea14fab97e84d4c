import Mathlib.Data.Int.ConditionallyCompleteOrder
import Mathlib.Order.ConditionallyCompleteLattice.Basic
import TorrentHub.Lib.Run

namespace TorrentHub.TaskEvents

open Lib List Function

/-- In the select, at the inner loop, in a callback, or at the end. -/
inductive Point where
  | waiting | looking | running | returned

structure Events (κ : Type) where
  events : List (κ × Nat) := []
  wake : Nat := 0
  workers : Bool → Point := fun _ => .waiting
  closed : Bool := false

inductive Action (κ : Type) where
  | queue (key : κ) (fn : Nat)
  | work (i : Bool) (pick : Nat)
  | close

variable {κ : Type} [DecidableEq κ] (s : Events κ)

def queueEvent (key : κ) (fn : Nat) : Events κ :=
  if s.closed ∨ (∀ e ∈ s.events, e.1 ≠ key) ∧ 128 ≤ s.events.length then s
  else { s with events := (key, fn) :: s.events.filter (·.1 ≠ key), wake := min 2 (s.wake + 1) }

/-- `pick` is the choice of the select and of the iteration over the map. -/
def eventWorker (i : Bool) (pick : Nat) : Events κ :=
  let go p := { s with workers := update s.workers i p }
  match s.workers i with
  | .waiting =>
    if s.closed ∧ (s.wake = 0 ∨ pick = 0) then go .returned
    else if s.wake = 0 then s
    else { go .looking with wake := s.wake - 1 }
  | .looking =>
    match if s.closed then none else s.events[pick % s.events.length]? with
    | none => go .waiting
    | some e => { go .running with events := s.events.erase e }
  | .running => go .looking
  | .returned => s

def step : Action κ → Events κ
  | .queue key fn => queueEvent s key fn
  | .work i pick => eventWorker s i pick
  | .close => { s with closed := true }

structure Attended : Prop where
  events : s.events.length ≤ 128
  awake : ¬s.closed → s.events ≠ [] →
    0 < s.wake ∨ ∃ i, s.workers i = .looking ∨ s.workers i = .running

variable {s}

theorem Attended.queueEvent (h : Attended s) (key : κ) (fn : Nat) :
    Attended (queueEvent s key fn) := by
  unfold TaskEvents.queueEvent
  split
  · exact h
  next hfree =>
  refine ⟨?_, fun _ _ => .inl (by dsimp only; omega)⟩
  have hlen := h.events
  have hlt := length_filter_lt_length_iff_exists (l := s.events) (p := fun e => e.1 ≠ key)
  grind [length_filter_le]

theorem Attended.eventWorker (h : Attended s) (i : Bool) (pick : Nat) :
    Attended (eventWorker s i pick) := by
  unfold TaskEvents.eventWorker
  split
  · split
    next hc => exact ⟨h.events, fun hn => absurd hc.1 hn⟩
    split
    · exact h
    · exact ⟨h.events, fun _ _ => .inr ⟨i, .inl (update_self ..)⟩⟩
  · split
    next hnone =>
      refine ⟨h.events, fun hn hne => ?_⟩
      have := Nat.mod_lt pick (length_pos_of_ne_nil hne)
      grind
    · refine ⟨erase_sublist.length_le.trans h.events, fun _ _ => ?_⟩
      exact .inr ⟨i, .inr (update_self ..)⟩
  · exact ⟨h.events, fun _ _ => .inr ⟨i, .inl (update_self ..)⟩⟩
  · exact h

/-- No wake-up is lost: while the engine runs and a callback is pending, there is a token or a
worker is going to look. -/
theorem events_attended (as : List (Action κ)) : Attended (exec step {} as) := by
  refine exec_invariant_forall (fun s a h => ?_) ⟨Nat.zero_le _, fun _ h => absurd rfl h⟩ as
  cases a with
  | queue key fn => exact h.queueEvent key fn
  | work i pick => exact h.eventWorker i pick
  | close => exact ⟨h.events, fun hn => absurd rfl hn⟩

end TorrentHub.TaskEvents
