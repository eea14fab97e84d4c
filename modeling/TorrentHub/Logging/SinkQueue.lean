import TorrentHub.Lib.Ring
import TorrentHub.Lib.Run
import TorrentHub.Lib.RelPath

namespace TorrentHub

open Lib List

def sinkQueueRecords : Nat := 512

def sinkQueueBytes : Nat := 2 * 2 ^ 20

structure DroppedLevels where
  debug : Nat := 0
  info : Nat := 0
  warn : Nat := 0
  error : Nat := 0
  unknown : Nat := 0
deriving DecidableEq

def DroppedLevels.add (d : DroppedLevels) (p : Bytes) : DroppedLevels :=
  let contains (mark : String) :=
    (List.range 64).any fun i => mark.toUTF8.toList.isPrefixOf ((p.take 64).drop i)
  if contains "[DEBUG]" then { d with debug := d.debug + 1 }
  else if contains "[INFO]" then { d with info := d.info + 1 }
  else if contains "[WARN]" then { d with warn := d.warn + 1 }
  else if contains "[ERROR]" then { d with error := d.error + 1 }
  else { d with unknown := d.unknown + 1 }

structure SinkStats where
  queued : Nat := 0
  queuedBytes : Nat := 0
  inFlight : Bool := false
  accepted : Nat := 0
  completed : Nat := 0
  dropped : Nat := 0
  droppedBytes : Nat := 0
  errors : Nat := 0
  closed : Bool := false
  rejectedAfterClose : Nat := 0
  droppedByLevel : DroppedLevels := {}
deriving DecidableEq

structure QueuedLog where
  data : Bytes := []
  time : Int := 0
deriving DecidableEq

/-- `changed` counts the channels that were closed so far, and so names the current one. -/
structure SinkQueue where
  items : Nat → QueuedLog := fun _ => {}
  head : Nat := 0
  stats : SinkStats := {}
  changed : Nat := 0

namespace SinkQueue

variable (q : SinkQueue)

def waiting : List QueuedLog := ring sinkQueueRecords q.items q.head q.stats.queued

def signalLocked : SinkQueue := { q with changed := q.changed + 1 }

def admits (p : Bytes) : Bool :=
  !(q.stats.closed || q.stats.queued == sinkQueueRecords ||
    decide (sinkQueueBytes < q.stats.queuedBytes + p.length))

def drop (p : Bytes) : SinkQueue :=
  { q with stats := { q.stats with
      dropped := q.stats.dropped + 1
      droppedByLevel := q.stats.droppedByLevel.add p
      droppedBytes := q.stats.droppedBytes + p.length
      rejectedAfterClose := q.stats.rejectedAfterClose + if q.stats.closed then 1 else 0 } }

def accept (p : Bytes) (time : Int) : SinkQueue :=
  signalLocked { q with
    items := Function.update q.items ((q.head + q.stats.queued) % sinkQueueRecords) ⟨p, time⟩
    stats := { q.stats with
      queued := q.stats.queued + 1
      queuedBytes := q.stats.queuedBytes + p.length
      accepted := q.stats.accepted + 1 } }

def enqueueAt (p : Bytes) (time : Int) : SinkQueue :=
  if q.admits p then q.accept p time else q.drop p

def take : SinkQueue :=
  { q with
    items := Function.update q.items q.head {}
    head := (q.head + 1) % sinkQueueRecords
    stats := { q.stats with
      queued := q.stats.queued - 1
      queuedBytes := q.stats.queuedBytes - (q.items q.head).data.length
      inFlight := true } }

def complete (ok : Bool) : SinkQueue :=
  signalLocked { q with stats := { q.stats with
    errors := q.stats.errors + if ok then 0 else 1
    completed := q.stats.completed + 1
    inFlight := false } }

def stop : SinkQueue :=
  if q.stats.closed then q
  else signalLocked { q with stats := { q.stats with closed := true } }

end SinkQueue

inductive SinkPoint where
  | top
  | waiting (channel : Nat)
  | writing (record : QueuedLog)
  | cleaning
  | done
deriving DecidableEq

def SinkPoint.rank : SinkPoint → Nat
  | .done => 0
  | .cleaning => 1
  | .writing _ => 2
  | .top => 3
  | .waiting _ => 4

inductive FlushPoint where
  | waiting (channel : Nat)
  | returned
  | cancelled
deriving DecidableEq

/-- A call of `flush` with its target. -/
structure Flusher where
  target : Nat
  point : FlushPoint
deriving DecidableEq

/-- The loop condition of `flush` under the lock. -/
def SinkQueue.check (q : SinkQueue) (target : Nat) : FlushPoint :=
  if q.stats.completed < target then .waiting q.changed else .returned

/-- The last three fields are history: what was accepted, what the sink was called with, and which
of these calls returned. -/
structure SinkState where
  queue : SinkQueue := {}
  worker : SinkPoint := .top
  flushers : List Flusher := []
  buffers : Nat → Bytes := fun _ => []
  accepted : List QueuedLog := []
  handed : List QueuedLog := []
  attempted : List QueuedLog := []

/-- `work` is the next step of the worker, whose call of the sink succeeds or not; `wake` is that of
a waiting `flush`, whose context may be cancelled. -/
inductive SinkAction where
  | change (buffer : Nat) (data : Bytes)
  | enqueue (buffer : Nat) (time : Int)
  | work (ok : Bool)
  | stop
  | flush
  | wake (index : Nat) (cancelled : Bool)
deriving DecidableEq

namespace SinkState

variable (s : SinkState)

def enqueue (buffer : Nat) (time : Int) : SinkState :=
  let p := s.buffers buffer
  { s with
    queue := s.queue.enqueueAt p time
    accepted := if s.queue.admits p then s.accepted ++ [⟨p, time⟩] else s.accepted }

def work (ok : Bool) : SinkState :=
  match s.worker with
  | .top =>
    if s.queue.stats.queued = 0 then
      { s with worker := if s.queue.stats.closed then .cleaning else .waiting s.queue.changed }
    else
      let record := s.queue.items s.queue.head
      { s with queue := s.queue.take, worker := .writing record, handed := s.handed ++ [record] }
  | .waiting channel => if channel < s.queue.changed then { s with worker := .top } else s
  | .writing record =>
    { s with queue := s.queue.complete ok, worker := .top, attempted := s.attempted ++ [record] }
  | .cleaning =>
    let stats := { s.queue.stats with errors := s.queue.stats.errors + if ok then 0 else 1 }
    { s with queue := { s.queue with stats }, worker := .done }
  | .done => s

def flush : SinkState :=
  let target := s.queue.stats.accepted
  { s with flushers := s.flushers ++ [⟨target, s.queue.check target⟩] }

def wakeOne (cancelled : Bool) (f : Flusher) : Flusher :=
  match f.point with
  | .waiting channel =>
    if cancelled then { f with point := .cancelled }
    else if channel < s.queue.changed then { f with point := s.queue.check f.target }
    else f
  | _ => f

def step : SinkAction → SinkState
  | .change buffer data => { s with buffers := Function.update s.buffers buffer data }
  | .enqueue buffer time => s.enqueue buffer time
  | .work ok => s.work ok
  | .stop => { s with queue := s.queue.stop }
  | .flush => s.flush
  | .wake index cancelled =>
    match s.flushers[index]? with
    | none => s
    | some f => { s with flushers := s.flushers.set index (s.wakeOne cancelled f) }

def run (as : List SinkAction) : SinkState := exec step {} as

def inFlight : List QueuedLog :=
  match s.worker with
  | .writing record => [record]
  | _ => []

structure Delivers : Prop where
  order : s.accepted = s.handed ++ s.queue.waiting
  calls : s.handed = s.attempted ++ s.inFlight
  flight : s.queue.stats.inFlight = !s.inFlight.isEmpty
  accepted : s.queue.stats.accepted = s.accepted.length
  completed : s.queue.stats.completed = s.attempted.length
  bytes : s.queue.stats.queuedBytes = (s.queue.waiting.map (·.data.length)).sum
  records : s.queue.stats.queued ≤ sinkQueueRecords
  budget : s.queue.stats.queuedBytes ≤ sinkQueueBytes
  head : s.queue.head < sinkQueueRecords
  ended : s.worker = .cleaning ∨ s.worker = .done →
    s.queue.stats.closed = true ∧ s.queue.stats.queued = 0
  flushed : ∀ f ∈ s.flushers, f.point = .returned → f.target ≤ s.queue.stats.completed

variable {s} {q : SinkQueue} {p : Bytes} {time : Int}

theorem waiting_accept (h : q.stats.queued < sinkQueueRecords) (p : Bytes) (time : Int) :
    (q.accept p time).waiting = q.waiting ++ [⟨p, time⟩] := ring_push h _

open SinkQueue

theorem waiting_take (hhead : q.head < sinkQueueRecords) (hq : q.stats.queued ≤ sinkQueueRecords)
    (hne : q.stats.queued ≠ 0) : q.waiting = q.items q.head :: q.take.waiting := by
  obtain ⟨count, hcount⟩ := Nat.exists_eq_succ_of_ne_zero hne
  have hlt : count < sinkQueueRecords := by omega
  unfold waiting
  rw [hcount]
  simp only [SinkQueue.take, hcount]
  exact ring_pop hhead hlt ({} : QueuedLog)

theorem room_of_admits (h : q.admits p = true) : q.stats.closed = false ∧
    q.stats.queued ≠ sinkQueueRecords ∧ q.stats.queuedBytes + p.length ≤ sinkQueueBytes := by
  simp only [admits, Bool.not_eq_true', Bool.or_eq_false_iff, beq_eq_false_iff_ne,
    decide_eq_false_iff_not, not_lt] at h
  exact ⟨h.1.1, h.1.2, h.2⟩

namespace Delivers

theorem init : Delivers {} where
  order := rfl
  calls := rfl
  flight := rfl
  accepted := rfl
  completed := rfl
  bytes := rfl
  records := by decide
  budget := by decide
  head := by decide
  ended := by rintro (h | h) <;> cases h
  flushed := by simp

theorem enqueue (h : Delivers s) (buffer : Nat) (time : Int) :
    Delivers (s.enqueue buffer time) := by
  unfold SinkState.enqueue SinkQueue.enqueueAt
  by_cases hadmits : s.queue.admits (s.buffers buffer) = true
  · obtain ⟨hopen, hroom, hbudget⟩ := room_of_admits hadmits
    have hbound := h.budget
    have hrecords := h.records
    have hwaiting := waiting_accept (show s.queue.stats.queued < sinkQueueRecords by omega)
      (s.buffers buffer) time
    simp only [hadmits, if_true]
    exact {
      order := by
        change s.accepted ++ _ = s.handed ++ _
        rw [hwaiting, h.order, append_assoc]
      calls := h.calls
      flight := h.flight
      accepted := by
        change s.queue.stats.accepted + 1 = _
        rw [h.accepted, length_append]
        rfl
      completed := h.completed
      bytes := by
        change s.queue.stats.queuedBytes + _ = _
        rw [hwaiting, h.bytes, map_append, sum_append]
        rfl
      records := by change s.queue.stats.queued + 1 ≤ _; omega
      budget := by change s.queue.stats.queuedBytes + _ ≤ _; omega
      head := h.head
      ended := by
        intro hend
        exact absurd (h.ended hend).1 (by simp [hopen])
      flushed := h.flushed }
  · simp only [if_neg hadmits]
    exact { h with }

open SinkState

section

variable (h : Delivers s)
include h

theorem take (hpoint : s.worker = .top) (hne : s.queue.stats.queued ≠ 0) : Delivers { s with
      queue := s.queue.take
      worker := .writing (s.queue.items s.queue.head)
      handed := s.handed ++ [s.queue.items s.queue.head] } := by
  have hwaiting := waiting_take h.head h.records hne
  have hbytes := h.bytes
  have hidle : s.inFlight = [] := by simp [inFlight, hpoint]
  rw [hwaiting, map_cons, sum_cons] at hbytes
  exact {
    order := by
      change s.accepted = _
      rw [h.order, hwaiting, append_assoc]
      rfl
    calls := by
      change s.handed ++ _ = _
      rw [h.calls, hidle, append_nil]
      rfl
    flight := rfl
    accepted := h.accepted
    completed := h.completed
    bytes := by
      change s.queue.stats.queuedBytes - _ = _
      rw [hbytes]
      exact Nat.add_sub_cancel_left ..
    records := (Nat.sub_le _ _).trans h.records
    budget := (Nat.sub_le _ _).trans h.budget
    head := Nat.mod_lt _ (by decide)
    ended := by rintro (hend | hend) <;> cases hend
    flushed := h.flushed }

theorem idle (hidle : s.inFlight = []) :
    s.handed = s.attempted ++ [] ∧ s.queue.stats.inFlight = false := by
  have hcalls := h.calls
  have hflight := h.flight
  rw [hidle] at hcalls hflight
  exact ⟨hcalls, hflight⟩

theorem work (ok : Bool) : Delivers (s.work ok) := by
  unfold SinkState.work
  split
  next hpoint =>
    obtain ⟨hcalls, hflight⟩ := h.idle (by simp [inFlight, hpoint])
    split
    next hempty =>
      split
      next hclosed =>
        exact { h with calls := hcalls, flight := hflight, ended := fun _ => ⟨hclosed, hempty⟩ }
      exact { h with
        calls := hcalls
        flight := hflight
        ended := by rintro (hend | hend) <;> cases hend }
    next hne => exact h.take hpoint hne
  next channel hpoint =>
    obtain ⟨hcalls, hflight⟩ := h.idle (by simp [inFlight, hpoint])
    split
    · exact { h with
        calls := hcalls
        flight := hflight
        ended := by rintro (hend | hend) <;> cases hend }
    · exact h
  next record hpoint =>
    have hbusy : s.inFlight = [record] := by simp [inFlight, hpoint]
    exact { h with
      calls := by
        change s.handed = _
        rw [h.calls, hbusy]
        exact (append_nil _).symm
      flight := rfl
      completed := by
        change s.queue.stats.completed + 1 = _
        rw [h.completed, length_append]
        rfl
      ended := by rintro (hend | hend) <;> cases hend
      flushed := fun f hf hreturned => (h.flushed f hf hreturned).trans (Nat.le_succ _) }
  next hpoint =>
    obtain ⟨hcalls, hflight⟩ := h.idle (by simp [inFlight, hpoint])
    exact { h with calls := hcalls, flight := hflight, ended := fun _ => h.ended (.inl hpoint) }
  · exact h

theorem stop : Delivers { s with queue := s.queue.stop } := by
  unfold SinkQueue.stop
  split
  · exact h
  · exact { h with ended := fun hend => ⟨rfl, (h.ended hend).2⟩ }

theorem of_flushers {flushers : List Flusher}
    (hf : ∀ f ∈ flushers, f.point = .returned → f.target ≤ s.queue.stats.completed) :
    Delivers { s with flushers } := { h with flushed := hf }

end

theorem target_le_of_check {q : SinkQueue} {target : Nat} (h : q.check target = .returned) :
    target ≤ q.stats.completed := by
  unfold check at h
  split at h
  · cases h
  · exact not_lt.1 ‹_›

theorem target_le_of_wake {cancelled : Bool} {f : Flusher}
    (h : f.point = .returned → f.target ≤ s.queue.stats.completed)
    (hreturned : (s.wakeOne cancelled f).point = .returned) :
    (s.wakeOne cancelled f).target ≤ s.queue.stats.completed := by
  unfold wakeOne at hreturned ⊢
  repeat' split
  all_goals simp_all
  exact target_le_of_check hreturned

theorem step (h : Delivers s) (a : SinkAction) : Delivers (s.step a) := by
  cases a with
  | change buffer data => exact { h with }
  | enqueue buffer time => exact h.enqueue buffer time
  | work ok => exact h.work ok
  | stop => exact h.stop
  | flush =>
    refine h.of_flushers fun f hf hreturned => ?_
    rcases mem_append.1 hf with hf | hf
    · exact h.flushed f hf hreturned
    · obtain rfl := mem_singleton.1 hf
      exact target_le_of_check hreturned
  | wake index cancelled =>
    simp only [SinkState.step]
    split
    · exact h
    next g hg =>
    refine h.of_flushers fun f hf hreturned => ?_
    rcases mem_or_eq_of_mem_set hf with hf | rfl
    · exact h.flushed f hf hreturned
    · exact target_le_of_wake (h.flushed g (mem_of_getElem? hg)) hreturned

end Delivers

theorem closed_step (h : s.queue.stats.closed = true) (a : SinkAction) :
    (s.step a).queue.stats.closed = true ∧ (s.step a).accepted = s.accepted := by
  have hrefused : ∀ p, s.queue.admits p = false := by
    intro p
    simp [admits, h]
  cases a with
  | change buffer data | flush => exact ⟨h, rfl⟩
  | enqueue buffer time =>
    simp only [step, enqueue, enqueueAt, hrefused, Bool.false_eq_true, if_false]
    exact ⟨h, trivial⟩
  | work ok =>
    simp only [step, work]
    repeat' split
    all_goals exact ⟨h, rfl⟩
  | stop =>
    simp only [step, stop, h, if_true]
    exact ⟨trivial, trivial⟩
  | wake index cancelled =>
    simp only [step]
    split <;> exact ⟨h, rfl⟩

theorem closed_exec (h : s.queue.stats.closed = true) (as : List SinkAction) :
    (exec step s as).queue.stats.closed = true ∧ (exec step s as).accepted = s.accepted :=
  exec_invariant_forall (I := fun t : SinkState =>
    t.queue.stats.closed = true ∧ t.accepted = s.accepted)
    (fun _ a ht => ⟨(closed_step ht.1 a).1, (closed_step ht.1 a).2.trans ht.2⟩) ⟨h, rfl⟩ as

theorem enqueue_counted (s : SinkState) (buffer : Nat) (time : Int) :
    let p := s.buffers buffer
    let s' := s.enqueue buffer time
    (s'.accepted = s.accepted ++ [⟨p, time⟩] ∧ s'.queue.stats.dropped = s.queue.stats.dropped ∧
      s'.queue.stats.droppedBytes = s.queue.stats.droppedBytes) ∨
    (s'.accepted = s.accepted ∧ s'.queue.waiting = s.queue.waiting ∧
      s'.queue.stats.dropped = s.queue.stats.dropped + 1 ∧
      s'.queue.stats.droppedBytes = s.queue.stats.droppedBytes + p.length) := by
  simp only [enqueue, enqueueAt]
  split
  · exact .inl ⟨rfl, rfl, rfl⟩
  · exact .inr ⟨rfl, rfl, rfl, rfl⟩

theorem targets_step (h : Delivers s) (a : SinkAction) : (s.step a).flushers.map (·.target)
      = s.flushers.map (·.target) ++ if a = .flush then [s.accepted.length] else [] := by
  cases a with
  | change buffer data | enqueue buffer time | stop => exact (append_nil _).symm
  | work ok =>
    have hsame : (s.work ok).flushers = s.flushers := by
      unfold work
      repeat' split
      all_goals rfl
    simp [step, hsame]
  | flush => simp [step, flush, h.accepted]
  | wake index cancelled =>
    have htarget : ∀ f, (s.wakeOne cancelled f).target = f.target := by
      intro f
      unfold wakeOne
      repeat' split
      all_goals rfl
    simp only [step, reduceCtorEq, if_false, append_nil]
    split
    · rfl
    next f hf =>
    obtain ⟨hlt, rfl⟩ := List.getElem?_eq_some_iff.1 hf
    rw [map_set, htarget, ← map_set, set_getElem_self]

/-- The steps of the worker before the first `count` records are attempted and it ends. -/
def remaining (count : Nat) (s : SinkState) : Nat :=
  5 * (count - s.attempted.length) + s.worker.rank

/-- A worker that waits on the current channel has nothing to write and was not stopped. -/
def Wakes (s : SinkState) : Prop := ∀ channel, s.worker = .waiting channel →
  channel ≤ s.queue.changed ∧
    (channel < s.queue.changed ∨ s.queue.stats.queued = 0 ∧ s.queue.stats.closed = false)

theorem Wakes.signal (h : Wakes s) {q : SinkQueue} (hq : s.queue.changed < q.changed) :
    Wakes { s with queue := q } := by
  intro channel hworker
  have hlt := (h channel hworker).1.trans_lt hq
  exact ⟨hlt.le, .inl hlt⟩

theorem Wakes.step (h : Wakes s) (a : SinkAction) : Wakes (s.step a) := by
  cases a with
  | change buffer data | flush => exact h
  | enqueue buffer time =>
    simp only [SinkState.step, SinkState.enqueue, enqueueAt]
    split
    · exact h.signal (q := s.queue.accept (s.buffers buffer) time) (Nat.lt_succ_self _)
    · exact h
  | work ok =>
    simp only [SinkState.step, SinkState.work]
    split
    · split
      next hempty =>
        intro channel hworker
        change (if s.queue.stats.closed then _ else _) = _ at hworker
        split at hworker
        next => cases hworker
        next hopen =>
          cases hworker
          exact ⟨le_rfl, .inr ⟨hempty, by simpa using hopen⟩⟩
      · exact nofun
    · split
      · exact nofun
      · exact h
    · exact nofun
    · exact nofun
    · exact h
  | stop =>
    simp only [SinkState.step, SinkQueue.stop]
    split
    · exact h
    · exact h.signal (Nat.lt_succ_self _)
  | wake index cancelled =>
    simp only [SinkState.step]
    split <;> exact h

/-- There is a record to attempt, or the worker was stopped after the last one. -/
def Busy (count : Nat) (s : SinkState) : Prop :=
  count ≤ s.accepted.length ∧ (s.attempted.length < count ∨
    s.queue.stats.closed = true ∧ s.accepted.length = count)

theorem Delivers.written (h : Delivers s) :
    s.accepted = s.attempted ++ (s.inFlight ++ s.queue.waiting) := by
  rw [h.order, h.calls, append_assoc]

theorem Delivers.length (h : Delivers s) :
    s.accepted.length = s.attempted.length + s.inFlight.length + s.queue.stats.queued := by
  have hwaiting : s.queue.waiting.length = s.queue.stats.queued := length_ring
  rw [h.written, length_append, length_append, hwaiting, Nat.add_assoc]

theorem Delivers.drained (h : Delivers s) (hend : s.worker = .cleaning ∨ s.worker = .done) :
    s.attempted = s.accepted := by
  have hempty : s.queue.waiting = [] := by simp [waiting, ring, (h.ended hend).2]
  have hidle : s.inFlight = [] := by
    unfold inFlight
    rcases hend with hend | hend <;> rw [hend]
  rw [h.written, hidle, hempty, append_nil, append_nil]

theorem work_lt {count : Nat} (h : Delivers s) (hwakes : Wakes s) (hbusy : Busy count s)
    (hdone : s.worker ≠ .done) (ok : Bool) : (s.work ok).remaining count < s.remaining count := by
  have hlength := h.length
  obtain ⟨hle, hbusy⟩ := hbusy
  unfold work
  split
  next hp =>
    have hidle : s.inFlight.length = 0 := by simp [inFlight, hp]
    split
    next hempty =>
      have hclosed : s.queue.stats.closed = true := by
        rcases hbusy with hlt | hclosed
        · omega
        · exact hclosed.1
      simp [remaining, hp, hclosed, SinkPoint.rank]
    · simp [remaining, hp, SinkPoint.rank]
  next channel hp =>
    have hidle : s.inFlight.length = 0 := by simp [inFlight, hp]
    have hlt : channel < s.queue.changed := by
      rcases (hwakes channel hp).2 with hlt | ⟨hempty, hopen⟩
      · exact hlt
      rcases hbusy with hlt | ⟨hclosed, -⟩
      · omega
      · rw [hclosed] at hopen
        cases hopen
    simp [hlt, remaining, hp, SinkPoint.rank]
  next record hp =>
    have hone : s.inFlight.length = 1 := by simp [inFlight, hp]
    simp only [remaining, hp, SinkPoint.rank, length_append, length_singleton]
    omega
  next hp => simp [remaining, hp, SinkPoint.rank]
  next hp => exact absurd hp hdone

theorem remaining_step (count : Nat) (a : SinkAction) (ha : ∀ ok, a ≠ .work ok) :
    (s.step a).remaining count = s.remaining count := by
  cases a with
  | work ok => exact absurd rfl (ha ok)
  | wake index cancelled =>
    simp only [step]
    split <;> rfl
  | _ => rfl

/-- What the worker attempted stays attempted, and what it accepts comes after what was accepted. -/
theorem history_step (s : SinkState) (a : SinkAction) : s.attempted <+: (s.step a).attempted ∧
    s.accepted <+: (s.step a).accepted ∧ (s.worker = .done → (s.step a).worker = .done) := by
  cases a with
  | enqueue buffer time =>
    simp only [step, enqueue]
    split <;> simp
  | work ok =>
    simp only [step, work]
    repeat' split
    all_goals simp_all
  | wake index cancelled =>
    simp only [step]
    split <;> simp
  | _ => simp [step, flush]

theorem history_exec (s : SinkState) (as : List SinkAction) :
    let t := exec step s as
    s.attempted <+: t.attempted ∧ s.accepted <+: t.accepted ∧
      (s.worker = .done → t.worker = .done) := by
  refine exec_invariant_forall (I := fun t : SinkState => s.attempted <+: t.attempted ∧
    s.accepted <+: t.accepted ∧ (s.worker = .done → t.worker = .done)) ?_ (by simp) as
  intro t a ⟨hattempted, haccepted, hdone⟩
  obtain ⟨hattempted', haccepted', hdone'⟩ := history_step t a
  exact ⟨hattempted.trans hattempted', haccepted.trans haccepted', fun h => hdone' (hdone h)⟩

/-- The rule of progress for the worker, towards any goal before which it is busy. -/
theorem worker_reaches {G : SinkState → Prop} {count : Nat} {rounds : List (List SinkAction)}
    (hG : ∀ t, Delivers t → count ≤ t.accepted.length →
      (s.queue.stats.closed = true → t.queue.stats.closed = true ∧ t.accepted = s.accepted) →
      ¬G t → Busy count t ∧ t.worker ≠ .done)
    (h : Delivers s) (hwakes : Wakes s) (hcount : count = s.accepted.length)
    (hrounds : ∀ bs ∈ rounds, ∃ ok, .work ok ∈ bs)
    (hlen : 5 * (s.queue.stats.queued + 2) ≤ rounds.length) :
    ∃ bs cs, rounds.flatten = bs ++ cs ∧ G (exec step s bs) := by
  have hlt : s.remaining count < rounds.length := by
    have hlength := h.length
    have hflight : s.inFlight.length ≤ 1 := by
      unfold inFlight
      split <;> simp
    have hrank : s.worker.rank ≤ 4 := by
      unfold SinkPoint.rank
      split <;> simp
    unfold remaining
    omega
  refine exec_reaches (remaining count)
    (I := fun t => Delivers t ∧ Wakes t ∧ count ≤ t.accepted.length ∧
      (s.queue.stats.closed = true → t.queue.stats.closed = true ∧ t.accepted = s.accepted))
    (E := fun _ a => ∃ ok, a = .work ok) ?_ ?_ ⟨h, hwakes, hcount.le, fun hc => ⟨hc, rfl⟩⟩ hlt
  · rintro t a ⟨ht, htwakes, htcount, htclosed⟩ hn
    refine ⟨⟨ht.step a, htwakes.step a,
      htcount.trans (history_step t a).2.1.length_le, fun hc => ?_⟩, .inr ?_⟩
    · obtain ⟨hclosed, haccepted⟩ := htclosed hc
      exact ⟨(closed_step hclosed a).1, (closed_step hclosed a).2.trans haccepted⟩
    by_cases ha : ∃ ok, a = .work ok
    · obtain ⟨ok, rfl⟩ := ha
      obtain ⟨hbusy, hdone⟩ := hG t ht htcount htclosed hn
      exact .inl (work_lt ht htwakes hbusy hdone ok)
    · exact .inr ⟨ha, (remaining_step count a fun ok he => ha ⟨ok, he⟩).le, fun _ hb => hb⟩
  · rintro t bs hbs - -
    obtain ⟨ok, hok⟩ := hrounds bs hbs
    exact ⟨_, hok, ok, rfl⟩

theorem attempts_all {rounds : List (List SinkAction)} (h : Delivers s) (hwakes : Wakes s)
    (hrounds : ∀ bs ∈ rounds, ∃ ok, .work ok ∈ bs)
    (hlen : 5 * (s.queue.stats.queued + 2) ≤ rounds.length) :
    s.accepted <+: (exec step s rounds.flatten).attempted := by
  obtain ⟨bs, cs, hsplit, hcount⟩ := worker_reaches
    (G := fun t => s.accepted.length ≤ t.attempted.length) (fun t ht hle _ hn => by
      have hlt : t.attempted.length < s.accepted.length := by omega
      refine ⟨⟨hle, .inl hlt⟩, fun hdone => ?_⟩
      rw [ht.drained (.inr hdone)] at hlt
      omega) h hwakes rfl hrounds hlen
  have hdelivers : Delivers (exec step s bs) := exec_invariant_forall (fun _ a ht => ht.step a) h bs
  have hwritten : (exec step s bs).attempted <+: (exec step s bs).accepted := by
    rw [hdelivers.written]
    exact prefix_append _ _
  have hread := prefix_of_prefix_length_le (history_exec s bs).2.1 hwritten hcount
  rw [hsplit, exec_append]
  exact hread.trans (history_exec _ cs).1

theorem ends_when_stopped {rounds : List (List SinkAction)} (h : Delivers s) (hwakes : Wakes s)
    (hclosed : s.queue.stats.closed = true) (hrounds : ∀ bs ∈ rounds, ∃ ok, .work ok ∈ bs)
    (hlen : 5 * (s.queue.stats.queued + 2) ≤ rounds.length) :
    (exec step s rounds.flatten).worker = .done := by
  obtain ⟨bs, cs, hsplit, hdone⟩ := worker_reaches (G := fun t => t.worker = .done)
    (fun t _ hle hkept hn => by
      obtain ⟨htclosed, haccepted⟩ := hkept hclosed
      exact ⟨⟨hle, .inr ⟨htclosed, by rw [haccepted]⟩⟩, hn⟩) h hwakes rfl hrounds hlen
  rw [hsplit, exec_append]
  exact (history_exec _ cs).2.2 hdone

/-- Every run delivers the accepted records in order, keeps its budgets, counts what it refuses,
drains after `stop`, and lets a flush return only behind its target. Enough steps of the worker
attempt all that was accepted and, after `stop`, end it. -/
theorem records_delivered (as : List SinkAction) :
    let s := run as
    let stats := s.queue.stats
    (s.accepted = s.handed ++ s.queue.waiting ∧ s.handed = s.attempted ++ s.inFlight) ∧
    (stats.accepted = s.accepted.length ∧ stats.completed = s.attempted.length ∧
      stats.accepted = stats.completed + stats.queued + (if stats.inFlight then 1 else 0)) ∧
    (stats.queued ≤ sinkQueueRecords ∧ stats.queuedBytes ≤ sinkQueueBytes ∧
      stats.queuedBytes = (s.queue.waiting.map (·.data.length)).sum) ∧
    (∀ buffer time, let p := s.buffers buffer
      let s' := s.step (.enqueue buffer time)
      (s'.accepted = s.accepted ++ [⟨p, time⟩] ∧ s'.queue.stats.dropped = stats.dropped ∧
        s'.queue.stats.droppedBytes = stats.droppedBytes) ∨
      (s'.accepted = s.accepted ∧ s'.queue.waiting = s.queue.waiting ∧
        s'.queue.stats.dropped = stats.dropped + 1 ∧
        s'.queue.stats.droppedBytes = stats.droppedBytes + p.length)) ∧
    (∀ bs, stats.closed = true → (run (as ++ bs)).accepted = s.accepted) ∧
    (s.worker = .cleaning ∨ s.worker = .done → s.attempted = s.accepted) ∧
    (∀ a, (s.step a).flushers.map (·.target)
      = s.flushers.map (·.target) ++ if a = .flush then [s.accepted.length] else []) ∧
    (∀ f ∈ s.flushers, f.point = .returned →
      f.target ≤ s.attempted.length ∧ s.accepted.take f.target = s.attempted.take f.target) ∧
    ∀ rounds : List (List SinkAction), (∀ bs ∈ rounds, ∃ ok, .work ok ∈ bs) →
      5 * (stats.queued + 2) ≤ rounds.length →
        let t := run (as ++ rounds.flatten)
        s.accepted <+: t.attempted ∧
          (stats.closed = true → t.worker = .done ∧ t.attempted = s.accepted) := by
  intro s stats
  have h : Delivers s := exec_invariant_forall (fun _ a hs => hs.step a) Delivers.init as
  have hwakes : Wakes s := exec_invariant_forall (fun _ a hs => hs.step a) nofun as
  have hclosed : ∀ bs, stats.closed = true → (run (as ++ bs)).accepted = s.accepted := by
    intro bs hc
    rw [run, exec_append]
    exact (closed_exec hc bs).2
  refine ⟨⟨h.order, h.calls⟩, ⟨h.accepted, h.completed, ?_⟩, ⟨h.records, h.budget, h.bytes⟩,
    s.enqueue_counted, hclosed, h.drained, targets_step h, ?_, ?_⟩
  · have hflight : s.inFlight.length = if stats.inFlight then 1 else 0 := by
      simp only [stats, h.flight, inFlight]
      split <;> rfl
    rw [h.accepted, h.length, hflight, h.completed]
    exact Nat.add_right_comm ..
  · intro f hf hreturned
    have hle := h.flushed f hf hreturned
    rw [h.completed] at hle
    exact ⟨hle, by rw [h.written, take_append_of_le_length hle]⟩
  · intro rounds hrounds hlen
    rw [run, exec_append]
    refine ⟨attempts_all h hwakes hrounds hlen, fun hc => ?_⟩
    have hdone := ends_when_stopped h hwakes hc hrounds hlen
    have ht : Delivers (exec step s rounds.flatten) :=
      exec_invariant_forall (fun _ a ht => ht.step a) h _
    exact ⟨hdone, (ht.drained (.inr hdone)).trans (closed_exec hc _).2⟩

/-- Two records, the buffer of the first changed after it was accepted, a failing sink and a
stop. -/
def loggedTwice : List SinkAction :=
  [.change 0 [65], .enqueue 0 1, .change 0 [66], .enqueue 0 2, .work true, .work false, .stop,
    .enqueue 0 3, .work true, .work true, .work true, .work true]

theorem records_delivered_loggedTwice :
    ((run loggedTwice).worker = .done ∧ (run loggedTwice).attempted = [⟨[65], 1⟩, ⟨[66], 2⟩]) ∧
    let s := run (loggedTwice.take 7)
    (s.worker = .top ∧ s.accepted = [⟨[65], 1⟩, ⟨[66], 2⟩] ∧ s.attempted = [⟨[65], 1⟩]) ∧
    let t := run (loggedTwice.take 7 ++ (replicate 15 [.work true]).flatten)
    s.accepted <+: t.attempted ∧ (s.queue.stats.closed = true → t.worker = .done ∧
      t.attempted = s.accepted) := by
  refine ⟨by decide, by decide, ?_⟩
  refine (records_delivered (loggedTwice.take 7)).2.2.2.2.2.2.2.2 _ ?_ (by decide)
  intro bs hbs
  rw [eq_of_mem_replicate hbs]
  exact ⟨true, mem_cons_self⟩

end SinkState

end TorrentHub
