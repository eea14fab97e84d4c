import TorrentHub.Usecase.Coordinator

namespace TorrentHub

open Lib List Coordinator Slot SlotPhase

def SlotPhase.standing : SlotPhase → Standing
  | .waiting | .settling => .waits
  | .taken | .checked | .reserved | .returning => .holds
  | .over => .gone

def SlotPhase.acquiring : SlotPhase → Bool
  | .waiting | .taken | .checked => true
  | _ => false

def Slot.use (slot : Slot) : Use String := ⟨slot.key, slot.entry, slot.phase.standing⟩

def CallPoint.working : CallPoint → Bool
  | .next | .entering | .awaiting _ => true
  | _ => false

namespace Coordinator

variable {c : Coordinator} {i j t g d : Nat} {slot : Slot} {keyCall : KeyCall} {p : SlotPhase}

section keys

theorem pairwise_skipRepeats {last : Option String} {keys : List String}
    (hsorted : keys.Pairwise (· ≤ ·)) (hlast : ∀ k ∈ last, ∀ key ∈ keys, k ≤ key) :
    (skipRepeats last keys).Pairwise (· < ·) ∧
      ∀ k ∈ last, ∀ key ∈ skipRepeats last keys, k < key := by
  induction keys generalizing last with
  | nil => exact ⟨Pairwise.nil, nofun⟩
  | cons key keys ih =>
    obtain ⟨hkey, hsorted⟩ := pairwise_cons.1 hsorted
    have hnext : ∀ k ∈ some key, ∀ key' ∈ keys, k ≤ key' := by
      intro k hk
      cases hk
      exact hkey
    obtain ⟨hrest, hless⟩ := ih hsorted hnext
    have hless : ∀ key' ∈ skipRepeats (some key) keys, key < key' := hless key rfl
    unfold skipRepeats
    split
    next heq =>
      refine ⟨hrest, fun k hk => ?_⟩
      rw [heq] at hk
      cases hk
      exact hless
    next hne =>
    refine ⟨pairwise_cons.2 ⟨hless, hrest⟩, fun k hk key' hkey' => ?_⟩
    have hlt : k < key := by
      refine lt_of_le_of_ne (hlast k hk key mem_cons_self) fun heq => hne ?_
      rw [← heq]
      exact hk
    rcases mem_cons.1 hkey' with rfl | hkey'
    · exact hlt
    · exact hlt.trans (hless key' hkey')

theorem pairwise_keys (request : AcquireRequest) : request.keys.Pairwise (· < ·) := by
  have hloop : ∀ keys : List String,
      (skipRepeats none (keys.insertionSort (· ≤ ·))).Pairwise (· < ·) := fun keys =>
    (pairwise_skipRepeats (pairwise_insertionSort (· ≤ ·) keys)
      fun k hk => absurd hk (Option.not_mem_none k)).1
  cases request with
  | acquire key | tryAcquire key | drainAcquire d key => exact pairwise_singleton _ _
  | acquireKeys keys => exact hloop keys
  | drainAcquireKeys d keys => exact hloop keys

end keys

structure Booked (c : Coordinator) : Prop where
  accounts : c.registry.Accounts (c.slots.map Slot.use)
  stopped : c.closed → c.cancelled
  drained : c.drainClosed → c.closed
  once : c.drainedCloses = if c.drainClosed then 1 else 0
  idle : c.closed → c.registry.refs = 0 → c.drainClosed
  issued : c.drainOwner = none → c.drains = []
  single : c.drains.length ≤ 1
  after : c.drains ≠ [] → c.drainClosed
  capable : ∀ slot ∈ c.slots, ∀ d, slot.mode = .drain d → d < c.drains.length
  finished : ∀ d drain, c.drains[d]? = some drain → drain.closed →
    ∀ slot ∈ c.slots, slot.mode = .drain d → slot.phase = .over

/-- The slots that a call holds have smaller keys than all that it has still to acquire, the one it
awaits has the next key, and an error is returned with nothing. -/
structure CallOk (slots : List Slot) (t : Nat) (call : KeyCall) : Prop where
  ordered : call.todo.Pairwise (· < ·)
  held : ∀ i ∈ call.held, ∃ slot, slots[i]? = some slot ∧
    (call.point.working → ∀ k ∈ call.todo, slot.key < k)
  awaits : ∀ i, call.point = .awaiting i →
    ∃ slot, slots[i]? = some slot ∧ call.todo.head? = some slot.key
  failed : call.point = .failed → call.held = []

/-- A slot that is not over is in the hands of its call only, and awaited by it while it is
undecided. -/
structure SlotOk (i : Nat) (slot : Slot) (call : KeyCall) : Prop where
  kept : slot.phase = .over ∨ i ∈ call.held ∨ call.point = .awaiting i
  current : slot.phase.acquiring → call.point = .awaiting i

structure Ordered (c : Coordinator) : Prop where
  slots : ∀ i slot, c.slots[i]? = some slot →
    ∃ call, c.calls[slot.caller]? = some call ∧ SlotOk i slot call
  calls : ∀ t call, c.calls[t]? = some call → CallOk c.slots t call

theorem booked_init : Booked {} :=
  ⟨Registry.Accounts.empty, nofun, nofun, rfl, nofun, fun _ => rfl, Nat.zero_le _,
    fun h => absurd rfl h, nofun, nofun⟩

theorem ordered_init : Ordered {} := ⟨nofun, nofun⟩

section booked

theorem mem_of_set (h : slot' ∈ c.slots.set i { slot with phase := p }) :
    slot' ∈ c.slots ∨ slot' = { slot with phase := p } := mem_or_eq_of_mem_set h

theorem Booked.withCalls (h : Booked c) (calls : List KeyCall) : Booked { c with calls } :=
  { h with }

theorem Booked.move {r : Registry String} (h : Booked c) (hi : c.slots[i]? = some slot)
    (hlive : slot.phase ≠ .over)
    (haccounts : r.Accounts ((c.slots.map use).set i { slot.use with standing := p.standing }))
    (hidle : c.closed → r.refs = 0 → c.drainClosed) :
    Booked { c with registry := r, slots := c.slots.set i { slot with phase := p } } where
  accounts := by
    change r.Accounts ((c.slots.set i { slot with phase := p }).map use)
    rw [map_set]
    exact haccounts
  stopped := h.stopped
  drained := h.drained
  once := h.once
  idle := hidle
  issued := h.issued
  single := h.single
  after := h.after
  capable := by
    intro slot' hs d hd
    rcases mem_of_set hs with hs | rfl
    · exact h.capable slot' hs d hd
    · exact h.capable slot (mem_of_getElem? hi) d hd
  finished := by
    intro d drain hdrain hclosed slot' hs hd
    rcases mem_of_set hs with hs | rfl
    · exact h.finished d drain hdrain hclosed slot' hs hd
    · exact absurd (h.finished d drain hdrain hclosed slot (mem_of_getElem? hi) hd) hlive

theorem getElem?_use (hi : c.slots[i]? = some slot) : (c.slots.map use)[i]? = some slot.use := by
  rw [getElem?_map, hi]
  rfl

section

variable (h : Booked c)
include h

theorem Booked.setPhase (hi : c.slots[i]? = some slot) (hlive : slot.phase ≠ .over)
    (hp : p.standing = slot.phase.standing) : Booked (c.setPhase i slot p) := by
  refine h.move hi hlive ?_ h.idle
  have huse : ({ slot.use with standing := p.standing } : Use String) = slot.use := by
    rw [hp]
    rfl
  obtain ⟨hlt, hget⟩ := List.getElem?_eq_some_iff.1 (getElem?_use hi)
  rw [huse, ← hget, set_getElem_self]
  exact h.accounts

theorem Booked.takePermit (i : Nat) : Booked (c.takePermit i) := by
  unfold Coordinator.takePermit
  split
  next slot hi =>
    split
    next hc =>
      refine h.move (p := .taken) hi (by rw [hc.1]; nofun) ?_ h.idle
      exact h.accounts.take (getElem?_use hi) (by simp [use, hc.1, standing]) hc.2
    · exact h
  · exact h

theorem Booked.giveUp (i : Nat) : Booked (c.giveUp i) := by
  unfold Coordinator.giveUp
  split
  next slot hi =>
    split
    next hc => exact h.setPhase hi (by rw [hc.1]; nofun) (by rw [hc.1]; rfl)
    · exact h
  · exact h

theorem Booked.unreference (hi : c.slots[i]? = some slot)
    (hs : slot.phase = .settling) : Booked (c.unreference i slot) := by
  have hstanding : slot.use.standing = .waits := by simp [use, hs, standing]
  have haccounts := h.accounts.unreference (getElem?_use hi) hstanding
  have hlive : slot.phase ≠ .over := by rw [hs]; nofun
  unfold Coordinator.unreference closeDrained
  dsimp only
  split
  next hc =>
    have hmoved := Booked.move (c := { c with drainClosed := true, drainedCloses := 1 })
      (p := .over) ⟨h.accounts, h.stopped, fun _ => hc.1, rfl, fun _ _ => rfl, h.issued, h.single,
        fun _ => rfl, h.capable, h.finished⟩ hi hlive haccounts fun _ _ => rfl
    have hzero : c.drainedCloses = 0 := by
      rw [h.once, hc.2.2]
      rfl
    rw [hzero]
    exact hmoved
  next hc =>
  refine h.move hi hlive haccounts fun hclosed hrefs => ?_
  by_contra hopen
  exact hc ⟨hclosed, hrefs, by simpa using hopen⟩

theorem Booked.attend (i : Nat) : Booked (c.attend i) := by
  unfold Coordinator.attend
  split
  · exact h
  next slot hi =>
  split
  next hp =>
    refine h.setPhase hi (by rw [hp]; nofun) ?_
    rw [hp]
    split <;> rfl
  next hp =>
    refine h.setPhase hi (by rw [hp]; nofun) ?_
    rw [hp]
    split <;> rfl
  next hp =>
    split
    · exact h
    refine h.move (p := .settling) hi (by rw [hp]; nofun) ?_ h.idle
    exact h.accounts.give (getElem?_use hi) (by simp [use, hp, standing])
  next hp => exact h.unreference hi hp
  · exact h

theorem Booked.release (i : Nat) : Booked (c.release i) := by
  unfold Coordinator.release
  split
  next slot hi =>
    split
    · split
      next hc => exact h.setPhase hi (by rw [hc.1]; nofun) (by rw [hc.1]; rfl)
      · exact h
    · exact h
  · exact h

end

theorem lt_of_drainValid (h : c.drainValid d) :
    ∃ drain, c.drains[d]? = some drain ∧ drain.closed = false := by
  unfold drainValid at h
  split at h
  next drain hd =>
    have hopen := (Bool.and_eq_true_iff.1 h).1
    exact ⟨drain, hd, by simpa using hopen⟩
  · cases h

theorem Booked.reference {key : String} (h : Booked c) (hadmits : c.admits keyCall.mode) :
    Booked (c.reference t keyCall key) where
  accounts := by
    change Registry.Accounts _ ((c.slots ++ [Slot.mk key _ keyCall.mode t .waiting]).map Slot.use)
    rw [map_append]
    exact h.accounts.reference key
  stopped := h.stopped
  drained := h.drained
  once := h.once
  idle := by
    intro hclosed hrefs
    cases hm : keyCall.mode with
    | plain | trying => simp [admits, hm, show c.closed = true from hclosed] at hadmits
    | drain d =>
      rw [hm, admits, Bool.and_eq_true] at hadmits
      obtain ⟨drain, hd, -⟩ := lt_of_drainValid hadmits.2
      exact h.after fun hnil => by simp [hnil] at hd
  issued := h.issued
  single := h.single
  after := h.after
  capable := by
    intro slot hs d hd
    rcases mem_append.1 hs with hs | hs
    · exact h.capable slot hs d hd
    rw [mem_singleton.1 hs] at hd
    rw [show keyCall.mode = .drain d from hd, admits, Bool.and_eq_true] at hadmits
    obtain ⟨drain, hget, -⟩ := lt_of_drainValid hadmits.2
    exact (List.getElem?_eq_some_iff.1 hget).1
  finished := by
    intro d drain hdrain hclosed slot hs hd
    rcases mem_append.1 hs with hs | hs
    · exact h.finished d drain hdrain hclosed slot hs hd
    rw [mem_singleton.1 hs] at hd
    rw [show keyCall.mode = .drain d from hd, admits, Bool.and_eq_true] at hadmits
    obtain ⟨drain', hget, hopen⟩ := lt_of_drainValid hadmits.2
    rw [show c.drains[d]? = some drain from hdrain] at hget
    cases hget
    rw [hopen] at hclosed
    cases hclosed

theorem Booked.advance (h : Booked c) (t : Nat) : Booked (c.advance t) := by
  unfold Coordinator.advance
  split
  · exact h
  next keyCall hcall =>
  split
  · split
    · exact h.withCalls _
    split
    · exact h.withCalls _
    · exact h.withCalls _
  · split
    · exact h
    next key _ _ =>
    split
    next hadmits => exact h.reference hadmits
    · exact h.withCalls _
  next i _ =>
    split
    · exact h
    next slot hi =>
    split
    · exact h.withCalls _
    · exact h.withCalls _
    · exact h
  · split
    · exact h.withCalls _
    next i _ =>
    split
    · exact h
    next slot hi =>
    split
    next hp => exact h.setPhase hi (by rw [hp]; nofun) (by rw [hp]; rfl)
    · exact h.withCalls _
    · exact h
  · exact h
  · exact h

theorem Booked.close (h : Booked c) : Booked c.close := by
  unfold Coordinator.close
  split
  · exact h
  next hopen =>
  have hdrain : c.drainClosed = false := by
    by_contra hd
    exact hopen (h.drained (by simpa using hd))
  have hnone : c.drainedCloses = 0 := by
    rw [h.once, hdrain]
    rfl
  unfold closeDrained
  dsimp only
  split
  · rw [hnone]
    exact ⟨h.accounts, fun _ => rfl, fun _ => rfl, rfl, fun _ _ => rfl, h.issued, h.single,
      fun _ => rfl, h.capable, h.finished⟩
  next hc =>
  refine ⟨h.accounts, fun _ => rfl, fun _ => rfl, h.once, fun _ hrefs => ?_, h.issued,
    h.single, h.after, h.capable, h.finished⟩
  exact absurd ⟨rfl, hrefs, hdrain⟩ hc

theorem Booked.issueDrain (h : Booked c) : Booked c.issueDrain := by
  unfold Coordinator.issueDrain
  split
  next hc =>
    have hnil := h.issued hc.2
    refine ⟨h.accounts, h.stopped, h.drained, h.once, h.idle, nofun, ?_, fun _ => hc.1, ?_, ?_⟩
    · simp [hnil]
    · intro slot hs d hd
      have := h.capable slot hs d hd
      simp [hnil] at this
    · intro d drain hdrain hclosed slot hs hd
      have := h.capable slot hs d hd
      simp [hnil] at this
  · exact h

theorem Booked.setDrain {drain drain' : CoordinatorDrain} (h : Booked c)
    (hd : c.drains[d]? = some drain)
    (hover : drain'.closed → ∀ slot ∈ c.slots, slot.mode = .drain d → slot.phase = .over) :
    Booked { c with drains := c.drains.set d drain' } where
  accounts := h.accounts
  stopped := h.stopped
  drained := h.drained
  once := h.once
  idle := h.idle
  issued := by
    intro hnone
    have hnil := h.issued hnone
    simp [hnil] at hd
  single := by
    change (c.drains.set d drain').length ≤ 1
    rw [length_set]
    exact h.single
  after := by
    intro _
    exact h.after fun hnil => by simp [hnil] at hd
  capable := by
    intro slot hs d' hd'
    change d' < (c.drains.set d drain').length
    rw [length_set]
    exact h.capable slot hs d' hd'
  finished := by
    intro d' other hother hclosed slot hs hd'
    change (c.drains.set d drain')[d']? = some other at hother
    by_cases heq : d = d'
    · subst heq
      rw [List.getElem?_set_self (List.getElem?_eq_some_iff.1 hd).1] at hother
      cases hother
      exact hover hclosed slot hs hd'
    · rw [getElem?_set_ne heq] at hother
      exact h.finished d' other hother hclosed slot hs hd'

theorem Booked.over_of_refs (h : Booked c) (hrefs : c.registry.refs = 0) (hs : slot ∈ c.slots) :
    slot.phase = .over := by
  have hgone := h.accounts.gone_of_refs hrefs (mem_map_of_mem hs)
  cases hp : slot.phase <;> simp [use, hp, standing] at hgone
  rfl

theorem Booked.step (h : Booked c) (a : CoordinatorAction) : Booked (c.step a) := by
  cases a with
  | call goroutine request => exact h.withCalls _
  | cancelCall t =>
    simp only [Coordinator.step]
    split
    · exact h.withCalls _
    · exact h
  | advance t => exact h.advance t
  | takePermit i => exact h.takePermit i
  | giveUp i => exact h.giveUp i
  | attend i => exact h.attend i
  | release i => exact h.release i
  | cancelParent =>
    exact ⟨h.accounts, fun _ => rfl, h.drained, h.once, h.idle, h.issued, h.single, h.after,
      h.capable, h.finished⟩
  | close => exact h.close
  | issueDrain => exact h.issueDrain
  | cancelDrain d =>
    simp only [Coordinator.step]
    split
    next drain hd => exact h.setDrain hd fun hclosed => h.finished d drain hd hclosed
    · exact h
  | finish d =>
    simp only [Coordinator.step, finish]
    split
    next drain hd =>
      split
      · exact h
      next hrefs => refine h.setDrain hd fun _ slot hs _ => h.over_of_refs (by simpa using hrefs) hs
    · exact h

theorem run_booked (as : List CoordinatorAction) : Booked (run as) :=
  exec_invariant_forall (fun _ a h => h.step a) booked_init as

end booked

section ordered

theorem CallOk.of_keys {slots slots' : List Slot} (h : CallOk slots t keyCall)
    (hkeys : ∀ (i : Nat) (slot : Slot), slots[i]? = some slot →
      ∃ slot' : Slot, slots'[i]? = some slot' ∧ slot'.key = slot.key) :
    CallOk slots' t keyCall where
  ordered := h.ordered
  held := by
    intro i hi
    obtain ⟨slot, hslot, hless⟩ := h.held i hi
    obtain ⟨slot', hslot', hkey⟩ := hkeys i slot hslot
    exact ⟨slot', hslot', fun hw k hk => hkey ▸ hless hw k hk⟩
  awaits := by
    intro i hi
    obtain ⟨slot, hslot, hhead⟩ := h.awaits i hi
    obtain ⟨slot', hslot', hkey⟩ := hkeys i slot hslot
    exact ⟨slot', hslot', hkey ▸ hhead⟩
  failed := h.failed

theorem exists_key_set (hi : c.slots[i]? = some slot) (p : SlotPhase) (j : Nat) (slot' : Slot)
    (hj : c.slots[j]? = some slot') :
    ∃ slot'', (c.slots.set i { slot with phase := p })[j]? = some slot'' ∧
      slot''.key = slot'.key := by
  by_cases hij : i = j
  · subst hij
    rw [hi] at hj
    cases hj
    exact ⟨_, List.getElem?_set_self (List.getElem?_eq_some_iff.1 hi).1, rfl⟩
  · exact ⟨slot', by rw [getElem?_set_ne hij, hj], rfl⟩

theorem Ordered.rephase {c' : Coordinator} (h : Ordered c) (hi : c.slots[i]? = some slot)
    (hlive : slot.phase ≠ .over) (hacq : p.acquiring → slot.phase.acquiring)
    (hslots : c'.slots = c.slots.set i { slot with phase := p }) (hcalls : c'.calls = c.calls) :
    Ordered c' where
  slots := by
    intro j slot' hj
    rw [hslots] at hj
    rw [hcalls]
    by_cases hij : i = j
    · subst hij
      rw [List.getElem?_set_self (List.getElem?_eq_some_iff.1 hi).1] at hj
      cases hj
      obtain ⟨keyCall, hcall, hok⟩ := h.slots i slot hi
      refine ⟨keyCall, hcall, .inr (hok.kept.resolve_left hlive), fun ha => hok.current (hacq ha)⟩
    · rw [getElem?_set_ne hij] at hj
      exact h.slots j slot' hj
  calls := by
    intro t keyCall hcall
    rw [hcalls] at hcall
    rw [hslots]
    exact (h.calls t keyCall hcall).of_keys (exists_key_set hi p)

theorem Ordered.setCall (h : Ordered c) (ht : c.calls[t]? = some keyCall)
    (hslots : ∀ i slot, c.slots[i]? = some slot → SlotOk i slot keyCall → SlotOk i slot keyCall')
    (hcall : CallOk c.slots t keyCall') : Ordered (c.setCall t keyCall') where
  slots := by
    intro i slot hi
    change c.slots[i]? = some slot at hi
    obtain ⟨other, hother, hok⟩ := h.slots i slot hi
    change ∃ call, (c.calls.set t keyCall')[slot.caller]? = some call ∧ _
    by_cases heq : t = slot.caller
    · subst heq
      rw [ht] at hother
      cases hother
      refine ⟨keyCall', List.getElem?_set_self (List.getElem?_eq_some_iff.1 ht).1, ?_⟩
      exact hslots i slot hi hok
    · exact ⟨other, by rw [getElem?_set_ne heq, hother], hok⟩
  calls := by
    intro t' call hget
    change (c.calls.set t keyCall')[t']? = some call at hget
    by_cases heq : t = t'
    · subst heq
      rw [List.getElem?_set_self (List.getElem?_eq_some_iff.1 ht).1] at hget
      cases hget
      exact hcall
    · rw [getElem?_set_ne heq] at hget
      exact h.calls t' call hget

theorem Ordered.goto {q : CallPoint} (h : Ordered c) (ht : c.calls[t]? = some keyCall)
    (hfrom : ∀ i, keyCall.point ≠ .awaiting i) (hto : ∀ i, q ≠ .awaiting i)
    (hwork : q.working → keyCall.point.working) (hfail : q = .failed → keyCall.held = []) :
    Ordered (c.setCall t { keyCall with point := q }) := by
  have hcall := h.calls t keyCall ht
  refine h.setCall ht (fun i slot _ hok => ⟨?_, ?_⟩) ⟨hcall.ordered, ?_, ?_, hfail⟩
  · rcases hok.kept with hover | hheld | hawait
    · exact .inl hover
    · exact .inr (.inl hheld)
    · exact absurd hawait (hfrom i)
  · intro ha
    exact absurd (hok.current ha) (hfrom i)
  · intro i hi
    obtain ⟨slot, hslot, hless⟩ := hcall.held i hi
    exact ⟨slot, hslot, fun hw => hless (hwork hw)⟩
  · intro i hi
    exact absurd hi (hto i)

theorem Ordered.reference {key : String} {rest : List String} (h : Ordered c)
    (ht : c.calls[t]? = some keyCall) (hpoint : keyCall.point = .entering)
    (htodo : keyCall.todo = key :: rest) : Ordered (c.reference t keyCall key) := by
  have hcall := h.calls t keyCall ht
  have hlen := (List.getElem?_eq_some_iff.1 ht).1
  have hold : ∀ (j : Nat) (slot' : Slot), c.slots[j]? = some slot' → ∀ new : Slot,
      ∃ slot'' : Slot, (c.slots ++ [new])[j]? = some slot'' ∧ slot''.key = slot'.key := by
    intro j slot' hj new
    exact ⟨slot', by rw [List.getElem?_append_left (List.getElem?_eq_some_iff.1 hj).1, hj], rfl⟩
  constructor
  · intro j slot' hj
    change (c.slots ++ [_])[j]? = some slot' at hj
    change ∃ call, (c.calls.set t _)[slot'.caller]? = some call ∧ _
    rcases Nat.lt_or_ge j c.slots.length with hlt | hge
    · rw [List.getElem?_append_left hlt] at hj
      obtain ⟨other, hother, hok⟩ := h.slots j slot' hj
      by_cases heq : t = slot'.caller
      · subst heq
        rw [ht] at hother
        cases hother
        refine ⟨_, List.getElem?_set_self hlen, ?_, ?_⟩
        · rcases hok.kept with hover | hheld | hawait
          · exact .inl hover
          · exact .inr (.inl hheld)
          · rw [hpoint] at hawait
            cases hawait
        · intro ha
          have := hok.current ha
          rw [hpoint] at this
          cases this
      · exact ⟨other, by rw [List.getElem?_set_ne heq, hother], hok⟩
    · rw [List.getElem?_append_right hge] at hj
      obtain ⟨hzero, hget⟩ := List.getElem?_eq_some_iff.1 hj
      have hj : j = c.slots.length := by
        rw [List.length_singleton] at hzero
        omega
      subst hj
      simp only [Nat.sub_self, List.getElem_cons_zero] at hget
      subst hget
      exact ⟨_, List.getElem?_set_self hlen, .inr (.inr rfl), fun _ => rfl⟩
  · intro t' call hget
    change (c.calls.set t _)[t']? = some call at hget
    change CallOk (c.slots ++ [_]) t' call
    by_cases heq : t = t'
    · subst heq
      rw [List.getElem?_set_self hlen] at hget
      cases hget
      have hworking : keyCall.point.working = true := by rw [hpoint]; rfl
      refine ⟨hcall.ordered, ?_, ?_, nofun⟩
      · intro i hi
        obtain ⟨slot, hslot, hless⟩ := hcall.held i hi
        obtain ⟨slot', hslot', hkey⟩ := hold i slot hslot _
        exact ⟨slot', hslot', fun _ k hk => hkey ▸ hless hworking k hk⟩
      intro i hi
      cases hi
      refine ⟨_, List.getElem?_concat_length, ?_⟩
      rw [htodo]
      rfl
    · rw [List.getElem?_set_ne heq] at hget
      exact (h.calls t' call hget).of_keys fun j slot' hj => hold j slot' hj _

section

variable (h : Ordered c) (ht : c.calls[t]? = some keyCall) (hpoint : keyCall.point = .awaiting i)
  (hi : c.slots[i]? = some slot)
include h ht hpoint hi

theorem Ordered.accept (hp : slot.phase = .reserved) : Ordered (c.setCall t
      { keyCall with held := keyCall.held ++ [i], todo := keyCall.todo.tail, point := .next }) := by
  have hcall := h.calls t keyCall ht
  have hworking : keyCall.point.working = true := by rw [hpoint]; rfl
  obtain ⟨slot', hslot', hhead⟩ := hcall.awaits i hpoint
  rw [hi] at hslot'
  cases hslot'
  obtain ⟨rest, htodo⟩ : ∃ rest, keyCall.todo = slot.key :: rest := by
    cases htodo : keyCall.todo with
    | nil => simp [htodo] at hhead
    | cons k rest =>
      rw [htodo, head?_cons] at hhead
      cases hhead
      exact ⟨rest, rfl⟩
  have hordered := hcall.ordered
  rw [htodo] at hordered
  obtain ⟨hless, hrest⟩ := pairwise_cons.1 hordered
  refine h.setCall ht (fun j other hj hok => ⟨?_, ?_⟩) ⟨?_, ?_, nofun, nofun⟩
  · rcases hok.kept with hover | hheld | hawait
    · exact .inl hover
    · exact .inr (.inl (mem_append_left _ hheld))
    · rw [hpoint] at hawait
      cases hawait
      exact .inr (.inl (mem_append_right _ (mem_singleton.2 rfl)))
  · intro ha
    have hawait := hok.current ha
    rw [hpoint] at hawait
    cases hawait
    rw [hi] at hj
    cases hj
    rw [hp] at ha
    cases ha
  · rw [htodo]
    exact hrest
  · intro j hj
    rw [htodo]
    rcases mem_append.1 hj with hj | hj
    · obtain ⟨other, hother, hbefore⟩ := hcall.held j hj
      refine ⟨other, hother, fun _ k hk => hbefore hworking k ?_⟩
      rw [htodo]
      exact mem_cons_of_mem _ hk
    · rw [mem_singleton.1 hj]
      exact ⟨slot, hi, fun _ => hless⟩

theorem Ordered.reject (hp : slot.phase = .over) :
    Ordered (c.setCall t { keyCall with point := .failing }) := by
  have hcall := h.calls t keyCall ht
  refine h.setCall ht (fun j other hj hok => ⟨?_, ?_⟩) ⟨hcall.ordered, ?_, nofun, nofun⟩
  · rcases hok.kept with hover | hheld | hawait
    · exact .inl hover
    · exact .inr (.inl hheld)
    · rw [hpoint] at hawait
      cases hawait
      rw [hi] at hj
      cases hj
      exact .inl hp
  · intro ha
    have hawait := hok.current ha
    rw [hpoint] at hawait
    cases hawait
    rw [hi] at hj
    cases hj
    rw [hp] at ha
    cases ha
  · intro j hj
    obtain ⟨other, hother, -⟩ := hcall.held j hj
    exact ⟨other, hother, nofun⟩

end

theorem Ordered.drop (h : Ordered c) (ht : c.calls[t]? = some keyCall)
    (hpoint : keyCall.point = .failing) (hlast : keyCall.held.getLast? = some i)
    (hi : c.slots[i]? = some slot) (hp : slot.phase = .over) :
    Ordered (c.setCall t { keyCall with held := keyCall.held.dropLast }) := by
  have hcall := h.calls t keyCall ht
  refine h.setCall ht (fun j other hj hok => ⟨?_, hok.current⟩) ⟨hcall.ordered, ?_, ?_, ?_⟩
  · rcases hok.kept with hover | hheld | hawait
    · exact .inl hover
    · rw [← dropLast_append_getLast? i hlast] at hheld
      rcases mem_append.1 hheld with hheld | hheld
      · exact .inr (.inl hheld)
      rw [mem_singleton.1 hheld, hi] at hj
      cases hj
      exact .inl hp
    · exact .inr (.inr hawait)
  · intro j hj
    obtain ⟨other, hother, hless⟩ := hcall.held j (dropLast_subset _ hj)
    exact ⟨other, hother, hless⟩
  · exact hcall.awaits
  · intro hfailed
    have hfailed : keyCall.point = .failed := hfailed
    rw [hpoint] at hfailed
    cases hfailed

theorem Ordered.advance (h : Ordered c) (t : Nat) : Ordered (c.advance t) := by
  unfold Coordinator.advance
  split
  · exact h
  next keyCall ht =>
  split
  next hpoint =>
    have hfrom : ∀ i, keyCall.point ≠ .awaiting i := by
      rw [hpoint]
      nofun
    split
    · exact h.goto ht hfrom nofun nofun nofun
    split
    · exact h.goto ht hfrom nofun nofun nofun
    · exact h.goto ht hfrom nofun (fun _ => by rw [hpoint]; rfl) nofun
  next hpoint =>
    have hfrom : ∀ i, keyCall.point ≠ .awaiting i := by
      rw [hpoint]
      nofun
    split
    · exact h
    next key rest htodo =>
    split
    · exact h.reference ht hpoint htodo
    · exact h.goto ht hfrom nofun nofun nofun
  next i hpoint =>
    split
    · exact h
    next slot hi =>
    split
    next hp => exact h.accept ht hpoint hi hp
    next hp => exact h.reject ht hpoint hi hp
    · exact h
  next hpoint =>
    have hfrom : ∀ i, keyCall.point ≠ .awaiting i := by
      rw [hpoint]
      nofun
    split
    next hlast => exact h.goto ht hfrom nofun nofun fun _ => getLast?_eq_none_iff.1 hlast
    next i hlast =>
    split
    · exact h
    next slot hi =>
    split
    next hp => exact h.rephase (p := .returning) hi (by rw [hp]; nofun) nofun rfl rfl
    next hp => exact h.drop ht hpoint hlast hi hp
    · exact h
  · exact h
  · exact h

theorem Ordered.call (h : Ordered c) (g : Nat) (request : AcquireRequest) :
    Ordered (c.call g request) where
  slots := by
    intro i slot hi
    obtain ⟨other, hother, hok⟩ := h.slots i slot hi
    refine ⟨other, ?_, hok⟩
    change (c.calls ++ [_])[slot.caller]? = some other
    rw [List.getElem?_append_left (List.getElem?_eq_some_iff.1 hother).1, hother]
  calls := by
    intro t call hget
    change (c.calls ++ [_])[t]? = some call at hget
    rcases Nat.lt_or_ge t c.calls.length with hlt | hge
    · rw [getElem?_append_left hlt] at hget
      exact h.calls t call hget
    have hmem := mem_singleton.1 (mem_of_getElem? (getElem?_append_right hge ▸ hget))
    rw [hmem]
    exact ⟨pairwise_keys request, nofun, nofun, nofun⟩

theorem Ordered.congr {c' : Coordinator} (h : Ordered c) (hslots : c'.slots = c.slots)
    (hcalls : c'.calls = c.calls) : Ordered c' :=
  ⟨by rw [hslots, hcalls]; exact h.slots, by rw [hslots, hcalls]; exact h.calls⟩

theorem closeDrained_slots (c : Coordinator) : c.closeDrained.slots = c.slots := by
  unfold closeDrained
  split <;> rfl

theorem closeDrained_calls (c : Coordinator) : c.closeDrained.calls = c.calls := by
  unfold closeDrained
  split <;> rfl

theorem Ordered.attend (h : Ordered c) (i : Nat) : Ordered (c.attend i) := by
  unfold Coordinator.attend
  split
  · exact h
  next slot hi =>
  split
  next hp => exact h.rephase hi (by rw [hp]; nofun) (fun _ => by rw [hp]; rfl) rfl rfl
  next hp => exact h.rephase hi (by rw [hp]; nofun) (fun _ => by rw [hp]; rfl) rfl rfl
  next hp =>
    split
    · exact h
    · exact h.rephase (p := .settling) hi (by rw [hp]; nofun) nofun rfl rfl
  next hp =>
    exact h.rephase (p := .over) hi (by rw [hp]; nofun) nofun (closeDrained_slots _)
      (closeDrained_calls _)
  · exact h

theorem Ordered.step (h : Ordered c) (a : CoordinatorAction) : Ordered (c.step a) := by
  cases a with
  | call goroutine request => exact h.call goroutine request
  | cancelCall t =>
    simp only [Coordinator.step]
    split
    next keyCall ht =>
      have hcall := h.calls t keyCall ht
      exact h.setCall ht (fun i slot _ hok => ⟨hok.kept, hok.current⟩)
        ⟨hcall.ordered, hcall.held, hcall.awaits, hcall.failed⟩
    · exact h
  | advance t => exact h.advance t
  | takePermit i =>
    simp only [Coordinator.step, Coordinator.takePermit]
    split
    next slot hi =>
      split
      next hc =>
        exact h.rephase (p := .taken) hi (by rw [hc.1]; nofun) (fun _ => by rw [hc.1]; rfl) rfl rfl
      · exact h
    · exact h
  | giveUp i =>
    simp only [Coordinator.step, Coordinator.giveUp]
    split
    next slot hi =>
      split
      next hc => exact h.rephase (p := .settling) hi (by rw [hc.1]; nofun) nofun rfl rfl
      · exact h
    · exact h
  | attend i => exact h.attend i
  | release i =>
    simp only [Coordinator.step, Coordinator.release]
    split
    next slot hi =>
      split
      · split
        next hc => exact h.rephase (p := .returning) hi (by rw [hc.1]; nofun) nofun rfl rfl
        · exact h
      · exact h
    · exact h
  | cancelParent => exact h.congr rfl rfl
  | close =>
    simp only [Coordinator.step, Coordinator.close]
    split
    · exact h
    · exact h.congr (closeDrained_slots _) (closeDrained_calls _)
  | issueDrain =>
    simp only [Coordinator.step, Coordinator.issueDrain]
    split
    · exact h.congr rfl rfl
    · exact h
  | cancelDrain d =>
    simp only [Coordinator.step]
    split
    · exact h.congr rfl rfl
    · exact h
  | finish d =>
    simp only [Coordinator.step, finish]
    split
    · split
      · exact h
      · exact h.congr rfl rfl
    · exact h

theorem run_ordered (as : List CoordinatorAction) : Ordered (run as) :=
  exec_invariant_forall (fun _ a h => h.step a) ordered_init as

end ordered

end Coordinator

end TorrentHub
