import Mathlib.Data.List.Induction
import TorrentHub.Usecase.KeyOrder

namespace TorrentHub

open Lib List Slot SlotPhase

namespace Coordinator

variable {c : Coordinator} {i j t g g' d : Nat} {slot slot' : Slot} {p : SlotPhase}

def goroutineOf (c : Coordinator) (slot : Slot) : Option Nat :=
  (c.calls[slot.caller]?).map (·.goroutine)

def WaitsOn (c : Coordinator) (g : Nat) (key : String) : Prop :=
  ∃ (i : Nat) (slot : Slot), c.slots[i]? = some slot ∧ slot.phase = .waiting ∧
    c.goroutineOf slot = some g ∧ slot.key = key

def Holds (c : Coordinator) (g : Nat) (key : String) : Prop :=
  ∃ (j : Nat) (slot : Slot), c.slots[j]? = some slot ∧ slot.phase.standing = .holds ∧
    c.goroutineOf slot = some g ∧ slot.key = key

def WaitsFor (c : Coordinator) (g g' : Nat) : Prop := ∃ key, c.WaitsOn g key ∧ c.Holds g' key

def OneSet (c : Coordinator) : Prop :=
  ∀ slot ∈ c.slots, ∀ slot' ∈ c.slots, slot.phase ≠ .over → slot'.phase ≠ .over →
    c.goroutineOf slot = c.goroutineOf slot' → slot.caller = slot'.caller

section waiting

theorem ne_over_of_holds (h : p.standing = .holds) : p ≠ .over := by
  rintro rfl
  cases h

theorem WaitsOn.unique {key key' : String} (ho : Ordered c) (hone : c.OneSet)
    (h : c.WaitsOn g key) (h' : c.WaitsOn g key') : key = key' := by
  obtain ⟨i, slot, hi, hp, hg, rfl⟩ := h
  obtain ⟨j, slot', hj, hp', hg', rfl⟩ := h'
  have hcaller := hone slot (mem_of_getElem? hi) slot' (mem_of_getElem? hj)
    (by rw [hp]; nofun) (by rw [hp']; nofun) (hg.trans hg'.symm)
  obtain ⟨call, hcall, hok⟩ := ho.slots i slot hi
  obtain ⟨call', hcall', hok'⟩ := ho.slots j slot' hj
  rw [hcaller, hcall'] at hcall
  cases hcall
  have hpoint := hok.current (by rw [hp]; rfl)
  rw [hok'.current (by rw [hp']; rfl)] at hpoint
  cases hpoint
  rw [hi] at hj
  cases hj
  rfl

theorem Holds.lt {key key' : String} (ho : Ordered c) (hone : c.OneSet)
    (h : c.Holds g key) (h' : c.WaitsOn g key') : key < key' := by
  obtain ⟨j, slot, hj, hp, hg, rfl⟩ := h
  obtain ⟨i, slot', hi, hp', hg', rfl⟩ := h'
  have hcaller := hone slot (mem_of_getElem? hj) slot' (mem_of_getElem? hi)
    (ne_over_of_holds hp) (by rw [hp']; nofun) (hg.trans hg'.symm)
  obtain ⟨call, hcall, hok⟩ := ho.slots j slot hj
  obtain ⟨call', hcall', hok'⟩ := ho.slots i slot' hi
  rw [hcaller, hcall'] at hcall
  cases hcall
  have hpoint := hok'.current (by rw [hp']; rfl)
  have hcallOk := ho.calls _ _ hcall'
  obtain ⟨next, hnext, hhead⟩ := hcallOk.awaits i hpoint
  rw [hi] at hnext
  cases hnext
  rcases hok.kept with hover | hheld | hawait
  · exact absurd hover (ne_over_of_holds hp)
  · obtain ⟨other, hother, hless⟩ := hcallOk.held j hheld
    rw [hj] at hother
    cases hother
    exact hless (by rw [hpoint]; rfl) slot'.key (mem_of_head? hhead)
  · rw [hpoint] at hawait
    cases hawait
    rw [hi] at hj
    cases hj
    rw [hp'] at hp
    cases hp

theorem WaitsFor.transGen_lt (ho : Ordered c) (hone : c.OneSet)
    (h : Relation.TransGen c.WaitsFor g g') :
    ∀ key', c.WaitsOn g' key' → ∃ key, c.WaitsOn g key ∧ key < key' := by
  induction h with
  | single hedge =>
    obtain ⟨key, hwait, hhold⟩ := hedge
    exact fun key' hwait' => ⟨key, hwait, hhold.lt ho hone hwait'⟩
  | tail _ hedge ih =>
    obtain ⟨key, hwait, hhold⟩ := hedge
    intro key' hwait'
    obtain ⟨first, hfirst, hlt⟩ := ih key hwait
    exact ⟨first, hfirst, hlt.trans (hhold.lt ho hone hwait')⟩

theorem WaitsFor.acyclic (ho : Ordered c) (hone : c.OneSet) (g : Nat) :
    ¬ Relation.TransGen c.WaitsFor g g := by
  intro hcycle
  obtain ⟨_, ⟨key, hwait, _⟩, _⟩ := Relation.TransGen.head'_iff.1 hcycle
  obtain ⟨key', hwait', hlt⟩ := WaitsFor.transGen_lt ho hone hcycle key hwait
  exact absurd (hwait'.unique ho hone hwait) (ne_of_lt hlt)

end waiting

section grants

theorem reserved_of_set (hp : p ≠ .reserved)
    (h : (c.slots.set i { slot with phase := p })[j]? = some slot') (hr : slot'.phase = .reserved) :
    c.slots[j]? = some slot' := by
  by_cases hij : i = j
  · subst hij
    obtain ⟨hlt, hget⟩ := List.getElem?_eq_some_iff.1 h
    rw [getElem_set_self] at hget
    subst hget
    exact absurd hr hp
  · rwa [getElem?_set_ne hij] at h

theorem reserved_of_advance (h : (c.advance t).slots[j]? = some slot')
    (hr : slot'.phase = .reserved) : c.slots[j]? = some slot' := by
  unfold advance at h
  split at h
  · exact h
  next keyCall ht =>
  split at h
  · split at h
    · exact h
    · split at h <;> exact h
  · split at h
    · exact h
    next key _ _ =>
    split at h
    · rcases Nat.lt_or_ge j c.slots.length with hlt | hge
      · exact (getElem?_append_left hlt).symm.trans h
      have hnew := mem_singleton.1 (mem_of_getElem? ((getElem?_append_right hge).symm.trans h))
      rw [hnew] at hr
      cases hr
    · exact h
  · split at h
    · exact h
    · split at h <;> exact h
  · split at h
    · exact h
    split at h
    · exact h
    split at h
    · exact reserved_of_set (p := .returning) nofun h hr
    · exact h
    · exact h
  · exact h
  · exact h

theorem reserved_of_attend (h : (c.attend i).slots[j]? = some slot')
    (hr : slot'.phase = .reserved) : c.slots[j]? = some slot' ∨
      ∃ slot, slot.mode = slot'.mode ∧ c.secondCheck slot := by
  unfold attend at h
  split at h
  · exact .inl h
  next slot hi =>
  split at h
  · refine .inl (reserved_of_set ?_ h hr)
    split <;> nofun
  · by_cases hcheck : c.secondCheck slot
    · by_cases hij : i = j
      · subst hij
        obtain ⟨hlt, hget⟩ := List.getElem?_eq_some_iff.1 h
        have hget := hget
        simp only [setPhase, getElem_set_self] at hget
        exact .inr ⟨slot, by rw [← hget], hcheck⟩
      · exact .inl (by rwa [setPhase, getElem?_set_ne hij] at h)
    · rw [if_neg hcheck] at h
      exact .inl (reserved_of_set (p := .returning) nofun h hr)
  · split at h
    · exact .inl h
    · exact .inl (reserved_of_set (p := .settling) nofun h hr)
  · rw [unreference, closeDrained_slots] at h
    exact .inl (reserved_of_set (p := .over) nofun h hr)
  · exact .inl h

theorem reserved_of_step (h : (c.step a).slots[j]? = some slot') (hr : slot'.phase = .reserved) :
    c.slots[j]? = some slot' ∨ ∃ slot, slot.mode = slot'.mode ∧ c.secondCheck slot := by
  cases a with
  | call goroutine request | cancelParent => exact .inl h
  | cancelCall t | cancelDrain d =>
    simp only [step] at h
    split at h <;> exact .inl h
  | advance t => exact .inl (reserved_of_advance h hr)
  | takePermit i =>
    simp only [step, takePermit] at h
    split at h
    · split at h
      · exact .inl (reserved_of_set (p := .taken) (by simp) h hr)
      · exact .inl h
    · exact .inl h
  | giveUp i =>
    simp only [step, giveUp] at h
    split at h
    · split at h
      · exact .inl (reserved_of_set (p := .settling) (by simp) h hr)
      · exact .inl h
    · exact .inl h
  | attend i => exact reserved_of_attend h hr
  | release i =>
    simp only [step, release] at h
    split at h
    · split at h
      · split at h
        · exact .inl (reserved_of_set (p := .returning) (by simp) h hr)
        · exact .inl h
      · exact .inl h
    · exact .inl h
  | close =>
    simp only [step, close] at h
    split at h
    · exact .inl h
    rw [closeDrained_slots] at h
    exact .inl h
  | issueDrain =>
    simp only [step, issueDrain] at h
    split at h <;> exact .inl h
  | finish d =>
    simp only [step, finish] at h
    split at h
    · split at h <;> exact .inl h
    · exact .inl h

end grants

section closing

/-- Admission and the capabilities stay, and the channel is closed only by a coordinator that is
closed and has no references. -/
structure Quiet (c c' : Coordinator) : Prop where
  closed : c'.closed = c.closed
  drains : c'.drains = c.drains
  drained : c.drainedCloses < c'.drainedCloses → c'.closed ∧ c'.registry.refs = 0

theorem Quiet.refl (c : Coordinator) : Quiet c c := ⟨rfl, rfl, fun h => absurd h (lt_irrefl _)⟩

theorem Quiet.of_eq {c' : Coordinator} (hclosed : c'.closed = c.closed)
    (hdrains : c'.drains = c.drains) (hcount : c'.drainedCloses = c.drainedCloses) : Quiet c c' :=
  ⟨hclosed, hdrains, fun h => absurd h (hcount ▸ lt_irrefl _)⟩

open Quiet

section

variable (c : Coordinator)

theorem quiet_closeDrained : Quiet c c.closeDrained := by
  unfold closeDrained
  split
  next hc => exact ⟨rfl, rfl, fun _ => ⟨hc.1, hc.2.1⟩⟩
  · exact refl c

theorem quiet_advance (t : Nat) : Quiet c (c.advance t) := by
  unfold advance
  repeat' first | exact of_eq rfl rfl rfl | split

theorem quiet_attend (i : Nat) : Quiet c (c.attend i) := by
  unfold attend
  split
  · exact refl c
  next slot hi =>
  split
  · exact of_eq rfl rfl rfl
  · exact of_eq rfl rfl rfl
  · split <;> exact of_eq rfl rfl rfl
  · obtain ⟨hclosed, hdrains, hdrained⟩ := quiet_closeDrained { c with
        registry := c.registry.unreference slot.key slot.entry
        slots := c.slots.set i { slot with phase := .over } }
    exact ⟨hclosed, hdrains, hdrained⟩
  · exact refl c

theorem quiet_takePermit (i : Nat) : Quiet c (c.takePermit i) := by
  unfold takePermit
  split
  · split <;> exact of_eq rfl rfl rfl
  · exact refl c

theorem quiet_giveUp (i : Nat) : Quiet c (c.giveUp i) := by
  unfold giveUp
  split
  · split <;> exact of_eq rfl rfl rfl
  · exact refl c

theorem quiet_release (i : Nat) : Quiet c (c.release i) := by
  unfold release
  split
  · split
    · split <;> exact of_eq rfl rfl rfl
    · exact refl c
  · exact refl c

theorem Quiet.of_step (a : CoordinatorAction) :
    Quiet c (c.step a) ∨ a = .close ∨ a = .issueDrain ∨ (∃ d, a = .cancelDrain d) ∨
      ∃ d, a = .finish d := by
  cases a with
  | call goroutine request | cancelParent => exact .inl (of_eq rfl rfl rfl)
  | cancelCall t =>
    refine .inl ?_
    simp only [step]
    split <;> exact of_eq rfl rfl rfl
  | advance t => exact .inl (quiet_advance c t)
  | takePermit i => exact .inl (quiet_takePermit c i)
  | giveUp i => exact .inl (quiet_giveUp c i)
  | attend i => exact .inl (quiet_attend c i)
  | release i => exact .inl (quiet_release c i)
  | close => exact .inr (.inl rfl)
  | issueDrain => exact .inr (.inr (.inl rfl))
  | cancelDrain d => exact .inr (.inr (.inr (.inl ⟨d, rfl⟩)))
  | finish d => exact .inr (.inr (.inr (.inr ⟨d, rfl⟩)))

end

/-- Admission never opens again, a finished capability stays finished, and the channel is closed
only as in the other steps. -/
structure Closes (c c' : Coordinator) : Prop where
  closed : c.closed → c'.closed
  finished : ∀ (d : Nat) (drain : CoordinatorDrain), c.drains[d]? = some drain → drain.closed →
    ∃ drain' : CoordinatorDrain, c'.drains[d]? = some drain' ∧ drain'.closed
  drained : c.drainedCloses < c'.drainedCloses → c'.closed ∧ c'.registry.refs = 0

theorem Closes.of_quiet (h : Quiet c c') : Closes c c' :=
  ⟨fun hc => h.closed ▸ hc, fun _ drain hd hc => ⟨drain, h.drains ▸ hd, hc⟩, h.drained⟩

theorem Closes.setDrain {drain drain' : CoordinatorDrain} (hd : c.drains[d]? = some drain)
    (hkeep : drain.closed → drain'.closed) :
    Closes c { c with drains := c.drains.set d drain' } := by
  refine ⟨id, fun d' other hother hclosed => ?_, fun h => absurd h (lt_irrefl _)⟩
  change ∃ drain'', (c.drains.set d drain')[d']? = some drain'' ∧ _
  by_cases heq : d = d'
  · subst heq
    rw [hd] at hother
    cases hother
    exact ⟨drain', List.getElem?_set_self (List.getElem?_eq_some_iff.1 hd).1, hkeep hclosed⟩
  · exact ⟨other, by rw [getElem?_set_ne heq, hother], hclosed⟩

theorem Closes.of_step (c : Coordinator) (a : CoordinatorAction) : Closes c (c.step a) := by
  rcases Quiet.of_step c a with hquiet | rfl | rfl | ⟨d, rfl⟩ | ⟨d, rfl⟩
  · exact .of_quiet hquiet
  · simp only [step, close]
    split
    · exact .of_quiet (Quiet.refl c)
    obtain ⟨hclosed, hdrains, hdrained⟩ :=
      quiet_closeDrained { c with closed := true, cancelled := true }
    refine ⟨fun _ => hclosed, fun d drain hd hc => ⟨drain, ?_, hc⟩, hdrained⟩
    rw [hdrains]
    exact hd
  · simp only [step, issueDrain]
    split
    · refine ⟨id, fun d drain hd hc => ⟨drain, ?_, hc⟩, fun h => absurd h (lt_irrefl _)⟩
      exact (List.getElem?_append_left (List.getElem?_eq_some_iff.1 hd).1).trans hd
    · exact .of_quiet (Quiet.refl c)
  · simp only [step]
    split
    next drain hd => exact .setDrain hd id
    · exact .of_quiet (Quiet.refl c)
  · simp only [step, finish]
    split
    next drain hd =>
      split
      · exact .of_quiet (Quiet.refl c)
      · exact .setDrain hd fun _ => rfl
    · exact .of_quiet (Quiet.refl c)

theorem reserved_of_closed (as bs : List CoordinatorAction) (hclosed : (run as).closed)
    (h : (run (as ++ bs)).slots[i]? = some slot) (hr : slot.phase = .reserved)
    (hmode : ∀ d, slot.mode ≠ .drain d) : (run as).slots[i]? = some slot := by
  induction bs using reverseRecOn with
  | nil => rwa [append_nil] at h
  | append_singleton bs b ih =>
    have hrun : run (as ++ (bs ++ [b])) = (run (as ++ bs)).step b := by
      rw [run, ← append_assoc, exec_append]
      rfl
    rw [hrun] at h
    rcases reserved_of_step h hr with hold | ⟨before, hbefore, hcheck⟩
    · exact ih hold
    have hstill : (run (as ++ bs)).closed := by
      rw [run, exec_append]
      exact exec_invariant_forall (fun c a hc => (Closes.of_step c a).closed hc) hclosed bs
    have hcancelled := (run_booked (as ++ bs)).stopped hstill
    cases hm : before.mode with
    | plain | trying => simp [secondCheck, hm, hcancelled] at hcheck
    | drain d => exact absurd (hbefore.symm.trans hm) (hmode d)

theorem finished_of_append (as bs : List CoordinatorAction) {drain : CoordinatorDrain}
    (hd : (run as).drains[d]? = some drain) (hclosed : drain.closed) : ∃ drain' : CoordinatorDrain,
      (run (as ++ bs)).drains[d]? = some drain' ∧ drain'.closed := by
  rw [run, exec_append]
  refine exec_invariant_forall (I := fun c : Coordinator =>
      ∃ drain' : CoordinatorDrain, c.drains[d]? = some drain' ∧ drain'.closed)
    (fun c a hc => ?_) ⟨drain, hd, hclosed⟩ bs
  obtain ⟨drain', hd', hclosed'⟩ := hc
  exact (Closes.of_step c a).finished d drain' hd' hclosed'

end closing

theorem usesOf_slots (slots : List Slot) (e : Nat) : Registry.usesOf (slots.map use) e
      = slots.countP fun slot => slot.entry = e ∧ slot.phase ≠ .over := by
  rw [Registry.usesOf, countP_map]
  refine countP_congr fun slot _ => ?_
  cases hp : slot.phase <;> simp [use, hp, standing]

/-- Over every schedule of calls, cancellations, releases and shutdown steps. -/
theorem coordinator_safe (as bs : List CoordinatorAction) :
    (∀ (i j : Nat) (slot slot' : Slot), (run as).slots[i]? = some slot →
        (run as).slots[j]? = some slot' → slot.phase = .reserved → slot'.phase = .reserved →
          slot.key = slot'.key → i = j) ∧
      (run as).registry.refs
        = ((run as).registry.entries.map fun p => ((run as).registry.heap p.2).refs).sum ∧
      (∀ e < (run as).registry.fresh,
        ((run as).registry.heap e).refs
            = (run as).slots.countP (fun slot => slot.entry = e ∧ slot.phase ≠ .over) ∧
          ((∃ key, (key, e) ∈ (run as).registry.entries) ↔
            0 < ((run as).registry.heap e).refs)) ∧
      (∀ slot ∈ (run as).slots, ∀ slot' ∈ (run as).slots, slot.phase ≠ .over →
        slot'.phase ≠ .over → slot.key = slot'.key → slot.entry = slot'.entry) ∧
      ((run as).closed → ∀ (i : Nat) (slot : Slot), (run (as ++ bs)).slots[i]? = some slot →
        slot.phase = .reserved → (∀ d, slot.mode ≠ .drain d) →
          (run as).slots[i]? = some slot) ∧
      (run as).drainedCloses ≤ 1 ∧
      ((run as).closed → (run as).registry.refs = 0 → (run as).drainedCloses = 1) ∧
      (∀ a, (run as).drainedCloses < ((run as).step a).drainedCloses →
        ((run as).step a).closed ∧ ((run as).step a).registry.refs = 0 ∧
          ∀ slot ∈ (run as).slots, ∀ d, slot.mode ≠ .drain d) ∧
      (run as).drains.length ≤ 1 ∧
      (∀ (d : Nat) (drain : CoordinatorDrain), (run as).drains[d]? = some drain → drain.closed →
        ∀ slot ∈ (run (as ++ bs)).slots, slot.mode = .drain d → slot.phase = .over) ∧
      (∀ (t : Nat) (keyCall : KeyCall), (run as).calls[t]? = some keyCall →
        keyCall.point = .failed →
        keyCall.held = [] ∧ ∀ slot ∈ (run as).slots, slot.caller = t → slot.phase = .over) ∧
      (OneSet (run as) → ∀ g, ¬ Relation.TransGen (WaitsFor (run as)) g g) := by
  have hbooked := run_booked as
  have hordered := run_ordered as
  have hstanding : ∀ {slot : Slot}, slot.phase ≠ .over → slot.use.standing ≠ .gone := by
    intro slot hlive
    cases hp : slot.phase <;> simp [use, hp, standing] at hlive ⊢
  refine ⟨?_, hbooked.accounts.sum, ?_, ?_, ?_, ?_, ?_, ?_, hbooked.single, ?_, ?_, ?_⟩
  · intro i j slot slot' hi hj hr hr' hkey
    exact hbooked.accounts.exclusive (getElem?_use hi) (getElem?_use hj)
      (by simp [use, hr, standing]) (by simp [use, hr', standing])
      hkey
  · intro e he
    refine ⟨?_, hbooked.accounts.present_iff he⟩
    rw [hbooked.accounts.counted e he, usesOf_slots]
  · intro slot hs slot' hs' hlive hlive' hkey
    exact hbooked.accounts.shares (mem_map_of_mem (f := use) hs)
      (mem_map_of_mem (f := use) hs') (hstanding hlive) (hstanding hlive') hkey
  · intro hclosed i slot h hr hmode
    exact reserved_of_closed as bs hclosed h hr hmode
  · rw [hbooked.once]
    split <;> omega
  · intro hclosed hrefs
    rw [hbooked.once, hbooked.idle hclosed hrefs]
    rfl
  · intro a hlt
    obtain ⟨hclosed, hrefs⟩ := (Closes.of_step (run as) a).drained hlt
    refine ⟨hclosed, hrefs, fun slot hs d hd => ?_⟩
    have hcap := hbooked.capable slot hs d hd
    have hbefore := hbooked.after (ne_nil_of_length_pos (Nat.zero_lt_of_lt hcap))
    have hone := hbooked.once
    rw [hbefore, if_pos rfl] at hone
    have honce := (hbooked.step a).once
    split at honce <;> omega
  · intro d drain hd hclosed slot hs hmode
    obtain ⟨drain', hd', hclosed'⟩ := finished_of_append as bs hd hclosed
    exact (run_booked (as ++ bs)).finished d drain' hd' hclosed' slot hs hmode
  · intro t keyCall hcall hfailed
    have hheld := (hordered.calls t keyCall hcall).failed hfailed
    refine ⟨hheld, fun slot hs hcaller => ?_⟩
    obtain ⟨i, hi⟩ := getElem?_of_mem hs
    obtain ⟨other, hother, hok⟩ := hordered.slots i slot hi
    rw [hcaller, hcall] at hother
    cases hother
    rcases hok.kept with hover | hmem | hawait
    · exact hover
    · rw [hheld] at hmem
      cases hmem
    · rw [hfailed] at hawait
      cases hawait
  · exact fun hone g => WaitsFor.acyclic hordered hone g

end Coordinator

end TorrentHub
