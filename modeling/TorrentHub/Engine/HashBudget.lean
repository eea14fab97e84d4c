import Mathlib.Algebra.BigOperators.Group.List.Basic
import Mathlib.Algebra.Order.Ring.Nat
import Mathlib.Data.List.Dedup
import TorrentHub.Lib.Run

namespace TorrentHub.HashBudget

open Lib List

/-- A call of `Acquire` that has entered `pending`. Calls are told apart by `id`. -/
structure Waiter where
  id : Nat
  keys : List String
  priority : Int
  nodup : keys.Nodup
  deriving DecidableEq

structure Limits where
  (global perResource pendingLimit burstLimit : Nat)

/-- `held` are the waiters that are granted and not yet released. `log` is history: the calls that
were granted, the last one first, each with the oldest one that could have been. -/
structure Budget where
  (active burst made : Nat := 0)
  resources : String → Nat := fun _ => 0
  (pending held : List Waiter := [])
  log : List (Waiter × Option Waiter) := []

inductive Action where
  | acquire (keys : List String) (priority : Int)
  | release (w : Waiter)

/-- The only caller takes the priority from a byte. -/
def Action.Plain : Action → Prop
  | .acquire _ priority => 0 ≤ priority
  | .release _ => True

def keysOf (keys : List String) : List String :=
  if keys = [] then ["unknown"] else (keys.mergeSort fun a b => a ≤ b).dedup

theorem nodup_keysOf (keys : List String) : (keysOf keys).Nodup := by
  unfold keysOf
  split
  · exact nodup_singleton _
  · exact nodup_dedup _

section

variable (l : Limits) (b : Budget)

def eligible (w : Waiter) : Bool := w.keys.all fun k => b.resources k < l.perResource

/-- One round of the search, which skips the calls that are not eligible. -/
def better (best : Option Waiter) (w : Waiter) : Option Waiter :=
  match best with
  | none => some w
  | some v => if b.burst < l.burstLimit ∧ v.priority < w.priority then some w else some v

def best : Option Waiter := (b.pending.filter (eligible l b)).foldl (better l b) none

def grant (w : Waiter) : Budget :=
  { b with
    pending := b.pending.erase w
    held := w :: b.held
    burst := if l.burstLimit ≤ b.burst ∨ w.priority = 0 then 0 else b.burst + 1
    active := b.active + 1
    resources := fun k => b.resources k + w.keys.count k
    log := (w, b.pending.find? (eligible l b)) :: b.log }

/-- A round takes one waiter, so there are at most as many rounds as waiters. -/
def scheduleLocked : Nat → Budget → Budget
  | 0, b => b
  | n + 1, b =>
    if b.active < l.global then
      match best l b with
      | some w => scheduleLocked n (grant l b w)
      | none => b
    else b

/-- A call that finds `pending` full waits and tries again. -/
def acquire (keys : List String) (priority : Int) : Budget :=
  if b.pending.length < l.pendingLimit then
    scheduleLocked l (b.pending.length + 1) { b with
      pending := b.pending ++ [⟨b.made, keysOf keys, priority, nodup_keysOf keys⟩]
      made := b.made + 1 }
  else b

/-- A call that was cancelled, or the first call of the function that `Acquire` returned. -/
def release (w : Waiter) : Budget :=
  if w ∈ b.held then
    scheduleLocked l b.pending.length { b with
      held := b.held.erase w
      active := b.active - 1
      resources := fun k => b.resources k - w.keys.count k }
  else if w ∈ b.pending then
    scheduleLocked l b.pending.length { b with pending := b.pending.erase w }
  else b

def step : Action → Budget
  | .acquire keys priority => acquire l b keys priority
  | .release w => release l b w

def run (as : List Action) : Budget := exec (step l) {} as

/-- The counters count the calls that are granted, and all is within the limits. -/
structure Books : Prop where
  active : b.active = b.held.length
  resources : ∀ k, b.resources k = (b.held.map (·.keys.count k)).sum
  global : b.active ≤ l.global
  perResource : ∀ k, b.resources k ≤ l.perResource
  pending : b.pending.length ≤ l.pendingLimit
  burst : b.burst ≤ l.burstLimit

/-- A call that is granted before the oldest one has a higher priority. -/
def Ordered : Prop := ∀ g ∈ b.log, g.2 = some g.1 ∨ ∃ v, g.2 = some v ∧ v.priority < g.1.priority

/-- The last calls that passed the oldest one are counted by `burst`, and no more than the limit did
so in a row. -/
structure Fair : Prop where
  plain : ∀ w ∈ b.pending, 0 ≤ w.priority
  last : ∀ ys zs, b.log = ys ++ zs → (∀ g ∈ ys, g.2 ≠ some g.1) → ys.length ≤ b.burst
  streaks : ∀ xs ys zs, b.log = xs ++ ys ++ zs → (∀ g ∈ ys, g.2 ≠ some g.1) →
    ys.length ≤ l.burstLimit

/-- No capacity is left unused. -/
def Busy : Prop := b.active < l.global → ∀ w ∈ b.pending, eligible l b w = false

end

variable {l : Limits} {b : Budget} {w : Waiter}

theorem foldl_better (ws : List Waiter) (v : Waiter) :
    ∃ w ∈ v :: ws, ws.foldl (better l b) (some v) = some w ∧
      (v = w ∨ b.burst < l.burstLimit ∧ v.priority < w.priority) := by
  induction ws generalizing v with
  | nil => exact ⟨v, mem_cons_self, rfl, .inl rfl⟩
  | cons x rest ih =>
    rw [foldl_cons, better]
    split
    next hx =>
      obtain ⟨w, hw, heq, h⟩ := ih x
      refine ⟨w, mem_cons_of_mem _ hw, heq, .inr ⟨hx.1, ?_⟩⟩
      rcases h with rfl | h
      · exact hx.2
      · exact hx.2.trans h.2
    · obtain ⟨w, hw, h⟩ := ih v
      exact ⟨w, ((sublist_cons_self x rest).cons_cons v).subset hw, h⟩

/-- The oldest eligible call is passed over only for one of a higher priority, in a burst. -/
theorem best_cases : (best l b = none ∧ ∀ w ∈ b.pending, eligible l b w = false) ∨
    ∃ w ∈ b.pending, best l b = some w ∧ eligible l b w ∧ ∃ v ∈ b.pending,
      b.pending.find? (eligible l b) = some v ∧
        (v = w ∨ b.burst < l.burstLimit ∧ v.priority < w.priority) := by
  rw [best, ← head?_filter]
  cases hws : b.pending.filter (eligible l b) with
  | nil => exact .inl ⟨rfl, fun w hw => by simpa using filter_eq_nil_iff.1 hws w hw⟩
  | cons v ws =>
    obtain ⟨w, hw, heq, h⟩ := foldl_better (l := l) (b := b) ws v
    obtain ⟨hmem, he⟩ := mem_filter.1 (hws ▸ hw)
    have hv : v ∈ b.pending.filter (eligible l b) := hws ▸ mem_cons_self
    exact .inr ⟨w, hmem, heq, he, v, mem_of_mem_filter hv, rfl, h⟩

namespace Books

variable (h : Books l b)
include h

theorem grant (he : eligible l b w) (hlt : b.active < l.global) : Books l (grant l b w) := by
  refine ⟨congrArg (· + 1) h.active, fun k => ?_, hlt, fun k => ?_,
    erase_sublist.length_le.trans h.pending, ?_⟩
  · exact (Nat.add_comm _ _).trans (congrArg _ (h.resources k))
  · have hone := nodup_iff_count_le_one.1 w.nodup k
    have hres := h.perResource k
    dsimp only [HashBudget.grant]
    by_cases hk : k ∈ w.keys
    · have := of_decide_eq_true (all_eq_true.1 he k hk)
      omega
    · rwa [count_eq_zero.2 hk]
  · dsimp only [HashBudget.grant]
    split <;> omega

theorem schedule {n : Nat} (hn : b.pending.length ≤ n) :
    Books l (scheduleLocked l n b) ∧ Busy l (scheduleLocked l n b) := by
  induction n generalizing b with
  | zero =>
    rw [Nat.le_zero, length_eq_zero_iff] at hn
    exact ⟨h, fun _ w hw => absurd (hn ▸ hw) not_mem_nil⟩
  | succ n ih =>
    rw [scheduleLocked]
    split
    next hlt =>
      obtain ⟨hbest, hall⟩ | ⟨w, hw, hbest, he, -⟩ := best_cases (l := l) (b := b) <;> rw [hbest]
      · exact ⟨h, fun _ => hall⟩
      · refine ih (h.grant he hlt) ?_
        have := length_erase_of_mem hw
        dsimp only [HashBudget.grant]
        omega
    next hge => exact ⟨h, fun hlt => absurd hlt hge⟩

theorem step (hb : Busy l b) (a : Action) : Books l (step l b a) ∧ Busy l (step l b a) := by
  cases a with
  | acquire keys priority =>
    simp only [HashBudget.step, acquire]
    split
    next hlt =>
      refine schedule ?_ length_append.le
      exact ⟨h.active, h.resources, h.global, h.perResource, length_append ▸ hlt, h.burst⟩
    · exact ⟨h, hb⟩
  | release w =>
    simp only [HashBudget.step, release]
    split
    next hw =>
      refine schedule ?_ (Nat.le_refl _)
      refine ⟨?_, fun k => ?_, (Nat.sub_le _ _).trans h.global,
        fun k => (Nat.sub_le _ _).trans (h.perResource k), h.pending, h.burst⟩
      · dsimp only
        rw [length_erase_of_mem hw, h.active]
      · have := sum_map_erase (·.keys.count k) hw
        have := h.resources k
        dsimp only at this ⊢
        omega
    next =>
    split
    · refine schedule ?_ erase_sublist.length_le
      exact ⟨h.active, h.resources, h.global, h.perResource,
        erase_sublist.length_le.trans h.pending, h.burst⟩
    · exact ⟨h, hb⟩

end Books

/-- What every grant of the search keeps, a call of `scheduleLocked` keeps. -/
theorem schedule_induction {I : Budget → Prop} (h : I b)
    (hgrant : ∀ b w v, I b → w ∈ b.pending → v ∈ b.pending →
      b.pending.find? (eligible l b) = some v →
      (v = w ∨ b.burst < l.burstLimit ∧ v.priority < w.priority) → I (grant l b w)) (n : Nat) :
    I (scheduleLocked l n b) := by
  induction n generalizing b with
  | zero => exact h
  | succ n ih =>
    rw [scheduleLocked]
    split
    · obtain ⟨hbest, -⟩ | ⟨w, hw, hbest, -, v, hv, hfind, hold⟩ := best_cases (l := l) (b := b) <;>
        rw [hbest]
      · exact h
      · exact ih (hgrant b w v h hw hv hfind hold)
    · exact h

/-- An invariant of grants that only speaks of the pending calls, the burst and the log, and allows
calls to leave `pending`, holds along every run of calls that keep it. -/
theorem step_induction {I : Budget → Prop} (a : Action) (h : I b)
    (hframe : ∀ b' : Budget, I b → b'.pending ⊆ b.pending → b'.burst = b.burst →
      b'.log = b.log → I b')
    (hacquire : ∀ keys priority, a = .acquire keys priority → I { b with
      pending := b.pending ++ [⟨b.made, keysOf keys, priority, nodup_keysOf keys⟩]
      made := b.made + 1 })
    (hgrant : ∀ b w v, I b → w ∈ b.pending → v ∈ b.pending →
      b.pending.find? (eligible l b) = some v →
      (v = w ∨ b.burst < l.burstLimit ∧ v.priority < w.priority) → I (grant l b w)) :
    I (step l b a) := by
  cases a with
  | acquire keys priority =>
    simp only [step, acquire]
    split
    · exact schedule_induction (hacquire keys priority rfl) hgrant _
    · exact h
  | release w =>
    simp only [step, release]
    split
    · refine schedule_induction ?_ hgrant _
      exact hframe _ h (Subset.refl _) rfl rfl
    · split
      · refine schedule_induction ?_ hgrant _
        exact hframe _ h erase_subset rfl rfl
      · exact h

theorem Ordered.step (h : Ordered b) (a : Action) : Ordered (step l b a) := by
  refine step_induction a h (fun b' hb _ _ hlog g hg => hb g (hlog ▸ hg)) (fun _ _ _ => h) ?_
  intro b w v hb hw hv hfind hold g hg
  rcases mem_cons.1 hg with rfl | hg
  · rcases hold with rfl | hold
    · exact .inl hfind
    · exact .inr ⟨v, hfind, hold.2⟩
  · exact hb g hg

theorem Fair.grant {v : Waiter} (h : Fair l b) (hv : v ∈ b.pending)
    (hfind : b.pending.find? (eligible l b) = some v)
    (hold : v = w ∨ b.burst < l.burstLimit ∧ v.priority < w.priority) :
    Fair l (grant l b w) := by
  have hlast : ∀ ys zs, (HashBudget.grant l b w).log = ys ++ zs → (∀ g ∈ ys, g.2 ≠ some g.1) →
      ys.length ≤ (HashBudget.grant l b w).burst ∧ ys.length ≤ l.burstLimit := by
    intro ys zs hlog hys
    cases ys with
    | nil => exact ⟨Nat.zero_le _, Nat.zero_le _⟩
    | cons g ys =>
      obtain ⟨rfl, htail⟩ := List.cons.inj hlog
      rcases hold with rfl | ⟨hlt, hprio⟩
      · exact absurd hfind (hys _ mem_cons_self)
      have hlen := h.last ys zs htail fun g hg => hys g (mem_cons_of_mem _ hg)
      have hzero : ¬(l.burstLimit ≤ b.burst ∨ w.priority = 0) := by
        have hplain := h.plain v hv
        omega
      have hnext : (HashBudget.grant l b w).burst = b.burst + 1 := if_neg hzero
      rw [hnext, length_cons]
      omega
  refine ⟨fun x hx => h.plain x (erase_subset hx),
    fun ys zs hlog hys => (hlast ys zs hlog hys).1, ?_⟩
  intro xs ys zs hlog hys
  cases xs with
  | nil => exact (hlast ys zs hlog hys).2
  | cons g xs => exact h.streaks xs ys zs (List.cons.inj hlog).2 hys

theorem Fair.step (h : Fair l b) (hburst : b.burst ≤ l.burstLimit) {a : Action} (ha : a.Plain) :
    Fair l (step l b a) ∧ (step l b a).burst ≤ l.burstLimit := by
  refine step_induction (I := fun b => Fair l b ∧ b.burst ≤ l.burstLimit) a ⟨h, hburst⟩ ?_ ?_ ?_
  · rintro b' ⟨hb, hb'⟩ hsub hsame hlog
    exact ⟨⟨fun w hw => hb.plain w (hsub hw), hsame ▸ hlog ▸ hb.last, hlog ▸ hb.streaks⟩,
      hsame ▸ hb'⟩
  · rintro keys priority rfl
    refine ⟨⟨fun w hw => ?_, h.last, h.streaks⟩, hburst⟩
    rcases mem_append.1 hw with hw | hw
    · exact h.plain w hw
    · rw [mem_singleton.1 hw]
      exact ha
  · rintro b w v ⟨hb, hb'⟩ - hv hfind hold
    refine ⟨hb.grant hv hfind hold, ?_⟩
    dsimp only [HashBudget.grant]
    split <;> omega

/-- However calls are made, cancelled and released, the books are right, a call waits only while the
budget or one of its resources is used up, and only a call of higher priority is granted before the
oldest one that can start. If no priority is negative, at most `burstLimit` calls in a row are. -/
theorem hash_budget_shared (l : Limits) (as : List Action) : Books l (run l as) ∧
    ((run l as).active < l.global → ∀ w ∈ (run l as).pending,
      ∃ k ∈ w.keys, (run l as).resources k = l.perResource) ∧
    (∀ g ∈ (run l as).log, g.2 = some g.1 ∨ ∃ v, g.2 = some v ∧ v.priority < g.1.priority) ∧
    ((∀ a ∈ as, a.Plain) → ∀ xs ys zs, (run l as).log = xs ++ ys ++ zs →
      (∀ g ∈ ys, g.2 ≠ some g.1) → ys.length ≤ l.burstLimit) := by
  have hzero : Books l {} := by constructor <;> simp
  obtain ⟨h, hbusy⟩ : Books l (run l as) ∧ Busy l (run l as) :=
    exec_invariant_forall (I := fun b => Books l b ∧ Busy l b) (fun _ a h => h.1.step h.2 a)
      ⟨hzero, fun _ _ hw => absurd hw not_mem_nil⟩ as
  refine ⟨h, fun hlt w hw => ?_, ?_, fun hplain => ?_⟩
  · obtain ⟨k, hk, hfull⟩ := all_eq_false.1 (hbusy hlt w hw)
    exact ⟨k, hk, Nat.le_antisymm (h.perResource k) (by simpa using hfull)⟩
  · exact exec_invariant_forall (I := Ordered) (fun _ a h => h.step a)
      (fun g hg => absurd hg not_mem_nil) as
  · have hempty : Fair l {} := by constructor <;> simp +contextual
    have hfair : Fair l (run l as) ∧ (run l as).burst ≤ l.burstLimit :=
      exec_invariant (I := fun b => Fair l b ∧ b.burst ≤ l.burstLimit) (P := fun _ a => a.Plain)
        (fun _ _ h ha => h.1.step h.2 ha) ⟨hempty, Nat.zero_le _⟩
        (Along.of_mem fun a ha _ => hplain a ha)
    exact hfair.1.streaks

def unknownWaiter (id : Nat) (priority : Int) : Waiter := ⟨id, ["unknown"], priority, by decide⟩

/-- One call holds the budget, a plain one and two urgent ones wait, and the budget is released
twice. -/
def urgentLater : List Action :=
  [.acquire [] 0, .acquire [] 0, .acquire [] 3, .acquire [] 5, .release (unknownWaiter 0 0),
    .release (unknownWaiter 3 5)]

theorem hash_budget_urgentLater :
    let b := run ⟨1, 1, 4, 1⟩ urgentLater
    b.log = [(unknownWaiter 1 0, some (unknownWaiter 1 0)),
      (unknownWaiter 3 5, some (unknownWaiter 1 0)),
      (unknownWaiter 0 0, some (unknownWaiter 0 0))] ∧
    ∀ xs ys zs, b.log = xs ++ ys ++ zs → (∀ g ∈ ys, g.2 ≠ some g.1) → ys.length ≤ 1 :=
  ⟨by decide, (hash_budget_shared ⟨1, 1, 4, 1⟩ urgentLater).2.2.2
    (by simp [urgentLater, Action.Plain])⟩

end TorrentHub.HashBudget
