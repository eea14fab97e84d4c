import Mathlib.Data.List.Nodup
import TorrentHub.Resume.SealWorker

namespace TorrentHub

namespace SealPoint

def owner : SealPoint → Option String
  | .sealing _ _ owner | .sealed _ _ owner _ => some owner
  | _ => none

def running : SealPoint → Option String
  | .sealing _ _ owner => some owner
  | _ => none

def draining : SealPoint → Bool
  | .begin drain | .next drain _ | .checked drain _ | .sealing drain _ _
  | .sealed drain _ _ _ => drain
  | .finishing | .ended => true
  | _ => false

/-- How many of the `len` owners in the queue are still to be taken before the worker looks at
the queue again. -/
def rounds (len : Nat) : SealPoint → Nat
  | .next _ left | .sealing _ left _ | .sealed _ left _ _ => left
  | .checked _ left => left + 1
  | .finishing | .ended => 0
  | _ => len

end SealPoint

namespace SealEvent

def awaits (o : String) : List SealEvent → Bool
  | [] => false
  | .marked owner :: log => owner == o || awaits o log
  | .started owner :: log => owner != o && awaits o log
  | _ :: log => awaits o log

def lastFailed (o : String) : List SealEvent → Bool
  | [] => false
  | .returned owner failed :: log => if owner = o then failed else lastFailed o log
  | _ :: log => lastFailed o log

def late : List SealEvent → List SealEvent
  | [] => []
  | e :: log => if .shutdown ∈ log then e :: late log else []

def returns (o : String) (log : List SealEvent) : Nat :=
  log.count (.returned o true) + log.count (.returned o false)

variable {log : List SealEvent} {e : SealEvent} {o : String}

theorem late_of_mem (h : .shutdown ∈ log) : late (e :: log) = e :: late log := if_pos h

theorem late_of_not_mem (h : .shutdown ∉ log) : late (e :: log) = [] := if_neg h

theorem late_append (h : .shutdown ∉ pre) : late (post ++ .shutdown :: pre) = post := by
  induction post with
  | nil => exact late_of_not_mem h
  | cons e post ih => rw [List.cons_append, late_of_mem (by simp), ih]

theorem awaits_of_marked {pre post : List SealEvent} (h : .started o ∉ post) :
    awaits o (post ++ .marked o :: pre) = true := by
  induction post with
  | nil => simp [awaits]
  | cons e post ih =>
    rw [List.mem_cons, not_or] at h
    have hrest := ih h.2
    cases e with
    | started owner =>
      have hne : owner ≠ o := by
        rintro rfl
        exact h.1 rfl
      simp [awaits, hrest, hne]
    | _ => simp [awaits, hrest]

end SealEvent

namespace SealWorker
open SealEvent List SealWorker SealPoint

variable {s : SealWorker} {name o : String} {owners : List SealRequest} {dirty drain : Bool}
  {left : Nat} {p : SealPoint}

@[simp] theorem keys_setDirty (owners : List SealRequest) (owner : String) (dirty : Bool) :
    (setDirty owners owner dirty).map (·.owner) = owners.map (·.owner) := by
  rw [setDirty, map_map]
  congr 1
  funext r
  simp only [Function.comp_apply]
  split <;> rfl

@[simp] theorem length_setDirty (owners : List SealRequest) (owner : String) (dirty : Bool) :
    (setDirty owners owner dirty).length = owners.length := length_map _

theorem isDirty_setDirty_self (h : o ∈ owners.map (·.owner)) :
    isDirty (setDirty owners o dirty) o = dirty := by
  obtain ⟨r, hr, rfl⟩ := mem_map.1 h
  rw [Bool.eq_iff_iff]
  simp only [isDirty, setDirty, any_map, any_eq_true, Function.comp_apply,
    Bool.and_eq_true, beq_iff_eq]
  constructor
  · rintro ⟨r', -, hown, hd⟩
    split at hd
    · exact hd
    next hne =>
    rw [if_neg hne] at hown
    exact absurd hown hne
  · intro hd
    exact ⟨r, hr, by simp, by simpa using hd⟩

theorem isDirty_setDirty_ne (h : o ≠ name) :
    isDirty (setDirty owners name dirty) o = isDirty owners o := by
  rw [isDirty, setDirty, any_map, isDirty]
  congr 1
  funext r
  simp only [Function.comp_apply]
  split
  next howner =>
    have hne : (r.owner == o) = false := by
      rw [howner]
      simpa using h.symm
    simp only [hne, Bool.false_and]
  · rfl

/-- The owners are those in the queue, each once, and the one being sealed; the rounds left to a
batch are owners in the queue. -/
structure Owned (s : SealWorker) : Prop where
  keys : s.keys.Nodup
  queue : s.queue.Nodup
  split : ∀ o, o ∈ s.keys ↔ o ∈ s.queue ∨ s.point.owner = some o
  apart : ∀ o, s.point.owner = some o → o ∉ s.queue
  bound : s.owners.length ≤ maxPendingOwners
  room : s.point.rounds s.queue.length ≤ s.queue.length
  sound : s.point ≠ .panicked

theorem Owned.goto (h : s.Owned) (howner : p.owner = s.point.owner)
    (hroom : p.rounds s.queue.length ≤ s.queue.length) (hp : p ≠ .panicked) :
    Owned { s with point := p } := by
  refine ⟨h.keys, h.queue, ?_, ?_, h.bound, hroom, hp⟩
  · intro o
    change o ∈ s.keys ↔ o ∈ s.queue ∨ p.owner = some o
    rw [howner]
    exact h.split o
  · intro o ho
    exact h.apart o (howner ▸ ho)

theorem Owned.markDirty (h : s.Owned) (name : String) : (s.markDirty name).Owned := by
  unfold SealWorker.markDirty
  split
  · exact h
  split
  · have hkeys : (setDirty s.owners name true).map (·.owner) = s.keys := keys_setDirty _ _ _
    refine ⟨?_, h.queue, ?_, h.apart, ?_, h.room, h.sound⟩
    · change ((setDirty s.owners name true).map (·.owner)).Nodup
      rw [hkeys]
      exact h.keys
    · intro o
      change o ∈ (setDirty s.owners name true).map (·.owner) ↔ _
      rw [hkeys]
      exact h.split o
    · change (setDirty s.owners name true).length ≤ _
      rw [length_setDirty]
      exact h.bound
  rename_i hnew
  split
  · exact h
  rename_i hroom
  have hsplit := h.split name
  rw [iff_false_left hnew, not_or] at hsplit
  have hkeys : (s.owners ++ [SealRequest.mk name true]).map (·.owner) = s.keys ++ [name] := by
    rw [map_append]
    rfl
  refine ⟨?_, ?_, ?_, ?_, ?_, ?_, h.sound⟩
  · change ((s.owners ++ [SealRequest.mk name true]).map (·.owner)).Nodup
    rw [hkeys]
    exact nodup_append.2 ⟨h.keys, nodup_singleton _,
      by simpa using fun a ha => ne_of_mem_of_not_mem ha hnew⟩
  · exact nodup_append.2 ⟨h.queue, nodup_singleton _,
      by simpa using fun a ha => ne_of_mem_of_not_mem ha hsplit.1⟩
  · intro o
    change o ∈ (s.owners ++ [SealRequest.mk name true]).map (·.owner) ↔ o ∈ s.queue ++ [name] ∨ _
    rw [hkeys, mem_append, mem_append, h.split o]
    tauto
  · intro o ho hmem
    rcases mem_append.1 hmem with hmem | hmem
    · exact h.apart o ho hmem
    · rw [mem_singleton.1 hmem] at ho
      exact hsplit.2 ho
  · change (s.owners ++ [SealRequest.mk name true]).length ≤ _
    rw [length_append, length_singleton]
    omega
  · change s.point.rounds (s.queue ++ [name]).length ≤ (s.queue ++ [name]).length
    have hr := h.room
    rw [length_append, length_singleton]
    cases hp : s.point <;> rw [hp] at hr <;> simp only [rounds] at hr ⊢ <;> omega

theorem Owned.leave (h : s.Owned) (hp : s.point.owner = none) (drain : Bool) :
    (s.leave drain).Owned := by
  cases drain with
  | false => exact h.goto hp.symm (Nat.le_refl _) nofun
  | true => exact h.goto hp.symm (Nat.zero_le _) nofun

theorem Owned.take (h : s.Owned) (hp : s.point = .checked drain left) :
    (s.take drain left).Owned := by
  have hroom := h.room
  rw [hp] at hroom
  unfold SealWorker.take
  split
  · exact h.leave (by rw [hp]; rfl) drain
  split
  next hq =>
    rw [hq] at hroom
    cases hroom
  rename_i name queue hq
  have hmem : name ∈ s.keys := (h.split name).2 (.inl (by simp [hq]))
  have hnodup := h.queue
  rw [hq] at hnodup hroom
  rw [if_pos hmem]
  have hkeys : (setDirty s.owners name false).map (·.owner) = s.keys := keys_setDirty _ _ _
  refine ⟨?_, hnodup.of_cons, ?_, ?_, ?_, ?_, nofun⟩
  · change ((setDirty s.owners name false).map (·.owner)).Nodup
    rw [hkeys]
    exact h.keys
  · intro o
    change o ∈ (setDirty s.owners name false).map (·.owner) ↔ o ∈ queue ∨ some name = some o
    rw [hkeys, h.split o, hq, hp, mem_cons, Option.some.injEq]
    simp only [SealPoint.owner, reduceCtorEq, or_false]
    rw [or_comm, eq_comm]
  · intro o ho
    cases ho
    exact (nodup_cons.1 hnodup).1
  · change (setDirty s.owners name false).length ≤ _
    rw [length_setDirty]
    exact h.bound
  · change left ≤ queue.length
    simp only [rounds, length_cons] at hroom
    omega

theorem Owned.settle (h : s.Owned) (hp : s.point = .sealed drain left name failed) :
    (s.settle drain left name failed).Owned := by
  have hroom := h.room
  have howner : s.point.owner = some name := by rw [hp]; rfl
  have hapart := h.apart name howner
  rw [hp] at hroom
  unfold SealWorker.settle
  split
  · refine ⟨h.keys, ?_, ?_, nofun, h.bound, ?_, nofun⟩
    · exact nodup_append.2 ⟨h.queue, nodup_singleton _,
        by simpa using fun a ha => ne_of_mem_of_not_mem ha hapart⟩
    · intro o
      change o ∈ s.keys ↔ o ∈ s.queue ++ [name] ∨ none = some o
      rw [h.split o, howner, mem_append, mem_singleton, Option.some.injEq]
      simp only [reduceCtorEq, or_false]
      rw [eq_comm]
    · change left ≤ (s.queue ++ [name]).length
      rw [length_append]
      exact Nat.le_trans hroom (Nat.le_add_right _ _)
  have hkeys : (s.owners.filter fun r => r.owner ≠ name).map (·.owner) =
      s.keys.filter (· ≠ name) := by
    rw [SealWorker.keys, List.filter_map]
    rfl
  refine ⟨?_, h.queue, ?_, nofun, ?_, hroom, nofun⟩
  · change ((s.owners.filter fun r => r.owner ≠ name).map (·.owner)).Nodup
    rw [hkeys]
    exact h.keys.filter _
  · intro o
    change o ∈ (s.owners.filter fun r => r.owner ≠ name).map (·.owner) ↔ o ∈ s.queue ∨ none = some o
    rw [hkeys, mem_filter, h.split o, howner, decide_eq_true_eq, Option.some.injEq]
    simp only [reduceCtorEq, or_false]
    constructor
    · rintro ⟨hq | rfl, hne⟩
      · exact hq
      · exact absurd rfl hne
    · intro hq
      exact ⟨.inl hq, ne_of_mem_of_not_mem hq hapart⟩
  · exact Nat.le_trans (length_filter_le _ _) h.bound

theorem Owned.work (h : s.Owned) : s.work.Owned := by
  unfold SealWorker.work
  cases hp : s.point with
  | top =>
    simp only
    split
    · exact h.goto (by rw [hp]; rfl) (Nat.le_refl _) nofun
    · exact h.goto (by rw [hp]; rfl) (Nat.le_refl _) nofun
  | waiting =>
    simp only
    split
    · exact h.goto (by rw [hp]; rfl) (Nat.le_refl _) nofun
    · exact h
  | begin drain => exact h.goto (by rw [hp]; rfl) (Nat.le_refl _) nofun
  | next drain left =>
    have hroom := h.room
    rw [hp] at hroom
    cases left with
    | zero => exact h.leave (by rw [hp]; rfl) drain
    | succ left =>
      simp only
      split
      · exact h.leave (by rw [hp]; rfl) drain
      · exact h.goto (by rw [hp]; rfl) hroom nofun
  | checked drain left => exact h.take hp
  | sealed drain left name failed => exact h.settle hp
  | finishing =>
    have hg : Owned { s with point := .ended } := h.goto (by rw [hp]; rfl) (Nat.zero_le _) nofun
    exact { hg with }
  | sealing drain left name | ended | panicked => exact h

theorem Owned.step (h : s.Owned) (a : SealAction) : (s.step a).Owned := by
  cases a with
  | markDirty name => exact h.markDirty name
  | shutdown =>
    simp only [SealWorker.step, SealWorker.shutdown]
    split
    · exact h
    · exact { h with }
  | cancelDrain | cancelJob =>
    simp only [SealWorker.step]
    split
    · exact { h with }
    · exact h
  | tick =>
    simp only [SealWorker.step]
    split
    next hp => exact h.goto (by rw [hp]; rfl) (Nat.le_refl _) nofun
    · exact h
  | work => exact h.work
  | returns failed =>
    simp only [SealWorker.step]
    split
    next drain left name hp =>
      have hroom := h.room
      rw [hp] at hroom
      have hg : Owned { s with point := .sealed drain left name failed } :=
        h.goto (by rw [hp]; rfl) hroom nofun
      exact { hg with }
    · exact h

/-- No mark is lost, nothing is marked or started twice after the shutdown, and every callback but
the running one has returned. -/
structure Logged (s : SealWorker) : Prop where
  shut : s.closing = true ↔ .shutdown ∈ s.log
  drains : s.point.draining = true → s.closing = true
  awaited : ∀ o, awaits o s.log = true →
    o ∈ s.queue ∨ s.point.owner = some o ∧ isDirty s.owners o = true
  quiet : ∀ o, .marked o ∉ late s.log
  started : ∀ o, .started o ∈ late s.log →
    s.point.draining = true ∧ o ∉ s.queue.take (s.point.rounds s.queue.length)
  once : ∀ o, (late s.log).count (.started o) ≤ 1
  tried : s.point.draining = true → ∀ o ∈ s.queue.drop (s.point.rounds s.queue.length),
    s.drainCancelled = true ∨ lastFailed o s.log = true
  clean : s.point.draining = true → ∀ o, s.point.owner = some o → isDirty s.owners o = false
  failed : ∀ drain left o failed, s.point = .sealed drain left o failed →
    lastFailed o s.log = failed
  balance : ∀ o, s.log.count (.started o) = returns o s.log +
    if s.point.running = some o then 1 else 0
  closed : .done ∈ s.log → s.point = .ended

theorem Logged.goto (h : s.Logged) (hold : s.point.owner = none) (hnew : p.owner = none)
    (hdrains : p.draining = true → s.closing = true) (hstarted : ∀ o, .started o ∈ late s.log →
      p.draining = true ∧ o ∉ s.queue.take (p.rounds s.queue.length))
    (htried : p.draining = true → ∀ o ∈ s.queue.drop (p.rounds s.queue.length),
      s.drainCancelled = true ∨ lastFailed o s.log = true)
    (hended : s.point ≠ .ended) : Logged { s with point := p } := by
  have hrunning : ∀ {q : SealPoint}, q.owner = none → ∀ o, q.running ≠ some o := by
    intro q hq o ho
    cases q <;> cases ho
    cases hq
  refine ⟨h.shut, hdrains, ?_, h.quiet, hstarted, h.once, htried, ?_, ?_, ?_, ?_⟩
  · intro o ho
    rcases h.awaited o ho with hq | ⟨hp, -⟩
    · exact .inl hq
    · rw [hold] at hp
      cases hp
  · intro _ o ho
    change p.owner = some o at ho
    rw [hnew] at ho
    cases ho
  · intro drain left o failed hp
    change p = _ at hp
    rw [hp] at hnew
    cases hnew
  · intro o
    change s.log.count _ = _ + if p.running = some o then 1 else 0
    rw [if_neg (hrunning hnew o), h.balance o, if_neg (hrunning hold o)]
  · intro hd
    exact absurd (h.closed hd) hended

theorem Logged.none_started (h : s.Logged) (hp : s.point.draining = false) :
    ∀ o, .started o ∉ late s.log := by
  intro o ho
  have hd := (h.started o ho).1
  rw [hp] at hd
  cases hd

theorem Logged.not_closing (h : s.Logged) (hc : s.closing = false) :
    s.point.draining = false ∧ .shutdown ∉ s.log := by
  refine ⟨?_, ?_⟩
  · rw [← Bool.not_eq_true]
    intro hd
    rw [h.drains hd] at hc
    cases hc
  · intro hm
    rw [h.shut.2 hm] at hc
    cases hc

theorem Logged.markDirty (ho : s.Owned) (h : s.Logged) (name : String) :
    (s.markDirty name).Logged := by
  unfold SealWorker.markDirty
  split
  · exact h
  rename_i hopen
  simp only [Bool.or_eq_true, not_or, Bool.not_eq_true] at hopen
  obtain ⟨hdrain, hshut⟩ := h.not_closing hopen.1.1
  have hlate : late (.marked name :: s.log) = [] := late_of_not_mem hshut
  have hdone : ∀ {s' : SealWorker}, s'.log = .marked name :: s.log → s'.point = s.point →
      .done ∈ s'.log → s'.point = .ended := by
    intro s' hlog hp hd
    rw [hlog] at hd
    rw [hp]
    exact h.closed (by simpa using hd)
  have hshut' : s.closing = true ↔ .shutdown ∈ (.marked name :: s.log : List SealEvent) := by
    simpa using h.shut
  have hbalance : ∀ o, (.marked name :: s.log : List SealEvent).count (.started o) =
      returns o (.marked name :: s.log) + if s.point.running = some o then 1 else 0 := by
    intro o
    simpa [returns, count_cons] using h.balance o
  split
  next hkey =>
    refine ⟨hshut', h.drains, ?_, ?_, ?_, ?_, ?_, ?_, h.failed, hbalance, hdone rfl rfl⟩
    · intro o hw
      simp only [awaits, Bool.or_eq_true, beq_iff_eq] at hw
      by_cases heq : o = name
      · subst heq
        rcases (ho.split o).1 hkey with hq | hp
        · exact .inl hq
        · exact .inr ⟨hp, isDirty_setDirty_self hkey⟩
      · rcases h.awaited o (hw.resolve_left fun he => heq he.symm) with hq | ⟨hp, hd⟩
        · exact .inl hq
        · exact .inr ⟨hp, by rw [isDirty_setDirty_ne heq]; exact hd⟩
    · simp [hlate]
    · simp [hlate]
    · simp [hlate]
    · intro hd
      rw [hdrain] at hd
      cases hd
    · intro hd
      rw [hdrain] at hd
      cases hd
  split
  · exact h
  refine ⟨hshut', h.drains, ?_, ?_, ?_, ?_, ?_, ?_, h.failed, hbalance, hdone rfl rfl⟩
  · intro o hw
    simp only [awaits, Bool.or_eq_true, beq_iff_eq] at hw
    rcases hw with rfl | hw
    · exact .inl (by simp)
    rcases h.awaited o hw with hq | ⟨hp, hd⟩
    · exact .inl (by simp [hq])
    refine .inr ⟨hp, ?_⟩
    simp only [isDirty, any_append, Bool.or_eq_true]
    exact .inl hd
  · simp [hlate]
  · simp [hlate]
  · simp [hlate]
  · intro hd
    rw [hdrain] at hd
    cases hd
  · intro hd
    rw [hdrain] at hd
    cases hd

theorem Logged.shutdown (h : s.Logged) : s.shutdown.Logged := by
  unfold SealWorker.shutdown
  split
  · exact h
  rename_i hopen
  obtain ⟨hdrain, hshut⟩ := h.not_closing (by simpa using hopen)
  have hlate : late (.shutdown :: s.log) = [] := late_of_not_mem hshut
  refine ⟨by simp, fun _ => rfl, h.awaited, ?_, ?_, ?_, ?_, ?_, h.failed, ?_, ?_⟩
  · simp [hlate]
  · simp [hlate]
  · simp [hlate]
  · intro hd
    rw [hdrain] at hd
    cases hd
  · intro hd
    rw [hdrain] at hd
    cases hd
  · intro o
    simpa [returns, count_cons] using h.balance o
  · intro hd
    exact h.closed (by simpa using hd)

theorem Logged.leave (h : s.Logged) (hp : s.point.owner = none) (hd : s.point.draining = drain)
    (hend : drain = true → s.point.rounds s.queue.length = 0 ∨ s.drainCancelled = true)
    (hended : s.point ≠ .ended) : (s.leave drain).Logged := by
  cases drain with
  | false =>
    refine h.goto hp rfl nofun ?_ nofun hended
    intro o ho
    exact absurd ho (h.none_started hd o)
  | true =>
    refine h.goto hp rfl (fun _ => h.drains hd) ?_ ?_ hended
    · intro o ho
      exact ⟨rfl, by simp [rounds]⟩
    intro _ o hm
    rcases hend rfl with hr | hc
    · have htried := h.tried hd o
      rw [hr] at htried
      exact htried hm
    · exact .inl hc

theorem Logged.take (ho : s.Owned) (h : s.Logged) (hp : s.point = .checked drain left) :
    (s.take drain left).Logged := by
  have howner : s.point.owner = none := by rw [hp]; rfl
  have hdraining : s.point.draining = drain := by rw [hp]; rfl
  have hended : s.point ≠ .ended := by
    rw [hp]
    nofun
  unfold SealWorker.take
  split
  next hstop =>
    simp only [Bool.and_eq_true, Bool.not_eq_true'] at hstop
    obtain ⟨rfl, -⟩ := hstop
    exact h.leave howner hdraining nofun hended
  rename_i hgo
  split
  next hq =>
    have hroom := ho.room
    rw [hp, hq] at hroom
    cases hroom
  rename_i name queue hq
  have hkey : name ∈ s.keys := (ho.split name).2 (.inl (by simp [hq]))
  have hnodup := ho.queue
  rw [hq, nodup_cons] at hnodup
  rw [if_pos hkey]
  have hlate : ∀ e ∈ late (.started name :: s.log), drain = true ∧
      late (.started name :: s.log) = .started name :: late s.log := by
    intro e he
    by_cases hs : .shutdown ∈ s.log
    · have hc := h.shut.2 hs
      rw [hc, Bool.and_true, Bool.not_eq_true, Bool.not_eq_false'] at hgo
      exact ⟨hgo, late_of_mem hs⟩
    · rw [late_of_not_mem hs] at he
      cases he
  have hfresh : drain = true → .started name ∉ late s.log := by
    intro hd hm
    have hold := (h.started name hm).2
    rw [hp, hq] at hold
    exact hold (by simp [rounds])
  refine ⟨by simpa using h.shut, ?_, ?_, ?_, ?_, ?_, ?_, ?_, nofun, ?_, ?_⟩
  · intro hd
    exact h.drains (hdraining.trans hd)
  · intro o hw
    simp only [awaits, Bool.and_eq_true, bne_iff_ne] at hw
    rcases h.awaited o hw.2 with hm | ⟨ho', -⟩
    · rw [hq, mem_cons] at hm
      exact .inl (hm.resolve_left fun he => hw.1 he.symm)
    · rw [howner] at ho'
      cases ho'
  · intro o hm
    obtain ⟨-, hl⟩ := hlate _ hm
    rw [hl, mem_cons] at hm
    exact h.quiet o (hm.resolve_left nofun)
  · intro o hm
    obtain ⟨hd, hl⟩ := hlate _ hm
    refine ⟨hd, ?_⟩
    change o ∉ queue.take left
    rw [hl, mem_cons] at hm
    rcases hm with he | hm
    · cases he
      exact fun hmem => hnodup.1 (mem_of_mem_take hmem)
    have hold := (h.started o hm).2
    rw [hp, hq] at hold
    simp only [rounds, take_succ_cons, mem_cons, not_or] at hold
    exact hold.2
  · intro o
    by_cases hm : .started name ∈ late (.started name :: s.log)
    · obtain ⟨hd, hl⟩ := hlate _ hm
      rw [hl, count_cons]
      split
      next heq =>
        cases beq_iff_eq.1 heq
        have hzero := count_eq_zero_of_not_mem (hfresh hd)
        omega
      · exact h.once o
    · have hnil : late (.started name :: s.log) = [] := by
        by_cases hs : .shutdown ∈ s.log
        · rw [late_of_mem hs] at hm
          exact absurd mem_cons_self hm
        · exact late_of_not_mem hs
      rw [hnil]
      exact Nat.zero_le _
  · intro hd o hm
    change o ∈ queue.drop left at hm
    have htried := h.tried (hdraining.trans hd) o
    rw [hp, hq] at htried
    exact htried (by simpa [rounds] using hm)
  · intro _ o hown
    cases hown
    exact isDirty_setDirty_self hkey
  · intro o
    have hb := h.balance o
    rw [hp] at hb
    simp only [running, reduceCtorEq, ↓reduceIte, Nat.add_zero] at hb
    change (SealEvent.started name :: s.log).count _ =
      returns o (.started name :: s.log) + if some name = some o then 1 else 0
    rw [count_cons, hb]
    simp [returns]
  · intro hd
    exact absurd (h.closed (by simpa using hd)) hended

theorem Logged.settle {failed : Bool} (ho : s.Owned) (h : s.Logged)
    (hp : s.point = .sealed drain left name failed) : (s.settle drain left name failed).Logged := by
  have hdraining : s.point.draining = drain := by rw [hp]; rfl
  have howner : s.point.owner = some name := by rw [hp]; rfl
  have hended : s.point ≠ .ended := by
    rw [hp]
    nofun
  have hroom : left ≤ s.queue.length := by
    have hr := ho.room
    rw [hp] at hr
    exact hr
  have hbalance : ∀ o, s.log.count (.started o) = returns o s.log + 0 := by
    intro o
    have hb := h.balance o
    rw [hp] at hb
    exact hb
  have hstarted : ∀ o, .started o ∈ late s.log → drain = true ∧ o ∉ s.queue.take left := by
    intro o hm
    have hs := h.started o hm
    rw [hp] at hs
    exact hs
  have htried : drain = true → ∀ o ∈ s.queue.drop left,
      s.drainCancelled = true ∨ lastFailed o s.log = true := by
    intro hd o hm
    have ht := h.tried (hdraining.trans hd) o
    rw [hp] at ht
    exact ht hm
  unfold SealWorker.settle
  split
  next hagain =>
    refine ⟨h.shut, fun hd => h.drains (hdraining.trans hd), ?_, h.quiet, ?_, h.once, ?_, nofun,
      nofun,
      hbalance, fun hd => absurd (h.closed hd) hended⟩
    · intro o hw
      left
      rcases h.awaited o hw with hq | ⟨hown, -⟩
      · simp [hq]
      rw [howner] at hown
      cases hown
      simp
    · intro o hm
      obtain ⟨hd, hn⟩ := hstarted o hm
      refine ⟨hd, ?_⟩
      change o ∉ (s.queue ++ [name]).take left
      rw [take_append_of_le_length hroom]
      exact hn
    · intro hd o hm
      change drain = true at hd
      change o ∈ (s.queue ++ [name]).drop left at hm
      rw [drop_append_of_le_length hroom, mem_append] at hm
      rcases hm with hm | hm
      · exact htried hd o hm
      rw [mem_singleton.1 hm, h.failed _ _ _ _ hp]
      rw [h.clean (hdraining.trans hd) name howner, Bool.or_false] at hagain
      exact .inr hagain
  next hgone =>
  simp only [Bool.or_eq_true, not_or, Bool.not_eq_true] at hgone
  refine ⟨h.shut, fun hd => h.drains (hdraining.trans hd), ?_, h.quiet, hstarted, h.once, htried,
    nofun, nofun, hbalance, fun hd => absurd (h.closed hd) hended⟩
  intro o hw
  rcases h.awaited o hw with hq | ⟨hown, hd⟩
  · exact .inl hq
  rw [howner] at hown
  cases hown
  rw [hgone.2] at hd
  cases hd

theorem Logged.work (ho : s.Owned) (h : s.Logged) : s.work.Logged := by
  unfold SealWorker.work
  cases hp : s.point with
  | top =>
    have howner : s.point.owner = none := by rw [hp]; rfl
    have hnone := h.none_started (by rw [hp]; rfl)
    have hended : s.point ≠ .ended := by rw [hp]; nofun
    simp only
    split
    next hc =>
      refine h.goto howner rfl (fun _ => hc) (fun o hm => absurd hm (hnone o)) ?_ hended
      intro _ o hm
      simp [rounds] at hm
    · exact h.goto howner rfl nofun (fun o hm => absurd hm (hnone o)) nofun hended
  | waiting =>
    have hnone := h.none_started (by rw [hp]; rfl)
    simp only
    split
    · exact h.goto (by rw [hp]; rfl) rfl nofun (fun o hm => absurd hm (hnone o)) nofun
        (by rw [hp]; nofun)
    · exact h
  | begin drain =>
    have hstarted := h.started
    have htried := h.tried
    have hdrains := h.drains
    rw [hp] at hstarted htried hdrains
    exact h.goto (by rw [hp]; rfl) rfl hdrains hstarted htried (by rw [hp]; nofun)
  | next drain left =>
    have howner : s.point.owner = none := by rw [hp]; rfl
    have hdraining : s.point.draining = drain := by rw [hp]; rfl
    have hended : s.point ≠ .ended := by rw [hp]; nofun
    cases left with
    | zero =>
      refine h.leave howner hdraining ?_ hended
      intro _
      rw [hp]
      exact .inl rfl
    | succ left =>
      simp only
      split
      next hc =>
        refine h.leave howner hdraining ?_ hended
        rintro rfl
        exact .inr hc
      have hstarted := h.started
      have htried := h.tried
      have hdrains := h.drains
      rw [hp] at hstarted htried hdrains
      exact h.goto howner rfl hdrains hstarted htried hended
  | checked drain left => exact h.take ho hp
  | sealed drain left name failed => exact h.settle ho hp
  | finishing =>
    have hstarted := h.started
    have htried := h.tried
    have hdrains := h.drains
    have hbalance := h.balance
    have hawaited := h.awaited
    rw [hp] at hstarted htried hdrains hbalance hawaited
    have hlate : late (.done :: s.log) = .done :: late s.log := late_of_mem (h.shut.1 (hdrains rfl))
    refine ⟨by simpa using h.shut, fun _ => hdrains rfl, ?_, ?_, ?_, ?_, htried, nofun, nofun, ?_,
      fun _ => rfl⟩
    · intro o hw
      exact .inl ((hawaited o hw).resolve_right nofun)
    · intro o hm
      rw [hlate, mem_cons] at hm
      exact h.quiet o (hm.resolve_left nofun)
    · intro o hm
      rw [hlate, mem_cons] at hm
      exact hstarted o (hm.resolve_left nofun)
    · intro o
      rw [hlate, count_cons_of_ne (show done ≠ .started o from nofun)]
      exact h.once o
    · intro o
      simpa [returns, count_cons, running] using hbalance o
  | sealing drain left name | ended | panicked => exact h

theorem Logged.returns {name : String} (ho : s.Owned) (h : s.Logged)
    (hp : s.point = .sealing drain left name)
    (failed : Bool) : Logged { s with
      point := .sealed drain left name failed, log := .returned name failed :: s.log } := by
  have hstarted := h.started
  have htried := h.tried
  have hdrains := h.drains
  have hbalance := h.balance
  have hawaited := h.awaited
  have hclean := h.clean
  rw [hp] at hstarted htried hdrains hbalance hawaited hclean
  have hlate : ∀ e ∈ late (.returned name failed :: s.log), e ≠ .returned name failed →
      e ∈ late s.log := by
    intro e he hne
    by_cases hs : .shutdown ∈ s.log
    · rw [late_of_mem hs, mem_cons] at he
      exact he.resolve_left hne
    rw [late_of_not_mem hs] at he
    cases he
  refine ⟨by simpa using h.shut, hdrains, hawaited, ?_, ?_, ?_, ?_, hclean, ?_, ?_, ?_⟩
  · intro o hm
    exact h.quiet o (hlate _ hm nofun)
  · intro o hm
    exact hstarted o (hlate _ hm nofun)
  · intro o
    by_cases hs : .shutdown ∈ s.log
    · rw [late_of_mem hs, count_cons_of_ne (show returned name failed ≠ .started o from nofun)]
      exact h.once o
    rw [late_of_not_mem hs]
    exact Nat.zero_le _
  · intro hd o hm
    rcases htried hd o hm with hc | hf
    · exact .inl hc
    have hname : name ≠ o := by
      rintro rfl
      exact ho.apart name (by rw [hp]; rfl) (mem_of_mem_drop hm)
    right
    simp only [lastFailed, if_neg hname]
    exact hf
  · intro drain' left' o failed' he
    cases he
    exact if_pos rfl
  · intro o
    have hb := hbalance o
    change (returned name failed :: s.log).count _ =
      SealEvent.returns o (.returned name failed :: s.log) + 0
    rw [count_cons_of_ne (show returned name failed ≠ .started o from nofun), hb]
    cases failed <;> by_cases hname : name = o <;>
      simp [SealEvent.returns, SealPoint.running, hname] <;> omega
  · intro hd
    have hc := h.closed (by simpa using hd)
    rw [hp] at hc
    cases hc

theorem Logged.step (ho : s.Owned) (h : s.Logged) (a : SealAction) : (s.step a).Logged := by
  cases a with
  | markDirty name => exact h.markDirty ho name
  | shutdown => exact h.shutdown
  | cancelDrain =>
    simp only [SealWorker.step]
    split
    · exact { h with tried := fun _ _ _ => .inl rfl }
    · exact h
  | cancelJob =>
    simp only [SealWorker.step]
    split
    · exact { h with }
    · exact h
  | tick =>
    simp only [SealWorker.step]
    split
    next hp =>
      have hnone := h.none_started (by rw [hp]; rfl)
      exact h.goto (by rw [hp]; rfl) rfl nofun (fun o hm => absurd hm (hnone o)) nofun
        (by rw [hp]; nofun)
    · exact h
  | work => exact h.work ho
  | returns failed =>
    simp only [SealWorker.step]
    split
    next hp => exact h.returns ho hp failed
    · exact h

theorem run_inv (as : List SealAction) : (run as).Owned ∧ (run as).Logged := by
  have hstep : ∀ (s : SealWorker) (a : SealAction), s.Owned ∧ s.Logged →
      (s.step a).Owned ∧ (s.step a).Logged := by
    intro s a h
    exact ⟨h.1.step a, h.2.step h.1 a⟩
  apply Lib.exec_invariant_forall hstep
  constructor
  · exact ⟨nodup_nil, nodup_nil, by simp [keys, SealPoint.owner], nofun, Nat.zero_le _,
      Nat.le_refl _, nofun⟩
  · exact ⟨by simp, nofun, nofun, by simp [late], by simp [late], by simp [late], nofun, nofun,
      nofun, by simp [returns, running], by simp⟩

end SealWorker

end TorrentHub
