import Mathlib.Data.List.Perm.Subperm
import Mathlib.Order.Nat
import TorrentHub.Resume.SealQueue

namespace TorrentHub

/-- The steps the worker has before it takes the next owner, or at most as many. -/
def SealPoint.rank (closing : Bool) : SealPoint → Nat
  | .ended | .panicked => 0
  | .finishing => 1
  | .checked true _ => 2
  | .next true _ => 3
  | .begin true => 4
  | .sealed true _ _ _ => 5
  | .sealing true _ _ => 6
  | .top => if closing then 5 else 14
  | .checked false _ => if closing then 6 else 10
  | .next false 0 => if closing then 7 else 15
  | .next false (_ + 1) => if closing then 7 else 11
  | .begin false => if closing then 8 else 12
  | .waiting => if closing then 9 else 13
  | .sealed false _ _ _ => if closing then 8 else 16
  | .sealing false _ _ => if closing then 9 else 17

namespace SealWorker
open SealEvent List SealWorker SealPoint

/-- The action the worker stands before: the tick it selects on, the return of the callback it
runs, or its own next step. -/
def Expects (s : SealWorker) : SealAction → Prop
  | .tick => s.point = .waiting
  | .returns _ => s.point.running.isSome
  | .work => s.point ≠ .waiting ∧ s.point.running = none
  | _ => False

/-- A stretch of a run in which the ticker fires, the worker is scheduled and a callback returns. -/
def Turn (as : List SealAction) : Prop := .tick ∈ as ∧ .work ∈ as ∧ ∃ failed, .returns failed ∈ as

/-- Enough turns for every owner that can be ahead in the queue. -/
def turns : Nat := 18 * (maxPendingOwners + 1)

def place (s : SealWorker) (o : String) : Nat :=
  if o ∈ s.queue then s.queue.idxOf o else maxPendingOwners

def distance (o : String) (s : SealWorker) : Nat := 18 * s.place o + s.point.rank s.closing

/-- The mark before which `pre` was logged is followed by a start, or the worker is over. -/
def Answered (o : String) (pre : List SealEvent) (s : SealWorker) : Prop :=
  s.point = .ended ∨ ∃ post, s.log = post ++ .marked o :: pre ∧ .started o ∈ post

/-- A context is cancelled only in a shutdown. -/
structure Cancels (s : SealWorker) : Prop where
  drain : s.drainCancelled = true → s.closing = true
  job : s.jobCancelled = true → s.closing = true

structure Marked (o : String) (pre : List SealEvent) (s : SealWorker) : Prop where
  owned : s.Owned
  logged : s.Logged
  cancels : s.Cancels
  mark : ∃ post, s.log = post ++ .marked o :: pre

variable {s : SealWorker} {o : String} {pre : List SealEvent} {a : SealAction} {p : SealPoint}

theorem Owned.queue_length (h : s.Owned) : s.queue.length ≤ maxPendingOwners := by
  have hsub : s.queue ⊆ s.keys := fun o ho => (h.split o).2 (.inl ho)
  have hle := (h.queue.subperm hsub).length_le
  rw [SealWorker.keys, length_map] at hle
  exact hle.trans h.bound

theorem Owned.place_le (h : s.Owned) : s.place o ≤ maxPendingOwners := by
  unfold place
  split
  next hmem => exact (idxOf_lt_length_of_mem hmem).le.trans h.queue_length
  · exact le_rfl

theorem log_step (s : SealWorker) (a : SealAction) : ∃ new, (s.step a).log = new ++ s.log := by
  cases a <;> simp only [step, markDirty, shutdown, work, take, settle, leave] <;>
    (repeat' split) <;>
    first | exact ⟨[], rfl⟩ | exact ⟨[_], rfl⟩

theorem Cancels.step (h : s.Cancels) (a : SealAction) : (s.step a).Cancels := by
  obtain ⟨hdrain, hjob⟩ := h
  cases a <;> simp only [SealWorker.step, markDirty, shutdown, work, take, settle, leave] <;>
    (repeat' split) <;> constructor <;> simp_all

theorem Answered.step (h : Answered o pre s) (a : SealAction) : Answered o pre (s.step a) := by
  rcases h with h | ⟨post, hlog, hmem⟩
  · left
    cases a <;> simp only [SealWorker.step, markDirty, shutdown, work, h] <;> (repeat' split) <;>
      simp_all
  · obtain ⟨new, hnew⟩ := log_step s a
    exact .inr ⟨new ++ post, by rw [hnew, hlog, append_assoc], mem_append_right _ hmem⟩

namespace Marked

theorem step (h : Marked o pre s) (a : SealAction) : Marked o pre (s.step a) := by
  obtain ⟨post, hpost⟩ := h.mark
  obtain ⟨new, hnew⟩ := log_step s a
  exact ⟨h.owned.step a, h.logged.step h.owned a, h.cancels.step a, new ++ post,
    by rw [hnew, hpost, append_assoc]⟩

theorem pending (h : Marked o pre s) (hn : ¬Answered o pre s) :
    o ∈ s.queue ∨ s.point.owner = some o ∧ isDirty s.owners o = true := by
  obtain ⟨post, hpost⟩ := h.mark
  have hnot : .started o ∉ post := fun hm => hn (.inr ⟨post, hpost, hm⟩)
  exact h.logged.awaited o (hpost ▸ awaits_of_marked hnot)

theorem queued (h : Marked o pre s) (hn : ¬Answered o pre s) (hp : s.point.owner = none) :
    o ∈ s.queue := by
  rcases h.pending hn with hq | ⟨ho, -⟩
  · exact hq
  · rw [hp] at ho
    cases ho

theorem markDirty_le (h : Marked o pre s) (name : String) :
    (s.markDirty name).distance o ≤ s.distance o := by
  have hle := (h.owned.markDirty name).place_le (o := o)
  have hplace : (s.markDirty name).place o ≤ s.place o := by
    by_cases hq : o ∈ s.queue
    · unfold SealWorker.markDirty
      repeat' split
      all_goals simp [place, hq, idxOf_append_of_mem hq]
    · exact hle.trans_eq (if_neg hq).symm
  have hpoint : (s.markDirty name).point = s.point ∧ (s.markDirty name).closing = s.closing := by
    unfold SealWorker.markDirty
    repeat' split
    all_goals exact ⟨rfl, rfl⟩
  rw [distance, distance, hpoint.1, hpoint.2]
  omega

theorem goto_lt (h : p.rank s.closing < s.point.rank s.closing) :
    distance o { s with point := p } < distance o s := Nat.add_lt_add_left h _

theorem take_lt {left : Nat} (h : Marked o pre s) (hn : ¬Answered o pre s)
    (hp : s.point = .checked drain left) :
    Answered o pre (s.take drain left) ∨ (s.take drain left).distance o < s.distance o := by
  have hq := h.queued hn (by rw [hp]; rfl)
  unfold SealWorker.take
  split
  next hstop =>
    simp only [Bool.and_eq_true, Bool.not_eq_true'] at hstop
    obtain ⟨rfl, hc⟩ := hstop
    exact .inr (goto_lt (by simp [hp, rank, hc]))
  next hgo =>
  split
  next hempty => simp [hempty] at hq
  next name queue hqueue =>
  have hkey : name ∈ s.keys := (h.owned.split name).2 (.inl (by simp [hqueue]))
  rw [if_pos hkey]
  by_cases heq : name = o
  · subst heq
    obtain ⟨post, hpost⟩ := h.mark
    exact .inl (.inr ⟨.started name :: post, by simp [hpost], mem_cons_self⟩)
  right
  have hmem : o ∈ queue := by
    rw [hqueue, mem_cons] at hq
    exact hq.resolve_left fun he => heq he.symm
  have hplace : s.place o = queue.idxOf o + 1 := by
    rw [place, if_pos hq, hqueue, idxOf_cons_ne _ heq]
  simp only [distance, hplace, hp]
  simp only [place, if_pos hmem]
  cases drain with
  | true => simp only [rank]; omega
  | false =>
    have hc : s.closing = false := by simpa using hgo
    simp only [rank, hc, Bool.false_eq_true, if_false]
    omega

theorem settle_lt {left : Nat} {name : String} {failed : Bool} (h : Marked o pre s)
    (hp : s.point = .sealed drain left name failed) :
    (s.settle drain left name failed).distance o < s.distance o := by
  have hrank : (SealPoint.next drain left).rank s.closing < s.point.rank s.closing := by
    rw [hp]
    cases drain <;> cases left <;> cases s.closing <;> simp [rank]
  have hplace : (s.settle drain left name failed).place o ≤ s.place o := by
    by_cases hq : o ∈ s.queue
    · unfold SealWorker.settle
      split <;> simp [place, hq, idxOf_append_of_mem hq]
    · have hle := (h.owned.settle hp).place_le (o := o)
      exact hle.trans_eq (if_neg hq).symm
  have hpoint : (s.settle drain left name failed).point = .next drain left ∧
      (s.settle drain left name failed).closing = s.closing := by
    unfold SealWorker.settle
    split <;> exact ⟨rfl, rfl⟩
  rw [distance, distance, hpoint.1, hpoint.2]
  omega

theorem work_lt (h : Marked o pre s) (hn : ¬Answered o pre s) (hE : s.Expects .work) :
    Answered o pre s.work ∨ s.work.distance o < s.distance o := by
  unfold SealWorker.work
  cases hp : s.point with
  | waiting => exact absurd hp hE.1
  | sealing drain left name => simp [Expects, hp, running] at hE
  | ended => exact absurd (.inl hp) hn
  | panicked => exact absurd hp h.owned.sound
  | top => exact .inr (goto_lt (by cases hc : s.closing <;> simp [hp, rank]))
  | begin drain =>
    have hpos := length_pos_of_mem (h.queued hn (by rw [hp]; rfl))
    obtain ⟨n, hlen⟩ := Nat.exists_eq_succ_of_ne_zero hpos.ne'
    refine .inr (goto_lt ?_)
    rw [hp, hlen]
    cases drain <;> cases s.closing <;> simp [rank]
  | next drain left =>
    right
    have hjob := h.cancels.job
    have hleave : s.closing = true ∨ left = 0 ∨ drain = true →
        distance o (s.leave drain) < distance o s := by
      intro hor
      refine goto_lt ?_
      rw [hp]
      cases drain <;> cases left <;> cases hc : s.closing <;> simp_all [rank]
    cases left with
    | zero => exact hleave (.inr (.inl rfl))
    | succ left =>
      simp only
      split
      next hcancel =>
        refine hleave ?_
        cases drain with
        | true => exact .inr (.inr rfl)
        | false => exact .inl (hjob hcancel)
      · refine goto_lt ?_
        rw [hp]
        cases drain <;> cases s.closing <;> simp [rank]
  | checked drain left => exact h.take_lt hn hp
  | sealed drain left name failed => exact .inr (h.settle_lt hp)
  | finishing => exact .inl (.inl rfl)

theorem progress (h : Marked o pre s) (hn : ¬Answered o pre s) (a : SealAction) :
    Answered o pre (s.step a) ∨ (s.step a).distance o < s.distance o ∨
      ¬s.Expects a ∧ (s.step a).distance o ≤ s.distance o ∧
        ∀ b, s.Expects b → (s.step a).Expects b := by
  have hsame : s.step a = s → ¬s.Expects a → ¬s.Expects a ∧
      (s.step a).distance o ≤ s.distance o ∧ ∀ b, s.Expects b → (s.step a).Expects b := by
    intro heq hE
    rw [heq]
    exact ⟨hE, le_rfl, fun _ hb => hb⟩
  have hidle : ∀ s' : SealWorker, s'.point = s.point → ∀ b, s.Expects b → s'.Expects b := by
    intro s' hp b hb
    cases b <;> simp_all [Expects]
  cases a with
  | markDirty name =>
    refine .inr (.inr ⟨id, h.markDirty_le name, hidle _ ?_⟩)
    simp only [SealWorker.step, SealWorker.markDirty]
    repeat' split
    all_goals rfl
  | shutdown =>
    have hle : s.point.rank true ≤ s.point.rank s.closing := by
      cases s.closing with
      | true => exact le_rfl
      | false =>
        cases s.point with
        | next drain left => cases drain <;> cases left <;> simp [rank]
        | begin drain | checked drain left | sealing drain left name
        | sealed drain left name failed => cases drain <;> simp [rank]
        | _ => simp [rank]
    refine .inr (.inr ⟨id, ?_, hidle _ ?_⟩)
    · simp only [SealWorker.step, SealWorker.shutdown]
      split
      · exact le_rfl
      · exact Nat.add_le_add_left hle _
    · simp only [SealWorker.step, SealWorker.shutdown]
      split <;> rfl
  | cancelDrain | cancelJob =>
    refine .inr (.inr ⟨id, ?_, hidle _ ?_⟩)
    · simp only [SealWorker.step]
      split <;> exact le_rfl
    · simp only [SealWorker.step]
      split <;> rfl
  | tick =>
    by_cases hp : s.point = .waiting
    · simp only [SealWorker.step, if_pos hp]
      exact .inr (.inl (goto_lt (by cases hc : s.closing <;> simp [hp, rank])))
    · exact .inr (.inr (hsame (if_neg hp) hp))
  | work =>
    by_cases hE : s.Expects .work
    · rcases h.work_lt hn hE with hA | hlt
      · exact .inl hA
      · exact .inr (.inl hlt)
    cases hp : s.point with
    | waiting =>
      by_cases hc : s.closing = true
      · simp only [SealWorker.step, work, hp, if_pos hc]
        exact .inr (.inl (goto_lt (by simp [hp, rank, hc])))
      · exact .inr (.inr (hsame (by simp [SealWorker.step, work, hp, hc]) hE))
    | sealing drain left name =>
      exact .inr (.inr (hsame (by simp [SealWorker.step, work, hp]) hE))
    | _ => simp [Expects, hp, running] at hE
  | returns failed =>
    cases hp : s.point with
    | sealing drain left name =>
      simp only [SealWorker.step, hp]
      refine .inr (.inl (goto_lt (p := .sealed drain left name failed) ?_))
      rw [hp]
      cases drain <;> cases s.closing <;> simp [rank]
    | _ =>
      exact .inr (.inr (hsame (by simp [SealWorker.step, hp]) (by simp [Expects, hp, running])))

theorem answered (h : Marked o pre s) {rounds : List (List SealAction)}
    (hturn : ∀ as ∈ rounds, Turn as) (hlen : turns ≤ rounds.length) :
    Answered o pre (Lib.exec SealWorker.step s rounds.flatten) := by
  have hlt : s.distance o < rounds.length := by
    have hplace := h.owned.place_le (o := o)
    have hrank : s.point.rank s.closing ≤ 17 := by
      unfold rank
      repeat' split
      all_goals simp
    simp only [distance, turns] at hlen ⊢
    omega
  obtain ⟨bs, cs, hsplit, hG⟩ := Lib.exec_reaches (distance o) (E := Expects)
    (fun s a hs hn => ⟨hs.step a, hs.progress hn a⟩)
    (fun s as has hs hn => by
      obtain ⟨htick, hwork, failed, hreturns⟩ := hturn as has
      cases hp : s.point with
      | waiting => exact ⟨_, htick, hp⟩
      | sealing drain left name => exact ⟨_, hreturns, by simp [Expects, hp, running]⟩
      | _ => exact ⟨_, hwork, by simp [Expects, hp, running]⟩) h hlt
  rw [hsplit, Lib.exec_append]
  exact Lib.exec_invariant_forall (fun s a hs => hs.step a) hG cs

end Marked

/-- The seal queue under any interleaving. The owners are the queue and the one being sealed, at
most 64 and each once. A mark is followed by a start, or its owner waits, at the end only if the
drain was cancelled or its last callback failed. After the first shutdown no mark is accepted and no
owner is started twice, and the done channel is closed last. Whatever else happens, enough turns of
the worker start the seal of a marked owner or end the worker. -/
theorem no_mark_lost (as : List SealAction) :
    let s := run as
    s.point ≠ .panicked ∧
    ((∀ o, o ∈ s.keys ↔ o ∈ s.queue ∨ s.point.owner = some o) ∧ s.keys.Nodup ∧ s.queue.Nodup ∧
      (∀ o, s.point.owner = some o → o ∉ s.queue) ∧ s.owners.length ≤ maxPendingOwners) ∧
    (∀ o pre post, s.log = post ++ .marked o :: pre → .started o ∈ post ∨ o ∈ s.queue ∨
      s.point.owner = some o ∧ isDirty s.owners o = true) ∧
    (s.point = .ended →
      (∀ o pre post, s.log = post ++ .marked o :: pre → .started o ∈ post ∨ o ∈ s.queue) ∧
      ∀ o ∈ s.queue, s.drainCancelled = true ∨ lastFailed o s.log = true) ∧
    (∀ pre post, s.log = post ++ .shutdown :: pre → .shutdown ∉ pre →
      ∀ o, .marked o ∉ post ∧ post.count (.started o) ≤ 1) ∧
    (.done ∈ s.log → ∀ o, s.log.count (.started o) = SealEvent.returns o s.log) ∧
    ∀ o pre post, s.log = post ++ .marked o :: pre → ∀ rounds : List (List SealAction),
      (∀ bs ∈ rounds, Turn bs) → turns ≤ rounds.length →
        let t := run (as ++ rounds.flatten)
        t.point = .ended ∨ ∃ post', t.log = post' ++ .marked o :: pre ∧ .started o ∈ post' := by
  intro s
  obtain ⟨ho, h⟩ := run_inv as
  have hmark : ∀ o pre post, s.log = post ++ .marked o :: pre → .started o ∈ post ∨ o ∈ s.queue ∨
      s.point.owner = some o ∧ isDirty s.owners o = true := by
    intro o pre post hlog
    by_cases hm : .started o ∈ post
    · exact .inl hm
    · exact .inr (h.awaited o (hlog ▸ awaits_of_marked hm))
  refine ⟨ho.sound, ⟨ho.split, ho.keys, ho.queue, ho.apart, ho.bound⟩, hmark, ?_, ?_, ?_, ?_⟩
  · intro hend
    constructor
    · intro o pre post hlog
      rcases hmark o pre post hlog with hm | hq | ⟨hown, -⟩
      · exact .inl hm
      · exact .inr hq
      · rw [hend] at hown
        cases hown
    · intro o hq
      have htried := h.tried
      rw [show (run as).point = .ended from hend] at htried
      exact htried rfl o hq
  · intro pre post hlog hfirst o
    have hlate : late s.log = post := by rw [hlog, late_append hfirst]
    exact ⟨hlate ▸ h.quiet o, hlate ▸ h.once o⟩
  · intro hdone o
    have hb := h.balance o
    rw [show (run as).point = .ended from h.closed hdone] at hb
    exact hb
  · intro o pre post hlog rounds hturn hlen
    have hcancels : s.Cancels :=
      Lib.exec_invariant_forall (fun _ a hs => hs.step a) ⟨nofun, nofun⟩ as
    rw [run, Lib.exec_append]
    exact Marked.answered ⟨ho, h, hcancels, post, hlog⟩ hturn hlen

/-- A mark, a tick and its batch, then the shutdown. -/
def sealedOnce : List SealAction :=
  [.markDirty "a", .work, .tick, .work, .work, .work, .returns false, .work, .shutdown,
    .work, .work, .work, .work, .work]

theorem no_mark_lost_sealedOnce :
    ((run sealedOnce).point = .ended ∧ (run sealedOnce).log =
      [.done, .shutdown, .returned "a" false, .started "a", .marked "a"]) ∧
    (run [.markDirty "a"]).log = [.marked "a"] ∧
    let t := run ([.markDirty "a"] ++ (replicate turns [.tick, .work, .returns true]).flatten)
    t.point = .ended ∨ ∃ post, t.log = post ++ [.marked "a"] ∧ .started "a" ∈ post := by
  refine ⟨by decide, by decide, ?_⟩
  refine (no_mark_lost [.markDirty "a"]).2.2.2.2.2.2 "a" [] [] (by decide) _ ?_ ?_
  · intro bs hbs
    rw [eq_of_mem_replicate hbs]
    exact ⟨by simp, by simp, true, by simp⟩
  · rw [length_replicate]

end SealWorker

end TorrentHub
