import TorrentHub.Engine.Handover

namespace TorrentHub

open Lib List Option Ownership OwnershipEvent

inductive OwnerPlace where
  | registering
  | managed
  | detaching
deriving DecidableEq

namespace Ownership

variable {infoHash : Nat → String} {s s' : Ownership} {i j : Nat} {g : Generation}
  {q : GenerationPoint} {hash : String} {raw : Nat} {a : OwnershipAction}

def mapOf (s : Ownership) : OwnerPlace → OwnerMap
  | .registering => s.registering
  | .managed => s.managed
  | .detaching => s.detaching

/-- A deletion does not detach a runtime whose info hash is being registered; the code compares that
hash with the key of the deletion only. -/
def Apart (infoHash : Nat → String) (s : Ownership) (a : OwnershipAction) : Prop :=
  ∀ hash, a = .delete hash → (s.delete infoHash hash).managed.find hash = none →
    ∀ row, s.managed.find hash = some row → ∀ other ∈ s.registering.rows,
      (s.rawOf other.runtime).map infoHash ≠ (s.rawOf row.runtime).map infoHash

def Clear (infoHash : Nat → String) (s : Ownership) : Prop :=
  ∀ (i j : Nat) (g g' : Generation), s.generations[i]? = some g → s.generations[j]? = some g' →
    g.point = .persisting →
    (g'.point = .persisting ∨ g'.point = .dropping ∨ g'.point = .retiring) → i ≠ j →
    infoHash g.raw ≠ infoHash g'.raw

section clear

section

variable (h : Clear infoHash s)
include h

theorem Clear.congr (hgens : s'.generations = s.generations) : Clear infoHash s' := by
  unfold Clear
  rw [hgens]
  exact h

theorem Clear.move (hi : s.generations[i]? = some g)
    (hgens : s'.generations = s.generations.set i { g with point := q }) (hq : q ≠ .persisting)
    (hdetach : q = .dropping ∨ q = .retiring → ∀ (k : Nat) (g' : Generation),
      s.generations[k]? = some g' → g'.point = .persisting → k ≠ i →
        infoHash g'.raw ≠ infoHash g.raw) : Clear infoHash s' := by
  have hlt := (List.getElem?_eq_some_iff.1 hi).1
  intro j k a b ha hb hap hbp hjk
  rw [hgens] at ha hb
  by_cases hj : i = j
  · subst hj
    rw [List.getElem?_set_self hlt] at ha
    cases ha
    exact absurd hap hq
  rw [List.getElem?_set_ne hj] at ha
  by_cases hk : i = k
  · subst hk
    rw [List.getElem?_set_self hlt] at hb
    cases hb
    exact hdetach (hbp.resolve_left hq) j a ha hap hjk
  · rw [List.getElem?_set_ne hk] at hb
    exact h j k a b ha hb hap hbp hjk

theorem Clear.append (hgens : s'.generations = s.generations ++ [g])
    (hnew : ∀ (k : Nat) (g' : Generation), s.generations[k]? = some g' →
      g'.point = .persisting ∨ g'.point = .dropping ∨ g'.point = .retiring →
        infoHash g'.raw ≠ infoHash g.raw) : Clear infoHash s' := by
  intro j k a b ha hb hap hbp hjk
  rw [hgens] at ha hb
  rcases getElem?_concat_cases ha with hold | ⟨hj, rfl⟩ <;>
    rcases getElem?_concat_cases hb with hold' | ⟨hk, rfl⟩
  · exact h j k a b hold hold' hap hbp hjk
  · exact hnew j a hold (.inl hap)
  · exact (hnew k b hold' hbp).symm
  · exact absurd (hj.trans hk.symm) hjk

theorem Clear.detach (hi : s.generations[i]? = some g)
    (hp : g.point = .persisting ∨ g.point = .dropping ∨ g.point = .retiring) (k : Nat)
    (g' : Generation) (hk : s.generations[k]? = some g') (hpk : g'.point = .persisting)
    (hki : k ≠ i) : infoHash g'.raw ≠ infoHash g.raw :=
  h k i g' g hk hi hpk hp hki

end

theorem Owned.differs {pick : Nat} (ho : Owned s)
    (hdetaching : s.loses infoHash s.detaching hash raw pick = none)
    (hregistering : s.loses infoHash s.registering hash raw pick = none)
    (hi : s.generations[i]? = some g)
    (hp : g.point = .persisting ∨ g.point = .dropping ∨ g.point = .retiring) :
    g.hash ≠ hash ∧ g.raw ≠ raw ∧ infoHash g.raw ≠ infoHash raw := by
  rcases hp with hp | hp
  · exact differs_of_not_conflicts hi (not_conflicts_of_loses hregistering
      ((ho.registering ⟨g.hash, i⟩).2 ⟨g, hi, rfl, hp⟩))
  · exact differs_of_not_conflicts hi (not_conflicts_of_loses hdetaching
      ((ho.detaching ⟨g.hash, i⟩).2 ⟨g, hi, rfl, hp⟩))

section

variable (h : Clear infoHash s)
include h

theorem Clear.register (ho : Owned s) (raw : Nat) (identity : String)
    (hasInfo refused : Bool) (pick : Nat) :
    Clear infoHash (s.register infoHash raw identity hasInfo refused pick) := by
  unfold Ownership.register
  split
  · exact h
  dsimp only
  split
  · exact h.congr rfl
  next hdetaching =>
  split
  · exact h.congr rfl
  next hregistering =>
  split
  · exact h.congr rfl
  split
  · exact h.append rfl fun k g' hk hp => (ho.differs hdetaching hregistering hk hp).2.2
  · exact h.append rfl fun k g' hk hp => (ho.differs hdetaching hregistering hk hp).2.2

theorem Clear.settle (i : Nat) (failed : Bool) : Clear infoHash (s.settle i failed) := by
  unfold Ownership.settle
  split
  · exact h
  next g hi =>
  split
  next hc =>
    split
    · exact h.move (q := .dropping) hi rfl (by simp) fun _ => h.detach hi (.inl hc.1)
    · exact h.move (q := .managed) hi rfl (by simp) (by simp)
  · exact h

theorem Clear.delete (ho : Owned s)
    (hapart : Apart infoHash s (.delete hash)) : Clear infoHash (s.delete infoHash hash) := by
  have hgone := hapart hash rfl
  unfold Ownership.delete at hgone ⊢
  split
  · exact h
  next hlock =>
  split
  · exact h
  next hdetaching =>
  split
  · exact h
  next hregistering =>
  rw [if_neg hlock, if_neg hdetaching, if_neg hregistering] at hgone
  split
  · exact h
  next row hfind =>
  split
  · exact h
  next g hi =>
  refine h.move (q := .dropping) hi rfl (by simp) fun _ k g' hk hp _ heq => ?_
  have hrow := (ho.registering ⟨g'.hash, k⟩).2 ⟨g', hk, rfl, hp⟩
  simp only [hfind, hi] at hgone
  have hnone : (without s.managed hash).find hash = none := by
    rw [without, Table.find_remove_key _ fun row => beq_iff_eq, if_pos rfl]
  refine hgone hnone row rfl _ hrow ?_
  rw [rawOf_eq hk, rawOf_eq hi, map_some, map_some, heq]

theorem Clear.step (ho : Owned s) (hapart : Apart infoHash s a) :
    Clear infoHash (s.step infoHash a) := by
  cases a with
  | register raw identity hasInfo refused pick =>
    exact h.register ho raw identity hasInfo refused pick
  | settle i failed => exact h.settle i failed
  | delete hash => exact h.delete ho hapart
  | dropped i =>
    simp only [step, dropped]
    split
    · exact h
    next g hi =>
    split
    next hp => exact h.move (q := .retiring) hi rfl nofun fun _ => h.detach hi (.inr (.inl hp))
    · exact h
  | retire i =>
    simp only [step, retire]
    split
    · exact h
    next g hi =>
    split
    · exact h.move (q := .ended) hi rfl nofun nofun
    · exact h
  | closeRaw raw | stop => exact h.congr rfl

end

theorem run_clear (h : Along (step infoHash) (Apart infoHash) {} as) :
    Clear infoHash (run infoHash as) := by
  have hboth : Owned (run infoHash as) ∧ Clear infoHash (run infoHash as) := by
    refine exec_invariant (I := fun s => Owned s ∧ Clear infoHash s) (P := Apart infoHash)
      (fun s a hs hapart => ⟨hs.1.step a, hs.2.step hs.1 hapart⟩) ⟨owned_init, nofun⟩ h
  exact hboth.2

end clear

section events

theorem ne_cons_self {α : Type} {x : α} {l : List α} : l ≠ x :: l := by
  intro h
  have := congrArg length h
  simp at this

/-- A registration that succeeds has no part in common with a runtime whose `Drop` is under
way. -/
theorem differs_of_succeeded (ho : Owned s) (hc : Clear infoHash s)
    (h : (s.step infoHash a).log = .succeeded hash raw :: s.log)
    (hi : s.generations[i]? = some g) (hp : g.point = .dropping) :
    g.hash ≠ hash ∧ g.raw ≠ raw ∧ infoHash g.raw ≠ infoHash raw := by
  cases a with
  | register raw' identity hasInfo refused pick =>
    simp only [step, register] at h
    split at h
    · exact absurd h ne_cons_self
    split at h
    · simp [lose] at h
    next hdetaching =>
    split at h
    · simp [lose] at h
    next hregistering =>
    split at h
    · cases h
      exact ho.differs hdetaching hregistering hi (.inr (.inl hp))
    · split at h <;> exact absurd h ne_cons_self
  | settle k failed =>
    simp only [step, settle] at h
    split at h
    · exact absurd h ne_cons_self
    next g' hk =>
    split at h
    next hcond =>
      split at h
      · exact absurd h ne_cons_self
      cases h
      have hne : k ≠ i := by
        rintro rfl
        rw [hk] at hi
        cases hi
        rw [hp] at hcond
        exact absurd hcond.1 (by simp)
      have hdistinct : ¬ (g.hash = g'.hash ∨ g.raw = g'.raw) := by
        intro hsame
        exact hne (ho.distinct i k g g' hi hk (by rw [hp]; simp) (by rw [hcond.1]; simp)
          hsame).symm
      have hinfo := hc k i g' g hk hi hcond.1 (.inr (.inl hp)) hne
      exact ⟨fun he => hdistinct (.inl he), fun he => hdistinct (.inr he), hinfo.symm⟩
    · exact absurd h ne_cons_self
  | delete hash' =>
    simp only [step, delete] at h
    repeat' split at h
    all_goals exact absurd h ne_cons_self
  | dropped k =>
    simp only [step, dropped] at h
    repeat' split at h
    all_goals exact absurd h ne_cons_self
  | retire k =>
    simp only [step, retire] at h
    repeat' split at h
    all_goals exact absurd h ne_cons_self
  | closeRaw raw' | stop => exact absurd h ne_cons_self

/-- The objects keep their raw torrents, and an event in which one was dropped names an owner with
another. -/
structure Honest (s s' : Ownership) : Prop where
  raws : ∀ i raw, s.rawOf i = some raw → s'.rawOf i = some raw
  events : ∀ e ∈ s'.log, e ∈ s.log ∨ ∀ owner raw, e = .lost owner raw true →
    ∃ raw', s.rawOf owner = some raw' ∧ raw' ≠ raw

section

variable (hi : s.generations[i]? = some g)
  (hgens : s'.generations = s.generations.set i { g with point := q })
include hi hgens

theorem rawOf_set (k : Nat) : s'.rawOf k = s.rawOf k := by
  rw [rawOf, rawOf, hgens]
  by_cases hk : i = k
  · subst hk
    rw [List.getElem?_set_self (List.getElem?_eq_some_iff.1 hi).1, hi]
    rfl
  · rw [getElem?_set_ne hk]

theorem Honest.of_set (hlog : ∀ e ∈ s'.log, e ∈ s.log ∨ ∀ owner raw, e ≠ .lost owner raw true) :
    Honest s s' where
  raws k _ h := (rawOf_set hi hgens k).trans h
  events e he := (hlog e he).imp_right fun hne owner raw heq => absurd heq (hne owner raw)

end

theorem Honest.of_eq (hgens : s'.generations = s.generations) (hlog : s'.log = s.log) :
    Honest s s' where
  raws k raw h := by rw [rawOf, hgens]; exact h
  events e he := .inl (hlog ▸ he)

theorem Honest.append (hgens : s'.generations = s.generations ++ [g]) (hlog : s'.log = s.log) :
    Honest s s' where
  raws k raw h := by
    obtain ⟨g', hg', rfl⟩ := map_eq_some_iff.1 h
    rw [rawOf, hgens, List.getElem?_append_left (List.getElem?_eq_some_iff.1 hg').1, hg']
    rfl
  events e he := .inl (hlog ▸ he)

theorem Honest.lose {owner : OwnerRow} {at_ : GenerationPoint → Prop}
    (hstands : s.Stands at_ owner) (raw : Nat) : Honest s (s.lose owner raw) where
  raws _ _ h := h
  events e he := by
    rcases mem_cons.1 he with rfl | he
    · refine .inr fun owner' raw' heq => ?_
      obtain ⟨g, hg, -, -⟩ := hstands
      simp only [lost.injEq] at heq
      obtain ⟨rfl, rfl, hdropped⟩ := heq
      refine ⟨g.raw, rawOf_eq hg, fun hraw => ?_⟩
      simp [rawOf_eq hg, hraw] at hdropped
    · exact .inl he

theorem honest_step (ho : Owned s) (a : OwnershipAction) : Honest s (s.step infoHash a) := by
  cases a with
  | register raw identity hasInfo refused pick =>
    simp only [step, register]
    split
    · exact .of_eq rfl rfl
    split
    next owner howner => exact .lose ((ho.detaching owner).1 (mem_of_loses howner)) raw
    split
    next owner howner => exact .lose ((ho.registering owner).1 (mem_of_loses howner)) raw
    split
    · refine ⟨fun _ _ h => h, fun e he => ?_⟩
      rcases mem_cons.1 he with rfl | he
      · exact .inr (by simp)
      · exact .inl he
    · split <;> exact .append rfl rfl
  | settle i failed =>
    simp only [step, settle]
    split
    · exact .of_eq rfl rfl
    next g hi =>
    split
    · split
      · exact .of_set (q := .dropping) hi rfl fun e he => .inl he
      refine .of_set (q := .managed) hi rfl fun e he => ?_
      rcases mem_cons.1 he with rfl | he
      · exact .inr (by simp)
      · exact .inl he
    · exact .of_eq rfl rfl
  | delete hash =>
    simp only [step, delete]
    repeat' split
    all_goals first
      | exact .of_eq rfl rfl
      | exact .of_set (q := .dropping) ‹_› rfl fun e he => .inl he
  | dropped i =>
    simp only [step, dropped]
    split
    · exact .of_eq rfl rfl
    next g hi =>
    split
    · exact .of_set (q := .retiring) hi rfl fun e he => .inl he
    · exact .of_eq rfl rfl
  | retire i =>
    simp only [step, retire]
    split
    · exact .of_eq rfl rfl
    next g hi =>
    split
    · exact .of_set (q := .ended) hi rfl fun e he => .inl he
    · exact .of_eq rfl rfl
  | closeRaw raw | stop => exact .of_eq rfl rfl

theorem run_lost (as : List OwnershipAction) (owner raw : Nat)
    (h : lost owner raw true ∈ (run infoHash as).log) :
    ∃ raw', (run infoHash as).rawOf owner = some raw' ∧ raw' ≠ raw := by
  have hall : Owned (run infoHash as) ∧ ∀ owner raw, lost owner raw true ∈ (run infoHash as).log →
        ∃ raw', (run infoHash as).rawOf owner = some raw' ∧ raw' ≠ raw := by
    refine exec_invariant_forall (I := fun s => Owned s ∧ ∀ owner raw,
      lost owner raw true ∈ s.log → ∃ raw', s.rawOf owner = some raw' ∧ raw' ≠ raw)
      (fun s a hs => ⟨hs.1.step a, fun owner raw hmem => ?_⟩) ⟨owned_init, nofun⟩ as
    have hhonest := @honest_step infoHash s hs.1 a
    obtain ⟨raw', hraw, hne⟩ : ∃ raw', s.rawOf owner = some raw' ∧ raw' ≠ raw := by
      rcases hhonest.events _ hmem with hold | hnew
      · exact hs.2 owner raw hold
      · exact hnew owner raw rfl
    exact ⟨raw', hhonest.raws owner raw' hraw, hne⟩
  exact hall.2 owner raw h

theorem reserved_of_managed {row : OwnerRow} (h : row ∈ (s.step infoHash a).managed.rows)
    (hnot : row ∉ s.managed.rows) : s.registering.find row.hash = some row := by
  cases a with
  | register raw identity hasInfo refused pick =>
    simp only [step, register] at h
    repeat' split at h
    all_goals exact absurd h hnot
  | settle i failed =>
    simp only [step, settle] at h
    split at h
    · exact absurd h hnot
    next g hi =>
    split at h
    · split at h
      · exact absurd h hnot
      next hok =>
      simp only [not_or, not_not] at hok
      rcases Table.mem_put.1 h with ⟨hold, -⟩ | rfl
      · exact absurd hold hnot
      · exact hok.2.2.2
    · exact absurd h hnot
  | delete hash =>
    simp only [step, delete] at h
    repeat' split at h
    all_goals first
      | exact absurd h hnot
      | exact absurd (mem_without.1 h).1 hnot
  | dropped i =>
    simp only [step, dropped] at h
    repeat' split at h
    all_goals exact absurd h hnot
  | retire i =>
    simp only [step, retire] at h
    repeat' split at h
    all_goals exact absurd h hnot
  | closeRaw raw | stop => exact absurd h hnot

end events

theorem Owned.unique {place place' : OwnerPlace} {row row' : OwnerRow} (h : Owned s)
    (hrow : row ∈ (s.mapOf place).rows) (hrow' : row' ∈ (s.mapOf place').rows)
    (hsame : row.hash = row'.hash ∨ s.rawOf row.runtime = s.rawOf row'.runtime) :
    place = place' ∧ row = row' := by
  have hstands : ∀ {place : OwnerPlace} {row : OwnerRow}, row ∈ (s.mapOf place).rows →
      ∃ g, s.generations[row.runtime]? = some g ∧ g.hash = row.hash ∧ g.point ≠ .ended ∧
        ((place = .registering ↔ g.point = .persisting) ∧
          (place = .managed ↔ g.point = .managed)) := by
    intro place row hrow
    cases place with
    | registering =>
      obtain ⟨g, hg, hhash, hp⟩ := (h.registering row).1 hrow
      exact ⟨g, hg, hhash, by simp [hp]⟩
    | managed =>
      obtain ⟨g, hg, hhash, hp⟩ := (h.managed row).1 hrow
      exact ⟨g, hg, hhash, by simp [hp]⟩
    | detaching =>
      obtain ⟨g, hg, hhash, hp | hp⟩ := (h.detaching row).1 hrow
      · exact ⟨g, hg, hhash, by simp [hp]⟩
      · exact ⟨g, hg, hhash, by simp [hp]⟩
  obtain ⟨g, hg, hhash, hactive, hplace⟩ := hstands hrow
  obtain ⟨g', hg', hhash', hactive', hplace'⟩ := hstands hrow'
  rw [rawOf_eq hg, rawOf_eq hg', ← hhash, ← hhash', some.injEq] at hsame
  have hruntime := h.distinct _ _ g g' hg hg' hactive hactive' hsame
  rw [hruntime, hg'] at hg
  cases hg
  refine ⟨?_, ?_⟩
  · cases place <;> cases place' <;> simp_all
  cases row
  cases row'
  simp_all

/-- Ownership over every schedule; the last part is about the runs in which every deletion is
`Apart`. -/
theorem handover_exclusive (infoHash : Nat → String) (as : List OwnershipAction) :
    let s := run infoHash as
    (∀ place place' row row', row ∈ (s.mapOf place).rows →
        row' ∈ (s.mapOf place').rows →
        row.hash = row'.hash ∨ s.rawOf row.runtime = s.rawOf row'.runtime →
        place = place' ∧ row = row') ∧
      (∀ owner raw, .lost owner raw true ∈ s.log →
        ∃ raw', s.rawOf owner = some raw' ∧ raw' ≠ raw) ∧
      (∀ a row, row ∈ (s.step infoHash a).managed.rows →
        row ∉ s.managed.rows →
          s.registering.find row.hash = some row) ∧
      (∀ (i : Nat) (g : Generation), s.generations[i]? = some g →
        g.point = .dropping → ⟨g.hash, i⟩ ∈ s.detaching.rows) ∧
      (Along (step infoHash) (Apart infoHash) {} as → ∀ a hash raw,
        (s.step infoHash a).log = .succeeded hash raw :: s.log →
        ∀ (i : Nat) (g : Generation), s.generations[i]? = some g →
          g.point = .dropping →
            g.hash ≠ hash ∧ g.raw ≠ raw ∧ infoHash g.raw ≠ infoHash raw) := by
  have howned := @run_owned infoHash as
  refine ⟨fun place place' row row' => howned.unique, run_lost as, ?_, ?_, ?_⟩
  · exact fun a row => reserved_of_managed
  · exact fun i g hi hp => (howned.detaching _).2 ⟨g, hi, rfl, .inl hp⟩
  · exact fun hapart a hash raw h i g => differs_of_succeeded howned (run_clear hapart) h

/-- Two raw torrents of one info hash: the deletion of the one, under an alias, does not see the
registration of the other. -/
def aliasRun : List OwnershipAction :=
  [.register 1 "a" false false 0, .settle 0 false, .register 2 "b" true false 0, .delete "a"]

/-- The registration succeeds while the `Drop` of the first has not returned. -/
theorem handover_overlap :
    ((run (fun _ => "x") aliasRun).step (fun _ => "x") (.settle 1 false)).log
        = .succeeded "b" 2 :: (run (fun _ => "x") aliasRun).log ∧
      (run (fun _ => "x") aliasRun).generations[0]? = some ⟨"a", 1, .dropping⟩ := by
  decide

end Ownership

end TorrentHub
