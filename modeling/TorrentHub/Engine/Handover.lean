import TorrentHub.Engine.Ownership

namespace TorrentHub

open Lib List Table

namespace Ownership

variable {infoHash : Nat → String} {s s' : Ownership} {i j : Nat} {g g' : Generation}
  {row : OwnerRow} {p q : GenerationPoint} {hash : String} {raw pick : Nat}

def Stands (s : Ownership) (at_ : GenerationPoint → Prop) (row : OwnerRow) : Prop :=
  ∃ g, s.generations[row.runtime]? = some g ∧ g.hash = row.hash ∧ at_ g.point

/-- No two objects that are somewhere have a hash or a raw torrent in common. -/
structure Owned (s : Ownership) : Prop where
  registering : ∀ row, row ∈ s.registering.rows ↔ s.Stands (· = .persisting) row
  managed : ∀ row, row ∈ s.managed.rows ↔ s.Stands (· = .managed) row
  detaching : ∀ row, row ∈ s.detaching.rows ↔ s.Stands (fun p => p = .dropping ∨ p = .retiring) row
  distinct : ∀ (i j : Nat) (g g' : Generation), s.generations[i]? = some g →
    s.generations[j]? = some g' → g.point ≠ .ended → g'.point ≠ .ended →
    g.hash = g'.hash ∨ g.raw = g'.raw → i = j

theorem owned_init : Owned {} where
  registering row := ⟨nofun, fun ⟨_, h, _⟩ => by cases h⟩
  managed row := ⟨nofun, fun ⟨_, h, _⟩ => by cases h⟩
  detaching row := ⟨nofun, fun ⟨_, h, _⟩ => by cases h⟩
  distinct _ _ _ _ h := by cases h

section maps

variable {map : OwnerMap} {at_ : GenerationPoint → Prop}

theorem mem_without : row ∈ (without map hash).rows ↔ row ∈ map.rows ∧ row.hash ≠ hash := by
  simp [without, remove]

theorem Stands.set (hi : s.generations[i]? = some g)
    (hgens : s'.generations = s.generations.set i { g with point := q }) : s'.Stands at_ row ↔
      s.Stands at_ row ∧ row.runtime ≠ i ∨ row = ⟨g.hash, i⟩ ∧ at_ q := by
  have hlt := (List.getElem?_eq_some_iff.1 hi).1
  unfold Stands
  rw [hgens]
  by_cases heq : row.runtime = i
  · rw [heq, List.getElem?_set_self hlt]
    constructor
    · rintro ⟨_, ⟨⟩, hhash, hat⟩
      refine .inr ⟨?_, hat⟩
      cases row
      subst heq
      simp_all
    · rintro (⟨-, hne⟩ | ⟨rfl, hat⟩)
      · exact absurd rfl hne
      · exact ⟨_, rfl, rfl, hat⟩
  · rw [List.getElem?_set_ne (Ne.symm heq)]
    constructor
    · intro h
      exact .inl ⟨h, heq⟩
    rintro (⟨h, -⟩ | ⟨rfl, -⟩)
    · exact h
    · exact absurd rfl heq

theorem Owned.hash_iff (h : Owned s)
    (hactive : ∀ p, at_ p → p ≠ .ended) (hi : s.generations[i]? = some g)
    (hg : g.point ≠ .ended) (hrow : s.Stands at_ row) : row.hash = g.hash ↔ row.runtime = i := by
  obtain ⟨g', hg', hhash, hat⟩ := hrow
  constructor
  · intro heq
    exact h.distinct _ _ g' g hg' hi (hactive _ hat) hg (.inl (hhash.trans heq))
  intro heq
  rw [heq, hi] at hg'
  cases hg'
  exact hhash.symm

theorem Owned.distinct_set (h : Owned s) (hi : s.generations[i]? = some g) (hg : g.point ≠ .ended)
    (hgens : s'.generations = s.generations.set i { g with point := q }) :
    ∀ (j k : Nat) (a b : Generation), s'.generations[j]? = some a → s'.generations[k]? = some b →
      a.point ≠ .ended → b.point ≠ .ended → a.hash = b.hash ∨ a.raw = b.raw → j = k := by
  have hback : ∀ (j : Nat) (a : Generation), s'.generations[j]? = some a → a.point ≠ .ended →
      ∃ b, s.generations[j]? = some b ∧ b.hash = a.hash ∧ b.raw = a.raw ∧ b.point ≠ .ended := by
    intro j a ha hactive
    rw [hgens] at ha
    by_cases heq : i = j
    · subst heq
      rw [List.getElem?_set_self (List.getElem?_eq_some_iff.1 hi).1] at ha
      cases ha
      exact ⟨g, hi, rfl, rfl, hg⟩
    · rw [getElem?_set_ne heq] at ha
      exact ⟨a, ha, rfl, rfl, hactive⟩
  intro j k a b ha hb haa hba hsame
  obtain ⟨a', ha', hah, har, haa'⟩ := hback j a ha haa
  obtain ⟨b', hb', hbh, hbr, hba'⟩ := hback k b hb hba
  refine h.distinct j k a' b' ha' hb' haa' hba' ?_
  rw [hah, hbh, har, hbr]
  exact hsame

section

variable (hmap : ∀ row, row ∈ map.rows ↔ s.Stands at_ row) (hi : s.generations[i]? = some g)
  (hgens : s'.generations = s.generations.set i { g with point := q })
include hmap hi hgens

theorem stands_frame (hfrom : ¬ at_ g.point) (hto : ¬ at_ q) (row : OwnerRow) :
    row ∈ map.rows ↔ s'.Stands at_ row := by
  rw [Stands.set hi hgens, hmap]
  constructor
  · intro h
    refine .inl ⟨h, fun heq => ?_⟩
    obtain ⟨g', hg', -, hat⟩ := h
    rw [heq, hi] at hg'
    cases hg'
    exact hfrom hat
  · rintro (⟨h, -⟩ | ⟨-, hat⟩)
    · exact h
    · exact absurd hat hto

theorem stands_keep (hfrom : at_ g.point) (hto : at_ q) (row : OwnerRow) :
    row ∈ map.rows ↔ s'.Stands at_ row := by
  rw [Stands.set hi hgens, hmap]
  constructor
  · intro h
    by_cases heq : row.runtime = i
    · obtain ⟨g', hg', hhash, -⟩ := h
      rw [heq, hi] at hg'
      cases hg'
      refine .inr ⟨?_, hto⟩
      cases row
      simp_all
    · exact .inl ⟨h, heq⟩
  · rintro (⟨h, -⟩ | ⟨rfl, -⟩)
    · exact h
    · exact ⟨g, hi, rfl, hfrom⟩

end

section

variable (h : Owned s) (hmap : ∀ row, row ∈ map.rows ↔ s.Stands at_ row)
  (hactive : ∀ p, at_ p → p ≠ .ended) (hi : s.generations[i]? = some g) (hg : g.point ≠ .ended)
  (hgens : s'.generations = s.generations.set i { g with point := q })
include h hmap hactive hi hg hgens

theorem stands_without (hto : ¬ at_ q)
    (row : OwnerRow) : row ∈ (without map g.hash).rows ↔ s'.Stands at_ row := by
  rw [Stands.set hi hgens, mem_without, hmap]
  constructor
  · rintro ⟨hrow, hne⟩
    exact .inl ⟨hrow, fun heq => hne ((h.hash_iff hactive hi hg hrow).2 heq)⟩
  rintro (⟨hrow, hne⟩ | ⟨-, hat⟩)
  · exact ⟨hrow, fun heq => hne ((h.hash_iff hactive hi hg hrow).1 heq)⟩
  · exact absurd hat hto

theorem stands_put (hto : at_ q)
    (row : OwnerRow) : row ∈ (map.put ⟨g.hash, i⟩).rows ↔ s'.Stands at_ row := by
  rw [Stands.set hi hgens, mem_put, hmap]
  constructor
  · rintro (⟨hrow, hne⟩ | rfl)
    · exact .inl ⟨hrow, fun heq => hne ((h.hash_iff hactive hi hg hrow).2 heq)⟩
    · exact .inr ⟨rfl, hto⟩
  rintro (⟨hrow, hne⟩ | ⟨rfl, -⟩)
  · exact .inl ⟨hrow, fun heq => hne ((h.hash_iff hactive hi hg hrow).1 heq)⟩
  · exact .inr rfl

end

end maps

section steps

variable {map : OwnerMap}

section

variable (h : Owned s)
include h

theorem Owned.discardRegistration (hi : s.generations[i]? = some g)
    (hp : g.point = .persisting) : Owned (s.discardRegistration i g) := by
  have hg : g.point ≠ .ended := by rw [hp]; nofun
  have hmem : (⟨g.hash, i⟩ : OwnerRow) ∈ s.registering.rows := (h.registering _).2 ⟨g, hi, rfl, hp⟩
  have hown : withoutOwn s.registering g.hash i = without s.registering g.hash := by
    rw [withoutOwn, if_pos (find_of_mem hmem)]
  refine ⟨fun row => ?_, fun row => ?_, fun row => ?_, h.distinct_set hi hg rfl⟩
  · change row ∈ (withoutOwn s.registering g.hash i).rows ↔ _
    rw [hown]
    exact stands_without (q := .dropping) h h.registering (by rintro p rfl; nofun) hi hg rfl
      nofun row
  · exact stands_frame (q := .dropping) h.managed hi rfl (by rw [hp]; nofun) nofun row
  · exact stands_put (q := .dropping) h h.detaching (by rintro p (rfl | rfl) <;> nofun) hi hg rfl
      (.inl rfl) row

theorem Owned.settle (i : Nat) (failed : Bool) : Owned (s.settle i failed) := by
  unfold Ownership.settle
  split
  · exact h
  next g hi =>
  split
  next hc =>
    split
    · exact h.discardRegistration hi hc.1
    have hg : g.point ≠ .ended := by rw [hc.1]; simp
    refine ⟨fun row => ?_, fun row => ?_, fun row => ?_, h.distinct_set hi hg rfl⟩
    · exact stands_without (q := .managed) h h.registering (by rintro p rfl; simp) hi hg rfl
        (by simp) row
    · exact stands_put (q := .managed) h h.managed (by rintro p rfl; simp) hi hg rfl rfl row
    · exact stands_frame (q := .managed) h.detaching hi rfl (by rw [hc.1]; simp) (by simp) row
  · exact h

theorem Owned.delete (infoHash : Nat → String) (hash : String) :
    Owned (s.delete infoHash hash) := by
  unfold Ownership.delete
  split
  · exact h
  split
  · exact h
  split
  · exact h
  split
  · exact h
  next row hfind =>
  split
  · exact h
  next g hi =>
  obtain ⟨g', hg', hhash, hp⟩ := (h.managed row).1 (find_mem hfind)
  rw [hi] at hg'
  cases hg'
  have hkey : hash = g.hash := (find_key hfind).symm.trans hhash.symm
  subst hkey
  have hg : g.point ≠ .ended := by rw [hp]; simp
  refine ⟨fun row => ?_, fun row => ?_, fun row => ?_, h.distinct_set hi hg rfl⟩
  · exact stands_frame (q := .dropping) h.registering hi rfl (by rw [hp]; simp) (by simp) row
  · exact stands_without (q := .dropping) h h.managed (by rintro p rfl; simp) hi hg rfl
      (by simp) row
  · exact stands_put (q := .dropping) h h.detaching
      (by rintro p (rfl | rfl) <;> simp) hi hg rfl (.inl rfl) row

theorem Owned.dropped (i : Nat) : Owned (s.dropped i) := by
  unfold Ownership.dropped
  split
  · exact h
  next g hi =>
  split
  next hp =>
    have hg : g.point ≠ .ended := by rw [hp]; nofun
    refine ⟨fun row => ?_, fun row => ?_, fun row => ?_, h.distinct_set hi hg rfl⟩
    · exact stands_frame (q := .retiring) h.registering hi rfl (by rw [hp]; nofun) nofun row
    · exact stands_frame (q := .retiring) h.managed hi rfl (by rw [hp]; nofun) nofun row
    · exact stands_keep (q := .retiring) h.detaching hi rfl (.inl hp) (.inr rfl) row
  · exact h

theorem Owned.retire (i : Nat) : Owned (s.retire i) := by
  unfold Ownership.retire
  split
  · exact h
  next g hi =>
  split
  next hc =>
    have hg : g.point ≠ .ended := by rw [hc.1]; nofun
    have hmem : (⟨g.hash, i⟩ : OwnerRow) ∈ s.detaching.rows :=
      (h.detaching _).2 ⟨g, hi, rfl, .inr hc.1⟩
    have hown : withoutOwn s.detaching g.hash i = without s.detaching g.hash := by
      rw [withoutOwn, if_pos (find_of_mem hmem)]
    refine ⟨fun row => ?_, fun row => ?_, fun row => ?_, h.distinct_set hi hg rfl⟩
    · exact stands_frame (q := .ended) h.registering hi rfl (by rw [hc.1]; nofun) nofun row
    · exact stands_frame (q := .ended) h.managed hi rfl (by rw [hc.1]; nofun) nofun row
    · change row ∈ (withoutOwn s.detaching g.hash i).rows ↔ _
      rw [hown]
      exact stands_without (q := .ended) h h.detaching (by rintro p (rfl | rfl) <;> nofun) hi hg
        rfl (by nofun) row
  · exact h

end

theorem not_conflicts_of_loses (h : s.loses infoHash map hash raw pick = none)
    (hrow : row ∈ map.rows) : s.conflicts infoHash hash raw row = false := by
  by_contra hc
  have hmem : row ∈ map.rows.filter (s.conflicts infoHash hash raw) :=
    mem_filter.2 ⟨hrow, by simpa using hc⟩
  have hlen := length_pos_of_mem hmem
  have hsome := getElem?_eq_none_iff.1 h
  have := Nat.mod_lt pick hlen
  omega

theorem mem_of_loses (h : s.loses infoHash map hash raw pick = some owner) : owner ∈ map.rows :=
  mem_of_mem_filter (mem_of_getElem? h)

theorem rawOf_eq (hi : s.generations[i]? = some g) : s.rawOf i = some g.raw := by
  rw [rawOf, hi]
  rfl

theorem differs_of_not_conflicts (hi : s.generations[i]? = some g)
    (h : s.conflicts infoHash hash raw ⟨g.hash, i⟩ = false) :
    g.hash ≠ hash ∧ g.raw ≠ raw ∧ infoHash g.raw ≠ infoHash raw := by
  simp only [conflicts, rawOf_eq hi, Option.map_some, Bool.or_eq_false_iff, beq_eq_false_iff_ne,
    ne_eq, Option.some.injEq] at h
  exact ⟨h.1.1, h.1.2, h.2⟩

theorem getElem?_concat_cases {l : List Generation} {a : Generation} (h : (l ++ [g])[j]? = some a) :
    l[j]? = some a ∨ j = l.length ∧ a = g := by
  rcases Nat.lt_or_ge j l.length with hlt | hge
  · rw [getElem?_append_left hlt] at h
    exact .inl h
  rw [getElem?_append_right hge] at h
  obtain ⟨hlt, hget⟩ := List.getElem?_eq_some_iff.1 h
  rw [length_singleton] at hlt
  refine .inr ⟨by omega, ?_⟩
  simpa using hget.symm

theorem Stands.append {at_ : GenerationPoint → Prop}
    (hgens : s'.generations = s.generations ++ [g]) : s'.Stands at_ row ↔
      s.Stands at_ row ∨ row = ⟨g.hash, s.generations.length⟩ ∧ at_ g.point := by
  unfold Stands
  rw [hgens]
  rcases Nat.lt_trichotomy row.runtime s.generations.length with hlt | heq | hgt
  · rw [getElem?_append_left hlt]
    constructor
    · exact .inl
    rintro (h | ⟨rfl, -⟩)
    · exact h
    · exact absurd hlt (Nat.lt_irrefl _)
  · rw [heq, getElem?_concat_length]
    constructor
    · rintro ⟨_, ⟨⟩, hhash, hat⟩
      refine .inr ⟨?_, hat⟩
      cases row
      simp_all
    · rintro (⟨g', hg', -⟩ | ⟨rfl, hat⟩)
      · simp at hg'
      · exact ⟨g, rfl, rfl, hat⟩
  · have hnone : (s.generations ++ [g])[row.runtime]? = none := by
      rw [getElem?_eq_none_iff, length_append, length_singleton]
      omega
    rw [hnone]
    constructor
    · rintro ⟨_, ⟨⟩, -⟩
    rintro (⟨g', hg', -⟩ | ⟨rfl, -⟩)
    · have := (List.getElem?_eq_some_iff.1 hg').1
      omega
    · exact absurd hgt (Nat.lt_irrefl _)

def Free (s : Ownership) (hash : String) (raw : Nat) : Prop :=
  ∀ (i : Nat) (g : Generation), s.generations[i]? = some g → g.point ≠ .ended →
    g.hash ≠ hash ∧ g.raw ≠ raw

section

variable (h : Owned s)
include h

theorem Owned.append (hfree : s.Free g.hash g.raw) (hgens : s'.generations = s.generations ++ [g])
    (hregistering : s'.registering = if g.point = .persisting then
      s.registering.put ⟨g.hash, s.generations.length⟩ else s.registering)
    (hmanaged : s'.managed = s.managed) (hpoint : g.point = .persisting ∨ g.point = .dropping)
    (hdetaching : s'.detaching = if g.point = .dropping then
      s.detaching.put ⟨g.hash, s.generations.length⟩ else s.detaching) : Owned s' := by
  have hput : ∀ {at_ : GenerationPoint → Prop} {map : OwnerMap} (row : OwnerRow),
      (∀ row, row ∈ map.rows ↔ s.Stands at_ row) → (∀ p, at_ p → p ≠ .ended) → at_ g.point →
      (row ∈ (map.put ⟨g.hash, s.generations.length⟩).rows ↔ s'.Stands at_ row) := by
    intro at_ map row hmap hactive hat
    rw [Stands.append hgens, mem_put, hmap]
    constructor
    · rintro (⟨hrow, -⟩ | rfl)
      · exact .inl hrow
      · exact .inr ⟨rfl, hat⟩
    rintro (hrow | ⟨rfl, -⟩)
    · refine .inl ⟨hrow, fun heq => ?_⟩
      obtain ⟨g', hg', hhash, hat'⟩ := hrow
      exact (hfree _ g' hg' (hactive _ hat')).1 (hhash.trans heq)
    · exact .inr rfl
  have hframe : ∀ {at_ : GenerationPoint → Prop} {map : OwnerMap} (row : OwnerRow),
      (∀ row, row ∈ map.rows ↔ s.Stands at_ row) → ¬ at_ g.point →
      (row ∈ map.rows ↔ s'.Stands at_ row) := by
    intro at_ map row hmap hat
    rw [Stands.append hgens, hmap]
    constructor
    · exact .inl
    rintro (hrow | ⟨-, hat'⟩)
    · exact hrow
    · exact absurd hat' hat
  refine ⟨fun row => ?_, fun row => ?_, fun row => ?_, ?_⟩
  · rw [hregistering]
    split
    next hp => exact hput row h.registering (by rintro p rfl; nofun) hp
    next hp => exact hframe row h.registering hp
  · rw [hmanaged]
    exact hframe row h.managed (by rcases hpoint with hp | hp <;> rw [hp] <;> nofun)
  · rw [hdetaching]
    split
    next hp => exact hput row h.detaching (by rintro p (rfl | rfl) <;> nofun) (.inl hp)
    next hp =>
    refine hframe row h.detaching ?_
    rcases hpoint with hp' | hp'
    · rw [hp']
      nofun
    · exact absurd hp' hp
  · intro j k a b ha hb haa hba hsame
    rw [hgens] at ha hb
    rcases getElem?_concat_cases ha with hold | ⟨hj, rfl⟩ <;>
      rcases getElem?_concat_cases hb with hold' | ⟨hk, rfl⟩
    · exact h.distinct j k a b hold hold' haa hba hsame
    · have := hfree j a hold haa
      exact absurd hsame (by simp [this.1, this.2])
    · have := hfree k b hold' hba
      exact absurd hsame (by simp [Ne.symm this.1, Ne.symm this.2])
    · rw [hj, hk]

theorem Owned.free (hdetaching : s.loses infoHash s.detaching hash raw pick = none)
    (hregistering : s.loses infoHash s.registering hash raw pick = none)
    (hmanaged : ¬ (s.managed.find (s.managedHash hash raw)).isSome) : s.Free hash raw := by
  intro i g hi hactive
  cases hp : g.point with
  | persisting =>
    have hrow := (h.registering ⟨g.hash, i⟩).2 ⟨g, hi, rfl, hp⟩
    have hd := differs_of_not_conflicts hi (not_conflicts_of_loses hregistering hrow)
    exact ⟨hd.1, hd.2.1⟩
  | dropping =>
    have hrow := (h.detaching ⟨g.hash, i⟩).2 ⟨g, hi, rfl, .inl hp⟩
    have hd := differs_of_not_conflicts hi (not_conflicts_of_loses hdetaching hrow)
    exact ⟨hd.1, hd.2.1⟩
  | retiring =>
    have hrow := (h.detaching ⟨g.hash, i⟩).2 ⟨g, hi, rfl, .inr hp⟩
    have hd := differs_of_not_conflicts hi (not_conflicts_of_loses hdetaching hrow)
    exact ⟨hd.1, hd.2.1⟩
  | ended => exact absurd hp hactive
  | managed =>
    have hrow : (⟨g.hash, i⟩ : OwnerRow) ∈ s.managed.rows := (h.managed _).2 ⟨g, hi, rfl, hp⟩
    unfold managedHash at hmanaged
    split at hmanaged
    next found hfound =>
      have hmem := mem_of_find?_eq_some hfound
      rw [find_of_mem hmem] at hmanaged
      exact absurd rfl hmanaged
    next hnone =>
    constructor
    · rintro rfl
      rw [find_of_mem hrow] at hmanaged
      exact hmanaged rfl
    rintro rfl
    have := find?_eq_none.1 hnone _ hrow
    exact this (by simp [rawOf_eq hi])

theorem Owned.congr (hgens : s'.generations = s.generations)
    (hregistering : s'.registering = s.registering) (hmanaged : s'.managed = s.managed)
    (hdetaching : s'.detaching = s.detaching) : Owned s' := by
  have hstands : ∀ at_ row, s'.Stands at_ row ↔ s.Stands at_ row := by
    intro at_ row
    rw [Stands, Stands, hgens]
  exact ⟨fun row => by rw [hregistering, hstands]; exact h.registering row,
    fun row => by rw [hmanaged, hstands]; exact h.managed row,
    fun row => by rw [hdetaching, hstands]; exact h.detaching row, by rw [hgens]; exact h.distinct⟩

theorem Owned.register (raw : Nat) (identity : String) (hasInfo refused : Bool)
    (pick : Nat) : Owned (s.register infoHash raw identity hasInfo refused pick) := by
  unfold Ownership.register
  split
  · exact h
  dsimp only
  split
  · exact h.congr rfl rfl rfl rfl
  next hdetaching =>
  split
  · exact h.congr rfl rfl rfl rfl
  next hregistering =>
  split
  · exact h.congr rfl rfl rfl rfl
  next hmanaged =>
  have hfree := h.free hdetaching hregistering hmanaged
  split
  · exact h.append (g := ⟨_, raw, .dropping⟩) hfree rfl rfl rfl (.inr rfl) rfl
  · exact h.append (g := ⟨_, raw, .persisting⟩) hfree rfl rfl rfl (.inl rfl) rfl

theorem Owned.step (a : OwnershipAction) : Owned (s.step infoHash a) := by
  cases a with
  | register raw identity hasInfo refused pick => exact h.register raw identity hasInfo refused pick
  | settle i failed => exact h.settle i failed
  | delete hash => exact h.delete infoHash hash
  | dropped i => exact h.dropped i
  | retire i => exact h.retire i
  | closeRaw raw | stop => exact h.congr rfl rfl rfl rfl

end

theorem run_owned (as : List OwnershipAction) : Owned (run infoHash as) :=
  exec_invariant_forall (fun _ a h => h.step a) owned_init as

end steps

end Ownership

end TorrentHub
