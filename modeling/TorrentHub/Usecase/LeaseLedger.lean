import TorrentHub.Lib.Registry
import TorrentHub.Usecase.Leases

namespace TorrentHub

open Lib List Function

def counted (hash : String) (label : Option Nat) (l : TransferLease) : Bool :=
  decide (l.hash = hash ∧ l.released = false ∧ label = some l.record)

namespace LeaseState

variable {s : LeaseState} {h k : String}

def Quiet (s : LeaseState) (h : String) : Prop :=
  ∀ l ∈ s.leases, l.hash = h → l.released = true

def Stored (s : LeaseState) (h : String) (record : Nat) : Prop :=
  ∃ row, s.rows.find h = some row ∧ row.record = record

theorem find_adjust (s : LeaseState) (h : String) (f : LeaseRow → LeaseRow)
    (hf : ∀ r, (f r).hash = r.hash) (k : String) :
    (s.adjust h f hf).rows.find k = if k = h then (s.rows.find k).map f else s.rows.find k :=
  Table.find_adjust_key s.rows (fun _ => beq_iff_eq) f hf k

theorem find_remove (s : LeaseState) (h k : String) :
    (s.remove h).rows.find k = if k = h then none else s.rows.find k :=
  Table.find_remove_key s.rows (fun _ => beq_iff_eq) k

/-- Each counter counts its leases, and an outstanding lease is one of the record that the hash has
now, the label of the counter. -/
structure Ledger (s : LeaseState) : Prop where
  counts : ∀ h, s.transfers h = s.leases.countP (counted h (s.transferRecords h))
  stored : ∀ l ∈ s.leases, l.released = false → s.Stored l.hash l.record
  labelled : ∀ l ∈ s.leases, l.released = false → s.transferRecords l.hash = some l.record

namespace Ledger

section

variable (hs : s.Ledger)
include hs

theorem nonneg (h : String) : 0 ≤ s.transfers h := by
  rw [hs.counts h]
  exact Int.natCast_nonneg _

theorem quiet (hp : s.transferProtected h streaming = false) : s.Quiet h := by
  intro l hl hh
  by_contra hr
  have hr : l.released = false := by simpa using hr
  have hpos : 0 < s.leases.countP (counted h (s.transferRecords h)) := by
    refine countP_pos_iff.2 ⟨l, hl, ?_⟩
    have hlabel := hs.labelled l hl hr
    rw [hh] at hlabel
    simp [counted, hh, hr, hlabel]
  have hcount := hs.counts h
  have hle : ¬ 0 < s.transfers h := by
    intro hlt
    simp [transferProtected, hlt] at hp
  omega

theorem of_rows {s' : LeaseState} (hl : s'.leases = s.leases)
    (ht : s'.transfers = s.transfers) (hr : s'.transferRecords = s.transferRecords)
    (hrows : ∀ k record, ¬ s.Quiet k → s.Stored k record → s'.Stored k record) : s'.Ledger := by
  refine ⟨?_, ?_, ?_⟩
  · rw [hl, ht, hr]
    exact hs.counts
  · rw [hl]
    intro l hmem hrel
    refine hrows _ _ ?_ (hs.stored l hmem hrel)
    intro hquiet
    rw [hquiet l hmem rfl] at hrel
    cases hrel
  · rw [hl, hr]
    exact hs.labelled

theorem adjust (hf : ∀ r, (f r).hash = r.hash)
    (hrec : ∀ r, (f r).record = r.record) : (s.adjust h f hf).Ledger := by
  refine hs.of_rows rfl rfl rfl ?_
  rintro k record - ⟨row, hrow, hrecord⟩
  by_cases hk : k = h
  · exact ⟨f row, by rw [find_adjust, if_pos hk, hrow]; rfl, (hrec row).trans hrecord⟩
  · exact ⟨row, by rw [find_adjust, if_neg hk, hrow], hrecord⟩

theorem setStage (h : String) (stage : OperationStage) : (s.setStage h stage).Ledger :=
  hs.adjust (f := fun r => { r with stage }) (fun _ => rfl) fun _ => rfl

theorem remove (hq : s.Quiet h) : (s.remove h).Ledger := by
  refine hs.of_rows rfl rfl rfl ?_
  rintro k record hk ⟨row, hrow, hrecord⟩
  have hne : k ≠ h := by
    rintro rfl
    exact hk hq
  exact ⟨row, by rw [find_remove, if_neg hne, hrow], hrecord⟩

theorem add (h : String) (temporary : Bool) : (s.add h temporary).Ledger := by
  unfold LeaseState.add
  split
  · exact hs
  next hnone =>
  refine hs.of_rows rfl rfl rfl ?_
  rintro k record - ⟨row, hrow, hrecord⟩
  have hne : k ≠ h := by
    rintro rfl
    simp [hrow] at hnone
  exact ⟨row, (Table.find_put_ne hne).trans hrow, hrecord⟩

theorem relabel {s' : LeaseState} (hl : s'.leases = s.leases)
    (ht : s'.transfers = s.transfers) (hrows : s'.rows = s.rows)
    (hr : ∀ k, s'.transferRecords k = s.transferRecords k ∨
      s'.transferRecords k = none ∧ s.transfers k = 0) : s'.Ledger := by
  have hzero : ∀ k, s.transfers k = 0 → ∀ l ∈ s.leases, l.hash = k → l.released = true := by
    intro k hk
    have hcount := hs.counts k
    have hnone : s.leases.countP (counted k (s.transferRecords k)) = 0 := by omega
    intro l hmem hh
    by_contra hrel
    have hrel : l.released = false := by simpa using hrel
    have hlabel := hs.labelled l hmem hrel
    have hno := countP_eq_zero.1 hnone l hmem
    rw [hh] at hlabel
    simp [counted, hh, hrel, hlabel] at hno
  refine ⟨?_, ?_, ?_⟩
  · intro k
    rw [hl, ht]
    rcases hr k with hk | ⟨hk, h0⟩
    · rw [hk]
      exact hs.counts k
    · rw [hk, h0, eq_comm]
      simp [counted]
  · rw [hl]
    unfold Stored
    rw [hrows]
    exact hs.stored
  · rw [hl]
    intro l hmem hrel
    rcases hr l.hash with hk | ⟨-, h0⟩
    · rw [hk]
      exact hs.labelled l hmem hrel
    · rw [hzero _ h0 l hmem rfl] at hrel
      cases hrel

theorem release (i : Nat) : (s.release i).Ledger := by
  unfold LeaseState.release
  split
  · exact hs
  next lease hi =>
  have hmem := mem_of_getElem? hi
  split
  · exact hs
  next hrel =>
  have hrel : lease.released = false := by simpa using hrel
  have hlabel := hs.labelled lease hmem hrel
  rw [if_pos hlabel]
  have hsub : ∀ l ∈ s.leases.set i { lease with released := true },
      l.released = false → l ∈ s.leases := by
    intro l hl hlr
    rcases mem_or_eq_of_mem_set hl with hl | rfl
    · exact hl
    · cases hlr
  refine ⟨?_, fun l hl hlr => hs.stored l (hsub l hl hlr) hlr,
    fun l hl hlr => hs.labelled l (hsub l hl hlr) hlr⟩
  intro k
  have hset := Registry.countP_set_add (y := { lease with released := true })
    (counted k (s.transferRecords k)) hi
  have hcount := hs.counts k
  have hnew : counted k (s.transferRecords k) { lease with released := true } = false := by
    simp [counted]
  rw [hnew] at hset
  by_cases hk : k = lease.hash
  · subst hk
    have hold : counted lease.hash (s.transferRecords lease.hash) lease = true := by
      simp [counted, hrel, hlabel]
    rw [hold] at hset
    simp only [update_self]
    simp only [if_true, Bool.false_eq_true, if_false] at hset
    omega
  · have hold : counted k (s.transferRecords k) lease = false := by
      simp [counted, Ne.symm hk]
    rw [hold] at hset
    simp only [update_of_ne hk]
    simp only [Bool.false_eq_true, if_false] at hset
    omega

theorem grant (hg : ∀ record playback, s.locks h = some (.granting record playback) →
      s.Stored h record) : (s.grant h).Ledger := by
  unfold LeaseState.grant
  split
  next record playback hlock =>
    have hstored := hg record playback hlock
    obtain ⟨row, hrow, hrecord⟩ := hstored
    have hsame : ∀ l ∈ s.leases, l.hash = h → l.released = false → l.record = record := by
      intro l hl hh hrel
      obtain ⟨row', hrow', hrecord'⟩ := hs.stored l hl hrel
      rw [hh, hrow] at hrow'
      cases hrow'
      exact hrecord'.symm.trans hrecord
    refine ⟨?_, ?_, ?_⟩
    · intro k
      by_cases hk : k = h
      · subst hk
        simp only [update_self, countP_append, countP_singleton]
        have hself : counted k (some record) ⟨k, record, playback, false⟩ = true := by
          simp [counted]
        rw [hself]
        by_cases hknown : s.transferRecords k = some record
        · rw [if_pos hknown, hs.counts k, hknown]
          simp
        have hzero : s.leases.countP (counted k (some record)) = 0 := by
          refine countP_eq_zero.2 ?_
          intro l hl hc
          simp only [counted, decide_eq_true_eq] at hc
          have hlabel := hs.labelled l hl hc.2.1
          rw [hc.1, hsame l hl hc.1 hc.2.1] at hlabel
          exact hknown hlabel
        rw [if_neg hknown, hzero]
        simp
      · have hother : counted k (s.transferRecords k) ⟨h, record, playback, false⟩ = false := by
          simp [counted, Ne.symm hk]
        simp only [update_of_ne hk, countP_append, countP_singleton]
        rw [hs.counts k, hother]
        simp
    · intro l hl hrel
      rcases mem_append.1 hl with hl | hl
      · exact hs.stored l hl hrel
      · obtain rfl := mem_singleton.1 hl
        exact ⟨row, hrow, hrecord⟩
    · intro l hl hrel
      rcases mem_append.1 hl with hl | hl
      · by_cases hk : l.hash = h
        · simp only [hk, update_self]
          rw [hsame l hl hk hrel]
        · simp only [update_of_ne hk]
          exact hs.labelled l hl hrel
      · obtain rfl := mem_singleton.1 hl
        simp only [update_self]
  · exact hs

end

end Ledger

end LeaseState

end TorrentHub
