import TorrentHub.Usecase.LeaseLedger

namespace TorrentHub

open Lib List LeaseState CleanerPoint Table

namespace CleanerPoint

def holds : CleanerPoint → Option String
  | .locked h | .reread h _ | .longer h _ _ | .evicting h _ _ | .evicted h _ _ => some h
  | _ => none

def reads : CleanerPoint → Option (String × List String)
  | .reread h q | .longer h q _ | .evicting h q _ => some (h, q)
  | _ => none

def compared : CleanerPoint → Option (List String × Nat)
  | .longer _ q l | .evicting _ q l => some (q, l)
  | _ => none

theorem holds_of_reads {c : CleanerPoint} {h : String} {q : List String}
    (hc : c.reads = some (h, q)) : c.holds = some h := by
  revert hc
  cases c <;> simp +contextual [reads, holds]

end CleanerPoint

namespace LeaseState

variable {s : LeaseState} {h k : String}

theorem head_temporaryQueue (s : LeaseState) :
    s.temporaryQueue.head? = (s.rows.rows.find? (·.temporary)).map (·.hash) := by
  rw [temporaryQueue, head?_map, head?_filter]

/-- The first that has `p` is the first that has `p` and `q`, if it has `q`. -/
theorem find?_and {α : Type} {p q : α → Bool} {l : List α} {x : α} (hx : l.find? p = some x)
    (hq : q x = true) : l.find? (fun y => decide (q y = true ∧ p y = true)) = some x := by
  obtain ⟨hp, as, bs, rfl, has⟩ := find?_eq_some_iff_append.1 hx
  refine find?_eq_some_iff_append.2 ⟨by simp [hp, hq], as, bs, rfl, ?_⟩
  intro a ha
  have hnot := has a ha
  simp only [Bool.not_eq_true'] at hnot
  simp [hnot]

section

variable (hh : s.temporaryQueue.head? = some h) (hne : h ≠ k)
include hh hne

theorem head_remove : (s.remove k).temporaryQueue.head? = some h := by
  rw [head_temporaryQueue, Option.map_eq_some_iff] at hh ⊢
  obtain ⟨row, hrow, rfl⟩ := hh
  refine ⟨row, ?_, rfl⟩
  unfold remove Table.remove
  rw [find?_filter]
  exact find?_and (q := fun r : LeaseRow => !(r.hash == k)) hrow (by simpa using hne)

theorem head_makePermanent :
    (s.adjust k (fun r => { r with temporary := false }) fun _ => rfl).temporaryQueue.head?
      = some h := by
  rw [head_temporaryQueue, Option.map_eq_some_iff] at hh
  obtain ⟨row, hrow, rfl⟩ := hh
  have hfind := find?_and (q := fun r : LeaseRow => !(r.hash == k)) hrow (by simpa using hne)
  rw [head_temporaryQueue]
  unfold adjust Table.adjust
  rw [find?_map]
  have hcomp : ((fun r : LeaseRow => r.temporary) ∘
      fun r => if (r.hash == k) = true then { r with temporary := false } else r)
      = fun r => decide ((!(r.hash == k)) = true ∧ r.temporary = true) := by
    funext r
    by_cases hr : r.hash = k <;> simp [hr]
  rw [hcomp, hfind]
  simp [hne]

end

theorem temporaryQueue_adjust (hf : ∀ r, (f r).hash = r.hash)
    (ht : ∀ r, (f r).temporary = r.temporary) :
    (s.adjust k f hf).temporaryQueue = s.temporaryQueue := by
  unfold temporaryQueue adjust Table.adjust
  rw [filter_map, map_map]
  have hsame : ((fun r : LeaseRow => r.temporary) ∘
      fun r => if (r.hash == k) = true then f r else r)
      = fun r => r.temporary := by
    funext r
    by_cases hr : r.hash = k <;> simp [hr, ht]
  have hhash : ((fun r : LeaseRow => r.hash) ∘ fun r => if (r.hash == k) = true then f r else r)
      = fun r => r.hash := by
    funext r
    by_cases hr : r.hash = k <;> simp [hr, hf]
  rw [hsame, hhash]

theorem head_add (hh : s.temporaryQueue.head? = some h) (k : String) (temporary : Bool) :
    (s.add k temporary).temporaryQueue.head? = some h := by
  unfold add
  split
  · exact hh
  next hnone =>
  have hne : h ≠ k := by
    rintro rfl
    rw [head_temporaryQueue, Option.map_eq_some_iff] at hh
    obtain ⟨row, hrow, rfl⟩ := hh
    have hsome := find_of_mem (mem_of_find?_eq_some hrow)
    simp [hsome] at hnone
  rw [head_temporaryQueue, Option.map_eq_some_iff] at hh ⊢
  obtain ⟨row, hrow, rfl⟩ := hh
  refine ⟨row, ?_, rfl⟩
  unfold put
  rw [find?_append, find?_filter]
  have hfind := find?_and (q := fun r : LeaseRow => decide (r.hash ≠ k)) hrow
    (by simpa using hne)
  change (find? (fun r : LeaseRow =>
    decide (decide (r.hash ≠ k) = true ∧ r.temporary = true)) s.rows.rows).or _ = _
  rw [hfind]
  rfl

structure Guards (s : LeaseState) : Prop where
  granting : ∀ h r p, s.locks h = some (.granting r p) →
    ∃ row, s.rows.find h = some row ∧ row.record = r ∧ row.stage.blocks = false
  deleting : ∀ h, s.locks h = some .deleting → s.Quiet h
  cleaning : ∀ h, s.cleaner.holds = some h → s.locks h = some .cleaning
  evicting : ∀ h q l, s.cleaner = .evicting h q l → s.Quiet h
  working : ∀ w, s.worker = some w → w.point ≠ .leaving →
    ∃ row, s.rows.find w.hash = some row ∧ row.record = w.record ∧ row.stage.blocks = true
  clear : ∀ w, s.worker = some w → w.point = .clear → s.Quiet w.hash
  head : ∀ h q, s.cleaner.reads = some (h, q) →
    s.temporaryQueue.head? = some h ∧ q.head? = some h
  longer : ∀ q l, s.cleaner.compared = some (q, l) → l < q.length

def Keeps (s s' : LeaseState) (h : String) : Prop :=
  ∀ row, s.rows.find h = some row → ∃ row', s'.rows.find h = some row' ∧
    row'.record = row.record ∧ row'.stage.blocks = row.stage.blocks

theorem Guards.of_rows (hs : s.Guards) {s' : LeaseState} (hl : s'.leases = s.leases)
    (hlocks : s'.locks = s.locks) (hc : s'.cleaner = s.cleaner) (hw : s'.worker = s.worker)
    (hlocked : ∀ k r p, s.locks k = some (.granting r p) → s.Keeps s' k)
    (hworker : ∀ w, s.worker = some w → w.point ≠ .leaving → ∀ row,
      s.rows.find w.hash = some row → row.stage.blocks = true →
      ∃ row', s'.rows.find w.hash = some row' ∧ row'.record = row.record ∧ row'.stage.blocks = true)
    (hhead : ∀ k q, s.cleaner.reads = some (k, q) → s.temporaryQueue.head? = some k →
      s'.temporaryQueue.head? = some k) : s'.Guards := by
  have hquiet : ∀ k, s.Quiet k → s'.Quiet k := by
    intro k hk
    unfold Quiet
    rw [hl]
    exact hk
  refine ⟨?_, ?_, ?_, ?_, ?_, ?_, ?_, ?_⟩
  · rw [hlocks]
    intro h r p hlock
    obtain ⟨row, hrow, hrec, hblocks⟩ := hs.granting h r p hlock
    obtain ⟨row', hrow', hrec', hblocks'⟩ := hlocked h r p hlock row hrow
    exact ⟨row', hrow', hrec'.trans hrec, hblocks'.trans hblocks⟩
  · rw [hlocks]
    exact fun h hlock => hquiet h (hs.deleting h hlock)
  · rw [hlocks, hc]
    exact hs.cleaning
  · rw [hc]
    exact fun h q l hpoint => hquiet h (hs.evicting h q l hpoint)
  · rw [hw]
    intro w hsome hpoint
    obtain ⟨row, hrow, hrec, hblocks⟩ := hs.working w hsome hpoint
    obtain ⟨row', hrow', hrec', hblocks'⟩ := hworker w hsome hpoint row hrow hblocks
    exact ⟨row', hrow', hrec'.trans hrec, hblocks'⟩
  · rw [hw]
    exact fun w hsome hpoint => hquiet _ (hs.clear w hsome hpoint)
  · rw [hc]
    intro h q hreads
    obtain ⟨hfirst, hq⟩ := hs.head h q hreads
    exact ⟨hhead h q hreads hfirst, hq⟩
  · rw [hc]
    exact hs.longer

namespace Guards

section

variable (hs : s.Guards)
include hs

theorem adjust (hf : ∀ r, (f r).hash = r.hash)
    (hrec : ∀ r, (f r).record = r.record) (hstage : ∀ r, (f r).stage = r.stage)
    (hhead : ∀ k q, s.cleaner.reads = some (k, q) → s.temporaryQueue.head? = some k →
      (s.adjust h f hf).temporaryQueue.head? = some k) : (s.adjust h f hf).Guards := by
  have hkeeps : ∀ k, s.Keeps (s.adjust h f hf) k := by
    intro k row hrow
    by_cases hk : k = h
    · exact ⟨f row, by rw [find_adjust, if_pos hk, hrow]; rfl, hrec row, by rw [hstage]⟩
    · exact ⟨row, by rw [find_adjust, if_neg hk, hrow], rfl, rfl⟩
  refine hs.of_rows rfl rfl rfl rfl (fun k _ _ _ => hkeeps k) ?_ hhead
  intro w _ _ row hrow hblocks
  obtain ⟨row', hrow', hrec', hblocks'⟩ := hkeeps w.hash row hrow
  exact ⟨row', hrow', hrec', hblocks'.trans hblocks⟩

theorem attached (h : String) (attached : Bool) :
    (s.adjust h (fun r => { r with attached }) fun _ => rfl).Guards := by
  refine hs.adjust (f := fun r => { r with attached }) (fun _ => rfl) (fun _ => rfl)
    (fun _ => rfl) ?_
  intro k q _ hhead
  rw [temporaryQueue_adjust (f := fun r => { r with attached }) (fun _ => rfl) fun _ => rfl]
  exact hhead

theorem makePermanent (hlock : s.locks h = none) :
    (s.adjust h (fun r => { r with temporary := false }) fun _ => rfl).Guards := by
  refine hs.adjust (f := fun r => { r with temporary := false }) (fun _ => rfl) (fun _ => rfl)
    (fun _ => rfl) ?_
  intro k q hreads hhead
  refine head_makePermanent hhead ?_
  rintro rfl
  have hclean := hs.cleaning k (holds_of_reads hreads)
  rw [hlock] at hclean
  cases hclean

theorem setStage {stage : OperationStage} (hgrant : ∀ r p, s.locks h ≠ some (.granting r p))
    (hwork : ∀ w, s.worker = some w → w.point ≠ .leaving → w.hash = h → stage.blocks = true) :
    (s.setStage h stage).Guards := by
  unfold LeaseState.setStage
  refine hs.of_rows rfl rfl rfl rfl ?_ ?_ ?_
  · intro k r p hlock row hrow
    have hk : k ≠ h := by
      rintro rfl
      exact hgrant r p hlock
    exact ⟨row, by rw [find_adjust, if_neg hk, hrow], rfl, rfl⟩
  · intro w hw hpoint row hrow hblocks
    by_cases hk : w.hash = h
    · exact ⟨{ row with stage }, by rw [find_adjust, if_pos hk, hrow]; rfl, rfl,
        hwork w hw hpoint hk⟩
    · exact ⟨row, by rw [find_adjust, if_neg hk, hrow], rfl, hblocks⟩
  · intro k q _ hhead
    rw [temporaryQueue_adjust (f := fun r => { r with stage }) (fun _ => rfl) fun _ => rfl]
    exact hhead

theorem remove (hgrant : ∀ r p, s.locks h ≠ some (.granting r p))
    (hidle : ∀ row, s.rows.find h = some row → row.stage.blocks = false)
    (hclean : ∀ q, s.cleaner.reads ≠ some (h, q)) : (s.remove h).Guards := by
  refine hs.of_rows rfl rfl rfl rfl ?_ ?_ ?_
  · intro k r p hlock row hrow
    have hk : k ≠ h := by
      rintro rfl
      exact hgrant r p hlock
    exact ⟨row, by rw [find_remove, if_neg hk, hrow], rfl, rfl⟩
  · intro w _ _ row hrow hblocks
    have hk : w.hash ≠ h := by
      intro hk
      rw [hk] at hrow
      rw [hidle row hrow] at hblocks
      cases hblocks
    exact ⟨row, by rw [find_remove, if_neg hk, hrow], rfl, hblocks⟩
  · intro k q hreads hhead
    refine head_remove hhead ?_
    rintro rfl
    exact hclean q hreads

theorem add (h : String) (temporary : Bool) : (s.add h temporary).Guards := by
  have hhead := fun k (hk : s.temporaryQueue.head? = some k) => head_add hk h temporary
  revert hhead
  unfold LeaseState.add
  split
  · exact fun _ => hs
  next hnone =>
  intro hhead
  have hkept : ∀ k row, s.rows.find k = some row →
      (s.rows.put ⟨h, s.nextRecord, temporary, .idle, true⟩).find k = some row := by
    intro k row hrow
    have hne : k ≠ h := by
      rintro rfl
      simp [hrow] at hnone
    exact (find_put_ne hne).trans hrow
  refine hs.of_rows rfl rfl rfl rfl ?_ ?_ fun k _ _ hk => hhead k hk
  · intro k _ _ _ row hrow
    exact ⟨row, hkept k row hrow, rfl, rfl⟩
  · intro w _ _ row hrow hblocks
    exact ⟨row, hkept w.hash row hrow, rfl, hblocks⟩

theorem setLock (hclean : s.cleaner.holds = some h → holder = some .cleaning)
    (hgrant : ∀ r p, holder = some (.granting r p) →
      ∃ row, s.rows.find h = some row ∧ row.record = r ∧ row.stage.blocks = false)
    (hdelete : holder = some .deleting → s.Quiet h) : (s.setLock h holder).Guards := by
  refine ⟨?_, ?_, ?_, hs.evicting, hs.working, hs.clear, hs.head, hs.longer⟩
  · intro k r p hlock
    by_cases hk : k = h
    · subst hk
      exact hgrant r p (by simpa [setLock] using hlock)
    · exact hs.granting k r p (by simpa [LeaseState.setLock, Function.update_of_ne hk] using hlock)
  · intro k hlock
    by_cases hk : k = h
    · subst hk
      exact hdelete (by simpa [setLock] using hlock)
    · exact hs.deleting k (by simpa [LeaseState.setLock, Function.update_of_ne hk] using hlock)
  · intro k hholds
    by_cases hk : k = h
    · subst hk
      simpa [setLock] using hclean hholds
    · simpa [LeaseState.setLock, Function.update_of_ne hk] using hs.cleaning k hholds

theorem setCleaner {c : CleanerPoint} (hholds : ∀ k, c.holds = some k → s.locks k = some .cleaning)
    (hevict : ∀ k q l, c = .evicting k q l → s.Quiet k) (hreads : ∀ k q, c.reads = some (k, q) →
      s.temporaryQueue.head? = some k ∧ q.head? = some k)
    (hlonger : ∀ q l, c.compared = some (q, l) → l < q.length) : { s with cleaner := c }.Guards :=
  ⟨hs.granting, hs.deleting, hholds, hevict, hs.working, hs.clear, hreads, hlonger⟩

theorem rest {c : CleanerPoint} (hc : c.holds = none) : { s with cleaner := c }.Guards := by
  have hreads : ∀ k q, c.reads ≠ some (k, q) := by
    intro k q hk
    rw [holds_of_reads hk] at hc
    cases hc
  refine hs.setCleaner ?_ ?_ ?_ ?_
  · intro k hk
    rw [hc] at hk
    cases hk
  · rintro k q l rfl
    cases hc
  · exact fun k q hk => absurd hk (hreads k q)
  · intro q l hk
    cases c <;> simp [compared, holds] at hk hc

theorem setWorker (hwork : ∀ v, w = some v → v.point ≠ .leaving →
      ∃ row, s.rows.find v.hash = some row ∧ row.record = v.record ∧ row.stage.blocks = true)
    (hclear : ∀ v, w = some v → v.point = .clear → s.Quiet v.hash) :
    { s with worker := w }.Guards :=
  ⟨hs.granting, hs.deleting, hs.cleaning, hs.evicting, hwork, hclear, hs.head, hs.longer⟩

theorem leaving (w : LocationWorker) :
    { s with worker := some { w with point := .leaving } }.Guards := by
  refine hs.setWorker ?_ ?_
  · rintro v hv hpoint
    cases hv
    exact absurd rfl hpoint
  rintro v hv hpoint
  cases hv
  cases hpoint

theorem noWorker : { s with worker := none }.Guards := by
  refine hs.setWorker ?_ ?_
  · nofun
  · nofun

theorem of_leases {s' : LeaseState} (hrows : s'.rows = s.rows)
    (hlocks : s'.locks = s.locks) (hc : s'.cleaner = s.cleaner) (hw : s'.worker = s.worker)
    (hquiet : ∀ k, (∀ r p, s.locks k ≠ some (.granting r p)) ∨
        (∃ row, s.rows.find k = some row ∧ row.stage.blocks = true) →
      s.Quiet k → s'.Quiet k) : s'.Guards := by
  have hqueue : s'.temporaryQueue = s.temporaryQueue := by
    unfold temporaryQueue
    rw [hrows]
  refine ⟨?_, ?_, ?_, ?_, ?_, ?_, ?_, ?_⟩
  · rw [hlocks, hrows]
    exact hs.granting
  · rw [hlocks]
    intro k hk
    refine hquiet k (.inl ?_) (hs.deleting k hk)
    intro r p hlock
    rw [hlock] at hk
    cases hk
  · rw [hlocks, hc]
    exact hs.cleaning
  · rw [hc]
    intro k q l hk
    refine hquiet k (.inl ?_) (hs.evicting k q l hk)
    intro r p hlock
    have hclean := hs.cleaning k (by rw [hk]; rfl)
    rw [hlock] at hclean
    cases hclean
  · rw [hw, hrows]
    exact hs.working
  · rw [hw]
    intro w hsome hpoint
    obtain ⟨row, hrow, -, hblocks⟩ := hs.working w hsome (by rw [hpoint]; nofun)
    exact hquiet w.hash (.inr ⟨row, hrow, hblocks⟩) (hs.clear w hsome hpoint)
  · rw [hc, hqueue]
    exact hs.head
  · rw [hc]
    exact hs.longer

end

end Guards

end LeaseState

end TorrentHub
