import TorrentHub.Usecase.Eviction

namespace TorrentHub

open Lib LeaseState OperationStage

namespace LeaseState

variable {s : LeaseState} {h : String}

structure Sound (s : LeaseState) : Prop where
  ledger : s.Ledger
  guards : s.Guards

theorem sound_init (limit : Nat) : Sound { limit } := by
  refine ⟨⟨?_, ?_, ?_⟩, ?_, ?_, ?_, ?_, ?_, ?_, ?_, ?_⟩
  · intro h
    rfl
  · nofun
  · nofun
  · nofun
  · nofun
  · nofun
  · nofun
  · rintro w ⟨⟩
  · rintro w ⟨⟩
  · nofun
  · nofun

namespace Sound

section

variable (hs : s.Sound)
include hs

theorem ledger_of_eq {s' : LeaseState} (hl : s'.leases = s.leases)
    (ht : s'.transfers = s.transfers) (hr : s'.transferRecords = s.transferRecords)
    (hrows : s'.rows = s.rows) : s'.Ledger := by
  refine hs.ledger.of_rows hl ht hr ?_
  intro k record _ hstored
  unfold Stored
  rw [hrows]
  exact hstored

theorem acquireTransfer (h : String) (playback admitted : Bool) :
    (s.acquireTransfer h playback admitted).Sound := by
  unfold LeaseState.acquireTransfer
  split
  next row hlock hrow =>
    split
    · exact hs
    next hok =>
    refine ⟨hs.ledger_of_eq rfl rfl rfl rfl, hs.guards.setLock ?_ ?_ nofun⟩
    · intro hholds
      rw [hs.guards.cleaning h hholds] at hlock
      cases hlock
    intro r p hholder
    cases hholder
    refine ⟨row, hrow, rfl, ?_⟩
    simp only [Bool.or_eq_true, not_or, Bool.not_eq_true] at hok
    exact hok.1
  · exact hs

theorem grant (h : String) : (s.grant h).Sound := by
  refine ⟨hs.ledger.grant ?_, ?_⟩
  · intro record playback hlock
    obtain ⟨row, hrow, hrecord, -⟩ := hs.guards.granting h record playback hlock
    exact ⟨row, hrow, hrecord⟩
  unfold LeaseState.grant
  split
  next record playback hlock =>
    obtain ⟨row, hrow, -, hidle⟩ := hs.guards.granting h record playback hlock
    let grown : LeaseState := { s with leases := s.leases ++ [⟨h, record, playback, false⟩] }
    have hgrown : grown.Guards := by
      refine hs.guards.of_leases rfl rfl rfl rfl ?_
      intro k hk hquiet l hl hhash
      rcases List.mem_append.1 hl with hl | hl
      · exact hquiet l hl hhash
      obtain rfl := List.mem_singleton.1 hl
      obtain rfl : h = k := hhash
      rcases hk with hk | ⟨row', hrow', hblocks⟩
      · exact absurd hlock (hk record playback)
      rw [hrow] at hrow'
      cases hrow'
      rw [hidle] at hblocks
      cases hblocks
    have hfree : (grown.setLock h none).Guards := by
      refine hgrown.setLock ?_ nofun nofun
      intro hholds
      have hclean := hs.guards.cleaning h hholds
      rw [hlock] at hclean
      cases hclean
    exact { hfree with }
  · exact hs.guards

theorem release (i : Nat) : (s.release i).Sound := by
  refine ⟨hs.ledger.release i, ?_⟩
  have hset : ∀ lease : TransferLease, ∀ k, s.Quiet k →
      ∀ l ∈ s.leases.set i { lease with released := true }, l.hash = k → l.released = true := by
    intro lease k hquiet l hl hhash
    rcases List.mem_or_eq_of_mem_set hl with hl | rfl
    · exact hquiet l hl hhash
    · rfl
  unfold LeaseState.release
  split
  · exact hs.guards
  next lease hi =>
  split
  · exact hs.guards
  split
  · exact hs.guards.of_leases rfl rfl rfl rfl fun k _ => hset lease k
  · exact hs.guards.of_leases rfl rfl rfl rfl fun k _ => hset lease k

theorem delete (h : String) (streaming admitted : Bool) :
    (s.delete h streaming admitted).Sound := by
  unfold LeaseState.delete
  split
  next row hlock hrow =>
    split
    · exact hs
    next hok =>
    refine ⟨hs.ledger_of_eq rfl rfl rfl rfl, hs.guards.setLock ?_ nofun ?_⟩
    · intro hholds
      rw [hs.guards.cleaning h hholds] at hlock
      cases hlock
    intro _
    simp only [Bool.or_eq_true, not_or, Bool.not_eq_true] at hok
    exact hs.ledger.quiet hok.1
  · exact hs

theorem unlock (hlock : s.locks h = some .deleting) : (s.setLock h none).Sound := by
  refine ⟨hs.ledger_of_eq rfl rfl rfl rfl, hs.guards.setLock ?_ nofun nofun⟩
  intro hholds
  rw [hs.guards.cleaning h hholds] at hlock
  cases hlock

theorem deleteRecord (h : String) (ok : Bool) : (s.deleteRecord h ok).Sound := by
  unfold LeaseState.deleteRecord
  split
  next row hlock hrow =>
    split
    next hok =>
      have hremoved : (s.remove h).Sound := by
        refine ⟨hs.ledger.remove (hs.guards.deleting h hlock), hs.guards.remove ?_ ?_ ?_⟩
        · intro r p hgrant
          rw [hlock] at hgrant
          cases hgrant
        · intro row' hrow'
          rw [hrow] at hrow'
          cases hrow'
          exact hok.1
        · intro q hreads
          have hclean := hs.guards.cleaning h (CleanerPoint.holds_of_reads hreads)
          rw [hlock] at hclean
          cases hclean
      exact hremoved.unlock hlock
    · exact hs.unlock hlock
  next hlock _ => exact hs.unlock hlock
  · exact hs

theorem startCleanup : s.startCleanup.Sound := by
  unfold LeaseState.startCleanup
  split
  · refine ⟨hs.ledger.relabel rfl rfl rfl ?_, ?_⟩
    · intro k
      by_cases hk : s.expired k = true ∧ s.transfers k = 0
      · exact .inr ⟨if_pos hk, hk.2⟩
      · exact .inl (if_neg hk)
    · have hrest := hs.guards.rest (c := .limited s.limit) rfl
      exact { hrest with }
  · exact hs

theorem rest {c : CleanerPoint} (hc : c.holds = none) : { s with cleaner := c }.Sound :=
  ⟨hs.ledger_of_eq rfl rfl rfl rfl, hs.guards.rest hc⟩

theorem unlocked (h : String) {c : CleanerPoint} (hc : c.holds = none) :
    { s.setLock h none with cleaner := c }.Sound := by
  have hrest := hs.rest hc
  refine ⟨hs.ledger_of_eq rfl rfl rfl rfl, hrest.guards.setLock ?_ nofun nofun⟩
  intro hholds
  rw [show c.holds = some h from hholds] at hc
  cases hc

theorem clean (streaming ok : Bool) : (s.clean streaming ok).Sound := by
  unfold LeaseState.clean
  split
  · exact hs
  · split
    · exact hs.rest rfl
    · exact hs.rest rfl
  · split
    · exact hs.rest rfl
    next hash _ _ =>
    split
    · refine ⟨hs.ledger_of_eq rfl rfl rfl rfl, ?_⟩
      have hlocked : (s.setLock hash (some .cleaning)).Guards :=
        hs.guards.setLock (fun _ => rfl) (by simp) (by simp)
      refine hlocked.setCleaner (c := .locked hash) ?_ (by simp) (by rintro _ _ ⟨⟩)
        (by rintro _ _ ⟨⟩)
      intro k hk
      cases hk
      simp [setLock]
    · exact hs.rest rfl
  next hash hpoint =>
    have hlock := hs.guards.cleaning hash (by rw [hpoint]; rfl)
    split
    next hok =>
      refine ⟨hs.ledger_of_eq rfl rfl rfl rfl,
        hs.guards.setCleaner ?_ (by simp) ?_ (by rintro _ _ ⟨⟩)⟩
      · intro k hk
        cases hk
        exact hlock
      intro k q hk
      cases hk
      exact ⟨hok.1, hok.1⟩
    · exact hs.unlocked hash rfl
  next hash queue hpoint =>
    have hlock := hs.guards.cleaning hash (by rw [hpoint]; rfl)
    have hhead := hs.guards.head hash queue (by rw [hpoint]; rfl)
    split
    · exact hs.unlocked hash rfl
    next hlong =>
    refine ⟨hs.ledger_of_eq rfl rfl rfl rfl, hs.guards.setCleaner ?_ (by simp) ?_ ?_⟩
    · intro k hk
      cases hk
      exact hlock
    · intro k q hk
      cases hk
      exact hhead
    · intro q l hk
      cases hk
      omega
  next hash queue limit hpoint =>
    have hlock := hs.guards.cleaning hash (by rw [hpoint]; rfl)
    have hhead := hs.guards.head hash queue (by rw [hpoint]; rfl)
    have hlong := hs.guards.longer queue limit (by rw [hpoint]; rfl)
    split
    · exact hs.unlocked hash rfl
    next hfree =>
    refine ⟨hs.ledger_of_eq rfl rfl rfl rfl, hs.guards.setCleaner ?_ ?_ ?_ ?_⟩
    · intro k hk
      cases hk
      exact hlock
    · intro k q l hk
      cases hk
      exact hs.ledger.quiet (by simpa using hfree)
    · intro k q hk
      cases hk
      exact hhead
    · intro q l hk
      cases hk
      exact hlong
  next hash queue limit hpoint =>
    have hlock := hs.guards.cleaning hash (by rw [hpoint]; rfl)
    have hquiet := hs.guards.evicting hash queue limit hpoint
    split
    next row hrow =>
      split
      next hok =>
        have hpast : { s with cleaner := .evicted hash queue limit }.Guards := by
          refine hs.guards.setCleaner ?_ (by simp) (by rintro _ _ ⟨⟩) (by rintro _ _ ⟨⟩)
          intro k hk
          cases hk
          exact hlock
        refine ⟨(hs.ledger.remove hquiet).of_rows rfl rfl rfl fun _ _ _ hstored => hstored,
          hpast.remove ?_ ?_ (by rintro _ ⟨⟩)⟩
        · intro r p hgrant
          rw [show s.locks hash = _ from hgrant] at hlock
          cases hlock
        intro row' hrow'
        rw [show s.rows.find hash = _ from hrow'] at hrow
        cases hrow
        exact hok.2.1
      · exact hs.unlocked hash rfl
    · exact hs.unlocked hash rfl
  next hash queue limit hpoint =>
  have hout := hs.unlocked hash (c := .scanning queue.tail limit) rfl
  refine ⟨hs.ledger.relabel rfl rfl rfl ?_, ?_⟩
  · intro k
    by_cases hk : k = hash
    · subst hk
      by_cases hzero : s.transfers k = 0
      · exact .inr ⟨by simp [hzero], hzero⟩
      · exact .inl (by simp [hzero])
    · exact .inl (Function.update_of_ne hk _ _)
  · exact ⟨hout.guards.granting, hout.guards.deleting, hout.guards.cleaning,
      hout.guards.evicting, hout.guards.working, hout.guards.clear, hout.guards.head,
      hout.guards.longer⟩

theorem command {stage : OperationStage} (hlock : s.locks h = none)
    (hblocks : stage.blocks = true) : (s.setStage h stage).Sound := by
  refine ⟨hs.ledger.setStage h stage, hs.guards.setStage ?_ ?_⟩
  · intro r p hgrant
    rw [hlock] at hgrant
    cases hgrant
  · exact fun _ _ _ _ => hblocks

theorem queueOperation (h : String) : (s.queueOperation h).Sound := by
  unfold LeaseState.queueOperation
  split
  next hlock _ =>
    split
    · exact hs.command hlock rfl
    · exact hs
  · exact hs

theorem cancelOperation (h : String) : (s.cancelOperation h).Sound := by
  unfold LeaseState.cancelOperation
  split
  next hlock _ =>
    split
    · exact hs
    · exact hs.command hlock rfl
  · exact hs

theorem startWorker (h : String) : (s.startWorker h).Sound := by
  unfold LeaseState.startWorker
  split
  next row _ _ hrow =>
    refine ⟨hs.ledger_of_eq rfl rfl rfl rfl, hs.guards.setWorker ?_ ?_⟩
    · intro v hv hpoint
      cases hv
      refine ⟨row, hrow, rfl, ?_⟩
      revert hpoint
      cases row.stage <;> simp [entry, blocks]
    · intro v hv hpoint
      cases hv
      revert hpoint
      cases row.stage <;> simp [entry]
  · exact hs

theorem not_granting {row : LeaseRow} (hrow : s.rows.find h = some row)
    (hblocks : row.stage.blocks = true) (r : Nat) (p : Bool) :
    s.locks h ≠ some (.granting r p) := by
  intro hlock
  obtain ⟨row', hrow', -, hidle⟩ := hs.guards.granting h r p hlock
  rw [hrow] at hrow'
  cases hrow'
  rw [hidle] at hblocks
  cases hblocks

section

variable (w : LocationWorker)

theorem leaving : { s with worker := some { w with point := .leaving } }.Sound :=
  ⟨hs.ledger_of_eq rfl rfl rfl rfl, hs.guards.leaving w⟩

theorem transition {expected next : OperationStage}
    {point : LocationPoint} (hexpected : expected.blocks = true) (hnext : next.blocks = true)
    (hpoint : point ≠ .clear) : (s.transition w expected next point).Sound := by
  unfold LeaseState.transition
  split
  next row hrow =>
    split
    next hok =>
      have hblocks : row.stage.blocks = true := by rw [hok.2, hexpected]
      have hgrant := hs.not_granting hrow hblocks
      refine ⟨(hs.ledger.setStage w.hash next).of_rows rfl rfl rfl fun _ _ _ hstored => hstored, ?_⟩
      refine (hs.guards.setStage hgrant fun _ _ _ _ => hnext).setWorker ?_ ?_
      · intro v hv _
        cases hv
        refine ⟨{ row with stage := next }, ?_, hok.1, hnext⟩
        unfold setStage
        rw [find_adjust, if_pos rfl, hrow]
        rfl
      · intro v hv hclear
        cases hv
        exact absurd hclear hpoint
    · exact hs.leaving w
  · exact hs.leaving w

theorem complete : (s.transition w .publishing .idle .leaving).Sound := by
  unfold LeaseState.transition
  split
  next row hrow =>
    split
    next hok =>
      have hgrant := hs.not_granting hrow (by rw [hok.2]; rfl)
      refine ⟨(hs.ledger.setStage w.hash .idle).of_rows rfl rfl rfl
        fun _ _ _ hstored => hstored, ?_⟩
      refine (hs.guards.leaving w).setStage hgrant ?_
      intro v hv hpoint
      cases hv
      exact absurd rfl hpoint
    · exact hs.leaving w
  · exact hs.leaving w

theorem leave (ok : Bool) : (s.leave w ok).Sound := by
  have hnone : { s with worker := none }.Sound :=
    ⟨hs.ledger_of_eq rfl rfl rfl rfl, hs.guards.noWorker⟩
  unfold LeaseState.leave
  split
  next row hrow =>
    split
    next hok =>
      have hgrant := hs.not_granting hrow (by rw [hok.2.1]; rfl)
      refine ⟨(hs.ledger.setStage w.hash .idle).of_rows rfl rfl rfl
        fun _ _ _ hstored => hstored, ?_⟩
      exact hnone.guards.setStage hgrant nofun
    · exact hnone
  · exact hnone

end

theorem work (streaming ok : Bool) : (s.work streaming ok).Sound := by
  unfold LeaseState.work
  split
  · exact hs
  next w hw =>
  split
  · exact hs.leave w ok
  next hpoint =>
  have hrow := hs.guards.working w hw hpoint
  split
  · exact hs.leaving w
  split
  · exact hs.transition w rfl rfl nofun
  · split
    · exact hs
    next hfree =>
    refine ⟨hs.ledger_of_eq rfl rfl rfl rfl, hs.guards.setWorker ?_ ?_⟩
    · intro v hv _
      cases hv
      exact hrow
    intro v hv _
    cases hv
    exact hs.ledger.quiet (by simpa using hfree)
  · refine ⟨(hs.ledger.adjust (f := fun r => { r with attached := false }) (fun _ => rfl)
      fun _ => rfl).of_rows rfl rfl rfl fun _ _ _ hstored => hstored, ?_⟩
    refine (hs.guards.attached w.hash false).setWorker ?_ ?_
    · intro v hv _
      cases hv
      obtain ⟨row, hfind, hrecord, hblocks⟩ := hrow
      refine ⟨{ row with attached := false }, ?_, hrecord, hblocks⟩
      rw [find_adjust, if_pos rfl, hfind]
      rfl
    · intro v hv hclear
      cases hv
      cases hclear
  · exact hs.transition w rfl rfl nofun
  · exact hs.transition w rfl rfl nofun
  · exact hs.complete w
  · exact hs

theorem attached (h : String) (attached : Bool) :
    (s.adjust h (fun r => { r with attached }) fun _ => rfl).Sound :=
  ⟨hs.ledger.adjust (f := fun r => { r with attached }) (fun _ => rfl) fun _ => rfl,
    hs.guards.attached h attached⟩

theorem step (a : LeaseAction) : (s.step a).Sound := by
  cases a with
  | add h temporary => exact ⟨hs.ledger.add h temporary, hs.guards.add h temporary⟩
  | attach h =>
    simp only [LeaseState.step]
    split
    · exact hs
    · exact hs.attached h true
  | makePermanent h =>
    simp only [LeaseState.step]
    split
    · exact hs
    next hlock =>
    exact ⟨hs.ledger.adjust (f := fun r => { r with temporary := false }) (fun _ => rfl)
        fun _ => rfl,
      hs.guards.makePermanent (by simpa using hlock)⟩
  | setTemporaryLimit limit | tick =>
    exact ⟨hs.ledger_of_eq rfl rfl rfl rfl, hs.guards.of_leases rfl rfl rfl rfl fun _ _ hq => hq⟩
  | acquireTransfer h playback admitted => exact hs.acquireTransfer h playback admitted
  | grant h => exact hs.grant h
  | release i => exact hs.release i
  | delete h streaming admitted => exact hs.delete h streaming admitted
  | deleteRecord h ok => exact hs.deleteRecord h ok
  | cancelDeletion h =>
    simp only [LeaseState.step, LeaseState.cancelDeletion]
    split
    · exact hs
    · exact hs.attached h false
  | startCleanup => exact hs.startCleanup
  | clean streaming ok => exact hs.clean streaming ok
  | queueOperation h => exact hs.queueOperation h
  | cancelOperation h => exact hs.cancelOperation h
  | startWorker h => exact hs.startWorker h
  | work streaming ok => exact hs.work streaming ok

end

theorem run (limit : Nat) (as : List LeaseAction) : (run limit as).Sound :=
  exec_invariant_forall (fun _ a hs => hs.step a) (sound_init limit) as

end Sound

end LeaseState

end TorrentHub
