import Mathlib.Data.List.Induction
import TorrentHub.Usecase.Protection

namespace TorrentHub

open Lib List LeaseState

namespace LeaseState

variable {s : LeaseState} {h : String} {row : LeaseRow}

variable {streaming ok : Bool} {queue : List String} {bound : Nat} {l : TransferLease}

theorem run_concat (limit : Nat) (as : List LeaseAction) (a : LeaseAction) :
    run limit (as ++ [a]) = (run limit as).step a := by
  rw [run, exec_append, exec_cons, exec_nil, run]

/-- A row goes in a deletion or an eviction that has not found it blocked, or it stays with its
record. -/
inductive RowStep (s : LeaseState) (a : LeaseAction) (h : String) (row : LeaseRow) : Prop where
  | deleted (ok : Bool) (ha : a = .deleteRecord h ok) (hlock : s.locks h = some .deleting)
      (hidle : row.stage.blocks = false)
  | evicted (streaming ok : Bool) (queue : List String) (limit : Nat)
      (ha : a = .clean streaming ok) (hpoint : s.cleaner = .evicting h queue limit)
      (hidle : row.stage.blocks = false)
  | stays (row' : LeaseRow) (hrow : (s.step a).rows.find h = some row')
      (hrecord : row'.record = row.record)
      (hstage : row'.stage.blocks = row.stage.blocks ∨ row'.stage.blocks = true ∨
        (∃ streaming ok, a = .work streaming ok) ∧
          (row.stage = .publishing ∨ row.stage = .cancelRequested) ∧ row'.stage = .idle)
      (hattached : row.attached = true → row'.attached = true ∨ a = .cancelDeletion h ∨
        ∃ streaming ok w, a = .work streaming ok ∧ s.worker = some w ∧ w.point = .clear ∧
          w.hash = h)

namespace RowStep

variable {a : LeaseAction}

variable {streaming ok : Bool} {w : LocationWorker}

section

variable (hrow : s.rows.find h = some row)
include hrow

theorem same (heq : (s.step a).rows = s.rows) : RowStep s a h row :=
  .stays row (by rw [heq, hrow]) rfl (.inl rfl) .inl

section

variable (k : String)

theorem setStage (stage : OperationStage) (heq : (s.step a).rows = (s.setStage k stage).rows)
    (hstage : k = h → stage.blocks = true ∨ (∃ streaming ok, a = .work streaming ok) ∧
      (row.stage = .publishing ∨ row.stage = .cancelRequested) ∧ stage = .idle) :
    RowStep s a h row := by
  have hfind : (s.step a).rows.find h
      = if h = k then (s.rows.find h).map (fun r => { r with stage }) else s.rows.find h := by
    rw [heq]
    exact find_adjust s k _ _ h
  by_cases hk : h = k
  · refine .stays { row with stage } ?_ rfl (.inr (hstage hk.symm)) .inl
    rw [hfind, if_pos hk, hrow]
    rfl
  · refine .stays row ?_ rfl (.inl rfl) .inl
    rw [hfind, if_neg hk, hrow]

theorem attached (attached : Bool)
    (heq : (s.step a).rows = (s.adjust k (fun r => { r with attached }) fun _ => rfl).rows)
    (hattached : k = h → attached = true ∨ a = .cancelDeletion h ∨
        ∃ streaming ok w, a = .work streaming ok ∧ s.worker = some w ∧ w.point = .clear ∧
          w.hash = h) : RowStep s a h row := by
  have hfind : (s.step a).rows.find h
      = if h = k then (s.rows.find h).map (fun r => { r with attached }) else s.rows.find h := by
    rw [heq]
    exact find_adjust s k _ _ h
  by_cases hk : h = k
  · refine .stays { row with attached } ?_ rfl (.inl rfl) fun _ => hattached hk.symm
    rw [hfind, if_pos hk, hrow]
    rfl
  · refine .stays row ?_ rfl (.inl rfl) .inl
    rw [hfind, if_neg hk, hrow]

theorem makePermanent : RowStep s (.makePermanent k) h row := by
  by_cases hlock : (s.locks k).isSome
  · exact same hrow (by simp only [step, if_pos hlock])
  have hfind : (s.step (.makePermanent k)).rows.find h
      = if h = k then (s.rows.find h).map (fun r => { r with temporary := false })
        else s.rows.find h := by
    simp only [step, if_neg hlock]
    exact find_adjust s k _ _ h
  by_cases hk : h = k
  · refine .stays { row with temporary := false } ?_ rfl (.inl rfl) .inl
    rw [hfind, if_pos hk, hrow]
    rfl
  · refine .stays row ?_ rfl (.inl rfl) .inl
    rw [hfind, if_neg hk, hrow]

theorem add (temporary : Bool) : RowStep s (.add k temporary) h row := by
  refine .stays row ?_ rfl (.inl rfl) .inl
  change (s.add k temporary).rows.find h = some row
  unfold LeaseState.add
  split
  · exact hrow
  next hnone =>
  have hne : h ≠ k := by
    rintro rfl
    simp [hrow] at hnone
  exact (Table.find_put_ne hne).trans hrow

theorem deleteRecord (ok : Bool) : RowStep s (.deleteRecord k ok) h row := by
  have hstep : s.step (.deleteRecord k ok) = s.deleteRecord k ok := rfl
  unfold LeaseState.deleteRecord at hstep
  split at hstep
  next row' hlock hrow' =>
    split at hstep
    next hok =>
      by_cases hk : h = k
      · subst hk
        rw [hrow] at hrow'
        cases hrow'
        exact .deleted ok rfl hlock hok.1
      · refine .stays row ?_ rfl (.inl rfl) .inl
        rw [hstep]
        exact (find_remove s k h).trans (by rw [if_neg hk, hrow])
    · exact same hrow (by rw [hstep]; rfl)
  · exact same hrow (by rw [hstep]; rfl)
  · exact same hrow (by rw [hstep])

end

theorem clean (streaming ok : Bool) : RowStep s (.clean streaming ok) h row := by
  have hstep : s.step (.clean streaming ok) = s.clean streaming ok := rfl
  cases hpoint : s.cleaner with
  | evicting k queue limit =>
    simp only [LeaseState.clean, hpoint] at hstep
    split at hstep
    next row' hrow' =>
      split at hstep
      next hok =>
        by_cases hk : h = k
        · subst hk
          rw [hrow] at hrow'
          cases hrow'
          exact .evicted streaming ok queue limit rfl hpoint hok.2.1
        · refine .stays row ?_ rfl (.inl rfl) .inl
          rw [hstep]
          exact (find_remove s k h).trans (by rw [if_neg hk, hrow])
      · exact same hrow (by rw [hstep]; rfl)
    · exact same hrow (by rw [hstep]; rfl)
  | _ =>
    refine same hrow ?_
    rw [hstep]
    simp only [LeaseState.clean, hpoint]
    repeat' split
    all_goals rfl

theorem transition {expected next : OperationStage} {point : LocationPoint}
    (hstep : s.step (.work streaming ok) = s.transition w expected next point)
    (hnext : next.blocks = true ∨ expected = .publishing ∧ next = .idle) :
    RowStep s (.work streaming ok) h row := by
  unfold LeaseState.transition at hstep
  split at hstep
  next row' hrow' =>
    split at hstep
    next hok =>
      refine setStage hrow w.hash next (by rw [hstep]) ?_
      intro hk
      rw [hk, hrow] at hrow'
      cases hrow'
      rcases hnext with hblocks | ⟨hexp, hidle⟩
      · exact .inl hblocks
      · exact .inr ⟨⟨streaming, ok, rfl⟩, .inl (hok.2.trans hexp), hidle⟩
    · exact same hrow (by rw [hstep])
  · exact same hrow (by rw [hstep])

theorem leave (hstep : s.step (.work streaming ok) = s.leave w ok) :
    RowStep s (.work streaming ok) h row := by
  unfold LeaseState.leave at hstep
  split at hstep
  next row' hrow' =>
    split at hstep
    next hok =>
      refine setStage hrow w.hash .idle (by rw [hstep]) ?_
      intro hk
      rw [hk, hrow] at hrow'
      cases hrow'
      exact .inr ⟨⟨streaming, ok, rfl⟩, .inr hok.2.1, rfl⟩
    · exact same hrow (by rw [hstep])
  · exact same hrow (by rw [hstep])

theorem work (streaming ok : Bool) : RowStep s (.work streaming ok) h row := by
  have hstep : s.step (.work streaming ok) = s.work streaming ok := rfl
  cases hw : s.worker with
  | none => exact same hrow (by rw [hstep]; simp only [LeaseState.work, hw])
  | some w =>
    by_cases hleave : w.point = .leaving
    · exact leave hrow (w := w) (by rw [hstep]; simp only [LeaseState.work, hw, hleave])
    cases ok with
    | false =>
      refine same hrow ?_
      rw [hstep]
      cases hp : w.point <;> simp_all [LeaseState.work]
    | true =>
      cases hp : w.point with
      | queued | detached | preparing =>
        exact transition hrow (by rw [hstep]; simp [LeaseState.work, hw, hp]; rfl) (.inl rfl)
      | waiting =>
        refine same hrow ?_
        rw [hstep]
        simp only [LeaseState.work, hw, hp]
        repeat' split
        all_goals rfl
      | clear =>
        refine attached hrow w.hash false (by rw [hstep]; simp [LeaseState.work, hw, hp]) ?_
        intro hk
        exact .inr (.inr ⟨streaming, true, w, rfl, hw, hp, hk⟩)
      | publishing =>
        exact transition hrow (by rw [hstep]; simp [LeaseState.work, hw, hp]; rfl) (.inr ⟨rfl, rfl⟩)
      | leaving => exact absurd hp hleave

theorem queueOperation (k : String) : RowStep s (.queueOperation k) h row := by
  have hstep : s.step (.queueOperation k) = s.queueOperation k := rfl
  unfold LeaseState.queueOperation at hstep
  split at hstep
  · split at hstep
    · exact setStage hrow k .queued (by rw [hstep]) fun _ => .inl rfl
    · exact same hrow (by rw [hstep])
  · exact same hrow (by rw [hstep])

theorem cancelOperation (k : String) : RowStep s (.cancelOperation k) h row := by
  have hstep : s.step (.cancelOperation k) = s.cancelOperation k := rfl
  unfold LeaseState.cancelOperation at hstep
  split at hstep
  · split at hstep
    · exact same hrow (by rw [hstep])
    · exact setStage hrow k .cancelRequested (by rw [hstep]) fun _ => .inl rfl
  · exact same hrow (by rw [hstep])

end

end RowStep

theorem row_step (hrow : s.rows.find h = some row) (a : LeaseAction) : RowStep s a h row := by
  cases a with
  | add k temporary => exact .add hrow k temporary
  | attach k =>
    by_cases hlock : (s.locks k).isSome
    · exact .same hrow (by simp only [step, if_pos hlock])
    · exact .attached hrow k true (by simp only [step, if_neg hlock]) fun _ => .inl rfl
  | makePermanent k => exact .makePermanent hrow k
  | setTemporaryLimit limit | tick => exact .same hrow rfl
  | acquireTransfer k playback admitted =>
    refine .same hrow ?_
    simp only [step, acquireTransfer]
    repeat' split
    all_goals rfl
  | grant k =>
    refine .same hrow ?_
    simp only [step, grant]
    split <;> rfl
  | release i =>
    refine .same hrow ?_
    simp only [step, release]
    repeat' split
    all_goals rfl
  | delete k streaming admitted =>
    refine .same hrow ?_
    simp only [step, delete]
    repeat' split
    all_goals rfl
  | deleteRecord k ok => exact .deleteRecord hrow k ok
  | cancelDeletion k =>
    by_cases hlock : (s.locks k).isSome
    · exact .same hrow (by simp only [step, cancelDeletion, if_pos hlock])
    refine .attached hrow k false (by simp only [step, cancelDeletion, if_neg hlock]) ?_
    rintro rfl
    exact .inr (.inl rfl)
  | startCleanup =>
    refine .same hrow ?_
    simp only [step, startCleanup]
    split <;> rfl
  | clean streaming ok => exact .clean hrow streaming ok
  | queueOperation k => exact .queueOperation hrow k
  | cancelOperation k => exact .cancelOperation hrow k
  | startWorker k =>
    refine .same hrow ?_
    simp only [step, startWorker]
    split <;> rfl
  | work streaming ok => exact .work hrow streaming ok

def granted (s : LeaseState) (h : String) : Nat := s.leases.countP fun l => l.hash == h

/-- No step but `grant` adds to the leases, and `release` only marks one. -/
theorem leases_step (s : LeaseState) (a : LeaseAction) : (s.step a).leases = s.leases ∨
    (∃ i lease, s.leases[i]? = some lease ∧
      (s.step a).leases = s.leases.set i { lease with released := true }) ∨
    ∃ k record playback, a = .grant k ∧ s.locks k = some (.granting record playback) ∧
      (s.step a).leases = s.leases ++ [⟨k, record, playback, false⟩] := by
  cases a with
  | grant k =>
    simp only [step, grant]
    split
    next record playback hlock => exact .inr (.inr ⟨k, record, playback, rfl, hlock, rfl⟩)
    · exact .inl rfl
  | release i =>
    simp only [step, release]
    split
    · exact .inl rfl
    next lease hi =>
    split
    · exact .inl rfl
    · split <;> exact .inr (.inl ⟨i, lease, hi, rfl⟩)
  | work streaming ok =>
    refine .inl ?_
    simp only [step, work, transition, leave]
    repeat' split
    all_goals rfl
  | clean streaming ok =>
    refine .inl ?_
    simp only [step, clean]
    repeat' split
    all_goals rfl
  | _ =>
    refine .inl ?_
    simp only [step, add, acquireTransfer, delete, deleteRecord, cancelDeletion, startCleanup,
      queueOperation, cancelOperation, startWorker]
    repeat' split
    all_goals rfl

theorem Sound.granted_step (hs : s.Sound) (hrow : s.rows.find h = some row)
    (hblocks : row.stage.blocks = true) (a : LeaseAction) : (s.step a).granted h = s.granted h := by
  unfold granted
  rcases leases_step s a with heq | ⟨i, lease, hi, heq⟩ | ⟨k, record, playback, -, hlock, heq⟩
  · rw [heq]
  · have hset := Registry.countP_set_add (y := { lease with released := true })
      (fun l : TransferLease => l.hash == h) hi
    rw [heq]
    dsimp only at hset
    omega
  · have hne : k ≠ h := by
      rintro rfl
      exact hs.not_granting hrow hblocks record playback hlock
    rw [heq, countP_append, countP_singleton]
    simp [hne]

def Ends (s : LeaseState) (a : LeaseAction) (h : String) : Prop :=
  (∃ streaming ok, a = .work streaming ok) ∧ ∃ row row', s.rows.find h = some row ∧
    (row.stage = .publishing ∨ row.stage = .cancelRequested) ∧
    (s.step a).rows.find h = some row' ∧ row'.record = row.record ∧ row'.stage = .idle

theorem blocks_step (hrow : s.rows.find h = some row) (hblocks : row.stage.blocks = true)
    {a : LeaseAction} (hend : ¬ s.Ends a h) :
    ∃ row', (s.step a).rows.find h = some row' ∧ row'.record = row.record ∧
      row'.stage.blocks = true := by
  cases row_step hrow a with
  | deleted _ _ _ hidle =>
    rw [hidle] at hblocks
    cases hblocks
  | evicted _ _ _ _ _ _ hidle =>
    rw [hidle] at hblocks
    cases hblocks
  | stays row' hrow' hrecord hstage _ =>
    refine ⟨row', hrow', hrecord, ?_⟩
    rcases hstage with hsame | hnext | ⟨hwork, hfrom, hidle⟩
    · exact hsame.trans hblocks
    · exact hnext
    · exact absurd ⟨hwork, row, row', hrow, hfrom, hrow', hrecord, hidle⟩ hend

theorem granted_while_blocked (limit : Nat) (as bs : List LeaseAction)
    (hrow : (run limit as).rows.find h = some row) (hblocks : row.stage.blocks = true)
    (hends : ∀ cs a ds, bs = cs ++ a :: ds → ¬ (run limit (as ++ cs)).Ends a h) :
    (∃ row', (run limit (as ++ bs)).rows.find h = some row' ∧ row'.record = row.record ∧
      row'.stage.blocks = true) ∧ (run limit (as ++ bs)).granted h = (run limit as).granted h := by
  induction bs using reverseRecOn with
  | nil =>
    rw [append_nil]
    exact ⟨⟨row, hrow, rfl, hblocks⟩, rfl⟩
  | append_singleton bs a ih =>
    have hbefore : ∀ cs b ds, bs = cs ++ b :: ds → ¬ (run limit (as ++ cs)).Ends b h := by
      intro cs b ds hbs
      exact hends cs b (ds ++ [a]) (by rw [hbs, append_assoc, cons_append])
    obtain ⟨⟨row', hrow', hrecord, hblocks'⟩, hgranted⟩ := ih hbefore
    rw [← append_assoc, run_concat]
    obtain ⟨row'', hrow'', hrecord', hblocks''⟩ := blocks_step hrow' hblocks' (hends bs a [] rfl)
    refine ⟨⟨row'', hrow'', hrecord'.trans hrecord, hblocks''⟩, ?_⟩
    rw [(Sound.run limit (as ++ bs)).granted_step hrow' hblocks' a, hgranted]

theorem cleaner_step {a : LeaseAction} (ha : ∀ streaming ok, a ≠ .clean streaming ok)
    (hstart : a ≠ .startCleanup) : (s.step a).cleaner = s.cleaner := by
  cases a with
  | clean streaming ok => exact absurd rfl (ha streaming ok)
  | startCleanup => exact absurd rfl hstart
  | work streaming ok =>
    simp only [step, work, transition, leave]
    repeat' split
    all_goals rfl
  | _ =>
    simp only [step, add, acquireTransfer, grant, release, delete, deleteRecord, cancelDeletion,
      queueOperation, cancelOperation, startWorker]
    repeat' split
    all_goals rfl

def ReadAgain (limit : Nat) (as : List LeaseAction) (h : String) (queue : List String) : Prop :=
  (run limit as).cleaner = .locked h ∧ (run limit as).temporaryQueue = queue

def Compared (limit : Nat) (as : List LeaseAction) (h : String) (queue : List String)
    (bound : Nat) : Prop :=
  ∃ bs cs, as = bs ++ cs ∧ ReadAgain limit bs h queue ∧ (run limit as).limit = bound

def History (limit : Nat) (as : List LeaseAction) : Prop :=
  (∀ h queue, (run limit as).cleaner = .reread h queue →
    ∃ bs cs, as = bs ++ cs ∧ ReadAgain limit bs h queue) ∧
  ∀ h queue bound, (run limit as).cleaner = .longer h queue bound ∨
      (run limit as).cleaner = .evicting h queue bound →
    ∃ bs cs, as = bs ++ cs ∧ Compared limit bs h queue bound

theorem clean_reread (hc : (s.clean streaming ok).cleaner = .reread h queue) :
    s.cleaner = .locked h ∧ s.temporaryQueue = queue := by
  cases hpoint : s.cleaner <;> simp only [clean, hpoint] at hc
  case locked k =>
    split at hc
    · cases hc
      exact ⟨rfl, rfl⟩
    · cases hc
  all_goals
    repeat' split at hc
    all_goals cases hc

theorem clean_longer (hc : (s.clean streaming ok).cleaner = .longer h queue bound) :
    s.cleaner = .reread h queue ∧ s.limit = bound := by
  cases hpoint : s.cleaner <;> simp only [clean, hpoint] at hc
  case reread k q =>
    split at hc
    · cases hc
    cases hc
    exact ⟨rfl, rfl⟩
  all_goals
    repeat' split at hc
    all_goals cases hc

theorem clean_evicting (hc : (s.clean streaming ok).cleaner = .evicting h queue bound) :
    s.cleaner = .longer h queue bound := by
  cases hpoint : s.cleaner <;> simp only [clean, hpoint] at hc
  case longer k q l =>
    split at hc
    · cases hc
    cases hc
    rfl
  all_goals
    repeat' split at hc
    all_goals cases hc

theorem history (limit : Nat) (as : List LeaseAction) : History limit as := by
  induction as using reverseRecOn with
  | nil =>
    refine ⟨?_, ?_⟩
    · nofun
    · rintro h queue bound (hc | hc) <;> cases hc
  | append_singleton as a ih =>
    obtain ⟨hread, hcompared⟩ := ih
    have hold : (run limit (as ++ [a])).cleaner = (run limit as).cleaner →
        History limit (as ++ [a]) := by
      intro heq
      refine ⟨?_, ?_⟩
      · rw [heq]
        intro h queue hc
        obtain ⟨bs, cs, rfl, hbs⟩ := hread h queue hc
        exact ⟨bs, cs ++ [a], by rw [append_assoc], hbs⟩
      rw [heq]
      intro h queue bound hc
      obtain ⟨bs, cs, rfl, hbs⟩ := hcompared h queue bound hc
      exact ⟨bs, cs ++ [a], by rw [append_assoc], hbs⟩
    by_cases hstart : a = .startCleanup
    · subst hstart
      by_cases hidle : (run limit as).cleaner = .idle
      · have hnew : (run limit (as ++ [.startCleanup])).cleaner
            = .limited (run limit as).limit := by
          rw [run_concat]
          simp only [step, startCleanup, hidle]
        refine ⟨?_, ?_⟩
        · rw [hnew]
          intro h queue hc
          cases hc
        · rw [hnew]
          rintro h queue bound (hc | hc) <;> cases hc
      · refine hold ?_
        rw [run_concat]
        simp only [step, startCleanup]
    by_cases hclean : ∃ streaming ok, a = .clean streaming ok
    · obtain ⟨streaming, ok, rfl⟩ := hclean
      have hrun : run limit (as ++ [.clean streaming ok]) = (run limit as).clean streaming ok :=
        run_concat limit as _
      refine ⟨?_, ?_⟩
      · rw [hrun]
        intro h queue hc
        exact ⟨as, [.clean streaming ok], rfl, clean_reread hc⟩
      rw [hrun]
      rintro h queue bound (hc | hc)
      · obtain ⟨hpoint, hlimit⟩ := clean_longer hc
        obtain ⟨bs, cs, heq, hbs⟩ := hread h queue hpoint
        exact ⟨as, [.clean streaming ok], rfl, bs, cs, heq, hbs, hlimit⟩
      · obtain ⟨bs, cs, rfl, hbs⟩ := hcompared h queue bound (.inl (clean_evicting hc))
        exact ⟨bs, cs ++ [.clean streaming ok], by rw [append_assoc], hbs⟩
    · refine hold ?_
      rw [run_concat]
      exact cleaner_step (fun streaming ok ha => hclean ⟨streaming, ok, ha⟩) hstart

section

variable (hs : s.Sound) (hl : l ∈ s.leases) (hout : l.released = false)
include hs hl hout

theorem Sound.stored_step (a : LeaseAction) : (s.step a).Stored l.hash l.record := by
  obtain ⟨row, hrow, hrecord⟩ := hs.ledger.stored l hl hout
  have hbusy : ¬ s.Quiet l.hash := by
    intro hquiet
    rw [hquiet l hl rfl] at hout
    cases hout
  cases row_step hrow a with
  | deleted _ _ hlock _ => exact absurd (hs.guards.deleting l.hash hlock) hbusy
  | evicted _ _ queue limit _ hpoint _ =>
    exact absurd (hs.guards.evicting l.hash queue limit hpoint) hbusy
  | stays row' hrow' hrecord' _ _ => exact ⟨row', hrow', hrecord'.trans hrecord⟩

theorem Sound.attached_work (hrow : s.rows.find l.hash = some row)
    (hattached : row.attached = true) (streaming ok : Bool) :
    ∃ row', (s.step (.work streaming ok)).rows.find l.hash = some row' ∧ row'.attached = true := by
  cases row_step hrow (.work streaming ok) with
  | deleted _ ha _ _ => cases ha
  | evicted _ _ _ _ ha _ _ => cases ha
  | stays row' hrow' _ _ hkept =>
    refine ⟨row', hrow', ?_⟩
    rcases hkept hattached with hyes | ha | ⟨_, _, w, _, hw, hpoint, hhash⟩
    · exact hyes
    · cases ha
    · have hquiet := hs.guards.clear w hw hpoint
      rw [hhash] at hquiet
      rw [hquiet l hl rfl] at hout
      cases hout

end

theorem evicted_head (limit : Nat) (as : List LeaseAction) (streaming ok : Bool)
    (hrow : (run limit as).rows.find h = some row)
    (hgone : ((run limit as).step (.clean streaming ok)).rows.find h = none) :
    (run limit as).temporaryQueue.head? = some h ∧ ∃ queue bound,
      (run limit as).cleaner = .evicting h queue bound ∧ queue.head? = some h ∧
      bound < queue.length ∧ ∃ bs cs ds, as = bs ++ cs ++ ds ∧
        (run limit bs).cleaner = .locked h ∧ (run limit bs).temporaryQueue = queue ∧
        (run limit (bs ++ cs)).limit = bound := by
  have hs := (Sound.run limit as).guards
  cases row_step hrow (.clean streaming ok) with
  | deleted _ ha _ _ => cases ha
  | stays row' hrow' _ _ _ =>
    rw [hgone] at hrow'
    cases hrow'
  | evicted _ _ queue bound _ hpoint _ =>
    obtain ⟨hhead, hqueue⟩ := hs.head h queue (by rw [hpoint]; rfl)
    have hlong := hs.longer queue bound (by rw [hpoint]; rfl)
    obtain ⟨bcs, ds, has, bs, cs, hbcs, ⟨hlocked, hread⟩, hbound⟩ :=
      (history limit as).2 h queue bound (.inr hpoint)
    refine ⟨hhead, queue, bound, hpoint, hqueue, hlong, bs, cs, ds, ?_, hlocked, hread, ?_⟩
    · rw [has, hbcs]
    · rw [← hbcs, hbound]

theorem release_other {i : Nat} {lease : TransferLease} (hi : s.leases[i]? = some lease)
    (hlabel : s.transferRecords lease.hash ≠ some lease.record) :
    (s.release i).transfers = s.transfers := by
  unfold release
  rw [hi]
  simp only [if_neg hlabel]
  split <;> rfl

/-- What the leases of a run protect, and what they are protected from. -/
theorem leases_protect (limit : Nat) (as : List LeaseAction) :
    let s := run limit as
    (∀ h, s.transfers h = s.leases.countP (counted h (s.transferRecords h)) ∧
      0 ≤ s.transfers h) ∧
    (∀ (t : LeaseState) (i : Nat) (lease : TransferLease), t.leases[i]? = some lease →
      t.transferRecords lease.hash ≠ some lease.record →
      (t.release i).transfers = t.transfers) ∧
    (∀ l ∈ s.leases, l.released = false →
      s.Stored l.hash l.record ∧
      (∀ a, (s.step a).Stored l.hash l.record) ∧
      ∀ streaming ok row, s.rows.find l.hash = some row → row.attached = true →
        ∃ row', (s.step (.work streaming ok)).rows.find l.hash = some row' ∧
          row'.attached = true) ∧
    (∀ (h : String) (row : LeaseRow) (bs : List LeaseAction),
      s.rows.find h = some row → row.stage.blocks = true →
      (∀ cs a ds, bs = cs ++ a :: ds → ¬ (run limit (as ++ cs)).Ends a h) →
      (run limit (as ++ bs)).granted h = s.granted h) ∧
    ∀ (h : String) (row : LeaseRow) (streaming ok : Bool),
      s.rows.find h = some row →
      (s.step (.clean streaming ok)).rows.find h = none →
      s.temporaryQueue.head? = some h ∧ ∃ queue bound,
        s.cleaner = .evicting h queue bound ∧ queue.head? = some h ∧
        bound < queue.length ∧ ∃ bs cs ds, as = bs ++ cs ++ ds ∧
          (run limit bs).cleaner = .locked h ∧ (run limit bs).temporaryQueue = queue ∧
          (run limit (bs ++ cs)).limit = bound := by
  have hs := Sound.run limit as
  refine ⟨?_, ?_, ?_, ?_, ?_⟩
  · intro h
    exact ⟨hs.ledger.counts h, hs.ledger.nonneg h⟩
  · intro s i lease hi hlabel
    exact release_other hi hlabel
  · intro l hl hout
    refine ⟨hs.ledger.stored l hl hout, hs.stored_step hl hout, ?_⟩
    intro streaming ok row hrow hattached
    exact hs.attached_work hl hout hrow hattached streaming ok
  · intro h row bs hrow hblocks hends
    exact (granted_while_blocked limit as bs hrow hblocks hends).2
  · intro h row streaming ok hrow hgone
    exact evicted_head limit as streaming ok hrow hgone

/-- Two temporary torrents over a limit of one: while the pass evicts the first, a user deletes
the second. -/
def lateEviction : List LeaseAction :=
  [.add "a" true, .add "b" true, .startCleanup, .clean false true, .clean false true,
    .clean false true, .clean false true, .clean false true, .delete "b" false true,
    .deleteRecord "b" true]

/-- The first torrent is evicted although the queue is no longer than the limit by then. -/
theorem lateEviction_within_limit :
    (run 1 lateEviction).limit = 1 ∧ (run 1 lateEviction).temporaryQueue = ["a"] ∧
    ((run 1 lateEviction).step (.clean false true)).temporaryQueue = [] := by
  refine ⟨rfl, ?_, ?_⟩ <;> decide

end LeaseState

end TorrentHub
