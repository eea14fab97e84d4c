import TorrentHub.Move.Stages
import TorrentHub.Move.Durable

namespace TorrentHub
open Lib Operation PendingCommand

def PendingCommand.Sound (c : PendingCommand) (row : Option RecoveryRecord) : Prop :=
  match c.record with
  | none => row = none
  | some read => ∃ r, row = some r ∧ r.operation = read.operation ∧
      (replaceable read = true → replaceable r = true) ∧
      (read.stage = .cancelled → r.stage = .cancelled)

inductive Commands (c : PendingCommand) (env : CommandEnv) (row : Option RecoveryRecord) :
    Option RecoveryRecord → Prop where
  | same : Commands c env row row
  | ordered {r r' : RecoveryRecord} (hrow : row = some r) (operation : r'.operation = r.operation)
    (stage : r.stage.Ordered r'.stage) : Commands c env row (some r')
  | created {r' : RecoveryRecord}
    (replaced : ∀ r, row = some r → PendingCommand.replaceable r = true)
    (version : r'.version = (row.map RecoveryRecord.version).getD 0 + 1)
    (stage : r'.stage.settled = false) (placement : r'.journal.placement = (env.source, env.target))
    (accepted : env.accepted = true) (fenced : env.fenced = true)
    (plan : c.cmd.action = .planMove ∨ c.cmd.action = .analyzeLocation) :
    Commands c env row (some r')

namespace PendingCommand

variable {row : Option RecoveryRecord} {c : PendingCommand} {env : CommandEnv}
  {read : RecoveryRecord}

theorem createStorageOperation_fenced {v v' : RecoveryRecord} {previous : Nat} {fenced : Bool}
    (h : createStorageOperation row v previous fenced = some v') : fenced = true := by
  unfold createStorageOperation at h
  split at h
  next hc =>
    simp only [Bool.and_eq_true] at hc
    exact hc.1.1
  · cases h

section

variable (hc : c.Sound row)
include hc

theorem planOperation_commands (haccepted : env.accepted = true)
    (haction : c.cmd.action = .planMove ∨ c.cmd.action = .analyzeLocation)
    {reason : RecoveryReason} {stage : Stage} (hstage : stage.settled = false) :
    Commands c env row (c.planOperation row env reason stage) := by
  unfold planOperation
  extract_lets allowed previous v
  by_cases hrefused : (!allowed || env.samePlan) = true
  · rw [if_pos hrefused]
    exact .same
  rw [if_neg hrefused]
  cases hcreate : createStorageOperation row v previous env.fenced with
  | none => exact .same
  | some v' =>
    obtain ⟨rfl, hversion⟩ := createStorageOperation_some hcreate
    refine .created ?_ hversion hstage rfl haccepted (createStorageOperation_fenced hcreate) haction
    intro r hr
    unfold Sound at hc
    simp only [Bool.or_eq_true, Bool.not_eq_true', not_or, Bool.not_eq_false] at hrefused
    cases hread : c.record with
    | none =>
      rw [hread] at hc
      rw [hc] at hr
      cases hr
    | some read =>
      simp only [hread] at hc
      obtain ⟨r₀, hr₀, -, hreplaceable, -⟩ := hc
      rw [hr] at hr₀
      cases hr₀
      have hallowed := hrefused.1
      simp only [allowed, hread, Bool.and_eq_true] at hallowed
      exact hreplaceable hallowed.1.2

theorem transition_commands (hread : c.record = some read)
    {stage : Stage} {error code : String} (hstage : read.stage.Ordered stage) :
    Commands c env row ((transitionStorageOperation row
      { read with stage, error, failureCode := code } read.stage env.fenced).orElse
        fun _ => row) := by
  simp only [Sound, hread] at hc
  obtain ⟨r, rfl, hoperation, -⟩ := hc
  cases h : transitionStorageOperation (some r)
      { read with stage, error, failureCode := code } read.stage env.fenced with
  | none => exact .same
  | some r' =>
    obtain ⟨-, hs, rfl⟩ := updateOperation_some h
    refine .ordered rfl ?_ ?_
    · have hplacement : read.journal.placement = r.journal.placement :=
        (congrArg placement hoperation).symm
      simp only [RecoveryRecord.operation, hplacement]
    · rw [hs]
      exact hstage

theorem cancelOperation_commands (hread : c.record = some read) :
    Commands c env row (cancelOperation row env read) := by
  have hwrite : read.stage.cancellable = true →
      Commands c env row (writeBack row env read .cancelRequested) := fun h =>
    transition_commands hc hread (.inr (.inr ⟨h, rfl⟩))
  unfold cancelOperation
  cases hs : read.stage <;> first | exact .same | exact hwrite (by rw [hs]; rfl)

theorem applyOperation_commands (hread : c.record = some read) (action : CommandAction) :
    Commands c env row (applyOperation row env read action) := by
  unfold applyOperation
  split
  · exact .same
  split
  · exact .same
  split
  · exact .same
  next hs =>
  split
  · exact .same
  refine transition_commands hc hread (.inr (.inl ⟨?_, rfl⟩))
  by_contra h
  exact hs (not_or.1 h)

theorem execute_commands (env : CommandEnv) : Commands c env row (c.execute row env) := by
  unfold execute
  split
  · exact .same
  next haccepted =>
  simp only [Bool.not_eq_true', Bool.not_eq_false] at haccepted
  split
  · exact .same
  next haction => exact planOperation_commands hc haccepted (.inl haction) rfl
  next haction => exact planOperation_commands hc haccepted (.inr haction) rfl
  · split
    · exact .same
    next read hread =>
    split
    · exact .same
    split
    · exact applyOperation_commands hc hread _
    · exact applyOperation_commands hc hread _
    · unfold retryOperation
      split
      · exact .same
      · exact transition_commands hc hread (.inl rfl)
    · exact cancelOperation_commands hc hread
    · exact .same

theorem execute_of_cancelAccepted (h : c.cancelAccepted row env = true) :
    ∃ r', c.execute row env = some r' ∧ r'.version = c.cmd.version ∧ r'.stage.withdrawn = true := by
  unfold cancelAccepted at h
  cases hread : c.record with
  | none => simp [hread] at h
  | some read =>
    simp only [Sound, hread] at hc
    obtain ⟨r, rfl, hoperation, -, hcancelled⟩ := hc
    simp only [hread, Option.any_some, Bool.and_eq_true, beq_iff_eq, Bool.or_eq_true] at h
    obtain ⟨⟨⟨haccepted, haction⟩, hdecoded⟩, ⟨⟨hid, hversion⟩, hreason⟩, hstage⟩ := h
    have hexecute : c.execute (some r) env = cancelOperation (some r) env read := by
      unfold execute
      rcases hreason with hreason | hreason <;>
        simp only [haccepted, haction, hread, hid, hversion, hreason, hdecoded, Bool.not_true,
          Bool.false_eq_true, if_false, bne_self_eq_false, Bool.or_false, Bool.and_false,
          Bool.false_and]
    rw [hexecute]
    rcases hstage with hstage | ⟨hcancellable, hwritten⟩
    · refine ⟨r, ?_, ?_, ?_⟩
      · simp only [cancelOperation, hstage]
      · exact (congrArg Operation.version hoperation).trans hversion
      · rw [hcancelled hstage]
        rfl
    obtain ⟨r', hr'⟩ := Option.isSome_iff_exists.1 hwritten
    obtain ⟨hv, -, heq⟩ := updateOperation_some hr'
    refine ⟨r', ?_, ?_, ?_⟩
    · have hwrite : cancelOperation (some r) env read =
          writeBack (some r) env read .cancelRequested := by
        unfold cancelOperation
        cases hs : read.stage <;> rw [hs] at hcancellable <;> first | rfl | cases hcancellable
      rw [hwrite, writeBack, hr']
      rfl
    · rw [heq]
      exact hv.trans hversion
    · rw [heq]
      rfl

end

end PendingCommand

def RecoveryRecord.located (r : RecoveryRecord) : Bool := r.reason == .move || r.reason == .locate

variable {r r' : RecoveryRecord} {w : Worker} {c : PendingCommand}

theorem replaceable_iff : replaceable r = true ↔
    r.reason = .recoveryComplete ∨ (r.reason = .move ∨ r.reason = .locate) ∧
      (r.stage = .planned ∨ r.stage = .planning ∨ r.stage = .analyzed ∨
        r.stage = .analyzingLocation ∨ r.stage = .completed ∨ r.stage = .cancelled) := by
  simp only [replaceable, Bool.or_eq_true, Bool.and_eq_true, beq_iff_eq, or_assoc]

theorem replaceable_of_works (hreason : r'.reason = r.reason) (hs : r.stage.Works r'.stage)
    (h : replaceable r = true) : replaceable r' = true := by
  rw [replaceable_iff] at h ⊢
  rw [hreason]
  refine h.imp_right fun h => ⟨h.1, ?_⟩
  rcases hs with hs | hs
  · rw [hs]
    exact h.2
  rcases h.2 with h | h | h | h | h | h <;> rw [h] at hs <;>
    simp only [Stage.worked, List.mem_singleton, List.not_mem_nil] at hs
  · exact .inl hs
  · exact .inr (.inr (.inl hs))

theorem replaceable_of_published (hreason : r'.reason = r.reason) (hs : r.stage = .published)
    (h : replaceable r = true) : replaceable r' = true := by
  rw [replaceable_iff] at h ⊢
  rw [hreason]
  refine .inl ?_
  rcases h with h | ⟨-, h⟩
  · exact h
  · rw [hs] at h
    simp at h

theorem PendingCommand.Sound.worked {commits : Bool} {result : WorkerResult}
    (hc : c.Sound (some r)) (h : Traced r commits result) : c.Sound result.1 := by
  obtain ⟨r', hr', hoperation, hstage, -⟩ := h
  have hreason : r'.reason = r.reason := congrArg reason hoperation
  unfold Sound at hc ⊢
  rw [hr']
  cases hread : c.record with
  | none =>
    rw [hread] at hc
    cases hc
  | some read =>
    simp only [hread] at hc
    obtain ⟨r₀, hr₀, ho, hreplaceable, hcancelled⟩ := hc
    cases hr₀
    refine ⟨r', rfl, hoperation.trans ho, ?_, ?_⟩
    · intro h
      cases commits with
      | false => exact replaceable_of_works hreason hstage (hreplaceable h)
      | true => exact replaceable_of_published hreason hstage.1 (hreplaceable h)
    intro h
    have hr := hcancelled h
    cases commits with
    | false =>
      rcases hstage with hstage | hstage
      · exact hstage.trans hr
      · rw [hr] at hstage
        cases hstage
    | true =>
      have hp := hr.symm.trans hstage.1
      cases hp

theorem Worker.Stands.of_publishes (h : w.Stands r) (hp : w.PublishesIn r → w.PublishesIn r') :
    w.Stands r' := by
  unfold Stands at h ⊢
  cases hpoint : w.point <;> simp only [hpoint] at h ⊢ <;>
    first | exact h | exact ⟨h.1, hp h.2⟩

theorem Worker.Sound.commanded {env : CommandEnv} {row' : Option RecoveryRecord}
    (hw : w.Sound r) (h : Commands c env (some r) row') : ∃ r', row' = some r' ∧ w.Sound r' := by
  obtain ⟨hholds, hstands⟩ := hw
  cases h with
  | same => exact ⟨r, rfl, hholds, hstands⟩
  | ordered hrow hoperation hstage =>
    rename_i r₀ r'
    cases hrow
    refine ⟨r', rfl, hholds.congr rfl hoperation rfl, hstands.of_publishes ?_⟩
    intro hp hs
    obtain ⟨hv, hr⟩ := hp hs
    rw [hr] at hstage
    exact ⟨(congrArg version hoperation).trans hv, hstage.of_publishing⟩
  | created hreplaced hversion hstage hplacement haccepted hfenced hplan =>
    rename_i r'
    have hlt : w.v.version < r'.version := by
      rw [hversion]
      exact Nat.lt_succ_of_le hholds.version
    refine ⟨r', rfl, ⟨Nat.le_of_lt hlt, fun h => absurd h (Nat.ne_of_lt hlt), hholds.journal,
      hholds.located⟩, hstands.of_publishes ?_⟩
    intro hp hs
    obtain ⟨hv, hr⟩ := hp hs
    have hreason : w.v.reason = r.reason := congrArg reason (hholds.operation hv.symm)
    have hlocated := hholds.located
    have hreplaceable := replaceable_iff.1 (hreplaced r rfl)
    rw [hreason] at hlocated
    rw [hr] at hreplaceable
    rcases hlocated with h | h <;> rw [h] at hreplaceable <;> simp at hreplaceable

end TorrentHub
