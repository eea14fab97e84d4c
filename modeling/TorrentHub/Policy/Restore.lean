import TorrentHub.Policy.Ownership

namespace TorrentHub

open RuntimePolicy

def restorePrecedence : List ActivationBlockKind :=
  [.missingFiles, .metadataPersistence, .invalidSelection, .legacyError]

def blockActivation (blocks : List ActivationBlock) : TorrentState × ErrorReason :=
  match restorePrecedence.find? fun kind => blocks.any fun b => b.kind == kind with
  | some .missingFiles => (.missingFiles, ErrorReason.missingFiles)
  | some .metadataPersistence => (.error, ErrorReason.metadataPersistence)
  | some .invalidSelection => (.error, ErrorReason.invalidSelection)
  | some _ => (.error, ErrorReason.activationBlocked)
  | none =>
    if blocks.any fun b => b.kind != .verification then (.error, ErrorReason.activationBlocked)
    else if blocks.length > 0 then (.error, ErrorReason.verificationFailed)
    else (.queued, ErrorReason.none)

def restoreActivation (run : RunIntent) (disk : String) (blocks : List ActivationBlock) :
    TorrentState × ErrorReason :=
  if run = .paused then (.paused, ErrorReason.none)
  else if run ≠ .enabled then (.error, ErrorReason.activationBlocked)
  else if disk ≠ "" then (.diskFull, disk)
  else blockActivation blocks

def restoreRegistered (restored : TorrentState × ErrorReason) (disk : String) : StateEvent where
  kind := .registered
  staged := true
  phase := restored.1
  err := restored.2
  diskReason := disk

def restoreActivated (p : RuntimePolicy) (phase : TorrentState) : StateEvent where
  kind := .activated
  phase := phase
  err := p.projection.2
  fullReconcile := true

def stagedPolicy (run : RunIntent) (disk : String) (blocks : List ActivationBlock) :
    RuntimePolicy :=
  RuntimePolicy.step {} (restoreRegistered (restoreActivation run disk blocks) disk)

def restoredPolicy (run : RunIntent) (disk : String) (blocks : List ActivationBlock) :
    RuntimePolicy :=
  (stagedPolicy run disk blocks).step
    (restoreActivated (stagedPolicy run disk blocks) (restoreActivation run disk blocks).1)

variable {run : RunIntent} {disk : String} {blocks blocks' : List ActivationBlock}
  {p : RuntimePolicy} {event : StateEvent}

def BlockedAs (restored : TorrentState × ErrorReason) : Prop :=
  restored = (.missingFiles, ErrorReason.missingFiles) ∨
    ∃ err, restored = (.error, err) ∧
      (err = ErrorReason.metadataPersistence ∨ err = ErrorReason.invalidSelection ∨
        err = ErrorReason.activationBlocked ∨ err = ErrorReason.verificationFailed)

theorem restoreActivation_unknown (hp : run ≠ .paused) (he : run ≠ .enabled) :
    restoreActivation run disk blocks = (.error, ErrorReason.activationBlocked) := by
  simp only [restoreActivation, if_neg hp, if_pos he]

theorem restoreActivation_disk (hd : disk ≠ "") :
    restoreActivation .enabled disk blocks = (.diskFull, disk) := by
  simp [restoreActivation, hd]

theorem blockActivation_blocked (hb : blocks ≠ []) : BlockedAs (blockActivation blocks) := by
  have hlen := List.length_pos_of_ne_nil hb
  unfold blockActivation
  split
  · exact .inl rfl
  · exact .inr ⟨_, rfl, .inl rfl⟩
  · exact .inr ⟨_, rfl, .inr (.inl rfl)⟩
  · exact .inr ⟨_, rfl, .inr (.inr (.inl rfl))⟩
  · split
    · exact .inr ⟨_, rfl, .inr (.inr (.inl rfl))⟩
    · exact .inr ⟨_, rfl, .inr (.inr (.inr rfl))⟩

section

variable (run : RunIntent) (disk : String) (blocks : List ActivationBlock)

theorem restoreActivation_cases :
    (run = .paused ∧ restoreActivation run disk blocks = (.paused, "")) ∨
      (run ≠ .paused ∧ run ≠ .enabled ∧ BlockedAs (restoreActivation run disk blocks)) ∨
      (run = .enabled ∧ disk ≠ "" ∧ restoreActivation run disk blocks = (.diskFull, disk)) ∨
      (run = .enabled ∧ disk = "" ∧ blocks ≠ [] ∧ BlockedAs (restoreActivation run disk blocks)) ∨
      (run = .enabled ∧ disk = "" ∧ blocks = [] ∧
        restoreActivation run disk blocks = (.queued, "")) := by
  by_cases hp : run = .paused
  · subst hp
    exact .inl ⟨rfl, rfl⟩
  by_cases he : run = .enabled
  · subst he
    by_cases hd : disk = ""
    · subst hd
      by_cases hb : blocks = []
      · subst hb
        exact .inr (.inr (.inr (.inr ⟨rfl, rfl, rfl, by decide⟩)))
      · exact .inr (.inr (.inr (.inl ⟨rfl, rfl, hb, blockActivation_blocked hb⟩)))
    · exact .inr (.inr (.inl ⟨rfl, hd, restoreActivation_disk hd⟩))
  · refine .inr (.inl ⟨hp, he, ?_⟩)
    rw [restoreActivation_unknown hp he]
    exact .inr ⟨_, rfl, .inr (.inr (.inl rfl))⟩

theorem restoreActivation_phase : activationPhase (restoreActivation run disk blocks).1 = true := by
  have hblocked : ∀ {r}, BlockedAs r → activationPhase r.1 = true := by
    rintro r (rfl | ⟨err, rfl, -⟩) <;> rfl
  rcases restoreActivation_cases run disk blocks with
    ⟨-, h⟩ | ⟨-, -, h⟩ | ⟨-, -, h⟩ | ⟨-, -, -, h⟩ | ⟨-, -, -, h⟩
  · rw [h]; rfl
  · exact hblocked h
  · rw [h]; rfl
  · exact hblocked h
  · rw [h]; rfl

end

@[simp] theorem installPhase_terminal (n : RuntimePolicy) (phase : TorrentState)
    (err : ErrorReason) : (installPhase n phase err).terminal = n.terminal := by
  unfold installPhase
  repeat' split
  all_goals rfl

theorem runtimeTransition_registered (hk : event.kind = .registered)
    (ha : activationPhase event.phase = true) : runtimeTransition {} event = .ok (StateDecision.of
      (activatePolicy (registerBase {} event) event).1
      (activatePolicy (registerBase {} event) event).2) := by
  simp [runtimeTransition, transitionStep, registerStep, hk, ha]

theorem runtimeTransition_activated (hk : event.kind = .activated)
    (ha : activationPhase event.phase = true) (hf : event.fullReconcile = true)
    (ht : p.terminal = false) (hr : p.registered = true) (hc : p.checking = false)
    (hu : p.uncertain = false) : runtimeTransition p event = .ok (StateDecision.of
      (activatePolicy (activateBase p event) event).1
      (activatePolicy (activateBase p event) event).2) := by
  simp [runtimeTransition, transitionStep, activateStep, hk, ha, hf, ht, hr, hc, hu]

section

variable (run : RunIntent) (disk : String) (blocks : List ActivationBlock)

theorem stagedPolicy_eq : let event := restoreRegistered (restoreActivation run disk blocks) disk
    RuntimePolicy.Accepts {} event ∧
      stagedPolicy run disk blocks = (activatePolicy (registerBase {} event) event).1 := by
  intro event
  have h : runtimeTransition {} event = _ :=
    runtimeTransition_registered rfl (restoreActivation_phase run disk blocks)
  exact ⟨⟨_, h⟩, step_eq h⟩

theorem restoredPolicy_eq : let p := stagedPolicy run disk blocks
    let event := restoreActivated p (restoreActivation run disk blocks).1
    p.Accepts event ∧
      restoredPolicy run disk blocks = (activatePolicy (activateBase p event) event).1 := by
  intro p event
  have hp : p = _ := (stagedPolicy_eq run disk blocks).2
  have h : runtimeTransition p event = _ := runtimeTransition_activated rfl
    (restoreActivation_phase run disk blocks) rfl
    (by rw [hp]; simp [activatePolicy, registerBase])
    (by rw [hp]; simp [activatePolicy, registerBase])
    (by rw [hp]; simp [activatePolicy, registerBase])
    (by rw [hp]; simp [activatePolicy, registerBase])
  exact ⟨⟨_, h⟩, step_eq h⟩

end

section

variable (h : BlockedAs (restoreActivation run disk blocks))
include h

theorem stagedPolicy_blocked : let p := stagedPolicy run disk blocks
    p.missingFault ≠ "" ∨ p.metadataFault ≠ "" ∨ p.selectionFault ≠ "" ∨ p.legacyFault ≠ "" ∨
      p.verificationFault = true := by
  intro p
  have hp : p = _ := (stagedPolicy_eq run disk blocks).2
  rcases h with h | ⟨err, h, rfl | rfl | rfl | rfl⟩ <;> rw [hp, h]
  · exact .inl missingFiles_ne
  · exact .inr (.inl metadataPersistence_ne)
  · exact .inr (.inr (.inl invalidSelection_ne))
  · exact .inr (.inr (.inr (.inl activationBlocked_ne)))
  · exact .inr (.inr (.inr (.inr rfl)))

theorem restoredPolicy_blocked : let p := restoredPolicy run disk blocks
    p.missingFault ≠ "" ∨ p.metadataFault ≠ "" ∨ p.selectionFault ≠ "" ∨ p.legacyFault ≠ "" ∨
      p.verificationFault = true := by
  intro p
  have hp : p = _ := (restoredPolicy_eq run disk blocks).2
  have hf : KeepsFaults (stagedPolicy run disk blocks) p := by
    rw [hp]
    exact (activateBase_keepsFaults Bool.false_ne_true).trans (activatePolicy_keepsFaults _ _)
  have hv : KeepsVerification (stagedPolicy run disk blocks) p := by
    rw [hp]
    exact (activateBase_keepsVerification _ _).trans (activatePolicy_keepsVerification _ _)
  rcases stagedPolicy_blocked h with h | h | h | h | h
  · exact .inl (hf.missing h)
  · exact .inr (.inl (hf.metadata h))
  · exact .inr (.inr (.inl (hf.selection h)))
  · exact .inr (.inr (.inr (.inl (hf.legacy h))))
  · exact .inr (.inr (.inr (.inr (hv.fault h))))

end

theorem uploadEligible_of_fault (h : p.missingFault ≠ "" ∨ p.metadataFault ≠ "" ∨
    p.selectionFault ≠ "" ∨ p.legacyFault ≠ "" ∨ p.verificationFault = true) :
    p.uploadEligible = false := by
  by_contra hu
  obtain ⟨-, -, -, -, -, -, hv, hmi, hme, hs, hl⟩ := (uploadEligible_iff p).1 (by simpa using hu)
  rcases h with h | h | h | h | h
  · exact h hmi
  · exact h hme
  · exact h hs
  · exact h hl
  · rw [hv] at h
    cases h

theorem restoredPolicy_paused : (restoredPolicy .paused disk blocks).run = .paused := by
  rw [(restoredPolicy_eq .paused disk blocks).2]
  rfl

theorem restoredPolicy_disk (hd : disk ≠ "") : restoredPolicy .enabled disk blocks =
      { registered := true, run := .enabled, disk := disk } := by
  rw [(restoredPolicy_eq .enabled disk blocks).2, (stagedPolicy_eq .enabled disk blocks).2,
    restoreActivation_disk hd]
  simp [activatePolicy, registerBase, restoreRegistered, restoreActivated, installPhase, hd,
    activateBase]

theorem restoredPolicy_clear :
    restoredPolicy .enabled "" [] = { registered := true, run := .enabled } := by decide

def inactivePhase (phase : TorrentState) : Bool :=
  phase == .paused || phase == .error || phase == .missingFiles || phase == .diskFull

theorem projection_inactive (hc : p.checking = false)
    (h : p.missingFault ≠ "" ∨ p.metadataFault ≠ "" ∨ p.selectionFault ≠ "" ∨
      p.legacyFault ≠ "" ∨ p.verificationFault = true) : inactivePhase p.projection.1 = true := by
  unfold projection
  split
  · rfl
  split
  · rfl
  split
  · unfold fault
    repeat' split
    all_goals first | rfl | (rename_i hf; simp_all [fault])
  next hf =>
  rw [not_not, fault_phase_none_iff, fault_none_iff] at hf
  simp_all [inactivePhase]

/-- Two lists with the same kinds are restored alike: order, multiplicity and reason texts
do not matter. -/
def SameKinds (blocks blocks' : List ActivationBlock) : Prop :=
  ∀ kind, (∃ b ∈ blocks, b.kind = kind) ↔ ∃ b ∈ blocks', b.kind = kind

section

variable (h : SameKinds blocks blocks')
include h

theorem SameKinds.any_eq (test : ActivationBlockKind → Bool) :
    (blocks.any fun b => test b.kind) = blocks'.any fun b => test b.kind := by
  rw [Bool.eq_iff_iff, List.any_eq_true, List.any_eq_true]
  constructor
  · rintro ⟨b, hb, ht⟩
    obtain ⟨b', hb', hk⟩ := (h b.kind).1 ⟨b, hb, rfl⟩
    exact ⟨b', hb', hk ▸ ht⟩
  rintro ⟨b, hb, ht⟩
  obtain ⟨b', hb', hk⟩ := (h b.kind).2 ⟨b, hb, rfl⟩
  exact ⟨b', hb', hk ▸ ht⟩

theorem SameKinds.nil_iff : blocks.length > 0 ↔ blocks'.length > 0 := by
  have hany := h.any_eq fun _ => true
  cases blocks <;> cases blocks' <;> simp_all

theorem SameKinds.blockActivation_eq : blockActivation blocks = blockActivation blocks' := by
  simp only [blockActivation, h.any_eq fun kind => kind != .verification, h.nil_iff,
    fun kind' => h.any_eq fun kind => kind == kind']

theorem SameKinds.restoreActivation_eq (run : RunIntent)
    (disk : String) : restoreActivation run disk blocks = restoreActivation run disk blocks' := by
  simp only [restoreActivation, h.blockActivation_eq]

end

section

variable (run : RunIntent) (disk : String) (blocks : List ActivationBlock)

theorem restoredPolicy_upload_iff : (restoredPolicy run disk blocks).uploadEligible = true ↔
      run = .enabled ∧ (disk ≠ "" ∨ blocks = []) := by
  rcases restoreActivation_cases run disk blocks with
    ⟨rfl, -⟩ | ⟨-, he, h⟩ | ⟨rfl, hd, -⟩ | ⟨rfl, rfl, hb, h⟩ | ⟨rfl, rfl, rfl, -⟩
  · simp [uploadEligible_iff, restoredPolicy_paused]
  · simp [uploadEligible_of_fault (restoredPolicy_blocked h), he]
  · simp [restoredPolicy_disk hd, uploadEligible_iff, hd, ErrorReason.none]
  · simp [uploadEligible_of_fault (restoredPolicy_blocked h), hb]
  · simp [restoredPolicy_clear, uploadEligible_iff, ErrorReason.none]

theorem restoredPolicy_payload_iff : (restoredPolicy run disk blocks).payloadEligible = true ↔
      run = .enabled ∧ disk = "" ∧ blocks = [] := by
  rw [payloadEligible_iff, restoredPolicy_upload_iff]
  rcases restoreActivation_cases run disk blocks with
    ⟨rfl, -⟩ | ⟨-, he, -⟩ | ⟨rfl, hd, -⟩ | ⟨rfl, rfl, hb, h⟩ | ⟨rfl, rfl, rfl, -⟩
  · simp
  · simp [he]
  · simp [restoredPolicy_disk hd, hd]
  · simp [hb]
  · simp [restoredPolicy_clear]

end

theorem restoredPolicy_inactive (hb : blocks ≠ []) (run : RunIntent) (disk : String) :
    inactivePhase (restoredPolicy run disk blocks).projection.1 = true := by
  have hc : (restoredPolicy run disk blocks).checking = false := by
    rw [(restoredPolicy_eq run disk blocks).2, (stagedPolicy_eq run disk blocks).2]
    simp [activatePolicy, registerBase]
  rcases restoreActivation_cases run disk blocks with
    ⟨rfl, -⟩ | ⟨-, -, h⟩ | ⟨rfl, hd, -⟩ | ⟨-, -, -, h⟩ | ⟨-, -, hn, -⟩
  · simp [projection, restoredPolicy_paused, inactivePhase]
  · exact projection_inactive hc (restoredPolicy_blocked h)
  · simp [restoredPolicy_disk hd, projection, hd, inactivePhase]
  · exact projection_inactive hc (restoredPolicy_blocked h)
  · exact absurd hn hb

/-- Both events of a restore are accepted. The restored policy may fetch payload exactly when the
record is enabled without a block, and upload exactly when it is enabled and an activation block is
absent or behind a disk block. The phase and the error depend on the kinds of the blocks only. -/
theorem restored_authority_bounded (run : RunIntent) (disk : String)
    (blocks : List ActivationBlock) :
    RuntimePolicy.Accepts {} (restoreRegistered (restoreActivation run disk blocks) disk) ∧
      (stagedPolicy run disk blocks).Accepts
        (restoreActivated (stagedPolicy run disk blocks)
          (restoreActivation run disk blocks).1) ∧
      ((restoredPolicy run disk blocks).payloadEligible = true ↔
        run = .enabled ∧ disk = "" ∧ blocks = []) ∧
      ((restoredPolicy run disk blocks).uploadEligible = true ↔
        run = .enabled ∧ (disk ≠ "" ∨ blocks = [])) ∧
      (blocks ≠ [] →
        inactivePhase (restoredPolicy run disk blocks).projection.1 = true) ∧
      ∀ blocks', SameKinds blocks blocks' →
        restoreActivation run disk blocks = restoreActivation run disk blocks' :=
  ⟨(stagedPolicy_eq run disk blocks).1, (restoredPolicy_eq run disk blocks).1,
    restoredPolicy_payload_iff run disk blocks, restoredPolicy_upload_iff run disk blocks,
    fun hb => restoredPolicy_inactive hb run disk, fun _ h => h.restoreActivation_eq run disk⟩

/-- A disk block hides the activation block: the restored policy is eligible for upload. -/
theorem restored_upload_behind_disk :
    ¬ ((restoredPolicy .enabled "sticky" [⟨.verification, "failed"⟩]).uploadEligible = true →
      RunIntent.enabled = .enabled ∧
        ([⟨.verification, "failed"⟩] : List ActivationBlock) = []) := by
  decide

end TorrentHub
