import Mathlib.Data.List.Perm.Subperm
import TorrentHub.Engine.Capacity
import TorrentHub.Engine.Lapses

namespace TorrentHub
open Lib List TorrentHub.Runtime Engine EngineTorrent Option

/-- The facts that a reader compares: the place of the runtime in the engine stands for its address,
a serial number for that of its failure. -/
structure RuntimeReadEntry where
  owner : Nat
  epoch : Nat
  fence : RuntimeFence
  applied : Int
  failure : Option Nat
deriving DecidableEq

structure RuntimeReadStamp where
  all : Bool
  hash : String
  entries : List (String × RuntimeReadEntry)
deriving DecidableEq

/-- The serial numbers of the failures, and the attachments that runtimes were bound with so far. -/
structure StampedEngine where
  engine : Engine
  failureRef : Nat → Nat := fun _ => 0
  allocated : Nat := 0
  attachments : List String := []

namespace StampedEngine

variable {α : Type} {r : Runtime} {hash key : String} {entry : RuntimeReadEntry}

def readEntry (s : StampedEngine) (t : EngineTorrent) (i : Nat) : RuntimeReadEntry where
  owner := i
  epoch := t.runtime.mt.policyEpoch
  fence := t.runtime.mt.runtimeFence
  applied := t.runtime.mt.appliedIntentRevision
  failure := t.runtime.mt.intentApplyFailure.map fun _ => s.failureRef i

def lookup (s : StampedEngine) (hash : String) : Option (EngineTorrent × Nat) :=
  s.engine.managedTorrents.find? (·.1.hash = hash)

def captureReadStamp (s : StampedEngine) (hash : String) : RuntimeReadStamp where
  all := hash = ""
  hash := hash
  entries := (s.engine.managedTorrents.filter fun e => hash = "" ∨ e.1.hash = hash).map
    fun e => (e.1.hash, s.readEntry e.1 e.2)

def validateReadStamp (s : StampedEngine) (stamp : RuntimeReadStamp) : Bool :=
  if stamp.all && stamp.entries.length ≠ s.engine.managedTorrents.length then false
  else if !stamp.all && stamp.entries.isEmpty then (s.lookup stamp.hash).isNone
  else stamp.entries.all fun e =>
    match s.lookup e.1 with
    | none => false
    | some (t, i) => i == e.2.owner && s.readEntry t i == e.2

/-- One section of the engine. A failure that is recorded is a new object, and a binding uses up
its attachment. -/
def step (s : StampedEngine) (action : Engine.Action) : StampedEngine :=
  let s' := { s with engine := s.engine.step action }
  match action with
  | .torrent i (.call (.failIntentApply expected v) _) _ =>
    if (s.engine.torrents[i]?).any fun t => (t.runtime.failIntentApply expected v).2.isOk then
      { s' with
        failureRef := Function.update s.failureRef i s.allocated
        allocated := s.allocated + 1 }
    else s'
  | .torrent _ (.call (.bindRuntime _ fence _) _) _ =>
    { s' with attachments := fence.attachment :: s.attachments }
  | _ => s'

/-- Every binding brings an attachment of its own: the repository draws one at random for each. -/
def FreshBinding (s : StampedEngine) : Engine.Action → Prop
  | .torrent _ (.call (.bindRuntime _ fence _) _) _ => fence.attachment ∉ s.attachments
  | _ => True

variable {s m t : StampedEngine} {i : Nat} {a b c : EngineTorrent} {action : Engine.Action}

/-- The runtime has not been bound since `s`: its acknowledgement may have lapsed, and a failure
that is new has a new number. -/
structure Rests (s t : StampedEngine) (i : Nat) (a b : EngineTorrent) : Prop where
  fence : b.runtime.mt.runtimeFence = a.runtime.mt.runtimeFence
  applied : b.runtime.mt.appliedIntentRevision = a.runtime.mt.appliedIntentRevision ∨
    b.runtime.mt.appliedIntentRevision = 0
  failure : (b.runtime.mt.intentApplyFailure.isSome = a.runtime.mt.intentApplyFailure.isSome ∧
      t.failureRef i = s.failureRef i) ∨
    (b.runtime.mt.intentApplyFailure.isSome = true ∧ s.allocated ≤ t.failureRef i)

/-- What a runtime of `s` can have become in `t`. -/
structure Follows (s t : StampedEngine) (i : Nat) (a b : EngineTorrent) : Prop where
  hash : b.hash = a.hash
  active : b.active = true → a.active = true
  registering : b.runtime.registering = true → a.runtime.registering = true
  epoch : a.runtime.mt.policyEpoch ≤ b.runtime.mt.policyEpoch
  binding : Rests s t i a b ∨ (b.runtime.mt.runtimeFence.attachment ≠ "" ∧
    b.runtime.mt.runtimeFence.attachment ∉ s.attachments)

/-- `t` is a later state of the engine than `s`. -/
structure Later (s t : StampedEngine) : Prop where
  attachments : ∀ x ∈ s.attachments, x ∈ t.attachments
  allocated : s.allocated ≤ t.allocated
  torrents : ∀ (i : Nat) (a : EngineTorrent), s.engine.torrents[i]? = some a →
    ∃ b, t.engine.torrents[i]? = some b ∧ Follows s t i a b

theorem Rests.trans (h : Rests s m i a b) (h' : Rests m t i b c) (hle : s.allocated ≤ m.allocated) :
    Rests s t i a c where
  fence := h'.fence.trans h.fence
  applied := by
    rcases h'.applied with he | he
    · rw [he]
      exact h.applied
    · exact .inr he
  failure := by
    rcases h'.failure with ⟨hf', hr'⟩ | ⟨hf', hr'⟩
    · rw [hf', hr']
      exact h.failure
    · exact .inr ⟨hf', Nat.le_trans hle hr'⟩

theorem Follows.trans (hl : Later s m) (h : Follows s m i a b) (h' : Follows m t i b c) :
    Follows s t i a c where
  hash := h'.hash.trans h.hash
  active hc := h.active (h'.active hc)
  registering hc := h.registering (h'.registering hc)
  epoch := Nat.le_trans h.epoch h'.epoch
  binding := by
    rcases h'.binding with hr' | ⟨hne, hfresh⟩
    · rcases h.binding with hr | ⟨hne, hfresh⟩
      · exact .inl (hr.trans hr' hl.allocated)
      · exact .inr (by rw [hr'.fence]; exact ⟨hne, hfresh⟩)
    · exact .inr ⟨hne, fun hmem => hfresh (hl.attachments _ hmem)⟩

theorem Follows.refl (s : StampedEngine) (i : Nat) (a : EngineTorrent) : Follows s s i a a :=
  ⟨rfl, id, id, Nat.le_refl _, .inl ⟨rfl, .inl rfl, .inl ⟨rfl, rfl⟩⟩⟩

theorem Later.refl (s : StampedEngine) : Later s s :=
  ⟨fun _ => id, Nat.le_refl _, fun i a ha => ⟨a, ha, .refl s i a⟩⟩

theorem Later.trans (h : Later s m) (h' : Later m t) : Later s t where
  attachments x hx := h'.attachments x (h.attachments x hx)
  allocated := Nat.le_trans h.allocated h'.allocated
  torrents i a ha := by
    obtain ⟨b, hb, hab⟩ := h.torrents i a ha
    obtain ⟨c, hc, hbc⟩ := h'.torrents i b hb
    exact ⟨c, hc, .trans h hab hbc⟩

structure Kept (s : StampedEngine) (i : Nat) (a : EngineTorrent) : Prop where
  bound : a.runtime.mt.runtimeFence.attachment = "" ∨
    a.runtime.mt.runtimeFence.attachment ∈ s.attachments
  failed : a.runtime.mt.intentApplyFailure.isSome = true → s.failureRef i < s.allocated
  apart : a.runtime.managed = true → a.runtime.registering = false

structure Inv (s : StampedEngine) : Prop where
  bounded : s.engine.Bounded
  kept : ∀ (i : Nat) (a : EngineTorrent), s.engine.torrents[i]? = some a → Kept s i a

theorem map_const_congr {x y : Option α} (h : x.isSome = y.isSome) (n : Nat) :
    (x.map fun _ => n) = y.map fun _ => n := by
  cases x <;> cases y <;> simp_all

theorem map_const_eq {x y : Option α} {n k : Nat} (hx : x.isSome = true)
    (h : (x.map fun _ => n) = y.map fun _ => k) : y.isSome = true ∧ n = k := by
  cases x <;> cases y <;> simp_all

theorem entry_between (hs : s.Inv) (hsm : Later s m) (hmt : Later m t)
    (ha : s.engine.torrents[i]? = some a) (hc : t.engine.torrents[i]? = some c)
    (hma : a.runtime.managed = true) (hmc : c.runtime.managed = true)
    (he : t.readEntry c i = s.readEntry a i) :
    ∃ b, m.engine.torrents[i]? = some b ∧ b.runtime.managed = true ∧ b.hash = a.hash ∧
      m.readEntry b i = s.readEntry a i := by
  obtain ⟨b, hb, hab⟩ := hsm.torrents i a ha
  obtain ⟨c', hc', hbc⟩ := hmt.torrents i b hb
  obtain rfl : c' = c := some.inj (hc'.symm.trans hc)
  simp only [readEntry, RuntimeReadEntry.mk.injEq, true_and] at he
  obtain ⟨hepoch, hfence, happlied, hfailure⟩ := he
  have hold : ∀ x : StampedEngine, Later s x → ¬ (a.runtime.mt.runtimeFence.attachment ≠ "" ∧
      a.runtime.mt.runtimeFence.attachment ∉ x.attachments) := by
    rintro x hx ⟨hne, hfresh⟩
    rcases (hs.kept i a ha).bound with hb | hb
    · exact hne hb
    · exact hfresh (hx.attachments _ hb)
  have hbc' : Rests m t i b c' := by
    rcases hbc.binding with h | h
    · exact h
    · rw [hfence] at h
      exact absurd h (hold m hsm)
  have hab' : Rests s m i a b := by
    rcases hab.binding with h | h
    · exact h
    · rw [← hbc'.fence, hfence] at h
      exact absurd h (hold s (.refl s))
  have hmb : b.runtime.managed = true := by
    have hactive : b.active = true := hbc.active (by simp [active, hmc])
    simp only [active, Bool.or_eq_true] at hactive
    rcases hactive with h | h
    · exact h
    · exact absurd (hab.registering h) (by simp [(hs.kept i a ha).apart hma])
  have hepoch' : b.runtime.mt.policyEpoch = a.runtime.mt.policyEpoch :=
    Nat.le_antisymm (hepoch ▸ hbc.epoch) hab.epoch
  have happlied' : b.runtime.mt.appliedIntentRevision = a.runtime.mt.appliedIntentRevision := by
    rcases hab'.applied with h | h
    · exact h
    · rcases hbc'.applied with h' | h' <;> omega
  have hfailure' : (b.runtime.mt.intentApplyFailure.map fun _ => m.failureRef i) =
      a.runtime.mt.intentApplyFailure.map fun _ => s.failureRef i := by
    rcases hbc'.failure with ⟨hsame, href⟩ | ⟨hsome, hnew⟩
    · rw [← hfailure, href]
      exact map_const_congr hsame.symm _
    have ha' : a.runtime.mt.intentApplyFailure.isSome = true ∧ t.failureRef i = s.failureRef i :=
      map_const_eq hsome hfailure
    have hlt := (hs.kept i a ha).failed ha'.1
    have hle := hsm.allocated
    omega
  refine ⟨b, hb, hmb, hab.hash, ?_⟩
  simp only [readEntry, hepoch', hab'.fence, happlied', hfailure']

section

variable (s : StampedEngine) (action : Engine.Action)

@[simp] theorem step_engine : (s.step action).engine = s.engine.step action := by
  unfold step
  split
  · split <;> rfl
  · rfl
  · rfl

theorem step_attachments (hx : x ∈ s.attachments) : x ∈ (s.step action).attachments := by
  unfold step
  split
  · split <;> exact hx
  · exact mem_cons_of_mem _ hx
  · exact hx

theorem step_allocated : s.allocated ≤ (s.step action).allocated := by
  unfold step
  split
  · split
    · exact Nat.le_succ _
    · exact Nat.le_refl _
  · exact Nat.le_refl _
  · exact Nat.le_refl _

end

/-- Whether an action is a section of runtime `i`. -/
def isSectionOf (i : Nat) : Engine.Action → Bool
  | .torrent j _ _ => j == i
  | _ => false

theorem step_failureRef (h : isSectionOf i action = false) :
    (s.step action).failureRef i = s.failureRef i := by
  unfold step
  split
  · split
    · refine Function.update_of_ne ?_ _ _
      rintro rfl
      simp [isSectionOf] at h
    · rfl
  · rfl
  · rfl

theorem untouched_follows (h : isSectionOf i action = false) (a : EngineTorrent) :
    Follows s (s.step action) i a a :=
  ⟨rfl, id, id, Nat.le_refl _, .inl ⟨rfl, .inl rfl, .inl ⟨rfl, step_failureRef h⟩⟩⟩

theorem Kept.untouched (hk : Kept s i a) (h : isSectionOf i action = false) :
    Kept (s.step action) i a where
  bound := hk.bound.imp_right (step_attachments s action)
  failed hf := by
    rw [step_failureRef h]
    exact Nat.lt_of_lt_of_le (hk.failed hf) (step_allocated s action)
  apart := hk.apart

theorem lapses_follows (h : a.runtime.Lapses r) (href : t.failureRef i = s.failureRef i) :
    Follows s t i a { a with runtime := r } where
  hash := rfl
  active := h.active
  registering := h.registering
  epoch := h.epoch
  binding := .inl ⟨h.fence, h.applied, .inl ⟨by rw [h.failure], href⟩⟩

theorem Kept.lapses (hk : Kept s i a) (h : a.runtime.Lapses r)
    (hatt : t.attachments = s.attachments) (hall : t.allocated = s.allocated)
    (href : t.failureRef i = s.failureRef i) : Kept t i { a with runtime := r } where
  bound := by
    rw [h.fence, hatt]
    exact hk.bound
  failed hf := by
    rw [href, hall]
    exact hk.failed (h.failure ▸ hf)
  apart hm := by
    by_contra hr
    obtain ⟨hm', hr'⟩ := h.apart hm (by simpa using hr)
    rw [hk.apart hm'] at hr'
    cases hr'

theorem step_of_not_owned (h : owned act = false) (order : Iteration) :
    s.step (.torrent i act order) = { s with engine := s.engine.step (.torrent i act order) } := by
  cases act with
  | call op env => cases op <;> first | rfl | cases h
  | _ => rfl

theorem answer_owned (e : Engine) (order : Iteration) (i : Nat) (r : Runtime)
    (act : Runtime.Action) : owned (e.answer order i r act) = owned act := by
  cases act with
  | returned index env =>
    simp only [answer]
    split <;> rfl
  | _ => rfl

theorem section_follows (act : Runtime.Action) (order : Iteration)
    (ha : s.engine.torrents[i]? = some a) (hfresh : s.FreshBinding (.torrent i act order)) :
    let b := { a with runtime := a.runtime.step (s.engine.answer order i a.runtime act) }
    Follows s (s.step (.torrent i act order)) i a b ∧
      (Kept s i a → Kept (s.step (.torrent i act order)) i b) := by
  by_cases howned : owned act = false
  · have hl := step_lapses a.runtime ((answer_owned s.engine order i a.runtime act).trans howned)
    rw [step_of_not_owned howned]
    exact ⟨lapses_follows hl rfl, fun hk => hk.lapses hl rfl rfl rfl⟩
  cases act with
  | call op env =>
    cases op <;> try exact absurd rfl howned
    case failIntentApply expected v =>
      have hr : a.runtime.step (s.engine.answer order i a.runtime
          (.call (.failIntentApply expected v) env)) =
          (a.runtime.failIntentApply expected v).1 := rfl
      simp only [hr, step, ha, Option.any_some]
      rcases failIntentApply_cases a.runtime expected v with
        ⟨hok, hsame⟩ | ⟨hok, r, hl, hr⟩
      · rw [hsame, hok]
        exact ⟨lapses_follows (.refl _) rfl, fun hk => hk.lapses (.refl _) rfl rfl rfl⟩
      rw [hr, hok]
      simp only [↓reduceIte]
      refine ⟨⟨rfl, hl.active, hl.registering, hl.epoch, .inl ⟨hl.fence, hl.applied, .inr ?_⟩⟩,
        fun hk => ⟨hl.fence ▸ hk.bound, fun _ => ?_, (hk.lapses hl rfl rfl rfl).apart⟩⟩
      · simp
      · simp
    case bindRuntime expected fence applied =>
      have hr : a.runtime.step (s.engine.answer order i a.runtime
          (.call (.bindRuntime expected fence applied) env)) =
          (a.runtime.bindRuntime expected fence applied env).1 := rfl
      simp only [hr, step]
      cases hbind : a.runtime.bindRuntime expected fence applied env with
      | mk r result =>
        cases result with
        | error err =>
          obtain rfl := bindRuntime_error hbind
          refine ⟨lapses_follows (.refl _) rfl, fun hk => ⟨?_, hk.failed, hk.apart⟩⟩
          exact hk.bound.imp_right (mem_cons_of_mem _)
        | ok u =>
          obtain ⟨hne, rfl⟩ := bindRuntime_ok hbind
          refine ⟨⟨rfl, id, id, Nat.le_refl _, .inr ⟨hne, hfresh⟩⟩,
            fun hk => ⟨.inr mem_cons_self, fun hf => hk.failed ?_, hk.apart⟩⟩
          simp only at hf
          split at hf
          · cases hf
          · exact hf
  | _ => exact absurd rfl howned

theorem step_torrents (hfresh : s.FreshBinding action) (ha : s.engine.torrents[i]? = some a) :
    ∃ b, (s.step action).engine.torrents[i]? = some b ∧ Follows s (s.step action) i a b ∧
      (Kept s i a → Kept (s.step action) i b) := by
  have hother : isSectionOf i action = false →
      Follows s (s.step action) i a a ∧ (Kept s i a → Kept (s.step action) i a) :=
    fun h => ⟨untouched_follows h a, fun hk => hk.untouched h⟩
  rw [step_engine]
  cases action with
  | register hash addedAt spec restored noUpload env =>
    refine ⟨a, ?_, hother rfl⟩
    simp only [Engine.step, Engine.registerTorrent]
    split
    · exact ha
    have hi := (List.getElem?_eq_some_iff.1 ha).1
    simp only [List.getElem?_append_left hi, ha]
  | torrent j act order =>
    by_cases hij : j = i
    · subst hij
      refine ⟨_, ?_, section_follows act order ha hfresh⟩
      simp only [Engine.step, ha, Engine.getElem?_setRuntime ha, ↓reduceIte]
    refine ⟨a, ?_, hother (beq_false_of_ne hij)⟩
    simp only [Engine.step]
    split
    · exact ha
    next u hu =>
    rw [Engine.getElem?_setRuntime hu, if_neg hij]
    exact ha
  | startPass snapshot => exact ⟨a, ha, hother rfl⟩
  | visit pass env =>
    simp only [Engine.step]
    split
    · split
      · exact ⟨a, ha, hother rfl⟩
      next j rest hpass _ u hu =>
      have hget := Engine.getElem?_setRuntime (e := { s.engine with
        passes := s.engine.passes.set pass rest }) hu (u.runtime.manageResources env) i
      rw [hget]
      split
      next hij =>
        subst hij
        obtain rfl : u = a := Option.some.inj (hu.symm.trans ha)
        have hl := (Runtime.manageResources_spares u.runtime env).lapses
        exact ⟨_, rfl, lapses_follows hl rfl, fun hk => hk.lapses hl rfl rfl rfl⟩
      · exact ⟨a, ha, hother rfl⟩
    · exact ⟨a, ha, hother rfl⟩

theorem step_later (hfresh : s.FreshBinding action) : Later s (s.step action) where
  attachments _ hx := step_attachments s action hx
  allocated := step_allocated s action
  torrents i a ha := by
    obtain ⟨b, hb, hf, -⟩ := step_torrents hfresh ha
    exact ⟨b, hb, hf⟩

def isRegistration : Engine.Action → Bool
  | .register .. => true
  | _ => false

theorem step_length {e : Engine} (h : isRegistration action = false) :
    (e.step action).torrents.length = e.torrents.length := by
  cases action with
  | register => cases h
  | torrent j act order =>
    simp only [Engine.step]
    split
    · rfl
    · exact length_modify ..
  | startPass snapshot => rfl
  | visit pass env =>
    simp only [Engine.step]
    split
    · split
      · rfl
      · exact length_modify ..
    · rfl

theorem registerTorrent_apart (spec : TorrentSpec) (restored : Option SavedTorrent)
    (noUpload : Bool) (env : Environment) :
    (registerTorrent spec restored noUpload env).1.managed = true →
      (registerTorrent spec restored noUpload env).1.registering = false := by
  have hpublish : ∀ r : Runtime, (r.publish env).1.registering = false := by
    intro r
    unfold publish
    split <;> rfl
  cases restored <;> simp only [Runtime.registerTorrent] <;> split <;> rename_i he
  all_goals first
    | exact fun _ => rfl
    | obtain ⟨-, rfl⟩ := applyStateEvent_ok he
      split
      · simp
      · exact fun _ => hpublish _

theorem step_new (hb : (s.step action).engine.torrents[i]? = some b)
    (hnone : s.engine.torrents[i]? = none) : Kept (s.step action) i b := by
  rw [step_engine] at hb
  have hlen := getElem?_eq_none_iff.1 hnone
  have hsame : isRegistration action = false → (s.engine.step action).torrents[i]? ≠ some b := by
    intro h
    rw [getElem?_eq_none_iff.2 (by rw [step_length h]; exact hlen)]
    nofun
  cases action with
  | register hash addedAt spec restored noUpload env =>
    simp only [Engine.step, Engine.registerTorrent] at hb
    split at hb
    · rw [hnone] at hb
      cases hb
    obtain rfl : b = ⟨hash, addedAt, (registerTorrent spec restored noUpload env).1⟩ := by
      rw [getElem?_append_right hlen] at hb
      simpa using (mem_of_getElem? hb)
    have hf := registerTorrent_fresh spec restored noUpload env
    refine ⟨.inl (by rw [hf.fence]), fun h => ?_, ?_⟩
    · rw [hf.failure] at h
      cases h
    · exact registerTorrent_apart spec restored noUpload env
  | torrent j act order | startPass snapshot | visit pass env => exact absurd hb (hsame rfl)

theorem Inv.step (h : s.Inv) (hfresh : s.FreshBinding action) : (s.step action).Inv where
  bounded := by
    rw [step_engine]
    exact h.bounded.step action
  kept i b hb := by
    cases ha : s.engine.torrents[i]? with
    | none => exact step_new hb ha
    | some a =>
      obtain ⟨b', hb', -, hk⟩ := step_torrents hfresh ha
      obtain rfl : b' = b := some.inj (hb'.symm.trans hb)
      exact hk (h.kept i a ha)

theorem lookup_some (h : s.lookup hash = some (a, i)) :
    s.engine.torrents[i]? = some a ∧ a.runtime.managed = true ∧ a.hash = hash := by
  have hmem := mem_managedTorrents.1 (mem_of_find?_eq_some h)
  have hhash := find?_some h
  exact ⟨hmem.1, hmem.2, by simpa using hhash⟩

theorem lookup_eq (hs : s.Inv) (ha : s.engine.torrents[i]? = some a)
    (hm : a.runtime.managed = true) : s.lookup a.hash = some (a, i) := by
  cases hl : s.lookup a.hash with
  | none =>
    have hnone := find?_eq_none.1 hl (a, i) (mem_managedTorrents.2 ⟨ha, hm⟩)
    simp at hnone
  | some e =>
    obtain ⟨b, j⟩ := e
    obtain ⟨hb, hmb, hhash⟩ := lookup_some hl
    obtain rfl : j = i := hs.bounded.unique j i b a hb ha (by simp [active, hmb])
      (by simp [active, hm]) hhash
    rw [some.inj (hb.symm.trans ha)]

theorem mem_captureReadStamp (h : (key, entry) ∈ (s.captureReadStamp hash).entries) :
    ∃ a i, s.engine.torrents[i]? = some a ∧ a.runtime.managed = true ∧ a.hash = key ∧
      s.readEntry a i = entry := by
  obtain ⟨⟨a, i⟩, hmem, heq⟩ := mem_map.1 h
  obtain ⟨ha, hm⟩ := mem_managedTorrents.1 (mem_of_mem_filter hmem)
  obtain ⟨hkey, hentry⟩ := Prod.mk.inj heq
  exact ⟨a, i, ha, hm, hkey, hentry⟩

theorem validateReadStamp_entry {stamp : RuntimeReadStamp} (h : t.validateReadStamp stamp = true)
    (he : (key, entry) ∈ stamp.entries) :
    ∃ c, t.lookup key = some (c, entry.owner) ∧ t.readEntry c entry.owner = entry := by
  have hne : stamp.entries.isEmpty = false := by
    cases hl : stamp.entries with
    | nil =>
      rw [hl] at he
      cases he
    | cons => rfl
  simp only [validateReadStamp, hne, Bool.and_false, Bool.false_eq_true, ↓reduceIte] at h
  split at h
  · cases h
  have hentry := all_eq_true.1 h (key, entry) he
  simp only at hentry
  split at hentry
  · cases hentry
  next c j hl =>
  simp only [Bool.and_eq_true, beq_iff_eq] at hentry
  obtain ⟨rfl, heq⟩ := hentry
  exact ⟨c, hl, heq⟩

theorem nodup_managedTorrents (e : Engine) : (e.managedTorrents.map (·.2)).Nodup := by
  have hsub : (e.managedTorrents.map (·.2)).Sublist (e.torrents.zipIdx.map (·.2)) :=
    filter_sublist.map _
  refine hsub.nodup ?_
  rw [zipIdx_map_snd]
  exact nodup_range'

/-- A stamp of all runtimes is valid for no runtime more. -/
theorem stamped_of_valid (hv : t.validateReadStamp (s.captureReadStamp "") = true)
    (hi : i ∈ t.engine.managedTorrents.map (·.2)) : i ∈ s.engine.managedTorrents.map (·.2) := by
  have hentries : (s.captureReadStamp "").entries =
      s.engine.managedTorrents.map fun e => (e.1.hash, s.readEntry e.1 e.2) := by
    simp [captureReadStamp]
  have hlength : s.engine.managedTorrents.length = t.engine.managedTorrents.length := by
    by_contra hne
    simp [validateReadStamp, hne, captureReadStamp] at hv
  have hsub : s.engine.managedTorrents.map (·.2) ⊆ t.engine.managedTorrents.map (·.2) := by
    intro j hj
    obtain ⟨e, he, rfl⟩ := mem_map.1 hj
    obtain ⟨c, hc, -⟩ := validateReadStamp_entry hv (hentries ▸ mem_map_of_mem he)
    obtain ⟨hc, hm, -⟩ := lookup_some hc
    exact mem_map.2 ⟨(c, e.2), mem_managedTorrents.2 ⟨hc, hm⟩, rfl⟩
  have hperm := (nodup_managedTorrents s.engine |>.subperm hsub).perm_of_length_le
    (by simp [hlength])
  exact hperm.mem_iff.2 hi

theorem stamp_between (hs : s.Inv) (hm : m.Inv) (hsm : Later s m) (hmt : Later m t)
    (hv : t.validateReadStamp (s.captureReadStamp hash) = true)
    (he : (key, entry) ∈ (s.captureReadStamp hash).entries) :
    (m.lookup key).map (fun e => m.readEntry e.1 e.2) = some entry := by
  obtain ⟨a, i, ha, hma, rfl, rfl⟩ := mem_captureReadStamp he
  obtain ⟨c, hc, hentry⟩ := validateReadStamp_entry hv he
  obtain ⟨hc, hmc, -⟩ := lookup_some hc
  obtain ⟨b, hb, hmb, hhash, hbe⟩ := entry_between hs hsm hmt ha hc hma hmc hentry
  rw [← hhash, lookup_eq hm hb hmb]
  exact congrArg some hbe

end StampedEngine

end TorrentHub
