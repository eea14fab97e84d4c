import Mathlib.Data.List.MinMax
import TorrentHub.Engine.Retention
import TorrentHub.Engine.Scheduler

namespace TorrentHub
open Lib List TorrentHub.Runtime Engine EngineTorrent

namespace Engine

variable {e : Engine} {i j index : Nat} {t u : EngineTorrent} {r : Runtime} {order : Iteration}

def slots (e : Engine) : Nat := e.torrents.countP fun t => t.runtime.mt.policy.slot

/-- Torrent `i` comes strictly before every other candidate of the table. -/
def IsHead (e : Engine) (i : Nat) : Prop :=
  ∃ t : EngineTorrent, e.torrents[i]? = some t ∧ t.runtime.managed = true ∧ t.candidate = true ∧
    ∀ (j : Nat) (u : EngineTorrent), e.torrents[j]? = some u → u.runtime.managed = true →
      u.candidate = true → j ≠ i → t.key < u.key

structure Tabled (e : Engine) : Prop where
  unique : ∀ (i j : Nat) (t u : EngineTorrent), e.torrents[i]? = some t → e.torrents[j]? = some u →
    t.active = true → u.active = true → t.hash = u.hash → i = j
  consistent : ∀ t ∈ e.torrents, t.runtime.mt.policy.Consistent
  placed : ∀ t ∈ e.torrents, t.runtime.mt.policy.slot = true → t.runtime.managed = true
  shown : ∀ t ∈ e.torrents, t.runtime.Shown

structure Bounded (e : Engine) : Prop extends Tabled e where
  slots_le : (e.slots : Int) ≤ max e.maxActiveDownloads 0

theorem mem_managedTorrents :
    (t, i) ∈ e.managedTorrents ↔ e.torrents[i]? = some t ∧ t.runtime.managed = true := by
  simp only [managedTorrents, mem_filter, mk_mem_zipIdx_iff_getElem?]

theorem schedulerHeadLocked_eq (e : Engine) (order : Iteration) : e.schedulerHeadLocked order =
      ((order.visit e.managedTorrents).filter (·.1.candidate)).argmin (·.1.key) := by
  unfold schedulerHeadLocked argmin
  generalize order.visit e.managedTorrents = l
  generalize (none : Option (EngineTorrent × Nat)) = first
  induction l generalizing first with
  | nil => rfl
  | cons entry l ih =>
    rw [foldl_cons, ih]
    by_cases hc : entry.1.candidate = true
    · simp only [filter_cons, hc, ↓reduceIte, foldl_cons]
      congr 1
      cases first with
      | none => simp only [headStep, hc, Bool.not_true, Bool.false_eq_true, ↓reduceIte, argAux]
      | some f =>
        simp only [headStep, hc, Bool.not_true, Bool.false_eq_true, ↓reduceIte, before_iff, argAux]
    · simp only [filter_cons, headStep, hc, Bool.not_false, Bool.false_eq_true, ↓reduceIte]

theorem mem_candidates : (t, i) ∈ (order.visit e.managedTorrents).filter (·.1.candidate) ↔
      e.torrents[i]? = some t ∧ t.runtime.managed = true ∧ t.candidate = true := by
  rw [mem_filter, (order.perm _).mem_iff, mem_managedTorrents, and_assoc]

section

variable (h : e.Tabled)
include h

theorem Tabled.key_injective (ht : e.torrents[i]? = some t)
    (hu : e.torrents[j]? = some u) (hmt : t.runtime.managed = true)
    (hmu : u.runtime.managed = true) (hkey : t.key = u.key) : i = j :=
  h.unique i j t u ht hu (by simp [active, hmt]) (by simp [active, hmu]) (hash_eq_of_key hkey)

theorem schedulerHeadLocked_iff (order : Iteration) (i : Nat) :
    (e.schedulerHeadLocked order).any (·.2 == i) = true ↔ e.IsHead i := by
  rw [schedulerHeadLocked_eq, Option.any_eq_true]
  constructor
  · rintro ⟨⟨t, k⟩, hmin, hk⟩
    obtain rfl : k = i := by simpa using hk
    obtain ⟨ht, hmt, hct⟩ := mem_candidates.1 (argmin_mem (Option.mem_def.2 hmin))
    refine ⟨t, ht, hmt, hct, fun j u hu hmu hcu hne => ?_⟩
    have hle := le_of_mem_argmin (mem_candidates.2 ⟨hu, hmu, hcu⟩) (Option.mem_def.2 hmin)
    refine lt_of_le_of_ne hle fun heq => hne ?_
    exact (h.key_injective ht hu hmt hmu heq).symm
  rintro ⟨t, ht, hmt, hct, hfirst⟩
  have hmem : (t, i) ∈ (order.visit e.managedTorrents).filter (·.1.candidate) :=
    mem_candidates.2 ⟨ht, hmt, hct⟩
  cases hmin : ((order.visit e.managedTorrents).filter (·.1.candidate)).argmin (·.1.key) with
  | none => rw [argmin_eq_none.1 hmin] at hmem; cases hmem
  | some entry =>
    obtain ⟨u, j⟩ := entry
    obtain ⟨hu, hmu, hcu⟩ := mem_candidates.1 (argmin_mem (Option.mem_def.2 hmin))
    have hle := le_of_mem_argmin hmem (Option.mem_def.2 hmin)
    refine ⟨(u, j), rfl, ?_⟩
    by_contra hne
    exact absurd (hfirst j u hu hmu hcu (by simpa using hne)) (not_lt.2 hle)

theorem slotCountLocked_eq : e.slotCountLocked = e.slots := by
  rw [slotCountLocked, managedTorrents, countP_filter, slots]
  conv_rhs => rw [← zipIdx_map_fst 0 e.torrents, countP_map]
  apply countP_congr
  intro entry hentry
  have hplaced := h.placed entry.1 (fst_mem_of_mem_zipIdx hentry)
  simpa only [Bool.and_eq_true, Function.comp_apply, and_iff_left_iff_imp] using hplaced

theorem available_iff (order : Iteration) (i : Nat) :
    e.available order i = true ↔ (e.slots : Int) < e.maxActiveDownloads ∧ e.IsHead i := by
  rw [available, Bool.and_eq_true, decide_eq_true_iff, schedulerHeadLocked_iff h,
    slotCountLocked_eq h]

theorem available_congr (order order' : Iteration) (i : Nat) :
    e.available order i = e.available order' i := by
  rw [Bool.eq_iff_iff, available_iff h, available_iff h]

end

section
variable (ht : e.torrents[i]? = some t)
include ht

theorem setRuntime_torrents (r : Runtime) :
    (e.setRuntime i r).torrents = e.torrents.set i { t with runtime := r } := by
  rw [setRuntime, modify_eq_set_getElem?, ht]
  rfl

theorem getElem?_setRuntime (r : Runtime) (j : Nat) : (e.setRuntime i r).torrents[j]? =
      if i = j then some { t with runtime := r } else e.torrents[j]? := by
  rw [setRuntime_torrents ht, List.getElem?_set]
  have hi := (List.getElem?_eq_some_iff.1 ht).1
  simp only [hi, ↓reduceIte]

theorem setRuntime_entry {r : Runtime} (hactive : (r.managed || r.registering) = true →
    t.active = true) (hj : (e.setRuntime i r).torrents[j]? = some u) :
    ∃ v, e.torrents[j]? = some v ∧ v.hash = u.hash ∧ (u.active = true → v.active = true) := by
  rw [getElem?_setRuntime ht] at hj
  split at hj
  next hij =>
    cases hj
    exact ⟨t, hij ▸ ht, rfl, hactive⟩
  · exact ⟨u, hj, rfl, id⟩

theorem Tabled.setRuntime (h : e.Tabled)
    (hactive : (r.managed || r.registering) = true → t.active = true)
    (hconsistent : r.mt.policy.Consistent)
    (hplaced : r.mt.policy.slot = true → r.managed = true) (hshown : r.Shown) :
    (e.setRuntime i r).Tabled where
  unique j k u v hj hk hu hv heq := by
    obtain ⟨u', hj', hhu, hau⟩ := setRuntime_entry ht hactive hj
    obtain ⟨v', hk', hhv, hav⟩ := setRuntime_entry ht hactive hk
    exact h.unique j k u' v' hj' hk' (hau hu) (hav hv) (by rw [hhu, hhv, heq])
  consistent u hu := by
    rw [setRuntime_torrents ht] at hu
    rcases mem_or_eq_of_mem_set hu with hu | rfl
    · exact h.consistent u hu
    · exact hconsistent
  placed u hu := by
    rw [setRuntime_torrents ht] at hu
    rcases mem_or_eq_of_mem_set hu with hu | rfl
    · exact h.placed u hu
    · exact hplaced
  shown u hu := by
    rw [setRuntime_torrents ht] at hu
    rcases mem_or_eq_of_mem_set hu with hu | rfl
    · exact h.shown u hu
    · exact hshown

theorem setRuntime_slots (r : Runtime) :
    (e.setRuntime i r).slots + (if t.runtime.mt.policy.slot then 1 else 0) =
      e.slots + if r.mt.policy.slot then 1 else 0 := by
  obtain ⟨hi, hget⟩ := List.getElem?_eq_some_iff.1 ht
  rw [slots, setRuntime_torrents ht, countP_set hi, hget, slots]
  have hpos : t.runtime.mt.policy.slot = true →
      0 < e.torrents.countP fun t => t.runtime.mt.policy.slot := fun hs =>
    countP_pos_iff.2 ⟨t, mem_of_getElem? ht, hs⟩
  cases hs : t.runtime.mt.policy.slot with
  | true =>
    have := hpos hs
    simp only [↓reduceIte]
    omega
  | false => simp

end

theorem setRuntime_setRuntime (e : Engine) (i : Nat) (r s : Runtime) :
    (e.setRuntime i r).setRuntime i s = e.setRuntime i s := by
  simp only [setRuntime, modify_modify_eq]
  rfl

theorem Bounded.retains (h : e.Bounded) (ht : e.torrents[i]? = some t)
    (hr : t.runtime.Retains r) : (e.setRuntime i r).Bounded := by
  have hmem := mem_of_getElem? ht
  refine ⟨h.toTabled.setRuntime ht hr.active (hr.consistent (h.consistent t hmem))
    (hr.placed (h.consistent t hmem) (h.placed t hmem)) (hr.shown (h.shown t hmem)), ?_⟩
  have hslots := setRuntime_slots ht r
  have hle : (e.setRuntime i r).slots ≤ e.slots := by
    cases hs : r.mt.policy.slot with
    | true => simpa [hs, hr.slot hs] using hslots.le
    | false => rw [hs] at hslots; simp at hslots; omega
  have := h.slots_le
  change _ ≤ max e.maxActiveDownloads 0
  omega

/-- The grant of a slot to torrent `i`, at the moment in which the section asks for it. -/
structure Grant (e : Engine) (i index : Nat) (t : EngineTorrent) (env : Environment)
    (ticket : PayloadPreparation) (s : Runtime) : Prop where
  work : t.runtime.work[index]? = some (.health ticket)
  capacity : ((e.requesting i index t.runtime env ticket).slots : Int) < e.maxActiveDownloads
  head : (e.requesting i index t.runtime env ticket).IsHead i
  observed : t.runtime.Retains ((t.runtime.take index).observed env ticket)
  granted : ∃ granted, Runtime.Grants ((t.runtime.take index).observed env ticket) granted ∧
    granted.Retains s

theorem answer_returned {action : Runtime.Action} {env : Environment}
    {ticket : PayloadPreparation} (h : e.answer order i r action = .returned index env)
    (hw : r.work[index]? = some (.health ticket)) :
    ∃ env', action = .returned index env' ∧ env = { env' with
      slotAvailable := (e.requesting i index r env' ticket).available order i } := by
  cases action with
  | returned k env' =>
    simp only [answer] at h
    split at h
    next hk =>
      cases h
      rw [hk] at hw
      cases hw
      exact ⟨env', rfl, rfl⟩
    next hk =>
    cases h
    exact absurd hw (hk ticket)
  | _ => cases h

section

variable (h : e.Bounded)
include h

theorem torrent_cases (ht : e.torrents[i]? = some t) (action : Runtime.Action) (order : Iteration) :
    t.runtime.Retains (t.runtime.step (e.answer order i t.runtime action)) ∨
      ∃ index env ticket, action = .returned index env ∧
        e.Grant i index t env ticket (t.runtime.step (e.answer order i t.runtime action)) := by
  rcases step_retains_or_grants t.runtime (e.answer order i t.runtime action) with
    hr | ⟨index, env, ticket, granted, ha, hw, havailable, hobserved, hgrants, hr⟩
  · exact .inl hr
  right
  obtain ⟨env', haction, rfl⟩ := answer_returned ha hw
  have htabled : (e.requesting i index t.runtime env' ticket).Tabled :=
    (h.retains ht hobserved).toTabled
  obtain ⟨hcapacity, hhead⟩ := (available_iff htabled order i).1 havailable
  exact ⟨index, env', ticket, haction, hw, hcapacity, hhead, hobserved, granted, hgrants, hr⟩

theorem Bounded.grant (ht : e.torrents[i]? = some t) {env : Environment}
    {ticket : PayloadPreparation} (hg : e.Grant i index t env ticket r) :
    (e.setRuntime i r).Bounded := by
  have hrequesting : (e.requesting i index t.runtime env ticket).Bounded := h.retains ht hg.observed
  have hentry : (e.requesting i index t.runtime env ticket).torrents[i]? =
      some { t with runtime := (t.runtime.take index).observed env ticket } := by
    rw [requesting, getElem?_setRuntime ht, if_pos rfl]
  obtain ⟨granted, hgrants, hretains⟩ := hg.granted
  have hconsistent := hgrants.consistent (hrequesting.consistent _ (mem_of_getElem? hentry))
  have hset : (e.requesting i index t.runtime env ticket).setRuntime i granted =
      e.setRuntime i granted := setRuntime_setRuntime _ _ _ _
  have hgranted : (e.setRuntime i granted).Bounded := by
    rw [← hset]
    refine ⟨hrequesting.toTabled.setRuntime hentry ?_ hconsistent (fun _ => hgrants.place.1)
      hgrants.shown, ?_⟩
    · intro _
      simp only [active, hgrants.managed, Bool.true_or]
    have hslots := setRuntime_slots hentry granted
    have hcapacity := hg.capacity
    have hle : (if granted.mt.policy.slot = true then 1 else 0) ≤ 1 := by split <;> omega
    change _ ≤ max e.maxActiveDownloads 0
    omega
  have hplace : (e.setRuntime i granted).torrents[i]? = some { t with runtime := granted } := by
    rw [getElem?_setRuntime ht, if_pos rfl]
  have := hgranted.retains hplace hretains
  rwa [setRuntime_setRuntime] at this

theorem Bounded.append (hslot : t.runtime.mt.policy.slot = false)
    (hconsistent : t.runtime.mt.policy.Consistent) (hshown : t.runtime.Shown)
    (hfree : ¬ e.torrents.any (fun u => u.hash == t.hash && u.active) = true) :
    Bounded { e with torrents := e.torrents ++ [t] } := by
  have hother : ∀ u ∈ e.torrents, u.active = true → u.hash ≠ t.hash := by
    intro u hu ha hh
    exact hfree (any_eq_true.2 ⟨u, hu, by simp [hh, ha]⟩)
  have hcases : ∀ (j : Nat) (u : EngineTorrent), (e.torrents ++ [t])[j]? = some u →
      e.torrents[j]? = some u ∨ j = e.torrents.length ∧ u = t := by
    intro j u hj
    rw [getElem?_append] at hj
    split at hj
    · exact .inl hj
    next hlen =>
    obtain ⟨hsub, rfl⟩ : j - e.torrents.length = 0 ∧ t = u := by
      simpa [getElem?_singleton] using hj
    exact .inr ⟨by omega, rfl⟩
  refine ⟨⟨?_, ?_, ?_, ?_⟩, ?_⟩
  · intro j k u v hj hk hu hv heq
    rcases hcases j u hj with hold | ⟨hnew, htu⟩ <;> rcases hcases k v hk with hold' | ⟨hnew', htv⟩
    · exact h.unique j k u v hold hold' hu hv heq
    · exact absurd (heq.trans (htv ▸ rfl)) (hother u (mem_of_getElem? hold) hu)
    · exact absurd (heq.symm.trans (htu ▸ rfl)) (hother v (mem_of_getElem? hold') hv)
    · rw [hnew, hnew']
  · intro u hu
    rcases mem_append.1 hu with hu | hu
    · exact h.consistent u hu
    · rw [mem_singleton.1 hu]
      exact hconsistent
  · intro u hu hs
    rcases mem_append.1 hu with hu | hu
    · exact h.placed u hu hs
    · rw [mem_singleton.1 hu, hslot] at hs
      cases hs
  · intro u hu
    rcases mem_append.1 hu with hu | hu
    · exact h.shown u hu
    · rw [mem_singleton.1 hu]
      exact hshown
  · simpa [slots, hslot] using h.slots_le

theorem Bounded.step (action : Action) : (e.step action).Bounded := by
  cases action with
  | register hash addedAt spec restored noUpload env =>
    simp only [Engine.step, registerTorrent]
    split
    · exact h
    next hfree =>
    exact h.append (registerTorrent_slot spec restored noUpload env)
      (registerTorrent_consistent spec restored noUpload env)
      (registerTorrent_shown spec restored noUpload env) hfree
  | torrent i action order =>
    simp only [Engine.step]
    split
    · exact h
    next t ht =>
    rcases torrent_cases h ht action order with hr | ⟨index, env, ticket, -, hg⟩
    · exact h.retains ht hr
    · exact h.grant ht hg
  | startPass snapshot => exact ⟨⟨h.unique, h.consistent, h.placed, h.shown⟩, h.slots_le⟩
  | visit pass env =>
    simp only [Engine.step]
    split
    · have hpass : ∀ passes, Bounded { e with passes } := fun _ =>
        ⟨⟨h.unique, h.consistent, h.placed, h.shown⟩, h.slots_le⟩
      split
      · exact hpass _
      next ht => exact (hpass _).retains ht (manageResources_spares _ env).retains
    · exact h

end

theorem run_bounded (limit : Int) (actions : List Action) : (run limit actions).Bounded := by
  refine exec_invariant_forall (I := Bounded) (fun _ action h => h.step action)
    ⟨⟨?_, ?_, ?_, ?_⟩, ?_⟩ actions
  · rintro i j t u ⟨⟩
  · rintro t ⟨⟩
  · rintro t ⟨⟩
  · rintro t ⟨⟩
  · simp [slots]

@[simp] theorem setRuntime_limit (e : Engine) (i : Nat) (r : Runtime) :
    (e.setRuntime i r).maxActiveDownloads = e.maxActiveDownloads := rfl

theorem step_limit (e : Engine) (action : Action) :
    (e.step action).maxActiveDownloads = e.maxActiveDownloads := by
  cases action <;> simp only [step, registerTorrent] <;> repeat' split
  all_goals rfl

theorem run_limit (limit : Int) (actions : List Action) :
    (run limit actions).maxActiveDownloads = limit :=
  exec_invariant_forall (I := fun e => e.maxActiveDownloads = limit)
    (fun e action h => (step_limit e action).trans h) rfl actions

/-- A section in which torrent `i` is given a slot, whether it keeps it or not. -/
def Gains (t u : EngineTorrent) : Prop :=
  t.runtime.mt.slotToken < u.runtime.mt.slotToken ∨
    t.runtime.mt.policy.slot = false ∧ u.runtime.mt.policy.slot = true

theorem Gains.not_retains (h : Gains t u) : ¬ t.runtime.Retains u.runtime := by
  intro hr
  rcases h with h | ⟨ht, hu⟩
  · exact absurd hr.token (by omega)
  · rw [hr.slot hu] at ht
    cases ht

theorem Bounded.gains (h : e.Bounded) {action : Action} (ht : e.torrents[i]? = some t)
    (hu : (e.step action).torrents[i]? = some u) (hg : Gains t u) :
    ∃ index env ticket order, action = .torrent i (.returned index env) order ∧
      e.Grant i index t env ticket u.runtime := by
  have hsame : e.torrents[i]? ≠ some u := by
    intro hu'
    rw [ht] at hu'
    cases hu'
    exact hg.not_retains (.refl _)
  cases action with
  | register hash addedAt spec restored noUpload env =>
    simp only [Engine.step, registerTorrent] at hu
    split at hu
    · exact absurd hu hsame
    rw [List.getElem?_append_left (List.getElem?_eq_some_iff.1 ht).1] at hu
    exact absurd hu hsame
  | startPass snapshot => exact absurd hu hsame
  | torrent j action order =>
    simp only [Engine.step] at hu
    split at hu
    · exact absurd hu hsame
    next t' ht' =>
    rw [getElem?_setRuntime ht'] at hu
    split at hu
    next hij =>
      subst hij
      rw [ht] at ht'
      cases ht'
      cases hu
      rcases torrent_cases h ht action order with hr | ⟨index, env, ticket, rfl, hgrant⟩
      · exact absurd hr hg.not_retains
      · exact ⟨index, env, ticket, order, rfl, hgrant⟩
    · exact absurd hu hsame
  | visit pass env =>
    simp only [Engine.step] at hu
    split at hu
    · split at hu
      · exact absurd hu hsame
      next j rest _ _ t' ht' =>
      rw [getElem?_setRuntime (e := { e with passes := e.passes.set pass rest }) ht'] at hu
      split at hu
      next hij =>
        subst hij
        rw [ht] at ht'
        cases ht'
        cases hu
        exact absurd (manageResources_spares _ env).retains hg.not_retains
      · exact absurd hu hsame
    · exact absurd hu hsame

theorem answer_congr (h : e.Bounded) (ht : e.torrents[i]? = some t) (action : Runtime.Action)
    (order order' : Iteration) :
    e.answer order i t.runtime action = e.answer order' i t.runtime action := by
  cases action with
  | returned index env =>
    simp only [answer]
    split
    next ticket _ =>
      have hrequesting : (e.requesting i index t.runtime env ticket).Tabled :=
        (h.retains ht (observed_retains _ _ _ _)).toTabled
      rw [available_congr hrequesting order order' i]
    · rfl
  | _ => rfl

/-- The slots are within the limit. A section that gives torrent `i` a slot ends a scheduler turn,
and at its request a slot is free and `i` comes strictly before every other candidate. A pass whose
preparation failed takes no slot but the one whose token it saw. -/
theorem scheduler_capacity_and_order (limit : Int) (actions : List Action) :
    let e := run limit actions
    (e.slots : Int) ≤ max limit 0 ∧
      (∀ action i t u, e.torrents[i]? = some t → (e.step action).torrents[i]? = some u →
        Gains t u → ∃ index env ticket order, action = .torrent i (.returned index env) order ∧
          t.runtime.work[index]? = some (.health ticket) ∧
          ((e.requesting i index t.runtime env ticket).slots : Int) < limit ∧
          (e.requesting i index t.runtime env ticket).IsHead i) ∧
      (∀ i action order order',
        e.step (.torrent i action order) = e.step (.torrent i action order')) ∧
      (∀ i (t : EngineTorrent) index ticket metadata token env order, e.torrents[i]? = some t →
        t.runtime.work[index]? = some (.admission ticket metadata (.scheduler token)) →
        ∀ failed err,
          (t.runtime.take index).admitReturned env ticket metadata = (failed, .error err) →
          ¬ (failed.mt.policy.slot = true ∧ failed.mt.slotToken = token) →
          e.step (.torrent i (.returned index env) order) = e.setRuntime i failed) := by
  intro e
  have hbounded : e.Bounded := run_bounded limit actions
  have hlimit : e.maxActiveDownloads = limit := run_limit limit actions
  refine ⟨?_, ?_, ?_, ?_⟩
  · have := hbounded.slots_le
    rwa [hlimit] at this
  · intro action i t u ht hu hg
    obtain ⟨index, env, ticket, order, ha, hgrant⟩ := hbounded.gains ht hu hg
    exact ⟨index, env, ticket, order, ha, hgrant.work, hlimit ▸ hgrant.capacity, hgrant.head⟩
  · intro i action order order'
    simp only [Engine.step]
    split
    · rfl
    next t ht => rw [answer_congr hbounded ht action order order']
  · intro i t index ticket metadata token env order ht hw failed err hfailed hkept
    simp only [Engine.step, ht, answer, hw, Runtime.step, Runtime.finish, Runtime.admitFinish]
    congr 1
    unfold Runtime.take at hfailed
    simp only [hfailed]
    exact Runtime.admitFailed_kept hkept (env.live 2) env.streams

example :
    let actions : List Action :=
      [.register "a" 0 ⟨true, some 1, true⟩ none false {},
        .torrent 0 (.returned 0 {}) ⟨id, .refl⟩, .startPass [0], .visit 0 {},
        .torrent 0 (.returned 0 {}) ⟨id, .refl⟩]
    (run 1 actions).slots = 1 ∧ (run 0 actions).slots = 0 := by
  decide

/-- With a limit below zero no slot is given, and still more slots are held than it says. -/
theorem slots_exceed_negative_limit :
    let actions : List Action :=
      [.register "a" 0 ⟨true, some 1, true⟩ none false {},
        .torrent 0 (.returned 0 {}) ⟨id, .refl⟩, .startPass [0], .visit 0 {},
        .torrent 0 (.returned 0 {}) ⟨id, .refl⟩]
    ¬ ((run (-1) actions).slots : Int) ≤ -1 := by
  decide

end Engine

end TorrentHub
