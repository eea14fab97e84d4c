import TorrentHub.Engine.Streams

namespace TorrentHub

open Lib List Table StreamWorld StreamState Option

namespace StreamState

variable {row : StreamState} {session : StreamSession}

def Balanced (row : StreamState) : Prop :=
  row.activeStreams = row.sessions.countP (fun s => !s.preload) ∧
  row.activePreloads = row.sessions.countP (fun s => s.preload)

theorem Balanced.addSession (h : row.Balanced) (session : StreamSession) :
    (row.addSession session).Balanced := by
  obtain ⟨hs, hp⟩ := h
  unfold Balanced StreamState.addSession
  simp only [countP_append, countP_singleton]
  cases session.preload <;> simp [hs, hp]

theorem countP_erase_add (p : StreamSession → Bool) {l : List StreamSession} (h : session ∈ l) :
    (l.erase session).countP p + (if p session then 1 else 0) = l.countP p := by
  have hperm := (perm_cons_erase h).countP_eq p
  rw [countP_cons] at hperm
  omega

theorem Balanced.dropSession (h : row.Balanced) (hmem : session ∈ row.sessions) :
    (row.dropSession session).Balanced := by
  obtain ⟨hs, hp⟩ := h
  have hstreams := countP_erase_add (fun s => !s.preload) hmem
  have hpreloads := countP_erase_add (fun s => s.preload) hmem
  unfold Balanced StreamState.dropSession
  dsimp only
  cases hk : session.preload <;> simp [hk] at hstreams hpreloads ⊢ <;> omega

theorem Balanced.sessions_of_unused (h : row.Balanced) (hu : row.unused = true) :
    row.sessions = [] := by
  obtain ⟨hs, hp⟩ := h
  simp only [unused, Bool.and_eq_true, beq_iff_eq] at hu
  refine eq_nil_iff_forall_not_mem.2 ?_
  intro session hmem
  have hstreams : row.sessions.countP (fun s => !s.preload) = 0 := by omega
  have hpreloads : row.sessions.countP (fun s => s.preload) = 0 := by omega
  have hno := countP_eq_zero.1 hstreams session hmem
  have hno' := countP_eq_zero.1 hpreloads session hmem
  cases hk : session.preload <;> simp [hk] at hno hno'

theorem channels_dropSession (hmem : session ∈ row.sessions) (id : Nat) :
    (row.dropSession session).channels id + (if session.id = id then 1 else 0)
      = row.channels id := by
  have hcount := countP_erase_add (fun s => s.id == id) hmem
  simpa [channels, dropSession] using hcount

theorem channels_addSession (row : StreamState) (session : StreamSession) (id : Nat) :
    (row.addSession session).channels id = row.channels id + if session.id = id then 1 else 0 := by
  simp [channels, addSession, countP_append, countP_singleton]

end StreamState

namespace StreamWorld

variable {w : StreamWorld} {key : FileKey} {row : StreamState} {session : StreamSession}

theorem find_modify (w : StreamWorld) (key : FileKey) (f : StreamState → StreamState)
    (hf : ∀ r, (f r).key = r.key) (k : FileKey) : (w.modify key f hf).states.find k
      = if k = key then (w.states.find k).map f else w.states.find k :=
  find_adjust_key w.states (fun _ => beq_iff_eq) f hf k

theorem find_drop (w : StreamWorld) (key k : FileKey) :
    (w.drop key).states.find k = if k = key then none else w.states.find k :=
  find_remove_key w.states (fun _ => beq_iff_eq) k

theorem find_refresh {id : Nat} {complete : Nat → Bool} {w' : StreamWorld}
    (h : w.refresh id complete = some w') :
    ∃ t, w.currentTorrent id = some t ∧ ∀ k, w'.states.find k = (w.states.find k).map fun r =>
        if ofTorrent t.hash id r then w.refreshState t id complete r else r := by
  unfold refresh at h
  split at h
  · cases h
  next t ht =>
  split at h
  · cases h
  cases h
  refine ⟨t, ht, ?_⟩
  intro k
  exact find_adjust _ _ _ (w.refreshState_key t id complete) k

theorem refreshState_sessions (w : StreamWorld) (t : StreamTorrent) (id : Nat)
    (complete : Nat → Bool) (r : StreamState) :
    (w.refreshState t id complete r).sessions = r.sessions ∧
    (w.refreshState t id complete r).activeStreams = r.activeStreams ∧
    (w.refreshState t id complete r).activePreloads = r.activePreloads ∧
    (w.refreshState t id complete r).object = r.object ∧
    (w.refreshState t id complete r).torrent = r.torrent ∧
    (w.refreshState t id complete r).timerVersion = r.timerVersion := by
  unfold refreshState
  split <;> exact ⟨rfl, rfl, rfl, rfl, rfl, rfl⟩

/-- Every counter counts its sessions, and the channel of every session is either in the table, and
open, or was closed once. -/
structure Accounted (w : StreamWorld) : Prop where
  balanced : ∀ k row, w.states.find k = some row → row.Balanced
  channels : ∀ id, w.closes id + w.states.total (·.channels id)
    = if 0 < id ∧ id ≤ w.nextSession then 1 else 0

namespace Accounted

section

variable (h : w.Accounted)
include h

theorem congr {w' : StreamWorld} (hs : w'.states = w.states)
    (hc : w'.closes = w.closes) (hn : w'.nextSession = w.nextSession) : w'.Accounted := by
  refine ⟨?_, ?_⟩
  · rw [hs]
    exact h.balanced
  · rw [hs, hc, hn]
    exact h.channels

theorem refreshed (id : Nat) (complete : Nat → Bool) : (w.refreshed id complete).Accounted := by
  unfold StreamWorld.refreshed
  cases hr : w.refresh id complete with
  | none => exact h
  | some w' =>
    obtain ⟨t, -, hfind⟩ := find_refresh hr
    refine ⟨?_, ?_⟩
    · intro k row' hrow'
      rw [getD_some, hfind, map_eq_some_iff] at hrow'
      obtain ⟨row, hrow, rfl⟩ := hrow'
      have hold := h.balanced k row hrow
      split
      · obtain ⟨hs, ha, hp, -⟩ := refreshState_sessions w t id complete row
        unfold StreamState.Balanced
        rw [hs, ha, hp]
        exact hold
      · exact hold
    intro c
    unfold refresh at hr
    split at hr
    · cases hr
    next t' _ =>
    split at hr
    · cases hr
    cases hr
    refine Eq.trans ?_ (h.channels c)
    change w.closes c + total (w.states.adjust _ (w.refreshState t' id complete)
      (w.refreshState_key t' id complete)) _ = _
    rw [total_adjust]
    intro r _
    unfold StreamState.channels
    rw [(refreshState_sessions w t' id complete r).1]

theorem modify (key : FileKey) {f : StreamState → StreamState} (hf : ∀ r, (f r).key = r.key)
    (hs : ∀ r, (f r).sessions = r.sessions) (hb : ∀ r, r.Balanced → (f r).Balanced) :
    (w.modify key f hf).Accounted := by
  refine ⟨?_, ?_⟩
  · intro k row' hrow'
    rw [find_modify] at hrow'
    split at hrow'
    · obtain ⟨row, hrow, rfl⟩ := map_eq_some_iff.1 hrow'
      exact hb row (h.balanced k row hrow)
    · exact h.balanced k row' hrow'
  intro c
  refine Eq.trans ?_ (h.channels c)
  change w.closes c + total (w.states.adjust _ f hf) _ = _
  rw [total_adjust]
  intro r _
  unfold StreamState.channels
  rw [hs]

theorem drop (hempty : ∀ row, w.states.find key = some row → row.sessions = []) :
    (w.drop key).Accounted := by
  refine ⟨?_, ?_⟩
  · intro k row hrow
    rw [find_drop] at hrow
    split at hrow
    · cases hrow
    · exact h.balanced k row hrow
  intro c
  refine Eq.trans ?_ (h.channels c)
  have hsum := Table.total_remove w.states (fun r => r.key == key) (·.channels c)
  have hzero : ((w.states.rows.filter fun r => r.key == key).map (·.channels c)).sum = 0 := by
    refine List.sum_eq_zero_iff_forall_eq_nat.2 ?_
    intro n hn
    obtain ⟨r, hr, rfl⟩ := List.mem_map.1 hn
    obtain ⟨hmem, hkey⟩ := List.mem_filter.1 hr
    have hfind := Table.find_of_mem hmem
    rw [show r.key = key by simpa using hkey] at hfind
    simp [StreamState.channels, hempty r hfind]
  change w.closes c + (w.states.remove fun r => r.key == key).total _ = _
  omega

theorem leave (hrow : w.states.find key = some row) (hmem : session ∈ row.sessions) :
    ((w.modify key (·.dropSession session) fun _ => rfl).close session.id).Accounted := by
  refine ⟨?_, ?_⟩
  · intro k row' hrow'
    replace hrow' := (find_modify w key (·.dropSession session) (fun _ => rfl) k).symm.trans hrow'
    split at hrow'
    next hk =>
      rw [hk, hrow] at hrow'
      cases hrow'
      exact (h.balanced key row hrow).dropSession hmem
    · exact h.balanced k row' hrow'
  intro c
  refine Eq.trans ?_ (h.channels c)
  have htotal := total_adjust_find hrow (·.dropSession session) (fun _ => rfl)
    (·.channels c)
  have hrowc := channels_dropSession hmem c
  change Function.update w.closes session.id (w.closes session.id + 1) c
    + total (w.states.adjust _ (·.dropSession session) fun _ => rfl) _ = _
  by_cases hc : c = session.id
  · subst hc
    rw [if_pos rfl] at hrowc
    rw [Function.update_self]
    omega
  · rw [if_neg (Ne.symm hc)] at hrowc
    rw [Function.update_of_ne hc]
    omega

theorem ensureState (key : FileKey) (id : Nat) : (w.ensureState key id).Accounted := by
  unfold StreamWorld.ensureState
  split
  · exact h
  next hnone =>
  refine ⟨?_, ?_⟩
  · intro k row hrow
    by_cases hk : k = key
    · subst hk
      replace hrow := (find_put_self w.states
        { key := k, object := w.nextObject, torrent := id }).symm.trans hrow
      cases hrow
      exact ⟨rfl, rfl⟩
    · exact h.balanced k row ((find_put_ne hk).symm.trans hrow)
  · intro c
    refine Eq.trans ?_ (h.channels c)
    change w.closes c + (w.states.put _).total _ = _
    rw [total_put hnone]
    rfl

theorem insertSession (hrow : w.states.find key = some row)
    (options : StreamOptions) (preload : Bool) :
    (w.insertSession key options preload).Accounted := by
  refine ⟨?_, ?_⟩
  · intro k row' hrow'
    replace hrow' := (find_modify w key (·.addSession ⟨w.nextSession + 1, options, preload⟩)
      (fun _ => rfl) k).symm.trans hrow'
    split at hrow'
    · obtain ⟨r, hr, rfl⟩ := map_eq_some_iff.1 hrow'
      exact (h.balanced k r hr).addSession _
    · exact h.balanced k row' hrow'
  intro c
  have hold := h.channels c
  have htotal := total_adjust_find hrow
    (·.addSession ⟨w.nextSession + 1, options, preload⟩) (fun _ => rfl) (·.channels c)
  have hrowc := channels_addSession row ⟨w.nextSession + 1, options, preload⟩ c
  change w.closes c + total (w.states.adjust _
      (·.addSession ⟨w.nextSession + 1, options, preload⟩) fun _ => rfl) _
    = if 0 < c ∧ c ≤ w.nextSession + 1 then 1 else 0
  dsimp only at htotal hrowc
  split at hrowc <;> split at hold <;> split <;> omega

theorem detach (p : StreamState → Bool) : (w.detach p).Accounted := by
  refine ⟨?_, ?_⟩
  · intro k row hrow
    replace hrow := (find_remove w.states p k).symm.trans hrow
    rw [filter_eq_some_iff] at hrow
    exact h.balanced k row hrow.1
  intro c
  refine Eq.trans ?_ (h.channels c)
  have hsum := total_remove w.states p (·.channels c)
  change w.closes c + ((w.states.rows.filter p).map (·.channels c)).sum
    + (w.states.remove p).total _ = _
  omega

theorem drop_unused (hunused : ∀ row, w.states.find key = some row → row.unused = true) :
    (w.drop key).Accounted :=
  h.drop fun row hrow => (h.balanced key row hrow).sessions_of_unused (hunused row hrow)

end

theorem left (hrow : w.states.find key = some row) :
    ((w.modify key (·.dropSession session) fun _ => rfl).close session.id).states.find key
      = some (row.dropSession session) := by
  refine (find_modify w key (·.dropSession session) (fun _ => rfl) key).trans ?_
  rw [if_pos rfl, hrow]
  rfl

theorem rollbackSession (h : w.Accounted) (key : FileKey) (id : Nat) :
    (w.rollbackSession key id).Accounted := by
  unfold StreamWorld.rollbackSession
  split
  · exact h
  next row hrow =>
  split
  · exact h
  next session hsession =>
  obtain rfl : session.id = id := by simpa using find?_some hsession
  have hleave := h.leave hrow (mem_of_find?_eq_some hsession)
  dsimp only
  split
  next hgone =>
    refine hleave.drop_unused ?_
    intro r hr
    rw [left hrow] at hr
    cases hr
    exact (Bool.and_eq_true _ _ ▸ hgone).1
  · exact hleave

theorem find_ensureState (w : StreamWorld) (key : FileKey) (id : Nat) :
    ∃ row, (w.ensureState key id).states.find key = some row := by
  unfold StreamWorld.ensureState
  split
  next row hrow => exact ⟨row, hrow⟩
  · exact ⟨_, find_put_self w.states { key, object := w.nextObject, torrent := id }⟩

section

variable (h : w.Accounted)
include h

section

variable (key : FileKey)

theorem addSession (options : StreamOptions) (preload : Bool)
    (env : StreamEnv) : (w.addSession key options preload env).Accounted := by
  unfold StreamWorld.addSession
  split
  · exact h
  split
  · exact h
  next id _ _ =>
  split
  · exact h
  split
  · exact h
  obtain ⟨row, hrow⟩ := find_ensureState w key id
  have hadded : (((w.ensureState key id).insertSession key options preload).endContext
      env.ends).Accounted :=
    ((h.ensureState key id).insertSession hrow options preload).congr rfl rfl rfl
  have hfresh := hadded.refreshed id env.complete
  unfold StreamWorld.refreshed at hfresh
  dsimp only
  split
  next w' hw' =>
    rw [hw'] at hfresh
    exact hfresh
  · exact hadded.rollbackSession key _

theorem scheduleDebounce : (w.scheduleDebounce key).Accounted := by
  unfold StreamWorld.scheduleDebounce
  split
  · exact h
  split
  · exact h
  have harm := h.modify key (f := arm) (fun _ => rfl) (fun _ => rfl)
    fun _ hb => hb
  exact harm.congr rfl rfl rfl

theorem restoreBasePriorities (id : Nat) (env : StreamEnv) :
    (w.restoreBasePriorities id env).Accounted := by
  unfold StreamWorld.restoreBasePriorities
  split
  · exact h.congr rfl rfl rfl
  split
  · have hfault : ((w.setEligible id false).cancelPieces id).Accounted := h.congr rfl rfl rfl
    exact hfault.refreshed id env.complete
  · exact h.refreshed id env.complete

theorem clearStreamOverlay (env : StreamEnv) : (w.clearStreamOverlay key env).Accounted := by
  unfold StreamWorld.clearStreamOverlay
  split
  · exact h
  next row hrow =>
  split
  · exact h
  next hunused =>
  have hdrop : (w.drop key).Accounted := by
    refine h.drop_unused ?_
    intro r hr
    rw [hrow] at hr
    cases hr
    simpa using hunused
  split
  · exact hdrop
  split
  · exact hdrop
  next id t _ =>
  split
  · exact hdrop
  have hlow : ((w.drop key).lower key id t row.appliedRanges).Accounted := hdrop.congr rfl rfl rfl
  exact hlow.restoreBasePriorities id env

theorem removeSession (id : Nat) (debounce : Bool)
    (env : StreamEnv) : (w.removeSession key id debounce env).Accounted := by
  unfold StreamWorld.removeSession
  split
  · exact h
  next row hrow =>
  split
  · exact h
  next session hsession =>
  obtain rfl : session.id = id := by simpa using find?_some hsession
  have hleave := h.leave hrow (mem_of_find?_eq_some hsession)
  dsimp only
  split
  · exact hleave.refreshed row.torrent env.complete
  split
  · exact hleave.scheduleDebounce key
  · exact hleave.clearStreamOverlay key env

theorem removeStream (id : Nat) (env : StreamEnv) : (w.removeStream key id env).Accounted := by
  unfold StreamWorld.removeStream
  split
  · exact h
  next row hrow =>
  split
  · exact h.removeSession key id true env
  split
  · rename_i hlegacy
    have hnone : row.sessions = [] := by simpa using hlegacy.1
    have hcount := (h.balanced key row hrow).1
    rw [hnone] at hcount
    have hpos := hlegacy.2
    rw [hcount] at hpos
    simp at hpos
  · exact h

end

theorem expireDebounce (i : Nat) (env : StreamEnv) : (w.expireDebounce i env).Accounted := by
  unfold StreamWorld.expireDebounce
  split
  · exact h
  split
  · exact h
  split
  · exact h.clearStreamOverlay _ env
  · exact h

theorem setPolicy (hash : String) (eligible cancel again : Bool)
    (env : StreamEnv) : (w.setPolicy hash eligible cancel again env).Accounted := by
  unfold StreamWorld.setPolicy
  split
  · exact h
  next id _ =>
  have hchanged : (if cancel then (w.setEligible id eligible).cancelPieces id
      else w.setEligible id eligible).Accounted := by
    split <;> exact h.congr rfl rfl rfl
  dsimp only
  split
  · exact hchanged.refreshed id env.complete
  · exact hchanged

theorem delete (hash : String) : (w.delete hash).Accounted := by
  unfold StreamWorld.delete
  split
  · exact h
  refine Accounted.detach ?_ _
  exact h.congr rfl rfl rfl

theorem step (a : StreamAction) : (w.step a).Accounted := by
  cases a with
  | register t eligible =>
    simp only [StreamWorld.step, StreamWorld.register]
    split
    · exact h
    · exact h.congr rfl rfl rfl
  | setPolicy hash eligible cancel again env => exact h.setPolicy hash eligible cancel again env
  | addSession key options preload env => exact h.addSession key options preload env
  | removeSession key id debounce env => exact h.removeSession key id debounce env
  | removeStream key id env => exact h.removeStream key id env
  | expireDebounce i env => exact h.expireDebounce i env
  | refreshStreamOverlay key env =>
    simp only [StreamWorld.step]
    split
    · exact h
    · exact h.refreshed _ env.complete
  | delete hash => exact h.delete hash
  | beginShutdown | closeEngine => exact h.congr rfl rfl rfl
  | closeAllStreams =>
    have hclosed : { w with closed := true }.Accounted := h.congr rfl rfl rfl
    exact hclosed.detach _

end

theorem run (streamCacheSize : Int) (as : List StreamAction) :
    (run streamCacheSize as).Accounted := by
  refine exec_invariant_forall (fun _ a h => h.step a) ⟨?_, ?_⟩ as
  · nofun
  intro id
  change 0 = if 0 < id ∧ id ≤ 0 then 1 else 0
  split <;> omega

end Accounted

end StreamWorld

end TorrentHub
