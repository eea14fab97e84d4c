import Mathlib.Data.List.Induction
import TorrentHub.Engine.Sessions

namespace TorrentHub

open Lib List Option

namespace StreamWorld

variable {w w' w'' : StreamWorld} {key : FileKey} {row row' : StreamState}

def Continues (row row' : StreamState) : Prop :=
  row.object = row'.object ∧ row.timerVersion ≤ row'.timerVersion ∧
  (row.timerVersion = row'.timerVersion → row'.sessions ⊆ row.sessions)

theorem Continues.refl (row : StreamState) : Continues row row :=
  ⟨rfl, Nat.le_refl _, fun _ => Subset.refl _⟩

theorem Continues.trans (h : Continues r r') (h' : Continues r' r'') : Continues r r'' := by
  obtain ⟨ho, hv, hs⟩ := h
  obtain ⟨ho', hv', hs'⟩ := h'
  refine ⟨ho.trans ho', hv.trans hv', ?_⟩
  intro heq
  exact Subset.trans (hs' (by omega)) (hs (by omega))

def Bounded (w : StreamWorld) : Prop :=
  ∀ k row, w.states.find k = some row → row.object < w.nextObject

structure Follows (w w' : StreamWorld) : Prop where
  objects : w.nextObject ≤ w'.nextObject
  bounded : w.Bounded → w'.Bounded
  states : ∀ k row', w'.states.find k = some row' → row'.object < w.nextObject →
    ∃ row, w.states.find k = some row ∧ Continues row row'

namespace Follows

theorem of_states (hn : w'.nextObject = w.nextObject) (hs : w'.states = w.states) :
    Follows w w' := by
  refine ⟨hn.ge, ?_, ?_⟩
  · unfold Bounded
    rw [hs, hn]
    exact id
  rw [hs]
  intro k row' hrow' _
  exact ⟨row', hrow', .refl row'⟩

theorem refl (w : StreamWorld) : Follows w w := of_states rfl rfl

theorem trans (h : Follows w w') (h' : Follows w' w'') : Follows w w'' := by
  refine ⟨h.objects.trans h'.objects, fun hb => h'.bounded (h.bounded hb), ?_⟩
  intro k row'' hrow'' hold
  obtain ⟨row', hrow', hcont'⟩ := h'.states k row'' hrow'' (hold.trans_le h.objects)
  have hobject := hcont'.1
  obtain ⟨row, hrow, hcont⟩ := h.states k row' hrow' (by omega)
  exact ⟨row, hrow, hcont.trans hcont'⟩

theorem of_continues (hn : w'.nextObject = w.nextObject)
    (hs : ∀ k row', w'.states.find k = some row' →
      ∃ row, w.states.find k = some row ∧ Continues row row') : Follows w w' := by
  refine ⟨hn.ge, ?_, fun k row' hrow' _ => hs k row' hrow'⟩
  intro hb k row' hrow'
  obtain ⟨row, hrow, hobject, -⟩ := hs k row' hrow'
  have hold := hb k row hrow
  omega

theorem modify (w : StreamWorld) (key : FileKey) {f : StreamState → StreamState}
    (hf : ∀ r, (f r).key = r.key) (hc : ∀ r, Continues r (f r)) :
    Follows w (w.modify key f hf) := by
  refine of_continues rfl ?_
  intro k row' hrow'
  rw [find_modify] at hrow'
  split at hrow'
  · obtain ⟨row, hrow, rfl⟩ := map_eq_some_iff.1 hrow'
    exact ⟨row, hrow, hc row⟩
  · exact ⟨row', hrow', .refl row'⟩

theorem remove (hn : w'.nextObject = w.nextObject) {p : StreamState → Bool}
    (hs : w'.states = w.states.remove p) : Follows w w' := by
  refine of_continues hn ?_
  intro k row' hrow'
  rw [hs, Table.find_remove, filter_eq_some_iff] at hrow'
  exact ⟨row', hrow'.1, .refl row'⟩

section

variable (w : StreamWorld)

theorem refreshed (id : Nat) (complete : Nat → Bool) : Follows w (w.refreshed id complete) := by
  unfold StreamWorld.refreshed
  cases hr : w.refresh id complete with
  | none => exact refl w
  | some w' =>
    obtain ⟨t, -, hfind⟩ := find_refresh hr
    have hnext : w'.nextObject = w.nextObject := by
      unfold refresh at hr
      repeat' split at hr
      all_goals cases hr
      rfl
    refine of_continues hnext ?_
    intro k row' hrow'
    rw [getD_some, hfind, map_eq_some_iff] at hrow'
    obtain ⟨row, hrow, rfl⟩ := hrow'
    refine ⟨row, hrow, ?_⟩
    split
    · obtain ⟨hs, -, -, ho, -, hv⟩ := refreshState_sessions w t id complete row
      exact ⟨ho.symm, hv.ge, fun _ => by rw [hs]; exact Subset.refl _⟩
    · exact .refl row

section

variable (key : FileKey)

theorem leave (session : StreamSession) (id : Nat) :
    Follows w ((w.modify key (·.dropSession session) fun _ => rfl).close id) := by
  refine (modify w key (f := (·.dropSession session)) (fun _ => rfl) ?_).trans (of_states rfl rfl)
  intro r
  exact ⟨rfl, Nat.le_refl _, fun _ => erase_subset⟩

theorem drop : Follows w (w.drop key) := remove rfl rfl

theorem rollbackSession (id : Nat) : Follows w (w.rollbackSession key id) := by
  unfold StreamWorld.rollbackSession
  split
  · exact refl w
  split
  · exact refl w
  next session _ =>
  dsimp only
  split
  · exact (leave w key session id).trans (drop _ key)
  · exact leave w key session id

theorem ensureState (id : Nat) : Follows w (w.ensureState key id) := by
  unfold StreamWorld.ensureState
  split
  · exact refl w
  have hcases : ∀ k row', (w.states.put { key, object := w.nextObject, torrent := id }).find k
      = some row' → row'.object = w.nextObject ∨ w.states.find k = some row' := by
    intro k row' hrow'
    by_cases hk : k = key
    · subst hk
      rw [Table.find_put_self w.states { key := k, object := w.nextObject, torrent := id }] at hrow'
      cases hrow'
      exact .inl rfl
    · exact .inr ((Table.find_put_ne hk).symm.trans hrow')
  refine ⟨Nat.le_succ _, ?_, ?_⟩
  · intro hb k row' hrow'
    change row'.object < w.nextObject + 1
    rcases hcases k row' hrow' with hnew | hold
    · omega
    · have := hb k row' hold
      omega
  · intro k row' hrow' hlt
    rcases hcases k row' hrow' with hnew | hold
    · omega
    · exact ⟨row', hold, .refl row'⟩

theorem insertSession (options : StreamOptions)
    (preload : Bool) : Follows w (w.insertSession key options preload) := by
  refine (modify w key (f := (·.addSession ⟨w.nextSession + 1, options, preload⟩))
    (fun _ => rfl) ?_).trans (of_states rfl rfl)
  intro r
  refine ⟨rfl, Nat.le_succ _, ?_⟩
  intro heq
  exact absurd heq (Nat.ne_of_lt (Nat.lt_succ_self _))

theorem addSession (options : StreamOptions) (preload : Bool)
    (env : StreamEnv) : Follows w (w.addSession key options preload env) := by
  unfold StreamWorld.addSession
  split
  · exact refl w
  split
  · exact refl w
  next id _ _ =>
  split
  · exact refl w
  split
  · exact refl w
  have hadded : Follows w (((w.ensureState key id).insertSession key options preload).endContext
      env.ends) :=
    ((ensureState w key id).trans (insertSession _ key options preload)).trans (of_states rfl rfl)
  have hfresh := refreshed (((w.ensureState key id).insertSession key options preload).endContext
    env.ends) id env.complete
  unfold StreamWorld.refreshed at hfresh
  dsimp only
  split
  next w' hw' =>
    rw [hw'] at hfresh
    exact hadded.trans hfresh
  · exact hadded.trans (rollbackSession _ key _)

theorem scheduleDebounce : Follows w (w.scheduleDebounce key) := by
  unfold StreamWorld.scheduleDebounce
  split
  · exact refl w
  split
  · exact refl w
  refine (modify w key (f := StreamState.arm) (fun _ => rfl) ?_).trans (of_states rfl rfl)
  intro r
  exact ⟨rfl, Nat.le_succ _, fun _ => Subset.refl _⟩

theorem restoreBasePriorities (id : Nat) (env : StreamEnv) :
    Follows w (w.restoreBasePriorities id env) := by
  unfold StreamWorld.restoreBasePriorities
  split
  · exact of_states rfl rfl
  split
  · have hfault : Follows w ((w.setEligible id false).cancelPieces id) := of_states rfl rfl
    exact hfault.trans (refreshed _ id env.complete)
  · exact refreshed w id env.complete

theorem clearStreamOverlay (env : StreamEnv) : Follows w (w.clearStreamOverlay key env) := by
  unfold StreamWorld.clearStreamOverlay
  split
  · exact refl w
  next row _ =>
  split
  · exact refl w
  split
  · exact drop w key
  split
  · exact drop w key
  next id t _ =>
  split
  · exact drop w key
  have hlow : Follows (w.drop key) ((w.drop key).lower key id t row.appliedRanges) :=
    of_states rfl rfl
  exact ((drop w key).trans hlow).trans (restoreBasePriorities _ id env)

theorem removeSession (id : Nat) (debounce : Bool)
    (env : StreamEnv) : Follows w (w.removeSession key id debounce env) := by
  unfold StreamWorld.removeSession
  split
  · exact refl w
  next row _ =>
  split
  · exact refl w
  next session _ =>
  have hleave := leave w key session id
  dsimp only
  split
  · exact hleave.trans (refreshed _ row.torrent env.complete)
  split
  · exact hleave.trans (scheduleDebounce _ key)
  · exact hleave.trans (clearStreamOverlay _ key env)

theorem removeStream (id : Nat) (env : StreamEnv) : Follows w (w.removeStream key id env) := by
  unfold StreamWorld.removeStream
  split
  · exact refl w
  split
  · exact removeSession w key id true env
  split
  · have hless := modify w key
      (f := fun r => { r with activeStreams := max 0 (r.activeStreams - 1) })
      (fun _ => rfl) fun r => ⟨rfl, Nat.le_refl _, fun _ => Subset.refl _⟩
    dsimp only
    split
    · exact hless.trans (scheduleDebounce _ key)
    · exact hless
  · exact refl w

end

theorem expireDebounce (i : Nat) (env : StreamEnv) : Follows w (w.expireDebounce i env) := by
  unfold StreamWorld.expireDebounce
  split
  · exact refl w
  split
  · exact refl w
  split
  · exact clearStreamOverlay w _ env
  · exact refl w

theorem setPolicy (hash : String) (eligible cancel again : Bool)
    (env : StreamEnv) : Follows w (w.setPolicy hash eligible cancel again env) := by
  unfold StreamWorld.setPolicy
  split
  · exact refl w
  next id _ =>
  have hchanged : Follows w (if cancel then (w.setEligible id eligible).cancelPieces id
      else w.setEligible id eligible) := by
    split <;> exact of_states rfl rfl
  dsimp only
  split
  · exact hchanged.trans (refreshed _ id env.complete)
  · exact hchanged

theorem step (a : StreamAction) : Follows w (w.step a) := by
  cases a with
  | register t eligible =>
    simp only [StreamWorld.step, StreamWorld.register]
    split
    · exact refl w
    · exact of_states rfl rfl
  | setPolicy hash eligible cancel again env => exact setPolicy w hash eligible cancel again env
  | addSession key options preload env => exact addSession w key options preload env
  | removeSession key id debounce env => exact removeSession w key id debounce env
  | removeStream key id env => exact removeStream w key id env
  | expireDebounce i env => exact expireDebounce w i env
  | refreshStreamOverlay key env =>
    simp only [StreamWorld.step]
    split
    · exact refl w
    · exact refreshed w _ env.complete
  | delete hash =>
    simp only [StreamWorld.step, StreamWorld.delete]
    split
    · exact refl w
    · exact remove rfl rfl
  | beginShutdown | closeEngine => exact of_states rfl rfl
  | closeAllStreams => exact remove rfl rfl

theorem exec (as : List StreamAction) : Follows w (Lib.exec StreamWorld.step w as) := by
  induction as generalizing w with
  | nil => exact refl w
  | cons a rest ih =>
    rw [exec_cons]
    exact (step w a).trans (ih (w.step a))

end

end Follows

theorem steady {cs : List StreamAction} (hb : w.Bounded) (hrow : w.states.find key = some row)
    (hrow' : (exec step w cs).states.find key = some row') (hobject : row'.object = row.object)
    (hversion : row'.timerVersion = row.timerVersion) {cs₁ cs₂ : List StreamAction}
    {b : StreamAction} (hcs : cs = cs₁ ++ b :: cs₂) :
    ∃ r r', (exec step w cs₁).states.find key = some r ∧
      ((exec step w cs₁).step b).states.find key = some r' ∧
      r.object = row.object ∧ r'.object = row.object ∧ r'.sessions ⊆ r.sessions := by
  have hfirst := Follows.exec w cs₁
  have hstep := Follows.step (exec step w cs₁) b
  have hlast := Follows.exec ((exec step w cs₁).step b) cs₂
  rw [hcs, exec_append, exec_cons] at hrow'
  have hold := hb key row hrow
  have hlt₁ := hfirst.objects
  have hlt₂ := hstep.objects
  obtain ⟨r', hr', ho', hv', -⟩ := hlast.states key row' hrow' (by omega)
  obtain ⟨r, hr, ho, hv, hsub⟩ := hstep.states key r' hr' (by omega)
  obtain ⟨r₀, hr₀, ho₀, hv₀, -⟩ := hfirst.states key r hr (by omega)
  rw [hrow] at hr₀
  cases hr₀
  exact ⟨r, r', hr, hr', by omega, by omega, hsub (by omega)⟩

def Open (w : StreamWorld) : Prop := w.engineClosed = false ∧ w.closed = false

def Stays (w w' : StreamWorld) : Prop := w'.timers = w.timers ∧ (w'.Open → w.Open)

theorem Stays.trans (h : Stays w w') (h' : Stays w' w'') : Stays w w'' :=
  ⟨h'.1.trans h.1, h.2 ∘ h'.2⟩

section

variable (w : StreamWorld)

theorem refreshed_stays (id : Nat) (complete : Nat → Bool) : Stays w (w.refreshed id complete) := by
  unfold refreshed refresh
  repeat' split
  all_goals exact ⟨rfl, fun h => h⟩

theorem restoreBasePriorities_stays (id : Nat) (env : StreamEnv) :
    Stays w (w.restoreBasePriorities id env) := by
  unfold restoreBasePriorities
  split
  · exact ⟨rfl, fun h => h⟩
  split
  · exact refreshed_stays ((w.setEligible id false).cancelPieces id) id env.complete
  · exact refreshed_stays w id env.complete

theorem clearStreamOverlay_stays (key : FileKey) (env : StreamEnv) :
    Stays w (w.clearStreamOverlay key env) := by
  unfold clearStreamOverlay
  split
  · exact ⟨rfl, id⟩
  next row _ =>
  split
  · exact ⟨rfl, id⟩
  split
  · exact ⟨rfl, id⟩
  split
  · exact ⟨rfl, id⟩
  next id t _ =>
  split
  · exact ⟨rfl, fun h => h⟩
  · exact restoreBasePriorities_stays ((w.drop key).lower key id t row.appliedRanges) id env

theorem rollbackSession_stays (key : FileKey) (id : Nat) : Stays w (w.rollbackSession key id) := by
  unfold rollbackSession
  split
  · exact ⟨rfl, fun h => h⟩
  split
  · exact ⟨rfl, fun h => h⟩
  dsimp only
  split <;> exact ⟨rfl, fun h => h⟩

theorem endContext_stays (ends : Bool) : Stays w (w.endContext ends) := by
  refine ⟨rfl, fun h => ⟨?_, h.2⟩⟩
  exact (Bool.or_eq_false_iff.1 h.1).1

theorem addSession_stays (key : FileKey) (options : StreamOptions)
    (preload : Bool) (env : StreamEnv) : Stays w (w.addSession key options preload env) := by
  unfold addSession
  split
  · exact ⟨rfl, id⟩
  split
  · exact ⟨rfl, id⟩
  next id _ _ =>
  split
  · exact ⟨rfl, fun h => h⟩
  split
  · exact ⟨rfl, fun h => h⟩
  have hinserted : Stays w ((w.ensureState key id).insertSession key options preload) := by
    unfold ensureState
    split <;> exact ⟨rfl, fun h => h⟩
  have hadded := hinserted.trans (endContext_stays _ env.ends)
  have hfresh := refreshed_stays
    (((w.ensureState key id).insertSession key options preload).endContext env.ends) id env.complete
  unfold refreshed at hfresh
  dsimp only
  split
  next w' hw' =>
    rw [hw'] at hfresh
    exact hadded.trans hfresh
  · exact hadded.trans (rollbackSession_stays _ key _)

end

def Arms (w w' : StreamWorld) : Prop :=
  w'.timers = w.timers ∨ ∃ timer row', w'.timers = timer :: w.timers ∧
    w'.states.find timer.key = some row' ∧ row'.object = timer.object ∧
    row'.timerVersion = timer.version

def Starts (w w' : StreamWorld) : Prop := Arms w w' ∧ (w'.Open → w.Open)

theorem Stays.starts (h : Stays w w') : Starts w w' := ⟨.inl h.1, h.2⟩

section

variable (w : StreamWorld)

theorem scheduleDebounce_starts (key : FileKey) : Starts w (w.scheduleDebounce key) := by
  unfold scheduleDebounce
  split
  · exact ⟨.inl rfl, id⟩
  next row hrow =>
  split
  · exact ⟨.inl rfl, id⟩
  refine ⟨.inr ⟨_, row.arm, rfl, ?_, rfl, rfl⟩, id⟩
  refine (find_modify w key StreamState.arm (fun _ => rfl) key).trans ?_
  rw [if_pos rfl, hrow]
  rfl

theorem removeSession_starts (key : FileKey) (id : Nat) (debounce : Bool)
    (env : StreamEnv) : Starts w (w.removeSession key id debounce env) := by
  unfold removeSession
  split
  · exact ⟨.inl rfl, fun h => h⟩
  next row _ =>
  split
  · exact ⟨.inl rfl, fun h => h⟩
  next session _ =>
  have hleave : Stays w ((w.modify key (·.dropSession session) fun _ => rfl).close id) :=
    ⟨rfl, fun h => h⟩
  dsimp only
  split
  · exact (hleave.trans (refreshed_stays _ row.torrent env.complete)).starts
  split
  · exact scheduleDebounce_starts ((w.modify key (·.dropSession session) fun _ => rfl).close id) key
  · exact (hleave.trans (clearStreamOverlay_stays _ key env)).starts

theorem removeStream_starts (key : FileKey) (id : Nat) (env : StreamEnv) :
    Starts w (w.removeStream key id env) := by
  unfold removeStream
  split
  · exact ⟨.inl rfl, fun h => h⟩
  split
  · exact removeSession_starts w key id true env
  split
  · dsimp only
    split
    · exact scheduleDebounce_starts (w.modify key _ _) key
    · exact ⟨.inl rfl, fun h => h⟩
  · exact ⟨.inl rfl, fun h => h⟩

theorem step_starts (a : StreamAction) : Starts w (w.step a) := by
  cases a with
  | register t eligible =>
    simp only [step, register]
    split <;> exact ⟨.inl rfl, id⟩
  | setPolicy hash eligible cancel again env =>
    refine Stays.starts ?_
    simp only [step, setPolicy]
    split
    · exact ⟨rfl, id⟩
    next id _ =>
    have hchanged : Stays w (if cancel then (w.setEligible id eligible).cancelPieces id
        else w.setEligible id eligible) := by
      split <;> exact ⟨rfl, fun h => h⟩
    split
    · exact hchanged.trans (refreshed_stays _ id env.complete)
    · exact hchanged
  | addSession key options preload env => exact (addSession_stays w key options preload env).starts
  | removeSession key id debounce env => exact removeSession_starts w key id debounce env
  | removeStream key id env => exact removeStream_starts w key id env
  | expireDebounce i env =>
    refine Stays.starts ?_
    simp only [step, expireDebounce]
    repeat' split
    all_goals first | exact ⟨rfl, id⟩ | exact clearStreamOverlay_stays w _ env
  | refreshStreamOverlay key env =>
    refine Stays.starts ?_
    simp only [step]
    split
    · exact ⟨rfl, id⟩
    · exact refreshed_stays w _ env.complete
  | delete hash =>
    simp only [step, delete]
    split <;> exact ⟨.inl rfl, id⟩
  | beginShutdown => exact (endContext_stays w true).starts
  | closeEngine => exact ⟨.inl rfl, fun h => by cases h.1⟩
  | closeAllStreams => exact ⟨.inl rfl, fun h => by cases h.2⟩

end

section

variable (streamCacheSize : Int) (as : List StreamAction)

theorem run_concat (a : StreamAction) :
    run streamCacheSize (as ++ [a]) = (run streamCacheSize as).step a := by
  rw [run, exec_append, exec_cons, exec_nil, run]

theorem bounded_run : (run streamCacheSize as).Bounded := by
  refine (Follows.exec { streamCacheSize } as).bounded ?_
  intro k row hrow
  cases hrow

theorem armed_before {timer : DebounceTimer}
    (ht : timer ∈ (run streamCacheSize as).timers) : ∃ bs a cs row, as = bs ++ a :: cs ∧
      (run streamCacheSize (bs ++ [a])).timers = timer :: (run streamCacheSize bs).timers ∧
      (run streamCacheSize (bs ++ [a])).states.find timer.key = some row ∧
      row.object = timer.object ∧ row.timerVersion = timer.version := by
  induction as using reverseRecOn with
  | nil => cases ht
  | append_singleton as a ih =>
    have harms := (step_starts (run streamCacheSize as) a).1
    rw [← run_concat] at harms
    have hearlier : timer ∈ (run streamCacheSize as).timers → ∃ bs b cs row,
        as ++ [a] = bs ++ b :: cs ∧
        (run streamCacheSize (bs ++ [b])).timers = timer :: (run streamCacheSize bs).timers ∧
        (run streamCacheSize (bs ++ [b])).states.find timer.key = some row ∧
        row.object = timer.object ∧ row.timerVersion = timer.version := by
      intro hmem
      obtain ⟨bs, b, cs, row, rfl, hrest⟩ := ih hmem
      exact ⟨bs, b, cs ++ [a], row, by rw [append_assoc, cons_append], hrest⟩
    rcases harms with hsame | ⟨timer', row, hnew, hrow, hobject, hversion⟩
    · rw [hsame] at ht
      exact hearlier ht
    rw [hnew] at ht
    rcases mem_cons.1 ht with rfl | ht
    · exact ⟨as, a, [], row, rfl, hnew, hrow, hobject, hversion⟩
    · exact hearlier ht

end

theorem refreshed_isSome (w : StreamWorld) (id : Nat) (complete : Nat → Bool) (k : FileKey) :
    ((w.refreshed id complete).states.find k).isSome = (w.states.find k).isSome := by
  unfold refreshed
  cases hr : w.refresh id complete with
  | none => rfl
  | some w' =>
    obtain ⟨t, -, hfind⟩ := find_refresh hr
    rw [getD_some, hfind, isSome_map]

theorem restoreBasePriorities_isSome (w : StreamWorld) (id : Nat) (env : StreamEnv) (k : FileKey) :
    ((w.restoreBasePriorities id env).states.find k).isSome = (w.states.find k).isSome := by
  unfold restoreBasePriorities
  split
  · rfl
  split
  · exact refreshed_isSome _ id env.complete k
  · exact refreshed_isSome w id env.complete k

theorem clearStreamOverlay_ne (w : StreamWorld) (key : FileKey) (env : StreamEnv) {k : FileKey}
    (hne : k ≠ key) :
    ((w.clearStreamOverlay key env).states.find k).isSome = (w.states.find k).isSome := by
  have hdrop : ((w.drop key).states.find k).isSome = (w.states.find k).isSome := by
    rw [find_drop, if_neg hne]
  unfold clearStreamOverlay
  split
  · rfl
  split
  · rfl
  split
  · exact hdrop
  split
  · exact hdrop
  split
  · exact hdrop
  · exact (restoreBasePriorities_isSome _ _ env k).trans hdrop

theorem expired (streamCacheSize : Int) (as : List StreamAction) (i : Nat) (env : StreamEnv)
    (hrow : (run streamCacheSize as).states.find key = some row)
    (hgone : ((run streamCacheSize as).expireDebounce i env).states.find key = none) :
    ∃ timer, (run streamCacheSize as).timers[i]? = some timer ∧ timer.key = key ∧
      row.object = timer.object ∧ row.sessions = [] ∧ ∃ bs a cs, as = bs ++ a :: cs ∧
        (run streamCacheSize (bs ++ [a])).timers = timer :: (run streamCacheSize bs).timers ∧
        ∀ cs₁ b cs₂, cs = cs₁ ++ b :: cs₂ →
          ∃ r r', (run streamCacheSize (bs ++ a :: cs₁)).states.find key = some r ∧
            (run streamCacheSize (bs ++ a :: cs₁ ++ [b])).states.find key = some r' ∧
            r.object = timer.object ∧ r'.object = timer.object ∧ r'.sessions ⊆ r.sessions := by
  have hstays : (run streamCacheSize as).states.find key ≠ none := by
    rw [hrow]
    nofun
  unfold expireDebounce at hgone
  split at hgone
  · exact absurd hgone hstays
  next timer htimer =>
  split at hgone
  · exact absurd hgone hstays
  next found hfound =>
  split at hgone
  next hvalid =>
    simp only [Bool.and_eq_true, Bool.not_eq_true', beq_iff_eq] at hvalid
    obtain ⟨⟨⟨-, hobject⟩, hversion⟩, hunused⟩ := hvalid
    have hkey : timer.key = key := by
      by_contra hne
      have hsome := clearStreamOverlay_ne (run streamCacheSize as) timer.key env (Ne.symm hne)
      rw [hgone, hrow] at hsome
      cases hsome
    rw [hkey, hrow] at hfound
    cases hfound
    have hempty := ((Accounted.run streamCacheSize as).balanced key row hrow).sessions_of_unused
      hunused
    obtain ⟨bs, a, cs, armed, rfl, harmed, hfirst, hobject₀, hversion₀⟩ :=
      armed_before streamCacheSize as (mem_of_getElem? htimer)
    refine ⟨timer, htimer, hkey, hobject, hempty, bs, a, cs, rfl, harmed, ?_⟩
    intro cs₁ b cs₂ hcs
    have hsplit : ∀ ds, run streamCacheSize (bs ++ a :: ds)
        = exec step (run streamCacheSize (bs ++ [a])) ds := by
      intro ds
      rw [run, run, ← exec_append, append_assoc, singleton_append]
    rw [hkey] at hfirst
    rw [hsplit] at hrow
    obtain ⟨r, r', hr, hr', ho, ho', hsub⟩ := steady (bounded_run streamCacheSize _) hfirst
      hrow (hobject.trans hobject₀.symm) (hversion.trans hversion₀.symm) hcs
    refine ⟨r, r', ?_, ?_, ho.trans hobject₀, ho'.trans hobject₀, hsub⟩
    · rw [hsplit]
      exact hr
    · rw [run_concat, hsplit]
      exact hr'
  · exact absurd hgone hstays

end StreamWorld

end TorrentHub
