import TorrentHub.Engine.Overlay

namespace TorrentHub

open Lib Span

namespace StreamWorld

variable {w w' : StreamWorld} {key : FileKey}

theorem overlaid_init (streamCacheSize : Int) : Overlaid { streamCacheSize } := by
  refine ⟨⟨?_, ?_, ?_⟩, ?_⟩
  · nofun
  · nofun
  · nofun
  · intro id
    refine ⟨?_, ?_⟩
    · nofun
    intro p
    refine ⟨?_, ?_⟩
    · nofun
    · rintro ⟨k, row, hrow, -⟩
      cases hrow

theorem overlaid_run (streamCacheSize : Int) (as : List StreamAction)
    (hopen : (run streamCacheSize as).Open) : (run streamCacheSize as).Overlaid := by
  induction as using List.reverseRecOn with
  | nil => exact overlaid_init streamCacheSize
  | append_singleton as a ih =>
    rw [run_concat] at hopen ⊢
    have hbefore := (step_starts _ a).2 hopen
    exact ((ih hbefore).step hbefore a hopen).1

def InTable (w : StreamWorld) (id : Nat) : Prop :=
  ∃ k row, w.states.find k = some row ∧ ∃ s ∈ row.sessions, s.id = id

theorem total_pos_iff (w : StreamWorld) (id : Nat) :
    0 < w.states.total (·.channels id) ↔ w.InTable id := by
  unfold Table.total InTable StreamState.channels
  rw [List.sum_pos_iff_exists_pos_nat]
  constructor
  · rintro ⟨n, hn, hpos⟩
    obtain ⟨row, hrow, rfl⟩ := List.mem_map.1 hn
    obtain ⟨s, hs, hid⟩ := List.countP_pos_iff.1 hpos
    exact ⟨row.key, row, Table.find_of_mem hrow, s, hs, by simpa using hid⟩
  · rintro ⟨k, row, hrow, s, hs, hid⟩
    refine ⟨_, List.mem_map_of_mem (Table.find_mem hrow), ?_⟩
    exact List.countP_pos_iff.2 ⟨s, hs, by simpa using hid⟩

theorem Accounted.closed_once (h : w.Accounted) {id : Nat} (hpos : 0 < id)
    (hmade : id ≤ w.nextSession) :
    (w.InTable id → w.closes id = 0) ∧ (¬ w.InTable id → w.closes id = 1) := by
  have hsum := h.channels id
  rw [if_pos ⟨hpos, hmade⟩] at hsum
  rw [← total_pos_iff]
  omega

/-- The torrent has its payload, the file was not complete at the last refresh, and a session that
does not only count asks for the piece. -/
def Needed (w : StreamWorld) (id : Nat) (p : Int) : Prop :=
  ∃ k row t file session, w.states.find k = some row ∧ row.torrent = id ∧
    w.eligible id = true ∧ row.fullyDownloaded = false ∧ w.torrents[id]? = some t ∧
    t.files[k.index]? = some file ∧ session ∈ row.sessions ∧
    Covers (w.sessionRanges t file session) p

theorem not_needed_of_lowered (h : w'.Overlaid) (hlow : Lowers w w') {id : Nat} {p : Int}
    (hbefore : w.high id p = true) (hafter : w'.high id p = false) : ¬ w'.Needed id p := by
  rintro ⟨k, row, t, file, session, hrow, hid, he, hfull, ht, hfile, hs, hp⟩
  rcases hlow id with hkept | hfresh
  · rw [hkept p hbefore] at hafter
    cases hafter
  have hcovers := hfresh k row t file session hrow hid he hfull ht hfile hs p hp
  rw [((h.exact id).high p).2 ⟨k, row, hrow, hid, hcovers⟩] at hafter
  cases hafter

/-- Sessions, channels, debounce timers and the overlay over whole runs. -/
theorem streams_exact (streamCacheSize : Int) (as : List StreamAction) :
    let w := run streamCacheSize as
    (∀ key row, w.states.find key = some row →
      row.activeStreams = row.sessions.countP (fun s => !s.preload) ∧
      row.activePreloads = row.sessions.countP (fun s => s.preload)) ∧
    (∀ id, 0 < id → id ≤ w.nextSession →
      (w.InTable id → w.closes id = 0) ∧ (¬ w.InTable id → w.closes id = 1)) ∧
    (∀ i env key row, w.states.find key = some row →
      (w.expireDebounce i env).states.find key = none →
      ∃ timer, w.timers[i]? = some timer ∧ timer.key = key ∧
        row.object = timer.object ∧ row.sessions = [] ∧
        ∃ bs a cs, as = bs ++ a :: cs ∧
          (run streamCacheSize (bs ++ [a])).timers = timer :: (run streamCacheSize bs).timers ∧
          ∀ cs₁ b cs₂, cs = cs₁ ++ b :: cs₂ →
            ∃ r r', (run streamCacheSize (bs ++ a :: cs₁)).states.find key = some r ∧
              (run streamCacheSize (bs ++ a :: cs₁ ++ [b])).states.find key = some r' ∧
              r.object = timer.object ∧ r'.object = timer.object ∧
              r'.sessions ⊆ r.sessions) ∧
    (w.Open → ∀ id p, w.high id p = true ↔ w.Applied id p) ∧
    ∀ a, (w.step a).Open → ∀ id p, w.high id p = true → (w.step a).high id p = false →
      ¬ (w.step a).Applied id p ∧ ¬ (w.step a).Needed id p := by
  have hacc := Accounted.run streamCacheSize as
  refine ⟨hacc.balanced, ?_, ?_, ?_, ?_⟩
  · intro id hpos hmade
    exact hacc.closed_once hpos hmade
  · intro i env key row hrow hgone
    exact expired streamCacheSize as i env hrow hgone
  · intro hopen id p
    exact ((overlaid_run streamCacheSize as hopen).exact id).high p
  · intro a hopen id p hbefore hafter
    have hopen' := (step_starts _ a).2 hopen
    obtain ⟨hover, hlow⟩ := (overlaid_run streamCacheSize as hopen').step hopen' a hopen
    refine ⟨?_, not_needed_of_lowered hover hlow hbefore hafter⟩
    intro happ
    rw [((hover.exact id).high p).2 happ] at hafter
    cases hafter

/-- Two files with a piece in common. A session on the first asks for its head; the context ends
while one on the second is added. -/
def sharedPiece : StreamTorrent :=
  ⟨"a", [⟨0, 3, 0, 2, "x"⟩, ⟨3, 1, 1, 2, "y"⟩], 2, 2, by decide⟩

def sharedRun (ends : Bool) : List StreamAction :=
  let env : StreamEnv := ⟨fun _ => false, true, false, false⟩
  [.register sharedPiece true, .addSession ⟨"a", 0⟩ ⟨3, 3, false⟩ false env] ++
    if ends then [.addSession ⟨"a", 1⟩ ⟨0, 1, false⟩ true { env with ends }] else []

theorem streams_exact_sharedRun :
    ((run 0 (sharedRun false)).high 0 1 = true ∧ (run 0 (sharedRun false)).Applied 0 1) ∧
      (run 0 (sharedRun true)).nextSession = 2 ∧ ¬ (run 0 (sharedRun true)).InTable 2 ∧
      (run 0 (sharedRun true)).closes 2 = 1 := by
  have hhigh : (run 0 (sharedRun false)).high 0 1 = true := by decide +kernel
  have hopen : (run 0 (sharedRun false)).Open := by
    unfold Open
    decide +kernel
  have hgone : ¬ (run 0 (sharedRun true)).InTable 2 := by
    rw [← total_pos_iff]
    decide +kernel
  have hnext : (run 0 (sharedRun true)).nextSession = 2 := by decide +kernel
  refine ⟨⟨hhigh, ?_⟩, hnext, hgone, ?_⟩
  · exact ((streams_exact 0 (sharedRun false)).2.2.2.1 hopen 0 1).1 hhigh
  · exact ((streams_exact 0 (sharedRun true)).2.1 2 (by decide) (Nat.le_of_eq hnext.symm)).2 hgone

end StreamWorld

end TorrentHub
