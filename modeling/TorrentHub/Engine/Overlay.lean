import TorrentHub.Engine.Debounce

namespace TorrentHub

open Lib Span Function Option Bool Table StreamWorld List

namespace StreamFileBounds

variable {bounds : StreamFileBounds} {p : Int}

variable {pieceLength : Int}

theorem region_inside {relOffset size : Int} {r : PieceRange}
    (h : bounds.streamByteRegionPieces pieceLength relOffset size = some r) :
    bounds.beginPiece ≤ r.first ∧ r.stop ≤ bounds.endPiece := by
  unfold streamByteRegionPieces at h
  simp only [ite_none_left_eq_some, some.injEq] at h
  obtain ⟨-, -, rfl⟩ := h
  exact ⟨le_max_right _ _, min_le_right _ _⟩

theorem compute_inside {streamCacheSize : Int} {opts : StreamOptions}
    (h : Covers (bounds.computeStreamPieceRangesForBounds pieceLength streamCacheSize opts) p) :
    bounds.beginPiece ≤ p ∧ p < bounds.endPiece := by
  unfold computeStreamPieceRangesForBounds at h
  split at h
  · exact absurd h covers_nil
  rw [covers_merge, covers_append, covers_append] at h
  rcases h with (⟨r, hr, hp⟩ | ⟨r, hr, hp⟩) | ⟨r, hr, hp⟩
  · have hin := region_inside (mem_toList.1 hr)
    exact ⟨hin.1.trans hp.1, hp.2.trans_le hin.2⟩
  · unfold tailRanges at hr
    split at hr
    · obtain rfl := mem_singleton.1 hr
      exact ⟨(le_max_right _ _).trans hp.1, hp.2⟩
    · cases hr
  · unfold playRanges at hr
    dsimp only at hr
    split at hr
    · cases hr
    split at hr
    · cases hr
    next region hregion =>
    obtain rfl := mem_singleton.1 hr
    exact ⟨(le_max_right _ _).trans hp.1, hp.2.trans_le (region_inside hregion).2⟩

end StreamFileBounds

namespace StreamWorld

variable {w w' : StreamWorld} {key : FileKey} {row : StreamState} {id : Nat}

variable {hash : String} {t : StreamTorrent} {complete : Nat → Bool} {p : Int}

theorem cancelPieces_high (w : StreamWorld) (id : Nat) (p : Int) :
    (w.cancelPieces id).high id p = false := by
  simp [cancelPieces, setHigh]

def Applied (w : StreamWorld) (id : Nat) (p : Int) : Prop :=
  ∃ k row, w.states.find k = some row ∧ row.torrent = id ∧ Covers row.appliedRanges p

structure Placed (w : StreamWorld) : Prop where
  known : ∀ h id, w.managed h = some id → ∃ t, w.torrents[id]? = some t ∧ t.hash = h
  owned : ∀ k row, w.states.find k = some row → w.managed k.hash = some row.torrent ∧
    ∃ t, w.torrents[row.torrent]? = some t ∧ k.index < t.files.length
  inside : ∀ k row t p, w.states.find k = some row → w.torrents[row.torrent]? = some t →
    Covers row.appliedRanges p → 0 ≤ p ∧ p < t.numPieces

/-- High are exactly the pieces of the applied ranges, and none of a torrent without payload. -/
structure Exact (w : StreamWorld) (id : Nat) : Prop where
  idle : ∀ k row, w.states.find k = some row → row.torrent = id → w.eligible id = false →
    row.appliedRanges = []
  high : ∀ p, w.high id p = true ↔ w.Applied id p

structure Overlaid (w : StreamWorld) : Prop where
  placed : w.Placed
  exact : ∀ id, w.Exact id

theorem Placed.unique (h : w.Placed) {h₁ h₂ : String} (h1 : w.managed h₁ = some id)
    (h2 : w.managed h₂ = some id) : h₁ = h₂ := by
  obtain ⟨t, ht, rfl⟩ := h.known h₁ id h1
  obtain ⟨t', ht', rfl⟩ := h.known h₂ id h2
  rw [ht] at ht'
  cases ht'
  rfl

theorem Placed.current (h : w.Placed) (hopen : w.Open) (hm : w.managed hash = some id) :
    ∃ t, w.torrents[id]? = some t ∧ t.hash = hash ∧ w.currentTorrent id = some t := by
  obtain ⟨t, ht, hhash⟩ := h.known hash id hm
  refine ⟨t, ht, hhash, ?_⟩
  simp [currentTorrent, ht, hhash, hm, hopen.1]

theorem Placed.congr (h : w.Placed) (hs : w'.states = w.states) (hm : w'.managed = w.managed)
    (ht : w'.torrents = w.torrents) : w'.Placed := by
  refine ⟨?_, ?_, ?_⟩
  · rw [hm, ht]
    exact h.known
  · rw [hs, hm, ht]
    exact h.owned
  · rw [hs, ht]
    exact h.inside

theorem Exact.congr (h : w.Exact id) (hs : w'.states = w.states)
    (he : w'.eligible id = w.eligible id) (hh : w'.high id = w.high id) : w'.Exact id := by
  refine ⟨?_, ?_⟩
  · rw [hs, he]
    exact h.idle
  rw [hh]
  unfold Applied
  rw [hs]
  exact h.high

theorem covers_rangesOf (states : StreamTable) (q : StreamState → Bool) (p : Int) :
    Covers (Span.merge (rangesOf states q)) p ↔
      ∃ k row, states.find k = some row ∧ q row = true ∧ Covers row.appliedRanges p := by
  rw [covers_merge, rangesOf, covers_flatMap]
  constructor
  · rintro ⟨row, hrow, hp⟩
    obtain ⟨hmem, hq⟩ := mem_filter.1 hrow
    exact ⟨row.key, row, find_of_mem hmem, hq, hp⟩
  · rintro ⟨k, row, hrow, hq, hp⟩
    exact ⟨row, mem_filter.2 ⟨find_mem hrow, hq⟩, hp⟩

/-- The sessions of a torrent with payload have their pieces in the applied ranges, if the file was
not complete at the last refresh. -/
def Fresh (w : StreamWorld) (id : Nat) : Prop :=
  ∀ k row t file session, w.states.find k = some row → row.torrent = id →
    w.eligible id = true → row.fullyDownloaded = false → w.torrents[id]? = some t →
    t.files[k.index]? = some file → session ∈ row.sessions →
    ∀ p, Covers (w.sessionRanges t file session) p → Covers row.appliedRanges p

theorem refreshState_inside (h : w.Placed) (ht : w.torrents[id]? = some t)
    (hrow : w.states.find key = some row) (hid : row.torrent = id)
    (hp : Covers (w.refreshState t id complete row).appliedRanges p) : 0 ≤ p ∧ p < t.numPieces := by
  unfold refreshState at hp
  split at hp
  next file _ hfile =>
    dsimp only at hp
    rw [covers_merge] at hp
    split at hp
    · exact absurd hp covers_nil
    rw [covers_append, covers_flatMap] at hp
    rcases hp with hp | ⟨session, -, hp⟩
    · split at hp
      · exact h.inside key row t p hrow (by rw [hid, ht]) hp
      · exact absurd hp covers_nil
    unfold sessionRanges at hp
    split at hp
    · exact absurd hp covers_nil
    have hin := StreamFileBounds.compute_inside hp
    have hfile := t.inside file (mem_of_getElem? hfile)
    omega
  · exact absurd hp covers_nil

theorem refreshState_fresh (he : w.eligible id = true) (hfile : t.files[row.key.index]? = some file)
    (hfull : (w.refreshState t id complete row).fullyDownloaded = false)
    (hs : session ∈ row.sessions) (hp : Covers (w.sessionRanges t file session) p) :
    Covers (w.refreshState t id complete row).appliedRanges p := by
  unfold refreshState at hfull ⊢
  simp only [he, hfile] at hfull ⊢
  rw [covers_merge, hfull]
  simp only [false_eq_true, if_false]
  rw [covers_append, covers_flatMap]
  exact .inr ⟨session, hs, hp⟩

theorem refreshState_idle
    (he : w.eligible id = false) : (w.refreshState t id complete row).appliedRanges = [] := by
  unfold refreshState
  simp only [he]

theorem refreshed_overlaid (h : w.Placed) (hopen : w.Open)
    (hm : w.managed hash = some id) (hbelow : ∀ p, w.high id p = true → w.Applied id p)
    (hothers : ∀ i, i ≠ id → w.Exact i) (complete : Nat → Bool) :
    (w.refreshed id complete).Overlaid ∧ (w.refreshed id complete).Fresh id ∧
      (w.refreshed id complete).Open ∧ (∀ i, i ≠ id → (w.refreshed id complete).high i = w.high i) ∧
      (w.refreshed id complete).managed = w.managed := by
  obtain ⟨t, ht, hhash, hcurrent⟩ := h.current hopen hm
  obtain ⟨w', hw'⟩ : ∃ w', w.refresh id complete = some w' := by
    simp [refresh, hcurrent, hopen.2]
  have hfind : ∀ k, w'.states.find k = (w.states.find k).map fun r =>
      if ofTorrent t.hash id r then w.refreshState t id complete r else r := by
    obtain ⟨t', ht', hf⟩ := find_refresh hw'
    rw [hcurrent] at ht'
    cases ht'
    exact hf
  have hsame : w'.managed = w.managed ∧ w'.torrents = w.torrents ∧ w'.eligible = w.eligible ∧
      w'.streamCacheSize = w.streamCacheSize ∧ w'.engineClosed = w.engineClosed ∧
      w'.closed = w.closed ∧ (∀ i, i ≠ id → w'.high i = w.high i) ∧
      ∀ p, w'.high id p = if Covers (merge (rangesOf w'.states (ofTorrent t.hash id))) p then true
        else if Covers (merge (rangesOf w.states (ofTorrent t.hash id))) p then false
        else w.high id p := by
    unfold refresh at hw'
    simp only [hcurrent, hopen.2, false_eq_true, if_false, some.injEq] at hw'
    subst hw'
    refine ⟨rfl, rfl, rfl, rfl, rfl, hopen.2.symm, ?_, ?_⟩
    · intro i hi
      exact update_of_ne hi _ _
    · intro p
      exact congrFun (update_self id _ w.high) p
  obtain ⟨hmanaged, htorrents, heligible, hcache, hengine, hclosed, hhigh, hhighid⟩ := hsame
  have hof : ∀ k r, w.states.find k = some r → (ofTorrent t.hash id r = true ↔ r.torrent = id) := by
    intro k r hr
    have hk : r.key = k := find_key hr
    constructor
    · intro hq
      simp only [ofTorrent, and_eq_true, beq_iff_eq] at hq
      exact hq.2
    intro hid
    have hown := (h.owned k r hr).1
    rw [hid] at hown
    simp [ofTorrent, hk, hid, hhash, h.unique hown hm]
  have hrows : ∀ k r', w'.states.find k = some r' → ∃ r, w.states.find k = some r ∧
      r'.torrent = r.torrent ∧ (r.torrent = id → r' = w.refreshState t id complete r) ∧
      (r.torrent ≠ id → r' = r) := by
    intro k r' hr'
    rw [hfind, map_eq_some_iff] at hr'
    obtain ⟨r, hr, rfl⟩ := hr'
    refine ⟨r, hr, ?_, ?_, ?_⟩
    · split
      · exact (refreshState_sessions w t id complete r).2.2.2.2.1
      · rfl
    · intro hid
      rw [if_pos ((hof k r hr).2 hid)]
    · intro hid
      rw [if_neg fun hq => hid ((hof k r hr).1 hq)]
  have hkept : ∀ k r, w.states.find k = some r → r.torrent ≠ id → w'.states.find k = some r := by
    intro k r hr hid
    rw [hfind, hr, map_some, if_neg fun hq => hid ((hof k r hr).1 hq)]
  have hnewof : ∀ k r', w'.states.find k = some r' →
      (ofTorrent t.hash id r' = true ↔ r'.torrent = id) := by
    intro k r' hr'
    obtain ⟨r, hr, htor, -⟩ := hrows k r' hr'
    have hk : r'.key = k := find_key hr'
    have hk' : r.key = k := find_key hr
    rw [show ofTorrent t.hash id r' = ofTorrent t.hash id r by
      simp [ofTorrent, hk, hk', htor], htor]
    exact hof k r hr
  have hget : w.refreshed id complete = w' := by
    rw [refreshed, hw', getD_some]
  rw [hget]
  refine ⟨⟨⟨?_, ?_, ?_⟩, ?_⟩, ?_, ⟨hengine.trans hopen.1, hclosed.trans hopen.2⟩, hhigh, hmanaged⟩
  · rw [hmanaged, htorrents]
    exact h.known
  · intro k r' hr'
    obtain ⟨r, hr, htor, -⟩ := hrows k r' hr'
    rw [hmanaged, htorrents, htor]
    exact h.owned k r hr
  · intro k r' t' p hr' ht' hp
    obtain ⟨r, hr, htor, hid, hne⟩ := hrows k r' hr'
    rw [htorrents, htor] at ht'
    by_cases hrid : r.torrent = id
    · rw [hid hrid] at hp
      rw [hrid, ht] at ht'
      cases ht'
      exact refreshState_inside h ht hr hrid hp
    · rw [hne hrid] at hp
      exact h.inside k r t' p hr ht' hp
  · intro i
    by_cases hi : i = id
    · subst hi
      refine ⟨?_, ?_⟩
      · intro k r' hr' hid he
        obtain ⟨r, hr, htor, hsame, -⟩ := hrows k r' hr'
        rw [hsame (htor.symm.trans hid)]
        rw [heligible] at he
        exact refreshState_idle he
      intro p
      have hnew : Covers (merge (rangesOf w'.states (ofTorrent t.hash i))) p ↔
          w'.Applied i p := by
        rw [covers_rangesOf]
        constructor
        · rintro ⟨k, r, hr, hq, hp⟩
          exact ⟨k, r, hr, (hnewof k r hr).1 hq, hp⟩
        · rintro ⟨k, r, hr, hid, hp⟩
          exact ⟨k, r, hr, (hnewof k r hr).2 hid, hp⟩
      rw [hhighid p, ← hnew]
      split
      next hp => exact ⟨fun _ => hp, fun _ => rfl⟩
      next hp =>
      refine ⟨?_, fun hc => absurd hc hp⟩
      split
      · simp
      next hold =>
      intro hhigh
      obtain ⟨k, r, hr, hid, hc⟩ := hbelow p hhigh
      exact absurd ((covers_rangesOf _ _ p).2 ⟨k, r, hr, (hof k r hr).2 hid, hc⟩) hold
    · refine ⟨?_, ?_⟩
      · intro k r' hr' hid he
        obtain ⟨r, hr, htor, -, hne⟩ := hrows k r' hr'
        have hrne : r.torrent ≠ id := fun hc => hi (hid.symm.trans (htor.trans hc))
        rw [hne hrne]
        rw [heligible] at he
        exact (hothers i hi).idle k r hr (htor.symm.trans hid) he
      · intro p
        rw [hhigh i hi, (hothers i hi).high p]
        constructor
        · rintro ⟨k, r, hr, hid, hp⟩
          exact ⟨k, r, hkept k r hr (fun hc => hi (hid.symm.trans hc)), hid, hp⟩
        rintro ⟨k, r', hr', hid, hp⟩
        obtain ⟨r, hr, htor, -, hne⟩ := hrows k r' hr'
        have hrne : r.torrent ≠ id := fun hc => hi (hid.symm.trans (htor.trans hc))
        rw [hne hrne] at hp hid
        exact ⟨k, r, hr, hid, hp⟩
  · intro k r' t' file session hr' hid he hfull ht' hfile hs p hp
    obtain ⟨r, hr, htor, hsame, -⟩ := hrows k r' hr'
    have hrid := htor.symm.trans hid
    have hk : r.key = k := find_key hr
    rw [htorrents, ht] at ht'
    cases ht'
    rw [hsame hrid] at hfull hs ⊢
    rw [(refreshState_sessions w t id complete r).1] at hs
    rw [heligible] at he
    refine refreshState_fresh he (by rw [hk]; exact hfile) hfull hs ?_
    unfold sessionRanges at hp ⊢
    rw [hcache] at hp
    exact hp

/-- A step that takes High from a piece of a torrent leaves the torrent with a fresh overlay. -/
def Lowers (w w' : StreamWorld) : Prop :=
  ∀ id, (∀ p, w.high id p = true → w'.high id p = true) ∨ w'.Fresh id

theorem Lowers.of_high (h : w'.high = w.high) : Lowers w w' := by
  intro id
  rw [h]
  exact .inl fun _ hp => hp

def Good (w w' : StreamWorld) : Prop := w'.Open → w'.Overlaid ∧ Lowers w w'

open Lowers

theorem Good.refl (h : w.Overlaid) : Good w w := fun _ => ⟨h, of_high rfl⟩

theorem Good.of_refreshed {w₀ : StreamWorld} (h : w.Placed) (hopen : w.Open)
    (hm : w.managed hash = some id) (hbelow : ∀ p, w.high id p = true → w.Applied id p)
    (hothers : ∀ i, i ≠ id → w.Exact i) (hhigh : ∀ i, i ≠ id → w.high i = w₀.high i)
    (complete : Nat → Bool) : Good w₀ (w.refreshed id complete) := by
  obtain ⟨hover, hfresh, -, hsame, -⟩ := refreshed_overlaid h hopen hm hbelow hothers complete
  refine fun _ => ⟨hover, ?_⟩
  intro i
  by_cases hi : i = id
  · subst hi
    exact .inr hfresh
  rw [hsame i hi, hhigh i hi]
  exact .inl fun _ hp => hp

namespace Overlaid

variable {t : StreamTorrent}

theorem modify (h : w.Overlaid) (key : FileKey) {f : StreamState → StreamState}
    (hf : ∀ r, (f r).key = r.key)
    (ht : ∀ r, (f r).torrent = r.torrent) (ha : ∀ r, (f r).appliedRanges = r.appliedRanges) :
    (w.modify key f hf).Overlaid := by
  have hback : ∀ k r', (w.modify key f hf).states.find k = some r' →
      ∃ r, w.states.find k = some r ∧ r'.torrent = r.torrent ∧
        r'.appliedRanges = r.appliedRanges := by
    intro k r' hr'
    rw [find_modify] at hr'
    split at hr'
    · obtain ⟨r, hr, rfl⟩ := map_eq_some_iff.1 hr'
      exact ⟨r, hr, ht r, ha r⟩
    · exact ⟨r', hr', rfl, rfl⟩
  have hforth : ∀ k r, w.states.find k = some r →
      ∃ r', (w.modify key f hf).states.find k = some r' ∧ r'.torrent = r.torrent ∧
        r'.appliedRanges = r.appliedRanges := by
    intro k r hr
    rw [find_modify]
    split
    · exact ⟨f r, by rw [hr]; rfl, ht r, ha r⟩
    · exact ⟨r, hr, rfl, rfl⟩
  refine ⟨⟨h.placed.known, ?_, ?_⟩, ?_⟩
  · intro k r' hr'
    obtain ⟨r, hr, htor, -⟩ := hback k r' hr'
    rw [htor]
    exact h.placed.owned k r hr
  · intro k r' t p hr' ht' hp
    obtain ⟨r, hr, htor, happ⟩ := hback k r' hr'
    rw [htor] at ht'
    rw [happ] at hp
    exact h.placed.inside k r t p hr ht' hp
  · intro i
    refine ⟨?_, ?_⟩
    · intro k r' hr' hid he
      obtain ⟨r, hr, htor, happ⟩ := hback k r' hr'
      rw [happ]
      exact (h.exact i).idle k r hr (htor.symm.trans hid) he
    intro p
    refine ((h.exact i).high p).trans ⟨?_, ?_⟩
    · rintro ⟨k, r, hr, hid, hp⟩
      obtain ⟨r', hr', htor, happ⟩ := hforth k r hr
      exact ⟨k, r', hr', htor.trans hid, by rw [happ]; exact hp⟩
    rintro ⟨k, r', hr', hid, hp⟩
    obtain ⟨r, hr, htor, happ⟩ := hback k r' hr'
    exact ⟨k, r, hr, htor.symm.trans hid, by rw [← happ]; exact hp⟩

theorem congr (h : w.Overlaid) (hs : w'.states = w.states) (hm : w'.managed = w.managed)
    (ht : w'.torrents = w.torrents) (he : w'.eligible = w.eligible) (hh : w'.high = w.high) :
    w'.Overlaid :=
  ⟨h.placed.congr hs hm ht, fun i => (h.exact i).congr hs (by rw [he]) (by rw [hh])⟩

theorem below (h : w.Overlaid) (id : Nat) (p : Int) (hp : w.high id p = true) :
    w.Applied id p := ((h.exact id).high p).1 hp

open Good

theorem refreshed (h : w.Overlaid) (hopen : w.Open) {hash : String}
    (hm : w.managed hash = some id) (complete : Nat → Bool) : Good w (w.refreshed id complete) :=
  of_refreshed h.placed hopen hm (h.below id) (fun i _ => h.exact i) (fun _ _ => rfl) complete

theorem placed_drop (h : w.Placed) (key : FileKey) : (w.drop key).Placed := by
  have hback : ∀ k r, (w.drop key).states.find k = some r → w.states.find k = some r := by
    intro k r hr
    rw [find_drop] at hr
    split at hr
    · cases hr
    · exact hr
  exact ⟨h.known, fun k r hr => h.owned k r (hback k r hr),
    fun k r t p hr => h.inside k r t p (hback k r hr)⟩

theorem exact_drop (h : w.Exact id) (hrow : w.states.find key = some row)
    (hother : row.torrent = id → row.appliedRanges = []) : (w.drop key).Exact id := by
  refine ⟨?_, ?_⟩
  · intro k r hr hid he
    rw [find_drop] at hr
    split at hr
    · cases hr
    · exact h.idle k r hr hid he
  intro p
  refine (h.high p).trans ⟨?_, ?_⟩
  · rintro ⟨k, r, hr, hid, hp⟩
    have hne : k ≠ key := by
      rintro rfl
      rw [hrow] at hr
      cases hr
      rw [hother hid] at hp
      exact covers_nil hp
    exact ⟨k, r, by rw [find_drop, if_neg hne, hr], hid, hp⟩
  · rintro ⟨k, r, hr, hid, hp⟩
    rw [find_drop] at hr
    split at hr
    · cases hr
    · exact ⟨k, r, hr, hid, hp⟩

section

variable (h : w.Overlaid)
include h

theorem drop (hrow : w.states.find key = some row)
    (hempty : row.appliedRanges = []) : (w.drop key).Overlaid :=
  ⟨placed_drop h.placed key, fun i => exact_drop (h.exact i) hrow fun _ => hempty⟩

theorem lower_below (hrow : w.states.find key = some row)
    (ht : w.torrents[row.torrent]? = some t) (p : Int)
    (hp : ((w.drop key).lower key row.torrent t row.appliedRanges).high row.torrent p = true) :
    ((w.drop key).lower key row.torrent t row.appliedRanges).Applied row.torrent p := by
  have hown := (h.placed.owned key row hrow).1
  have hval : ((w.drop key).lower key row.torrent t row.appliedRanges).high row.torrent p
      = if Covers row.appliedRanges p ∧ ¬ Covers (merge (rangesOf (w.drop key).states
          fun r => r.key.hash == key.hash && r.key != key)) p ∧ 0 ≤ p ∧ p < t.numPieces
        then false else w.high row.torrent p :=
    congrFun (update_self row.torrent _ w.high) p
  rw [hval] at hp
  split at hp
  · cases hp
  next hnot =>
  obtain ⟨k, r, hr, hid, hc⟩ := h.below row.torrent p hp
  by_cases hk : k = key
  · subst hk
    rw [hrow] at hr
    cases hr
    have hin := h.placed.inside k row t p hrow ht hc
    have hkept : Covers (merge (rangesOf (w.drop k).states
        fun r => r.key.hash == k.hash && r.key != k)) p := by
      by_contra hno
      exact hnot ⟨hc, hno, hin⟩
    obtain ⟨k', r', hr', hq, hc'⟩ := (covers_rangesOf _ _ p).1 hkept
    have hr'' := hr'
    rw [find_drop] at hr''
    split at hr''
    · cases hr''
    have hkey : r'.key = k' := find_key hr''
    simp only [and_eq_true, beq_iff_eq, hkey] at hq
    have hown' := (h.placed.owned k' r' hr'').1
    rw [hq.1, hown] at hown'
    exact ⟨k', r', hr', (some.inj hown').symm, hc'⟩
  · exact ⟨k, r, (find_drop w key k).trans (by rw [if_neg hk, hr]), hid, hc⟩

theorem clearStreamOverlay (hopen : w.Open) (key : FileKey) (env : StreamEnv) :
    Good w (w.clearStreamOverlay key env) := by
  unfold StreamWorld.clearStreamOverlay
  split
  · exact refl h
  next row hrow =>
  obtain ⟨hown, t, ht, hindex⟩ := h.placed.owned key row hrow
  split
  · exact refl h
  split
  next hempty => exact fun _ => ⟨h.drop hrow (by simpa using hempty), of_high rfl⟩
  next hranges =>
  have hfile : w.streamFile key = some (row.torrent, t) := by
    simp [streamFile, hown, ht, hindex]
  have heligible : w.eligible row.torrent = true := by
    by_contra hno
    have hnil := (h.exact row.torrent).idle key row hrow rfl (by simpa using hno)
    rw [hnil] at hranges
    exact hranges rfl
  have hplaced : ((w.drop key).lower key row.torrent t row.appliedRanges).Placed :=
    (placed_drop h.placed key).congr rfl rfl rfl
  have hhigh : ∀ i, i ≠ row.torrent →
      ((w.drop key).lower key row.torrent t row.appliedRanges).high i = w.high i :=
    fun i hi => update_of_ne hi _ _
  have hothers : ∀ i, i ≠ row.torrent →
      ((w.drop key).lower key row.torrent t row.appliedRanges).Exact i := by
    intro i hi
    refine (exact_drop (h.exact i) hrow ?_).congr rfl rfl (hhigh i hi)
    exact fun hid => absurd hid.symm hi
  rw [hfile]
  dsimp only
  rw [if_neg (not_not.2 rfl)]
  unfold restoreBasePriorities
  have hstill : ((w.drop key).lower key row.torrent t row.appliedRanges).eligible
      row.torrent = true := heligible
  rw [hstill]
  simp only [Bool.not_true, Bool.false_eq_true, if_false]
  split
  · have hfault : ((((w.drop key).lower key row.torrent t row.appliedRanges).setEligible
        row.torrent false).cancelPieces row.torrent).Placed := hplaced.congr rfl rfl rfl
    refine of_refreshed hfault hopen hown ?_ ?_ ?_ env.complete
    · intro p hp
      rw [cancelPieces_high] at hp
      cases hp
    · intro i hi
      exact (hothers i hi).congr rfl (update_of_ne hi _ _) (update_of_ne hi _ _)
    · intro i hi
      exact (update_of_ne hi _ _).trans (hhigh i hi)
  · exact of_refreshed hplaced hopen hown (h.lower_below hrow ht) hothers hhigh env.complete

theorem leave (key : FileKey) (session : StreamSession) (id : Nat) :
    ((w.modify key (·.dropSession session) fun _ => rfl).close id).Overlaid := by
  have hmod := h.modify key (f := (·.dropSession session)) (fun _ => rfl) (fun _ => rfl)
    fun _ => rfl
  exact hmod.congr rfl rfl rfl rfl rfl

theorem scheduleDebounce (key : FileKey) :
    (w.scheduleDebounce key).Overlaid ∧ (w.scheduleDebounce key).high = w.high := by
  unfold StreamWorld.scheduleDebounce
  split
  · exact ⟨h, rfl⟩
  split
  · exact ⟨h, rfl⟩
  have hmod := h.modify key (f := StreamState.arm) (fun _ => rfl) (fun _ => rfl)
    fun _ => rfl
  exact ⟨hmod.congr rfl rfl rfl rfl rfl, rfl⟩

theorem removeSession (hopen : w.Open) (key : FileKey) (id : Nat)
    (debounce : Bool) (env : StreamEnv) : Good w (w.removeSession key id debounce env) := by
  unfold StreamWorld.removeSession
  split
  · exact refl h
  next row hrow =>
  split
  · exact refl h
  next session _ =>
  have hleave := h.leave key session id
  dsimp only
  split
  · have hown : ((w.modify key (·.dropSession session) fun _ => rfl).close id).managed key.hash
        = some row.torrent := (h.placed.owned key row hrow).1
    exact hleave.refreshed hopen hown env.complete
  split
  · have hdeb := hleave.scheduleDebounce key
    exact fun _ => ⟨hdeb.1, of_high hdeb.2⟩
  · exact hleave.clearStreamOverlay hopen key env

theorem removeStream (hopen : w.Open) (key : FileKey) (id : Nat)
    (env : StreamEnv) : Good w (w.removeStream key id env) := by
  unfold StreamWorld.removeStream
  split
  · exact refl h
  split
  · exact h.removeSession hopen key id true env
  split
  · have hless := h.modify key
      (f := fun r => { r with activeStreams := max 0 (r.activeStreams - 1) }) (fun _ => rfl)
      (fun _ => rfl) fun _ => rfl
    dsimp only
    split
    · have hdeb := hless.scheduleDebounce key
      exact fun _ => ⟨hdeb.1, of_high hdeb.2⟩
    · exact fun _ => ⟨hless, of_high rfl⟩
  · exact refl h

theorem expireDebounce (hopen : w.Open) (i : Nat) (env : StreamEnv) :
    Good w (w.expireDebounce i env) := by
  unfold StreamWorld.expireDebounce
  split
  · exact refl h
  split
  · exact refl h
  split
  · exact h.clearStreamOverlay hopen _ env
  · exact refl h

end

theorem streamFile_spec (hf : w.streamFile key = some (id, t)) :
    w.managed key.hash = some id ∧ w.torrents[id]? = some t ∧ key.index < t.files.length := by
  unfold streamFile at hf
  split at hf
  · cases hf
  next id' hid =>
  split at hf
  · cases hf
  next t' ht =>
  split at hf
  next hindex =>
    cases hf
    exact ⟨hid, ht, hindex⟩
  · cases hf

section

variable (h : w.Overlaid)
include h

theorem ensureState (hf : w.streamFile key = some (id, t)) : (w.ensureState key id).Overlaid := by
  obtain ⟨hm, ht, hindex⟩ := streamFile_spec hf
  unfold StreamWorld.ensureState
  split
  · exact h
  next hnone =>
  have hcases : ∀ k r, (w.states.put { key, object := w.nextObject, torrent := id }).find k
      = some r → k = key ∧ r.torrent = id ∧ r.appliedRanges = [] ∨ w.states.find k = some r := by
    intro k r hr
    by_cases hk : k = key
    · subst hk
      rw [find_put_self w.states { key := k, object := w.nextObject, torrent := id }] at hr
      cases hr
      exact .inl ⟨rfl, rfl, rfl⟩
    · exact .inr ((find_put_ne hk).symm.trans hr)
  have hkept : ∀ k r, w.states.find k = some r →
      (w.states.put { key, object := w.nextObject, torrent := id }).find k = some r := by
    intro k r hr
    have hne : k ≠ key := by
      rintro rfl
      rw [hnone] at hr
      cases hr
    exact (find_put_ne hne).trans hr
  refine ⟨⟨h.placed.known, ?_, ?_⟩, ?_⟩
  · intro k r hr
    rcases hcases k r hr with ⟨rfl, hid, -⟩ | hr
    · rw [hid]
      exact ⟨hm, t, ht, hindex⟩
    · exact h.placed.owned k r hr
  · intro k r t' p hr ht' hp
    rcases hcases k r hr with ⟨-, -, hnil⟩ | hr
    · rw [hnil] at hp
      exact absurd hp covers_nil
    · exact h.placed.inside k r t' p hr ht' hp
  · intro i
    refine ⟨?_, ?_⟩
    · intro k r hr hid he
      rcases hcases k r hr with ⟨-, -, hnil⟩ | hr
      · exact hnil
      · exact (h.exact i).idle k r hr hid he
    intro p
    refine ((h.exact i).high p).trans ⟨?_, ?_⟩
    · rintro ⟨k, r, hr, hid, hp⟩
      exact ⟨k, r, hkept k r hr, hid, hp⟩
    rintro ⟨k, r, hr, hid, hp⟩
    rcases hcases k r hr with ⟨-, -, hnil⟩ | hr
    · rw [hnil] at hp
      exact absurd hp covers_nil
    · exact ⟨k, r, hr, hid, hp⟩

theorem insertSession (key : FileKey) (options : StreamOptions)
    (preload : Bool) : (w.insertSession key options preload).Overlaid := by
  have hmod := h.modify key (f := (·.addSession ⟨w.nextSession + 1, options, preload⟩))
    (fun _ => rfl) (fun _ => rfl) fun _ => rfl
  exact hmod.congr rfl rfl rfl rfl rfl

theorem addSession (hopen : w.Open) (key : FileKey) (options : StreamOptions)
    (preload : Bool) (env : StreamEnv) : Good w (w.addSession key options preload env) := by
  unfold StreamWorld.addSession
  split
  · exact refl h
  split
  · exact refl h
  next id t hf =>
  split
  · exact refl h
  split
  · exact refl h
  have hend : ∀ v : StreamWorld, ¬(v.endContext true).Open := by
    intro v hv
    simpa [endContext] using hv.1
  cases hends : env.ends with
  | true =>
    intro hafter
    dsimp only at hafter
    have hfresh := refreshed_stays (((w.ensureState key id).insertSession key options
      preload).endContext true) id env.complete
    unfold StreamWorld.refreshed at hfresh
    split at hafter
    next w' hw' =>
      rw [hw'] at hfresh
      exact absurd (hfresh.2 hafter) (hend _)
    · exact absurd ((rollbackSession_stays _ key _).2 hafter) (hend _)
  | false =>
  have hkept : ∀ v : StreamWorld, v.endContext false = v := by simp [endContext]
  rw [hkept]
  have hadded := (h.ensureState hf).insertSession key options preload
  have hframe : ∀ v : StreamWorld, v = w.ensureState key id →
      v.managed = w.managed ∧ v.high = w.high ∧ v.engineClosed = w.engineClosed ∧
      v.closed = w.closed := by
    rintro v rfl
    unfold StreamWorld.ensureState
    split <;> exact ⟨rfl, rfl, rfl, rfl⟩
  obtain ⟨hmanaged, hhigh, hengine, hclosed⟩ := hframe _ rfl
  have hm : ((w.ensureState key id).insertSession key options preload).managed key.hash
      = some id := by
    change (w.ensureState key id).managed key.hash = some id
    rw [hmanaged]
    exact (streamFile_spec hf).1
  have hstill : ((w.ensureState key id).insertSession key options preload).Open :=
    ⟨hengine.trans hopen.1, hclosed.trans hopen.2⟩
  obtain ⟨t', -, -, hcurrent⟩ := hadded.placed.current hstill hm
  have hgood : Good w (((w.ensureState key id).insertSession key options preload).refreshed
      id env.complete) :=
    of_refreshed hadded.placed hstill hm (hadded.below id)
      (fun i _ => hadded.exact i) (fun i _ => congrFun hhigh i) env.complete
  unfold StreamWorld.refreshed at hgood
  dsimp only
  split
  next w' hw' =>
    rw [hw'] at hgood
    exact hgood
  rename_i hnone
  unfold refresh at hnone
  simp [hcurrent, hstill.2] at hnone

theorem setPolicy (hopen : w.Open) (hash : String)
    (eligible cancel again : Bool) (env : StreamEnv) :
    Good w (w.setPolicy hash eligible cancel again env) := by
  unfold StreamWorld.setPolicy
  split
  · exact refl h
  next id hm =>
  have hset : ∀ i, i ≠ id → (w.setEligible id eligible).Exact i := fun i hi =>
    (h.exact i).congr rfl (update_of_ne hi _ _) rfl
  have hplaced : (w.setEligible id eligible).Placed := h.placed.congr rfl rfl rfl
  dsimp only
  cases cancel with
  | true =>
    have hcancelled : ((w.setEligible id eligible).cancelPieces id).Placed :=
      h.placed.congr rfl rfl rfl
    simp only [if_true, Bool.or_true, Bool.true_or]
    refine of_refreshed hcancelled hopen hm ?_ ?_ ?_ env.complete
    · intro p hp
      rw [cancelPieces_high] at hp
      cases hp
    · intro i hi
      exact (hset i hi).congr rfl rfl (update_of_ne hi _ _)
    · intro i hi
      exact update_of_ne hi _ _
  | false =>
    simp only [Bool.false_eq_true, if_false, Bool.or_false]
    split
    · exact of_refreshed hplaced hopen hm (h.below id) hset (fun _ _ => rfl) env.complete
    next hkeep =>
    have hon : eligible = true := by
      cases eligible
      · simp at hkeep
      · rfl
    refine fun _ => ⟨⟨hplaced, ?_⟩, of_high rfl⟩
    intro i
    by_cases hi : i = id
    · subst hi
      refine ⟨?_, (h.exact i).high⟩
      intro k r _ _ he
      simp [setEligible, hon] at he
    · exact hset i hi

theorem register (t : StreamTorrent) (eligible : Bool) : Good w (w.register t eligible) := by
  unfold StreamWorld.register
  split
  · exact refl h
  next hfree =>
  have hnone : w.managed t.hash = none := by
    cases hm : w.managed t.hash with
    | none => rfl
    | some id => simp [hm] at hfree
  have hold : ∀ k row, w.states.find k = some row → row.torrent < w.torrents.length := by
    intro k row hrow
    obtain ⟨-, t', ht', -⟩ := h.placed.owned k row hrow
    exact (List.getElem?_eq_some_iff.1 ht').1
  have hkeep : ∀ (i : Nat) (t' : StreamTorrent), w.torrents[i]? = some t' →
      (w.torrents ++ [t])[i]? = some t' := by
    intro i t' ht'
    rw [List.getElem?_append_left (List.getElem?_eq_some_iff.1 ht').1]
    exact ht'
  refine fun _ => ⟨⟨⟨?_, ?_, ?_⟩, ?_⟩, ?_⟩
  · intro hash id hm
    by_cases hh : hash = t.hash
    · subst hh
      dsimp only at hm
      rw [update_self] at hm
      cases hm
      exact ⟨t, by simp, rfl⟩
    · dsimp only at hm
      rw [update_of_ne hh] at hm
      obtain ⟨t', ht', hhash⟩ := h.placed.known hash id hm
      exact ⟨t', hkeep id t' ht', hhash⟩
  · intro k row hrow
    obtain ⟨hm, t', ht', hindex⟩ := h.placed.owned k row hrow
    have hne : k.hash ≠ t.hash := by
      intro hh
      rw [hh, hnone] at hm
      cases hm
    exact ⟨(update_of_ne hne _ _).trans hm, t', hkeep _ t' ht', hindex⟩
  · intro k row t' p hrow ht' hp
    obtain ⟨-, t'', ht'', -⟩ := h.placed.owned k row hrow
    cases (hkeep _ t'' ht'').symm.trans ht'
    exact h.placed.inside k row t' p hrow ht'' hp
  · intro i
    by_cases hi : i = w.torrents.length
    · subst hi
      refine ⟨?_, ?_⟩
      · intro k row hrow hid
        exact absurd hid (Nat.ne_of_lt (hold k row hrow))
      intro p
      refine ⟨?_, ?_⟩
      · intro hp
        simp at hp
      · rintro ⟨k, row, hrow, hid, -⟩
        exact absurd hid (Nat.ne_of_lt (hold k row hrow))
    · exact (h.exact i).congr rfl (update_of_ne hi _ _) (update_of_ne hi _ _)
  · intro i
    by_cases hi : i = w.torrents.length
    · refine .inr ?_
      intro k row _ _ _ hrow hid
      exact absurd (hid.trans hi) (Nat.ne_of_lt (hold k row hrow))
    · exact .inl fun p hp => (congrFun (update_of_ne hi _ w.high) p).trans hp

theorem delete (hash : String) : Good w (w.delete hash) := by
  unfold StreamWorld.delete
  split
  · exact refl h
  next id hm =>
  have hback : ∀ k row, (w.states.remove fun r => r.torrent == id).find k = some row →
      w.states.find k = some row ∧ row.torrent ≠ id := by
    intro k row hrow
    rw [find_remove, filter_eq_some_iff] at hrow
    exact ⟨hrow.1, by simpa using hrow.2⟩
  have hforth : ∀ k row, w.states.find k = some row → row.torrent ≠ id →
      (w.states.remove fun r => r.torrent == id).find k = some row := by
    intro k row hrow hne
    rw [find_remove, filter_eq_some_iff]
    exact ⟨hrow, by simpa using hne⟩
  refine fun _ => ⟨⟨⟨?_, ?_, ?_⟩, ?_⟩, ?_⟩
  · intro hash' id' hm'
    by_cases hh : hash' = hash
    · subst hh
      simp [detach, cancelPieces, setHigh, setEligible] at hm'
    · exact h.placed.known hash' id' ((update_of_ne hh _ _).symm.trans hm')
  · intro k row hrow
    obtain ⟨hrow, hne⟩ := hback k row hrow
    obtain ⟨hown, hrest⟩ := h.placed.owned k row hrow
    have hh : k.hash ≠ hash := by
      intro hh
      rw [hh, hm] at hown
      exact hne (some.inj hown).symm
    exact ⟨(update_of_ne hh _ _).trans hown, hrest⟩
  · intro k row t p hrow
    exact h.placed.inside k row t p (hback k row hrow).1
  · intro i
    by_cases hi : i = id
    · subst hi
      refine ⟨?_, ?_⟩
      · intro k row hrow hid
        exact absurd hid (hback k row hrow).2
      intro p
      refine ⟨?_, ?_⟩
      · intro hp
        simp [detach, cancelPieces, setHigh] at hp
      · rintro ⟨k, row, hrow, hid, -⟩
        exact absurd hid (hback k row hrow).2
    refine ⟨?_, ?_⟩
    · intro k row hrow hid he
      exact (h.exact i).idle k row (hback k row hrow).1 hid
        ((update_of_ne hi _ w.eligible).symm.trans he)
    intro p
    have hsame := congrArg (· = true) (congrFun (update_of_ne hi (fun _ => false) w.high) p)
    refine ((iff_of_eq hsame).trans ((h.exact i).high p)).trans ⟨?_, ?_⟩
    · rintro ⟨k, row, hrow, hid, hp⟩
      exact ⟨k, row, hforth k row hrow (fun hc => hi (hid.symm.trans hc)), hid, hp⟩
    · rintro ⟨k, row, hrow, hid, hp⟩
      exact ⟨k, row, (hback k row hrow).1, hid, hp⟩
  · intro i
    by_cases hi : i = id
    · refine .inr ?_
      intro k row _ _ _ hrow hid
      exact absurd (hid.trans hi) (hback k row hrow).2
    · exact .inl fun p hp => (congrFun (update_of_ne hi _ w.high) p).trans hp

theorem step (hopen : w.Open) (a : StreamAction) : Good w (w.step a) := by
  cases a with
  | register t eligible => exact h.register t eligible
  | setPolicy hash eligible cancel again env =>
    exact h.setPolicy hopen hash eligible cancel again env
  | addSession key options preload env => exact h.addSession hopen key options preload env
  | removeSession key id debounce env => exact h.removeSession hopen key id debounce env
  | removeStream key id env => exact h.removeStream hopen key id env
  | expireDebounce i env => exact h.expireDebounce hopen i env
  | refreshStreamOverlay key env =>
    simp only [StreamWorld.step]
    split
    · exact refl h
    next id t hf => exact h.refreshed hopen (streamFile_spec hf).1 env.complete
  | delete hash => exact h.delete hash
  | beginShutdown =>
    intro hclosed
    simp [StreamWorld.step, endContext, StreamWorld.Open] at hclosed
  | closeEngine =>
    intro hclosed
    cases hclosed.1
  | closeAllStreams =>
    intro hclosed
    cases hclosed.2

end

end Overlaid

end StreamWorld

end TorrentHub
