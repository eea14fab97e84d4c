import Mathlib.Algebra.BigOperators.Group.List.Basic
import Mathlib.Data.List.Perm.Subperm
import TorrentHub.Repository.Fencing

namespace TorrentHub
open Lib List Table FileRecord

namespace RuntimeObservation

variable {files : List FileObservation} {seen : List Int} {sum total : Int}

theorem checkFiles_ok (h : checkFiles files seen sum = .ok total) :
    (files.map FileObservation.index).Nodup ∧ (∀ f ∈ files, f.index ∉ seen ∧ 0 ≤ f.verifiedBytes) ∧
      total = sum + (files.map FileObservation.verifiedBytes).sum := by
  induction files generalizing seen sum with
  | nil =>
    cases h
    exact ⟨nodup_nil, nofun, (Int.add_zero _).symm⟩
  | cons f files ih =>
    rw [checkFiles, ite_error_eq_ok] at h
    obtain ⟨hvalid, h⟩ := h
    simp only [Bool.or_eq_true, decide_eq_true_eq, contains_iff_mem, not_or, Int.not_lt] at hvalid
    obtain ⟨⟨⟨-, hbytes⟩, hseen⟩, -⟩ := hvalid
    obtain ⟨hnodup, hfiles, htotal⟩ := ih h
    refine ⟨?_, ?_, ?_⟩
    · rw [map_cons, nodup_cons]
      refine ⟨fun hmem => ?_, hnodup⟩
      obtain ⟨g, hg, hindex⟩ := mem_map.1 hmem
      exact (hfiles g hg).1 (hindex ▸ mem_cons_self)
    · intro g hg
      rcases mem_cons.1 hg with rfl | hg
      · exact ⟨hseen, hbytes⟩
      · exact ⟨fun hmem => (hfiles g hg).1 (mem_cons_of_mem _ hmem), (hfiles g hg).2⟩
    · rw [htotal, map_cons, sum_cons, Int.add_assoc]

theorem check_ok {o : RuntimeObservation} (h : o.check = .ok total) :
    (o.files.map FileObservation.index).Nodup ∧ (∀ f ∈ o.files, 0 ≤ f.verifiedBytes) ∧
      total = (o.files.map FileObservation.verifiedBytes).sum := by
  rw [check, ite_error_eq_ok] at h
  obtain ⟨-, h⟩ := h
  rw [ite_error_eq_ok] at h
  obtain ⟨hnodup, hfiles, htotal⟩ := checkFiles_ok h.2
  exact ⟨hnodup, fun f hf => (hfiles f hf).2, htotal.trans (Int.zero_add _)⟩

end RuntimeObservation

namespace TorrentDB

variable {db db' : TorrentDB} {o : RuntimeObservation} {catalog : Keyed FileRecord.key}
  {f : FileObservation}

theorem expectFile_files (db : TorrentDB) (o : RuntimeObservation) (f : FileObservation) :
    (db.expectFile o f).files = db.files := by
  simp only [expectFile]
  repeat' split
  all_goals rfl

theorem saveFile_ok (hv : o.verified = true) (h : saveFile o catalog db f = .ok db') :
    ∃ current, catalog.find (o.fence.hash, f.index) = some current ∧
      f.verifiedBytes ≤ current.size ∧
      db'.files = if f.verifiedBytes != current.downloaded then (db.saveBytes o f).files
        else db.files := by
  unfold saveFile at h
  split at h
  · cases h
  next current hcurrent =>
  rw [ite_error_eq_ok] at h
  obtain ⟨hsize, h⟩ := h
  refine ⟨current, hcurrent, Int.not_lt.1 hsize, ?_⟩
  simp only [hv, Bool.true_and] at h
  cases h
  split <;> split <;> first | rfl | rw [expectFile_files]

theorem find_saveBytes (db : TorrentDB) (o : RuntimeObservation) (f : FileObservation)
    (k : String × Int) : (db.saveBytes o f).files.find k = if k = (o.fence.hash, f.index)
      then (db.files.find k).map fun r => { r with downloaded := f.verifiedBytes }
      else db.files.find k := by
  have hfind : (db.saveBytes o f).files.find k = (db.files.find k).map fun r =>
      if r.hash == o.fence.hash && r.index == f.index then { r with downloaded := f.verifiedBytes }
      else r := find_adjust _ _ _ (by intro _; rfl) k
  rw [hfind]
  cases hr : db.files.find k with
  | none => simp
  | some r =>
    obtain rfl := find_key hr
    by_cases hk : r.key = (o.fence.hash, f.index)
    · obtain ⟨hhash, hindex⟩ := Prod.mk.inj hk
      simp [hk, hhash, hindex]
    have hp : (r.hash == o.fence.hash && r.index == f.index) = false := by
      rw [Bool.eq_false_iff]
      intro hc
      rw [Bool.and_eq_true, beq_iff_eq, beq_iff_eq] at hc
      exact hk (Prod.ext hc.1 hc.2)
    simp only [Option.map_some, hp, Bool.false_eq_true, ↓reduceIte, hk]

section

variable (hv : o.verified = true)
include hv

theorem saveFile_find (h : saveFile o catalog db f = .ok db') :
    (∀ k, k ≠ (o.fence.hash, f.index) → db'.files.find k = db.files.find k) ∧
      ∃ current, catalog.find (o.fence.hash, f.index) = some current ∧
        f.verifiedBytes ≤ current.size ∧ (db.files.find (o.fence.hash, f.index) = some current →
          db'.files.find (o.fence.hash, f.index) =
            some { current with downloaded := f.verifiedBytes }) := by
  obtain ⟨current, hcurrent, hsize, hfiles⟩ := saveFile_ok hv h
  refine ⟨?_, current, hcurrent, hsize, ?_⟩
  · intro k hk
    rw [hfiles]
    split
    · rw [find_saveBytes, if_neg hk]
    · rfl
  intro hrow
  rw [hfiles]
  split
  · rw [find_saveBytes, if_pos rfl, hrow]
    rfl
  next hsame =>
  have hbytes : f.verifiedBytes = current.downloaded := by simpa using hsame
  rw [hrow, hbytes]

theorem saveFiles_find {files : List FileObservation}
    (hnodup : (files.map FileObservation.index).Nodup)
    (h : files.foldlM (saveFile o catalog) db = .ok db')
    (hrows : ∀ f ∈ files, db.files.find (o.fence.hash, f.index) =
      catalog.find (o.fence.hash, f.index)) :
    (∀ k, (∀ f ∈ files, k ≠ (o.fence.hash, f.index)) → db'.files.find k = db.files.find k) ∧
      ∀ f ∈ files, ∃ current, catalog.find (o.fence.hash, f.index) = some current ∧
        f.verifiedBytes ≤ current.size ∧ db'.files.find (o.fence.hash, f.index) =
          some { current with downloaded := f.verifiedBytes } := by
  induction files generalizing db with
  | nil =>
    cases h
    exact ⟨fun _ _ => rfl, nofun⟩
  | cons f files ih =>
    rw [foldlM_cons, bind_eq_ok] at h
    obtain ⟨db₁, hf, h⟩ := h
    rw [map_cons, nodup_cons] at hnodup
    obtain ⟨hothers, current, hcurrent, hsize, hwritten⟩ := saveFile_find hv hf
    have hne : ∀ g ∈ files, (o.fence.hash, g.index) ≠ (o.fence.hash, f.index) := by
      intro g hg heq
      exact hnodup.1 (mem_map.2 ⟨g, hg, (Prod.mk.inj heq).2⟩)
    obtain ⟨hkept, hdone⟩ := ih hnodup.2 h fun g hg =>
      (hothers _ (hne g hg)).trans (hrows g (mem_cons_of_mem _ hg))
    refine ⟨?_, ?_⟩
    · intro k hk
      rw [hkept k fun g hg => hk g (mem_cons_of_mem _ hg), hothers k (hk f mem_cons_self)]
    intro g hg
    rcases mem_cons.1 hg with rfl | hg
    · refine ⟨current, hcurrent, hsize, ?_⟩
      rw [hkept _ fun g' hg' => (hne g' hg').symm]
      exact hwritten ((hrows g mem_cons_self).trans hcurrent)
    · exact hdone g hg

theorem saveFiles_keys {files : List FileObservation}
    (h : files.foldlM (saveFile o catalog) db = .ok db') :
    db'.files.rows.map FileRecord.key = db.files.rows.map FileRecord.key := by
  refine foldlM_keeps (P := fun s : TorrentDB =>
    s.files.rows.map FileRecord.key = db.files.rows.map FileRecord.key) ?_ rfl h
  intro s f s' hs hf
  obtain ⟨current, -, -, hfiles⟩ := saveFile_ok hv hf
  rw [← hs, hfiles]
  split
  · simp only [saveBytes, adjust, map_map]
    apply map_congr_left
    intro r _
    simp only [Function.comp_apply]
    split <;> rfl
  · rfl

end

def fileRows (db : TorrentDB) (hash : String) : List FileRecord :=
  db.files.rows.filter (·.hash == hash)

theorem mem_fileRows {hash : String} {r : FileRecord} :
    r ∈ db.fileRows hash ↔ r ∈ db.files.rows ∧ r.hash = hash := by
  simp [fileRows]

theorem fileRows_length (hash : String) (h : db'.files.rows.map key = db.files.rows.map key) :
    (db'.fileRows hash).length = db.files.rows.countP (·.hash == hash) := by
  have hcount : ∀ rows : List FileRecord, rows.countP (·.hash == hash) =
      (rows.map key).countP (·.1 == hash) := by
    intro rows
    rw [countP_map]
    rfl
  rw [fileRows, ← countP_eq_length_filter, hcount, h, ← hcount]

structure Reports (db : TorrentDB) (o : RuntimeObservation) : Prop where
  rows : ((db.fileRows o.fence.hash).map fun r => (r.index, r.downloaded)).Perm
    (o.files.map fun f => (f.index, f.verifiedBytes))
  bounds : ∀ r ∈ db.fileRows o.fence.hash, 0 ≤ r.downloaded ∧ r.downloaded ≤ r.size
  torrent : ∃ t, db.torrents.find o.fence.hash = some t ∧ t.downloaded ≤ t.size ∧
    t.downloaded = ((db.fileRows o.fence.hash).map FileRecord.downloaded).sum

theorem find_saveTorrent (db : TorrentDB) {t : TorrentRecord}
    (h : db.torrents.find o.fence.hash = some t) :
    (db.saveTorrent o).torrents.find o.fence.hash = some { t with
      downloaded := o.verifiedBytes, progressSource := "verified"
      progressObservedAt := o.observedAt } := by
  have hfind : (db.saveTorrent o).torrents.find o.fence.hash =
      (db.torrents.find o.fence.hash).map fun t => if t.hash == o.fence.hash then { t with
        downloaded := o.verifiedBytes, progressSource := "verified"
        progressObservedAt := o.observedAt } else t := find_adjust _ _ _ (by intro _; rfl) _
  have hkey : t.hash = o.fence.hash := find_key h
  rw [hfind, h, Option.map_some, if_pos (beq_iff_eq.2 hkey)]

theorem saveRuntimeObservation_reports (hv : o.verified = true)
    (h : db.saveRuntimeObservation o = .ok db') : db'.Reports o := by
  obtain ⟨fileBytes, saved, hcheck, -, hsaved, hfiles⟩ := saveRuntimeObservation_ok h
  obtain ⟨hnodup, hbytes, htotal⟩ := RuntimeObservation.check_ok hcheck
  obtain ⟨-, hdone⟩ := saveFiles_find hv hnodup hfiles fun _ _ => rfl
  have hlength := fileRows_length o.fence.hash (saveFiles_keys hv hfiles)
  rcases saveVerified_ok hsaved with ⟨hc, -⟩ | ⟨-, hcount, hsum, hsize, rfl⟩
  · rw [hv] at hc
    cases hc
  have hwritten : ∀ f ∈ o.files, ∃ r ∈ db'.fileRows o.fence.hash, r.index = f.index ∧
      r.downloaded = f.verifiedBytes ∧ r.downloaded ≤ r.size := by
    intro f hf
    obtain ⟨current, -, hle, hrow⟩ := hdone f hf
    have hkey : FileRecord.key { current with downloaded := f.verifiedBytes } =
        (o.fence.hash, f.index) := find_key hrow
    obtain ⟨hhash, hindex⟩ := Prod.mk.inj hkey
    exact ⟨_, mem_fileRows.2 ⟨find_mem hrow, hhash⟩, hindex, rfl, hle⟩
  have hrows : ((db'.fileRows o.fence.hash).map fun r => (r.index, r.downloaded)).Perm
      (o.files.map fun f => (f.index, f.verifiedBytes)) := by
    have hdistinct : (o.files.map fun f => (f.index, f.verifiedBytes)).Nodup := by
      apply List.Nodup.of_map Prod.fst
      rw [map_map]
      exact hnodup
    refine ((subperm_of_subset hdistinct ?_).perm_of_length_le ?_).symm
    · intro pair hpair
      obtain ⟨f, hf, rfl⟩ := mem_map.1 hpair
      obtain ⟨r, hr, hindex, hdownloaded, -⟩ := hwritten f hf
      exact mem_map.2 ⟨r, hr, by rw [hindex, hdownloaded]⟩
    · rw [length_map, length_map, hlength]
      exact Nat.le_of_eq hcount
  refine ⟨hrows, ?_, ?_⟩
  · intro r hr
    have hpair := hrows.mem_iff.1 (mem_map.2 ⟨r, hr, rfl⟩)
    obtain ⟨f, hf, hreported⟩ := mem_map.1 hpair
    obtain ⟨s, hs, hindex, hdownloaded, hle⟩ := hwritten f hf
    obtain ⟨hri, hrd⟩ := Prod.mk.inj hreported
    obtain ⟨hrmem, hrhash⟩ := mem_fileRows.1 hr
    obtain ⟨hsmem, hshash⟩ := mem_fileRows.1 hs
    obtain rfl : r = s := eq_of_key hrmem hsmem
      (Prod.ext (hrhash.trans hshash.symm) (hri.symm.trans hindex.symm))
    exact ⟨hrd ▸ hbytes f hf, hle⟩
  · obtain ⟨t, ht, hrange⟩ := (Option.any_eq_true _ _).1 hsize
    rw [Bool.and_eq_true, decide_eq_true_eq, decide_eq_true_eq] at hrange
    have hrow := find_saveTorrent (db.saveIntent o) ht
    rw [← (saveFiles_beside hfiles).torrents] at hrow
    refine ⟨_, hrow, hrange.2, ?_⟩
    have hperm := (hrows.map Prod.snd).sum_eq
    rw [map_map, map_map] at hperm
    calc o.verifiedBytes = (o.files.map FileObservation.verifiedBytes).sum := hsum ▸ htotal
      _ = ((db'.fileRows o.fence.hash).map FileRecord.downloaded).sum := hperm.symm

theorem step_stale (h : ¬ db.Current o ∨ ∃ err, db.saveRuntimeObservation o = .error err) :
    db.step (.saveRuntimeObservation o) = db := by
  cases hs : db.saveRuntimeObservation o with
  | error err => simp only [step, transact, hs]
  | ok db' =>
    rcases h with hstale | ⟨err, herr⟩
    · exact absurd (saveRuntimeObservation_current hs) hstale
    · rw [hs] at herr
      cases herr

theorem sequence_lt {s s' : TorrentDB} {o' : RuntimeObservation} {between after : List RepoAction}
    (hd : Distinct db (.saveRuntimeObservation o :: (between ++ after)))
    (hs : db.saveRuntimeObservation o = .ok s)
    (hs' : (s.run between).saveRuntimeObservation o' = .ok s')
    (ha : o.fence.attachment = o'.fence.attachment) : o.sequence < o'.sequence := by
  have hne := saveRuntimeObservation_attached hs
  have hunused : o.fence.attachment ∉ tokens between := by
    intro hmem
    obtain ⟨i, hi, -, -, hia, -⟩ := saveRuntimeObservation_current hs
    refine hd.unused _ i hi (hia ▸ hne) ?_
    rw [tokens_cons, tokens_append, hia]
    exact mem_append.2 (.inr (mem_append.2 (.inl hmem)))
  have hheld := (saveRuntimeObservation_held hs hd).run hne hunused
  obtain ⟨i, hi, -, -, hia, hlt⟩ := saveRuntimeObservation_current hs'
  exact Int.lt_of_le_of_lt (hheld _ i hi (hia.trans ha.symm)).2 hlt

theorem replaced_rejected {i : IntentRecord} {v : IntentKey} {token : String} {f : RuntimeFence}
    {s s' : TorrentDB} {between later after : List RepoAction}
    (hd : Distinct db (between ++ .attachRuntime v token :: (later ++ after)))
    (hi : db.intents.find v.hash = some i) (hne : i.attachment ≠ "")
    (hs : (db.run between).attachRuntime v token = .ok (s, f))
    (ho : o.fence.attachment = i.attachment) : (s.run later).saveRuntimeObservation o ≠ .ok s' := by
  intro hs'
  have hunused := hd.unused _ i hi hne
  rw [tokens_append, tokens_cons, tokens_append] at hunused
  simp only [mem_append, not_or] at hunused
  obtain ⟨hbetween, htoken, hlater, -⟩ := hunused
  have hheld : db.Held v.hash i.attachment i.sequence := by
    intro hash j hj hja
    obtain rfl := hd.rows hash v.hash j i hj hi hja (hja ▸ hne)
    rw [hi] at hj
    cases hj
    exact ⟨rfl, Int.le_refl _⟩
  have hattach : (db.run between).step (.attachRuntime v token) = s := by
    simp only [step, transact, hs]
    rfl
  have hafter := (hheld.run hne hbetween).step hne htoken
  rw [hattach] at hafter
  have hgone : s.Held v.hash i.attachment o.sequence := by
    intro hash j hj hja
    obtain ⟨rfl, -⟩ := hafter hash j hj hja
    obtain ⟨-, -, -, hdb⟩ := attachRuntime_ok hs
    rw [hdb] at hj
    simp only [updateIntent, find_adjust] at hj
    obtain ⟨k, hk, rfl⟩ := Option.map_eq_some_iff.1 hj
    rw [if_pos (beq_iff_eq.2 (find_hash hk))] at hja
    exact absurd (mem_singleton.2 hja.symm) htoken
  obtain ⟨j, hj, -, -, hja, hlt⟩ := saveRuntimeObservation_current hs'
  have hle := ((hgone.run hne hlater) _ j hj (hja.trans ho)).2
  exact absurd hlt (Int.not_lt.2 hle)

/-- An observation that is not current, or fails a check, changes no row; the sequences accepted
from one attachment increase; one that was there before a later one is accepted no more; and a
verified observation leaves its rows, and their sum, as it reports them. -/
theorem observations_fenced_and_complete (db : TorrentDB) (actions : List RepoAction)
    (h : Distinct db actions) :
    (∀ before o after, actions = before ++ .saveRuntimeObservation o :: after →
        let s := db.run before
        (¬ s.Current o ∨ (∃ err, s.saveRuntimeObservation o = .error err) →
          s.step (.saveRuntimeObservation o) = s) ∧
        (∀ s', s.saveRuntimeObservation o = .ok s' → o.verified = true → s'.Reports o)) ∧
      (∀ before o between o' after s s', actions = before ++ .saveRuntimeObservation o ::
          (between ++ .saveRuntimeObservation o' :: after) →
        (db.run before).saveRuntimeObservation o = .ok s →
        (s.run between).saveRuntimeObservation o' = .ok s' →
        o.fence.attachment = o'.fence.attachment → o.sequence < o'.sequence) ∧
      ∀ before between v token later o after i s f s', actions = before ++ (between ++
          .attachRuntime v token :: (later ++ .saveRuntimeObservation o :: after)) →
        (db.run before).intents.find v.hash = some i → i.attachment ≠ "" →
        ((db.run before).run between).attachRuntime v token = .ok (s, f) →
        o.fence.attachment = i.attachment → (s.run later).saveRuntimeObservation o ≠ .ok s' := by
  refine ⟨?_, ?_, ?_⟩
  · rintro before o after rfl
    exact ⟨step_stale, fun s' hs hv => saveRuntimeObservation_reports hv hs⟩
  · rintro before o between o' after s s' rfl hs hs' ha
    exact sequence_lt h.run hs hs' ha
  · rintro before between v token later o after i s f s' rfl hi hne hs ho
    exact replaced_rejected h.run hi hne hs ho

def oneFileObservation : RuntimeObservation where
  fence := ⟨"hash", "record", 1, "first"⟩
  sequence := 1
  appliedRevision := 1
  state := .downloading
  err := ErrorReason.none
  progressSource := "verified"
  observedAt := 5
  verifiedBytes := 2
  files := [⟨0, 2⟩]

def oneFileRun : List RepoAction :=
  [.createTorrent "hash" "record" .enabled (some [("file", 3)]),
    .attachRuntime ⟨"hash", "record", 1⟩ "first",
    .saveRuntimeObservation oneFileObservation,
    .attachRuntime ⟨"hash", "record", 1⟩ "second"]

theorem oneFileRun_reports :
    Distinct {} oneFileRun ∧ ∃ s, (run {} (oneFileRun.take 2)).saveRuntimeObservation
      oneFileObservation = .ok s ∧ s.Reports oneFileObservation := by
  have hdistinct : Distinct {} oneFileRun := by
    refine ⟨by decide, by decide, ?_, ?_⟩
    · intro _ _ _ _ h
      cases h
    · intro _ _ h
      cases h
  have hok : ((run {} (oneFileRun.take 2)).saveRuntimeObservation oneFileObservation).isOk =
      true := by decide +kernel
  cases hs : (run {} (oneFileRun.take 2)).saveRuntimeObservation oneFileObservation with
  | error err =>
    rw [hs] at hok
    cases hok
  | ok s =>
    have hreports := (observations_fenced_and_complete {} oneFileRun hdistinct).1
      (oneFileRun.take 2) oneFileObservation (oneFileRun.drop 3) rfl
    exact ⟨hdistinct, s, rfl, hreports.2 s hs rfl⟩

end TorrentDB

end TorrentHub
