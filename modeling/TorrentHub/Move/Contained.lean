import TorrentHub.Move.Follows

namespace TorrentHub
open Lib RelPath List Layout

variable {p : Bytes} {A B S T ds : List Bytes}

variable {v : LocationOwner} {storageID c : Bytes} {es tree : List StorageTreeEntry}
  {seen cs : List Bytes} {bytes : Nat} {source target : Layout} {fold : Bytes → Bytes}
  {j : LocationManifest} {m : StorageMapping}

/-- The folding of a path that a file system may do, name by name: case and the form of the
characters. -/
structure PathFold where
  fold : Bytes → Bytes
  name : Bytes → Bytes
  fold_joined : ∀ cs, cs ≠ [] → (∀ c ∈ cs, Normal c) → fold (joined cs) = joined (cs.map name)
  normal : ∀ c, Normal c → Normal (name c)
  reserved : ∀ c, reservedComponent (name c) = reservedComponent c

theorem normal_of_length (hslash : slash ∉ p) (hlen : 2 < p.length) : Normal p := by
  refine ⟨?_, ?_, ?_, hslash⟩
  · rintro rfl
    cases hlen
  · rintro rfl
    exact absurd hlen (by decide)
  · rintro rfl
    exact absurd hlen (by decide)

theorem toNat_digits {n : Nat} {b : UInt8}
    (hb : b ∈ (Nat.toDigits 10 n).map fun c => c.toNat.toUInt8) : 48 ≤ b.toNat ∧ b.toNat ≤ 57 := by
  obtain ⟨c, hc, rfl⟩ := mem_map.1 hb
  have hdigit := Nat.isDigit_of_mem_toDigits (by decide) (by decide) hc
  simp only [Char.isDigit, Bool.and_eq_true, decide_eq_true_eq, ge_iff_le,
    UInt32.le_iff_toNat_le] at hdigit
  have hlow : 48 ≤ c.toNat := hdigit.1
  have hhigh : c.toNat ≤ 57 := hdigit.2
  rw [Nat.toUInt8, UInt8.toNat_ofNat']
  omega

theorem slash_notMem_decimal (n : Int) : slash ∉ decimal n := by
  cases n with
  | ofNat n => exact fun hmem => absurd (toNat_digits hmem) (by decide)
  | negSucc n =>
    intro hmem
    rcases mem_cons.1 hmem with heq | hmem
    · exact absurd heq (by decide)
    · exact absurd (toNat_digits hmem) (by decide)

theorem decimal_length_pos (n : Int) : 0 < (decimal n).length := by
  cases n with
  | ofNat n =>
    rw [decimal, length_map]
    exact Nat.length_toDigits_pos
  | negSucc n => exact Nat.succ_pos _

theorem normal_decimal (n : Nat) : Normal (decimal n) := by
  have hdot : 0x2e ∉ decimal n := fun hmem => absurd (toNat_digits hmem) (by decide)
  refine ⟨ne_nil_of_length_pos (decimal_length_pos n), ?_, ?_, slash_notMem_decimal n⟩
  · intro heq
    exact hdot (by rw [heq]; decide)
  · intro heq
    exact hdot (by rw [heq]; decide)

theorem exists_joined_of_validPath (h : validPath p = true) :
    ∃ xs, xs ≠ [] ∧ (∀ x ∈ xs, Normal x) ∧ p = joined xs := by
  simp only [validPath, Bool.and_eq_true, beq_iff_eq] at h
  exact exists_joined_of_validateRelative h.1.1 h.1.2

theorem normal_of_component (h : component p = true) : Normal p := by
  simp only [component, validPath, Bool.and_eq_true, beq_iff_eq] at h
  obtain ⟨⟨⟨hvalid, -⟩, -⟩, hbase⟩ := h
  obtain ⟨hroot, hne⟩ := rooted_of_isLocal (validateRelative_ok hvalid).1
  refine normal_of_validateRelative hvalid fun hmem => ?_
  rw [base, if_neg hne] at hbase
  dsimp only at hbase
  split at hbase
  · rw [← hbase] at hroot
    exact absurd hroot (by decide)
  rw [← hbase] at hmem
  simpa using mem_rtakeWhile_imp hmem

theorem operationName_normal (h : component v.recordID = true) :
    slash ∉ operationName v ∧ 2 < (operationName v).length := by
  have hrecord := normal_of_component h
  have hlen := length_pos_of_ne_nil hrecord.ne_nil
  have hdigits := decimal_length_pos v.version
  refine ⟨fun hmem => ?_, ?_⟩
  · rcases mem_append.1 hmem with hmem | hmem
    · exact hrecord.no_slash hmem
    · rcases mem_cons.1 hmem with heq | hmem
      · exact absurd heq (by decide)
      · exact slash_notMem_decimal _ hmem
  · rw [operationName, length_append, length_cons]
    omega

def stageNames (storageID : Bytes) (v : LocationOwner) : List Bytes :=
  [ascii ".tsh-recovery", ascii "moves", storageID, operationName v]

theorem stageNames_normal
    (hid : component storageID = true) (hrecord : component v.recordID = true) :
    ∀ c ∈ stageNames storageID v, Normal c := by
  obtain ⟨hslash, hlen⟩ := operationName_normal hrecord
  intro c hc
  simp only [stageNames, mem_cons, not_mem_nil, or_false] at hc
  rcases hc with rfl | rfl | rfl | rfl
  · exact normal_of_length (by decide) (by decide)
  · exact normal_of_length (by decide) (by decide)
  · exact normal_of_component hid
  · exact normal_of_length hslash hlen

theorem legacyStage_eq (h : ∀ c ∈ stageNames storageID v, Normal c) :
    legacyStage storageID v = joined (stageNames storageID v) := by
  rw [legacyStage, join, if_neg (by decide)]
  exact clean_joined (cons_ne_nil _ _) h

theorem overlap_joined (hA : A ≠ []) (hB : B ≠ []) (hAn : ∀ c ∈ A, Normal c)
    (hBn : ∀ c ∈ B, Normal c) : overlap (joined A) (joined B) = true ↔ A <+: B ∨ B <+: A := by
  have hbelow : ∀ {X Y : List Bytes}, X ≠ [] → (∀ c ∈ X, Normal c) → (∀ c ∈ Y, Normal c) →
      (joined X ++ [slash] <+: joined Y → X <+: Y) := by
    intro X Y hX hXn hYn hpre
    obtain ⟨k, hk, hlt, heq⟩ := (isPrefix_joined_iff hYn).1 hpre
    have htake : Y.take k ≠ [] := by
      rw [Ne, take_eq_nil_iff]
      rintro (rfl | rfl)
      · exact Nat.lt_irrefl _ hk
      · exact Nat.not_lt_zero _ hlt
    have hlists := joined_inj hX htake hXn (fun c hc => hYn c (mem_of_mem_take hc)) heq
    rw [hlists]
    exact take_prefix k Y
  have habove : ∀ {X Y : List Bytes}, X ≠ [] → X <+: Y →
      joined X = joined Y ∨ joined X ++ [slash] <+: joined Y := by
    rintro X Y hX ⟨Z, rfl⟩
    by_cases hZ : Z = []
    · rw [hZ, append_nil]
      exact .inl rfl
    rw [joined_append hX hZ]
    exact .inr ⟨joined Z, rfl⟩
  simp only [overlap, clean_joined hA hAn, clean_joined hB hBn, Bool.or_eq_true, beq_iff_eq,
    isPrefixOf_iff_prefix]
  constructor
  · rintro ((heq | hpre) | hpre)
    · exact .inl ⟨[], by rw [joined_inj hA hB hAn hBn heq, append_nil]⟩
    · exact .inr (hbelow hB hBn hAn hpre)
    · exact .inl (hbelow hA hAn hBn hpre)
  rintro (hpre | hpre)
  · rcases habove hA hpre with heq | hpre
    · exact .inl (.inl heq)
    · exact .inr hpre
  · rcases habove hB hpre with heq | hpre
    · exact .inl (.inl heq.symm)
    · exact .inl (.inr hpre)

namespace PathFold

variable (f : PathFold)

theorem map_normal (h : ∀ c ∈ A, Normal c) : ∀ c ∈ A.map f.name, Normal c := by
  intro c hc
  obtain ⟨d, hd, rfl⟩ := mem_map.1 hc
  exact f.normal d (h d hd)

theorem overlap_key (ha : Spells a A) (hb : Spells b B) (hA : A ≠ []) (hB : B ≠ []) :
    overlap (collisionKey f.fold a) (collisionKey f.fold b) = true ↔
      A.map f.name <+: B.map f.name ∨ B.map f.name <+: A.map f.name := by
  rw [collisionKey, collisionKey, ha.clean, hb.clean, pathOf, pathOf, if_neg hA, if_neg hB,
    f.fold_joined A hA ha.normal, f.fold_joined B hB hb.normal]
  exact overlap_joined (by simpa using hA) (by simpa using hB) (f.map_normal ha.normal)
    (f.map_normal hb.normal)

theorem apart_of_reserved (hS : ∀ c ∈ S, reservedComponent c = false)
    (hr : reservedComponent r = true) :
    (S.map f.name <+: (ds ++ r :: rest).map f.name → S.map f.name <+: ds.map f.name) ∧
      ¬(ds ++ r :: rest).map f.name <+: S.map f.name := by
  have hfree : ∀ c ∈ S.map f.name, reservedComponent c = false := by
    intro c hc
    obtain ⟨d, hd, rfl⟩ := mem_map.1 hc
    rw [f.reserved]
    exact hS d hd
  have hmem : f.name r ∉ S.map f.name := by
    intro hmem
    have hreserved := hfree _ hmem
    rw [f.reserved, hr] at hreserved
    cases hreserved
  constructor
  · intro hpre
    rw [map_append, map_cons] at hpre
    by_cases hlen : (S.map f.name).length ≤ (ds.map f.name).length
    · exact prefix_of_prefix_length_le hpre (prefix_append _ _) hlen
    have hlonger : ds.map f.name ++ [f.name r] <+: S.map f.name := by
      refine prefix_of_prefix_length_le ?_ hpre ?_
      · exact ⟨rest.map f.name, by rw [append_assoc, singleton_append]⟩
      · rw [length_append, length_singleton]
        omega
    exact absurd (hlonger.subset (by simp)) hmem
  · intro hpre
    exact hmem (hpre.subset (by simp))

end PathFold

theorem ite_false_eq_true {c : Prop} [Decidable c] {b : Bool} :
    (if c then false else b) = true ↔ ¬c ∧ b = true := by
  split <;> simp [*]

theorem validPath_of_checkSourceTree (h : checkSourceTree es seen bytes = some total) :
    ∀ e ∈ es, validPath e.path = true := by
  induction es generalizing seen bytes with
  | nil => nofun
  | cons e es ih =>
    unfold checkSourceTree at h
    split at h
    · cases h
    rename_i hvalid
    split at h
    · cases h
    split at h
    · cases h
    intro e' he'
    rcases mem_cons.1 he' with rfl | he'
    · simp only [validTreeEntry, Bool.or_eq_true, Bool.not_eq_true', not_or, Bool.not_eq_false,
        Bool.and_eq_true] at hvalid
      exact hvalid.1.1.1
    · exact ih h e' he'

theorem validPath_of_checkCandidateTree
    (h : checkCandidateTree es bytes = true) : ∀ e ∈ es, validPath e.path = true := by
  induction es generalizing bytes with
  | nil => nofun
  | cons e es ih =>
    unfold checkCandidateTree at h
    obtain ⟨hvalid, h⟩ := ite_false_eq_true.1 h
    intro e' he'
    rcases mem_cons.1 he' with rfl | he'
    · simp only [validTreeEntry, Bool.or_eq_true, Bool.not_eq_true', not_or, Bool.not_eq_false,
        Bool.and_eq_true] at hvalid
      exact hvalid.1.1.1
    · exact ih h e' he'

structure EntryChecked (tree : List StorageTreeEntry) (source target : Layout)
    (e : PlannedEntry) : Prop where
  listed : ∃ found ∈ tree, found.path = e.source
  follows : target.relative (join [source.layoutPrefix, e.source]) = .ok e.target
  valid : validPath e.target = true

theorem checkEntries_ok {es : List PlannedEntry}
    (h : checkEntries tree source target es seen = true) :
    (∀ e ∈ es, EntryChecked tree source target e ∧ e.source ∉ seen) ∧
      (es.map (·.source)).Nodup := by
  induction es generalizing seen with
  | nil => exact ⟨nofun, .nil⟩
  | cons e es ih =>
    unfold checkEntries at h
    split at h
    next found expected hfound hexpected =>
      obtain ⟨hchecked, hloop⟩ := ite_false_eq_true.1 h
      simp only [Bool.or_eq_true, not_or, bne_iff_ne, ne_eq, not_not, Bool.not_eq_true,
        Bool.not_eq_false', contains_eq_mem, decide_eq_false_iff_not] at hchecked
      obtain ⟨⟨⟨-, hseen⟩, hvalid⟩, rfl⟩ := hchecked
      obtain ⟨hrest, hnodup⟩ := ih hloop
      have hpath : found.path = e.source := beq_iff_eq.1 (find?_some hfound :)
      refine ⟨fun e' he' => ?_, ?_⟩
      · rcases mem_cons.1 he' with rfl | he'
        · exact ⟨⟨⟨found, mem_of_find?_eq_some hfound, hpath⟩, hexpected, hvalid⟩, hseen⟩
        · obtain ⟨hchecked, hunseen⟩ := hrest e' he'
          exact ⟨hchecked, fun hmem => hunseen (mem_cons_of_mem _ hmem)⟩
      rw [map_cons, nodup_cons]
      refine ⟨fun hmem => ?_, hnodup⟩
      obtain ⟨e', he', heq⟩ := mem_map.1 hmem
      exact (hrest e' he').2 (mem_cons.2 (.inl heq))
    · cases h

structure Accepted (fold : Bytes → Bytes) (v : LocationOwner) (j : LocationManifest)
    (m : StorageMapping) : Prop where
  source : m.layout.validate = .ok ()
  target : j.target.validate = .ok ()
  record : component v.recordID = true
  storage : component m.storageID = true
  staging : j.staging = legacyStage m.storageID v ∨ j.staging = targetStage j.target m.storageID v
  cleanup : j.cleanupPath = [] ∨ j.cleanupPath = cleanupPath m.root v
  apart : overlap (collisionKey fold m.root) (collisionKey fold j.target.root) = false
  tree : ∀ e ∈ j.sourceTree.entries, validPath e.path = true
  candidate : ∀ e ∈ j.candidateTree.entries, validPath e.path = true
  entries : ∀ e ∈ j.entries, EntryChecked j.sourceTree.entries m.layout j.target e
  sources : (j.entries.map (·.source)).Nodup
  directories : ∀ d ∈ j.directories, validPath d = true

theorem validate_of_isOk {l : Layout} (h : l.validate.isOk = true) : l.validate = .ok () := by
  obtain ⟨⟨⟩, h⟩ := exists_of_isOk h
  exact h

theorem accepted_of_validate (h : validateLocationJournal fold v j = true) :
    ∃ m, j.source = some m ∧ Accepted fold v j m := by
  unfold validateLocationJournal at h
  split at h
  · cases h
  rename_i m hm
  obtain ⟨hidentity, h⟩ := ite_false_eq_true.1 h
  obtain ⟨hplaces, h⟩ := ite_false_eq_true.1 h
  obtain ⟨-, h⟩ := ite_false_eq_true.1 h
  obtain ⟨-, h⟩ := ite_false_eq_true.1 h
  split at h
  · cases h
  rename_i bytes hbytes
  obtain ⟨-, h⟩ := ite_false_eq_true.1 h
  obtain ⟨hcandidate, h⟩ := ite_false_eq_true.1 h
  obtain ⟨hentries, hdirectories⟩ := ite_false_eq_true.1 h
  simp only [Bool.or_eq_true, Bool.not_eq_true', not_or, Bool.not_eq_false] at hidentity
  obtain ⟨⟨⟨⟨⟨⟨⟨-, hready⟩, -⟩, htarget⟩, hrecord⟩, hstorage⟩, -⟩, -⟩ := hidentity
  simp only [Bool.or_eq_true, Bool.and_eq_true, bne_iff_ne, ne_eq, not_or, not_and, not_not,
    Bool.not_eq_true] at hplaces
  obtain ⟨⟨hstaging, hcleanup⟩, hapart⟩ := hplaces
  simp only [StorageMapping.ready, Bool.and_eq_true] at hready
  simp only [Bool.not_eq_true', Bool.not_eq_false] at hcandidate hentries
  obtain ⟨hchecked, hnodup⟩ := checkEntries_ok hentries
  exact ⟨m, hm, {
    source := validate_of_isOk hready.2, target := validate_of_isOk htarget
    record := hrecord
    storage := hstorage
    staging := Classical.or_iff_not_imp_left.2 hstaging
    cleanup := Classical.or_iff_not_imp_left.2 hcleanup
    apart := hapart
    tree := validPath_of_checkSourceTree hbytes
    candidate := validPath_of_checkCandidateTree hcandidate
    entries := fun e he => (hchecked e he).1
    sources := hnodup
    directories := fun d hd => all_eq_true.1 hdirectories d hd }⟩

def ownerSuffix : Bytes := ascii ".owner"

/-- The worker reads below the source root, writes below the staging directory and the target root,
and keeps its quarantine and the marker of it in the source root; the marker of the staging
directory is beside that. -/
structure Contained (fold : Bytes → Bytes) (j : LocationManifest) (m : StorageMapping) : Prop where
  targets : (j.entries.map (·.target)).Nodup
  sourceTarget : overlap (collisionKey fold m.root) (collisionKey fold j.target.root) = false
  sourceStaging : overlap (collisionKey fold m.root) (collisionKey fold j.staging) = false
  targetStaging : overlap (collisionKey fold j.target.root) (collisionKey fold j.staging) = false
  sources : ∀ e ∈ j.entries, Below m.root (join [m.root, e.source])
  walked : ∀ e ∈ j.sourceTree.entries, Below m.root (join [m.root, e.path])
  staged : ∀ e ∈ j.entries, Below j.staging (join [j.staging, e.target])
  stagedDirectories : ∀ d ∈ j.directories, Below j.staging (join [j.staging, d])
  published : ∀ e ∈ j.entries, Below j.target.root (join [j.target.root, e.target])
  publishedDirectories : ∀ d ∈ j.directories, Below j.target.root (join [j.target.root, d])
  candidates : ∀ e ∈ j.candidateTree.entries, Below j.target.root (join [j.target.root, e.path])
  cleanup : j.cleanupPath ≠ [] → Below m.root j.cleanupPath
  quarantine : j.cleanupPath ≠ [] → ∀ i : Nat,
    Below j.cleanupPath (join [j.cleanupPath, decimal i]) ∧
      Below m.root (join [j.cleanupPath, decimal i])
  cleanupMarker : j.cleanupPath ≠ [] → Below m.root (j.cleanupPath ++ ownerSuffix)
  stagingMarker : isLocal (j.staging ++ ownerSuffix) = true ∧
    clean (j.staging ++ ownerSuffix) = j.staging ++ ownerSuffix ∧
    dir (j.staging ++ ownerSuffix) = dir j.staging

theorem below_validPath (h : Spells t cs) (hcs : cs ≠ [])
    (hp : validPath p = true) : Below t (join [t, p]) := by
  obtain ⟨xs, hxs, hnormal, rfl⟩ := exists_joined_of_validPath hp
  exact h.below_join hcs hxs hnormal

theorem joined_append_suffix : joined (cs ++ [c]) ++ x = joined (cs ++ [c ++ x]) := by
  by_cases hcs : cs = []
  · rw [hcs, nil_append, nil_append, joined_singleton, joined_singleton]
  · rw [joined_concat hcs, joined_concat hcs, append_assoc]

theorem normal_append_suffix (h : Normal c) : Normal (c ++ ownerSuffix) := by
  refine normal_of_length ?_ ?_
  · intro hmem
    rcases mem_append.1 hmem with hmem | hmem
    · exact h.no_slash hmem
    · exact absurd hmem (by decide)
  · rw [length_append]
    have hsuffix : ownerSuffix.length = 6 := by decide
    omega

theorem EntryChecked.source_eq
    {e e' : PlannedEntry} (hsource : source.layoutPrefix = [] ∨ Normal source.layoutPrefix)
    (htree : ∀ e ∈ tree, validPath e.path = true) (h : EntryChecked tree source target e)
    (h' : EntryChecked tree source target e') (heq : e.target = e'.target) :
    e.source = e'.source := by
  have hnames : ∀ {e : PlannedEntry}, EntryChecked tree source target e →
      ∃ xs, xs ≠ [] ∧ (∀ x ∈ xs, Normal x) ∧ e.source = joined xs ∧
        clean (join [source.layoutPrefix, e.source]) = joined (source.cutNames ++ xs) := by
    intro e h
    obtain ⟨found, hfound, hpath⟩ := h.listed
    have hvalid := htree found hfound
    rw [hpath] at hvalid
    obtain ⟨xs, hxs, hnormal, hjoined⟩ := exists_joined_of_validPath hvalid
    refine ⟨xs, hxs, hnormal, hjoined, ?_⟩
    rw [hjoined, cutNames]
    by_cases hnone : source.layoutPrefix = []
    · rw [if_pos hnone, hnone, nil_append, join, if_pos rfl, join,
        if_neg (joined_ne_nil hxs hnormal), joined_singleton, clean_joined hxs hnormal,
        clean_joined hxs hnormal]
    have hcut : ∀ c ∈ [source.layoutPrefix], Normal c :=
      forall_mem_singleton.2 (hsource.resolve_left hnone)
    have hjoin := (spells_joined (cons_ne_nil _ _) hcut).join hxs hnormal
    rw [joined_singleton] at hjoin
    rw [if_neg hnone, hjoin, clean_joined (by simp) (forall_mem_append.2 ⟨hcut, hnormal⟩)]
  obtain ⟨xs, hxs, hnormal, hjoined, hclean⟩ := hnames h
  obtain ⟨xs', hxs', hnormal', hjoined', hclean'⟩ := hnames h'
  have htext : joined (source.cutNames ++ xs) = joined (source.cutNames ++ xs') := by
    rw [← hclean, ← hclean', (relative_ok h.follows).2.2.1, (relative_ok h'.follows).2.2.1, heq]
  have hcut : ∀ c ∈ source.cutNames, Normal c := by
    intro c hc
    rw [cutNames] at hc
    split at hc
    · cases hc
    next hsome =>
    rw [mem_singleton.1 hc]
    exact hsource.resolve_left hsome
  have hlists := joined_inj (by simp [hxs]) (by simp [hxs'])
    (forall_mem_append.2 ⟨hcut, hnormal⟩) (forall_mem_append.2 ⟨hcut, hnormal'⟩) htext
  rw [hjoined, hjoined', append_cancel_left hlists]

/-- The staging directory is the one of earlier versions, or is made in the directory that holds
the target root. -/
def StagedApart (v : LocationOwner) (j : LocationManifest) (m : StorageMapping) : Prop :=
  j.staging = legacyStage m.storageID v ∨ dir j.target.root = dir (clean j.target.root)

theorem Accepted.stagingNames (h : Accepted fold v j m) (ht : j.target.Sound T) :
    ∃ ds, (∀ d ∈ ds, Normal d) ∧ j.staging = joined (ds ++ stageNames m.storageID v) ∧
      (ds <+: T ∧ ds.length < T.length ∧ StagedApart v j m ∨ T <+: ds ∧ ¬StagedApart v j m) := by
  have hstage := stageNames_normal h.storage h.record
  obtain ⟨ds, hds, hdir, hcases⟩ := ht.named.dir
  have hlength : T.dropLast.length < T.length := by
    have := length_pos_of_ne_nil ht.ne_nil
    rw [length_dropLast]
    omega
  have hcleandir : dir (clean j.target.root) = pathOf T.dropLast := by
    have hlast := dropLast_append_getLast ht.ne_nil
    rw [ht.named.clean, pathOf, if_neg ht.ne_nil, ← hlast, dir_joined, dropLast_concat, pathOf]
    rw [hlast]
    exact ht.named.normal
  by_cases hlegacy : j.staging = legacyStage m.storageID v
  · refine ⟨[], by simp, by rw [hlegacy, legacyStage_eq hstage, nil_append],
      .inl ⟨?_, ?_, .inl hlegacy⟩⟩
    · exact nil_prefix
    · exact length_pos_of_ne_nil ht.ne_nil
  have htarget : j.staging = joined (ds ++ stageNames m.storageID v) := by
    rw [h.staging.resolve_left hlegacy, targetStage, hdir, legacyStage_eq hstage]
    exact (spells_pathOf hds).join (cons_ne_nil _ _) hstage
  refine ⟨ds, hds, htarget, ?_⟩
  rcases hcases with rfl | hpre
  · refine .inl ⟨ dropLast_prefix T, hlength, .inr ?_⟩
    rw [hdir, hcleandir]
  refine .inr ⟨hpre, ?_⟩
  rintro (hsame | hsame)
  · exact hlegacy hsame
  · rw [hdir, hcleandir] at hsame
    have hlists := pathOf_inj hds (fun d hd => ht.named.normal d (dropLast_subset T hd)) hsame
    have hle := hpre.length_le
    rw [hlists] at hle
    omega

def cleanupName (v : LocationOwner) : Bytes := ascii ".tsh-cleanup-" ++ operationName v

theorem cleanupName_normal (h : component v.recordID = true) : Normal (cleanupName v) := by
  obtain ⟨hslash, hlen⟩ := operationName_normal h
  refine normal_of_length ?_ ?_
  · intro hmem
    rcases mem_append.1 hmem with hmem | hmem
    · exact absurd hmem (by decide)
    · exact hslash hmem
  · rw [cleanupName, length_append]
    omega

theorem Accepted.cleanup_eq (h : Accepted fold v j m) (hs : Spells m.root S)
    (hsome : j.cleanupPath ≠ []) : j.cleanupPath = joined (S ++ [cleanupName v]) := by
  have hname : ∀ c ∈ [cleanupName v], Normal c := by
    simpa using cleanupName_normal h.record
  have hjoin := hs.join (cons_ne_nil _ _) hname
  rw [joined_singleton] at hjoin
  rw [h.cleanup.resolve_left hsome, cleanupPath]
  exact hjoin

theorem Accepted.cleanup_below (h : Accepted fold v j m) (hs : Spells m.root S) (hS : S ≠ [])
    (hsome : j.cleanupPath ≠ []) :
    Below m.root j.cleanupPath ∧ Below m.root (j.cleanupPath ++ ownerSuffix) ∧
      ∀ i : Nat, Below j.cleanupPath (join [j.cleanupPath, decimal i]) ∧
        Below m.root (join [j.cleanupPath, decimal i]) := by
  have hname := cleanupName_normal h.record
  have heq := h.cleanup_eq hs hsome
  have hsingle : ∀ {x : Bytes}, Normal x → ∀ c ∈ [x], Normal c := forall_mem_singleton.2
  have hnamed : Spells j.cleanupPath (S ++ [cleanupName v]) := by
    rw [heq]
    exact spells_joined (by simp) (forall_mem_append.2 ⟨hs.normal, hsingle hname⟩)
  refine ⟨?_, ?_, fun i => ⟨?_, ?_⟩⟩
  · rw [heq]
    exact hs.below hS (cons_ne_nil _ _) (hsingle hname)
  · rw [heq, joined_append_suffix]
    exact hs.below hS (cons_ne_nil _ _) (hsingle (normal_append_suffix hname))
  · have hbelow := hnamed.below_join (by simp) (cons_ne_nil _ _) (hsingle (normal_decimal i))
    rwa [joined_singleton] at hbelow
  · have hjoin := hnamed.join (cons_ne_nil _ _) (hsingle (normal_decimal i))
    rw [joined_singleton, append_assoc] at hjoin
    rw [hjoin]
    exact hs.below hS (by simp) (forall_mem_append.2 ⟨hsingle hname, hsingle (normal_decimal i)⟩)

theorem marker_beside (h : ∀ d ∈ cs ++ [c], Normal d) :
    isLocal (joined (cs ++ [c]) ++ ownerSuffix) = true ∧
      clean (joined (cs ++ [c]) ++ ownerSuffix) = joined (cs ++ [c]) ++ ownerSuffix ∧
      dir (joined (cs ++ [c]) ++ ownerSuffix) = dir (joined (cs ++ [c])) := by
  have hmarker : ∀ d ∈ cs ++ [c ++ ownerSuffix], Normal d :=
    forall_mem_append.2 ⟨fun d hd => h d (mem_append_left _ hd),
      forall_mem_singleton.2 (normal_append_suffix (h c (by simp)))⟩
  rw [joined_append_suffix]
  refine ⟨isLocal_joined (by simp) hmarker, clean_joined (by simp) hmarker, ?_⟩
  rw [dir_joined hmarker, dir_joined h]

theorem Accepted.contained_iff {f : PathFold} (h : Accepted f.fold v j m) :
    Contained f.fold j m ↔ StagedApart v j m := by
  obtain ⟨S, hs⟩ := exists_sound h.source
  obtain ⟨T, ht⟩ := exists_sound h.target
  obtain ⟨ds, hds, hstaging, hcases⟩ := h.stagingNames ht
  have hstage := stageNames_normal h.storage h.record
  have hreserved : reservedComponent (ascii ".tsh-recovery") = true := by decide
  have hne : ds ++ stageNames m.storageID v ≠ [] := by simp [stageNames]
  have hnormal : ∀ c ∈ ds ++ stageNames m.storageID v, Normal c := forall_mem_append.2 ⟨hds, hstage⟩
  have hnamed : Spells j.staging (ds ++ stageNames m.storageID v) := by
    rw [hstaging]
    exact spells_joined hne hnormal
  have hsource : Spells m.root S := hs.named
  have happart := h.apart
  rw [← Bool.not_eq_true, f.overlap_key hsource ht.named hs.ne_nil ht.ne_nil, not_or] at happart
  obtain ⟨hST, hTS⟩ := happart
  constructor
  · intro hcontained
    rcases hcases with ⟨-, -, hgood⟩ | ⟨hpre, -⟩
    · exact hgood
    have hover : overlap (collisionKey f.fold j.target.root) (collisionKey f.fold j.staging)
        = true := by
      rw [f.overlap_key ht.named hnamed ht.ne_nil hne]
      exact .inl ((hpre.trans (prefix_append _ _)).map f.name)
    rw [hcontained.targetStaging] at hover
    cases hover
  intro hgood
  obtain ⟨hpre, hlen⟩ : ds <+: T ∧ ds.length < T.length := by
    rcases hcases with ⟨hpre, hlen, -⟩ | ⟨-, hbad⟩
    · exact ⟨hpre, hlen⟩
    · exact absurd hgood hbad
  have hsources : ∀ e ∈ j.entries, validPath e.source = true := by
    intro e he
    obtain ⟨found, hfound, hpath⟩ := (h.entries e he).listed
    rw [← hpath]
    exact h.tree found hfound
  refine {
    targets := ?_, sourceTarget := h.apart, sourceStaging := ?_, targetStaging := ?_
    sources := fun e he => below_validPath hsource hs.ne_nil (hsources e he)
    walked := fun e he => below_validPath hsource hs.ne_nil (h.tree e he)
    staged := fun e he => below_validPath hnamed hne (h.entries e he).valid
    stagedDirectories := fun d hd => below_validPath hnamed hne (h.directories d hd)
    published := fun e he => below_validPath ht.named ht.ne_nil (h.entries e he).valid
    publishedDirectories := fun d hd => below_validPath ht.named ht.ne_nil (h.directories d hd)
    candidates := fun e he => below_validPath ht.named ht.ne_nil (h.candidate e he)
    cleanup := fun hsome => (h.cleanup_below hsource hs.ne_nil hsome).1
    quarantine := fun hsome => (h.cleanup_below hsource hs.ne_nil hsome).2.2
    cleanupMarker := fun hsome => (h.cleanup_below hsource hs.ne_nil hsome).2.1
    stagingMarker := ?_ }
  · refine List.Nodup.map_on (fun e he e' he' heq => ?_) h.sources.of_map
    exact inj_on_of_nodup_map h.sources he he'
      ((h.entries e he).source_eq hs.cuts h.tree (h.entries e' he') heq)
  · obtain ⟨hbefore, hafter⟩ : (S.map f.name <+: (ds ++ stageNames m.storageID v).map f.name →
          S.map f.name <+: ds.map f.name) ∧
        ¬(ds ++ stageNames m.storageID v).map f.name <+: S.map f.name :=
      f.apart_of_reserved hs.free hreserved
    rw [← Bool.not_eq_true, f.overlap_key hsource hnamed hs.ne_nil hne, not_or]
    exact ⟨fun hover => hST ((hbefore hover).trans (hpre.map f.name)), hafter⟩
  · obtain ⟨hbefore, hafter⟩ : (T.map f.name <+: (ds ++ stageNames m.storageID v).map f.name →
          T.map f.name <+: ds.map f.name) ∧
        ¬(ds ++ stageNames m.storageID v).map f.name <+: T.map f.name :=
      f.apart_of_reserved ht.free hreserved
    rw [← Bool.not_eq_true, f.overlap_key ht.named hnamed ht.ne_nil hne, not_or]
    refine ⟨fun hover => ?_, hafter⟩
    have hle := (hbefore hover).length_le
    rw [length_map, length_map] at hle
    omega
  · have hlast : ds ++ stageNames m.storageID v =
        (ds ++ [ascii ".tsh-recovery", ascii "moves", m.storageID]) ++ [operationName v] := by
      rw [append_assoc]
      rfl
    rw [hlast] at hstaging hnormal
    rw [hstaging]
    exact marker_beside hnormal

/-- A plan brings every file but the marker of a volume to its place in the target layout. A journal
that passes the check is contained, unless its staging directory is made beside a target root whose
text does not end in the name of the root. -/
theorem location_contained (f : PathFold) :
    (∀ (volumes : List VolumeRegistration) (source target : Layout) (env : PlanEnv)
      (tree : StorageTree) (plan : LocationPlan), env.snapshot = .ok tree → tree.Walked →
      planLocation volumes source target env = .ok plan →
      ∀ e ∈ tree.entries, e.directory = false → ∀ path path',
        source.path path = .ok (join [source.root, e.path]) → target.path path = .ok path' →
        (plan.Brings target e path' ↔
          isVolumeMarker volumes (join [source.root, e.path]) = false)) ∧
    ∀ (v : LocationOwner) (j : LocationManifest), validateLocationJournal f.fold v j = true →
      ∃ m, j.source = some m ∧ (Contained f.fold j m ↔ StagedApart v j m) := by
  constructor
  · intro volumes source target env tree plan htree hwalked hplan e he hfile path path' hsource
      htarget
    exact planLocation_brings htree hwalked hplan he hfile hsource htarget
  intro v j h
  obtain ⟨m, hm, haccepted⟩ := accepted_of_validate h
  exact ⟨m, hm, haccepted.contained_iff⟩

def plainFold : PathFold where
  fold := id
  name := id
  fold_joined := fun cs _ _ => by rw [List.map_id, id]
  normal := fun _ h => h
  reserved := fun _ => rfl

def legacyRoot : Bytes := ascii "payload/" ++ List.replicate 40 0x61

def movedMapping : StorageMapping where
  hash := [0x68]
  version := 1
  root := legacyRoot
  state := .ready
  manifest := []
  storageID := ascii "s1"
  revision := 1
  layoutPrefix := []

def filmFolder : Layout := ⟨2, ascii "films/Film", ascii "Film"⟩

def filmPrint : RecoveryFingerprint where
  identity := "i"
  size := 5
  modified := 1
  digest := "00000000000000000000000000000000aaaaaaaaaaaaaaaaaaaaaaaaaaaaaaaa"

def filmFile : StorageTreeEntry := ⟨ascii "Film/a.mkv", false, filmPrint⟩

def filmTree : StorageTree := ⟨"d", [⟨ascii "Film", true, filmPrint⟩, filmFile]⟩

def filmEnv : PlanEnv where
  occupied := .ok false
  snapshot := .ok filmTree
  lstat := fun path => if path = dot then .ok () else .error .notExist
  freeSpace := fun _ => .ok 100

def filmPlan : LocationPlan :=
  ⟨.copy, [⟨ascii "Film/a.mkv", ascii "a.mkv", filmPrint⟩], [], 5, false, 100⟩

def movingOwner : LocationOwner := ⟨[0x68], ascii "r1", 3, .move⟩

def filmJournal (target : Layout) (entries : List PlannedEntry) : LocationManifest where
  schema := 1
  source := some movedMapping
  target := target
  staging := targetStage target (ascii "s1") movingOwner
  cleanupPath := cleanupPath legacyRoot movingOwner
  sourceTree := filmTree
  candidateTree := ⟨"", []⟩
  entries := entries
  directories := []
  method := some .copy
  extraBytes := 5

theorem filmTree_walked : filmTree.Walked := by
  have hname : Normal (ascii "Film") := normal_of_length (by decide) (by decide)
  have hfile : Normal (ascii "a.mkv") := normal_of_length (by decide) (by decide)
  refine ⟨fun e he => ?_, by decide⟩
  simp only [filmTree, mem_cons, not_mem_nil, or_false] at he
  rcases he with rfl | rfl
  · exact ⟨[ascii "Film"], by simp, by simpa using hname, by decide⟩
  · exact ⟨[ascii "Film", ascii "a.mkv"], by simp, by simp [hname, hfile], by decide⟩

theorem film_moved :
    filmPlan.Brings filmFolder filmFile (ascii "films/Film/a.mkv") ∧
      Contained id (filmJournal filmFolder filmPlan.entries) movedMapping := by
  obtain ⟨hplan, hjournal⟩ := location_contained plainFold
  constructor
  · refine (hplan [] movedMapping.layout filmFolder filmEnv filmTree filmPlan rfl filmTree_walked
      (by decide +kernel) filmFile (by decide) rfl (ascii "Film/a.mkv")
      (ascii "films/Film/a.mkv") (by decide +kernel) (by decide +kernel)).2 (by decide +kernel)
  obtain ⟨m, hm, hcontained⟩ := hjournal movingOwner (filmJournal filmFolder filmPlan.entries)
    (by decide +kernel)
  obtain rfl := Option.some.inj hm
  exact hcontained.2 (.inr (by decide +kernel))

/-- A legacy root that ends in a dot is the directory of itself, and the staging directory of the
move is made inside it. -/
theorem dottedRoot_overlaps :
    validateLocationJournal id movingOwner
        (filmJournal ⟨1, ascii "payload/" ++ List.replicate 40 0x62 ++ ascii "/.", []⟩ []) = true ∧
      overlap
        (collisionKey id (ascii "payload/" ++ List.replicate 40 0x62 ++ ascii "/."))
        (collisionKey id (targetStage
          ⟨1, ascii "payload/" ++ List.replicate 40 0x62 ++ ascii "/.", []⟩ (ascii "s1")
          movingOwner)) = true := by
  decide +kernel

end TorrentHub
