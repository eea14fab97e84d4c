import Mathlib.Data.List.Forall2
import TorrentHub.Resume.Native

namespace TorrentHub
open Lib RelPath Binary Framing List Option Except FileInfo Sha256

variable {rest : List FileInfo} {out : List ResumeFile} {cat : FileCatalogue}
  {native : FileCheckpoint}

structure Listed (layout : Layout) (fi : FileInfo) (f : ResumeFile) : Prop where
  relative : layout.relative fi.path = .ok f.path
  short : f.path.length ≤ maxPathLength
  offset : f.offset = fi.torrentOffset
  length : f.length = fi.length
  evidence : f.evidence = noEvidence

variable {layout : Layout} {mi mi' : MetaInfo} {info info' : Info}

theorem catalogFiles_ok {files : List ResumeFile} {pathBytes : Nat} {extent extent' : Int64}
    (h : catalogFiles layout rest files pathBytes extent = .ok (out, extent'))
    (hfiles : files.length ≤ maxFiles) :
    ∃ added, out = files ++ added ∧ Forall₂ (Listed layout) rest added ∧ out.length ≤ maxFiles := by
  induction rest generalizing files pathBytes extent with
  | nil =>
    obtain ⟨rfl, rfl⟩ := Prod.mk.inj (ok.inj h)
    exact ⟨[], (append_nil _).symm, .nil, hfiles⟩
  | cons fi rest ih =>
    unfold catalogFiles at h
    obtain ⟨hroom, h⟩ := ite_error_eq_ok.1 h
    split at h
    · cases h
    next path hpath =>
    obtain ⟨hbudget, h⟩ := ite_error_eq_ok.1 h
    obtain ⟨-, h⟩ := ite_error_eq_ok.1 h
    have hroom' : (files ++ [(⟨path, fi.torrentOffset, fi.length, noEvidence⟩ :
        ResumeFile)]).length ≤ maxFiles := by
      rw [length_append, length_singleton]
      omega
    obtain ⟨added, rfl, hadded, hlen⟩ := ih h hroom'
    refine ⟨_ :: added, by rw [append_assoc, singleton_append], .cons ?_ hadded, hlen⟩
    simp only [Bool.or_eq_true, decide_eq_true_eq, not_or, not_lt] at hbudget
    exact ⟨hpath, hbudget.2, rfl, rfl, rfl⟩

structure Layered (mi : MetaInfo) (layer : Bytes × Bytes) : Prop where
  key : layer.1.length = 32
  short : layer.2.length < 2 ^ 64
  known : mi.pieceLayers layer.1 = some layer.2

theorem catalogLayers_ok {pieceLength : Int64} {layers out : List (Bytes × Bytes)} {total : Nat}
    (h : catalogLayers mi pieceLength rest layers total = .ok out)
    (hlayers : ∀ l ∈ layers, Layered mi l) : (∀ l ∈ out, Layered mi l) ∧ (∀ l ∈ layers, l ∈ out) ∧
      out.length ≤ layers.length + rest.length ∧ (∀ fi ∈ rest, pieceLength < fi.length →
        ∃ key raw, fi.piecesRoot = some key ∧ (key.1, raw) ∈ out) ∧
      ∀ l ∈ out, l ∈ layers ∨ ∃ fi ∈ rest, pieceLength < fi.length ∧
        ∃ key, fi.piecesRoot = some key ∧ l.1 = key.1 := by
  induction rest generalizing layers total with
  | nil =>
    obtain rfl := ok.inj h
    exact ⟨hlayers, fun l hl => hl, le_rfl, nofun, fun l hl => .inl hl⟩
  | cons fi rest ih =>
    unfold catalogLayers at h
    obtain ⟨-, h⟩ := ite_error_eq_ok.1 h
    by_cases hsmall : fi.length ≤ pieceLength
    · rw [if_pos hsmall] at h
      obtain ⟨hout, hkept, hlen, hfound, hfrom⟩ := ih h hlayers
      refine ⟨hout, hkept, by rw [length_cons]; omega, ?_, ?_⟩
      · intro fi' hfi' hmulti
        rcases mem_cons.1 hfi' with rfl | hfi'
        · exact absurd hsmall (Int64.not_le.2 hmulti)
        · exact hfound fi' hfi' hmulti
      intro l hl
      refine (hfrom l hl).imp_right ?_
      rintro ⟨fi', hfi', hrest⟩
      exact ⟨fi', mem_cons_of_mem _ hfi', hrest⟩
    rw [if_neg hsmall] at h
    have hmulti : pieceLength < fi.length := Int64.not_le.1 hsmall
    split at h
    · cases h
    rename_i key hkey
    split at h
    · cases h
    rename_i raw hraw
    dsimp only at h
    obtain ⟨hlength, h⟩ := ite_error_eq_ok.1 h
    obtain ⟨-, h⟩ := ite_error_eq_ok.1 h
    have hshort : raw.length < 2 ^ 64 := by
      have hlt := ((if fi.length % pieceLength != 0 then fi.length / pieceLength + 1
        else fi.length / pieceLength) * 32).toInt_lt
      simp only [bne_iff_ne, ne_eq, not_not] at hlength
      simp only [bne_iff_ne, ne_eq] at hlt
      omega
    have hnew : ∀ l ∈ (key.1, raw) :: layers.filter (·.1 != key.1), Layered mi l := by
      intro l hl
      rcases mem_cons.1 hl with rfl | hl
      · exact ⟨key.2, hshort, hraw⟩
      · exact hlayers l (mem_of_mem_filter hl)
    obtain ⟨hout, hkept, hlen, hfound, hfrom⟩ := ih h hnew
    refine ⟨hout, ?_, ?_, ?_, ?_⟩
    · intro l hl
      by_cases hsame : l.1 = key.1
      · have hlayer : l = (key.1, raw) := by
          refine Prod.ext hsame ?_
          have hknown := (hlayers l hl).known
          rw [hsame, hraw] at hknown
          exact (Option.some.inj hknown).symm
        rw [hlayer]
        exact hkept _ mem_cons_self
      · exact hkept l (mem_cons_of_mem _ (mem_filter.2 ⟨hl, by simpa using hsame⟩))
    · have hfilter := length_filter_le (fun l => l.1 != key.1) layers
      rw [length_cons] at hlen ⊢
      omega
    · intro fi' hfi' hmulti'
      rcases mem_cons.1 hfi' with rfl | hfi'
      · exact ⟨key, raw, hkey, hkept _ mem_cons_self⟩
      · exact hfound fi' hfi' hmulti'
    · intro l hl
      rcases hfrom l hl with hl | ⟨fi', hfi', hrest⟩
      · rcases mem_cons.1 hl with rfl | hl
        · exact .inr ⟨fi, mem_cons_self, hmulti, key, hkey, rfl⟩
        · exact .inl (mem_of_mem_filter hl)
      · exact .inr ⟨fi', mem_cons_of_mem _ hfi', hrest⟩

structure HasLayer (mi : MetaInfo) (info : Info) (key raw : Bytes) : Prop where
  hasV2 : info.hasV2 = true
  listed : ∃ fi ∈ info.files, info.pieceLength < fi.length ∧
    ∃ root, fi.piecesRoot = some root ∧ root.1 = key
  known : mi.pieceLayers key = some raw

structure Catalogued (layout : Layout) (mi : MetaInfo) (info : Info) (cat : FileCatalogue) :
    Prop where
  files : List.Forall₂ (Listed layout) info.files cat.files
  few : cat.files.length ≤ maxFiles
  layered : ∀ l ∈ cat.layers, Layered mi l
  layers : ∀ l, l ∈ cat.layers ↔ HasLayer mi info l.1 l.2
  fewLayers : cat.layers.length ≤ maxFiles

variable {validatePieceLayers : List (Bytes × Bytes) → Info → Bool}

theorem catalogued_of_ok (h : fileCatalogue validatePieceLayers layout mi info = .ok cat) :
    Catalogued layout mi info cat := by
  unfold fileCatalogue at h
  obtain ⟨-, h⟩ := ite_error_eq_ok.1 h
  obtain ⟨-, h⟩ := ite_error_eq_ok.1 h
  obtain ⟨⟨files, extent⟩, hfiles, h⟩ := bind_eq_ok.1 h
  obtain ⟨added, hadded, hlisted, hfew⟩ := catalogFiles_ok hfiles (Nat.zero_le _)
  rw [nil_append] at hadded
  subst hadded
  dsimp only at h
  obtain ⟨-, h⟩ := ite_error_eq_ok.1 h
  by_cases hv2 : info.hasV2 = true
  · rw [hv2, Bool.not_true, if_neg Bool.false_ne_true] at h
    obtain ⟨-, h⟩ := ite_error_eq_ok.1 h
    obtain ⟨layers, hlayers, h⟩ := bind_eq_ok.1 h
    obtain ⟨-, h⟩ := ite_error_eq_ok.1 h
    obtain rfl := ok.inj h
    obtain ⟨hout, -, hlen, hfound, hfrom⟩ := catalogLayers_ok hlayers nofun
    refine ⟨hlisted, hfew, fun l hl => hout l (mem_mergeSort.1 hl), fun l => ?_, ?_⟩
    · rw [mem_mergeSort]
      constructor
      · intro hl
        refine ⟨hv2, ?_, (hout l hl).known⟩
        obtain ⟨fi, hfi, hmulti, root, hroot, heq⟩ := (hfrom l hl).resolve_left not_mem_nil
        exact ⟨fi, hfi, hmulti, root, hroot, heq.symm⟩
      rintro ⟨-, ⟨fi, hfi, hmulti, root, hroot, heq⟩, hknown⟩
      obtain ⟨key, raw, hkey, hmem⟩ := hfound fi hfi hmulti
      obtain rfl := some.inj (hroot.symm.trans hkey)
      have hraw := (hout _ hmem).known
      dsimp only at hraw
      rw [heq, hknown] at hraw
      obtain rfl := some.inj hraw
      rwa [heq] at hmem
    · have hsame := hlisted.length_eq
      rw [length_mergeSort]
      simp only [length_nil, Nat.zero_add] at hlen
      omega
  · rw [Bool.not_eq_true] at hv2
    rw [hv2, Bool.not_false, if_pos rfl] at h
    obtain rfl := ok.inj h
    refine ⟨hlisted, hfew, nofun, fun l => ⟨nofun, fun hl => ?_⟩, Nat.zero_le _⟩
    exact absurd hl.hasV2 (by rw [hv2]; decide)

theorem framed_catalogNumber : Framed catalogNumber Set.univ := by
  refine .of_length (fun n m => ?_) fun n m h => ?_
  · rw [catalogNumber, catalogNumber, length_uint64, length_uint64]
  · exact congrArg UInt64.toInt64 (uint64_injective h)

theorem catalogNumber_ofNat (n : Nat) : catalogNumber (Int64.ofNat n) = uint64 (UInt64.ofNat n) :=
  rfl

theorem catalogText_eq (s : Bytes) : catalogText s = lengthed s := by
  rw [catalogText, catalogNumber_ofNat, lengthed, counted, flatMap_singleton']

def fileText (f : ResumeFile) : Bytes :=
  catalogText f.path ++ catalogNumber f.offset ++ catalogNumber f.length

def layerText (l : Bytes × Bytes) : Bytes := catalogText l.1 ++ catalogText l.2

theorem framed_fileText :
    Framed fileText {f | f.path.length < 2 ^ 64 ∧ f.evidence = noEvidence} := by
  rintro ⟨path, offset, length, evidence⟩ ⟨hpath, rfl⟩ ⟨path', offset', length', evidence'⟩
    ⟨hpath', rfl⟩ rest rest' h
  simp only [fileText, catalogText_eq, append_assoc] at h
  obtain ⟨rfl, hnumbers⟩ := framed_lengthed path hpath path' hpath' _ _ h
  obtain ⟨rfl, hlength⟩ := framed_catalogNumber offset trivial offset' trivial _ _ hnumbers
  obtain ⟨rfl, hrest⟩ := framed_catalogNumber length trivial length' trivial _ _ hlength
  exact ⟨rfl, hrest⟩

theorem framed_layerText :
    Framed layerText ({key | key.length < 2 ^ 64} ×ˢ {raw | raw.length < 2 ^ 64}) := by
  have h := framed_lengthed.prod framed_lengthed
  simp only [← catalogText_eq] at h
  exact h

theorem bytes_eq (cat : FileCatalogue) (mi : MetaInfo) (info : Info) :
    cat.bytes mi info = (ascii "TSH-file-catalog-v1" ++ sum256 mi.infoBytes) ++
      (catalogNumber info.pieceLength ++ (catalogNumber info.numPieces ++
        (catalogNumber cat.extent ++ (counted fileText cat.files ++
          (counted layerText cat.layers ++ []))))) := by
  have hfile : fileText = fun f =>
      catalogText f.path ++ (catalogNumber f.offset ++ catalogNumber f.length) := by
    funext f
    rw [fileText, append_assoc]
  have hlayer : layerText = fun l => catalogText l.1 ++ catalogText l.2 := rfl
  simp only [FileCatalogue.bytes, flatMap_cons, flatMap_nil, append_nil,
    append_assoc, counted, catalogNumber_ofNat, hfile, hlayer]

theorem Catalogued.framed_files (h : Catalogued layout mi info cat) : cat.files.length < 2 ^ 64 ∧
      ∀ f ∈ cat.files, f ∈ {f : ResumeFile | f.path.length < 2 ^ 64 ∧ f.evidence = noEvidence} := by
  refine ⟨lt_of_le_of_lt h.few (by decide), fun f hf => ?_⟩
  obtain ⟨i, hi, rfl⟩ := getElem_of_mem hf
  have hlisted := h.files.get (by rw [h.files.length_eq]; exact hi) hi
  exact ⟨lt_of_le_of_lt hlisted.short (by decide), hlisted.evidence⟩

theorem Catalogued.framed_layers (h : Catalogued layout mi info cat) :
    cat.layers.length < 2 ^ 64 ∧ ∀ l ∈ cat.layers,
      l ∈ {key : Bytes | key.length < 2 ^ 64} ×ˢ {raw : Bytes | raw.length < 2 ^ 64} := by
  refine ⟨lt_of_le_of_lt h.fewLayers (by decide), fun l hl => ⟨?_, (h.layered l hl).short⟩⟩
  rw [Set.mem_ofPred_eq, (h.layered l hl).key]
  decide

theorem Catalogued.bytes_inj {layout' : Layout} {cat' : FileCatalogue}
    (h : Catalogued layout mi info cat) (h' : Catalogued layout' mi' info' cat')
    (hinfo : mi.infoBytes = mi'.infoBytes) (heq : cat.bytes mi info = cat'.bytes mi' info') :
    cat.files = cat'.files ∧ cat.layers = cat'.layers := by
  rw [bytes_eq, bytes_eq, hinfo] at heq
  obtain ⟨-, hcount⟩ := framed_catalogNumber _ trivial _ trivial _ _ (append_cancel_left heq)
  obtain ⟨-, hextent⟩ := framed_catalogNumber _ trivial _ trivial _ _ hcount
  obtain ⟨-, hfiles⟩ := framed_catalogNumber _ trivial _ trivial _ _ hextent
  obtain ⟨hfiles, hlayers⟩ := framed_fileText.counted _ h.framed_files _ h'.framed_files _ _ hfiles
  obtain ⟨hlayers, -⟩ := framed_layerText.counted _ h.framed_layers _ h'.framed_layers _ _ hlayers
  exact ⟨hfiles, hlayers⟩

def FileInfo.entry (fi : FileInfo) : Bytes × Int64 × Int64 :=
  (fi.path, fi.torrentOffset, fi.length)

theorem Listed.entry_eq {fi fi' : FileInfo} {f : ResumeFile} (h : Listed layout fi f)
    (h' : Listed layout fi' f) : fi.entry = fi'.entry := by
  have hclean : ∀ {fi : FileInfo}, Listed layout fi f → fi.path = layout.cut ++ f.path := by
    intro fi h
    obtain ⟨-, hvalid, hcut, -⟩ := Layout.relative_ok h.relative
    have hne := (rooted_of_isLocal (validateRelative_ok hvalid).1).2
    rw [← hcut, fi.clean_path.resolve_left hne]
  rw [entry, entry, hclean h, hclean h', ← h.offset, ← h'.offset, ← h.length, ← h'.length]

theorem entries_eq {files files' : List FileInfo} {listed : List ResumeFile}
    (h : Forall₂ (Listed layout) files listed) (h' : Forall₂ (Listed layout) files' listed) :
    files.map entry = files'.map entry := by
  induction h generalizing files' with
  | nil =>
    cases h'
    rfl
  | cons hfile _ ih =>
    cases h' with
    | cons hfile' hrest' => rw [map_cons, map_cons, hfile.entry_eq hfile', ih hrest']

variable {fold sha1 : Bytes → Bytes} {base base' bound : Identity} {files : List ResumeFile}

theorem catalogIdentity_ok
    (h : catalogIdentity validatePieceLayers base mi info = .ok (bound, files)) :
    ∃ cat, fileCatalogue validatePieceLayers base.layout mi info = .ok cat ∧ files = cat.files ∧
      bound = { base with
        pieceLength := info.pieceLength
        pieceCount := info.numPieces
        extentLength := cat.extent
        metainfoDigest := hex (sum256 mi.infoBytes)
        catalogDigest := hex (sum256 (cat.bytes mi info)) } := by
  unfold catalogIdentity at h
  obtain ⟨cat, hcat, h⟩ := bind_eq_ok.1 h
  obtain ⟨⟨⟩, -, h⟩ := bind_eq_ok.1 h
  obtain ⟨rfl, rfl⟩ := Prod.mk.inj (ok.inj h)
  exact ⟨cat, hcat, rfl, rfl⟩

theorem claimEvidence_attachEvidence {native : List CheckpointFile}
    (hlen : native.length = files.length) (h : attachEvidence native files = .ok out) :
    out.length = files.length ∧ claimEvidence out files = .ok native := by
  induction native generalizing files out with
  | nil =>
    obtain rfl := length_eq_zero_iff.1 hlen.symm
    obtain rfl := ok.inj h
    exact ⟨rfl, rfl⟩
  | cons f native ih =>
    cases files with
    | nil => cases hlen
    | cons g files =>
      unfold attachEvidence at h
      obtain ⟨hsame, h⟩ := ite_error_eq_ok.1 h
      obtain ⟨rest, hrest, h⟩ := bind_eq_ok.1 h
      obtain rfl := ok.inj h
      obtain ⟨hlength, hclaimed⟩ := ih (Nat.succ.inj hlen) hrest
      refine ⟨by rw [length_cons, length_cons, hlength], ?_⟩
      simp only [bne_iff_ne, ne_eq, Bool.or_eq_true, not_or, not_not] at hsame
      obtain ⟨⟨hpath, hoffset⟩, hlength⟩ := hsame
      have hself : (g.path != g.path || g.offset != g.offset || g.length != g.length) = false := by
        simp
      unfold claimEvidence
      rw [hself, if_neg Bool.false_ne_true, hclaimed, ← hpath, ← hoffset, ← hlength]
      rfl

theorem fromStorage_ok {generation nowMS : Int64} {c : Checkpoint}
    (h : fromStorage fold sha1 validatePieceLayers base mi info generation nowMS native = .ok c) :
    ∃ files, catalogIdentity validatePieceLayers base mi info = .ok (c.identity, files) ∧
      attachEvidence native.files files = .ok c.files ∧ native.files.length = files.length ∧
      c.pieces = native.complete ∧ c.validate fold = .ok () ∧
      native.infoHash = canonicalStorageHash sha1 mi info ∧ native.root = c.identity.root ∧
      native.pieceLength = c.identity.pieceLength ∧ native.pieceCount = c.identity.pieceCount ∧
      native.extentLength = c.identity.extentLength := by
  unfold fromStorage at h
  obtain ⟨⟨id, files⟩, hid, h⟩ := bind_eq_ok.1 h
  dsimp only at h
  obtain ⟨hsame, h⟩ := ite_error_eq_ok.1 h
  obtain ⟨attached, hattached, h⟩ := bind_eq_ok.1 h
  obtain ⟨⟨⟩, hvalid, h⟩ := bind_eq_ok.1 h
  obtain rfl := ok.inj h
  simp only [bne_iff_ne, ne_eq, Bool.or_eq_true, not_or, not_not] at hsame
  obtain ⟨⟨⟨⟨⟨hhash, hroot⟩, hpiece⟩, hcount⟩, hextent⟩, hlen⟩ := hsame
  exact ⟨files, hid, hattached, hlen, rfl, hvalid, hhash, hroot, hpiece, hcount, hextent⟩

theorem storageClaims_ok {saved : Checkpoint} {revoked : Bytes}
    (h : storageClaims fold sha1 validatePieceLayers base mi info saved revoked = .ok native) :
    ∃ files, catalogIdentity validatePieceLayers base mi info = .ok (saved.identity, files) := by
  unfold storageClaims at h
  obtain ⟨⟨⟩, -, h⟩ := bind_eq_ok.1 h
  obtain ⟨⟨expected, files⟩, hid, h⟩ := bind_eq_ok.1 h
  dsimp only at h
  obtain ⟨hsame, -⟩ := ite_error_eq_ok.1 h
  simp only [bne_iff_ne, ne_eq, Bool.or_eq_true, not_or, not_not] at hsame
  rw [hsame.1] at hid
  exact ⟨files, hid⟩

def hashed (validatePieceLayers : List (Bytes × Bytes) → Info → Bool) (base : Identity)
    (mi : MetaInfo) (info : Info) : Set Bytes :=
  { text | text = mi.infoBytes ∨
    ∃ cat, fileCatalogue validatePieceLayers base.layout mi info = .ok cat ∧
      text = cat.bytes mi info }

def fileLayer (mi : MetaInfo) (info : Info) (i : Nat) : Option Bytes := do
  let fi ← info.files[i]?
  if info.hasV2 && info.pieceLength < fi.length then
    let root ← fi.piecesRoot
    mi.pieceLayers root.1
  else none

/-- Two owners that a checkpoint does not tell apart: they agree but for the piece layers of files
of version 1 or of one piece. -/
structure SameOwner (base : Identity) (mi : MetaInfo) (info : Info) (base' : Identity)
    (mi' : MetaInfo) (info' : Info) : Prop where
  recordID : base.recordID = base'.recordID
  storageID : base.storageID = base'.storageID
  mappingRevision : base.mappingRevision = base'.mappingRevision
  layoutVersion : base.layoutVersion = base'.layoutVersion
  root : base.root = base'.root
  layoutPrefix : base.layoutPrefix = base'.layoutPrefix
  volumeID : base.volumeID = base'.volumeID
  infoBytes : mi.infoBytes = mi'.infoBytes
  files : info.files.map FileInfo.entry = info'.files.map FileInfo.entry
  layers : ∀ key raw, HasLayer mi info key raw ↔ HasLayer mi' info' key raw

theorem sameOwner_of_identity
    (h : catalogIdentity validatePieceLayers base mi info = .ok (bound, files))
    (h' : catalogIdentity validatePieceLayers base' mi' info' = .ok (bound, files'))
    (hsha : Set.InjOn sum256 (hashed validatePieceLayers base mi info ∪
      hashed validatePieceLayers base' mi' info')) : SameOwner base mi info base' mi' info' := by
  obtain ⟨cat, hcat, -, hid⟩ := catalogIdentity_ok h
  obtain ⟨cat', hcat', -, hid'⟩ := catalogIdentity_ok h'
  rw [hid] at hid'
  simp only [Identity.mk.injEq] at hid'
  obtain ⟨hrecord, hstorage, hrevision, hversion, hroot, hprefixed, hmeta, hcatalog, hvolume, -⟩ :=
    hid'
  have hinfo : mi.infoBytes = mi'.infoBytes :=
    hsha (.inl (.inl rfl)) (.inr (.inl rfl)) (hex_injective hmeta)
  have hbytes : cat.bytes mi info = cat'.bytes mi' info' :=
    hsha (.inl (.inr ⟨cat, hcat, rfl⟩)) (.inr (.inr ⟨cat', hcat', rfl⟩)) (hex_injective hcatalog)
  have hlayout : base.layout = base'.layout := by
    rw [Identity.layout, Identity.layout, hversion, hroot, hprefixed]
  have hc := catalogued_of_ok hcat
  have hc' := catalogued_of_ok hcat'
  obtain ⟨hfiles, hlayers⟩ := hc.bytes_inj hc' hinfo hbytes
  have hentries : info.files.map entry = info'.files.map entry := by
    refine entries_eq hc.files ?_
    rw [hlayout, hfiles]
    exact hc'.files
  refine ⟨hrecord, hstorage, hrevision, hversion, hroot, hprefixed, hvolume, hinfo, hentries, ?_⟩
  intro key raw
  rw [← hc.layers (key, raw), ← hc'.layers (key, raw), hlayers]

theorem SameOwner.fileLayer_eq (h : SameOwner base mi info base' mi' info) (i : Nat) :
    fileLayer mi info i = fileLayer mi' info i := by
  unfold fileLayer
  cases hfi : info.files[i]? with
  | none => rfl
  | some fi =>
    simp only [bind_eq_bind, bind_some]
    by_cases hmulti : info.hasV2 && info.pieceLength < fi.length
    · rw [if_pos hmulti, if_pos hmulti]
      cases hroot : fi.piecesRoot with
      | none => rfl
      | some root =>
        simp only [bind_some]
        rw [Bool.and_eq_true, decide_eq_true_eq] at hmulti
        have hlisted : ∃ fi ∈ info.files, info.pieceLength < fi.length ∧
            ∃ root', fi.piecesRoot = some root' ∧ root'.1 = root.1 :=
          ⟨fi, mem_of_getElem? hfi, hmulti.2, root, hroot, rfl⟩
        refine ext fun raw => ⟨fun hraw => ?_, fun hraw => ?_⟩
        · exact ((h.layers root.1 raw).1 ⟨hmulti.1, hlisted, hraw⟩).known
        · exact ((h.layers root.1 raw).2 ⟨hmulti.1, hlisted, hraw⟩).known
    · rw [if_neg hmulti, if_neg hmulti]

/-- Sealed evidence is claimed back as it was, without the revoked pieces, and for no other owner;
the info dictionary also binds the layers of the files. -/
theorem storageClaims_fromStorage (fold sha1 : Bytes → Bytes)
    (validatePieceLayers : List (Bytes × Bytes) → Info → Bool) (base : Identity) (mi : MetaInfo)
    (info : Info) (generation nowMS : Int64) (native : FileCheckpoint) (c : Checkpoint)
    (h : fromStorage fold sha1 validatePieceLayers base mi info generation nowMS native = .ok c) :
    (∀ revoked, storageClaims fold sha1 validatePieceLayers base mi info c revoked =
      if validBitmap revoked native.pieceCount then
        .ok { native with complete := Bitmap.diff native.complete revoked }
      else .error .invalid) ∧
    ∀ (base' : Identity) (mi' : MetaInfo) (info' : Info) (revoked : Bytes),
      Set.InjOn Sha256.sum256 (hashed validatePieceLayers base mi info ∪
        hashed validatePieceLayers base' mi' info') →
      (¬SameOwner base mi info base' mi' info' ∨
        (mi.infoBytes = mi'.infoBytes → info = info') ∧
          ∃ i, fileLayer mi info i ≠ fileLayer mi' info' i) →
      (storageClaims fold sha1 validatePieceLayers base' mi' info' c revoked).isOk = false := by
  obtain ⟨files, hid, hattached, hlen, hpieces, hvalid, hhash, hroot, hpiece, hcount, hextent⟩ :=
    fromStorage_ok h
  constructor
  · intro revoked
    obtain ⟨hlength, hclaimed⟩ := claimEvidence_attachEvidence hlen hattached
    have hself : (c.identity != c.identity || files.length != c.files.length) = false := by
      simp [hlength]
    unfold storageClaims
    rw [hvalid, hid]
    change (if (c.identity != c.identity || files.length != c.files.length) = true then _
      else _) = _
    rw [hself, if_neg Bool.false_ne_true, hclaimed, validateBitmap, ← hcount]
    split
    · change ok _ = _
      rw [← hhash, ← hroot, ← hpiece, ← hextent, hpieces]
    · rfl
  · intro base' mi' info' revoked hsha hdiffers
    by_contra hok
    rw [Bool.not_eq_false] at hok
    obtain ⟨native', hnative⟩ := exists_of_isOk hok
    obtain ⟨files', hid'⟩ := storageClaims_ok hnative
    have hsame := sameOwner_of_identity hid hid' hsha
    rcases hdiffers with hother | ⟨hinfo, i, hlayer⟩
    · exact hother hsame
    · obtain rfl := hinfo hsame.infoBytes
      exact hlayer (hsame.fileLayer_eq i)

def filmOwner : Identity where
  recordID := [0x72]
  storageID := [0x73]
  mappingRevision := 1
  layoutVersion := 2
  root := ascii "film"
  layoutPrefix := []
  metainfoDigest := []
  catalogDigest := []
  volumeID := [0x76]
  pieceLength := 0
  pieceCount := 0
  extentLength := 0

def filmLayer (hash : UInt8) : MetaInfo where
  infoBytes := [0x64, 0x65]
  pieceLayers := fun key =>
    if key = List.replicate 32 1 then some (List.replicate 64 hash) else none

def filmInfo : Info where
  pieceLength := 16384
  numPieces := 2
  files := [⟨ascii "video", 0, 32768, some ⟨List.replicate 32 1, by decide⟩, .inr (by decide)⟩]
  hasV1 := false
  hasV2 := true

def filmEvidence : FileCheckpoint where
  infoHash := (Sha256.sum256 [0x64, 0x65]).take 20
  root := ascii "film"
  pieceLength := 16384
  pieceCount := 2
  extentLength := 32768
  files := [⟨ascii "video", 0, 32768, true, ascii "inode", 32768, 100⟩]
  complete := [3]

def filmText (hash : UInt8) : Bytes :=
  match fileCatalogue (fun _ _ => true) filmOwner.layout (filmLayer hash) filmInfo with
  | .ok cat => cat.bytes (filmLayer hash) filmInfo
  | .error _ => []

theorem mem_hashed_film {hash : UInt8} {text : Bytes}
    (h : text ∈ hashed (fun _ _ => true) filmOwner (filmLayer hash) filmInfo) :
    text = [0x64, 0x65] ∨ text = filmText hash := by
  refine h.imp_right ?_
  rintro ⟨cat, hcat, rfl⟩
  rw [filmText, hcat]

theorem film_sealed :
    ∃ c, fromStorage id id (fun _ _ => true) filmOwner (filmLayer 2) filmInfo 1 1 filmEvidence
        = .ok c ∧
      storageClaims id id (fun _ _ => true) filmOwner (filmLayer 2) filmInfo c [2]
        = .ok { filmEvidence with complete := [1] } ∧
      (storageClaims id id (fun _ _ => true) filmOwner (filmLayer 3) filmInfo c [2]).isOk
        = false := by
  obtain ⟨c, hc⟩ := exists_of_isOk (show (fromStorage id id (fun _ _ => true) filmOwner
    (filmLayer 2) filmInfo 1 1 filmEvidence).isOk = true by decide +kernel)
  obtain ⟨hround, hbound⟩ := storageClaims_fromStorage id id (fun _ _ => true) filmOwner
    (filmLayer 2) filmInfo 1 1 filmEvidence c hc
  refine ⟨c, hc, ?_, hbound filmOwner (filmLayer 3) filmInfo [2] ?_ (.inr ⟨fun _ => rfl, 0, ?_⟩)⟩
  · rw [hround [2]]
    decide +kernel
  · have hinj : ∀ x ∈ [[0x64, 0x65], filmText 2, filmText 3],
        ∀ y ∈ [[0x64, 0x65], filmText 2, filmText 3],
          sum256 x = sum256 y → x = y := by decide +kernel
    have hmem : ∀ x ∈ hashed (fun _ _ => true) filmOwner (filmLayer 2) filmInfo ∪
        hashed (fun _ _ => true) filmOwner (filmLayer 3) filmInfo,
        x ∈ [[0x64, 0x65], filmText 2, filmText 3] := by
      intro x hx
      rcases hx with hx | hx
      · rcases mem_hashed_film hx with rfl | rfl <;> simp
      · rcases mem_hashed_film hx with rfl | rfl <;> simp
    exact fun x hx y hy => hinj x (hmem x hx) y (hmem y hy)
  · decide +kernel

end TorrentHub
