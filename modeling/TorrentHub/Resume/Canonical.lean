import TorrentHub.Resume.Roundtrip

namespace TorrentHub
open Lib Binary List Decoder

variable {fold : Bytes → Bytes} {c : Checkpoint} {data rest : Bytes}

theorem integer_run {n : Int64} (h : integer.run data = .ok (n, rest)) :
    data = Encoder.integer n ++ rest := by
  simp only [Decoder.integer, Decoder.take, run_bind_eq_ok, run_take_eq_ok, run_pure_eq_ok] at h
  obtain ⟨p, mid, ⟨rfl, hp⟩, rfl, rfl⟩ := h
  rw [Encoder.integer, UInt64.toUInt64_toInt64, uint64_value hp]

theorem text_run {limit : Nat} {s : Bytes} (h : (Decoder.text limit).run data = .ok (s, rest)) :
    data = Encoder.text s ++ rest := by
  rw [Decoder.text, Decoder.take, run_bind_eq_ok] at h
  obtain ⟨p, mid, hp, h⟩ := h
  obtain ⟨rfl, hlen⟩ := run_take_eq_ok.1 hp
  split at h
  · cases h
  obtain ⟨rfl, hs⟩ := run_take_eq_ok.1 h
  rw [Encoder.text, hs, uint32_value hlen, List.append_assoc]

theorem header_run {h : Decoder.Header} (hrun : Decoder.header.run data = .ok (h, rest))
    (hheader : c.generation = h.generation ∧ c.createdAtMS = h.createdAtMS ∧
      c.identity = h.identity ∧ Int64.ofNat c.files.length = h.files) :
    data = Encoder.header c ++ rest := by
  simp only [header, run_bind_eq_ok, run_pure_eq_ok] at hrun
  obtain ⟨_, _, h1, _, _, h2, _, _, h3, _, _, h4, _, _, h5, _, _, h6, _, _, h7, _, _, h8, _, _, h9,
    _, _, h10, _, _, h11, _, _, h12, _, _, h13, _, _, h14, _, _, h15, rfl, rfl⟩ := hrun
  obtain ⟨hgeneration, hcreated, hid, hfiles⟩ := hheader
  rw [integer_run h1, integer_run h2, text_run h3, text_run h4, text_run h5, text_run h6,
    text_run h7, text_run h8, text_run h9, integer_run h10, integer_run h11, integer_run h12,
    integer_run h13, integer_run h14, integer_run h15]
  simp only [Encoder.header, hgeneration, hcreated, hid, hfiles, append_assoc]

theorem flag_eq {n : Int64} (h : ¬(n != 0 && n != 1) = true) : n = if n == 1 then 1 else 0 := by
  simp only [Bool.and_eq_true, bne_iff_ne, not_and, not_not] at h
  by_cases hn : n = 0
  · rw [hn]
    rfl
  rw [h hn]
  rfl

theorem file_run {limit : Nat} {f : ResumeFile}
    (h : (Decoder.file limit).run data = .ok (f, rest)) : data = Encoder.file f ++ rest := by
  rw [file] at h
  simp only [run_bind_eq_ok] at h
  obtain ⟨_, _, h1, _, _, h2, _, _, h3, present, _, h4, _, _, h5, _, _, h6, _, _, h7, h⟩ := h
  split at h
  · cases h
  next hflag =>
  obtain ⟨rfl, rfl⟩ := run_pure_eq_ok.1 h
  rw [text_run h1, integer_run h2, integer_run h3, integer_run h4, text_run h5, integer_run h6,
    integer_run h7]
  simp only [Encoder.file, append_assoc, ← flag_eq hflag]

theorem files_run {n pathBytes : Nat} {files : List ResumeFile}
    (h : (Decoder.files n pathBytes).run data = .ok (files, rest)) :
    data = files.flatMap Encoder.file ++ rest ∧ files.length = n := by
  induction n generalizing pathBytes files data with
  | zero =>
    obtain ⟨rfl, rfl⟩ := run_pure_eq_ok.1 h
    exact ⟨rfl, rfl⟩
  | succ n ih =>
    simp only [Decoder.files, run_bind_eq_ok, run_pure_eq_ok] at h
    obtain ⟨f, mid, hf, files, _, hfiles, rfl, rfl⟩ := h
    obtain ⟨rfl, rfl⟩ := ih hfiles
    rw [file_run hf, flatMap_cons, append_assoc]
    exact ⟨rfl, rfl⟩

theorem files_of_check {h : Header} (hcheck : h.check = .ok ()) :
    Int64.ofNat h.files.toNatClampNeg = h.files := by
  simp only [Header.check, ite_error_eq_ok, Bool.or_eq_true, decide_eq_true_eq, not_or] at hcheck
  have hpos : ¬h.files < 1 := hcheck.1.2
  rw [Int64.lt_iff_toInt_lt] at hpos
  have hone : (1 : Int64).toInt = 1 := rfl
  apply Int64.toInt_inj.1
  have hlt := h.files.toInt_lt
  rw [Int64.toNatClampNeg, Int64.toInt_ofNat_of_lt (by omega)]
  omega

theorem body_run (h : Decoder.body.run data = .ok (c, rest)) :
    data = Encoder.header c ++ (c.files.flatMap Encoder.file ++ c.pieces) ++ rest := by
  simp only [Decoder.body, run_bind_eq_ok, run_pure_eq_ok, run_liftM_eq_ok, Decoder.take,
    run_take_eq_ok] at h
  obtain ⟨head, _, hhead, _, _, ⟨hcheck, rfl⟩, files, _, hfiles, pieces, _, ⟨rfl, -⟩, hc, rfl⟩ := h
  obtain ⟨rfl, hlen⟩ := files_run hfiles
  have hfields : c.generation = head.generation ∧ c.createdAtMS = head.createdAtMS ∧
      c.identity = head.identity ∧ Int64.ofNat c.files.length = head.files := by
    subst hc
    exact ⟨rfl, rfl, rfl, by rw [hlen, files_of_check hcheck]⟩
  rw [header_run hhead hfields]
  subst hc
  simp only [List.append_assoc]

theorem envelope_ok (h : Decoder.envelope data = .ok rest) :
    data = envelopeMagic ++ Encoder.integer schemaVersion ++ rest := by
  unfold Decoder.envelope at h
  split at h
  · cases h
  next magic schema rest' hrun =>
  rw [ite_error_eq_ok] at h
  obtain ⟨hmagic, h⟩ := h
  cases h
  simp only [Bool.or_eq_true, bne_iff_ne, not_or, not_not] at hmagic
  simp only [run_bind_eq_ok, run_pure_eq_ok, Decoder.take, run_take_eq_ok] at hrun
  obtain ⟨_, _, ⟨rfl, -⟩, _, _, hint, hpair, rfl⟩ := hrun
  cases hpair
  rw [integer_run hint, hmagic.1, hmagic.2, List.append_assoc]

section

variable (h : decode fold data = .ok c)
include h

theorem decode_ok : data.length ≤ maxCheckpointBytes ∧
      ∃ body, Decoder.envelope data = .ok body ∧ Decoder.body.run body = .ok (c, []) := by
  simp only [decode, throw_eq, error_bind, bind_eq_ok, ite_error_eq_ok] at h
  obtain ⟨hlen, body, henvelope, ⟨c', rest⟩, hbody, h⟩ := h
  simp only [pure_eq] at h
  obtain ⟨hrest, -, -, rfl⟩ := h
  obtain rfl : rest = [] := by simpa using hrest
  exact ⟨by omega, body, henvelope, hbody⟩

theorem bytes_of_decode : data = c.bytes := by
  obtain ⟨-, body, henvelope, hbody⟩ := decode_ok h
  rw [envelope_ok henvelope, body_run hbody, Checkpoint.bytes,
    (Checkpoint.validate_ok (decode_valid h)).1, append_nil]

theorem encode_of_decode : encode fold c = .ok data := by
  have hlen := (decode_ok h).1
  obtain rfl := bytes_of_decode h
  unfold encode
  rw [decode_valid h]
  exact if_neg (by omega)

end

theorem decode_append {c' : Checkpoint} {extra : Bytes} (h : decode fold data = .ok c)
    (h' : decode fold (data ++ extra) = .ok c') : extra = [] := by
  have hvalid := decode_valid h
  obtain ⟨-, body, henvelope, hbody⟩ := decode_ok h'
  have hdata := envelope_ok henvelope
  rw [bytes_of_decode h, Checkpoint.bytes, (Checkpoint.validate_ok hvalid).1,
    append_assoc _ _ extra, append_cancel_left_eq] at hdata
  rw [← hdata, reads_body hvalid extra] at hbody
  cases hbody
  rfl

/-- The codec is a bijection between the checkpoints that it encodes and the inputs that it decodes,
and an input is consumed to its end. -/
theorem codec_exact (fold : Bytes → Bytes) :
    (∀ c data, encode fold c = .ok data → decode fold data = .ok c) ∧
    (∀ data c, decode fold data = .ok c → c.validate fold = .ok () ∧ encode fold c = .ok data) ∧
    (∀ data data' c, decode fold data = .ok c → decode fold data' = .ok c → data = data') ∧
    ∀ data extra c c', decode fold data = .ok c → decode fold (data ++ extra) = .ok c' →
      extra = [] := by
  refine ⟨fun c data => decode_encode, fun data c h => ⟨decode_valid h, encode_of_decode h⟩, ?_,
    fun data extra c c' => decode_append⟩
  intro data data' c h h'
  rw [bytes_of_decode h, bytes_of_decode h']

end TorrentHub
