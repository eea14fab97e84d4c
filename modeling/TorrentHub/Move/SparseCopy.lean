import TorrentHub.Lib.Run
import TorrentHub.Lib.Sparse
import TorrentHub.Move.Journal

namespace TorrentHub
open Lib List

structure RegularFile where
  identity : String
  modified : Int
  bytes : Bytes
deriving DecidableEq

/-- One call. The operations before the first truncation all succeed or not; `steps` counts those
completed after it, `cut` bytes are left of a write that is not, and `chunks` are the reads. -/
structure CopyCall where
  chunks : List Bytes
  early : Bool := false
  steps : Nat
  cut : Nat := 0
  now : Int := 0
deriving DecidableEq

inductive CopyOutcome where
  | done
  | changed
  | interrupted
deriving DecidableEq

def fingerprintRecovery (digest : Bytes → String) (f : RegularFile) : RecoveryFingerprint :=
  ⟨f.identity, f.bytes.length, f.modified, digest f.bytes⟩

def sameChunks (buffer : Nat) (src dst : Bytes) : Nat → Nat → Bool
  | 0, offset => decide (dst.length ≤ offset)
  | fuel + 1, offset =>
    if offset < dst.length then
      let n := min buffer (dst.length - offset)
      (src.drop offset).take n == (dst.drop offset).take n &&
        sameChunks buffer src dst fuel (offset + n)
    else true

def copyBuffer : Nat := 128 * 1024

structure SparseState where
  bytes : Bytes
  position : Nat
  total : Nat
deriving DecidableEq

def zeroChunk (chunk : Bytes) : Bool := chunk.all (· == 0)

def SparseState.put (s : SparseState) (chunk : Bytes) : SparseState where
  bytes := if zeroChunk chunk then s.bytes else writeAt s.bytes s.position chunk
  position := s.position + chunk.length
  total := s.total + chunk.length

def sparseLoop (cut : Nat) : Nat → List Bytes → SparseState → SparseState × Option Nat
  | steps, [], s => (s, some steps)
  | 0, chunk :: _, s =>
    ({ s with
      bytes := if zeroChunk chunk then s.bytes else writeAt s.bytes s.position (chunk.take cut) },
      none)
  | steps + 1, chunk :: chunks, s => sparseLoop cut steps chunks (s.put chunk)

/-- The part of `copyLocationFile` that writes, from the first truncation on. -/
def writeSparse (digest : Bytes → String) (e : StorageMoveEntry) (dst : RegularFile)
    (call : CopyCall) : RegularFile × CopyOutcome :=
  let written := fun bytes => { dst with bytes, modified := call.now }
  let (s, left) := sparseLoop call.cut call.steps call.chunks ⟨[], 0, 0⟩
  match left with
  | none => (written s.bytes, .interrupted)
  | some left =>
    if (s.total : Int) ≠ e.evidence.size || digest call.chunks.flatten ≠ e.evidence.digest then
      (written s.bytes, .changed)
    else if left = 0 then (written s.bytes, .interrupted)
    else
      let dst := written (truncate s.bytes s.total)
      if left = 1 then (dst, .interrupted)
      else
        let copied := fingerprintRecovery digest dst
        if copied.identity ≠ e.copyIdentity || copied.size ≠ e.evidence.size ||
            copied.digest ≠ e.evidence.digest then (dst, .changed)
        else (dst, .done)

def copyLocationFile (digest : Bytes → String) (e : StorageMoveEntry) (src dst : RegularFile)
    (call : CopyCall) : RegularFile × CopyOutcome :=
  let actual := fingerprintRecovery digest dst
  if call.early then (dst, .interrupted)
  else if actual.identity = e.copyIdentity && actual.size = e.evidence.size &&
      actual.digest = e.evidence.digest then (dst, .done)
  else if actual.identity ≠ e.copyIdentity then (dst, .changed)
  else if src.identity ≠ e.evidence.identity || (src.bytes.length : Int) ≠ e.evidence.size ||
      src.modified ≠ e.evidence.modified then (dst, .changed)
  else if actual.size > e.evidence.size then (dst, .changed)
  else if !sameChunks copyBuffer src.bytes dst.bytes dst.bytes.length 0 then (dst, .changed)
  else writeSparse digest e dst call

variable {digest : Bytes → String} {e : StorageMoveEntry} {src dst : RegularFile}
  {call : CopyCall}

theorem sameChunks_iff {buffer : Nat} {src dst : Bytes} (hbuffer : 0 < buffer)
    (hlength : dst.length ≤ src.length) {fuel offset : Nat} (hfuel : dst.length ≤ offset + fuel) :
    sameChunks buffer src dst fuel offset = true ↔
      (src.drop offset).take (dst.length - offset) = dst.drop offset := by
  induction fuel generalizing offset with
  | zero =>
    have hle : dst.length ≤ offset := by omega
    simp [sameChunks, hle]
  | succ fuel ih =>
    unfold sameChunks
    split
    next hlt =>
      dsimp only
      generalize hn : min buffer (dst.length - offset) = n
      have hpos : 0 < n := by omega
      have hle : n ≤ dst.length - offset := by omega
      have hsplit : dst.length - offset = n + (dst.length - (offset + n)) := by omega
      rw [Bool.and_eq_true, beq_iff_eq, ih (by omega), hsplit, take_add, drop_drop]
      conv_rhs =>
        rw [← take_append_drop n (dst.drop offset), drop_drop]
      constructor
      · rintro ⟨h1, h2⟩
        rw [h1, h2]
      intro h
      refine append_inj h ?_
      simp only [length_take, length_drop]
      omega
    next hge =>
      simp [drop_eq_nil_of_le (show dst.length ≤ offset by omega),
        show dst.length - offset = 0 by omega]

theorem sameChunks_isPrefix_iff {src dst : Bytes} (hlength : dst.length ≤ src.length) :
    sameChunks copyBuffer src dst dst.length 0 = true ↔ dst <+: src := by
  rw [sameChunks_iff (by decide) hlength (by omega), drop_zero, drop_zero, Nat.sub_zero,
    prefix_iff_eq_take, eq_comm]

theorem sparseLoop_spec (cut : Nat) (chunks : List Bytes) {done : Bytes} {s : SparseState}
    (h : Fills s.bytes s.position done) (htotal : s.total = s.position) (steps : Nat) :
    (sparseLoop cut steps chunks s).1.bytes <+: done ++ chunks.flatten ∧
      (steps < chunks.length → (sparseLoop cut steps chunks s).2 = none) ∧
      (chunks.length ≤ steps → (sparseLoop cut steps chunks s).2 = some (steps - chunks.length) ∧
        (sparseLoop cut steps chunks s).1.total = (done ++ chunks.flatten).length ∧
        Fills (sparseLoop cut steps chunks s).1.bytes (sparseLoop cut steps chunks s).1.total
          (done ++ chunks.flatten)) := by
  induction chunks generalizing steps s done with
  | nil =>
    have heq : sparseLoop cut steps [] s = (s, some steps) := by cases steps <;> rfl
    rw [heq, flatten_nil, append_nil, htotal]
    exact ⟨h.isPrefix, fun hlt => absurd hlt (by simp), fun _ => ⟨rfl, h.passed, h⟩⟩
  | cons chunk chunks ih =>
    cases steps with
    | zero =>
      refine ⟨?_, fun _ => rfl, fun hle => absurd hle (by simp)⟩
      change (if zeroChunk chunk then s.bytes
        else writeAt s.bytes s.position (chunk.take cut)) <+: _
      rw [flatten_cons, ← append_assoc]
      refine List.IsPrefix.trans ?_ (prefix_append (done ++ chunk) chunks.flatten)
      split
      · exact h.isPrefix.trans (prefix_append _ _)
      · exact h.write_isPrefix cut
    | succ steps =>
      have hput : Fills (s.put chunk).bytes (s.put chunk).position (done ++ chunk) := by
        unfold SparseState.put
        dsimp only
        split
        next hzero =>
          refine h.skip fun b hb => ?_
          simpa using all_eq_true.1 hzero b hb
        next hzero =>
        refine h.write ?_
        rintro rfl
        exact hzero rfl
      have htotal' : (s.put chunk).total = (s.put chunk).position := by
        simp only [SparseState.put, htotal]
      obtain ⟨hpre, hstop, hall⟩ := ih hput htotal' steps
      have heq : sparseLoop cut (steps + 1) (chunk :: chunks) s =
          sparseLoop cut steps chunks (s.put chunk) := rfl
      rw [flatten_cons, ← append_assoc, heq, length_cons]
      refine ⟨hpre, fun hlt => hstop (by omega), fun hle => ?_⟩
      rw [show steps + 1 - (chunks.length + 1) = steps - chunks.length by omega]
      exact hall (by omega)

/-- A copy that can be taken up: the file that was made for it, with a beginning of the source. -/
structure Resumable (e : StorageMoveEntry) (src dst : RegularFile) : Prop where
  identity : dst.identity = e.copyIdentity
  bytes : dst.bytes <+: src.bytes

section

variable (hevidence : e.evidence = fingerprintRecovery digest src)
  (hchunks : call.chunks.flatten = src.bytes) (hdst : Resumable e src dst)
include hevidence hchunks hdst

theorem writeSparse_spec : Resumable e src (writeSparse digest e dst call).1 ∧
      (writeSparse digest e dst call).2 ≠ .changed ∧ ((writeSparse digest e dst call).2 = .done →
        (writeSparse digest e dst call).1.bytes = src.bytes) ∧
      (call.chunks.length + 2 ≤ call.steps → (writeSparse digest e dst call).2 = .done) := by
  obtain ⟨hpre, hstop, hall⟩ := sparseLoop_spec call.cut call.chunks
    (show Fills (⟨[], 0, 0⟩ : SparseState).bytes 0 [] from .empty) rfl call.steps
  rw [nil_append, hchunks] at hpre hall
  unfold writeSparse
  dsimp only
  by_cases hsteps : call.steps < call.chunks.length
  · rw [hstop hsteps]
    refine ⟨⟨hdst.identity, hpre⟩, by simp, by simp, fun hle => by omega⟩
  obtain ⟨hleft, htotal, hfills⟩ := hall (by omega)
  rw [hleft]
  dsimp only
  have hsize : e.evidence.size = src.bytes.length := by rw [hevidence]; rfl
  have hdigest : e.evidence.digest = digest src.bytes := by rw [hevidence]; rfl
  rw [if_neg (by simp [htotal, hsize, hchunks, hdigest])]
  split
  · exact ⟨⟨hdst.identity, hpre⟩, by simp, by simp, fun hle => by omega⟩
  rw [hfills.truncate_eq]
  split
  · exact ⟨⟨hdst.identity, prefix_rfl⟩, by simp, by simp, fun hle => by omega⟩
  rw [if_neg (by simp [fingerprintRecovery, hdst.identity, hsize, hdigest])]
  exact ⟨⟨hdst.identity, prefix_rfl⟩, by simp, fun _ => rfl, fun _ => rfl⟩

theorem copyLocationFile_spec : Resumable e src (copyLocationFile digest e src dst call).1 ∧
      (copyLocationFile digest e src dst call).2 ≠ .changed ∧
      ((copyLocationFile digest e src dst call).2 = .done →
        (copyLocationFile digest e src dst call).1.bytes = src.bytes) ∧
      (call.early = false → call.chunks.length + 2 ≤ call.steps →
        (copyLocationFile digest e src dst call).2 = .done) := by
  have hsize : e.evidence.size = src.bytes.length := by rw [hevidence]; rfl
  have hidentity : e.evidence.identity = src.identity := by rw [hevidence]; rfl
  have hmodified : e.evidence.modified = src.modified := by rw [hevidence]; rfl
  have hlength := hdst.bytes.length_le
  unfold copyLocationFile
  dsimp only
  split
  next hearly =>
    exact ⟨hdst, by simp, by simp, fun hfalse => by rw [hfalse] at hearly; cases hearly⟩
  split
  next hsame =>
    simp only [Bool.and_eq_true, decide_eq_true_eq] at hsame
    refine ⟨hdst, by simp, fun _ => ?_, fun _ _ => rfl⟩
    have hfull : (dst.bytes.length : Int) = e.evidence.size := hsame.1.2
    exact hdst.bytes.eq_of_length (by omega)
  rw [if_neg (by simpa [fingerprintRecovery] using hdst.identity),
    if_neg (by simp [hidentity, hsize, hmodified]),
    if_neg (by simp only [fingerprintRecovery, hsize]; omega),
    if_neg (by simp [(sameChunks_isPrefix_iff hlength).2 hdst.bytes])]
  obtain ⟨h1, h2, h3, h4⟩ := writeSparse_spec hevidence hchunks hdst
  exact ⟨h1, h2, h3, fun _ => h4⟩

end

def Foreign (e : StorageMoveEntry) (src dst : RegularFile) : Prop :=
  dst.identity ≠ e.copyIdentity ∨ src.bytes.length < dst.bytes.length ∨
    ∃ i < dst.bytes.length, dst.bytes[i]? ≠ src.bytes[i]?

theorem copyLocationFile_foreign (hevidence : e.evidence = fingerprintRecovery digest src)
    (h : Foreign e src dst) : (copyLocationFile digest e src dst call).1 = dst := by
  have hsize : e.evidence.size = src.bytes.length := by rw [hevidence]; rfl
  unfold copyLocationFile
  dsimp only
  split
  · rfl
  split
  · rfl
  split
  · rfl
  rename_i hidentity
  split
  · rfl
  split
  · rfl
  rename_i hlonger
  have hlength : dst.bytes.length ≤ src.bytes.length := by
    simp only [fingerprintRecovery, hsize] at hlonger
    omega
  split
  · rfl
  rename_i hsame
  simp only [Bool.not_eq_true', Bool.not_eq_false, sameChunks_isPrefix_iff hlength] at hsame
  rcases h with h | h | ⟨i, hi, hne⟩
  · exact absurd h hidentity
  · omega
  · refine absurd ?_ hne
    obtain ⟨rest, hrest⟩ := hsame
    rw [← hrest, getElem?_append_left hi]

def copyStep (digest : Bytes → String) (e : StorageMoveEntry) (src dst : RegularFile)
    (call : CopyCall) : RegularFile := (copyLocationFile digest e src dst call).1

theorem resumable_exec (hevidence : e.evidence = fingerprintRecovery digest src)
    (hdst : Resumable e src dst) {calls : List CopyCall}
    (hcalls : ∀ c ∈ calls, c.chunks.flatten = src.bytes) :
    Resumable e src (exec (copyStep digest e src) dst calls) := by
  induction calls generalizing dst with
  | nil => exact hdst
  | cons call calls ih =>
    obtain ⟨hcall, hrest⟩ := forall_mem_cons.1 hcalls
    exact ih (copyLocationFile_spec hevidence hcall hdst).1 hrest

/-- After any number of interrupted calls one more does not take the copy for a foreign file, has
copied the source when it succeeds, and succeeds when it is not interrupted. What is not such a copy
is never written to. -/
theorem copyLocationFile_resumes (digest : Bytes → String) (e : StorageMoveEntry)
    (src dst : RegularFile) (hevidence : e.evidence = fingerprintRecovery digest src)
    (hdst : Resumable e src dst) (calls : List CopyCall) (call : CopyCall)
    (hcalls : ∀ c ∈ calls ++ [call], c.chunks.flatten = src.bytes) :
    let partly := exec (copyStep digest e src) dst calls
    let answer := copyLocationFile digest e src partly call
    answer.2 ≠ .changed ∧
    (answer.2 = .done → answer.1.bytes = src.bytes ∧ answer.1.identity = e.copyIdentity) ∧
    (call.early = false → call.chunks.length + 2 ≤ call.steps → answer.2 = .done) ∧
    ∀ other, Foreign e src other → ∀ any, (copyLocationFile digest e src other any).1 = other := by
  intro partly answer
  have hpartly : Resumable e src partly :=
    resumable_exec hevidence hdst fun c hc => hcalls c (mem_append_left _ hc)
  obtain ⟨hresumable, hchanged, hdone, hends⟩ :=
    copyLocationFile_spec hevidence (hcalls call (by simp)) hpartly
  exact ⟨hchanged, fun h => ⟨hdone h, hresumable.identity⟩, hends,
    fun other h any => copyLocationFile_foreign hevidence h⟩

def sparseSource : RegularFile := ⟨"src", 7, [1, 0, 0]⟩

def sparseEntry : StorageMoveEntry :=
  { source := "a", target := "a", copyIdentity := "dst"
    evidence := fingerprintRecovery (fun _ => "") sparseSource }

/-- The first call stops before the hole is part of the file, the second one completes. -/
theorem sparseCopy_resumed :
    let partly := copyStep (fun _ => "") sparseEntry sparseSource ⟨"dst", 0, []⟩
      ⟨[[1], [0, 0]], false, 2, 0, 1⟩
    partly.bytes = [1] ∧
      (copyLocationFile (fun _ => "") sparseEntry sparseSource partly
        ⟨[[1, 0], [0]], false, 4, 0, 2⟩).2 = .done := by
  have hresumes := copyLocationFile_resumes (fun _ => "") sparseEntry sparseSource ⟨"dst", 0, []⟩
    rfl ⟨rfl, nil_prefix⟩ [⟨[[1], [0, 0]], false, 2, 0, 1⟩] ⟨[[1, 0], [0]], false, 4, 0, 2⟩
    (by decide)
  exact ⟨by decide, hresumes.2.2.1 rfl (by decide)⟩

end TorrentHub
