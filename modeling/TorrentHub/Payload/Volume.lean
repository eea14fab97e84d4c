import Mathlib.Data.List.Nodup
import TorrentHub.Lib.Select
import TorrentHub.Payload.Files

namespace TorrentHub
open Lib RelPath List

inductive VolumeState where
  | enrolling | ready
  | other (text : String)
deriving DecidableEq

structure VolumeRegistration where
  root : Bytes
  token : Bytes
  state : VolumeState
deriving DecidableEq

def volumeMarker : Bytes := ascii ".tsh-volume"

/-- Why a volume root was not found; `neverReturns` is a search that does not end. -/
inductive FindError where
  | unsafePath | neverReturns
  | fs (err : FsError)
deriving DecidableEq

def existingDirectory (fs : Filesystem) : Nat → Bytes → Except FindError (Bytes × Bytes)
  | 0, _ => .error .neverReturns
  | fuel + 1, path =>
    match fs.openDirectory path with
    | .error .notExist => existingDirectory fs fuel (dir path)
    | .error err => .error (.fs err)
    | .ok (.error err) => .error (.fs err)
    | .ok (.ok device) => .ok (path, device)

/-- Go up while the parent is on the same device, for at most `depth` parents. -/
def deviceBoundary (fs : Filesystem) (current : Bytes) : Nat → Bytes → Except FindError Bytes
  | 0, path => if path = dot then .ok path else .error .unsafePath
  | depth + 1, path =>
    if path = dot then .ok path
    else
      match fs.openDirectory (dir path) with
      | .error err => .error (.fs err)
      | .ok (.error err) => .error (.fs err)
      | .ok (.ok device) =>
        if device ≠ current then .ok path else deviceBoundary fs current depth (dir path)

def findVolumeStart (fs : Filesystem) (path : Bytes) : Bytes :=
  if path = dot then path
  else
    match fs.lstat path with
    | .ok .regular => dir path
    | _ => path

def findVolumeRoot (fs : Filesystem) (path : Bytes) : Except FindError Bytes :=
  if path ≠ dot ∧ ((validateRelative path).isOk = false ∨ clean path ≠ path) then
    .error .unsafePath
  else
    match existingDirectory fs (path.length + 1) (findVolumeStart fs path) with
    | .error err => .error err
    | .ok (path, current) => deviceBoundary fs current 128 path

def volumeMatches (path : Bytes) (v : VolumeRegistration) : Bool :=
  v.root == dot || path == v.root ||
    (overlap path v.root && decide (path.length > v.root.length))

def selectVolume (path : Bytes) (volumes : List VolumeRegistration) : Option VolumeRegistration :=
  pick (volumeMatches path) (fun v => v.root.length) volumes

inductive VolumeError where
  | unregistered
  | unavailable
  | markerUnavailable (err : PayloadError)
  | rootUnavailable (err : FindError)
deriving DecidableEq

def checkVolume (fs : Filesystem) (path : Bytes) (volumes : List VolumeRegistration) :
    Except VolumeError Unit :=
  match selectVolume path volumes with
  | none => .error .unregistered
  | some v =>
    if v.state ≠ .ready then .error .unregistered
    else
      match openPayload fs (join [v.root, volumeMarker]) with
      | .error err => .error (.markerUnavailable err)
      | .ok (.error _) => .error .unavailable
      | .ok (.ok contents) =>
        if contents.take 256 ≠ v.token ++ ascii "\n" then .error .unavailable
        else
          match findVolumeRoot fs path with
          | .error err => .error (.rootUnavailable err)
          | .ok actual => if actual ≠ v.root then .error .unregistered else .ok ()

def resumeVolumeToken (path : Bytes) (volumes : List VolumeRegistration) : Bytes :=
  (volumes.foldl (fun (best : Int × Bytes) v =>
    if v.state = .ready ∧ volumeMatches path v = true ∧ (v.root.length : Int) > best.1 then
      ((v.root.length : Int), v.token)
    else best) (-1, [])).2

variable {fs : Filesystem} {path root : Bytes} {volumes : List VolumeRegistration}
  {v w : VolumeRegistration}

def Covers (root path : Bytes) : Prop := root = dot ∨ root = path ∨ root ++ [slash] <+: path

def depth (root : Bytes) : Nat := if root = dot then 0 else root.length

structure Deepest (volumes : List VolumeRegistration) (path : Bytes) (v : VolumeRegistration) :
    Prop where
  mem : v ∈ volumes
  covers : Covers v.root path
  le : ∀ w ∈ volumes, Covers w.root path → depth w.root ≤ depth v.root

def Mounted (fs : Filesystem) (root : Bytes) : Prop :=
  ∃ device parent, fs.openDirectory root = .ok (.ok device) ∧
    fs.openDirectory (dir root) = .ok (.ok parent) ∧ device ≠ parent

def HoldsToken (fs : Filesystem) (v : VolumeRegistration) : Prop :=
  openPayload fs (join [v.root, volumeMarker]) = .ok (.ok (v.token ++ ascii "\n"))

theorem volumeMatches_iff (hp : managed path = true) (hr : managed v.root = true) :
    volumeMatches path v = true ↔ Covers v.root path := by
  simp only [volumeMatches, overlap, managed_clean hp, managed_clean hr, Bool.or_eq_true,
    Bool.and_eq_true, beq_iff_eq, decide_eq_true_eq, isPrefixOf_iff_prefix, Covers]
  constructor
  · rintro ((h | h) | ⟨(h | h) | h, hlen⟩)
    · exact .inl h
    · exact .inr (.inl h.symm)
    · exact .inr (.inl h.symm)
    · exact .inr (.inr h)
    · have hle := h.length_le
      simp only [length_append, length_cons, length_nil] at hle
      omega
  · rintro (h | h | h)
    · exact .inl (.inl h)
    · exact .inl (.inr h.symm)
    · have hle := h.length_le
      simp only [length_append, length_cons, length_nil] at hle
      exact .inr ⟨.inl (.inr h), by omega⟩

theorem Covers.begins (h : Covers root path) (hd : root ≠ dot) : root <+: path := by
  rcases h with h | h | h
  · exact absurd h hd
  · subst h
    exact prefix_rfl
  · exact (prefix_append root [slash]).trans h

theorem Covers.eq_of_length {root' : Bytes} (h : Covers root path) (h' : Covers root' path)
    (hd : root ≠ dot) (hd' : root' ≠ dot) (hlen : root.length = root'.length) : root = root' :=
  (prefix_of_prefix_length_le (h.begins hd) (h'.begins hd') hlen.le).eq_of_length hlen

theorem deviceBoundary_returns (current : Bytes) (fuel : Nat) (path : Bytes) :
    deviceBoundary fs current fuel path ≠ .error .neverReturns := by
  induction fuel generalizing path with
  | zero =>
    unfold deviceBoundary
    split <;> exact fun h => by cases h
  | succ fuel ih =>
    unfold deviceBoundary
    split
    · exact fun h => by cases h
    split
    · exact fun h => by cases h
    · exact fun h => by cases h
    · split
      · exact fun h => by cases h
      · exact ih _

theorem existingDirectory_ends (hroot : fs.openDirectory dot ≠ .error .notExist) (fuel : Nat)
    (path : Bytes) (hp : managed path = true) (hfuel : path ≠ dot → path.length < fuel)
    (hpos : 0 < fuel) : existingDirectory fs fuel path ≠ .error .neverReturns := by
  induction fuel generalizing path with
  | zero => omega
  | succ fuel ih =>
    unfold existingDirectory
    split
    next hgone =>
      have hd : path ≠ dot := fun hd => hroot (hd ▸ hgone)
      have hlen := hfuel hd
      have hne := length_pos_of_ne_nil (managed_ne_nil hp)
      rcases dir_managed hp hd with h | ⟨cs, hn, hcs, h, hlt⟩
      · rw [h]
        exact ih dot (by decide) (fun hc => absurd rfl hc) (by omega)
      · rw [h]
        exact ih _ (managed_of_joined hn hcs) (fun _ => by omega) (by omega)
    · exact fun h => by cases h
    · exact fun h => by cases h
    · exact fun h => by cases h

theorem existingDirectory_device {current : Bytes} {fuel : Nat} {start : Bytes}
    (h : existingDirectory fs fuel start = .ok (path, current)) :
    fs.openDirectory path = .ok (.ok current) := by
  induction fuel generalizing start with
  | zero => cases h
  | succ fuel ih =>
    unfold existingDirectory at h
    split at h
    · exact ih h
    · cases h
    · cases h
    next hopen =>
    cases h
    exact hopen

theorem deviceBoundary_mounted {current : Bytes} {fuel : Nat}
    (hopen : fs.openDirectory path = .ok (.ok current))
    (h : deviceBoundary fs current fuel path = .ok root) (hd : root ≠ dot) : Mounted fs root := by
  induction fuel generalizing path with
  | zero =>
    unfold deviceBoundary at h
    split at h
    next hp =>
      cases h
      exact absurd hp hd
    · cases h
  | succ fuel ih =>
    unfold deviceBoundary at h
    split at h
    next hp =>
      cases h
      exact absurd hp hd
    split at h
    · cases h
    · cases h
    next device hparent =>
    split at h
    next hne =>
      cases h
      exact ⟨current, device, hopen, hparent, hne.symm⟩
    next heq =>
    rw [not_not] at heq
    exact ih (heq ▸ hparent) h

theorem findVolumeRoot_mounted (h : findVolumeRoot fs path = .ok root) (hd : root ≠ dot) :
    Mounted fs root := by
  unfold findVolumeRoot at h
  split at h
  · cases h
  split at h
  · cases h
  next start current hstart => exact deviceBoundary_mounted (existingDirectory_device hstart) h hd

/-- The search ends, unless the managed root is gone, and what it finds below is a mount point. -/
theorem findVolumeRoot_returns (hroot : fs.openDirectory dot ≠ .error .notExist) :
    findVolumeRoot fs path ≠ .error .neverReturns ∧
      ∀ root, findVolumeRoot fs path = .ok root → root ≠ dot → Mounted fs root := by
  refine ⟨?_, fun _ => findVolumeRoot_mounted⟩
  unfold findVolumeRoot
  split
  · exact fun h => by cases h
  next hok =>
  have hp : managed path = true := by grind [managed]
  have hstart : managed (findVolumeStart fs path) = true ∧
      (findVolumeStart fs path ≠ dot → (findVolumeStart fs path).length < path.length + 1) := by
    unfold findVolumeStart
    split
    · exact ⟨hp, fun _ => by omega⟩
    next hd =>
    split
    · rcases dir_managed hp hd with h | ⟨cs, hn, hcs, h, hlt⟩
      · rw [h]
        exact ⟨by decide, fun hc => absurd rfl hc⟩
      · rw [h]
        exact ⟨managed_of_joined hn hcs, fun _ => by omega⟩
    · exact ⟨hp, fun _ => by omega⟩
  have hends := existingDirectory_ends hroot (path.length + 1) _ hstart.1 hstart.2 (by omega)
  split
  next err herr =>
    intro h
    cases h
    exact hends herr
  · exact deviceBoundary_returns _ _ _

theorem checkVolume_ok (h : checkVolume fs path volumes = .ok ()) :
    ∃ v contents, selectVolume path volumes = some v ∧ v.state = .ready ∧
      openPayload fs (join [v.root, volumeMarker]) = .ok (.ok contents) ∧
      contents.take 256 = v.token ++ ascii "\n" ∧ findVolumeRoot fs path = .ok v.root := by
  unfold checkVolume at h
  split at h
  · cases h
  next v hv =>
  split at h
  · cases h
  next hs =>
  split at h
  · cases h
  · cases h
  next contents hopen =>
  split at h
  · cases h
  next ht =>
  split at h
  · cases h
  next actual hfind =>
  split at h
  · cases h
  next ha =>
  rw [not_not] at hs ht ha
  exact ⟨v, contents, hv, hs, hopen, ht, ha ▸ hfind⟩

theorem contents_of_take {contents token : Bytes} (hlen : token.length = 32)
    (h : contents.take 256 = token ++ ascii "\n") : contents = token ++ ascii "\n" := by
  have hn : (contents.take 256).length = 33 := by
    rw [h, length_append, hlen]
    rfl
  rw [length_take] at hn
  rw [← h, take_of_length_le (by omega)]

/-- One row for a root, every root a managed path, every token of the length that enrolment
requires, in any order. -/
structure VolumeRegistry where
  volumes : List VolumeRegistration
  nodup : (volumes.map VolumeRegistration.root).Nodup
  managed_root : ∀ v ∈ volumes, managed v.root = true
  token_length : ∀ v ∈ volumes, v.token.length = 32

theorem VolumeRegistry.eq_of_root (reg : VolumeRegistry) (hv : v ∈ reg.volumes)
    (hw : w ∈ reg.volumes) (h : v.root = w.root) : v = w :=
  inj_on_of_nodup_map reg.nodup hv hw h

/-- The managed root and a root of one byte both guard the path, and no longer root does. -/
structure Collides (volumes : List VolumeRegistration) (path : Bytes) : Prop where
  managed_root : ∃ v ∈ volumes, v.root = dot
  one_byte : ∃ v ∈ volumes, v.root ≠ dot ∧ v.root.length = 1 ∧ Covers v.root path
  no_longer : ∀ v ∈ volumes, Covers v.root path → v.root.length ≤ 1

/-- The law of the volume guard for one list of registrations and one path, in every state of
the file system. -/
structure VolumeGuard (volumes : List VolumeRegistration) (path : Bytes) : Prop where
  success : ∀ fs, checkVolume fs path volumes = .ok () →
    ∃ v, Deepest volumes path v ∧ v.state = .ready ∧ HoldsToken fs v ∧
      findVolumeRoot fs path = .ok v.root
  order : ∀ volumes', volumes'.Perm volumes →
    selectVolume path volumes' = selectVolume path volumes
  token : ∀ fs, checkVolume fs path volumes = .ok () →
    ∃ v, selectVolume path volumes = some v ∧ resumeVolumeToken path volumes = v.token
  unmounted : ∀ fs v, Deepest volumes path v → v.root ≠ dot → ¬ Mounted fs v.root →
    checkVolume fs path volumes ≠ .ok ()

namespace VolumeRegistry

variable {reg : VolumeRegistry}

section

variable (reg : VolumeRegistry)

theorem matches_iff (hp : managed path = true) (hv : v ∈ reg.volumes) :
    volumeMatches path v = true ↔ Covers v.root path :=
  volumeMatches_iff hp (reg.managed_root v hv)

theorem root_length_pos (hv : v ∈ reg.volumes) : 0 < v.root.length :=
  length_pos_of_ne_nil (managed_ne_nil (reg.managed_root v hv))

theorem depth_pos (hv : v ∈ reg.volumes) (hd : v.root ≠ dot) : 0 < depth v.root := by
  rw [depth, if_neg hd]
  exact reg.root_length_pos hv

end

theorem deepest_unique (hv : Deepest reg.volumes path v) (hw : Deepest reg.volumes path w) :
    v = w := by
  have hdepth := Nat.le_antisymm (hw.le v hv.mem hv.covers) (hv.le w hw.mem hw.covers)
  apply reg.eq_of_root hv.mem hw.mem
  by_cases hdv : v.root = dot
  · by_cases hdw : w.root = dot
    · rw [hdv, hdw]
    · have hpos := reg.depth_pos hw.mem hdw
      rw [← hdepth, depth, if_pos hdv] at hpos
      omega
  by_cases hdw : w.root = dot
  · have hpos := reg.depth_pos hv.mem hdv
    rw [hdepth, depth, if_pos hdw] at hpos
    omega
  · rw [depth, depth, if_neg hdv, if_neg hdw] at hdepth
    exact hv.covers.eq_of_length hw.covers hdv hdw hdepth

section

variable (hp : managed path = true) (hc : ¬ Collides reg.volumes path)
  (hv : Picked (volumeMatches path) (fun v => v.root.length) reg.volumes v)
include hp hc hv

theorem longest_unique (hw : w ∈ reg.volumes) (hm : volumeMatches path w = true)
    (hlen : w.root.length = v.root.length) : w = v := by
  have hcv := (reg.matches_iff hp hv.mem).1 hv.holds
  have hcw := (reg.matches_iff hp hw).1 hm
  have hmax : ∀ u ∈ reg.volumes, Covers u.root path → u.root.length ≤ v.root.length :=
    fun u hu hcu => hv.le u hu ((reg.matches_iff hp hu).2 hcu)
  have hone : dot.length = 1 := rfl
  apply reg.eq_of_root hw hv.mem
  by_cases hdv : v.root = dot
  · by_cases hdw : w.root = dot
    · rw [hdv, hdw]
    · rw [hdv] at hlen hmax
      exact absurd ⟨⟨v, hv.mem, hdv⟩, ⟨w, hw, hdw, hlen, hcw⟩, hmax⟩ hc
  by_cases hdw : w.root = dot
  · rw [hdw] at hlen
    rw [← hlen] at hmax
    exact absurd ⟨⟨w, hw, hdw⟩, ⟨v, hv.mem, hdv, hlen.symm, hcv⟩, hmax⟩ hc
  · exact hcw.eq_of_length hcv hdw hdv hlen

theorem picked_deepest : Deepest reg.volumes path v := by
  refine ⟨hv.mem, (reg.matches_iff hp hv.mem).1 hv.holds, ?_⟩
  intro w hw hcw
  have hm := (reg.matches_iff hp hw).2 hcw
  have hle : w.root.length ≤ v.root.length := hv.le w hw hm
  have hpos := reg.root_length_pos hw
  by_cases hdw : w.root = dot
  · rw [depth, if_pos hdw]
    exact Nat.zero_le _
  by_cases hdv : v.root = dot
  · have hlen : w.root.length = v.root.length := by
      rw [hdv] at hle ⊢
      have hone : dot.length = 1 := rfl
      omega
    rw [longest_unique hp hc hv hw hm hlen]
  · rw [depth, depth, if_neg hdw, if_neg hdv]
    exact hle

end

open VolumeRegistration

theorem resumeVolumeToken_eq (path : Bytes) (volumes : List VolumeRegistration) :
    resumeVolumeToken path volumes =
      ((pick (fun v => decide (v.state = .ready) && volumeMatches path v)
        (fun v => v.root.length) volumes).map token).getD [] := by
  have hrun : ∀ (l : List VolumeRegistration) (best : Option VolumeRegistration),
      (l.foldl (fun (best : Int × Bytes) v =>
        if v.state = .ready ∧ volumeMatches path v = true ∧ (v.root.length : Int) > best.1 then
          ((v.root.length : Int), v.token)
        else best)
        ((best.map fun v => (v.root.length : Int)).getD (-1), (best.map token).getD [])).2 =
      ((l.foldl (pickStep (fun v => decide (v.state = .ready) && volumeMatches path v)
        (fun v => v.root.length)) best).map token).getD [] := by
    intro l
    induction l with
    | nil => intro best; rfl
    | cons v l ih =>
      intro best
      rw [foldl_cons, foldl_cons, ← ih]
      congr 2
      unfold pickStep
      cases best with
      | none =>
        by_cases h : v.state = .ready ∧ volumeMatches path v = true
        · simp [h]
          omega
        · simp [h, ← and_assoc]
      | some b =>
        by_cases h : v.state = .ready ∧ volumeMatches path v = true ∧ b.root.length < v.root.length
        · simp [h]
        · simp [h, and_assoc]
  exact hrun volumes none

section

variable (hp : managed path = true) (hc : ¬ Collides reg.volumes path)
include hp hc

theorem selectVolume_perm {volumes' : List VolumeRegistration} (h : volumes'.Perm reg.volumes) :
    selectVolume path volumes' = selectVolume path reg.volumes := by
  cases hs : selectVolume path reg.volumes with
  | none =>
    rw [selectVolume, pick_eq_none_iff] at hs ⊢
    exact fun v hv => hs v (h.mem_iff.1 hv)
  | some v =>
    have hv := pick_picked hs
    apply pick_eq_some (hv.perm h.symm)
    exact fun w hw hm hlen => longest_unique hp hc hv (h.mem_iff.1 hw) hm hlen

theorem resumeVolumeToken_selected (hs : selectVolume path reg.volumes = some v)
    (hready : v.state = .ready) : resumeVolumeToken path reg.volumes = v.token := by
  have hv := pick_picked hs
  have hready' : Picked (fun v => decide (v.state = .ready) && volumeMatches path v)
      (fun v => v.root.length) reg.volumes v := by
    refine ⟨hv.mem, by simp [hready, hv.holds], fun w hw hm => hv.le w hw ?_⟩
    exact (Bool.and_eq_true _ _ ▸ hm).2
  have hpick := pick_eq_some hready' fun w hw hm hlen =>
    longest_unique hp hc hv hw (Bool.and_eq_true _ _ ▸ hm).2 hlen
  rw [resumeVolumeToken_eq, hpick]
  rfl

theorem guard_of_not_collides : VolumeGuard reg.volumes path := by
  have hsuccess : ∀ fs, checkVolume fs path reg.volumes = .ok () →
      ∃ v, selectVolume path reg.volumes = some v ∧ Deepest reg.volumes path v ∧
        v.state = .ready ∧ HoldsToken fs v ∧ findVolumeRoot fs path = .ok v.root := by
    intro fs h
    obtain ⟨v, contents, hs, hready, hopen, htake, hfind⟩ := checkVolume_ok h
    have hv := pick_picked hs
    have hcontents := contents_of_take (reg.token_length v hv.mem) htake
    rw [hcontents] at hopen
    exact ⟨v, hs, picked_deepest hp hc hv, hready, hopen, hfind⟩
  constructor
  · intro fs h
    obtain ⟨v, -, hv⟩ := hsuccess fs h
    exact ⟨v, hv⟩
  · exact fun _ h => selectVolume_perm hp hc h
  · intro fs h
    obtain ⟨v, hs, -, hready, -⟩ := hsuccess fs h
    exact ⟨v, hs, resumeVolumeToken_selected hp hc hs hready⟩
  · intro fs v hv hd hm h
    obtain ⟨w, -, hw, -, -, hfind⟩ := hsuccess fs h
    obtain rfl := deepest_unique hv hw
    exact hm (findVolumeRoot_mounted hfind hd)

end

theorem selectVolume_head (hp : managed path = true) (hc : Collides reg.volumes path)
    (hv : v ∈ reg.volumes) (hcv : Covers v.root path) (hlen : v.root.length = 1) :
    selectVolume path (v :: reg.volumes.erase v) = some v := by
  apply pick_head ((reg.matches_iff hp hv).2 hcv)
  intro w hw hm
  have hmem := mem_of_mem_erase hw
  have hle := hc.no_longer w hmem ((reg.matches_iff hp hmem).1 hm)
  omega

end VolumeRegistry

open VolumeRegistry

/-- The guard keeps its law, in every order of the registrations, exactly when no root of one byte
competes with the managed root for the path. -/
theorem volume_guard_iff (reg : VolumeRegistry) (path : { path : Bytes // managed path = true }) :
    VolumeGuard reg.volumes path.1 ↔ ¬ Collides reg.volumes path.1 := by
  constructor
  · intro hg hc
    obtain ⟨v, hv, hdv⟩ := hc.managed_root
    obtain ⟨w, hw, hdw, hlen, hcw⟩ := hc.one_byte
    have hfirst := selectVolume_head path.2 hc hv (.inl hdv) (by rw [hdv]; rfl)
    have hsecond := selectVolume_head path.2 hc hw hcw hlen
    rw [hg.order _ (perm_cons_erase hv).symm] at hfirst
    rw [hg.order _ (perm_cons_erase hw).symm, hfirst] at hsecond
    cases hsecond
    exact hdw hdv
  · exact guard_of_not_collides path.2

def collidingVolumes : List VolumeRegistration :=
  [⟨dot, List.replicate 32 0x30, .ready⟩, ⟨ascii "a", List.replicate 32 0x31, .ready⟩]

def collidingRegistry : VolumeRegistry :=
  ⟨collidingVolumes, by decide, by decide, by decide⟩

/-- The guard fails below `a` and holds for another path. -/
theorem volume_guard_iff_colliding :
    ¬ VolumeGuard collidingRegistry.volumes (ascii "a/x") ∧
      VolumeGuard collidingRegistry.volumes (ascii "bb") := by
  rw [volume_guard_iff collidingRegistry ⟨ascii "a/x", by decide⟩, not_not,
    volume_guard_iff collidingRegistry ⟨ascii "bb", by decide⟩]
  refine ⟨⟨⟨_, mem_cons_self, rfl⟩, ⟨_, mem_cons_of_mem _ mem_cons_self, by decide, rfl,
    .inr (.inr ⟨ascii "x", by decide⟩)⟩, ?_⟩, ?_⟩
  · intro v hv _
    rcases mem_cons.1 hv with rfl | hv
    · exact Nat.le_refl 1
    · obtain rfl := mem_singleton.1 hv
      exact Nat.le_refl 1
  · rintro ⟨-, ⟨v, hv, hdot, -, hcovers⟩, -⟩
    rcases mem_cons.1 hv with rfl | hv
    · exact hdot rfl
    · obtain rfl := mem_singleton.1 hv
      rcases hcovers with h | h | ⟨rest, h⟩
      · exact hdot h
      · exact absurd h (by decide)
      · cases h

/-- The volume of `a` is not mounted: everything is on one device, and only the marker of the
managed root is there. -/
def unmountedTree : Filesystem where
  lstat path :=
    if path = volumeMarker then .ok .regular
    else if path = dot ∨ path = ascii "a" then .ok .directory
    else .error .notExist
  openDirectory path :=
    if path = dot ∨ path = ascii "a" then .ok (.ok (ascii "dev")) else .error .notExist
  openRootFile path :=
    if path = volumeMarker then .ok (.ok (List.replicate 32 0x30 ++ ascii "\n"))
    else .error .notExist

theorem findVolumeRoot_returns_unmounted :
    findVolumeRoot unmountedTree (ascii "a/x") ≠ .error .neverReturns :=
  (findVolumeRoot_returns (by decide)).1

theorem volume_guard_passes_unmounted :
    checkVolume unmountedTree (ascii "a/x") collidingVolumes = .ok () ∧
      Deepest collidingVolumes (ascii "a/x") ⟨ascii "a", List.replicate 32 0x31, .ready⟩ ∧
      ¬ Mounted unmountedTree (ascii "a") ∧
      checkVolume unmountedTree (ascii "a/x") collidingVolumes.reverse ≠ .ok () := by
  refine ⟨by decide, ⟨by decide, .inr (.inr ⟨ascii "x", by decide⟩), ?_⟩, ?_, by decide⟩
  · intro w hw _
    rcases mem_cons.1 hw with rfl | hw
    · exact Nat.zero_le _
    · obtain rfl := mem_singleton.1 hw
      exact Nat.le_refl _
  rintro ⟨device, parent, hd, hp, hne⟩
  have hd' : unmountedTree.openDirectory (ascii "a") = .ok (.ok (ascii "dev")) := by decide
  have hp' : unmountedTree.openDirectory (dir (ascii "a")) = .ok (.ok (ascii "dev")) := by
    decide
  rw [hd'] at hd
  rw [hp'] at hp
  cases hd
  cases hp
  exact hne rfl

end TorrentHub
