import Mathlib.Algebra.Order.Group.Nat
import Mathlib.Data.Nat.Cast.Order.Basic
import TorrentHub.Lib.Lineage
import TorrentHub.Lib.Utf8
import TorrentHub.Payload.Layout

namespace TorrentHub
open Lib RelPath List Char Option

variable {limit : Nat} {y : List Char} {name : Bytes}

def controlRune (c : Char) : Bool := c.toNat < 32 || (127 ≤ c.toNat && c.toNat ≤ 159)

def refusedRunes : List Nat := [0x3c, 0x3e, 0x3a, 0x22, 0x2f, 0x5c, 0x7c, 0x3f, 0x2a]

def forbiddenRune (c : Char) : Bool := controlRune c || refusedRunes.contains c.toNat

def replaceRune (c : Char) : Char := if forbiddenRune c then '_' else c

def torrentWord : List Char := ['T', 'o', 'r', 'r', 'e', 'n', 't']

def torrentStem : List Char := ['T', 'o', 'r', 'r', 'e', 'n', 't', '_']

/-- What the policy takes from the libraries: the repair of text, the composition of characters, and
their case. A composed text stays so in its parts, with a refused character replaced, and beside
plain text. -/
structure Unicode where
  toValid : Bytes → List Char
  nfc : List Char → List Char
  lower : Char → Char
  upper : Char → Char
  fold : Bytes → Bytes
  toValid_utf8 : ∀ s, toValid (utf8 s) = s
  fold_utf8 : ∀ s, fold (utf8 s) = utf8 ((nfc s).map lower)
  nfc_idem : ∀ s, nfc (nfc s) = nfc s
  nfc_nil : nfc [] = []
  nfc_append : ∀ s t, (∀ c ∈ t, c.toNat < 128) → nfc (s ++ t) = nfc s ++ t
  nfc_part : ∀ a s b, nfc (a ++ s ++ b) = a ++ s ++ b → nfc s = s
  nfc_replace : ∀ s, nfc s = s → nfc (s.map replaceRune) = s.map replaceRune
  nfc_stem : ∀ s, nfc s = s → nfc (torrentStem ++ s) = torrentStem ++ s
  lower_ascii : ∀ c, c.toNat < 128 → lower c = c.toLower
  upper_ascii : ∀ c, c.toNat < 128 → upper c = c.toUpper

def trimmedRune (c : Char) : Bool := c == ' ' || c == '.' || c == '\t'

def trim (s : List Char) : List Char := (s.dropWhile trimmedRune).rdropWhile trimmedRune

def endRune (c : Char) : Bool := c == ' ' || c == '.'

def trimRight (s : List Char) : List Char := s.rdropWhile endRune

def deviceNames : List (List Char) :=
  [['C', 'O', 'N'], ['P', 'R', 'N'], ['A', 'U', 'X'], ['N', 'U', 'L'],
    ['C', 'O', 'N', 'I', 'N', '$'], ['C', 'O', 'N', 'O', 'U', 'T', '$']]

def reservedDevice (base : List Char) : Bool :=
  deviceNames.contains base ||
    match base with
    | [a, b, c, d] =>
      ([a, b, c] == ['C', 'O', 'M'] || [a, b, c] == ['L', 'P', 'T']) && decide ('0' ≤ d) &&
        decide (d ≤ '9')
    | _ => false

def utf8Length (s : List Char) : Nat := (s.map Char.utf8Size).sum

def cutReversed (limit : Nat) : List Char → List Char
  | [] => []
  | c :: s => if limit < utf8Length (c :: s) then cutReversed limit s else c :: s

def cut (limit : Nat) (s : List Char) : List Char := (cutReversed limit s.reverse).reverse

def servicePart : List Char := ['.', 't', 's', 'h', '-']

def stemOf (s : List Char) : List Char := s.takeWhile (· ≠ '.')

namespace Unicode

variable (u : Unicode)

def servicePrefix (s : List Char) : Bool := servicePart.isPrefixOf (s.map u.lower)

def device (s : List Char) : Bool := reservedDevice ((stemOf s).map u.upper)

def sanitized (s : List Char) : List Char :=
  let name := trim ((u.nfc s).map replaceRune)
  let name := if name = [] then torrentWord else name
  if u.device name || u.servicePrefix name then torrentStem ++ name else name

def folderText (s : List Char) : List Char := trimRight (cut 180 (u.sanitized s))

def folderName (name : Bytes) : List Char := u.folderText (u.toValid name)

def ordinalSuffix (ordinal : Nat) : List Char :=
  if 1 < ordinal then [' ', '('] ++ Nat.toDigits 10 ordinal ++ [')'] else []

def namedRoot (name : Bytes) (ordinal : Nat) : Bytes :=
  join [ascii "payload", utf8 (u.folderName name ++ ordinalSuffix ordinal)]

end Unicode

variable {u : Unicode} {s z : List Char} {c : Char}

theorem forbiddenRune_replaceRune (c : Char) : forbiddenRune (replaceRune c) = false := by
  unfold replaceRune
  split
  · decide
  next h => simpa using h

theorem replaceRune_of_not (h : forbiddenRune c = false) : replaceRune c = c := by
  unfold replaceRune
  rw [if_neg (by simp [h])]

theorem cutReversed_suffix (limit : Nat) (s : List Char) : cutReversed limit s <:+ s := by
  induction s with
  | nil => exact suffix_rfl
  | cons c s ih =>
    unfold cutReversed
    split
    · exact ih.trans (suffix_cons c s)
    · exact suffix_rfl

theorem utf8Length_cutReversed (limit : Nat) (s : List Char) :
    utf8Length (cutReversed limit s) ≤ limit := by
  induction s with
  | nil => exact Nat.zero_le _
  | cons c s ih =>
    unfold cutReversed
    split
    · exact ih
    · omega

theorem utf8Length_reverse (s : List Char) : utf8Length s.reverse = utf8Length s := by
  unfold utf8Length
  rw [map_reverse, sum_reverse]

theorem cut_isPrefix (limit : Nat) (s : List Char) : cut limit s <+: s := by
  have hsuffix := cutReversed_suffix limit s.reverse
  rw [← reverse_prefix, reverse_reverse] at hsuffix
  exact hsuffix

theorem utf8Length_cut (limit : Nat) (s : List Char) : utf8Length (cut limit s) ≤ limit := by
  unfold cut
  rw [utf8Length_reverse]
  exact utf8Length_cutReversed limit s.reverse

theorem cut_of_le (h : utf8Length s ≤ limit) : cut limit s = s := by
  rw [← utf8Length_reverse] at h
  unfold cut
  cases hr : s.reverse with
  | nil =>
    rw [reverse_eq_nil_iff] at hr
    rw [hr]
    rfl
  | cons c r =>
    rw [hr] at h
    unfold cutReversed
    rw [if_neg (by omega), ← hr, reverse_reverse]

theorem utf8Length_le_of_isPrefix (h : y <+: z) : utf8Length y ≤ utf8Length z := by
  obtain ⟨rest, rfl⟩ := h
  unfold utf8Length
  rw [map_append, sum_append]
  omega

theorem suffix_cutReversed (h : y <:+ s) (hy : utf8Length y ≤ limit) :
    y <:+ cutReversed limit s := by
  induction s with
  | nil => exact h
  | cons c s ih =>
    unfold cutReversed
    split
    next hlong =>
      rcases suffix_cons_iff.1 h with rfl | h
      · omega
      · exact ih h
    · exact h

theorem isPrefix_cut (h : y <+: s) (hy : utf8Length y ≤ limit) : y <+: cut limit s := by
  rw [← reverse_suffix] at h
  rw [← reverse_suffix, cut, reverse_reverse]
  exact suffix_cutReversed h (by rwa [utf8Length_reverse])

theorem cut_eq (h : utf8Length y ≤ limit) (hc : limit < utf8Length (y ++ [c])) :
    cut limit (y ++ c :: rest) = y := by
  obtain ⟨t, ht⟩ := isPrefix_cut (prefix_append y (c :: rest)) h
  cases t with
  | nil => rw [← ht, append_nil]
  | cons d t =>
    obtain ⟨r, hr⟩ := cut_isPrefix limit (y ++ c :: rest)
    rw [← ht, append_assoc, append_cancel_left_eq, cons_append] at hr
    obtain ⟨rfl, -⟩ := List.cons.inj hr
    have hle := utf8Length_cut limit (y ++ d :: rest)
    have hlong := utf8Length_le_of_isPrefix (y := y ++ [d]) (z := y ++ d :: t) ⟨t, by simp⟩
    rw [← ht] at hle
    omega

/-- The first character that is cut off crosses the limit. -/
theorem exists_cut (h : limit < utf8Length s) : ∃ c rest, s = cut limit s ++ c :: rest ∧
    limit < utf8Length (cut limit s ++ [c]) := by
  obtain ⟨t, ht⟩ := cut_isPrefix limit s
  cases t with
  | nil =>
    have hle := utf8Length_cut limit s
    rw [append_nil] at ht
    rw [ht] at hle
    omega
  | cons c t =>
    refine ⟨c, t, ht.symm, ?_⟩
    by_contra hle
    have hpre : cut limit s ++ [c] <+: s := ⟨t, by rw [append_assoc]; exact ht⟩
    have hlen := (isPrefix_cut hpre (Nat.not_lt.1 hle)).length_le
    simp at hlen

theorem cut_ne_nil (hlimit : 4 ≤ limit) (h : s ≠ []) : cut limit s ≠ [] := by
  obtain ⟨c, s, rfl⟩ := exists_cons_of_ne_nil h
  intro hnil
  have hone : ∀ r : List Char, cutReversed limit (r ++ [c]) ≠ [] := by
    intro r
    induction r with
    | nil =>
      have hsize := c.utf8Size_le_four
      rw [nil_append]
      unfold cutReversed
      rw [if_neg (by simp [utf8Length]; omega)]
      simp
    | cons d r ih =>
      rw [cons_append]
      unfold cutReversed
      split
      · exact ih
      · simp
  refine hone s.reverse ?_
  rw [← reverse_cons, ← reverse_eq_nil_iff]
  exact hnil

structure Unicode.Sanitized (u : Unicode) (z : List Char) : Prop where
  ne_nil : z ≠ []
  allowed : ∀ c ∈ z, forbiddenRune c = false
  head : ∀ c ∈ z.head?, trimmedRune c = false
  last : ∀ c ∈ z.getLast?, trimmedRune c = false
  composed : u.nfc z = z
  device : u.device z = false
  service : u.servicePrefix z = false

theorem trim_infix (s : List Char) : ∃ a b, s = a ++ trim s ++ b := by
  obtain ⟨a, ha⟩ := dropWhile_suffix (l := s) trimmedRune
  obtain ⟨b, hb⟩ := rdropWhile_prefix trimmedRune (s.dropWhile trimmedRune)
  refine ⟨a, b, ?_⟩
  rw [append_assoc]
  unfold trim
  rw [hb, ha]

theorem trim_head (hc : c ∈ (trim s).head?) : trimmedRune c = false := by
  have hpre : trim s <+: s.dropWhile trimmedRune := rdropWhile_prefix _ _
  have hhead : c ∈ (s.dropWhile trimmedRune).head? := by
    obtain ⟨rest, hrest⟩ := hpre
    rw [← hrest, head?_append]
    rw [mem_def] at hc ⊢
    rw [hc]
    rfl
  have hnot := head?_dropWhile_not trimmedRune s
  rw [mem_def.1 hhead] at hnot
  exact hnot

theorem rdropWhile_last (hc : c ∈ (s.rdropWhile p).getLast?) : p c = false := by
  have hne : s.rdropWhile p ≠ [] := by
    intro hnil
    rw [hnil] at hc
    cases hc
  have hnot := rdropWhile_last_not p s hne
  rw [getLast?_eq_some_getLast hne, mem_some] at hc
  rw [hc] at hnot
  simpa using hnot

theorem trim_of_ends (hhead : ∀ c ∈ s.head?, trimmedRune c = false)
    (hlast : ∀ c ∈ s.getLast?, trimmedRune c = false) : trim s = s := by
  have hdrop : s.dropWhile trimmedRune = s := by
    cases s with
    | nil => rfl
    | cons c s => rw [dropWhile_cons, if_neg (by simp [hhead c rfl])]
  unfold trim
  rw [hdrop, rdropWhile_eq_self_iff]
  intro hne
  simp [hlast _ (getLast?_eq_some_getLast hne)]

theorem forall_mem_of_all [DecidablePred P]
    (h : (s.all fun c => decide (P c)) = true) : ∀ c ∈ s, P c :=
  fun c hc => of_decide_eq_true (all_eq_true.1 h c hc)

theorem torrentStem_last : ∀ c ∈ torrentStem, forbiddenRune c = false :=
  forall_mem_of_all (by decide)

theorem device_torrentStem (u : Unicode) (s : List Char) : u.device (torrentStem ++ s) = false := by
  have hstem : stemOf (torrentStem ++ s) = torrentStem ++ stemOf s := by
    unfold stemOf
    rw [takeWhile_append_of_pos (forall_mem_of_all (by decide))]
  have hlength : 8 ≤ ((stemOf (torrentStem ++ s)).map u.upper).length := by
    rw [length_map, hstem, length_append]
    have height : torrentStem.length = 8 := by decide
    omega
  unfold Unicode.device reservedDevice
  generalize (stemOf (torrentStem ++ s)).map u.upper = base at hlength
  have hnames : ∀ name ∈ deviceNames, name.length ≤ 7 := by decide
  have hcontains : deviceNames.contains base = false := by
    rw [← Bool.not_eq_true, contains_iff_mem]
    intro hmem
    have hshort := hnames base hmem
    omega
  rw [hcontains, Bool.false_or]
  split
  · simp at hlength
  · rfl

open Unicode

theorem servicePrefix_torrentStem (u : Unicode) (s : List Char) :
    u.servicePrefix (torrentStem ++ s) = false := by
  have hlower : u.lower 'T' = 't' := u.lower_ascii 'T' (by decide)
  unfold servicePrefix
  rw [torrentStem, cons_append, map_cons, hlower]
  rfl

theorem sanitized_spec (u : Unicode) (s : List Char) : u.Sanitized (u.sanitized s) := by
  have hcomposed : u.nfc ((u.nfc s).map replaceRune) = (u.nfc s).map replaceRune :=
    u.nfc_replace _ (u.nfc_idem s)
  obtain ⟨a, b, hab⟩ := trim_infix ((u.nfc s).map replaceRune)
  have htrim : u.nfc (trim ((u.nfc s).map replaceRune)) = trim ((u.nfc s).map replaceRune) := by
    rw [hab] at hcomposed
    exact u.nfc_part a _ b hcomposed
  have hallowed : ∀ c ∈ trim ((u.nfc s).map replaceRune), forbiddenRune c = false := by
    intro c hc
    have hmem : c ∈ (u.nfc s).map replaceRune := by
      rw [hab]
      exact mem_append_left _ (mem_append_right _ hc)
    obtain ⟨d, -, rfl⟩ := mem_map.1 hmem
    exact forbiddenRune_replaceRune d
  have hhead : ∀ c ∈ (trim ((u.nfc s).map replaceRune)).head?, trimmedRune c = false :=
    fun c hc => trim_head hc
  have hlast : ∀ c ∈ (trim ((u.nfc s).map replaceRune)).getLast?, trimmedRune c = false :=
    fun c hc => rdropWhile_last hc
  unfold sanitized
  dsimp only
  generalize trim ((u.nfc s).map replaceRune) = trimmed at htrim hallowed hhead hlast
  obtain ⟨name, hname, hne, hcomp, hallow, hhd, hlst⟩ : ∃ name,
      (if trimmed = [] then torrentWord else trimmed) = name ∧ name ≠ [] ∧ u.nfc name = name ∧
        (∀ c ∈ name, forbiddenRune c = false) ∧ (∀ c ∈ name.head?, trimmedRune c = false) ∧
        ∀ c ∈ name.getLast?, trimmedRune c = false := by
    by_cases hempty : trimmed = []
    · refine ⟨torrentWord, if_pos hempty, by decide, ?_, forall_mem_of_all (by decide), ?_, ?_⟩
      · have happend := u.nfc_append [] torrentWord (forall_mem_of_all (by decide))
        rw [u.nfc_nil] at happend
        exact happend
      · rintro c ⟨⟩
        decide
      · rintro c ⟨⟩
        decide
    · exact ⟨trimmed, if_neg hempty, hempty, htrim, hallowed, hhead, hlast⟩
  rw [hname]
  split
  · refine ⟨by simp [torrentStem], ?_, ?_, ?_, u.nfc_stem name hcomp, device_torrentStem u name,
      servicePrefix_torrentStem u name⟩
    · intro c hc
      rcases mem_append.1 hc with hc | hc
      · exact torrentStem_last c hc
      · exact hallow c hc
    · rintro c ⟨⟩
      decide
    · intro c hc
      rw [getLast?_append_of_ne_nil _ hne] at hc
      exact hlst c hc
  next hplain =>
  rw [Bool.or_eq_true, not_or, Bool.not_eq_true, Bool.not_eq_true] at hplain
  exact ⟨hne, hallow, hhd, hlst, hcomp, hplain.1, hplain.2⟩

theorem Unicode.Sanitized.sanitized (h : u.Sanitized z) : u.sanitized z = z := by
  have hmap : z.map replaceRune = z := by
    conv_rhs => rw [← map_id z]
    exact map_congr_left fun c hc => replaceRune_of_not (h.allowed c hc)
  unfold Unicode.sanitized
  dsimp only
  rw [h.composed, hmap, trim_of_ends h.head h.last, if_neg h.ne_nil,
    if_neg (by simp [h.device, h.service])]

theorem trimRight_of_last (h : ∀ c ∈ z.getLast?, trimmedRune c = false) : trimRight z = z := by
  unfold trimRight
  rw [rdropWhile_eq_self_iff]
  intro hne
  have hlast := h _ (getLast?_eq_some_getLast hne)
  simp only [trimmedRune, Bool.or_eq_false_iff] at hlast
  simp [endRune, hlast]

theorem sanitized_cut (h : u.Sanitized z) (hdevice : u.device (trimRight (cut 180 z)) = false) :
    u.Sanitized (trimRight (cut 180 z)) := by
  have hpre : trimRight (cut 180 z) <+: z :=
    rdropWhile_prefix endRune (cut 180 z) |>.trans (cut_isPrefix 180 z)
  obtain ⟨c₀, hc₀⟩ : ∃ c, z.head? = some c := by
    obtain ⟨c, r, rfl⟩ := exists_cons_of_ne_nil h.ne_nil
    exact ⟨c, rfl⟩
  have hcut : (cut 180 z).head? = some c₀ := by
    obtain ⟨c, r, hcons⟩ := exists_cons_of_ne_nil (cut_ne_nil (show 4 ≤ 180 by decide) h.ne_nil)
    obtain ⟨rest, hrest⟩ := cut_isPrefix 180 z
    rw [hcons] at hrest
    rw [← hrest] at hc₀
    rw [hcons]
    exact hc₀
  have hne : trimRight (cut 180 z) ≠ [] := by
    intro hnil
    unfold trimRight at hnil
    rw [rdropWhile_eq_nil_iff] at hnil
    have hend := hnil c₀ (mem_of_head? hcut)
    have htrimmed := h.head c₀ hc₀
    simp only [trimmedRune, Bool.or_eq_false_iff] at htrimmed
    simp [endRune, htrimmed] at hend
  have hhead : (trimRight (cut 180 z)).head? = some c₀ := by
    obtain ⟨c, r, hcons⟩ := exists_cons_of_ne_nil hne
    obtain ⟨rest, hrest⟩ := hpre
    rw [hcons] at hrest
    rw [← hrest] at hc₀
    rw [hcons]
    exact hc₀
  refine ⟨hne, fun c hc => h.allowed c (hpre.subset hc), ?_, ?_, ?_, hdevice, ?_⟩
  · intro c hc
    rw [hhead, mem_some] at hc
    exact hc ▸ h.head c₀ hc₀
  · intro c hc
    have hend : endRune c = false := rdropWhile_last hc
    have hallowed := h.allowed c (hpre.subset (mem_of_getLast? hc))
    have htab : c ≠ '\t' := by
      rintro rfl
      exact absurd hallowed (by decide)
    simp only [endRune, Bool.or_eq_false_iff] at hend
    simp [trimmedRune, hend, htab]
  · obtain ⟨rest, hrest⟩ := hpre
    refine u.nfc_part [] _ rest ?_
    rw [nil_append, hrest]
    exact h.composed
  · have hservice := h.service
    unfold servicePrefix at hservice ⊢
    rw [← Bool.not_eq_true, isPrefixOf_iff_prefix] at hservice ⊢
    exact fun hbegins => hservice (hbegins.trans (hpre.map u.lower))

theorem endRune_of_reservedDevice (h : reservedDevice base = true) (hc : c ∈ base) :
    endRune c = false := by
  have hnames : (deviceNames.all fun name => name.all fun c => !endRune c) = true := by decide
  simp only [List.all_eq_true, Bool.not_eq_true'] at hnames
  unfold reservedDevice at h
  rw [Bool.or_eq_true, contains_iff_mem] at h
  rcases h with h | h
  · exact hnames base h c hc
  split at h
  next a b c d =>
    simp only [Bool.and_eq_true, Bool.or_eq_true, beq_iff_eq, decide_eq_true_eq] at h
    obtain ⟨⟨habc, hlow⟩, -⟩ := h
    have hd : endRune d = false := by
      by_contra hend
      simp only [endRune, Bool.not_eq_false, Bool.or_eq_true, beq_iff_eq] at hend
      rcases hend with rfl | rfl <;> exact absurd hlow (by decide)
    rcases habc with habc | habc <;> cases habc <;>
      simp only [mem_cons, not_mem_nil, or_false] at hc <;>
      rcases hc with rfl | rfl | rfl | rfl <;> first | decide | exact hd
  · cases h

theorem stemOf_of_isPrefix (h : y <+: z) (hdot : '.' ∈ y) : stemOf y = stemOf z := by
  obtain ⟨rest, rfl⟩ := h
  unfold stemOf
  rw [takeWhile_append, if_neg]
  intro hlength
  have hall : y.takeWhile (· ≠ '.') = y := takeWhile_prefix _ |>.eq_of_length hlength
  rw [← hall] at hdot
  have hne := mem_takeWhile_imp hdot
  simp at hne

theorem stemOf_of_not_mem (hdot : '.' ∉ y) : stemOf y = y := by
  unfold stemOf
  rw [takeWhile_eq_self_iff]
  intro c hc
  rw [decide_eq_true_eq]
  rintro rfl
  exact hdot hc

theorem endRune_of_reserved (h : reservedDevice (z.map u.upper) = true) :
    ∀ c ∈ z, endRune c = false := by
  intro c hc
  by_contra hend
  have hupper : u.upper c = c := by
    simp only [endRune, Bool.not_eq_false, Bool.or_eq_true, beq_iff_eq] at hend
    rcases hend with rfl | rfl <;> exact u.upper_ascii _ (by decide)
  exact hend (endRune_of_reservedDevice h (mem_map.2 ⟨c, hc, hupper⟩))

theorem device_of_reserved (h : reservedDevice (z.map u.upper) = true) : u.device z = true := by
  have hdot : '.' ∉ z := fun hmem => absurd (endRune_of_reserved h _ hmem) (by decide)
  unfold device
  rw [stemOf_of_not_mem hdot, h]

theorem trimRight_append (hgap : ∀ d ∈ gap, endRune d = true) (hz : ∀ c ∈ z, endRune c = false) :
    trimRight (z ++ gap) = z := by
  unfold trimRight rdropWhile
  rw [reverse_append, dropWhile_append_of_pos (by simpa using hgap)]
  cases hr : z.reverse with
  | nil => simpa using hr.symm
  | cons c r =>
    have hc : endRune c = false := hz c (by rw [← mem_reverse, hr]; exact mem_cons_self)
    rw [dropWhile_cons_of_neg (by simp [hc]), ← hr, reverse_reverse]

theorem exists_trimRight (z : List Char) :
    ∃ gap, z = trimRight z ++ gap ∧ ∀ d ∈ gap, endRune d = true :=
  ⟨z.rtakeWhile endRune, (rdropWhile_append_rtakeWhile ..).symm, fun _ hd => mem_rtakeWhile_imp hd⟩

/-- In the sanitized name there is no device name with only spaces and dots between it and the
character that crosses byte 180. -/
def Unicode.Kept (u : Unicode) (name : Bytes) : Prop :=
  ∀ base gap c rest, u.sanitized (u.toValid name) = base ++ gap ++ c :: rest →
    (∀ d ∈ gap, endRune d = true) → utf8Length (base ++ gap) ≤ 180 →
    180 < utf8Length (base ++ gap ++ [c]) → reservedDevice (base.map u.upper) = false

theorem sanitized_folderName (h : u.Kept name) : u.Sanitized (u.folderName name) := by
  have hz := sanitized_spec u (u.toValid name)
  refine sanitized_cut hz ?_
  rcases Nat.lt_or_ge 180 (utf8Length (u.sanitized (u.toValid name))) with hlong | hfits
  · obtain ⟨c, rest, hsplit, hcross⟩ := exists_cut hlong
    have hle := utf8Length_cut 180 (u.sanitized (u.toValid name))
    obtain ⟨gap, hgap, hend⟩ := exists_trimRight (cut 180 (u.sanitized (u.toValid name)))
    have hkept := h (trimRight (cut 180 (u.sanitized (u.toValid name)))) gap c rest
    rw [← hgap] at hkept
    have hdevice := hkept hsplit hend hle hcross
    by_cases hdot : '.' ∈ trimRight (cut 180 (u.sanitized (u.toValid name)))
    · have hpre : trimRight (cut 180 (u.sanitized (u.toValid name))) <+:
          u.sanitized (u.toValid name) :=
        rdropWhile_prefix endRune _ |>.trans (cut_isPrefix 180 _)
      have hdev := hz.device
      unfold device at hdev ⊢
      rw [stemOf_of_isPrefix hpre hdot]
      exact hdev
    · unfold device
      rw [stemOf_of_not_mem hdot]
      exact hdevice
  · rw [cut_of_le hfits, trimRight_of_last hz.last]
    exact hz.device

theorem utf8Length_folderName (u : Unicode) (name : Bytes) : utf8Length (u.folderName name) ≤ 180 :=
  (utf8Length_le_of_isPrefix <| rdropWhile_prefix endRune _).trans (utf8Length_cut 180 _)

theorem Unicode.Sanitized.folderName (h : u.Sanitized z) (hlength : utf8Length z ≤ 180) :
    u.folderName (utf8 z) = z := by
  unfold Unicode.folderName Unicode.folderText
  rw [u.toValid_utf8, h.sanitized, cut_of_le hlength, trimRight_of_last h.last]

theorem toNat_of_isDigit (h : c.isDigit = true) : 48 ≤ c.toNat ∧ c.toNat ≤ 57 := by
  unfold isDigit at h
  simp only [Bool.and_eq_true, decide_eq_true_eq, ge_iff_le, UInt32.le_iff_toNat_le] at h
  exact h

theorem toNat_ordinalSuffix (ordinal : Nat) :
    ∀ c ∈ ordinalSuffix ordinal, c.toNat < 65 ∧ c.toNat ≠ 47 := by
  intro c hc
  unfold ordinalSuffix at hc
  split at hc
  · rcases mem_append.1 hc with hc | hc
    · rcases mem_append.1 hc with hc | hc
      · simp only [mem_cons, not_mem_nil, or_false] at hc
        rcases hc with rfl | rfl <;> decide
      · have hdigit := toNat_of_isDigit (Nat.isDigit_of_mem_toDigits (by decide) (by decide) hc)
        omega
    · rw [mem_singleton] at hc
      rw [hc]
      decide
  · cases hc

theorem ordinalSuffix_inj (hm : 1 ≤ m) (hn : 1 ≤ n)
    (h : ordinalSuffix m = ordinalSuffix n) : m = n := by
  unfold ordinalSuffix at h
  split at h
  · split at h
    · rw [append_cancel_right_eq, append_cancel_left_eq] at h
      have hvalue := congrArg (fun cs => Nat.ofDigitChars 10 cs 0) h
      simpa [Nat.ofDigitChars_toDigits] using hvalue
    · simp at h
  · split at h
    · simp at h
    · omega

theorem normal_utf8 (h : u.Sanitized z) (ordinal : Nat) :
    Normal (utf8 (z ++ ordinalSuffix ordinal)) ∧ backslash ∉ utf8 (z ++ ordinalSuffix ordinal) ∧
      reservedComponent (utf8 (z ++ ordinalSuffix ordinal)) = false := by
  obtain ⟨c, r, rfl⟩ := exists_cons_of_ne_nil h.ne_nil
  have hhead : c ≠ '.' := by
    rintro rfl
    exact absurd (h.head '.' rfl) (by decide)
  obtain ⟨b, bs, hbytes⟩ := exists_cons_of_ne_nil
    (show utf8 (c :: (r ++ ordinalSuffix ordinal)) ≠ [] by
      change String.utf8EncodeChar c ++ _ ≠ []
      exact fun hnil => utf8EncodeChar_ne_nil (append_eq_nil_iff.1 hnil).1)
  have hfirst : b ≠ 0x2e := by
    rintro rfl
    have hdot := toNat_of_utf8_cons hbytes (by decide)
    exact hhead (ext (UInt32.toNat_inj.1 hdot))
  have hfree : ∀ d ∈ (c :: r) ++ ordinalSuffix ordinal, d.toNat ≠ 47 ∧ d.toNat ≠ 92 := by
    intro d hd
    rcases mem_append.1 hd with hd | hd
    · have hallowed := h.allowed d hd
      unfold forbiddenRune at hallowed
      rw [Bool.or_eq_false_iff, ← Bool.not_eq_true (refusedRunes.contains _),
        contains_iff_mem] at hallowed
      refine ⟨fun heq => hallowed.2 ?_, fun heq => hallowed.2 ?_⟩
      · rw [heq]
        decide
      · rw [heq]
        decide
    · have hsmall := toNat_ordinalSuffix ordinal d hd
      omega
  have hslash : slash ∉ utf8 ((c :: r) ++ ordinalSuffix ordinal) := by
    intro hmem
    obtain ⟨d, hd, heq⟩ := exists_of_mem_utf8 hmem (by decide)
    exact (hfree d hd).1 heq
  refine ⟨⟨?_, ?_, ?_, hslash⟩, ?_, ?_⟩
  · rw [cons_append, hbytes]
    simp
  · rw [cons_append, hbytes]
    intro heq
    exact hfirst (cons.inj heq).1
  · rw [cons_append, hbytes]
    intro heq
    exact hfirst (cons.inj heq).1
  · intro hmem
    obtain ⟨d, hd, heq⟩ := exists_of_mem_utf8 hmem (by decide)
    exact (hfree d hd).2 heq
  · rw [cons_append, hbytes, reservedComponent, map_cons]
    change (0x2e == lowerByte b && _) = false
    have hlower : lowerByte b ≠ 0x2e := by
      unfold lowerByte
      split
      next hupper =>
        simp only [Bool.and_eq_true, decide_eq_true_eq] at hupper
        intro heq
        have hbyte := congrArg UInt8.toNat heq
        rw [UInt8.toNat_add] at hbyte
        have hlow := UInt8.le_iff_toNat_le.1 hupper.1
        have hhigh := UInt8.le_iff_toNat_le.1 hupper.2
        simp at hbyte hlow hhigh
        omega
      · exact hfirst
    rw [Bool.and_eq_false_iff]
    exact .inl (by simpa using hlower.symm)

def payloadText : List Char := ['p', 'a', 'y', 'l', 'o', 'a', 'd', '/']

section

variable (h : u.Sanitized (u.folderName name)) (ordinal : Nat)
include h

theorem normal_rootNames :
    ∀ c ∈ [ascii "payload", utf8 (u.folderName name ++ ordinalSuffix ordinal)], Normal c := by
  have hpayload : Normal (ascii "payload") := by
    refine ⟨by decide, by decide, by decide, by decide⟩
  simp only [forall_mem_cons]
  exact ⟨hpayload, (normal_utf8 h ordinal).1, by simp⟩

theorem namedRoot_eq : u.namedRoot name ordinal = joined [ascii "payload",
        utf8 (u.folderName name ++ ordinalSuffix ordinal)] ∧ u.namedRoot name ordinal =
        utf8 (payloadText ++ u.folderName name ++ ordinalSuffix ordinal) := by
  have hnames := normal_rootNames h ordinal
  have hroot : u.namedRoot name ordinal = joined [ascii "payload",
      utf8 (u.folderName name ++ ordinalSuffix ordinal)] := by
    unfold namedRoot RelPath.join
    rw [if_neg (by decide), clean_joined (by simp) hnames]
  refine ⟨hroot, hroot.trans ?_⟩
  have htext : utf8 payloadText = ascii "payload" ++ [slash] := by decide +kernel
  rw [joined_cons_cons, joined_singleton, append_assoc payloadText]
  simp only [utf8_append, htext]

theorem validate_namedRoot :
    (⟨namedLayoutVersion, u.namedRoot name ordinal, []⟩ : Layout).validate = .ok () := by
  obtain ⟨-, hback, hreserved⟩ := normal_utf8 h ordinal
  have hnames := normal_rootNames h ordinal
  have hclean := clean_joined (show
    [ascii "payload", utf8 (u.folderName name ++ ordinalSuffix ordinal)] ≠ [] by simp) hnames
  have hlocal := isLocal_joined (show
    [ascii "payload", utf8 (u.folderName name ++ ordinalSuffix ordinal)] ≠ [] by simp) hnames
  have hcomponents := components_joined (show
    [ascii "payload", utf8 (u.folderName name ++ ordinalSuffix ordinal)] ≠ [] by simp)
    fun c hc => (hnames c hc).no_slash
  rw [(namedRoot_eq h ordinal).1]
  generalize hroot : joined [ascii "payload",
    utf8 (u.folderName name ++ ordinalSuffix ordinal)] = root at *
  have hdot : root ≠ dot := by
    rw [← hroot]
    exact joined_ne_dot (by simp) hnames
  have hbackslash : backslash ∉ root := by
    rw [← hroot, joined_cons_cons, joined_singleton]
    simp only [mem_append, not_or]
    exact ⟨⟨by decide, by decide⟩, hback⟩
  have hrelative : (validateRelative root).isOk = true := by
    unfold validateRelative
    rw [hlocal, hclean, if_neg (by simp [hdot])]
    rfl
  unfold Layout.validate
  dsimp only
  rw [if_neg (by rw [hrelative]; decide), if_neg (by decide),
    if_neg (by simp [hclean, hbackslash]), if_neg, if_neg (by simp)]
  rw [hcomponents]
  simp only [any_cons, any_nil, hreserved, Bool.or_false]
  decide

theorem collisionKey_namedRoot : collisionKey u.fold (u.namedRoot name ordinal) =
      utf8 ((u.nfc (payloadText ++ u.folderName name)).map u.lower) ++
        utf8 (ordinalSuffix ordinal) := by
  have hnames := normal_rootNames h ordinal
  have hclean : clean (u.namedRoot name ordinal) = u.namedRoot name ordinal := by
    rw [(namedRoot_eq h ordinal).1]
    exact clean_joined (by simp) hnames
  have hplain : ∀ c ∈ ordinalSuffix ordinal, u.lower c = c := by
    intro c hc
    have hsmall := (toNat_ordinalSuffix ordinal c hc).1
    rw [u.lower_ascii c (by omega)]
    unfold toLower
    rw [dif_neg]
    intro hupper
    have hlow := UInt32.le_iff_toNat_le.1 hupper.1
    change 65 ≤ c.toNat at hlow
    omega
  have hmap : (ordinalSuffix ordinal).map u.lower = ordinalSuffix ordinal := by
    conv_rhs => rw [← map_id (ordinalSuffix ordinal)]
    exact map_congr_left hplain
  unfold collisionKey
  rw [hclean, (namedRoot_eq h ordinal).2, u.fold_utf8, u.nfc_append _ _ fun c hc => ?_,
    map_append, hmap, utf8_append]
  have hsmall := (toNat_ordinalSuffix ordinal c hc).1
  omega

end

structure Unicode.Portable (u : Unicode) (y : List Char) : Prop where
  ne_nil : y ≠ []
  length : utf8Length y ≤ 180
  allowed : ∀ c ∈ y, forbiddenRune c = false
  head : ∀ c ∈ y.head?, c ≠ ' ' ∧ c ≠ '.'
  last : ∀ c ∈ y.getLast?, c ≠ ' ' ∧ c ≠ '.'
  service : u.servicePrefix y = false
  device : u.device y = false

theorem Unicode.Sanitized.portable (h : u.Sanitized z) (hlength : utf8Length z ≤ 180) :
    u.Portable z := by
  have hends : ∀ c, trimmedRune c = false → c ≠ ' ' ∧ c ≠ '.' := by
    intro c hc
    simp only [trimmedRune, Bool.or_eq_false_iff, beq_eq_false_iff_ne] at hc
    exact ⟨hc.1.1, hc.1.2⟩
  exact ⟨h.ne_nil, hlength, h.allowed, fun c hc => hends c (h.head c hc),
    fun c hc => hends c (h.last c hc), h.service, h.device⟩

/-- The policy keeps its promises for exactly the names that do not become the name of a device and
a gap when they are cut. -/
theorem folderName_portable_iff (u : Unicode) (name : Bytes) :
    (u.Portable (u.folderName name) ∧
      u.folderName (utf8 (u.folderName name)) = u.folderName name ∧
      (∀ ordinal, 1 ≤ ordinal →
        (⟨namedLayoutVersion, u.namedRoot name ordinal, []⟩ : Layout).validate = .ok ()) ∧
      ∀ m n, 1 ≤ m → 1 ≤ n → m ≠ n →
        collisionKey u.fold (u.namedRoot name m) ≠ collisionKey u.fold (u.namedRoot name n)) ↔
    u.Kept name := by
  constructor
  · rintro ⟨hportable, -⟩ base gap c rest hsplit hgap hle hcross
    by_contra hreserved
    rw [Bool.not_eq_false] at hreserved
    have hname : u.folderName name = base := by
      unfold folderName folderText
      rw [hsplit, cut_eq hle hcross, trimRight_append hgap (endRune_of_reserved hreserved)]
    have hdevice := hportable.device
    rw [hname, device_of_reserved hreserved] at hdevice
    cases hdevice
  intro hkept
  have hname := sanitized_folderName hkept
  have hlength := utf8Length_folderName u name
  refine ⟨hname.portable hlength, hname.folderName hlength,
    fun ordinal _ => validate_namedRoot hname ordinal, fun m n hm hn hne heq => hne ?_⟩
  rw [collisionKey_namedRoot hname, collisionKey_namedRoot hname, append_cancel_left_eq] at heq
  exact ordinalSuffix_inj hm hn (utf8_injective heq)

noncomputable def plainUnicode : Unicode where
  toValid := Function.invFun utf8
  nfc s := s
  lower := Char.toLower
  upper := Char.toUpper
  fold b := utf8 ((Function.invFun utf8 b).map Char.toLower)
  toValid_utf8 s := Function.leftInverse_invFun utf8_injective s
  fold_utf8 s := by rw [Function.leftInverse_invFun utf8_injective s]
  nfc_idem _ := rfl
  nfc_nil := rfl
  nfc_append _ _ _ := rfl
  nfc_part _ _ _ _ := rfl
  nfc_replace _ _ := rfl
  nfc_stem _ _ := rfl
  lower_ascii _ _ := rfl
  upper_ascii _ _ := rfl

def spacedDevice : List Char := ['C', 'O', 'N'] ++ List.replicate 200 ' ' ++ ['x']

section

variable (u : Unicode) (h : ∀ c ∈ s, c.toNat < 128)
include h

theorem nfc_plain : u.nfc s = s := by
  have happend := u.nfc_append [] s h
  rw [u.nfc_nil] at happend
  exact happend

theorem map_upper_plain : s.map u.upper = s.map toUpper :=
  map_congr_left fun c hc => u.upper_ascii c (h c hc)

theorem map_lower_plain : s.map u.lower = s.map toLower :=
  map_congr_left fun c hc => u.lower_ascii c (h c hc)

end

theorem sanitized_spacedDevice (u : Unicode) : u.Sanitized spacedDevice where
  ne_nil := by decide +kernel
  allowed := forall_mem_of_all (by decide +kernel)
  head := by
    rintro c ⟨⟩
    decide
  last := by
    have hlast : spacedDevice.getLast? = some 'x' := by decide +kernel
    rw [hlast]
    rintro c ⟨⟩
    decide
  composed := nfc_plain u (forall_mem_of_all (by decide +kernel))
  device := by
    have hstem : stemOf spacedDevice = spacedDevice := by decide +kernel
    unfold device
    rw [hstem, map_upper_plain u (forall_mem_of_all (by decide +kernel))]
    decide +kernel
  service := by
    unfold servicePrefix
    rw [map_lower_plain u (forall_mem_of_all (by decide +kernel))]
    decide +kernel

/-- The name becomes that of a device, and a second pass would change it. -/
theorem spacedDevice_folderName :
    Nonempty Unicode ∧ ∀ u : Unicode, u.folderName (utf8 spacedDevice) = ['C', 'O', 'N'] ∧
      u.device (u.folderName (utf8 spacedDevice)) = true ∧
      u.folderName (utf8 (u.folderName (utf8 spacedDevice))) = torrentStem ++ ['C', 'O', 'N'] := by
  refine ⟨⟨plainUnicode⟩, fun u => ?_⟩
  have hname : u.folderName (utf8 spacedDevice) = ['C', 'O', 'N'] := by
    unfold folderName folderText
    rw [u.toValid_utf8, (sanitized_spacedDevice u).sanitized]
    decide +kernel
  have hdevice : u.device ['C', 'O', 'N'] = true := by
    have hstem : stemOf ['C', 'O', 'N'] = ['C', 'O', 'N'] := by decide
    unfold device
    rw [hstem, map_upper_plain u (forall_mem_of_all (by decide))]
    decide
  have htrim : trim (['C', 'O', 'N'].map replaceRune) = ['C', 'O', 'N'] := by decide
  have hsanitized : u.sanitized ['C', 'O', 'N'] = torrentStem ++ ['C', 'O', 'N'] := by
    unfold sanitized
    dsimp only
    rw [nfc_plain u (forall_mem_of_all (by decide)), htrim,
      if_neg (show ¬['C', 'O', 'N'] = [] by decide), hdevice, Bool.true_or, if_pos rfl]
  rw [hname]
  refine ⟨rfl, hdevice, ?_⟩
  unfold folderName folderText
  rw [u.toValid_utf8, hsanitized]
  decide +kernel

end TorrentHub
