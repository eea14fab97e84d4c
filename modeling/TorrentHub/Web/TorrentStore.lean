import TorrentHub.Lib.Decimal
import TorrentHub.Lib.Run

namespace TorrentHub

open Lib List

abbrev Text := List Char

/-- The order in which the processes of the server have started, each with an epoch of its own. -/
structure EpochOrder where
  lt : Text → Text → Prop
  trans : ∀ {a b c}, lt a b → lt b c → lt a c
  irrefl : ∀ a, ¬ lt a a

structure SnapshotVersion where
  epoch : Text
  sequence : Text
deriving DecidableEq

def epochText (epoch : Text) : Bool :=
  decide (16 ≤ epoch.length ∧ epoch.length ≤ 64) &&
    epoch.all fun c => c.isAlphanum || c == '_' || c == '-'

def sequenceText : Text → Bool
  | [] => false
  | c :: rest => c.isDigit && c != '0' && rest.all Char.isDigit

/-- `parse`. An absent value is the empty text. -/
def parseVersion (value : Text) : Option SnapshotVersion :=
  let epoch := value.takeWhile (· != '/')
  match value.drop epoch.length with
  | '/' :: sequence =>
    if epochText epoch && sequenceText sequence then some ⟨epoch, sequence⟩ else none
  | _ => none

inductive SnapshotVerdict where
  | accepted
  | changed
  | stale
  | refresh
deriving DecidableEq

structure SnapshotOrder where
  epoch : Option Text := none
  sequence : Text := ['0']
deriving DecidableEq

namespace SnapshotOrder

variable (o : SnapshotOrder)

def acceptSnapshot (value : Text) (allowEpochChange : Bool) : SnapshotOrder × SnapshotVerdict :=
  match parseVersion value with
  | none => (o, if o.epoch.isSome || value != [] then .stale else .accepted)
  | some v =>
    match o.epoch with
    | none => (⟨some v.epoch, v.sequence⟩, .accepted)
    | some epoch =>
      if v.epoch ≠ epoch then
        if allowEpochChange then (⟨some v.epoch, v.sequence⟩, .changed) else (o, .refresh)
      else if newer v.sequence o.sequence then (⟨some v.epoch, v.sequence⟩, .accepted)
      else (o, .stale)

def acceptReceipt (value : Text) (issuedEpoch : Option Text) : SnapshotOrder × Bool :=
  match parseVersion value with
  | none => (o, o.epoch.isNone)
  | some v =>
    if o.epoch.isSome && o.epoch ≠ some v.epoch && issuedEpoch ≠ o.epoch then (o, false)
    else
      let (order, verdict) := o.acceptSnapshot value true
      (order, verdict == .accepted || verdict == .changed)

end SnapshotOrder

structure RecordControl where
  recordID : String
  desiredRevision : Text
  numeral : Numeral desiredRevision

structure ListedTorrent where
  hash : String
  control : Option RecordControl
  snapshotAt : Int

/-- A call of `loadTorrents`: the counters that it captured, and the epoch when it was issued. -/
structure LoadCall where
  request : Nat
  version : Nat
  epoch : Option Text
deriving DecidableEq

inductive CommandKind where
  | action (delete : Bool)
  | priority (all : Bool)
  | permanent
  | recovery
deriving DecidableEq

structure CommandCall where
  kind : CommandKind
  hash : String
  issuedID : Option String
  issuedEpoch : Option Text
deriving DecidableEq

/-- `log` is history: the versions that were accepted with a snapshot or a receipt. -/
structure WebStore where
  order : SnapshotOrder := {}
  torrents : List ListedTorrent := []
  dataVersion : Nat := 0
  listRequest : Nat := 0
  barriers : String → Int := fun _ => 0
  loads : List LoadCall := []
  commands : List CommandCall := []
  log : List SnapshotVersion := []

/-- `loaded` and `returned` deliver the answer to a call that was made before. -/
inductive WebEvent where
  | sse (data : List ListedTorrent) (version : Text)
  | load
  | loaded (index : Nat) (data : List ListedTorrent) (version : Text)
  | command (hash : String) (kind : CommandKind)
  | returned (index : Nat) (version : Text) (commandAt : Int)

namespace WebStore

variable (s : WebStore)

def listed (hash : String) : Option ListedTorrent := s.torrents.find? fun t => t.hash == hash

def recordID (hash : String) : Option String :=
  (s.listed hash).bind fun t => t.control.map (·.recordID)

def sameRecord (hash : String) (issuedID : Option String) : Bool :=
  issuedID.getD "" == "" || issuedID == s.recordID hash

def loadTorrents : WebStore :=
  { s with
    listRequest := s.listRequest + 1
    loads := s.loads ++ [⟨s.listRequest + 1, s.dataVersion, s.order.epoch⟩] }

/-- What `applyTorrents` shows for a torrent of the snapshot. -/
def merged (barriers : String → Int) (version : Text) (t : ListedTorrent) : List ListedTorrent :=
  let previous := s.listed t.hash
  if version == [] && t.snapshotAt != 0 && decide (t.snapshotAt < barriers t.hash) then
    previous.toList
  else
    match previous.bind (·.control), t.control with
    | some old, some next =>
      if old.recordID = next.recordID && newer old.desiredRevision next.desiredRevision then
        previous.toList
      else [t]
    | _, _ => [t]

def advance (order : SnapshotOrder) (version : Text) : WebStore :=
  { s with order, dataVersion := s.dataVersion + 1, log := s.log ++ (parseVersion version).toList }

def applyTorrents (data : List ListedTorrent) (version : Text) (fromREST : Bool) : WebStore :=
  match s.order.acceptSnapshot version fromREST with
  | (_, .refresh) => s.loadTorrents
  | (_, .stale) => s
  | (order, verdict) =>
    let barriers := if verdict = .changed then fun _ => 0 else s.barriers
    { s.advance order version with
      barriers, torrents := data.flatMap (s.merged barriers version) }

def receipt (version : Text) (issuedEpoch : Option Text) : Option WebStore :=
  match s.order.acceptReceipt version issuedEpoch with
  | (_, false) => none
  | (order, true) =>
    let changed := s.order.epoch.isSome && order.epoch != s.order.epoch
    some { s.advance order version with barriers := if changed then fun _ => 0 else s.barriers }

def confirm (c : CommandCall) (commandAt : Int) : WebStore :=
  let barriers := if commandAt ≠ 0 && s.order.epoch.isNone then
    Function.update s.barriers c.hash commandAt else s.barriers
  match c.kind with
  | .action delete =>
    loadTorrents { s with
      barriers, torrents := s.torrents.filter fun t => !delete || t.hash != c.hash }
  | .priority all => if all then loadTorrents { s with barriers } else { s with barriers }
  | .permanent => s
  | .recovery => s.loadTorrents

def commandReturned (c : CommandCall) (version : Text) (commandAt : Int) : WebStore :=
  if !s.sameRecord c.hash c.issuedID then s.loadTorrents
  else
    match s.receipt version c.issuedEpoch with
    | none => s.loadTorrents
    | some s => s.confirm c commandAt

def issue (hash : String) (kind : CommandKind) : WebStore :=
  { s with
    commands := s.commands ++ [⟨kind, hash, s.recordID hash, s.order.epoch⟩]
    dataVersion := match kind with
      | .action _ | .priority _ => s.dataVersion + 1
      | .permanent | .recovery => s.dataVersion }

def step : WebEvent → WebStore
  | .sse data version => s.applyTorrents data version false
  | .load => s.loadTorrents
  | .loaded index data version =>
    match s.loads[index]? with
    | none => s
    | some c =>
      if c.request = s.listRequest ∧ c.version = s.dataVersion then
        s.applyTorrents data version true
      else s
  | .command hash kind => s.issue hash kind
  | .returned index version commandAt =>
    match s.commands[index]? with
    | none => s
    | some c => s.commandReturned c version commandAt

def run (as : List WebEvent) : WebStore := exec step {} as

def NoOlder (older : EpochOrder) (epoch : Option Text) (version : Text) : Prop :=
  ∀ e, epoch = some e → ∀ v, parseVersion version = some v → (e = v.epoch ∨ older.lt e v.epoch)

/-- The answer to a call that was made in an epoch is of no older one. -/
def Fresh (older : EpochOrder) (s : WebStore) : WebEvent → Prop
  | .loaded index _ version => ∀ c, s.loads[index]? = some c → NoOlder older c.epoch version
  | .returned index version _ =>
    ∀ c, s.commands[index]? = some c → NoOlder older c.issuedEpoch version
  | _ => True

def Shows (hash record : String) (revision : Nat) : Prop :=
  ∃ t c, s.listed hash = some t ∧ t.control = some c ∧ c.recordID = record ∧
    natOf c.desiredRevision = revision

def Later (older : EpochOrder) (v w : SnapshotVersion) : Prop :=
  v.epoch = w.epoch ∧ natOf v.sequence < natOf w.sequence ∨ older.lt v.epoch w.epoch

structure Ordered (older : EpochOrder) : Prop where
  later : s.log.Pairwise (Later older)
  last : s.order.epoch = s.log.getLast?.map (·.epoch)
  newest : ∀ v, s.log.getLast? = some v → s.order.sequence = v.sequence
  numerals : ∀ v ∈ s.log, Numeral v.sequence
  fresh : ∀ c ∈ s.loads, c.version ≤ s.dataVersion ∧
    (c.version = s.dataVersion → c.epoch = s.order.epoch)

variable {s} {older : EpochOrder} {v w x : SnapshotVersion} {order : SnapshotOrder}
  {version : Text} {hash record : String}

theorem Later.trans (h : Later older v w) (h' : Later older w x) : Later older v x := by
  rcases h with ⟨h, hlt⟩ | h <;> rcases h' with ⟨h', hlt'⟩ | h'
  · exact .inl ⟨h.trans h', hlt.trans hlt'⟩
  · exact .inr (h ▸ h')
  · exact .inr (h' ▸ h)
  · exact .inr (older.trans h h')

theorem numeral_of_parse (h : parseVersion version = some v) : Numeral v.sequence := by
  unfold parseVersion at h
  dsimp only at h
  split at h
  next sequence _ =>
    simp only [Option.ite_none_right_eq_some, Bool.and_eq_true, Option.some.injEq] at h
    obtain ⟨⟨-, hseq⟩, rfl⟩ := h
    cases sequence with
    | nil => cases hseq
    | cons c rest =>
      simp only [sequenceText, Bool.and_eq_true, bne_iff_ne, all_eq_true] at hseq
      exact ⟨forall_mem_cons.2 ⟨hseq.1.1, hseq.2⟩, c, rest, rfl, fun h => absurd h hseq.1.2⟩
  · cases h

def Passes (older : EpochOrder) (o : SnapshotOrder) (v : SnapshotVersion) : Prop :=
  ∀ e, o.epoch = some e →
    e = v.epoch ∧ newer v.sequence o.sequence = true ∨ older.lt e v.epoch

namespace Ordered

section

variable (h : Ordered s older)
include h

theorem retired (order : SnapshotOrder) (version : Text) :
    ∀ c ∈ (s.advance order version).loads, c.version ≤ (s.advance order version).dataVersion ∧
      (c.version = (s.advance order version).dataVersion → c.epoch = order.epoch) := by
  intro c hc
  have hle := (h.fresh c hc).1
  have hversion : (s.advance order version).dataVersion = s.dataVersion + 1 := rfl
  rw [hversion]
  exact ⟨by omega, fun heq => absurd heq (by omega)⟩

theorem advance (hv : parseVersion version = some v) (hpass : Passes older s.order v) :
    Ordered (s.advance ⟨some v.epoch, v.sequence⟩ version) older := by
  have hlog : (s.advance ⟨some v.epoch, v.sequence⟩ version).log = s.log ++ [v] := by
    simp [WebStore.advance, hv]
  refine ⟨?_, by rw [hlog]; simp [WebStore.advance], ?_, ?_, h.retired _ _⟩
  · rw [hlog, pairwise_append]
    refine ⟨h.later, pairwise_singleton _ _, fun u hu w hw => ?_⟩
    obtain rfl := mem_singleton.1 hw
    obtain ⟨l, last, hlast⟩ : ∃ l last, s.log = l ++ [last] :=
      ⟨_, _, (dropLast_append_getLast (ne_nil_of_mem hu)).symm⟩
    have hget : s.log.getLast? = some last := by simp [hlast]
    have hnew : Later older last w := by
      rcases hpass last.epoch (by simp [h.last, hget]) with ⟨he, hn⟩ | hage
      · rw [h.newest last hget, newer_iff (numeral_of_parse hv) (h.numerals last (by simp [hlast]))]
          at hn
        exact .inl ⟨he, hn⟩
      · exact .inr hage
    have hlater := h.later
    rw [hlast, pairwise_append] at hlater
    rw [hlast] at hu
    rcases mem_append.1 hu with hu | hu
    · exact (hlater.2.2 u hu last (mem_singleton.2 rfl)).trans hnew
    · rw [mem_singleton.1 hu]
      exact hnew
  · intro w hw
    rw [hlog, getLast?_append_of_ne_nil _ (by simp)] at hw
    obtain rfl : v = w := by simpa using hw
    rfl
  · rw [hlog]
    intro w hw
    rcases mem_append.1 hw with hw | hw
    · exact h.numerals w hw
    · rw [mem_singleton.1 hw]
      exact numeral_of_parse hv

theorem advance_none (hv : parseVersion version = none) :
    Ordered (s.advance s.order version) older := by
  have hlog : (s.advance s.order version).log = s.log := by simp [WebStore.advance, hv]
  exact ⟨hlog ▸ h.later, hlog ▸ h.last, hlog ▸ h.newest, hlog ▸ h.numerals, h.retired _ _⟩

theorem loadTorrents : Ordered s.loadTorrents older := by
  refine ⟨h.later, h.last, h.newest, h.numerals, fun c hc => ?_⟩
  rcases mem_append.1 hc with hc | hc
  · exact h.fresh c hc
  · rw [mem_singleton.1 hc]
    exact ⟨Nat.le_refl _, fun _ => rfl⟩

theorem snapshot (heq : s.order.acceptSnapshot version allow = (order, verdict))
    (hok : verdict = .accepted ∨ verdict = .changed)
    (hage : allow = true → NoOlder older s.order.epoch version) :
    Ordered (s.advance order version) older := by
  unfold SnapshotOrder.acceptSnapshot at heq
  cases hv : parseVersion version with
  | none =>
    rw [hv] at heq
    obtain ⟨rfl, -⟩ := Prod.mk.inj heq
    exact h.advance_none hv
  | some v =>
    suffices order = ⟨some v.epoch, v.sequence⟩ ∧ Passes older s.order v by
      rw [this.1]
      exact h.advance hv this.2
    simp only [hv] at heq
    split at heq
    next hnone => exact ⟨(Prod.mk.inj heq).1.symm, fun e he => by simp [hnone] at he⟩
    next epoch hepoch =>
    have hsome : ∀ e, s.order.epoch = some e → e = epoch := fun e he =>
      Option.some.inj (he.symm.trans hepoch)
    split at heq
    next hne =>
      split at heq
      next hallow =>
        refine ⟨(Prod.mk.inj heq).1.symm, fun e he => .inr ?_⟩
        rw [hsome e he]
        exact (hage hallow epoch hepoch v hv).resolve_left (Ne.symm hne)
      · obtain ⟨-, rfl⟩ := Prod.mk.inj heq
        simp at hok
    next hsame =>
    split at heq
    next hnewer =>
      refine ⟨(Prod.mk.inj heq).1.symm, fun e he => .inl ⟨?_, hnewer⟩⟩
      rw [hsome e he]
      exact (not_not.1 hsame).symm
    · obtain ⟨-, rfl⟩ := Prod.mk.inj heq
      simp at hok

theorem applyTorrents (data : List ListedTorrent) {fromREST : Bool}
    (hage : fromREST = true → NoOlder older s.order.epoch version) :
    Ordered (s.applyTorrents data version fromREST) older := by
  unfold WebStore.applyTorrents
  split
  · exact h.loadTorrents
  · exact h
  next order verdict hrefresh hstale heq =>
  have hok : verdict = .accepted ∨ verdict = .changed := by
    cases verdict with
    | accepted => exact .inl rfl
    | changed => exact .inr rfl
    | stale => exact (hstale rfl).elim
    | refresh => exact (hrefresh rfl).elim
  exact { h.snapshot heq hok hage with }

end

theorem receipt {s' : WebStore} {issued : Option Text} (h : Ordered s older)
    (hage : NoOlder older issued version) (heq : s.receipt version issued = some s') :
    Ordered s' older := by
  unfold WebStore.receipt at heq
  split at heq
  · cases heq
  next order hr =>
  obtain rfl := Option.some.inj heq
  unfold SnapshotOrder.acceptReceipt at hr
  cases hv : parseVersion version with
  | none =>
    rw [hv] at hr
    obtain ⟨rfl, -⟩ := Prod.mk.inj hr
    exact { h.advance_none hv with }
  | some v =>
    simp only [hv] at hr
    split at hr
    · cases (Prod.mk.inj hr).2
    next hguard =>
    obtain ⟨rfl, hverdict⟩ := Prod.mk.inj hr
    have hpair : s.order.acceptSnapshot version true = ((s.order.acceptSnapshot version true).1,
        (s.order.acceptSnapshot version true).2) := rfl
    refine { h.snapshot hpair (by simpa using hverdict) ?_ with }
    intro _ e he v' hv'
    obtain rfl : v = v' := Option.some.inj (hv.symm.trans hv')
    by_cases hsame : e = v.epoch
    · exact .inl hsame
    simp only [he, Option.isSome_some, Bool.true_and, Option.some.injEq, ne_eq, hsame,
      not_false_eq_true, decide_true, decide_eq_true_eq, not_not] at hguard
    exact hage e hguard v hv

theorem confirm (h : Ordered s older) (c : CommandCall) (commandAt : Int) :
    Ordered (s.confirm c commandAt) older := by
  cases hkind : c.kind with
  | action delete =>
    simp only [WebStore.confirm, hkind]
    exact loadTorrents { h with }
  | priority all =>
    cases all with
    | true =>
      simp only [WebStore.confirm, hkind, if_true]
      exact loadTorrents { h with }
    | false =>
      simp only [WebStore.confirm, hkind, Bool.false_eq_true, if_false]
      exact { h with }
  | permanent =>
    simp only [WebStore.confirm, hkind]
    exact h
  | recovery =>
    simp only [WebStore.confirm, hkind]
    exact h.loadTorrents

theorem step (h : Ordered s older) {a : WebEvent} (hfresh : Fresh older s a) :
    Ordered (s.step a) older := by
  cases a with
  | sse data version => exact h.applyTorrents data nofun
  | load => exact h.loadTorrents
  | loaded index data version =>
    simp only [WebStore.step]
    split
    · exact h
    next c hc =>
    split
    next hcurrent =>
      have hepoch := (h.fresh c (mem_of_getElem? hc)).2 hcurrent.2
      exact h.applyTorrents data fun _ => hepoch ▸ hfresh c hc
    · exact h
  | command hash kind =>
    refine ⟨h.later, h.last, h.newest, h.numerals, fun c hc => ?_⟩
    have hle := (h.fresh c hc).1
    cases kind <;> first
      | exact h.fresh c hc
      | exact ⟨Nat.le_succ_of_le hle, fun heq => absurd (heq ▸ hle) (Nat.not_succ_le_self _)⟩
  | returned index version commandAt =>
    simp only [WebStore.step]
    split
    · exact h
    next c hc =>
    unfold commandReturned
    split
    · exact h.loadTorrents
    split
    · exact h.loadTorrents
    next s' hs' => exact (h.receipt (hfresh c hc) hs').confirm c commandAt

end Ordered

open WebStore

theorem torrents_applyTorrents (hepoch : s.order.epoch.isSome = true)
    (hv : parseVersion version = none) (data : List ListedTorrent) (fromREST : Bool) :
    s.applyTorrents data version fromREST = s := by
  simp [applyTorrents, SnapshotOrder.acceptSnapshot, hv, hepoch]

theorem le_of_shows_eq {s' : WebStore} {n m : Nat} (heq : s'.listed hash = s.listed hash)
    (h : s.Shows hash record n) (h' : s'.Shows hash record m) : n ≤ m := by
  obtain ⟨t, c, ht, hc, -, rfl⟩ := h
  obtain ⟨t', c', ht', hc', -, rfl⟩ := h'
  rw [heq, ht] at ht'
  obtain rfl := Option.some.inj ht'
  rw [hc] at hc'
  rw [Option.some.inj hc']

theorem shows_merged {barriers : String → Int} {t t' : ListedTorrent} {n m : Nat}
    (ht' : t' ∈ s.merged barriers version t) (hhash : t'.hash = hash) (h : s.Shows hash record n)
    (h' : ∃ c, t'.control = some c ∧ c.recordID = record ∧ natOf c.desiredRevision = m) :
    n ≤ m := by
  obtain ⟨p, old, hp, hold, hrecord, rfl⟩ := h
  obtain ⟨next, hnext, hrecord', rfl⟩ := h'
  have hkept : ∀ {q}, s.listed t.hash = some q → t' = q →
      natOf old.desiredRevision ≤ natOf next.desiredRevision := by
    rintro q hq rfl
    have hthash : t'.hash = t.hash := by simpa using find?_some hq
    rw [← hthash, hhash, hp] at hq
    obtain rfl := Option.some.inj hq
    rw [hold] at hnext
    rw [Option.some.inj hnext]
  unfold merged at ht'
  dsimp only at ht'
  split at ht'
  · exact hkept (Option.mem_toList.1 ht') rfl
  split at ht'
  next old' next' hprevious hcontrol =>
    split at ht'
    · exact hkept (Option.mem_toList.1 ht') rfl
    next hnewer =>
    obtain rfl := mem_singleton.1 ht'
    rw [hhash, hp, Option.bind_some, hold] at hprevious
    rw [hnext] at hcontrol
    obtain rfl := Option.some.inj hprevious
    obtain rfl := Option.some.inj hcontrol
    rw [hrecord, hrecord', Bool.and_eq_true, newer_iff old.numeral next.numeral] at hnewer
    simpa using hnewer
  next hnone =>
  obtain rfl := mem_singleton.1 ht'
  exact (hnone old next (by rw [hhash, hp, Option.bind_some, hold]) hnext).elim

theorem shows_applyTorrents {data : List ListedTorrent} {fromREST : Bool} {n m : Nat}
    (h : s.Shows hash record n) (h' : (s.applyTorrents data version fromREST).Shows hash record m) :
    n ≤ m := by
  unfold applyTorrents at h'
  split at h'
  · exact le_of_shows_eq rfl h h'
  · exact le_of_shows_eq rfl h h'
  · obtain ⟨t', c, hlisted, hc⟩ := h'
    obtain ⟨t, -, ht'⟩ := mem_flatMap.1 (mem_of_find?_eq_some hlisted)
    exact shows_merged ht' (by simpa using find?_some hlisted) h ⟨c, hc⟩

theorem listed_confirm (s : WebStore) (c : CommandCall) (commandAt : Int) (hash : String) :
    (s.confirm c commandAt).listed hash = s.listed hash ∨
      (s.confirm c commandAt).listed hash = none := by
  cases hkind : c.kind with
  | action delete =>
    simp only [confirm, hkind, loadTorrents, listed, find?_filter]
    by_cases hgone : delete = true ∧ hash = c.hash
    · refine .inr (find?_eq_none.2 fun t _ => ?_)
      simp [hgone.1, hgone.2]
    refine .inl (congrArg (s.torrents.find? ·) (funext fun t => ?_))
    cases delete with
    | false => by_cases ht : t.hash = hash <;> simp [ht]
    | true =>
      have hne : hash ≠ c.hash := fun h => hgone ⟨rfl, h⟩
      by_cases ht : t.hash = hash <;> simp [ht, hne]
  | priority all => cases all <;> exact .inl (by simp only [confirm, hkind]; rfl)
  | permanent => exact .inl (by simp only [confirm, hkind])
  | recovery => exact .inl (by simp only [confirm, hkind]; rfl)

theorem listed_receipt {s' : WebStore} {issued : Option Text}
    (h : s.receipt version issued = some s') (hash : String) : s'.listed hash = s.listed hash := by
  unfold receipt at h
  split at h
  · cases h
  rw [← Option.some.inj h]
  rfl

theorem shows_step (a : WebEvent) (h : s.Shows hash record n)
    (h' : (s.step a).Shows hash record m) : n ≤ m := by
  cases a with
  | sse data version => exact shows_applyTorrents h h'
  | load | command hash kind => exact le_of_shows_eq rfl h h'
  | loaded index data version =>
    simp only [step] at h'
    split at h'
    · exact le_of_shows_eq rfl h h'
    split at h'
    · exact shows_applyTorrents h h'
    · exact le_of_shows_eq rfl h h'
  | returned index version commandAt =>
    simp only [step] at h'
    split at h'
    · exact le_of_shows_eq rfl h h'
    next c hc =>
    unfold commandReturned at h'
    split at h'
    · exact le_of_shows_eq rfl h h'
    split at h'
    · exact le_of_shows_eq rfl h h'
    next s' hs' =>
    rcases listed_confirm s' c commandAt hash with heq | hnone
    · exact le_of_shows_eq (heq.trans (listed_receipt hs' hash)) h h'
    · obtain ⟨t, -, ht, -⟩ := h'
      cases hnone.symm.trans ht

theorem shows_run (hlisted : ∀ l, l <+: bs → ∃ k, (exec step s l).Shows hash record k)
    (h : s.Shows hash record n) (h' : (exec step s bs).Shows hash record m) : n ≤ m := by
  induction bs generalizing s n with
  | nil => exact le_of_shows_eq rfl h h'
  | cons b bs ih =>
    obtain ⟨k, hk⟩ := hlisted [b] ⟨bs, rfl⟩
    refine (shows_step b h hk).trans (ih (fun l hl => ?_) hk h')
    obtain ⟨r, hr⟩ := hl
    exact hlisted (b :: l) ⟨r, by rw [cons_append, hr]⟩

/-- Accepted versions increase within an epoch, an epoch that was left does not come back, no
unversioned snapshot follows a versioned one, and a shown revision does not fall. -/
theorem snapshots_ordered (older : EpochOrder) (as : List WebEvent)
    (h : Along step (Fresh older) {} as) :
    let s := run as
    (s.log.Pairwise fun v w => v.epoch = w.epoch → natOf v.sequence < natOf w.sequence) ∧
    (∀ l v m w r, s.log = l ++ v :: (m ++ w :: r) → v.epoch ≠ w.epoch →
      ∀ x ∈ r, x.epoch ≠ v.epoch) ∧
    (s.log ≠ [] → ∀ data version, parseVersion version = none →
      s.step (.sse data version) = s ∧ ∀ index, s.step (.loaded index data version) = s) ∧
    ∀ bs hash record n m, (∀ l, l <+: bs → ∃ k, (run (as ++ l)).Shows hash record k) →
      s.Shows hash record n → (run (as ++ bs)).Shows hash record m → n ≤ m := by
  intro s
  have hs : Ordered s older := exec_invariant (I := fun s => Ordered s older)
    (fun _ _ hs hfresh => hs.step hfresh) ⟨List.Pairwise.nil, rfl, nofun, nofun, nofun⟩ h
  refine ⟨hs.later.imp ?_, ?_, ?_, ?_⟩
  · rintro v w (⟨-, hlt⟩ | hold) heq
    · exact hlt
    · exact absurd (heq ▸ hold) (older.irrefl _)
  · intro l v m w r hlog hne x hx heq
    have hlater := hs.later
    rw [hlog, pairwise_append, pairwise_cons, pairwise_append, pairwise_cons] at hlater
    obtain ⟨-, ⟨hv, -, ⟨hw, -⟩, -⟩, -⟩ := hlater
    have hvw : older.lt v.epoch w.epoch :=
      (hv w (mem_append_right _ mem_cons_self)).resolve_left fun h => hne h.1
    rcases hw x hx with ⟨hwx, -⟩ | hwx
    · exact hne (heq.symm.trans hwx.symm)
    have hvx := older.trans hvw hwx
    rw [heq] at hvx
    exact older.irrefl _ hvx
  · intro hlog data version hv
    have hepoch : s.order.epoch.isSome = true := by
      cases hlast : s.log.getLast? with
      | none => exact absurd (getLast?_eq_none_iff.1 hlast) hlog
      | some v => rw [hs.last, hlast]; rfl
    refine ⟨torrents_applyTorrents hepoch hv data false, fun index => ?_⟩
    simp only [step]
    repeat' split
    all_goals first | rfl | exact torrents_applyTorrents hepoch hv data true
  · intro bs hash record n m hlisted hn hm
    simp only [run, exec_append] at hlisted hm
    exact shows_run hlisted hn hm

def restarted : EpochOrder where
  lt a b := a = "abcdefghijklmnop".toList ∧ b = "ponmlkjihgfedcba".toList
  trans h h' := ⟨h.1, h'.2⟩
  irrefl a h := absurd (h.1.symm.trans h.2) (by decide)

def controlled (revision : Text) (h : Numeral revision) : ListedTorrent :=
  ⟨"a", some ⟨"r", revision, h⟩, 0⟩

def ten : ListedTorrent :=
  controlled "10".toList (numeral_of_parse (show parseVersion "abcdefghijklmnop/10".toList =
    some ⟨"abcdefghijklmnop".toList, "10".toList⟩ by decide))

def nine : ListedTorrent :=
  controlled "9".toList (numeral_of_parse (show parseVersion "abcdefghijklmnop/9".toList =
    some ⟨"abcdefghijklmnop".toList, "9".toList⟩ by decide))

def loading : List WebEvent := [.sse [nine] "abcdefghijklmnop/9".toList, .load]

def acting : List WebEvent :=
  [.loaded 0 [ten] "abcdefghijklmnop/10".toList, .command "a" .permanent]

def reloading : List WebEvent := [.returned 0 "abcdefghijklmnop/11".toList 0, .load]

/-- Ten is after nine, although its text is the smaller one. A load is answered, a command gets its
receipt, and the next load is answered after a restart of the server. -/
def nineThenTen : List WebEvent :=
  loading ++ (acting ++ (reloading ++ [.loaded 1 [ten] "ponmlkjihgfedcba/1".toList]))

theorem noOlder_of {epoch : Text} (hp : parseVersion version = some v)
    (h : epoch = v.epoch ∨ older.lt epoch v.epoch) : NoOlder older (some epoch) version := by
  rintro e he w hw
  cases he
  rw [hp] at hw
  cases hw
  exact h

theorem nineThenTen_ordered :
    (run nineThenTen).log.map (fun v => (v.epoch == "abcdefghijklmnop".toList, natOf v.sequence)) =
        [(true, 9), (true, 10), (true, 11), (false, 1)] ∧
      ((run nineThenTen).log.Pairwise fun v w =>
        v.epoch = w.epoch → natOf v.sequence < natOf w.sequence) ∧
      (run nineThenTen).Shows "a" "r" 10 := by
  let epoch := "abcdefghijklmnop".toList
  have hload : (exec step {} loading).loads[0]? = some ⟨1, 1, some epoch⟩ := by decide +kernel
  have hcommand : (exec step (exec step {} loading) acting).commands[0]? =
      some ⟨.permanent, "a", some "r", some epoch⟩ := by decide +kernel
  have hreload : (exec step (exec step (exec step {} loading) acting) reloading).loads[1]? =
      some ⟨2, 3, some epoch⟩ := by decide +kernel
  have hfresh : Along step (Fresh restarted) {} nineThenTen := by
    refine Along.append.2 ⟨⟨trivial, trivial, trivial⟩, Along.append.2 ⟨⟨fun c hc => ?_, trivial,
      trivial⟩, Along.append.2 ⟨⟨fun c hc => ?_, trivial, trivial⟩, fun c hc => ?_, trivial⟩⟩⟩
    · obtain rfl := Option.some.inj (hload.symm.trans hc)
      exact noOlder_of (v := ⟨epoch, "10".toList⟩) (by decide) (.inl rfl)
    · obtain rfl := Option.some.inj (hcommand.symm.trans hc)
      exact noOlder_of (v := ⟨epoch, "11".toList⟩) (by decide) (.inl rfl)
    · obtain rfl := Option.some.inj (hreload.symm.trans hc)
      exact noOlder_of (v := ⟨"ponmlkjihgfedcba".toList, "1".toList⟩) (by decide) (.inr ⟨rfl, rfl⟩)
  refine ⟨by decide +kernel, (snapshots_ordered restarted nineThenTen hfresh).1, ten, _, ?_, rfl,
    rfl, by decide⟩
  rfl

end WebStore

end TorrentHub
