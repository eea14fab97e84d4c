import TorrentHub.Lib.Run
import Mathlib.Logic.Function.Basic
import Mathlib.Data.List.Perm.Basic

namespace TorrentHub

open Lib List

structure PublishedSnapshot where
  data : List UInt8
  version : Nat
  compact : List UInt8
deriving DecidableEq

/-- A client channel of capacity one. `received` and `closes` are history. -/
structure Mailbox where
  held : Option PublishedSnapshot := none
  received : List PublishedSnapshot := []
  closes : Nat := 0

def Mailbox.sent (b : Mailbox) : List PublishedSnapshot := b.received ++ b.held.toList

/-- `clients` stands for both maps. A pass that holds `syncMu` has its version in `pass`; a
publication holds `mu` while there are clients in `left`. Channels are numbered as they are brought;
`panicked` is a send on a closed one or a second close. -/
structure SyncWorker where
  clock : Nat := 0
  pass : Option Nat := none
  latest : Option PublishedSnapshot := none
  boxes : Nat → Mailbox := fun _ => {}
  fresh : Nat := 0
  clients : List Nat := []
  left : List Nat := []
  done : Bool := false
  panicked : Bool := false

/-- `issue` gives a version to another caller. `serve` is one select of the publication: it drains
the next client, or finds nothing and sends. -/
inductive SyncAction where
  | issue
  | begin
  | fail
  | publish (data compact : List UInt8) (order : List Nat)
  | serve
  | add
  | remove (i : Nat)
  | receive (i : Nat)
  | close

namespace SyncWorker

variable (s : SyncWorker) (i : Nat)

def put (b : Mailbox) : SyncWorker := { s with boxes := Function.update s.boxes i b }

def send (x : PublishedSnapshot) : SyncWorker :=
  if (s.boxes i).closes ≠ 0 then { s with panicked := true }
  else if (s.boxes i).held.isSome then s
  else s.put i { s.boxes i with held := some x }

def closeChannel : SyncWorker :=
  if (s.boxes i).closes ≠ 0 then { s with panicked := true }
  else s.put i { s.boxes i with closes := 1 }

def publishPair (x : PublishedSnapshot) (order : List Nat) : SyncWorker :=
  if s.done then s else { s with latest := some x, left := order }

def addClient : SyncWorker :=
  let next := { s with fresh := s.fresh + 1 }
  if s.done then next.closeChannel s.fresh
  else if 128 ≤ s.clients.length then next.closeChannel s.fresh
  else
    let next := { next with clients := s.fresh :: s.clients }
    match s.latest with
    | none => next
    | some x => next.send s.fresh x

def removeClient : SyncWorker :=
  if i ∈ s.clients then closeChannel { s with clients := s.clients.erase i } i else s

def close : SyncWorker :=
  if s.done then s
  else s.clients.foldl closeChannel { s with done := true, clients := [] }

def serve : SyncWorker :=
  match s.left, s.latest with
  | i :: rest, some x =>
    if (s.boxes i).held.isSome then s.put i { s.boxes i with held := none }
    else send { s with left := rest } i x
  | _, _ => s

def receive : SyncWorker :=
  match (s.boxes i).held with
  | none => s
  | some x => s.put i { s.boxes i with held := none, received := (s.boxes i).received ++ [x] }

/-- A publication under way keeps the others from `mu`. -/
def locked (f : SyncWorker → SyncWorker) : SyncWorker := if s.left = [] then f s else s

/-- The order of a publication is that of the iteration over the maps. -/
def step : SyncAction → SyncWorker
  | .issue => { s with clock := s.clock + 1 }
  | .begin =>
    if s.pass.isNone ∧ s.left = [] then
      { s with clock := s.clock + 1, pass := some (s.clock + 1) }
    else s
  | .fail => { s with pass := none }
  | .publish data compact order =>
    match s.pass with
    | none => s
    | some version =>
      if order.Perm s.clients then
        publishPair { s with pass := none } ⟨data, version, compact⟩ order
      else s
  | .serve => s.serve
  | .add => s.locked addClient
  | .remove i => s.locked (removeClient · i)
  | .receive i => s.receive i
  | .close => s.locked close

def run (as : List SyncAction) : SyncWorker := exec step {} as

/-- A channel whose client is registered, still to be served, or not yet brought. -/
structure Served (b : Mailbox) (latest : Option PublishedSnapshot) (client late used : Prop) :
    Prop where
  ordered : b.sent.Pairwise (·.version < ·.version)
  known : ∀ x ∈ b.sent, ∃ l, latest = some l ∧ x.version ≤ l.version ∧
    (late → x.version < l.version)
  newest : client → ¬ late → b.sent.getLast? = latest
  opened : client → b.closes = 0
  shut : ¬ client → used → b.closes = 1
  unused : ¬ used → b = {} ∧ ¬ client

def Serves : Prop :=
  ∀ i, Served (s.boxes i) s.latest (i ∈ s.clients) (i ∈ s.left) (i < s.fresh)

structure Sound : Prop where
  serves : s.Serves
  nodup : s.clients.Nodup
  few : s.clients.length ≤ 128
  left : s.left.Nodup ∧ ∀ i ∈ s.left, i ∈ s.clients
  latest : ∀ l, s.latest = some l → l.version ≤ s.clock ∧ ∀ v, s.pass = some v → l.version < v
  pass : ∀ v, s.pass = some v → v ≤ s.clock ∧ s.left = []
  ended : s.done = true → s.clients = []
  calm : s.panicked = false

variable {s i} {b : Mailbox} {x : PublishedSnapshot} {latest : Option PublishedSnapshot}
  {client late used : Prop}

namespace Served

open Mailbox

theorem receive (h : Served b latest client late used) (hx : b.held = some x) :
    Served { b with held := none, received := b.received ++ [x] } latest client late used := by
  have hsent : sent { b with held := none, received := b.received ++ [x] } = b.sent := by
    simp [sent, hx]
  refine ⟨hsent ▸ h.ordered, hsent ▸ h.known, hsent ▸ h.newest, h.opened, h.shut, fun hu => ?_⟩
  rw [(h.unused hu).1] at hx
  cases hx

/-- A drained snapshot is lost to the client. -/
theorem drain (h : Served b latest client late used) (hl : late) (hc : client) :
    Served { b with held := none } latest client late used := by
  have hsent : sent { b with held := none } = b.received := append_nil _
  have hsub : b.received.Sublist b.sent := sublist_append_left _ _
  refine ⟨?_, ?_, fun _ hnot => absurd hl hnot, h.opened, h.shut, fun hu => ?_⟩
  · rw [hsent]
    exact h.ordered.sublist hsub
  · rw [hsent]
    exact fun y hy => h.known y (hsub.subset hy)
  · exact absurd hc (h.unused hu).2

theorem fill (h : Served b (some x) client late used) (hheld : b.held = none) (hl : late)
    (hc : client) : Served { b with held := some x } (some x) client False used := by
  have hreceived : b.sent = b.received := by simp [sent, hheld]
  have hold : ∀ y ∈ b.received, y.version < x.version := by
    intro y hy
    obtain ⟨l, hlatest, -, hlt⟩ := h.known y (hreceived ▸ hy)
    cases hlatest
    exact hlt hl
  refine ⟨?_, fun y hy => ⟨x, rfl, ?_, nofun⟩, fun _ _ => ?_, h.opened, h.shut, fun hu => ?_⟩
  · refine pairwise_append.2 ⟨hreceived ▸ h.ordered, pairwise_singleton _ _, ?_⟩
    intro y hy z hz
    rw [mem_singleton.1 hz]
    exact hold y hy
  · rcases mem_append.1 hy with hy | hy
    · exact Nat.le_of_lt (hold y hy)
    · exact Nat.le_of_eq (congrArg _ (mem_singleton.1 hy))
  · exact getLast?_concat
  · exact absurd hc (h.unused hu).2

theorem closed (h : Served b latest client late used) :
    Served { b with closes := 1 } latest False late True :=
  ⟨h.ordered, h.known, nofun, nofun, fun _ _ => rfl, fun hu => absurd trivial hu⟩

theorem first (latest : Option PublishedSnapshot) :
    Served { held := latest } latest True False True := by
  refine ⟨?_, fun y hy => ⟨y, Option.mem_toList.1 hy, Nat.le_refl _, nofun⟩, fun _ _ => ?_,
    fun _ => rfl, fun hc => absurd trivial hc, fun hu => absurd trivial hu⟩
  · cases latest with
    | none => exact .nil
    | some x => exact pairwise_singleton _ _
  · cases latest <;> rfl

end Served

theorem boxes_put (j : Nat) : (s.put i b).boxes j = if j = i then b else s.boxes j := by
  simp only [put, Function.update_apply]

theorem Serves.put {t : SyncWorker} (h : s.Serves) (hboxes : t.boxes = s.boxes)
    (hi : Served b t.latest (i ∈ t.clients) (i ∈ t.left) (i < t.fresh))
    (hne : ∀ j ≠ i, t.latest = s.latest ∧ (j ∈ t.clients ↔ j ∈ s.clients) ∧
      (j ∈ t.left ↔ j ∈ s.left) ∧ (j < t.fresh ↔ j < s.fresh)) : (t.put i b).Serves := by
  intro j
  rw [boxes_put]
  split
  next hj =>
    subst hj
    exact hi
  next hj =>
  obtain ⟨hlatest, hclients, hleft, hfresh⟩ := hne j hj
  simpa only [SyncWorker.put, hboxes, hlatest, hclients, hleft, hfresh] using h j

namespace Sound

section

variable (h : Sound s)
include h

theorem lt_fresh (hi : i ∈ s.clients) : i < s.fresh :=
  Decidable.byContradiction fun hle => ((h.serves i).unused hle).2 hi

theorem new : s.boxes s.fresh = {} ∧ s.fresh ∉ s.clients :=
  (h.serves s.fresh).unused (Nat.lt_irrefl _)

theorem receive (i : Nat) : Sound (s.receive i) := by
  unfold SyncWorker.receive
  split
  · exact h
  next x hx =>
  exact { h with
    serves := h.serves.put rfl ((h.serves i).receive hx) fun j _ => ⟨rfl, .rfl, .rfl, .rfl⟩ }

theorem serve : Sound s.serve := by
  unfold SyncWorker.serve
  split
  next i rest x hleft hlatest =>
    have hi := h.serves i
    have hlate : i ∈ s.left := by simp [hleft]
    have hclient := h.left.2 i hlate
    have hnodup := h.left.1
    rw [hleft, nodup_cons] at hnodup
    split
    · exact { h with
        serves := h.serves.put rfl (hi.drain hlate hclient) fun j _ => ⟨rfl, .rfl, .rfl, .rfl⟩ }
    next hheld =>
    have hnone : (s.boxes i).held = none := by simpa using hheld
    rw [send, if_neg (by simp [hi.opened hclient]), if_neg hheld]
    rw [hlatest] at hi
    have hrest : Served { s.boxes i with held := some x } (some x) (i ∈ s.clients) (i ∈ rest)
        (i < s.fresh) := by
      simpa only [hnodup.1] using hi.fill hnone hlate hclient
    refine { h with
      serves := h.serves.put rfl (by simpa only [hlatest] using hrest) fun j hj => ?_
      left := ⟨hnodup.2, fun j hj => h.left.2 j (hleft ▸ mem_cons_of_mem i hj)⟩
      pass := fun v hv => absurd (h.pass v hv).2 (by simp [hleft]) }
    exact ⟨rfl, .rfl, by simp [hleft, hj], .rfl⟩
  · exact h

theorem publish {v : Nat} (hv : s.pass = some v) (data compact : List UInt8)
    {order : List Nat} (horder : order.Perm s.clients) :
    Sound (publishPair { s with pass := none } ⟨data, v, compact⟩ order) := by
  unfold publishPair
  split
  · exact { h with
      latest := fun l hl => ⟨(h.latest l hl).1, nofun⟩
      pass := nofun }
  refine { h with
    serves := fun i => ?_
    left := ⟨horder.nodup_iff.2 h.nodup, fun i hi => horder.subset hi⟩
    latest := fun l hl => ?_
    pass := nofun }
  · refine { h.serves i with
      known := fun x hx => ⟨_, rfl, ?_⟩
      newest := fun hc hnot => absurd (horder.mem_iff.2 hc) hnot }
    obtain ⟨l, hl, hle, -⟩ := (h.serves i).known x hx
    have hlt := Nat.lt_of_le_of_lt hle ((h.latest l hl).2 v hv)
    exact ⟨Nat.le_of_lt hlt, fun _ => hlt⟩
  · cases hl
    exact ⟨(h.pass v hv).1, nofun⟩

end

open SyncWorker

theorem addClient_eq (h : Sound s) (hdone : s.done = false) (hroom : s.clients.length < 128) :
    s.addClient = put { s with fresh := s.fresh + 1, clients := s.fresh :: s.clients } s.fresh
      { held := s.latest } := by
  simp only [addClient, hdone, Bool.false_eq_true, if_false, if_neg (Nat.not_le.2 hroom)]
  split
  next hlatest =>
    have hsame : ({ held := s.latest } : Mailbox) = s.boxes s.fresh := by rw [hlatest, h.new.1]
    simp only [put, hsame, Function.update_eq_self]
  next x hlatest => simp [send, h.new.1, hlatest]

theorem refused (h : Sound s) : Sound (closeChannel { s with fresh := s.fresh + 1 } s.fresh) := by
  rw [closeChannel, if_neg (by simp [h.new.1])]
  have hclosed := (h.serves s.fresh).closed
  refine { h with serves := h.serves.put rfl ?_ fun j hj => ⟨rfl, .rfl, .rfl, ?_⟩ }
  · simpa [h.new.2] using hclosed
  · exact ⟨fun hlt => Nat.lt_of_le_of_ne (Nat.le_of_lt_succ hlt) hj, Nat.lt_succ_of_lt⟩

theorem addClient (h : Sound s) (hleft : s.left = []) : Sound s.addClient := by
  by_cases hdone : s.done = true
  · rw [SyncWorker.addClient, if_pos hdone]
    exact h.refused
  by_cases hfull : 128 ≤ s.clients.length
  · rw [SyncWorker.addClient, if_neg hdone, if_pos hfull]
    exact h.refused
  rw [h.addClient_eq (by simpa using hdone) (Nat.not_le.1 hfull)]
  refine { h with
    serves := h.serves.put rfl ?_ fun j hj => ⟨rfl, by simp [hj], .rfl, ?_⟩
    nodup := nodup_cons.2 ⟨h.new.2, h.nodup⟩
    few := Nat.not_le.1 hfull
    left := ⟨h.left.1, fun i hi => mem_cons_of_mem _ (h.left.2 i hi)⟩
    ended := fun hd => absurd hd hdone }
  · simpa [hleft] using Served.first s.latest
  · exact ⟨fun hlt => Nat.lt_of_le_of_ne (Nat.le_of_lt_succ hlt) hj, Nat.lt_succ_of_lt⟩

theorem removeClient (h : Sound s) (hleft : s.left = []) (i : Nat) : Sound (s.removeClient i) := by
  unfold SyncWorker.removeClient
  split
  next hi =>
    rw [closeChannel, if_neg (by simp [(h.serves i).opened hi])]
    refine { h with
      serves := h.serves.put rfl ?_ fun j hj => ⟨rfl, mem_erase_of_ne hj, .rfl, .rfl⟩
      nodup := h.nodup.erase i
      few := Nat.le_trans length_erase_le h.few
      left := ⟨h.left.1, fun j hj => absurd hj (hleft ▸ not_mem_nil)⟩
      ended := fun hd => absurd hi (h.ended hd ▸ not_mem_nil) }
    simpa [h.nodup.not_mem_erase, h.lt_fresh hi] using (h.serves i).closed
  · exact h

end Sound

/-- `Close` closes each of the distinct open channels once. -/
theorem foldl_closeChannel {l : List Nat} (hl : l.Nodup) (h : ∀ i ∈ l, (s.boxes i).closes = 0) :
    l.foldl closeChannel s = { s with
      boxes := fun j => if j ∈ l then { s.boxes j with closes := 1 } else s.boxes j } := by
  induction l generalizing s with
  | nil => simp
  | cons i l ih =>
    obtain ⟨hi, hl⟩ := nodup_cons.1 hl
    rw [foldl_cons, closeChannel, if_neg (by simp [h i mem_cons_self]), ih hl]
    · simp only [put, mk.injEq, true_and, and_true]
      funext j
      by_cases hj : j = i
      · subst hj
        simp [hi]
      · simp [hj]
    · intro j hj
      have hne : j ≠ i := fun heq => hi (heq ▸ hj)
      rw [boxes_put, if_neg hne]
      exact h j (mem_cons_of_mem _ hj)

namespace Sound

theorem close (h : Sound s) (hleft : s.left = []) : Sound s.close := by
  unfold SyncWorker.close
  split
  · exact h
  have hnone : ∀ j ∈ s.left, j ∉ s.clients := hleft ▸ nofun
  rw [foldl_closeChannel h.nodup (by exact fun i hi => (h.serves i).opened hi)]
  refine { h with
    serves := fun j => ?_
    nodup := .nil
    few := Nat.zero_le _
    left := ⟨h.left.1, fun j hj => absurd (h.left.2 j hj) (hnone j hj)⟩
    ended := fun _ => rfl }
  by_cases hmem : j ∈ s.clients
  · simpa [hmem, h.lt_fresh hmem] using (h.serves j).closed
  · simpa [hmem] using h.serves j

theorem locked (h : Sound s) (hf : s.left = [] → Sound (f s)) : Sound (s.locked f) := by
  unfold SyncWorker.locked
  split
  · exact hf ‹_›
  · exact h

theorem step (h : Sound s) (a : SyncAction) : Sound (s.step a) := by
  cases a with
  | issue =>
    exact { h with
      latest := fun l hl => ⟨Nat.le_succ_of_le (h.latest l hl).1, (h.latest l hl).2⟩
      pass := fun v hv => ⟨Nat.le_succ_of_le (h.pass v hv).1, (h.pass v hv).2⟩ }
  | begin =>
    simp only [SyncWorker.step]
    split
    next hidle =>
      refine { h with latest := fun l hl => ?_, pass := fun v hv => ?_ }
      · have hle := (h.latest l hl).1
        refine ⟨Nat.le_succ_of_le hle, fun v hv => ?_⟩
        cases hv
        exact Nat.lt_succ_of_le hle
      · cases hv
        exact ⟨Nat.le_refl _, hidle.2⟩
    · exact h
  | fail =>
    exact { h with
      latest := fun l hl => ⟨(h.latest l hl).1, nofun⟩
      pass := nofun }
  | publish data compact order =>
    simp only [SyncWorker.step]
    split
    · exact h
    split
    · exact h.publish ‹_› data compact ‹_›
    · exact h
  | serve => exact h.serve
  | receive i => exact h.receive i
  | add => exact h.locked h.addClient
  | remove i => exact h.locked (h.removeClient · i)
  | close => exact h.locked h.close

end Sound

theorem run_sound (as : List SyncAction) : Sound (run as) := by
  refine exec_invariant_forall (fun s a hs => hs.step a) ?_ as
  exact ⟨fun i => ⟨.nil, nofun, nofun, nofun, nofun, fun _ => ⟨rfl, nofun⟩⟩, .nil, Nat.zero_le _,
    ⟨.nil, nofun⟩, nofun, nofun, fun _ => rfl, rfl⟩

theorem latest_step (s : SyncWorker) (a : SyncAction) : (s.step a).latest = s.latest ∨
    ∃ data compact order v, a = .publish data compact order ∧ s.pass = some v ∧
      (s.step a).latest = some ⟨data, v, compact⟩ := by
  have hsend : ∀ (t : SyncWorker) i x, (t.send i x).latest = t.latest := by
    intro t i x
    simp only [send]
    repeat' split
    all_goals rfl
  have hclose : ∀ (t : SyncWorker) i, (t.closeChannel i).latest = t.latest := by
    intro t i
    simp only [closeChannel]
    split <;> rfl
  have hfold : ∀ (l : List Nat) (t : SyncWorker), (l.foldl closeChannel t).latest = t.latest := by
    intro l
    induction l with
    | nil => exact fun _ => rfl
    | cons i l ih => exact fun t => (ih _).trans (hclose t i)
  cases a with
  | publish data compact order =>
    simp only [step]
    split
    · exact .inl rfl
    next v hv =>
    split
    · simp only [publishPair]
      split
      · exact .inl rfl
      · exact .inr ⟨data, compact, order, v, rfl, hv, rfl⟩
    · exact .inl rfl
  | _ =>
    left
    simp only [step, serve, locked, addClient, removeClient, close, receive]
    repeat' split
    all_goals simp [put, *]

/-- At most as many selects are left to a publication. -/
def selects (s : SyncWorker) : Nat :=
  2 * s.left.length + match s.left with
    | [] => 0
    | i :: _ => (s.boxes i).held.isSome.toNat

/-- A publication of `x` under way, or just over. -/
structure Publishes (x : PublishedSnapshot) (s : SyncWorker) : Prop where
  sound : Sound s
  latest : s.latest = some x
  pass : s.pass = none

namespace Publishes

theorem step (h : Publishes x s) (hleft : s.left ≠ []) (a : SyncAction) :
    Publishes x (s.step a) := by
  refine ⟨h.sound.step a, ?_, ?_⟩
  · rcases s.latest_step a with hsame | ⟨_, _, _, v, -, hv, -⟩
    · rw [hsame, h.latest]
    · rw [h.pass] at hv
      cases hv
  · have hpass := h.pass
    cases a <;> simp only [SyncWorker.step, SyncWorker.locked, if_neg hleft, serve, receive,
      send] <;>
      (repeat' split) <;> simp_all [put]

theorem serve_lt (h : Publishes x s) (hleft : s.left ≠ []) : s.serve.selects < s.selects := by
  obtain ⟨i, rest, hcons⟩ := exists_cons_of_ne_nil hleft
  have hopen := (h.sound.serves i).opened (h.sound.left.2 i (by simp [hcons]))
  unfold serve
  simp only [hcons, h.latest]
  split
  next hheld => simp [selects, put, hcons, hheld]
  next hheld =>
  rw [send, if_neg (by simp [hopen]), if_neg hheld]
  simp only [selects, put, hcons, length_cons]
  split
  · omega
  · refine Nat.lt_of_le_of_lt (Nat.add_le_add_left (Bool.toNat_le _) _) ?_
    omega

theorem progress (h : Publishes x s) (hleft : s.left ≠ []) (a : SyncAction) :
    (s.step a).selects < s.selects ∨ a ≠ .serve ∧ (s.step a).selects ≤ s.selects := by
  cases a with
  | serve => exact .inl (h.serve_lt hleft)
  | receive i =>
    refine .inr ⟨nofun, ?_⟩
    simp only [SyncWorker.step, receive]
    split
    · exact Nat.le_refl _
    · simp only [selects, put]
      split
      · exact Nat.le_refl _
      next j rest hcons =>
      by_cases hj : j = i
      · simp [hj]
      · simp [Function.update_of_ne hj]
  | publish data compact order =>
    simp only [SyncWorker.step, h.pass]
    exact .inr ⟨nofun, Nat.le_refl _⟩
  | begin => simp [SyncWorker.step, hleft]
  | add | remove i | close =>
    simp only [SyncWorker.step, SyncWorker.locked, if_neg hleft]
    exact .inr ⟨nofun, Nat.le_refl _⟩
  | issue | fail => exact .inr ⟨nofun, Nat.le_refl _⟩

theorem completes (h : Publishes x s) {rounds : List (List SyncAction)}
    (hrounds : ∀ bs ∈ rounds, .serve ∈ bs) (hlen : 2 * s.left.length + 2 ≤ rounds.length) :
    ∃ bs cs, rounds.flatten = bs ++ cs ∧ (exec SyncWorker.step s bs).left = [] ∧
      (exec SyncWorker.step s bs).latest = some x := by
  have hlt : s.selects < rounds.length := by
    refine Nat.lt_of_lt_of_le (Nat.add_lt_add_left ?_ _) hlen
    split
    · decide
    · exact Nat.lt_succ_of_le (Bool.toNat_le _)
  refine exec_reaches selects (I := Publishes x) (G := fun t => t.left = [] ∧ t.latest = some x)
    (E := fun _ a => a = .serve) (fun t a ht hn => ?_)
    (fun _ bs hbs _ _ => ⟨_, hrounds bs hbs, rfl⟩)
    h hlt
  have hleft : t.left ≠ [] := fun hl => hn ⟨hl, ht.latest⟩
  refine ⟨ht.step hleft a, .inr ?_⟩
  rcases ht.progress hleft a with hlt | ⟨hne, hle⟩
  · exact .inl hlt
  · exact .inr ⟨hne, hle, fun _ hb => hb⟩

end Publishes

theorem Sound.holds_newest (h : Sound s) (hleft : s.left = []) :
    ∀ i ∈ s.clients, (s.boxes i).held = s.latest ∨
      (s.boxes i).held = none ∧ (s.boxes i).received.getLast? = s.latest := by
  intro i hi
  have hnewest := (h.serves i).newest hi (by simp [hleft])
  unfold Mailbox.sent at hnewest
  cases hheld : (s.boxes i).held with
  | none => exact .inr ⟨rfl, by simpa [hheld] using hnewest⟩
  | some x => exact .inl (by simpa [hheld] using hnewest)

/-- A client receives increasing versions. After a publication its snapshot is in the mailbox of
every client that has not received it, and a new client has it at once. Only a publication replaces
the snapshot, it puts that of its pass there, and its selects bring it to every client. A channel is
closed once, and nothing is sent after. -/
theorem mailboxes_newest (as : List SyncAction) :
    let s := run as
    (∀ i, (s.boxes i).received.Pairwise (·.version < ·.version)) ∧
    (s.left = [] → ∀ i ∈ s.clients, (s.boxes i).held = s.latest ∨
      (s.boxes i).held = none ∧ (s.boxes i).received.getLast? = s.latest) ∧
    (s.left = [] → s.done = false → s.clients.length < 128 →
      s.fresh ∈ (s.step .add).clients ∧ ((s.step .add).boxes s.fresh).held = s.latest) ∧
    (∀ i < s.fresh, (s.boxes i).closes = if i ∈ s.clients then 0 else 1) ∧
    (s.panicked = false ∧ s.clients.length ≤ 128) ∧
    (∀ a, (s.step a).latest = s.latest ∨ ∃ data compact order v,
      a = .publish data compact order ∧ s.pass = some v ∧
        (s.step a).latest = some ⟨data, v, compact⟩) ∧
    ∀ data compact order v, s.pass = some v → s.done = false → order.Perm s.clients →
      let x : PublishedSnapshot := ⟨data, v, compact⟩
      (s.step (.publish data compact order)).latest = some x ∧
      ∀ rounds : List (List SyncAction), (∀ bs ∈ rounds, .serve ∈ bs) →
        2 * order.length + 2 ≤ rounds.length → ∃ bs cs, rounds.flatten = bs ++ cs ∧
          let t := run (as ++ .publish data compact order :: bs)
          t.left = [] ∧ t.latest = some x ∧ ∀ i ∈ t.clients, (t.boxes i).held = some x ∨
            (t.boxes i).held = none ∧ (t.boxes i).received.getLast? = some x := by
  intro s
  have h : Sound s := run_sound as
  refine ⟨fun i => ?_, h.holds_newest, fun hleft hdone hroom => ?_, fun i hi => ?_,
    ⟨h.calm, h.few⟩, s.latest_step, ?_⟩
  · exact (h.serves i).ordered.sublist (sublist_append_left _ _)
  · simp only [step, locked, if_pos hleft, h.addClient_eq hdone hroom, boxes_put, if_true]
    exact ⟨mem_cons_self, trivial⟩
  · split
    · exact (h.serves i).opened ‹_›
    · exact (h.serves i).shut ‹_› hi
  · intro data compact order v hv hdone horder x
    have hstep : s.step (.publish data compact order) =
        { s with pass := none, latest := some x, left := order } := by
      simp [step, hv, horder, publishPair, hdone, x]
    refine ⟨by rw [hstep], fun rounds hrounds hlen => ?_⟩
    have hpublishes : Publishes x (s.step (.publish data compact order)) :=
      ⟨h.step _, by rw [hstep], by rw [hstep]⟩
    obtain ⟨bs, cs, hsplit, hleft, hlatest⟩ := hpublishes.completes hrounds
      (by rw [hstep]; exact hlen)
    refine ⟨bs, cs, hsplit, ?_⟩
    have hrun : run (as ++ .publish data compact order :: bs) =
        exec step (s.step (.publish data compact order)) bs := by
      rw [run, exec_append, exec_cons]
      rfl
    have hnewest := (run_sound (as ++ .publish data compact order :: bs)).holds_newest
    rw [hrun] at hnewest ⊢
    rw [hlatest] at hnewest
    exact ⟨hleft, hlatest, hnewest hleft⟩

/-- A client takes the first of three publications; the third finds the second in its mailbox. -/
def publishedThrice : List SyncAction :=
  [.add, .begin, .publish [1] [] [0], .serve, .receive 0, .begin, .publish [2] [] [0], .serve,
    .issue, .begin, .publish [3] [] [0], .serve, .serve]

theorem mailboxes_newest_publishedThrice :
    let s := run publishedThrice
    (s.left = [] ∧ s.latest = some ⟨[3], 4, []⟩ ∧ s.clients = [0] ∧
      (s.boxes 0).held = some ⟨[3], 4, []⟩ ∧ (s.boxes 0).received = [⟨[1], 1, []⟩]) ∧
    ((s.boxes 0).held = s.latest ∨
      (s.boxes 0).held = none ∧ (s.boxes 0).received.getLast? = s.latest) :=
  ⟨by decide, (mailboxes_newest publishedThrice).2.1 (by decide) 0 (by decide)⟩

end SyncWorker

end TorrentHub
