import TorrentHub.Lib.Registry
import TorrentHub.Lib.Run

namespace TorrentHub.Preload

open Lib Function List

structure PreloadKey where
  hash : String
  index : Int
  deriving DecidableEq

/-- The contexts of a torrent's generations are numbered in the order in which they are made. -/
structure PreloadState where
  owner : Nat
  running : Bool := false
  error : String := ""
  targetBytes : Int := 0
  readBytes : Int := 0
  startedAt : Int := 0

abbrev Preloads := PreloadKey → Option PreloadState

namespace Preloads

def owned (p : Preloads) (key : PreloadKey) (owner : Nat) : Bool :=
  (p key).map PreloadState.owner = some owner

/-- The guarded write of `completePreload` and the guarded deletion of a request that returns. -/
def replace (p : Preloads) (key : PreloadKey) (owner : Nat) (state : Option PreloadState) :
    Preloads :=
  if p.owned key owner then update p key state else p

def completePreload (p : Preloads) (key : PreloadKey) (state : PreloadState) : Preloads :=
  p.replace key state.owner (some state)

end Preloads

def defaultPreloadSize : Int := 20 * 2 ^ 20

/-- Ten minutes in nanoseconds. -/
def lifetime : Int := 600 * 10 ^ 9

/-- Where a request of `servePreload`, or the warmup to which it has handed its work, stands. A
point is named after what comes next. -/
inductive Point where
  | looking | acquiring | checking | fast | freeing | answering | starting | handing | warming
  | warmed | closing | returning | undoing | removing | gone
  deriving DecidableEq

namespace Point

/-- The request has passed the admission, has not returned and its warmup has not finished. -/
def occupies : Point → Bool
  | looking | answering | removing | gone => false
  | _ => true

/-- The request or its warmup is between its admission and its completion. -/
def flying : Point → Bool
  | looking | freeing | answering | closing | gone => false
  | _ => true

end Point

/-- A request with its local variables; `accepted` and `async` are told by the point. `released` is
the `sync.Once` of the release function. -/
structure Call where
  key : PreloadKey
  state : PreloadState
  point : Point := .looking
  took : Nat := 0
  gave : Nat := 0
  leased : Bool := false
  released : Bool := false

/-- The clock and the answers of the functions that a step calls. `file` is the size of the file and
whether it is ready on disk, or nothing when a lookup fails. -/
structure Env where
  now : Int := 0
  ok : Bool := true
  file : Option (Int × Bool) := none
  read : Int := 0
  error : String := ""

structure Handler where
  preloads : Preloads := fun _ => none
  slots : Nat := 0
  calls : List Call := []
  lookups : List (PreloadKey × Option Nat) := []
  generations : String → Nat := fun _ => 0
  attached : String → Bool := fun _ => false
  cancelled : List (String × Nat) := []
  closed : Bool := false

structure Outcome where
  preloads : Preloads
  slots : Nat
  call : Call

namespace Handler

/-- The answer of `GenerationContext`. -/
def current (h : Handler) (hash : String) : Option Nat :=
  if h.attached hash then some (h.generations hash) else none

/-- `len(h.preloads)`: every entry was made for the key of a request. -/
def len (h : Handler) : Nat := (h.calls.map Call.key).dedup.countP fun k => (h.preloads k).isSome

def admits (h : Handler) (c : Call) : Bool :=
  (match h.preloads c.key with
    | some e => !(e.owner = c.state.owner && (e.running || e.error = ""))
    | none => h.len < 128) && h.slots < 4

/-- The section under the lock. -/
def locked (h : Handler) (c : Call) (env : Env) : Outcome :=
  if h.admits c then
    let state := { owner := c.state.owner, running := true, targetBytes := defaultPreloadSize,
                   startedAt := env.now }
    ⟨update h.preloads c.key (some state), h.slots + 1,
      { c with point := .acquiring, state := state, took := c.took + 1 }⟩
  else ⟨h.preloads, h.slots, { c with point := .gone }⟩

def check (h : Handler) (c : Call) (env : Env) : Call :=
  match env.file with
  | none => { c with point := .returning }
  | some (size, ready) =>
    if h.current c.key.hash = some c.state.owner ∧ (c.key.hash, c.state.owner) ∉ h.cancelled then
      let target := if 0 < size then min defaultPreloadSize size else defaultPreloadSize
      if ready then
        { c with point := .fast, state := { c.state with
            targetBytes := target, readBytes := target, running := false } }
      else { c with point := .starting, state := { c.state with targetBytes := target } }
    else { c with point := .returning }

/-- One step of `servePreload`, of its deferred functions or of the warmup task. -/
def advance (h : Handler) (c : Call) (env : Env) : Outcome :=
  let completed := h.preloads.completePreload c.key c.state
  match c.point with
  | .looking => h.locked c env
  | .acquiring =>
    ⟨h.preloads, h.slots, if env.ok then { c with point := .checking, leased := true }
      else { c with point := .undoing }⟩
  | .checking => ⟨h.preloads, h.slots, h.check c env⟩
  | .fast => ⟨completed, h.slots, { c with point := .freeing }⟩
  | .freeing => ⟨h.preloads, h.slots - 1, { c with point := .answering, gave := c.gave + 1 }⟩
  | .answering => ⟨h.preloads, h.slots, { c with point := .gone, released := true }⟩
  | .starting => ⟨completed, h.slots, { c with point := .handing }⟩
  | .handing =>
    ⟨h.preloads, h.slots, { c with point := if env.ok && !h.closed then .warming else .returning }⟩
  | .warming =>
    ⟨h.preloads, h.slots, { c with point := .warmed, released := true, state := { c.state with
      running := false, readBytes := env.read, startedAt := env.now, error := env.error } }⟩
  | .warmed => ⟨completed, h.slots, { c with point := .closing }⟩
  | .closing =>
    ⟨h.preloads, h.slots - 1, { c with point := .gone, released := true, gave := c.gave + 1 }⟩
  | .returning => ⟨h.preloads, h.slots, { c with point := .undoing, released := true }⟩
  | .undoing => ⟨h.preloads, h.slots - 1, { c with point := .removing, gave := c.gave + 1 }⟩
  | .removing =>
    ⟨h.preloads.replace c.key c.state.owner none, h.slots, { c with point := .gone }⟩
  | .gone => ⟨h.preloads, h.slots, c⟩

/-- The entry is still good for a call that has read `owner` before it took the lock. -/
def keeps (h : Handler) (key : PreloadKey) (e : PreloadState) (owner : Option Nat) (now : Int) :
    Bool :=
  some e.owner = owner ∧ (key.hash, e.owner) ∉ h.cancelled ∧ now - e.startedAt < lifetime ∧
    0 < e.targetBytes

def preloadTarget (h : Handler) (key : PreloadKey) (owner : Option Nat) (size now : Int) :
    Preloads × Int :=
  match (h.preloads key).filter fun e => h.keeps key e owner now with
  | some e => (h.preloads, e.targetBytes)
  | none => (update h.preloads key none,
      if 0 < size ∧ size < defaultPreloadSize then size else defaultPreloadSize)

def expirePreloads (h : Handler) (now : Int) : Preloads := fun key =>
  (h.preloads key).filter fun e =>
    e.running || !((key.hash, e.owner) ∈ h.cancelled || lifetime ≤ now - e.startedAt)

end Handler

inductive Action where
  | register (hash : String) (attached : Bool)
  | cancel (hash : String) (owner : Nat)
  | shutdown
  | clear
  | request (key : PreloadKey)
  | move (i : Nat) (env : Env)
  | expire (now : Int)
  | look (key : PreloadKey)
  | target (i : Nat) (size now : Int)

namespace Handler

def step (h : Handler) : Action → Handler
  | .register hash attached =>
    { h with generations := update h.generations hash (h.generations hash + 1)
             attached := update h.attached hash attached }
  | .cancel hash owner => { h with cancelled := (hash, owner) :: h.cancelled }
  | .shutdown => { h with closed := true }
  | .clear => { h with preloads := if h.closed then fun _ => none else h.preloads }
  | .request key =>
    match h.current key.hash with
    | some owner =>
      if (key.hash, owner) ∈ h.cancelled then h
      else { h with calls := h.calls ++ [{ key := key, state := { owner := owner } }] }
    | none => h
  | .move i env =>
    match h.calls[i]? with
    | some c =>
      let o := h.advance c env
      { h with preloads := o.preloads, slots := o.slots, calls := h.calls.set i o.call }
    | none => h
  | .expire now => { h with preloads := h.expirePreloads now }
  | .look key => { h with lookups := h.lookups ++ [(key, h.current key.hash)] }
  | .target i size now =>
    match h.lookups[i]? with
    | some (key, owner) => { h with preloads := (h.preloadTarget key owner size now).1 }
    | none => h

def run (as : List Action) : Handler := exec step {} as

/-- The generation is the one of the torrent and neither it nor the service is being closed. -/
def Live (h : Handler) (key : PreloadKey) (owner : Nat) : Prop :=
  h.current key.hash = some owner ∧ (key.hash, owner) ∉ h.cancelled ∧ h.closed = false
  deriving Decidable

/-- A request is admitted only while its generation is live, and `preloadTarget` does not delete an
entry of a live generation whose warmup is running. -/
def Timely (h : Handler) : Action → Prop
  | .move i _ =>
    ∀ c ∈ h.calls[i]?, c.point = .looking → h.admits c → h.Live c.key c.state.owner
  | .target i _ now =>
    ∀ l ∈ h.lookups[i]?, ∀ e ∈ h.preloads l.1, e.running → h.Live l.1 e.owner →
      h.keeps l.1 e l.2 now
  | _ => True

instance (h : Handler) (a : Action) : Decidable (h.Timely a) := by
  cases a <;> unfold Timely <;> infer_instance

/-- What the counters of a call are at each point. -/
structure Balanced (c : Call) : Prop where
  slot : c.took = c.gave + c.point.occupies.toNat
  took : c.took ≤ (decide (c.point ≠ .looking)).toNat
  lease : match c.point with
    | .looking | .acquiring => c.leased = false ∧ c.released = false
    | .warmed | .closing => c.leased = true ∧ c.released = true
    | .undoing | .removing | .gone => c.released = c.leased
    | _ => c.leased = true ∧ c.released = false
  running : c.point = .acquiring ∨ c.point = .checking ∨ c.point = .starting → c.state.running

variable {h : Handler} {c : Call} {env : Env} {key : PreloadKey} {i : Nat}

theorem Balanced.locked (hb : Balanced c) (hp : c.point = .looking) :
    Balanced (h.locked c env).call := by
  obtain ⟨hslot, htook, hlease, -⟩ := hb
  simp only [hp, Point.occupies] at hslot htook hlease
  unfold Handler.locked
  split
  · exact ⟨by simp [Point.occupies, hslot], by simpa using htook, hlease, fun _ => rfl⟩
  · exact ⟨hslot, htook.trans (Nat.zero_le _), hlease.2.trans hlease.1.symm, by simp⟩

theorem Balanced.check (hb : Balanced c) (hp : c.point = .checking) : Balanced (h.check c env) := by
  obtain ⟨hslot, htook, hlease, hrunning⟩ := hb
  simp only [hp, Point.occupies] at hslot htook hlease
  have hrun := hrunning (.inr (.inl hp))
  unfold Handler.check
  repeat' split
  all_goals exact ⟨hslot, htook, hlease, by simp [hrun]⟩

theorem Balanced.advance (hb : Balanced c) : Balanced (h.advance c env).call := by
  have hslot := hb.slot
  have htook := hb.took
  have hlease := hb.lease
  have hrunning := hb.running
  unfold Handler.advance
  split <;> rename_i hp
  case h_1 => exact hb.locked hp
  case h_3 => exact hb.check hp
  all_goals
    simp only [hp, Point.occupies] at hslot htook hlease
    repeat' split
  all_goals constructor <;> simp_all [Point.occupies]

theorem check_key : (h.check c env).key = c.key ∧ (h.check c env).state.owner = c.state.owner := by
  unfold Handler.check
  repeat' split
  all_goals exact ⟨rfl, rfl⟩

theorem advance_key : (h.advance c env).call.key = c.key ∧
    (h.advance c env).call.state.owner = c.state.owner := by
  unfold Handler.advance
  split
  case h_1 => unfold Handler.locked; split <;> exact ⟨rfl, rfl⟩
  case h_2 => split <;> exact ⟨rfl, rfl⟩
  case h_3 => exact check_key
  all_goals exact ⟨rfl, rfl⟩

theorem check_occupies : (h.check c env).point.occupies = true := by
  unfold Handler.check
  repeat' split
  all_goals rfl

theorem toNat_eq_ite (b : Bool) : b.toNat = if b then 1 else 0 := by cases b <;> rfl

theorem slots_advance (env : Env) (hpos : c.point.occupies → 0 < h.slots) :
    (h.advance c env).slots + c.point.occupies.toNat =
      h.slots + (h.advance c env).call.point.occupies.toNat := by
  unfold Handler.advance
  split <;> rename_i hp <;> rw [hp] at hpos ⊢
  case h_1 => by_cases ha : h.admits c <;> simp [Handler.locked, ha, Point.occupies]
  case h_2 => cases env.ok <;> rfl
  case h_3 => rw [check_occupies]; rfl
  case h_8 => by_cases hs : (env.ok && !h.closed) = true <;> simp [hs, Point.occupies]
  all_goals
    simp [Point.occupies] at hpos ⊢
  all_goals omega

/-- What a step makes of the entry of its call, which is `fly` after the step. -/
inductive Effect (h : Handler) (c : Call) (fly : Bool) : Option PreloadState → Prop where
  | quiet (hf : fly → c.point.flying) : Effect h c fly (h.preloads c.key)
  | writes {e : PreloadState} {s : Option PreloadState} (hc : c.point.flying)
      (he : h.preloads c.key = some e) (ho : e.owner = c.state.owner)
      (hs : ∀ e ∈ s, e.owner = c.state.owner) (hf : fly → ∃ e ∈ s, e.running) : Effect h c fly s
  | admits {e : PreloadState} (hl : c.point = .looking) (ha : h.admits c)
      (ho : e.owner = c.state.owner) (hr : e.running) : Effect h c fly (some e)

theorem replace_effect {fly : Bool} {s : Option PreloadState} (hc : c.point.flying)
    (hs : ∀ e ∈ s, e.owner = c.state.owner) (hf : fly → ∃ e ∈ s, e.running) :
    ∃ s', Effect h c fly s' ∧
      h.preloads.replace c.key c.state.owner s = update h.preloads c.key s' := by
  unfold Preloads.replace
  split
  · next ho =>
    obtain ⟨e, he, ho⟩ := Option.map_eq_some_iff.1 (of_decide_eq_true ho)
    exact ⟨s, .writes hc he ho hs hf, rfl⟩
  · exact ⟨_, .quiet fun _ => hc, (update_eq_self _ _).symm⟩

theorem advance_effect (hb : Balanced c) (env : Env) :
    ∃ s, Effect h c (h.advance c env).call.point.flying s ∧
      (h.advance c env).preloads = update h.preloads c.key s := by
  have ho : ∀ e ∈ some c.state, e.owner = c.state.owner := by rintro e ⟨⟩; rfl
  unfold Handler.advance
  split <;> rename_i hp
  case h_1 =>
    unfold Handler.locked
    split
    · next ha =>
      refine ⟨_, ?_, rfl⟩
      exact .admits hp ha rfl rfl
    · exact ⟨_, .quiet nofun, (update_eq_self _ _).symm⟩
  case h_4 | h_10 => exact replace_effect (by rw [hp]; rfl) ho nofun
  case h_7 =>
    have hr := hb.running (.inr (.inr hp))
    exact replace_effect (by rw [hp]; rfl) ho fun _ => ⟨_, rfl, hr⟩
  case h_14 => exact replace_effect (by rw [hp]; rfl) nofun nofun
  all_goals exact ⟨_, .quiet (by simp [hp, Point.flying]), (update_eq_self _ _).symm⟩

/-- The slots that are out are those of the calls. -/
structure Books (h : Handler) : Prop where
  slots : h.slots = h.calls.countP fun c => c.point.occupies
  balanced : ∀ c ∈ h.calls, Balanced c

theorem Books.step (hb : Books h) (a : Action) : Books (h.step a) := by
  cases a with
  | request key =>
    simp only [Handler.step]
    split
    · split
      · exact hb
      refine ⟨?_, ?_⟩
      · rw [countP_append, hb.slots]
        rfl
      intro c hc
      rcases mem_append.1 hc with hc | hc
      · exact hb.balanced c hc
      · obtain rfl := mem_singleton.1 hc
        exact ⟨rfl, Nat.le_refl 0, ⟨rfl, rfl⟩, by simp⟩
    · exact hb
  | move i env =>
    simp only [Handler.step]
    split
    · next c hc =>
      have hmem := mem_of_getElem? hc
      refine ⟨?_, ?_⟩
      · have hpos : c.point.occupies → 0 < h.slots := by
          intro ho
          rw [hb.slots]
          exact countP_pos_iff.2 ⟨c, hmem, ho⟩
        have hslots := slots_advance env hpos
        have hcount := Registry.countP_set_add (·.point.occupies) (y := (h.advance c env).call) hc
        have := hb.slots
        rw [toNat_eq_ite, toNat_eq_ite] at hslots
        dsimp only at hcount ⊢
        omega
      intro d hd
      rcases mem_or_eq_of_mem_set hd with hd | rfl
      · exact hb.balanced d hd
      · exact (hb.balanced c hmem).advance
    · exact hb
  | target i size now =>
    simp only [Handler.step]
    split
    · exact ⟨hb.slots, hb.balanced⟩
    · exact hb
  | register _ _ | cancel _ _ | shutdown | clear | expire _ | look _ =>
    exact ⟨hb.slots, hb.balanced⟩

theorem Books.init : Books {} := ⟨rfl, fun _ hc => absurd hc not_mem_nil⟩

theorem books_run (as : List Action) : Books (run as) :=
  exec_invariant_forall (fun _ a hb => hb.step a) .init as

/-- The request or warmup is one of `owner` for `key` and is between admission and completion. -/
def flies (key : PreloadKey) (owner : Nat) (c : Call) : Bool :=
  c.point.flying ∧ c.key = key ∧ c.state.owner = owner

/-- The warmup of `owner` is entered as running. -/
def Held (s : Option PreloadState) (owner : Nat) : Prop := ∃ e ∈ s, e.owner = owner ∧ e.running

/-- What holds along timely runs: a warmup of a live generation is in the table while it is on its
way, and so the table keeps a second one from being admitted. -/
structure Flight (h : Handler) : Prop where
  calls : ∀ c ∈ h.calls, c.state.owner ≤ h.generations c.key.hash
  entries : ∀ key e, h.preloads key = some e → e.owner ≤ h.generations key.hash
  held : ∀ key owner, h.Live key owner → 0 < h.calls.countP (flies key owner) →
    Held (h.preloads key) owner
  single : ∀ key owner, h.calls.countP (flies key owner) ≤ 1

theorem Live.owner_eq (hl : h.Live key owner) : owner = h.generations key.hash := by
  have hcur := hl.1
  unfold current at hcur
  split at hcur <;> cases hcur
  rfl

namespace Flight

/-- Entries are only deleted, and not the running ones of live generations. -/
theorem shrink (hf : Flight h) (hold : ∀ k e, p k = some e → h.preloads k = some e)
    (hkeep : ∀ k e, h.preloads k = some e → e.running → h.Live k e.owner → p k = some e) :
    Flight { h with preloads := p } where
  calls := hf.calls
  entries key e he := hf.entries key e (hold key e he)
  held key owner hl hpos := by
    obtain ⟨e, he, ho, hr⟩ := hf.held key owner hl hpos
    exact ⟨e, hkeep key e he hr (ho ▸ hl), ho, hr⟩
  single := hf.single

theorem register (hf : Flight h) (hash : String) (attached : Bool) :
    Flight (h.step (.register hash attached)) := by
  have hle : ∀ hash', h.generations hash' ≤
      (h.step (.register hash attached)).generations hash' := by
    intro hash'
    simp only [Handler.step, update_apply]
    split
    · next heq => exact heq ▸ Nat.le_succ _
    · exact Nat.le_refl _
  refine ⟨fun c hc => (hf.calls c hc).trans (hle _),
    fun k e he => (hf.entries k e he).trans (hle _),
    ?_, hf.single⟩
  intro key owner hl hpos
  by_cases heq : key.hash = hash
  · obtain ⟨c, hc, hflies⟩ := countP_pos_iff.1 hpos
    have hcall := hf.calls c hc
    have howner := hl.owner_eq
    simp only [flies, decide_eq_true_eq] at hflies
    simp only [Handler.step, heq, update_self] at howner
    rw [hflies.2.1, hflies.2.2, heq] at hcall
    omega
  · obtain ⟨hcur, hrest⟩ := hl
    simp only [current, Handler.step, update_of_ne heq] at hcur
    exact hf.held key owner ⟨hcur, hrest⟩ hpos

theorem request (hf : Flight h) (key : PreloadKey) : Flight (h.step (.request key)) := by
  simp only [Handler.step]
  split
  · next owner hcur =>
    split
    · exact hf
    let d : Call := { key, state := { owner } }
    have hcount : ∀ k o, (h.calls ++ [d]).countP (flies k o) = h.calls.countP (flies k o) :=
      fun k o => countP_append
    refine ⟨?_, hf.entries, fun k o hl hpos => hf.held k o hl (hcount k o ▸ hpos),
      fun k o => hcount k o ▸ hf.single k o⟩
    intro c hc
    rcases mem_append.1 hc with hc | hc
    · exact hf.calls c hc
    · obtain rfl := mem_singleton.1 hc
      unfold current at hcur
      split at hcur <;> cases hcur
      exact Nat.le_refl _
  · exact hf

theorem expire (hf : Flight h) (now : Int) : Flight (h.step (.expire now)) := by
  refine hf.shrink ?_ ?_
  · intro k e he
    exact (Option.filter_eq_some_iff.1 he).1
  · intro k e he hr _
    exact Option.filter_eq_some_iff.2 ⟨he, by simp [hr]⟩

theorem target (hf : Flight h) (ht : h.Timely (.target i size now)) :
    Flight (h.step (.target i size now)) := by
  simp only [Handler.step]
  split
  · next key owner hlook =>
    unfold preloadTarget
    split
    · exact hf
    next hnone =>
    refine hf.shrink ?_ ?_
    · intro k e he
      simp only [update_apply] at he
      split at he
      · cases he
      · exact he
    · intro k e he hr hl
      simp only [update_apply]
      split
      · next hk =>
        subst hk
        have hkeeps := ht _ hlook e he hr hl
        simp [he, Option.filter, hkeeps] at hnone
      · exact he
  · exact hf

section Move

variable {d : Call} {s : Option PreloadState} (hf : Flight h) (hc : h.calls[i]? = some c)
  (hd : d.key = c.key ∧ d.state.owner = c.state.owner)

include hf hc hd

/-- A step of one call leaves to show what it makes of its own entry and of the number of calls for
it. -/
theorem set_call (slots : Nat) (hs : ∀ e ∈ s, h.preloads c.key = some e ∨ e.owner = c.state.owner)
    (hother : ∀ owner, c.state.owner ≠ owner → h.Live c.key owner →
      Held (h.preloads c.key) owner → Held s owner)
    (hown : ∀ n n', n = h.calls.countP (flies c.key c.state.owner) → n ≤ 1 →
      n' + c.point.flying.toNat = n + d.point.flying.toNat →
      n' ≤ 1 ∧ (h.Live c.key c.state.owner → 0 < n' → Held s c.state.owner)) :
    Flight { h with preloads := update h.preloads c.key s, slots, calls := h.calls.set i d } := by
  have howner := hf.calls c (mem_of_getElem? hc)
  have hcount : ∀ k owner, (h.calls.set i d).countP (flies k owner) ≤ 1 ∧ (h.Live k owner →
      0 < (h.calls.set i d).countP (flies k owner) → Held (update h.preloads c.key s k) owner) := by
    intro k owner
    have hadd := Registry.countP_set_add (flies k owner) (y := d) hc
    by_cases hsame : c.key = k ∧ c.state.owner = owner
    · obtain ⟨rfl, rfl⟩ := hsame
      rw [update_self]
      refine hown _ _ rfl (hf.single _ _) ?_
      simpa [flies, hd, toNat_eq_ite] using hadd
    · have hcf : flies k owner c = false := by simp [flies, hsame]
      have hdf : flies k owner d = false := by simp [flies, hd, hsame]
      rw [hcf, hdf, Nat.add_right_cancel_iff] at hadd
      rw [hadd]
      refine ⟨hf.single k owner, fun hl hpos => ?_⟩
      have hheld := hf.held k owner hl hpos
      by_cases hk : k = c.key
      · subst hk
        rw [update_self]
        exact hother owner (fun ho => hsame ⟨rfl, ho⟩) hl hheld
      · rwa [update_of_ne hk]
  refine ⟨?_, ?_, fun k owner => (hcount k owner).2, fun k owner => (hcount k owner).1⟩
  · intro d' hd'
    rcases mem_or_eq_of_mem_set hd' with hd' | rfl
    · exact hf.calls d' hd'
    · rw [hd.1, hd.2]
      exact howner
  · intro k e he
    simp only [update_apply] at he
    split at he
    · next hk =>
      subst hk
      rcases hs e he with he | ho
      · exact hf.entries _ e he
      · exact ho ▸ howner
    · exact hf.entries k e he

theorem effect (slots : Nat) (heff : Effect h c d.point.flying s)
    (ht : c.point = .looking → h.admits c → h.Live c.key c.state.owner) :
    Flight { h with preloads := update h.preloads c.key s, slots, calls := h.calls.set i d } := by
  have hone := Bool.toNat_le d.point.flying
  cases heff with
  | quiet hfly =>
    refine hf.set_call hc hd slots (fun e he => .inl he) (fun _ _ _ => id) ?_
    intro n n' hn hle hadd
    have hlt : d.point.flying.toNat ≤ c.point.flying.toNat := Bool.toNat_le_toNat hfly
    exact ⟨by omega, fun hl hpos => hf.held _ _ hl (by omega)⟩
  | @writes e s hcf he ho hs hfly =>
    refine hf.set_call hc hd slots (fun e he => .inr (hs e he)) ?_ ?_
    · rintro owner hne - ⟨e', he', ho', -⟩
      cases he.symm.trans he'
      exact absurd (ho.symm.trans ho') hne
    · intro n n' hn hle hadd
      rw [hcf, Bool.toNat_true] at hadd
      refine ⟨by omega, fun hl hpos => ?_⟩
      have hdf : d.point.flying = true := by
        by_contra hn
        rw [Bool.eq_false_iff.2 hn, Bool.toNat_false] at hadd
        omega
      obtain ⟨e', he', hr⟩ := hfly hdf
      exact ⟨e', he', hs e' he', hr⟩
  | @admits e hlook ha ho hr =>
    have hl := ht hlook ha
    refine hf.set_call hc hd slots (by rintro e ⟨⟩; exact .inr ho) ?_ ?_
    · intro owner hne hl'
      exact absurd (hl.owner_eq.trans hl'.owner_eq.symm) hne
    · intro n n' hn hle hadd
      have hzero : n = 0 := by
        by_contra hne
        obtain ⟨e', he, hown, hrun⟩ := hf.held _ _ hl (by omega)
        rw [Option.mem_def] at he
        simp [Handler.admits, he, hown, hrun] at ha
      exact ⟨by omega, fun _ _ => ⟨e, rfl, ho, hr⟩⟩

end Move

theorem move (hb : Books h) (hf : Flight h) (ht : h.Timely (.move i env)) :
    Flight (h.step (.move i env)) := by
  simp only [Handler.step]
  split
  · next c hc =>
    obtain ⟨s, heff, hp⟩ := advance_effect (h := h) (hb.balanced c (mem_of_getElem? hc)) env
    simp only [hp]
    exact hf.effect hc advance_key _ heff (ht c hc)
  · exact hf

theorem step (hb : Books h) (hf : Flight h) {a : Action} (ht : h.Timely a) : Flight (h.step a) := by
  cases a with
  | register hash attached => exact hf.register hash attached
  | request key => exact hf.request key
  | move i env => exact hf.move hb ht
  | expire now => exact hf.expire now
  | target i size now => exact hf.target ht
  | look key => exact ⟨hf.calls, hf.entries, hf.held, hf.single⟩
  | cancel hash owner =>
    refine ⟨hf.calls, hf.entries, fun k g hl => ?_, hf.single⟩
    exact hf.held k g ⟨hl.1, mt (mem_cons_of_mem _) hl.2.1, hl.2.2⟩
  | shutdown => exact ⟨hf.calls, hf.entries, fun _ _ hl => (nomatch hl.2.2), hf.single⟩
  | clear =>
    refine hf.shrink ?_ ?_
    · intro k e he
      split at he
      · cases he
      · exact he
    · intro k e he _ hl
      rw [if_neg (by simp [hl.2.2]), he]

end Flight

/-- A request or warmup of an older generation does not touch an entry of a newer one. -/
theorem newer_kept {e : PreloadState} (hb : Books h) (hf : Flight h) (ht : h.Timely (.move i env))
    (hc : h.calls[i]? = some c) (he : h.preloads key = some e) (hlt : c.state.owner < e.owner) :
    (h.step (.move i env)).preloads key = some e := by
  obtain ⟨s, heff, hp⟩ := advance_effect (h := h) (hb.balanced c (mem_of_getElem? hc)) env
  simp only [Handler.step, hc, hp, update_apply]
  split
  · next hk =>
    subst hk
    cases heff with
    | quiet => exact he
    | writes _ he' ho =>
      cases he.symm.trans he'
      omega
    | admits hlook ha =>
      have hle := hf.entries _ e he
      rw [← (ht c hc hlook ha).owner_eq] at hle
      omega
  · exact he

/-- Only an admission makes an entry. -/
theorem absent_kept (hb : Books h) (he : h.preloads key = none)
    (ha : ∀ i env, a = .move i env → ∀ c ∈ h.calls[i]?, c.point ≠ .looking) :
    (h.step a).preloads key = none := by
  cases a with
  | move i env =>
    simp only [Handler.step]
    split
    · next c hc =>
      obtain ⟨s, heff, hp⟩ := advance_effect (h := h) (hb.balanced c (mem_of_getElem? hc)) env
      simp only [hp, update_apply]
      split
      · next hk =>
        subst hk
        cases heff with
        | quiet => exact he
        | writes _ he' => cases he.symm.trans he'
        | admits hlook => exact absurd hlook (ha i env rfl c hc)
      · exact he
    · exact he
  | request _ | clear | target _ _ _ =>
    simp only [Handler.step, preloadTarget]
    repeat' split
    all_goals simp [update_apply, he]
  | expire now => simp [Handler.step, expirePreloads, he]
  | register _ _ | cancel _ _ | shutdown | look _ => exact he

/-- At most four requests and warmups hold a slot at a time. -/
theorem warmups_limited (as : List Action) :
    (run as).calls.countP (fun c => c.point.occupies) ≤ 4 := by
  rw [← (books_run as).slots]
  refine exec_invariant_forall (I := fun h : Handler => h.slots ≤ 4) (fun h a hs => ?_)
    (Nat.zero_le 4) as
  cases a with
  | move i env =>
    simp only [Handler.step, advance, locked]
    repeat' split
    all_goals grind [admits]
  | request _ | target _ _ _ =>
    simp only [Handler.step]
    repeat' split
    all_goals exact hs
  | _ => exact hs

/-- Along every run the slots that are out are those of the requests which have been admitted and
have neither returned nor had their warmup finish; a call gives back its slot once and its lease,
and only an admission makes an entry. If the run is timely, at most one request or warmup of a
generation is on its way, and none changes the entry of a newer generation. -/
theorem preloads_single (as : List Action) :
    ((run as).slots = (run as).calls.countP fun c => c.point.occupies) ∧
    (∀ c ∈ (run as).calls, c.took ≤ 1 ∧ c.gave ≤ c.took ∧ (c.released → c.leased) ∧
      (c.point = .gone → c.gave = c.took ∧ c.released = c.leased)) ∧
    (∀ a key, (run as).preloads key = none →
      (∀ i env, a = .move i env → ∀ c ∈ (run as).calls[i]?, c.point ≠ .looking) →
      ((run as).step a).preloads key = none) ∧
    (Along step Timely {} as →
      (∀ key owner, (run as).calls.countP (flies key owner) ≤ 1) ∧
      ∀ i env c key e, (run as).Timely (.move i env) → (run as).calls[i]? = some c →
        (run as).preloads key = some e → c.state.owner < e.owner →
        ((run as).step (.move i env)).preloads key = some e) := by
  have hb := books_run as
  refine ⟨hb.slots, ?_, fun a key => absent_kept hb, fun hal => ?_⟩
  · intro c hc
    obtain ⟨h₁, h₂, h₃, -⟩ := hb.balanced c hc
    have h₄ := Bool.toNat_le (decide (c.point ≠ .looking))
    refine ⟨by omega, by omega, ?_, fun ho => ?_⟩
    · cases hp : c.point <;> simp_all
    · rw [ho] at h₁ h₃
      exact ⟨h₁.symm, h₃⟩
  · have hf : Books (run as) ∧ Flight (run as) := by
      refine exec_invariant (I := fun h => Books h ∧ Flight h)
        (fun h a hh ht => ⟨hh.1.step a, Flight.step hh.1 hh.2 ht⟩) ?_ hal
      exact ⟨.init, fun _ hc => absurd hc not_mem_nil, fun _ _ he => absurd he (by simp),
        fun _ _ _ hpos => absurd hpos (Nat.lt_irrefl 0), fun _ _ => Nat.zero_le 1⟩
    exact ⟨hf.2.single, fun i env c key e ht hc he hlt => newer_kept hb hf.2 ht hc he hlt⟩

/-- A request that read generation 1 is admitted after generation 2 has replaced it. It overwrites
the running entry of generation 2 and deletes it when it finds that the generation has changed. -/
def overtaken : List Action := [.register "a" true, .request ⟨"a", 0⟩, .register "a" true,
  .request ⟨"a", 0⟩, .move 1 {}, .move 0 {}, .move 0 {}, .move 0 { file := some (0, false) },
  .move 0 {}, .move 0 {}, .move 0 {}, .request ⟨"a", 0⟩, .move 2 {}]

/-- `preloadTarget` reads that there is no torrent, and deletes the running entry of the one that is
attached meanwhile. -/
def misread : List Action := [.look ⟨"a", 0⟩, .register "a" true, .request ⟨"a", 0⟩, .move 0 {},
  .target 0 0 0, .request ⟨"a", 0⟩, .move 1 {}]

/-- The table is cleared at the shutdown while a request is on its way, and one that has come past
the first checks is admitted after that. -/
def cleared : List Action := [.register "a" true, .request ⟨"a", 0⟩, .move 0 {}, .request ⟨"a", 0⟩,
  .shutdown, .clear, .move 1 {}]

theorem overtaken_twice :
    (run overtaken).calls.countP (flies ⟨"a", 0⟩ 2) = 2 ∧
    (run misread).calls.countP (flies ⟨"a", 0⟩ 1) = 2 ∧
    (run cleared).calls.countP (flies ⟨"a", 0⟩ 1) = 2 ∧
    ((run (overtaken.take 5)).preloads ⟨"a", 0⟩).map PreloadState.owner = some 2 ∧
    ((run (overtaken.take 6)).preloads ⟨"a", 0⟩).map PreloadState.owner = some 1 := by
  decide +kernel

def expired : List Action := [.register "a" true, .request ⟨"a", 0⟩, .move 0 {}, .move 0 {},
  .move 0 { file := some (5, true) }, .move 0 {}, .expire lifetime]

theorem expired_single :
    Along step Timely {} expired ∧ ∀ key owner, (run expired).calls.countP (flies key owner) ≤ 1 :=
  ⟨by decide +kernel, ((preloads_single _).2.2.2 (by decide +kernel)).1⟩

end Handler

end TorrentHub.Preload
