import TorrentHub.Lib.Run
import TorrentHub.Lib.Decimal
import TorrentHub.Payload.Layout

namespace TorrentHub.Metafetch

open Lib List Function Option

abbrev Text := List Char

/-- An address; the invalid one is the zero value. -/
inductive Addr where
  | invalid
  | v4 (bits : BitVec 32)
  | v6 (bits : BitVec 128) (zone : Text)
deriving DecidableEq

inductive Network where
  | v4 (bits : BitVec 32) (length : Nat)
  | v6 (bits : BitVec 128) (length : Nat)

def Network.contains : Network → Addr → Bool
  | v4 net length, .v4 ip => (ip ^^^ net) >>> (32 - length) == 0
  | v6 net length, .v6 ip zone => zone == [] && (ip ^^^ net) >>> (128 - length) == 0
  | _, _ => false

namespace Addr

def unmap : Addr → Addr
  | v6 bits zone => if bits >>> 32 = 0xffff then v4 (bits.setWidth 32) else v6 bits zone
  | ip => ip

def zone : Addr → Text
  | v6 _ zone => zone
  | _ => []

variable (ip : Addr)

def within (nets : List Network) : Bool := nets.any (·.contains ip)

def isUnspecified : Bool := ip.within [.v4 0 32, .v6 0 128]

def isMulticast : Bool := ip.within [.v4 0xe0000000 4, .v6 (0xff <<< 120) 8]

def isLoopback : Bool := ip.within [.v4 0x7f000000 8, .v6 1 128]

def isLinkLocalUnicast : Bool := ip.within [.v4 0xa9fe0000 16, .v6 (0xfe80 <<< 112) 10]

def isPrivate : Bool :=
  ip.within [.v4 0x0a000000 8, .v4 0xac100000 12, .v4 0xc0a80000 16, .v6 (0xfc00 <<< 112) 7]

def isGlobalUnicast : Bool :=
  ip != invalid && !(ip.isUnspecified || ip.within [.v4 0xffffffff 32] || ip.isLoopback ||
    ip.isMulticast || ip.isLinkLocalUnicast)

end Addr

structure Rule where
  net : Option Network := none
  host : Text := []
  port : Text := []

structure Fetcher where
  rules : List Rule
  limit : Int
  timeout : Int
  redirects : Int

def validPort (port : Text) : Bool :=
  let digits := if port.head? = some '+' then port.tail else port
  digits.all Char.isDigit && decide (0 < natOf digits ∧ natOf digits ≤ 65535)

def Fetcher.allowed (f : Fetcher) (host port : Text) (ip : Addr) : Bool :=
  let ip := ip.unmap
  if ip == .invalid || ip.zone != [] || ip.isUnspecified || ip.isMulticast then false
  else if f.rules.any fun r => r.net.any (·.contains ip) || r.host == host && r.port == port then
    true
  else if !ip.isGlobalUnicast || ip.isPrivate || ip.isLoopback || ip.isLinkLocalUnicast then false
  else !ip.within [.v4 0 8, .v4 0x64400000 10, .v4 0xc0000000 24, .v4 0xc6120000 15]

def joinHostPort (host port : Text) : Text :=
  (if ':' ∈ host then '[' :: host ++ [']'] else host) ++ ':' :: port

/-- `net.SplitHostPort`: the port stands after the last colon, and a host that begins with a bracket
ends with the first closing one, just before that colon. -/
def splitHostPort (address : Text) : Option (Text × Text) :=
  let port := (address.reverse.takeWhile (· ≠ ':')).reverse
  let front := address.take (address.length - port.length - 1)
  if ':' ∉ address then none
  else
    match front with
    | '[' :: rest =>
      let host := rest.takeWhile (· ≠ ']')
      if rest = host ++ [']'] ∧ '[' ∉ host ∧ '[' ∉ port ∧ ']' ∉ port then some (host, port)
      else none
    | _ =>
      if ':' ∈ front ∨ '[' ∈ address ∨ ']' ∈ address then none else some (front, port)

abbrev Answer := Option (List Addr)

structure Lookup where
  host : Text
  port : Text
  answer : Answer

/-- The pins of one fetch, with the calls of the resolver so far, the newest first. -/
structure Table where
  pinned : Text → Answer := fun _ => none
  lookups : List Lookup := []

/-- Functions of the standard library about which nothing is assumed. -/
structure Packages where
  parseAddr : Text → Option Addr
  text : Addr → Text
  trimSpace : Bytes → Bytes

variable (pkg : Packages) (f : Fetcher)

def normalise (host : Text) : Text :=
  (if host.getLast? = some '.' then host.dropLast else host).map Char.toLower

def Fetcher.accepts (host port : Text) (ips : List Addr) : Bool :=
  !(ips.isEmpty || decide (16 < ips.length)) && ips.all (f.allowed host port)

/-- `answer` is what the resolver says, if it is asked. -/
def resolve (t : Table) (host port : Text) (answer : Answer) : Table × Answer :=
  if host.any (127 < ·.toNat) then (t, none) else
  let host := normalise host
  let key := joinHostPort host port
  match t.pinned key with
  | some ips => (t, some ips)
  | none =>
    let (t, found) := match pkg.parseAddr host with
      | some ip => (t, some [ip])
      | none => ({ t with lookups := ⟨host, port, answer⟩ :: t.lookups }, answer)
    match found with
    | none => (t, none)
    | some ips =>
      if f.accepts host port ips then
        ({ t with pinned := Function.update t.pinned key (some ips) }, some ips)
      else (t, none)

structure Link where
  scheme : String
  user : Bool
  hostname : Text
  port : Text
  text : Bytes

def Link.dialPort (url : Link) : Text :=
  if url.port ≠ [] then url.port else if url.scheme = "https" then ['4', '4', '3'] else ['8', '0']

structure Response where
  status : Int
  location : Option Link
  contentLength : Int
  body : Bytes
  broken : Bool

inductive Result where
  | failed
  | magnet (text : Bytes)
  | body (body : Bytes)

inductive Phase where
  | visit (current : Link) (redirects : Nat)
  | requesting (redirects : Nat)
  | done (result : Result)

/-- A call of the transport's `DialContext` and the addresses that it still has to try. -/
structure Dialing where
  asked : Text
  port : Text
  left : List Addr

structure Dial where
  asked : Text
  address : Text
  ip : Addr

structure World where
  table : Table := {}
  dialing : List Dialing := []
  dials : List Dial := []
  requests : List Link := []
  phase : Phase

def World.finish (w : World) (result : Result) : World := { w with phase := .done result }

def World.init (link : Option Link) : World where
  phase := if f.limit ≤ 0 ∨ f.timeout ≤ 0 ∨ f.redirects < 0 then .done .failed else
    match link with
    | none => .done .failed
    | some url => .visit url 0

namespace World

variable (w : World)

def visit (current : Link) (redirects : Nat) (answer : Answer) (built : Bool) : World :=
  if f.redirects < redirects then w.finish .failed
  else if current.scheme = "magnet" ∧ 0 < redirects then w.finish (.magnet current.text)
  else if current.scheme ≠ "http" ∧ current.scheme ≠ "https" ∨ current.user = true ∨
      current.hostname = [] then w.finish .failed
  else if validPort current.dialPort then
    let (table, found) := resolve pkg f w.table current.hostname current.dialPort answer
    let w := { w with table }
    if found.isSome && built then
      { w with requests := current :: w.requests, phase := .requesting redirects }
    else w.finish .failed
  else w.finish .failed

def magnetMark : Bytes := [109, 97, 103, 110, 101, 116, 58]

def respond (redirects : Nat) : Option Response → World
  | none => w.finish .failed
  | some r =>
    if 300 ≤ r.status ∧ r.status ≤ 399 then
      match r.location with
      | none => w.finish .failed
      | some next => { w with phase := .visit next (redirects + 1) }
    else if r.status ≠ 200 ∨ f.limit < r.contentLength ∨ r.broken = true then w.finish .failed
    else
      let body := r.body.take (f.limit + 1).toNat
      if f.limit < body.length then w.finish .failed
      else
        let trimmed := pkg.trimSpace body
        if trimmed.length < 2 ^ 20 ∧ (trimmed.take 7).map lowerByte = magnetMark then
          w.finish (.magnet trimmed)
        else w.finish (.body body)

def dial (asked : Text) (answer : Answer) : World :=
  match splitHostPort asked with
  | none => w
  | some (host, port) =>
    let (table, found) := resolve pkg f w.table host port answer
    { w with table, dialing := w.dialing ++ [⟨asked, port, found.getD []⟩] }

/-- The call `i` tries its next address; when that answers, it tries no other. -/
def attempt (i : Nat) (answers : Bool) : World :=
  match w.dialing[i]? with
  | some ⟨asked, port, ip :: left⟩ =>
    { w with
      dialing := w.dialing.set i ⟨asked, port, if answers then [] else left⟩
      dials := ⟨asked, joinHostPort (pkg.text ip.unmap) port, ip⟩ :: w.dials }
  | _ => w

end World

/-- The loop of `Fetch`, and the calls of the client, which may dial when and what it likes. -/
inductive Action where
  | visit (answer : Answer) (built : Bool)
  | respond (response : Option Response)
  | dial (asked : Text) (answer : Answer)
  | attempt (i : Nat) (answers : Bool)

def World.step (w : World) : Action → World
  | .visit answer built =>
    match w.phase with
    | .visit current redirects => w.visit pkg f current redirects answer built
    | _ => w
  | .respond response =>
    match w.phase with
    | .requesting redirects => w.respond pkg f redirects response
    | _ => w
  | .dial asked answer => w.dial pkg f asked answer
  | .attempt i answers => w.attempt pkg i answers

/-- The pin of a host and port: every address of the one answer behind it was allowed. -/
structure Cleared (t : Table) (host port : Text) (ips : List Addr) : Prop where
  pinned : t.pinned (joinHostPort host port) = some ips
  allowed : ∀ ip ∈ ips, f.allowed host port ip = true
  origin : (∃ ip, pkg.parseAddr host = some ip ∧ ips = [ip]) ∨ ⟨host, port, some ips⟩ ∈ t.lookups

/-- The resolver gave an answer that was accepted. -/
def Lookup.Succeeds (l : Lookup) : Prop :=
  ∃ ips, l.answer = some ips ∧ f.accepts l.host l.port ips = true

def Lookup.key (l : Lookup) : Text := joinHostPort l.host l.port

structure Table.Sound (t : Table) : Prop where
  cleared : ∀ key ips, t.pinned key = some ips → ∃ host port,
    ':' ∉ port ∧ joinHostPort host port = key ∧ Cleared pkg f t host port ips
  found : ∀ l ∈ t.lookups, l.Succeeds f → t.pinned l.key ≠ none
  once : t.lookups.Pairwise fun later earlier => earlier.Succeeds f → later.key ≠ earlier.key

def Table.Grows (t t' : Table) : Prop :=
  (∀ key ips, t.pinned key = some ips → t'.pinned key = some ips) ∧ t.lookups ⊆ t'.lookups

/-- A host and port without a pin: the resolver may be asked, and its answer pinned. -/
structure Adds (t t' : Table) (host port : Text) : Prop where
  free : t.pinned (joinHostPort host port) = none
  pinned : t'.pinned = t.pinned ∨ ∃ ips,
    t'.pinned = Function.update t.pinned (joinHostPort host port) (some ips) ∧
    Cleared pkg f t' host port ips
  lookups : t'.lookups = t.lookups ∨ ∃ answer, t'.lookups = ⟨host, port, answer⟩ :: t.lookups ∧
    (Lookup.Succeeds f ⟨host, port, answer⟩ → t'.pinned (joinHostPort host port) ≠ none)

structure Resolved (t : Table) (host port : Text) (result : Table × Answer) : Prop where
  sound : result.1.Sound pkg f
  grows : t.Grows result.1
  cleared : ∀ ips, result.2 = some ips → Cleared pkg f result.1 host port ips

/-- The address belongs to the pin of the host and port that the client asked for. -/
def Reaches (t : Table) (asked port : Text) (ip : Addr) : Prop :=
  ∃ host ips, splitHostPort asked = some (host, port) ∧
    Cleared pkg f t (normalise host) port ips ∧ ip ∈ ips

def Link.Plain (url : Link) : Prop :=
  (url.scheme = "http" ∨ url.scheme = "https") ∧ url.user = false

def Phase.Fits (requests : Nat) : Phase → Prop
  | .visit _ n => requests ≤ n ∧ requests ≤ (f.redirects + 1).toNat
  | .requesting n => requests ≤ n + 1 ∧ requests ≤ (f.redirects + 1).toNat
  | .done result => requests ≤ (f.redirects + 1).toNat ∧
    ∀ body, result = .body body → (body.length : Int) ≤ f.limit

structure World.Inv (w : World) : Prop where
  table : w.table.Sound pkg f
  dialing : ∀ d ∈ w.dialing, ∀ ip ∈ d.left, Reaches pkg f w.table d.asked d.port ip
  dials : ∀ d ∈ w.dials, ∃ port, d.address = joinHostPort (pkg.text d.ip.unmap) port ∧
    Reaches pkg f w.table d.asked port d.ip
  requests : ∀ url ∈ w.requests, url.Plain
  phase : w.phase.Fits f w.requests.length

variable {host host' port port' : Text} {pkg f} {t t' : Table} {ips : List Addr} {w : World}

theorem append_colon_inj {a b p q : Text} (hp : ':' ∉ p) (hq : ':' ∉ q)
    (h : a ++ ':' :: p = b ++ ':' :: q) : a = b ∧ p = q := by
  rcases append_eq_append_iff.1 h with ⟨c, rfl, hc⟩ | ⟨c, rfl, hc⟩ <;> cases c with
  | nil => simpa [eq_comm] using hc
  | cons x c =>
    simp only [cons_append, cons.injEq] at hc
    simp [hc.2] at hp hq

/-- Two pairs of one key are one pair, as a port holds no colon. -/
theorem joinHostPort_inj (hp : ':' ∉ port) (hq : ':' ∉ port')
    (h : joinHostPort host port = joinHostPort host' port') : host = host' ∧ port = port' := by
  obtain ⟨hhost, hport⟩ := append_colon_inj hp hq h
  refine ⟨?_, hport⟩
  split at hhost <;> split at hhost
  · simpa using hhost
  next hmarked hplain => simp [← hhost, hmarked] at hplain
  next hplain hmarked => simp [hhost, hmarked] at hplain
  · exact hhost

theorem colon_of_validPort (h : validPort port = true) : ':' ∉ port := by
  intro hmem
  have hdigits := all_eq_true.1 (Bool.and_eq_true_iff.1 h).1
  have hcolon : ':' ∈ if port.head? = some '+' then port.tail else port := by
    split
    next hplus =>
      cases port with
      | nil => cases hmem
      | cons c port =>
        cases hplus
        exact (mem_cons.1 hmem).resolve_left (by decide)
    · exact hmem
  exact absurd (hdigits _ hcolon) (by decide)

theorem colon_of_splitHostPort {asked : Text} (h : splitHostPort asked = some (host, port)) :
    ':' ∉ port := by
  have hport : port = (asked.reverse.takeWhile (· ≠ ':')).reverse := by
    unfold splitHostPort at h
    dsimp only at h
    repeat' split at h
    all_goals cases h
    all_goals rfl
  rw [hport, mem_reverse]
  intro hmem
  simpa using mem_takeWhile_imp hmem

theorem Cleared.grows (h : Cleared pkg f t host port ips) (hg : t.Grows t') :
    Cleared pkg f t' host port ips :=
  ⟨hg.1 _ _ h.pinned, h.allowed, h.origin.imp_right fun hl => hg.2 hl⟩

theorem Table.Grows.refl (t : Table) : t.Grows t := ⟨fun _ _ h => h, fun _ h => h⟩

theorem Adds.grows (h : Adds pkg f t t' host port) : t.Grows t' := by
  constructor
  · intro key ips hkey
    rcases h.pinned with heq | ⟨_, heq, -⟩ <;> rw [heq]
    · exact hkey
    rw [update_of_ne, hkey]
    rintro rfl
    rw [h.free] at hkey
    cases hkey
  · rcases h.lookups with heq | ⟨_, heq, -⟩ <;> rw [heq]
    · exact fun _ hl => hl
    · exact fun _ => mem_cons_of_mem _

theorem Adds.sound (h : Adds pkg f t t' host port) (ht : t.Sound pkg f) (hport : ':' ∉ port) :
    t'.Sound pkg f := by
  have hold : ∀ l ∈ t.lookups, l.Succeeds f → t'.pinned l.key ≠ none := by
    intro l hl hsucceeds
    obtain ⟨ips, hips⟩ := ne_none_iff_exists'.1 (ht.found l hl hsucceeds)
    rw [h.grows.1 _ _ hips]
    nofun
  refine ⟨?_, ?_, ?_⟩
  · intro key ips hkey
    have hbefore : t.pinned key = some ips → ∃ host port,
        ':' ∉ port ∧ joinHostPort host port = key ∧ Cleared pkg f t' host port ips := by
      intro hkey
      obtain ⟨host, port, hport, heq, hcleared⟩ := ht.cleared key ips hkey
      exact ⟨host, port, hport, heq, hcleared.grows h.grows⟩
    rcases h.pinned with heq | ⟨ips', heq, hcleared⟩
    · exact hbefore (heq ▸ hkey)
    by_cases hk : joinHostPort host port = key
    · subst hk
      obtain rfl : ips' = ips := some.inj (hcleared.pinned.symm.trans hkey)
      exact ⟨host, port, hport, rfl, hcleared⟩
    · rw [heq, update_of_ne (Ne.symm hk)] at hkey
      exact hbefore hkey
  · rcases h.lookups with heq | ⟨answer, heq, hnew⟩ <;> rw [heq]
    · exact hold
    · exact forall_mem_cons.2 ⟨hnew, hold⟩
  · rcases h.lookups with heq | ⟨answer, heq, -⟩ <;> rw [heq]
    · exact ht.once
    refine pairwise_cons.2 ⟨?_, ht.once⟩
    intro l hl hsucceeds hkey
    exact ht.found l hl hsucceeds (hkey ▸ h.free)

theorem resolve_sound (h : t.Sound pkg f) (hport : ':' ∉ port) (host : Text) (answer : Answer) :
    Resolved pkg f t (normalise host) port (resolve pkg f t host port answer) := by
  unfold resolve
  split
  · exact ⟨h, .refl t, nofun⟩
  generalize normalise host = host
  dsimp only
  split
  next ips hpinned =>
    refine ⟨h, .refl t, ?_⟩
    rintro _ ⟨⟩
    obtain ⟨host', port', hport', heq, hcleared⟩ := h.cleared _ _ hpinned
    obtain ⟨rfl, rfl⟩ := joinHostPort_inj hport' hport heq
    exact hcleared
  next hnone =>
  have hpin : ∀ ips (lookups : List Lookup), f.accepts host port ips = true →
      ((∃ ip, pkg.parseAddr host = some ip ∧ ips = [ip]) ∨ ⟨host, port, some ips⟩ ∈ lookups) →
      Cleared pkg f ⟨update t.pinned (joinHostPort host port) (some ips), lookups⟩
        host port ips := fun ips lookups haccepts horigin =>
    ⟨update_self .., all_eq_true.1 (Bool.and_eq_true_iff.1 haccepts).2, horigin⟩
  cases hparse : pkg.parseAddr host with
  | some ip =>
    dsimp only
    split
    next haccepts =>
      have hc := hpin [ip] t.lookups haccepts (.inl ⟨ip, hparse, rfl⟩)
      have hadds := Adds.mk hnone (.inr ⟨[ip], rfl, hc⟩) (.inl rfl)
      exact ⟨hadds.sound h hport, hadds.grows, fun _ heq => some.inj heq ▸ hc⟩
    · exact ⟨h, .refl t, nofun⟩
  | none =>
    have hasked : ¬ Lookup.Succeeds f ⟨host, port, answer⟩ →
        Adds pkg f t ⟨t.pinned, ⟨host, port, answer⟩ :: t.lookups⟩ host port := fun hfails =>
      ⟨hnone, .inl rfl, .inr ⟨answer, rfl, fun hs => absurd hs hfails⟩⟩
    cases answer with
    | none =>
      have hadds := hasked (by rintro ⟨_, ⟨⟩, _⟩)
      exact ⟨hadds.sound h hport, hadds.grows, nofun⟩
    | some ips =>
      dsimp only
      split
      next haccepts =>
        have hc := hpin ips (⟨host, port, some ips⟩ :: t.lookups) haccepts (.inr mem_cons_self)
        have hadds := Adds.mk hnone (.inr ⟨ips, rfl, hc⟩)
          (.inr ⟨_, rfl, fun _ => ne_none_iff_exists'.2 ⟨ips, hc.pinned⟩⟩)
        exact ⟨hadds.sound h hport, hadds.grows, fun _ heq => some.inj heq ▸ hc⟩
      next hrejects =>
      have hadds := hasked (by rintro ⟨_, ⟨⟩, haccepts⟩; exact hrejects haccepts)
      exact ⟨hadds.sound h hport, hadds.grows, nofun⟩

namespace World.Inv

open World

theorem grows {table : Table} (h : w.Inv pkg f) (hg : w.table.Grows table)
    (ht : table.Sound pkg f) : Inv pkg f { w with table } := by
  have hreaches : ∀ {asked port ip}, Reaches pkg f w.table asked port ip →
      Reaches pkg f table asked port ip := by
    rintro asked port ip ⟨host, ips, hsplit, hcleared, hip⟩
    exact ⟨host, ips, hsplit, hcleared.grows hg, hip⟩
  refine { h with table := ht, dialing := ?_, dials := ?_ }
  · intro d hd ip hip
    exact hreaches (h.dialing d hd ip hip)
  intro d hd
  obtain ⟨port, haddress, hreached⟩ := h.dials d hd
  exact ⟨port, haddress, hreaches hreached⟩

theorem finish (h : w.Inv pkg f)
    (hbody : ∀ body, result = .body body → (body.length : Int) ≤ f.limit) :
    (w.finish result).Inv pkg f := by
  refine { h with phase := ⟨?_, hbody⟩ }
  have hphase := h.phase
  cases hp : w.phase <;> rw [hp] at hphase
  · exact hphase.2
  · exact hphase.2
  · exact hphase.1

theorem visit (h : w.Inv pkg f) (hp : w.phase = .visit current n)
    (answer : Answer) (built : Bool) : (w.visit pkg f current n answer built).Inv pkg f := by
  have hphase := h.phase
  rw [hp] at hphase
  unfold World.visit
  split
  · exact h.finish nofun
  next hbound =>
  split
  · exact h.finish nofun
  split
  · exact h.finish nofun
  next hlink =>
  split
  next hport =>
    have hres := resolve_sound h.table (colon_of_validPort hport) current.hostname answer
    have hgrown := h.grows hres.grows hres.sound
    dsimp only
    split
    · refine { hgrown with requests := ?_, phase := ⟨?_, ?_⟩ }
      · refine forall_mem_cons.2 ⟨?_, h.requests⟩
        grind [Link.Plain]
      · exact Nat.succ_le_succ hphase.1
      · have hle : w.requests.length ≤ n := hphase.1
        simp only [length_cons]
        omega
    · exact hgrown.finish nofun
  · exact h.finish nofun

theorem respond (h : w.Inv pkg f) (hp : w.phase = .requesting n)
    (response : Option Response) : (w.respond pkg f n response).Inv pkg f := by
  have hphase := h.phase
  rw [hp] at hphase
  unfold World.respond
  split
  · exact h.finish nofun
  split
  · split
    · exact h.finish nofun
    · exact { h with phase := hphase }
  split
  · exact h.finish nofun
  dsimp only
  split
  · exact h.finish nofun
  next hsmall =>
  split
  · exact h.finish nofun
  refine h.finish ?_
  rintro _ ⟨⟩
  exact Int.not_lt.1 hsmall

theorem dial (h : w.Inv pkg f) (asked : Text) (answer : Answer) :
    (w.dial pkg f asked answer).Inv pkg f := by
  unfold World.dial
  split
  · exact h
  next host port hsplit =>
  have hres := resolve_sound h.table (colon_of_splitHostPort hsplit) host answer
  have hgrown := h.grows hres.grows hres.sound
  refine { hgrown with dialing := ?_ }
  intro d hd ip hip
  rcases mem_append.1 hd with hd | hd
  · exact hgrown.dialing d hd ip hip
  obtain rfl := mem_singleton.1 hd
  cases hfound : (resolve pkg f w.table host port answer).2 with
  | none => simp [hfound] at hip
  | some ips =>
    simp only [hfound, getD_some] at hip
    exact ⟨host, ips, hsplit, hres.cleared ips hfound, hip⟩

theorem attempt (h : w.Inv pkg f) (i : Nat) (answers : Bool) :
    (w.attempt pkg i answers).Inv pkg f := by
  unfold World.attempt
  split
  next asked port ip left hi =>
    have hleft := h.dialing _ (mem_of_getElem? hi)
    refine { h with dialing := ?_, dials := ?_ }
    · intro d hd ip' hip
      rcases mem_or_eq_of_mem_set hd with hd | rfl
      · exact h.dialing d hd ip' hip
      dsimp only at hip
      split at hip
      · cases hip
      · exact hleft ip' (mem_cons_of_mem ip hip)
    · exact forall_mem_cons.2 ⟨⟨port, rfl, hleft ip mem_cons_self⟩, h.dials⟩
  · exact h

theorem step (h : w.Inv pkg f) (a : Action) : (w.step pkg f a).Inv pkg f := by
  cases a with
  | visit answer built =>
    simp only [World.step]
    split
    next hp => exact h.visit hp answer built
    · exact h
  | respond response =>
    simp only [World.step]
    split
    next hp => exact h.respond hp response
    · exact h
  | dial asked answer => exact h.dial asked answer
  | attempt i answers => exact h.attempt i answers

theorem init (pkg : Packages) (f : Fetcher) (link : Option Link) : (init f link).Inv pkg f := by
  refine ⟨⟨nofun, nofun, .nil⟩, nofun, nofun, nofun, ?_⟩
  unfold World.init
  dsimp only
  split
  · exact ⟨Nat.zero_le _, nofun⟩
  split
  · exact ⟨Nat.zero_le _, nofun⟩
  · exact ⟨Nat.zero_le _, Nat.zero_le _⟩

end World.Inv

/-- Whatever the servers, the resolver and the client do: the client reaches only allowed
addresses of the one accepted answer for its host and port, over few requests. -/
theorem fetch_confined (pkg : Packages) (f : Fetcher) (link : Option Link) (as : List Action) :
    let w := exec (World.step pkg f) (World.init f link) as
    (∀ d ∈ w.dials, ∃ port, d.address = joinHostPort (pkg.text d.ip.unmap) port ∧
      Reaches pkg f w.table d.asked port d.ip) ∧
    (w.table.lookups.Pairwise fun later earlier =>
      earlier.Succeeds f → later.key ≠ earlier.key) ∧
    (∀ url ∈ w.requests, url.Plain) ∧
    w.requests.length ≤ (f.redirects + 1).toNat ∧
    ∀ body, w.phase = .done (.body body) → (body.length : Int) ≤ f.limit := by
  intro w
  have h : w.Inv pkg f := exec_invariant_forall (fun _ a hw => hw.step a) (.init pkg f link) as
  refine ⟨h.dials, h.table.once, h.requests, ?_, ?_⟩
  · exact (h.finish nofun : (w.finish .failed).Inv pkg f).phase.1
  intro body hdone
  have hphase := h.phase
  rw [hdone] at hphase
  exact hphase.2 body rfl

/-- Addresses of version 4 are written in decimals, and no host is taken for an address. -/
def plainPackages : Packages where
  parseAddr _ := none
  text
    | .v4 bits => intercalate ['.'] ([24, 16, 8, 0].map fun n =>
        Nat.toDigits 10 ((bits >>> n).setWidth 8).toNat)
    | _ => []
  trimSpace := fun body => body.dropWhile (· = 32)

/-- No rule, a limit of ten bytes and one redirect. -/
def plainFetcher : Fetcher := ⟨[], 10, 1, 1⟩

def tracker : Link := ⟨"http", false, ['t', '.', 'x'], [], []⟩

/-- The tracker has one public address, and another host only a private one. -/
def trackerDialed : List Action :=
  [.visit (some [.v4 0x08080404]) true, .dial ['t', '.', 'x', ':', '8', '0'] none,
    .dial ['l', ':', '8', '0'] (some [.v4 0x7f000001]), .attempt 0 true, .attempt 1 true,
    .respond (some ⟨200, none, 2, [1, 2], false⟩)]

theorem fetch_confined_trackerDialed :
    let w := exec (World.step plainPackages plainFetcher) (World.init plainFetcher (some tracker))
      trackerDialed
    (w.dials.map (·.address) = [['8', '.', '8', '.', '4', '.', '4', ':', '8', '0']] ∧
      (w.requests.map (·.hostname) = [tracker.hostname] ∧ w.table.lookups.length = 2)) ∧
    ∀ d ∈ w.dials, ∃ port, d.address = joinHostPort (plainPackages.text d.ip.unmap) port ∧
      Reaches plainPackages plainFetcher w.table d.asked port d.ip :=
  ⟨by decide +kernel, (fetch_confined plainPackages plainFetcher (some tracker) trackerDialed).1⟩

end TorrentHub.Metafetch
