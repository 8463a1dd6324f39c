import Kahawai.Core.Text

/-!
# Reverse proxies

`ProxyTrust` (`crates/kahawai-hub/src/proxy.rs`): which peers are proxies, and what the hub
takes from the headers of a request. `client_ip` walks `X-Forwarded-For` from the right and
stops at the first entry that is not the address of a trusted proxy; what stands further left
was written by the client.

Addresses, networks and authorities are those of the standard library and of the crates
`ipnet` and `http`, whose parsers and `contains` are a parameter.

Results:
* `clientIp_of_entries`: the entries up to the one where the walk stops decide the address.
* `clientIp_prepend`: what a client writes in front of a header that stops the walk is ignored.
* `forwardedOrigin_congr`: an origin comes from the last entries of its two headers.
* `forwarded_unforgeable`: two requests that agree on what a client cannot write get the same
  answers.
-/

namespace Kahawai.Hub.Proxy

open Kahawai.Core Kahawai.Core.Text

/-- `IpAddr`, `ipnet::IpNet` and `http::uri::Authority`. -/
structure Addresses where
  Ip : Type
  Net : Type
  /-- `IpAddr::from_str`. -/
  parseIp : Text → Option Ip
  /-- `IpNet::from`. -/
  netOf : Ip → Net
  /-- `IpNet::from_str`. -/
  parseNet : Text → Option Net
  /-- `IpNet::contains`. -/
  contains : Net → Ip → Bool
  /-- `Authority::from_str` and its `Display`. -/
  parseAuthority : Text → Option Text
  /-- `{:?}` of a string. -/
  debug : Text → Text

/-- `struct ProxyTrust`; the lock is left out. -/
structure ProxyTrust (a : Addresses) where
  nets : List a.Net

variable {a : Addresses}

namespace ProxyTrust

/-- One entry of the list (lines 25–30): an address is a network of its own. -/
def parseEntry (a : Addresses) (entry : Text) : Except Text a.Net :=
  match a.parseIp entry with
  | some ip => .ok (a.netOf ip)
  | none =>
    match a.parseNet entry with
    | some net => .ok net
    | none => .error (lit "bad trusted_proxies entry " ++ a.debug entry ++ lit " (IP or CIDR)")

/-- `ProxyTrust::parse` (lines 22–36). -/
def parse (a : Addresses) (entries : List Text) : Except Text (ProxyTrust a) :=
  (entries.mapM (parseEntry a)).map ProxyTrust.mk

/-- `ProxyTrust::reload` (lines 41–47): a bad entry refuses the whole list. -/
def reload (trust : ProxyTrust a) (entries : List Text) : ProxyTrust a × Except Text ℕ :=
  match parse a entries with
  | .ok parsed => (parsed, .ok parsed.nets.length)
  | .error e => (trust, .error e)

/-- `ProxyTrust::trusts` (lines 49–51). -/
def trusts (trust : ProxyTrust a) (ip : a.Ip) : Bool := trust.nets.any (a.contains · ip)

end ProxyTrust

/-- The entries of a header, in its order. -/
def entries (header : Text) : List Text := split (· = ',') header

/-- `str::rsplit(',')`: the entries from the right. -/
def rsplitComma (header : Text) : List Text := (entries header).reverse

namespace ProxyTrust

/-- `ProxyTrust::forwarded_origin` (lines 54–75). -/
def forwardedOrigin (trust : ProxyTrust a) (peer : Option a.Ip) (proto host : Option Text) :
    Option Text := do
  let peer ← peer
  if !trust.trusts peer then none
  else
    let proto := toAsciiLower (trim (← (rsplitComma (← proto)).head?))
    if proto ≠ lit "http" ∧ proto ≠ lit "https" then none
    else
      let host := trim (← (rsplitComma (← host)).head?)
      if '@' ∈ host then none
      else
        let authority ← a.parseAuthority host
        some (proto ++ lit "://" ++ authority)

/-- The walk of `client_ip` (lines 87–101) over the entries from the right; `leftmost` is the
    last address it passed. -/
def walk (trust : ProxyTrust a) (peer : a.Ip) : (leftmost : Option a.Ip) → List Text → a.Ip
  | leftmost, [] => leftmost.getD peer
  | _, hop :: rest =>
    match a.parseIp (trim hop) with
    | none => peer
    | some ip => if !trust.trusts ip then ip else walk trust peer (some ip) rest

/-- `ProxyTrust::client_ip` (lines 81–102). -/
def clientIp (trust : ProxyTrust a) (peer : Option a.Ip) (xff : Option Text) : Option a.Ip := do
  let peer ← peer
  if !trust.trusts peer then some peer
  else
    match xff with
    | none => some peer
    | some xff => some (trust.walk peer none (rsplitComma xff))

/-! ## The list -/

/-- A list that is refused leaves the old one in place. -/
theorem reload_of_error {trust : ProxyTrust a} {list : List Text} {e : Text}
    (h : parse a list = .error e) : trust.reload list = (trust, .error e) := by
  simp only [reload, h]

/-- A list that is taken has one network for each entry. -/
theorem length_of_parse {list : List Text} {trust : ProxyTrust a} (h : parse a list = .ok trust) :
    trust.nets.length = list.length := by
  have hlength : ∀ (list : List Text) (nets : List a.Net),
      list.mapM (parseEntry a) = .ok nets → nets.length = list.length := by
    intro list
    induction list with
    | nil =>
      intro nets h
      rw [List.mapM_nil] at h
      cases h
      rfl
    | cons entry rest ih =>
      intro nets h
      rw [List.mapM_cons] at h
      cases hentry : parseEntry a entry with
      | error e => simp [hentry, bind, Except.bind] at h
      | ok net =>
        cases hrest : rest.mapM (parseEntry a) with
        | error e => simp [hentry, hrest, bind, Except.bind] at h
        | ok others =>
          simp only [hentry, hrest, bind, Except.bind, pure, Except.pure, Except.ok.injEq] at h
          subst h
          simp [ih others hrest]
  unfold parse at h
  cases hnets : list.mapM (parseEntry a) with
  | error e => simp [hnets, Except.map] at h
  | ok nets =>
    simp only [hnets, Except.map, Except.ok.injEq] at h
    subst h
    exact hlength list nets hnets

/-! ## Where the walk stops -/

/-- The walk passes an entry that is the address of a trusted proxy. -/
def Passes (trust : ProxyTrust a) (hop : Text) : Prop :=
  ∃ ip, a.parseIp (trim hop) = some ip ∧ trust.trusts ip = true

/-- The answer of an entry that stops the walk: its address, or the peer if it is garbled. -/
def answer (peer : a.Ip) (hop : Text) : a.Ip := (a.parseIp (trim hop)).getD peer

variable {trust : ProxyTrust a} {peer : a.Ip} {leftmost : Option a.Ip} {hop stop : Text}
  {shared rest : List Text}

theorem walk_of_passes (peer : a.Ip) (leftmost : Option a.Ip) (rest : List Text)
    (h : trust.Passes hop) :
    ∃ ip, trust.walk peer leftmost (hop :: rest) = trust.walk peer (some ip) rest := by
  obtain ⟨ip, hparse, htrusts⟩ := h
  refine ⟨ip, ?_⟩
  simp [walk, hparse, htrusts]

theorem walk_of_stops (h : ¬ trust.Passes stop) :
    trust.walk peer leftmost (stop :: rest) = answer peer stop := by
  unfold walk answer
  cases hparse : a.parseIp (trim stop) with
  | none => rfl
  | some ip =>
    have htrusts : trust.trusts ip = false := by
      rw [← Bool.not_eq_true]
      exact fun ht => h ⟨ip, hparse, ht⟩
    simp [htrusts]

/-- Whatever the walk has passed and whatever is left of it, the entry where it stops answers. -/
theorem walk_append_stop (hshared : ∀ hop ∈ shared, trust.Passes hop) (hstop : ¬ trust.Passes stop) :
    trust.walk peer leftmost (shared ++ stop :: rest) = answer peer stop := by
  induction shared generalizing leftmost with
  | nil => exact walk_of_stops hstop
  | cons hop others ih =>
    obtain ⟨ip, hwalk⟩ :=
      walk_of_passes peer leftmost (others ++ stop :: rest) (hshared hop List.mem_cons_self)
    show trust.walk peer leftmost (hop :: (others ++ stop :: rest)) = _
    rw [hwalk]
    exact ih fun hop hmem => hshared hop (List.mem_cons_of_mem _ hmem)

/-- The walk answers the peer, what it has passed or the address of an entry. -/
theorem walk_mem (trust : ProxyTrust a) (peer : a.Ip) (leftmost : Option a.Ip) (hops : List Text) :
    trust.walk peer leftmost hops = leftmost.getD peer ∨ trust.walk peer leftmost hops = peer ∨
      ∃ hop ∈ hops, a.parseIp (trim hop) = some (trust.walk peer leftmost hops) := by
  induction hops generalizing leftmost with
  | nil => exact .inl rfl
  | cons hop rest ih =>
    by_cases hpass : trust.Passes hop
    · obtain ⟨ip, hparse, htrusts⟩ := hpass
      have hwalk : trust.walk peer leftmost (hop :: rest) = trust.walk peer (some ip) rest := by
        simp [walk, hparse, htrusts]
      rw [hwalk]
      rcases ih (some ip) with hip | hpeer | ⟨hop', hmem, hanswer⟩
      · exact .inr (.inr ⟨hop, List.mem_cons_self, by rw [hip]; exact hparse⟩)
      · exact .inr (.inl hpeer)
      · exact .inr (.inr ⟨hop', List.mem_cons_of_mem _ hmem, hanswer⟩)
    · rw [walk_of_stops hpass]
      unfold answer
      cases hparse : a.parseIp (trim hop) with
      | none => exact .inr (.inl rfl)
      | some ip => exact .inr (.inr ⟨hop, List.mem_cons_self, hparse⟩)

/-! ## The address of a client -/

theorem clientIp_of_untrusted (h : trust.trusts peer = false) (xff : Option Text) :
    trust.clientIp (some peer) xff = some peer := by
  simp [clientIp, h]

/-- `left` stands for what the client wrote: the entries from `stop` on decide. -/
theorem clientIp_of_entries (h : trust.trusts peer = true)
    (hshared : ∀ hop ∈ shared, trust.Passes hop) (hstop : ¬ trust.Passes stop)
    {xff : Text} {left : List Text} (hentries : entries xff = left ++ stop :: shared) :
    trust.clientIp (some peer) (some xff) = some (answer peer stop) := by
  have hreverse : rsplitComma xff = shared.reverse ++ stop :: left.reverse := by
    simp [rsplitComma, hentries]
  have hpassed : ∀ hop ∈ shared.reverse, trust.Passes hop := fun hop hmem =>
    hshared hop (List.mem_reverse.mp hmem)
  show (if !trust.trusts peer then some peer else some (trust.walk peer none (rsplitComma xff))) = _
  rw [h, hreverse, walk_append_stop hpassed hstop]
  rfl

/-- A proxy appends to what the client sent: of `client`, nothing counts. -/
theorem clientIp_prepend (h : trust.trusts peer = true) {xff : Text}
    (hstops : ∃ hop ∈ entries xff, ¬ trust.Passes hop) (client : Text) :
    trust.clientIp (some peer) (some (client ++ ',' :: xff)) =
      trust.clientIp (some peer) (some xff) := by
  -- the last entry that does not pass, and the ones after it
  have hlast : ∀ hops : List Text, (∃ hop ∈ hops, ¬ trust.Passes hop) →
      ∃ left stop shared, hops = left ++ stop :: shared ∧ ¬ trust.Passes stop ∧
        ∀ hop ∈ shared, trust.Passes hop := by
    intro hops
    induction hops with
    | nil => simp
    | cons hop rest ih =>
      intro hex
      by_cases hrest : ∃ hop ∈ rest, ¬ trust.Passes hop
      · obtain ⟨left, stop, shared, rfl, hstop, hshared⟩ := ih hrest
        exact ⟨hop :: left, stop, shared, rfl, hstop, hshared⟩
      · push Not at hrest
        refine ⟨[], hop, rest, rfl, ?_, hrest⟩
        obtain ⟨stop, hmem, hstop⟩ := hex
        rcases List.mem_cons.mp hmem with rfl | hmem
        · exact hstop
        · exact absurd (hrest stop hmem) hstop
  obtain ⟨left, stop, shared, hentries, hstop, hshared⟩ := hlast _ hstops
  have hprepended : entries (client ++ ',' :: xff) = (entries client ++ left) ++ stop :: shared := by
    rw [List.append_assoc, ← hentries]
    exact List.splitOnP_append_cons client xff (by simp)
  rw [clientIp_of_entries h hshared hstop hprepended, clientIp_of_entries h hshared hstop hentries]

/-! ## The origin of a request -/

/-- The last entry of a header, if the request has the header. -/
def lastEntry (header : Option Text) : Option (Option Text) :=
  header.map fun header => (entries header).getLast?

theorem forwardedOrigin_of_untrusted (h : trust.trusts peer = false) (proto host : Option Text) :
    trust.forwardedOrigin (some peer) proto host = none := by
  simp [forwardedOrigin, h]

/-- The code takes an absent header and one without entries alike. -/
theorem bind_head?_rsplitComma (header : Option Text) :
    (header >>= fun header => (rsplitComma header).head?) = (lastEntry header).join := by
  cases header with
  | none => rfl
  | some header => exact List.head?_reverse

/-- The origin reads its headers through their last entries only. -/
theorem forwardedOrigin_congr (trust : ProxyTrust a) (peer : Option a.Ip)
    {proto proto' host host' : Option Text} (hproto : lastEntry proto = lastEntry proto')
    (hhost : lastEntry host = lastEntry host') :
    trust.forwardedOrigin peer proto host = trust.forwardedOrigin peer proto' host' := by
  unfold forwardedOrigin
  simp only [← bind_assoc, bind_head?_rsplitComma, hproto, hhost]

/-- What a client writes into the headers decides neither its address nor the origin. A peer
    that is no proxy is believed in nothing; behind a proxy, the address comes from the entries
    up to the one that stops the walk, and the origin from the last entries. -/
theorem forwarded_unforgeable (trust : ProxyTrust a) (peer : a.Ip) :
    (trust.trusts peer = false → ∀ xff xff' : Option Text,
      trust.clientIp (some peer) xff = some peer ∧ trust.clientIp (some peer) xff' = some peer) ∧
    (trust.trusts peer = true → ∀ (xff xff' : Text) (left left' : List Text) (stop : Text)
      (shared : List Text), (∀ hop ∈ shared, trust.Passes hop) → ¬ trust.Passes stop →
      entries xff = left ++ stop :: shared → entries xff' = left' ++ stop :: shared →
      trust.clientIp (some peer) (some xff) = trust.clientIp (some peer) (some xff') ∧
      ∃ ip, trust.clientIp (some peer) (some xff) = some ip ∧
        (ip = peer ∨ ∃ hop ∈ stop :: shared, a.parseIp (trim hop) = some ip)) ∧
    (∀ proto proto' host host' : Option Text, lastEntry proto = lastEntry proto' →
      lastEntry host = lastEntry host' →
      trust.forwardedOrigin (some peer) proto host =
        trust.forwardedOrigin (some peer) proto' host') ∧
    (trust.trusts peer = false → ∀ proto host : Option Text,
      trust.forwardedOrigin (some peer) proto host = none) := by
  refine ⟨fun h xff xff' => ⟨clientIp_of_untrusted h xff, clientIp_of_untrusted h xff'⟩, ?_,
    fun _ _ _ _ => forwardedOrigin_congr trust (some peer), forwardedOrigin_of_untrusted⟩
  intro h xff xff' left left' stop shared hshared hstop hentries hentries'
  have hxff := clientIp_of_entries h hshared hstop hentries
  have hxff' := clientIp_of_entries h hshared hstop hentries'
  refine ⟨hxff.trans hxff'.symm, answer peer stop, hxff, ?_⟩
  unfold answer
  cases hparse : a.parseIp (trim stop) with
  | none => exact .inl rfl
  | some ip => exact .inr ⟨stop, List.mem_cons_self, hparse⟩

end ProxyTrust

/-! ## IPv4 -/

/-- One of the four numbers of an address. -/
def octet (s : Text) : Option ℕ :=
  if s.isEmpty || !s.all isAsciiDigit || (s.length > 1 && s.head? = some '0') then none
  else if digitsValue s < 256 then some (digitsValue s) else none

/-- `Ipv4Addr::from_str`. -/
def parseIpv4 (s : Text) : Option ℕ :=
  match split (· = '.') s with
  | [w, x, y, z] => do
    return (((← octet w) * 256 + (← octet x)) * 256 + (← octet y)) * 256 + (← octet z)
  | _ => none

/-- The addresses of IPv4, and host names for authorities. -/
def ipv4 : Addresses where
  Ip := ℕ
  Net := ℕ × ℕ
  parseIp := parseIpv4
  netOf ip := (ip, 32)
  parseNet s := do
    let (ip, bits) ← splitOnce (· = '/') s
    let bits ← octet bits
    if bits ≤ 32 then return (← parseIpv4 ip, bits) else none
  contains net ip := net.1 / 2 ^ (32 - net.2) = ip / 2 ^ (32 - net.2)
  parseAuthority s :=
    if s ≠ [] ∧ s.all fun c => isAsciiAlphanumeric c || c = '.' || c = '-' || c = ':' then some s
    else none
  debug s := lit "\"" ++ s ++ lit "\""

/-- The bridge network of a container host. -/
def bridge : ProxyTrust ipv4 := ⟨[((2886729728, 12) : ℕ × ℕ)]⟩

/-- The bridge network of a container host, a proxy on it, and two clients that write different
    things in front of the address the proxy saw. -/
theorem forwarded_unforgeable_bridge :
    ∃ trust, ProxyTrust.parse ipv4 [lit "172.16.0.0/12"] = .ok trust ∧
      ∃ peer, ipv4.parseIp (lit "172.18.0.2") = some peer ∧
        trust.clientIp (some peer) (some (lit "10.9.9.9, 203.0.113.9, 172.18.0.3")) =
          trust.clientIp (some peer) (some (lit "unknown, 203.0.113.9, 172.18.0.3")) ∧
        trust.forwardedOrigin (some peer) (some (lit "http, https"))
            (some (lit "a.example, b.example")) =
          trust.forwardedOrigin (some peer) (some (lit " https")) (some (lit " b.example")) := by
  refine ⟨bridge, by rfl, (2886860802 : ℕ), by rfl, ?_, ?_⟩
  · refine ((ProxyTrust.forwarded_unforgeable bridge (2886860802 : ℕ)).2.1 (by decide) _ _
      [lit "10.9.9.9"] [lit "unknown"] (lit " 203.0.113.9") [lit " 172.18.0.3"] ?_ ?_ (by rfl)
      (by rfl)).1
    · intro hop hmem
      rw [List.mem_singleton.mp hmem]
      exact ⟨(2886860803 : ℕ), by rfl, by rfl⟩
    · rintro ⟨ip, hparse, htrusts⟩
      have hip : (3405803785 : ℕ) = ip := Option.some.inj (hparse ▸ rfl)
      subst hip
      exact absurd htrusts (by decide)
  · exact (ProxyTrust.forwarded_unforgeable bridge (2886860802 : ℕ)).2.2.1 _ _ _ _ (by rfl)
      (by rfl)

end Kahawai.Hub.Proxy
