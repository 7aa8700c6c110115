import TalonHound.FileArtifacts.Hash

/-!
# Destinations of feed requests

`customThreatFeedSsrf.js`: the policy on a feed URL, the addresses that a request may not reach,
and the lookup of a host before each connection.
-/

namespace TalonHound.CustomFeeds

open FileArtifacts (lowerCase)

/-- The parts of a `URL` that a request depends on. -/
structure Url where
  (protocol userinfo hostname port : String)
  /-- The path and the query. -/
  path : String
  deriving DecidableEq

/-- An error with its code. -/
structure FetchError where
  (code message : String)

/-- An IP address. -/
inductive Address where
  | v4 (n : BitVec 32)
  | v6 (n : BitVec 128)

/-- `isIP` of an address text. -/
def Address.family : Address → ℕ
  | .v4 _ => 4
  | .v6 _ => 6

/-- An IPv4 address by its octets. -/
def ipv4 (a b c d : ℕ) : BitVec 32 := BitVec.ofNat 32 (((a * 256 + b) * 256 + c) * 256 + d)

/-- An IPv6 address by its leading groups; the others are zero. -/
def ipv6 (groups : List ℕ) : BitVec 128 :=
  BitVec.ofNat 128 ((groups.foldl (fun n group => n * 65536 + group) 0) *
    65536 ^ (8 - groups.length))

/-- A subnet of `FORBIDDEN_DESTINATIONS`. -/
inductive Subnet where
  | v4 (base : BitVec 32) (bits : ℕ)
  | v6 (base : BitVec 128) (bits : ℕ)

/-- `FORBIDDEN_DESTINATIONS`. -/
def forbiddenDestinations : List Subnet :=
  [.v4 (ipv4 0 0 0 0) 8, .v4 (ipv4 10 0 0 0) 8, .v4 (ipv4 127 0 0 0) 8, .v4 (ipv4 169 254 0 0) 16,
    .v4 (ipv4 172 16 0 0) 12, .v4 (ipv4 192 168 0 0) 16, .v4 (ipv4 100 64 0 0) 10,
    .v4 (ipv4 192 0 0 0) 24, .v4 (ipv4 192 0 2 0) 24, .v4 (ipv4 192 88 99 0) 24,
    .v4 (ipv4 198 18 0 0) 15, .v4 (ipv4 198 51 100 0) 24, .v4 (ipv4 203 0 113 0) 24,
    .v4 (ipv4 224 0 0 0) 4, .v4 (ipv4 240 0 0 0) 4, .v6 (ipv6 []) 128,
    .v6 (ipv6 [0, 0, 0, 0, 0, 0, 0, 1]) 128, .v6 (ipv6 []) 96, .v6 (ipv6 [0x64, 0xff9b]) 96,
    .v6 (ipv6 [0x64, 0xff9b, 1]) 48, .v6 (ipv6 [0x2002]) 16, .v6 (ipv6 [0x2001]) 32,
    .v6 (ipv6 [0x100]) 64, .v6 (ipv6 [0x2001, 0xdb8]) 32, .v6 (ipv6 [0xfc00]) 7,
    .v6 (ipv6 [0xfe80]) 10, .v6 (ipv6 [0xfec0]) 10, .v6 (ipv6 [0xff00]) 8]

/-- `BlockList.check` for one subnet; an IPv4-mapped address is checked against the IPv4 rules. -/
def Subnet.contains : Subnet → Address → Bool
  | .v4 base bits, .v4 n => n >>> (32 - bits) = base >>> (32 - bits)
  | .v4 base bits, .v6 n =>
    n >>> 32 = 0xffff && n.setWidth 32 >>> (32 - bits) = base >>> (32 - bits)
  | .v6 _ _, .v4 _ => false
  | .v6 base bits, .v6 n => n >>> (128 - bits) = base >>> (128 - bits)

/-- `replace(/^\[|\]$/g, '')`. -/
def stripBrackets (cs : List Char) : List Char :=
  let inner := if cs.head? = some '[' then cs.tail else cs
  if inner.getLast? = some ']' then inner.dropLast else inner

/-- `normalizeFeedHostname`. -/
def normalizeFeedHostname (hostname : String) : String :=
  String.ofList ((stripBrackets (lowerCase (trim hostname)).toList).rdropWhile (· = '.'))

/-- `BLOCKED_HOSTNAMES`. -/
def blockedHostnames : List String := ["localhost", "metadata", "metadata.google.internal"]

section Policy

-- `isIP` with the value of the address.
variable (readAddress : String → Option Address)

/-- `isForbiddenFeedDestinationIp`. -/
def isForbiddenFeedDestinationIp (address : String) : Bool :=
  match readAddress (String.ofList (stripBrackets (trim address).toList)) with
  | none => true
  | some a => forbiddenDestinations.any fun subnet => subnet.contains a

/-- `isBlockedHostname`. -/
def isBlockedHostname (hostname : String) : Bool :=
  let host := normalizeFeedHostname hostname
  host = "" || blockedHostnames.contains host || ["127.0.0.1", "::1", "0.0.0.0"].contains host ||
    ".local".toList.isSuffixOf host.toList || ".localhost".toList.isSuffixOf host.toList ||
    ".internal".toList.isSuffixOf host.toList ||
    ((readAddress host).isNone && !host.toList.contains '.')

/-- What `validateFeedUrlPolicy` returns for an accepted URL. -/
structure AcceptedUrl where
  url : String
  parsed : Url
  urlHost : String

/-- `validateFeedUrlPolicy`; `parse` is `new URL`. -/
def validateFeedUrlPolicy (parse : String → Option Url) (urlString : String) :
    Except String AcceptedUrl :=
  if trim urlString = "" then .error "URL is required"
  else
    match parse (trim urlString) with
    | none => .error "URL must be a valid http or https URL"
    | some parsed =>
      if lowerCase parsed.protocol ≠ "http:" ∧ lowerCase parsed.protocol ≠ "https:" then
        .error "Only http and https URLs are allowed"
      else if normalizeFeedHostname parsed.hostname = "" then
        .error "URL must include a hostname"
      else if isBlockedHostname readAddress (normalizeFeedHostname parsed.hostname) ∨
          ((readAddress (normalizeFeedHostname parsed.hostname)).isSome ∧
            isForbiddenFeedDestinationIp readAddress (normalizeFeedHostname parsed.hostname)) then
        .error "Private, loopback, and localhost URLs are not allowed"
      else .ok ⟨trim urlString, parsed, normalizeFeedHostname parsed.hostname⟩

/-- An address record of a host. -/
structure AddressRecord where
  address : String
  family : ℕ
  deriving DecidableEq

/-- The answers that a hop gets from the resolvers, or the code of their error. -/
structure Resolver where
  (lookup resolveAll : String → Except String (List AddressRecord))
  /-- The lookup is `dns.lookup` and not one given by the caller. -/
  isDefault : Bool

/-- The records of a host; a transient error of `dns.lookup` falls back to `resolveAll`. -/
def Resolver.records (resolver : Resolver) (host : String) :
    Except FetchError (List AddressRecord) :=
  match resolver.lookup host with
  | .ok records => .ok records
  | .error code =>
    if resolver.isDefault ∧ (code = "EAI_AGAIN" ∨ code = "ENOTFOUND") then
      match resolver.resolveAll host with
      | .ok records => .ok records
      | .error _ => .error ⟨"dns_lookup_failed", s!"DNS lookup failed for feed host: {host}"⟩
    else .error ⟨"dns_lookup_failed", s!"DNS lookup failed for feed host: {host}"⟩

/-- The addresses of a host; there is at least one. -/
abbrev Addresses := { records : List AddressRecord // records ≠ [] }

/-- The address that a connection is pinned to. -/
def Addresses.pinned (addresses : Addresses) : AddressRecord :=
  addresses.1.head addresses.2

/-- The test that every record of a host has to pass. -/
def isAllowedText (isForbidden : String → Bool) (address : String) : Bool :=
  address ≠ "" && (readAddress address).isSome && !isForbidden address

/-- `{ address: String(r.address), family: Number(r.family) === 6 ? 6 : 4 }`. -/
def AddressRecord.coerce (r : AddressRecord) : AddressRecord :=
  ⟨r.address, if r.family = 6 then 6 else 4⟩

/-- Every record of the answer is allowed. -/
def checkRecords (isForbidden : String → Bool) (host : String) (records : List AddressRecord) :
    Except FetchError Addresses :=
  if h : records = [] then
    .error ⟨"dns_lookup_failed", s!"DNS lookup returned no addresses for feed host: {host}"⟩
  else if records.all fun r => isAllowedText readAddress isForbidden (trim r.address) then
    .ok ⟨records.map AddressRecord.coerce, fun hnil => h (List.map_eq_nil_iff.mp hnil)⟩
  else .error ⟨"destination_blocked", "Resolved feed host address is not allowed"⟩

/-- `resolveSafeFeedHost`. -/
def resolveSafeFeedHost (isForbidden : String → Bool) (resolver : Resolver) (hostname : String) :
    Except FetchError Addresses :=
  let host := normalizeFeedHostname hostname
  if host = "" then .error ⟨"invalid_url", "URL must include a hostname"⟩
  else if isBlockedHostname readAddress host then
    .error ⟨"destination_blocked", "Private, loopback, and localhost URLs are not allowed"⟩
  else
    match readAddress host with
    | some a =>
      if isForbidden host then
        .error ⟨"destination_blocked", "Private, loopback, and localhost URLs are not allowed"⟩
      else .ok ⟨[⟨host, a.family⟩], List.cons_ne_nil _ _⟩
    | none =>
      match resolver.records host with
      | .error e => .error e
      | .ok records => checkRecords readAddress isForbidden host records

/-- An accepted URL with the addresses of its host. -/
structure Destination where
  accepted : AcceptedUrl
  addresses : Addresses

/-- `assertSafeFeedDestination`. -/
def assertSafeFeedDestination (parse : String → Option Url) (isForbidden : String → Bool)
    (resolver : Resolver) (urlString : String) : Except FetchError Destination :=
  match validateFeedUrlPolicy readAddress parse urlString with
  | .error message => .error ⟨"invalid_url", message⟩
  | .ok accepted =>
    match resolveSafeFeedHost readAddress isForbidden resolver accepted.parsed.hostname with
    | .error e => .error e
    | .ok addresses => .ok ⟨accepted, addresses⟩

end Policy

/-- `isSameFeedOrigin`. -/
def isSameFeedOrigin (a b : Url) : Bool :=
  a.protocol = b.protocol && normalizeFeedHostname a.hostname = normalizeFeedHostname b.hostname &&
    a.port = b.port

/-- `stripUrlUserinfo`. -/
def stripUrlUserinfo (url : Url) : Url := { url with userinfo := "" }

theorem isSameFeedOrigin_iff {a b : Url} : isSameFeedOrigin a b = true ↔ a.protocol = b.protocol ∧
      normalizeFeedHostname a.hostname = normalizeFeedHostname b.hostname ∧ a.port = b.port := by
  unfold isSameFeedOrigin
  simp only [Bool.and_eq_true, decide_eq_true_eq]
  exact and_assoc

theorem isSameFeedOrigin_stripped (a : Url) : isSameFeedOrigin a (stripUrlUserinfo a) = true :=
  isSameFeedOrigin_iff.mpr ⟨rfl, rfl, rfl⟩

variable {readAddress : String → Option Address} {isForbidden : String → Bool}
  {resolver : Resolver} {parse : String → Option Url} {urlString hostname : String}
  {accepted : AcceptedUrl} {addresses : Addresses} {destination : Destination}

/-- The parsed URL is the one that the text denotes. -/
theorem validateFeedUrlPolicy_parsed
    (h : validateFeedUrlPolicy readAddress parse urlString = .ok accepted) :
    parse (trim urlString) = some accepted.parsed := by
  unfold validateFeedUrlPolicy at h
  split at h
  · cases h
  · cases hparse : parse (trim urlString) with
    | none =>
      rw [hparse] at h
      cases h
    | some parsed =>
      rw [hparse] at h
      dsimp only at h
      split at h
      · cases h
      · split at h
        · cases h
        · split at h
          · cases h
          · injection h with h
            rw [← h]

/-- An address of a connection has passed the test. -/
def AddressRecord.Allowed (readAddress : String → Option Address) (isForbidden : String → Bool)
    (r : AddressRecord) : Prop :=
  ∃ text, (text = r.address ∨ text = trim r.address) ∧ (readAddress text).isSome ∧
    isForbidden text = false

theorem checkRecords_allowed {host : String} {records : List AddressRecord}
    (h : checkRecords readAddress isForbidden host records = .ok addresses) :
    ∀ r ∈ addresses.1, r.Allowed readAddress isForbidden := by
  unfold checkRecords at h
  split at h
  · cases h
  · split at h
    · next hall =>
      obtain rfl := Except.ok.inj h
      intro r hr
      obtain ⟨r₀, hr₀, rfl⟩ := List.mem_map.mp hr
      have htext := List.all_eq_true.mp hall r₀ hr₀
      unfold isAllowedText at htext
      simp only [Bool.and_eq_true, Bool.not_eq_true'] at htext
      exact ⟨trim r₀.address, .inr rfl, htext.1.2, htext.2⟩
    · cases h

/-- Every address that is returned for a host is allowed. -/
theorem resolveSafeFeedHost_allowed
    (h : resolveSafeFeedHost readAddress isForbidden resolver hostname = .ok addresses) :
    ∀ r ∈ addresses.1, r.Allowed readAddress isForbidden := by
  unfold resolveSafeFeedHost at h
  dsimp only at h
  split at h
  · cases h
  · split at h
    · cases h
    · split at h
      · next a ha =>
        split at h
        · cases h
        · next hforbidden =>
          obtain rfl := Except.ok.inj h
          intro r hr
          obtain rfl := List.mem_singleton.mp hr
          refine ⟨normalizeFeedHostname hostname, .inl rfl, ?_, by simpa using hforbidden⟩
          rw [ha]
          rfl
      · split at h
        · cases h
        · exact checkRecords_allowed h

theorem assertSafeFeedDestination_ok
    (h : assertSafeFeedDestination readAddress parse isForbidden resolver urlString =
      .ok destination) :
    validateFeedUrlPolicy readAddress parse urlString = .ok destination.accepted ∧
      resolveSafeFeedHost readAddress isForbidden resolver destination.accepted.parsed.hostname =
        .ok destination.addresses := by
  unfold assertSafeFeedDestination at h
  split at h
  · cases h
  · next hvalid =>
    split at h
    · cases h
    · next hresolve =>
      obtain rfl := Except.ok.inj h
      exact ⟨hvalid, hresolve⟩

end TalonHound.CustomFeeds
