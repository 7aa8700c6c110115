import TalonHound.CustomFeeds.Fetch
import Mathlib.Data.List.Chain

/-!
# Credentials along redirects

Whether a hop carries the credentials is decided from the hop before it. The requests to foreign
origins do not depend on the credentials exactly when no redirect stays on a foreign origin.
-/

namespace TalonHound.CustomFeeds

open List

variable {env : FetchEnv} {authHeaders : Headers} {left hop : ℕ} {previousUrl : Option Url}
  {currentUrl origin : Url} {url : String} {destination : Destination}

/-- The URL that a destination stands for. -/
def Destination.parsed (destination : Destination) : Url := destination.accepted.parsed

/-- Which hops of a chain attach the credentials. -/
def attachments : Bool → Option Url → List Destination → List (Destination × Bool)
  | _, _, [] => []
  | isFirstHop, previousUrl, destination :: rest =>
    (destination, mayAttachAuth previousUrl destination.parsed isFirstHop) ::
      attachments false (some destination.parsed) rest

variable {isFirstHop : Bool} {accepted : AcceptedUrl} {k : ℕ} {p : Destination × Bool}
  {chain : List Destination}

theorem attachments_cons {rest : List Destination} :
    attachments isFirstHop previousUrl (destination :: rest) =
      (destination, mayAttachAuth previousUrl destination.parsed isFirstHop) ::
        attachments false (some destination.parsed) rest := rfl

/-- The request of a hop. -/
def hopRequest (authHeaders : Headers) (p : Destination × Bool) : Request :=
  requestPinned p.1.parsed p.1.addresses.pinned (hopHeaders authHeaders p.2)

/-- The text of the URL denotes it. -/
def FetchEnv.Reparses (env : FetchEnv) (u : Url) : Prop :=
  env.library.parse (trim (env.library.href u)) = some u

theorem FetchEnv.parsed_of_destination (hcurrent : env.Reparses currentUrl)
    (h : env.destination hop currentUrl = .ok destination) : destination.parsed = currentUrl := by
  have hparsed := validateFeedUrlPolicy_parsed (assertSafeFeedDestination_ok h).1
  have hsame := hparsed.symm.trans hcurrent
  exact Option.some.inj hsame

theorem FetchEnv.reparses_of_redirectTarget {location : String} {nextUrl : Url}
    (h : env.redirectTarget currentUrl location = .ok nextUrl) : env.Reparses nextUrl := by
  unfold FetchEnv.redirectTarget at h
  split at h
  · cases h
  · split at h
    · cases h
    · next haccepted =>
      obtain rfl := Except.ok.inj h
      exact env.library.parse_href _ _ (validateFeedUrlPolicy_parsed haccepted)

theorem FetchEnv.reparses_configured
    (h : validateFeedUrlPolicy env.readAddress env.library.parse url = .ok accepted) :
    env.Reparses (stripUrlUserinfo accepted.parsed) :=
  env.library.parse_href_stripped _ (env.library.parse_href _ _ (validateFeedUrlPolicy_parsed h))

/-- The requests are those of the chain; the credentials only show in the headers. -/
theorem FetchEnv.requests_fetchHops (hcurrent : env.Reparses currentUrl) :
    (env.fetchHops authHeaders left hop previousUrl currentUrl).1 =
      (attachments (hop = 0) previousUrl (env.redirectChain left hop currentUrl)).map
        (hopRequest authHeaders) := by
  induction left generalizing hop previousUrl currentUrl with
  | zero =>
    unfold FetchEnv.fetchHops FetchEnv.redirectChain
    cases hdestination : env.destination hop currentUrl with
    | error e => rfl
    | ok destination =>
      cases env.respond hop with
      | error e => rfl
      | ok response =>
        dsimp only
        cases response.isRedirect with
        | false => rfl
        | true => cases response.location <;> rfl
  | succ left ih =>
    unfold FetchEnv.fetchHops FetchEnv.redirectChain
    cases hdestination : env.destination hop currentUrl with
    | error e => rfl
    | ok destination =>
      have hparsed := FetchEnv.parsed_of_destination hcurrent hdestination
      cases env.respond hop with
      | error e => rfl
      | ok response =>
        dsimp only
        cases response.isRedirect with
        | false => rfl
        | true =>
          cases response.location with
          | none => rfl
          | some location =>
            rw [if_pos rfl, if_pos rfl]
            dsimp only
            cases htarget : env.redirectTarget currentUrl location with
            | error e => rfl
            | ok nextUrl =>
              have hnext : env.Reparses nextUrl := FetchEnv.reparses_of_redirectTarget htarget
              dsimp only
              rw [ih hnext, ← hparsed]
              rfl

/-- A chain is empty where the gate refuses; otherwise its hop stands first, and the rest is a chain
with one redirect less. -/
theorem FetchEnv.redirectChain_cases :
    (env.redirectChain left hop currentUrl = [] ∧ ∀ d, env.destination hop currentUrl ≠ .ok d) ∨
      ∃ d rest, env.destination hop currentUrl = .ok d ∧
        env.redirectChain left hop currentUrl = d :: rest ∧
        (rest = [] ∨ ∃ fewer nextUrl, left = fewer + 1 ∧
          rest = env.redirectChain fewer (hop + 1) nextUrl) := by
  cases hdestination : env.destination hop currentUrl with
  | error e =>
    left
    refine ⟨?_, nofun⟩
    unfold FetchEnv.redirectChain
    cases left <;> rw [hdestination]
  | ok d =>
    right
    refine ⟨d, (env.redirectChain left hop currentUrl).tail, rfl, ?_⟩
    rw [FetchEnv.redirectChain.eq_def]
    cases left with
    | zero =>
      rw [hdestination]
      cases env.respond hop with
      | error e => exact ⟨rfl, .inl rfl⟩
      | ok response =>
        dsimp only
        cases response.isRedirect with
        | false => exact ⟨rfl, .inl rfl⟩
        | true => cases response.location <;> exact ⟨rfl, .inl rfl⟩
    | succ fewer =>
      rw [hdestination]
      cases env.respond hop with
      | error e => exact ⟨rfl, .inl rfl⟩
      | ok response =>
        dsimp only
        cases response.isRedirect with
        | false => exact ⟨rfl, .inl rfl⟩
        | true =>
          cases response.location with
          | none => exact ⟨rfl, .inl rfl⟩
          | some location =>
            rw [if_pos rfl]
            dsimp only
            cases env.redirectTarget currentUrl location with
            | error e => exact ⟨rfl, .inl rfl⟩
            | ok nextUrl =>
              rw [tail_cons]
              exact ⟨rfl, .inr ⟨fewer, nextUrl, rfl, rfl⟩⟩

/-- A chain has at most one hop more than there are redirects left. -/
theorem FetchEnv.length_redirectChain :
    (env.redirectChain left hop currentUrl).length ≤ left + 1 := by
  induction left generalizing hop currentUrl with
  | zero =>
    rcases FetchEnv.redirectChain_cases with ⟨hnil, -⟩ | ⟨d, rest, -, hcons, hrest⟩
    · rw [hnil]
      exact Nat.zero_le _
    · rcases hrest with rfl | ⟨fewer, nextUrl, hleft, -⟩
      · rw [hcons]
        exact le_rfl
      · cases hleft
  | succ left ih =>
    rcases FetchEnv.redirectChain_cases with ⟨hnil, -⟩ | ⟨d, rest, -, hcons, hrest⟩
    · rw [hnil]
      exact Nat.zero_le _
    · rw [hcons, length_cons]
      rcases hrest with rfl | ⟨fewer, nextUrl, hleft, rfl⟩
      · exact Nat.le_add_left _ _
      · obtain rfl : left = fewer := by omega
        have hrest : (env.redirectChain left (hop + 1) nextUrl).length ≤ left + 1 := ih
        omega

/-- Every hop goes to an address that was checked for its host at this hop. -/
theorem FetchEnv.destination_of_redirectChain
    (h : (env.redirectChain left hop currentUrl)[k]? = some destination) :
    ∃ u, env.destination (hop + k) u = .ok destination := by
  induction k generalizing left hop currentUrl with
  | zero =>
    rcases FetchEnv.redirectChain_cases with ⟨hnil, -⟩ | ⟨d, rest, hd, hcons, -⟩
    · rw [hnil] at h
      cases h
    · rw [hcons] at h
      cases h
      exact ⟨currentUrl, hd⟩
  | succ k ih =>
    rcases FetchEnv.redirectChain_cases with ⟨hnil, -⟩ | ⟨d, rest, -, hcons, hrest⟩
    · rw [hnil] at h
      cases h
    · rw [hcons, getElem?_cons_succ] at h
      rcases hrest with rfl | ⟨fewer, nextUrl, -, rfl⟩
      · cases h
      · obtain ⟨u, hu⟩ := ih h
        refine ⟨u, ?_⟩
        have hhop : hop + (k + 1) = hop + 1 + k := by omega
        rw [hhop]
        exact hu

/-- A request to another origin than this one. -/
def isForeign (origin : Url) (r : Request) : Bool := !isSameFeedOrigin origin r.url

theorem mem_keys_setHeader {headers : Headers} {key value k : String} :
    k ∈ (setHeader headers key value).map Prod.fst ↔ k = key ∨ k ∈ headers.map Prod.fst := by
  unfold setHeader
  split
  · next hmem =>
    have hkeys : (headers.map fun entry => if entry.1 = key then (key, value) else entry).map
        Prod.fst = headers.map Prod.fst := by
      rw [map_map]
      refine map_congr_left fun entry _ => ?_
      by_cases hentry : entry.1 = key <;> simp [hentry]
    rw [hkeys]
    refine ⟨.inr, ?_⟩
    rintro (rfl | hold)
    · exact hmem
    · exact hold
  · rw [map_append, mem_append, or_comm]
    simp

/-- A hop that attaches shows a bearer token. -/
theorem hopRequest_bearer_ne (hattach : p.2 = true) (base64 : String → String) :
    hopRequest (buildCustomFeedAuthHeaders base64 .none) p ≠
      hopRequest (buildCustomFeedAuthHeaders base64 (.bearerToken "token")) p := by
  intro heq
  have hheaders : ∀ authHeaders, (hopRequest authHeaders p).headers =
      setHeader (hopHeaders authHeaders true) "Host" p.1.parsed.host := by
    intro authHeaders
    unfold hopRequest requestPinned
    rw [hattach]
  have hsame := congrArg Request.headers heq
  rw [hheaders, hheaders] at hsame
  have htoken : "Authorization" ∈ (hopHeaders (buildCustomFeedAuthHeaders base64
      (.bearerToken "token")) true).map Prod.fst := by
    change "Authorization" ∈ (hopHeaders [("Authorization", "Bearer " ++ "token")] true).map
      Prod.fst
    decide
  have hplain : "Authorization" ∉ (hopHeaders (buildCustomFeedAuthHeaders base64
      .none) true).map Prod.fst := by
    change "Authorization" ∉ baseHeaders.map Prod.fst
    decide
  have hshown : "Authorization" ∈ (setHeader (hopHeaders (buildCustomFeedAuthHeaders base64
      (.bearerToken "token")) true) "Host" p.1.parsed.host).map Prod.fst :=
    mem_keys_setHeader.mpr (.inr htoken)
  rw [← hsame] at hshown
  rcases mem_keys_setHeader.mp hshown with hhost | hbase
  · revert hhost
    decide
  · exact hplain hbase

/-- A hop that does not attach shows nothing of the credentials. -/
theorem hopRequest_of_not_attached (hattach : p.2 = false) (authHeaders authHeaders' : Headers) :
    hopRequest authHeaders p = hopRequest authHeaders' p := by
  unfold hopRequest hopHeaders
  rw [hattach]
  rfl

/-- A redirect that stays on an origin stays on the configured one. -/
def StaysHome (origin u v : Url) : Prop :=
  isSameFeedOrigin u v = true → isSameFeedOrigin origin v = true
  deriving Decidable

/-- After the first hop, no foreign hop attaches the credentials exactly when every redirect that
stays on an origin stays on the configured one. -/
theorem attachments_foreign_iff {u : Url} :
    (∀ p ∈ attachments false (some u) chain, isSameFeedOrigin origin p.1.parsed = false →
      p.2 = false) ↔
    (u :: chain.map Destination.parsed).IsChain (StaysHome origin) := by
  induction chain generalizing u with
  | nil => simp [attachments]
  | cons d rest ih =>
    rw [map_cons, isChain_cons_cons, ← ih, attachments_cons, forall_mem_cons]
    refine and_congr_left fun _ => ?_
    change (_ → mayAttachAuth (some u) d.parsed false = false) ↔
      (isSameFeedOrigin u d.parsed = true → _)
    unfold mayAttachAuth
    rw [Bool.false_or, Option.any_some]
    cases isSameFeedOrigin u d.parsed <;> cases isSameFeedOrigin origin d.parsed <;> simp

/-- The foreign requests of a chain agree for all credentials exactly when no foreign hop attaches
them. -/
theorem foreign_agree_iff {hops : List (Destination × Bool)} (base64 : String → String) :
    (∀ c c' : Credentials,
      (hops.map (hopRequest (buildCustomFeedAuthHeaders base64 c))).filter (isForeign origin) =
        (hops.map (hopRequest (buildCustomFeedAuthHeaders base64 c'))).filter (isForeign origin)) ↔
    ∀ p ∈ hops, isSameFeedOrigin origin p.1.parsed = false → p.2 = false := by
  have hfilter : ∀ authHeaders : Headers,
      (hops.map (hopRequest authHeaders)).filter (isForeign origin) =
        (hops.filter fun p => !isSameFeedOrigin origin p.1.parsed).map
          (hopRequest authHeaders) := by
    intro authHeaders
    rw [filter_map]
    rfl
  have hmem : ∀ p, p ∈ hops.filter (fun p => !isSameFeedOrigin origin p.1.parsed) ↔
      p ∈ hops ∧ isSameFeedOrigin origin p.1.parsed = false := by
    intro p
    rw [mem_filter, Bool.not_eq_true']
  constructor
  · intro hagree p hp hforeign
    by_contra hattach
    have hsame := hagree .none (.bearerToken "token")
    rw [hfilter, hfilter, map_inj_left] at hsame
    exact hopRequest_bearer_ne (by simpa using hattach) base64
      (hsame p ((hmem p).mpr ⟨hp, hforeign⟩))
  · intro hplain c c'
    rw [hfilter, hfilter]
    refine map_congr_left fun p hp => ?_
    obtain ⟨hp, hforeign⟩ := (hmem p).mp hp
    exact hopRequest_of_not_attached (hplain p hp hforeign) _ _

/-- The URL that is configured, where the policy accepts it. -/
def FetchEnv.configuredUrl (env : FetchEnv) (url : String) : Option Url :=
  match validateFeedUrlPolicy env.readAddress env.library.parse url with
  | .error _ => none
  | .ok accepted => some accepted.parsed

/-- The requests that go to another origin than the configured one. -/
def foreignRequests (env : FetchEnv) (credentials : Credentials) (url : String) : List Request :=
  (fetchFeedUrl env credentials url).1.filter fun r =>
    (env.configuredUrl url).any fun origin => isForeign origin r

/-- What a fetch promises: connections to checked addresses only, a bound on the requests, and the
same foreign requests for all credentials. -/
structure CredentialsStayHome (env : FetchEnv) (url : String) : Prop where
  checked : ∀ (c : Credentials) (k : ℕ) (r : Request),
    (fetchFeedUrl env c url).1[k]? = some r → ∃ addresses,
      resolveSafeFeedHost env.readAddress env.isForbidden (env.resolver k) r.url.hostname =
        .ok addresses ∧ r.pinned ∈ addresses.1 ∧
      r.pinned.Allowed env.readAddress env.isForbidden
  bounded : ∀ c : Credentials, (fetchFeedUrl env c url).1.length ≤ env.maxRedirects + 1
  agree : ∀ c c' : Credentials, foreignRequests env c url = foreignRequests env c' url

/-- The requests of a fetch are those of the configured chain. -/
theorem requests_fetchFeedUrl
    (h : validateFeedUrlPolicy env.readAddress env.library.parse url = .ok accepted)
    (c : Credentials) :
    (fetchFeedUrl env c url).1 =
      (attachments true none (env.redirectChain env.maxRedirects 0
        (stripUrlUserinfo accepted.parsed))).map
        (hopRequest (buildCustomFeedAuthHeaders env.base64 c)) := by
  unfold fetchFeedUrl
  rw [h]
  exact FetchEnv.requests_fetchHops (FetchEnv.reparses_configured h)

theorem getElem?_attachments (h : (attachments isFirstHop previousUrl chain)[k]? = some p) :
    chain[k]? = some p.1 := by
  induction chain generalizing isFirstHop previousUrl k with
  | nil => cases h
  | cons d rest ih =>
    cases k with
    | zero =>
      cases h
      rfl
    | succ k => exact ih h

theorem length_attachments : (attachments isFirstHop previousUrl chain).length = chain.length := by
  induction chain generalizing isFirstHop previousUrl with
  | nil => rfl
  | cons d rest ih =>
    unfold attachments
    rw [length_cons, length_cons, ih]

theorem fetch_checked (c : Credentials) {k : ℕ} {r : Request}
    (h : (fetchFeedUrl env c url).1[k]? = some r) : ∃ addresses,
      resolveSafeFeedHost env.readAddress env.isForbidden (env.resolver k) r.url.hostname =
        .ok addresses ∧ r.pinned ∈ addresses.1 ∧
      r.pinned.Allowed env.readAddress env.isForbidden := by
  cases hvalid : validateFeedUrlPolicy env.readAddress env.library.parse url with
  | error message =>
    unfold fetchFeedUrl at h
    rw [hvalid] at h
    cases h
  | ok accepted =>
    rw [requests_fetchFeedUrl hvalid, getElem?_map, Option.map_eq_some_iff] at h
    obtain ⟨p, hp, rfl⟩ := h
    obtain ⟨u, hu⟩ := FetchEnv.destination_of_redirectChain (getElem?_attachments hp)
    rw [Nat.zero_add] at hu
    have hresolve := (assertSafeFeedDestination_ok hu).2
    have hpinned : p.1.addresses.pinned ∈ p.1.addresses.1 := head_mem _
    exact ⟨p.1.addresses, hresolve, hpinned, resolveSafeFeedHost_allowed hresolve _ hpinned⟩

theorem fetch_bounded (c : Credentials) :
    (fetchFeedUrl env c url).1.length ≤ env.maxRedirects + 1 := by
  cases hvalid : validateFeedUrlPolicy env.readAddress env.library.parse url with
  | error message =>
    unfold fetchFeedUrl
    rw [hvalid]
    exact Nat.zero_le _
  | ok accepted =>
    rw [requests_fetchFeedUrl hvalid, length_map, length_attachments]
    exact FetchEnv.length_redirectChain

/-- The first hop goes to the configured origin. -/
theorem head_redirectChain {rest : List Destination}
    (h : validateFeedUrlPolicy env.readAddress env.library.parse url = .ok accepted)
    (hchain : env.redirectChain left hop (stripUrlUserinfo accepted.parsed) = destination :: rest) :
    isSameFeedOrigin accepted.parsed destination.parsed = true := by
  rcases FetchEnv.redirectChain_cases with ⟨hnil, -⟩ | ⟨d, rest', hd, hcons, -⟩
  · rw [hnil] at hchain
    cases hchain
  · rw [hcons] at hchain
    obtain rfl := (List.cons.inj hchain).1
    rw [FetchEnv.parsed_of_destination (FetchEnv.reparses_configured h) hd]
    exact isSameFeedOrigin_stripped _

/-- A fetch keeps its promises exactly when no redirect of its chain stays on a foreign origin. -/
theorem credentials_stay_home_iff (env : FetchEnv) (url : String) :
    CredentialsStayHome env url ↔
      ∀ origin ∈ env.configuredUrl url, (env.configuredChain url).IsChain (StaysHome origin) := by
  have hbase : CredentialsStayHome env url ↔
      ∀ c c' : Credentials, foreignRequests env c url = foreignRequests env c' url :=
    ⟨fun h => h.agree, fun hagree =>
      ⟨fun c _ _ hr => fetch_checked c hr, fun c => fetch_bounded c, hagree⟩⟩
  rw [hbase]
  cases hvalid : validateFeedUrlPolicy env.readAddress env.library.parse url with
  | error message =>
    have hnone : env.configuredUrl url = none := by
      unfold FetchEnv.configuredUrl
      rw [hvalid]
    have hempty : ∀ c, foreignRequests env c url = [] := by
      intro c
      unfold foreignRequests fetchFeedUrl
      rw [hvalid]
      rfl
    rw [hnone]
    refine ⟨fun _ origin horigin => (Option.not_mem_none _ horigin).elim, fun _ c c' => ?_⟩
    rw [hempty, hempty]
  | ok accepted =>
    have hsome : env.configuredUrl url = some accepted.parsed := by
      unfold FetchEnv.configuredUrl
      rw [hvalid]
    have hforeign : ∀ c, foreignRequests env c url =
        ((attachments true none (env.redirectChain env.maxRedirects 0
          (stripUrlUserinfo accepted.parsed))).map
          (hopRequest (buildCustomFeedAuthHeaders env.base64 c))).filter
            (isForeign accepted.parsed) := by
      intro c
      unfold foreignRequests
      rw [requests_fetchFeedUrl hvalid, hsome]
      rfl
    have hchainUrls : env.configuredChain url =
        (env.redirectChain env.maxRedirects 0 (stripUrlUserinfo accepted.parsed)).map
          Destination.parsed := by
      unfold FetchEnv.configuredChain
      rw [hvalid]
      rfl
    have hcondition : (∀ origin ∈ env.configuredUrl url,
        (env.configuredChain url).IsChain (StaysHome origin)) ↔
          (env.configuredChain url).IsChain (StaysHome accepted.parsed) := by
      rw [hsome]
      exact ⟨fun h => h _ rfl, fun h origin horigin => Option.some.inj horigin ▸ h⟩
    rw [hcondition, hchainUrls]
    simp only [hforeign]
    rw [foreign_agree_iff]
    cases hchain : env.redirectChain env.maxRedirects 0 (stripUrlUserinfo accepted.parsed) with
    | nil => simp [attachments]
    | cons d rest =>
      -- The first hop attaches, and it is not foreign.
      have hhome := head_redirectChain hvalid hchain
      rw [map_cons, ← attachments_foreign_iff, attachments_cons, forall_mem_cons]
      refine and_iff_right ?_
      intro hforeign
      rw [hhome] at hforeign
      cases hforeign

/-- A configured list and two files of a mirror. -/
def mirrorUrls : List Url :=
  [⟨"https:", "", "feeds.test", "", "/list"⟩, ⟨"https:", "", "mirror.test", "", "/a"⟩,
    ⟨"https:", "", "mirror.test", "", "/b"⟩]

/-- The `URL` library on the texts of these URLs. -/
def mirrorLibrary : UrlLibrary where
  parse := fun s => mirrorUrls.find? fun u => u.protocol ++ "//" ++ u.host ++ u.path = s
  href := fun u => u.protocol ++ "//" ++ u.host ++ u.path
  join := fun s _ => mirrorUrls.find? fun u => u.protocol ++ "//" ++ u.host ++ u.path = s
  parse_href := by
    intro s u h
    have hall : ∀ v ∈ mirrorUrls, (mirrorUrls.find? fun w => w.protocol ++ "//" ++ w.host ++
        w.path = trim (v.protocol ++ "//" ++ v.host ++ v.path)) = some v := by decide
    exact hall u (mem_of_find?_eq_some h)
  parse_href_stripped := by
    intro u h
    have hall : ∀ v ∈ mirrorUrls, stripUrlUserinfo v = v := by decide
    rw [hall u (mem_of_find?_eq_some h)]
    exact h

/-- The list redirects to the mirror, and the mirror redirects within itself. -/
def mirrorEnv : FetchEnv where
  library := mirrorLibrary
  readAddress := fun s => if s = "93.184.216.34" then some (.v4 (ipv4 93 184 216 34)) else none
  isForbidden := isForbiddenFeedDestinationIp fun s =>
    if s = "93.184.216.34" then some (.v4 (ipv4 93 184 216 34)) else none
  base64 := id
  timeoutMs := 30000
  maxBytes := 52428800
  maxRedirects := 5
  resolver := fun _ => ⟨fun _ => .ok [⟨"93.184.216.34", 4⟩], fun _ => .error "ENOTFOUND", true⟩
  respond := fun hop => .ok
    (if hop = 0 then ⟨302, some "https://mirror.test/a", "", []⟩
      else if hop = 1 then ⟨302, some "https://mirror.test/b", "", []⟩
      else ⟨200, none, "text/plain", []⟩)

/-- The second request to the mirror carries the token. -/
theorem mirror_receives_token : ¬ ∀ (env : FetchEnv) (url : String), CredentialsStayHome env url := by
  intro hclaim
  have hagree := (hclaim mirrorEnv "https://feeds.test/list").agree .none (.bearerToken "token")
  revert hagree
  decide

end TalonHound.CustomFeeds
