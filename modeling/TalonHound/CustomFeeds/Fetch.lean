import TalonHound.CustomFeeds.Destination

/-!
# Fetching a feed

`customThreatFeedFetch.js`: the credential headers, the request of one hop and the loop over the
redirects.
-/

namespace TalonHound.CustomFeeds

/-- The stored credentials of a feed. -/
inductive Credentials where
  | none
  | bearerToken (token : String)
  | apiKeyHeader (headerName headerValue : String)
  | basicAuth (username password : String)

/-- Headers of a request, in the order in which they are set. -/
abbrev Headers := List (String × String)

/-- `headers[key] = value`. -/
def setHeader (headers : Headers) (key value : String) : Headers :=
  if key ∈ headers.map Prod.fst then
    headers.map fun entry => if entry.1 = key then (key, value) else entry
  else headers ++ [(key, value)]

/-- `buildCustomFeedAuthHeaders`; `base64` is the encoding of `Buffer`. -/
def buildCustomFeedAuthHeaders (base64 : String → String) : Credentials → Headers
  | .none => []
  | .bearerToken token => if token = "" then [] else [("Authorization", "Bearer " ++ token)]
  | .apiKeyHeader headerName headerValue =>
    if headerName = "" ∨ headerValue = "" then [] else [(headerName, headerValue)]
  | .basicAuth username password =>
    if username = "" ∨ password = "" then []
    else [("Authorization", "Basic " ++ base64 (username ++ ":" ++ password))]

/-- The headers of every request. -/
def baseHeaders : Headers :=
  [("Accept", "text/plain,text/csv,*/*"), ("User-Agent", "talonhound-custom-threat-feed/1.0"),
    ("Connection", "close")]

/-- `mayAttachAuth`. -/
def mayAttachAuth (previousUrl : Option Url) (nextUrl : Url) (isFirstHop : Bool) : Bool :=
  isFirstHop || previousUrl.any fun previous => isSameFeedOrigin previous nextUrl

/-- The headers of a hop that attaches the credentials or not. -/
def hopHeaders (authHeaders : Headers) (attach : Bool) : Headers :=
  if attach then
    (authHeaders.filter fun entry => entry.2 ≠ "").foldl
      (fun headers entry => setHeader headers entry.1 entry.2) baseHeaders
  else baseHeaders

/-- `buildHopHeaders`. -/
def buildHopHeaders (authHeaders : Headers) (previousUrl : Option Url) (nextUrl : Url)
    (isFirstHop : Bool) : Headers :=
  hopHeaders authHeaders (mayAttachAuth previousUrl nextUrl isFirstHop)

/-- One `GET` request. -/
structure Request where
  url : Url
  (port path : String)
  headers : Headers
  servername : Option String
  /-- The address that the connection goes to. -/
  pinned : AddressRecord
  deriving DecidableEq

/-- `parsed.host`. -/
def Url.host (url : Url) : String :=
  if url.port = "" then url.hostname else url.hostname ++ ":" ++ url.port

/-- `requestPinned`. -/
def requestPinned (parsed : Url) (pinned : AddressRecord) (headers : Headers) : Request where
  url := parsed
  port := if parsed.port ≠ "" then parsed.port else if parsed.protocol = "https:" then "443"
    else "80"
  path := if parsed.path = "" then "/" else parsed.path
  headers := setHeader headers "Host" parsed.host
  servername := if parsed.protocol = "https:" then some parsed.hostname else none
  pinned := pinned

/-- What a server answers. -/
structure Response where
  status : ℕ
  /-- The `location` header; an empty one counts as none. -/
  location : Option String
  contentType : String
  body : List UInt8

/-- A request without a response. -/
inductive RequestFailure where
  | aborted
  | network (e : FetchError)

/-- What `fetchFeedUrl` returns. -/
structure FetchResult where
  ok : Bool
  httpStatus : ℕ
  contentType : String
  body : List UInt8
  finalUrl : String

/-- The `URL` library: `new URL`, `href` and `new URL` with a base. The text of a URL denotes this
URL, also without its userinfo. -/
structure UrlLibrary where
  parse : String → Option Url
  href : Url → String
  join : String → Url → Option Url
  parse_href : ∀ s u, parse s = some u → parse (trim (href u)) = some u
  parse_href_stripped : ∀ u, parse (trim (href u)) = some u →
    parse (trim (href (stripUrlUserinfo u))) = some (stripUrlUserinfo u)

/-- The options and what the outside world answers at each hop. -/
structure FetchEnv where
  library : UrlLibrary
  readAddress : String → Option Address
  isForbidden : String → Bool
  base64 : String → String
  (timeoutMs maxBytes maxRedirects : ℕ)
  resolver : ℕ → Resolver
  respond : ℕ → Except RequestFailure Response

section Fetch

variable (env : FetchEnv)

/-- The gate before the request of a hop. -/
def FetchEnv.destination (hop : ℕ) (currentUrl : Url) : Except FetchError Destination :=
  assertSafeFeedDestination env.readAddress env.library.parse env.isForbidden (env.resolver hop)
    (env.library.href currentUrl)

/-- The error of a request without a response. -/
def FetchEnv.failure : RequestFailure → FetchError
  | .aborted => ⟨"timeout", s!"Fetch timed out after {env.timeoutMs}ms"⟩
  | .network e => e

/-- The URL that a redirect leads to. -/
def FetchEnv.redirectTarget (currentUrl : Url) (location : String) : Except FetchError Url :=
  match env.library.join location currentUrl with
  | none => .error ⟨"redirect_blocked", "Redirect target URL is not allowed"⟩
  | some joined =>
    match validateFeedUrlPolicy env.readAddress env.library.parse
        (env.library.href (stripUrlUserinfo joined)) with
    | .error _ => .error ⟨"redirect_blocked", "Redirect target URL is not allowed"⟩
    | .ok accepted => .ok accepted.parsed

/-- `status >= 300 && status < 400`. -/
def Response.isRedirect (response : Response) : Bool :=
  300 ≤ response.status && response.status < 400

/-- The answer of the last hop, within the size limit. -/
def FetchEnv.readResult (destination : Destination) (response : Response) :
    Except FetchError FetchResult :=
  if env.maxBytes < response.body.length then
    .error ⟨"response_too_large", s!"Response exceeds maximum size ({env.maxBytes} bytes)"⟩
  else .ok ⟨200 ≤ response.status && response.status < 300, response.status,
    response.contentType, response.body, destination.accepted.url⟩

/-- The loop of `fetchFeedUrl` with `left` redirects left: the requests it sends and how it
ends. -/
def FetchEnv.fetchHops (authHeaders : Headers) (left hop : ℕ) (previousUrl : Option Url)
    (currentUrl : Url) : List Request × Except FetchError FetchResult :=
  match env.destination hop currentUrl with
  | .error e => ([], .error e)
  | .ok destination =>
    let parsed := destination.accepted.parsed
    let request := requestPinned parsed destination.addresses.pinned
      (buildHopHeaders authHeaders previousUrl parsed (hop = 0))
    match env.respond hop with
    | .error e => ([request], .error (env.failure e))
    | .ok response =>
      if response.isRedirect then
        match response.location with
        | none =>
          ([request], .error ⟨"redirect_invalid", "Redirect response missing Location header"⟩)
        | some location =>
          match left with
          | 0 => ([request],
              .error ⟨"redirect_limit", s!"Too many redirects (max {env.maxRedirects})"⟩)
          | left + 1 =>
            match env.redirectTarget currentUrl location with
            | .error e => ([request], .error e)
            | .ok nextUrl =>
              let rest := FetchEnv.fetchHops authHeaders left (hop + 1) (some currentUrl) nextUrl
              (request :: rest.1, rest.2)
      else ([request], env.readResult destination response)

/-- `fetchFeedUrl`. -/
def fetchFeedUrl (credentials : Credentials) (url : String) :
    List Request × Except FetchError FetchResult :=
  match validateFeedUrlPolicy env.readAddress env.library.parse url with
  | .error message => ([], .error ⟨"invalid_url", message⟩)
  | .ok accepted =>
    env.fetchHops (buildCustomFeedAuthHeaders env.base64 credentials) env.maxRedirects 0 none
      (stripUrlUserinfo accepted.parsed)

/-- The hops that the answers lead through, from `currentUrl` on: where each hop goes. -/
def FetchEnv.redirectChain (left hop : ℕ) (currentUrl : Url) : List Destination :=
  match env.destination hop currentUrl with
  | .error _ => []
  | .ok destination =>
    match env.respond hop with
    | .error _ => [destination]
    | .ok response =>
      if response.isRedirect then
        match response.location with
        | none => [destination]
        | some location =>
          match left with
          | 0 => [destination]
          | left + 1 =>
            match env.redirectTarget currentUrl location with
            | .error _ => [destination]
            | .ok nextUrl => destination :: FetchEnv.redirectChain left (hop + 1) nextUrl
      else [destination]

/-- The URLs of a chain. -/
def FetchEnv.chainUrls (left hop : ℕ) (currentUrl : Url) : List Url :=
  (env.redirectChain left hop currentUrl).map fun destination => destination.accepted.parsed

/-- The chain for a configured URL. -/
def FetchEnv.configuredChain (url : String) : List Url :=
  match validateFeedUrlPolicy env.readAddress env.library.parse url with
  | .error _ => []
  | .ok accepted => env.chainUrls env.maxRedirects 0 (stripUrlUserinfo accepted.parsed)

end Fetch

end TalonHound.CustomFeeds
