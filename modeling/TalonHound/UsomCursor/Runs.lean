import TalonHound.UsomCursor.Walk

/-!
# USOM runs against a growing provider

The provider holds an ordered list of records that only grows; each request gets the slice that the
list has then. A run walks the types one after another, and is committed as a whole or dropped.
-/

namespace TalonHound.UsomCursor

open TalonHound.Usom (StageEntry)

/-- A dated record of the provider, with the time at which it joined. -/
structure ProviderRecord where
  apiType : String
  date : ℤ
  providerId : Option String
  body : String
  joinedAt : ℤ
  deriving DecidableEq

/-- The model in which a record is served. -/
def ProviderRecord.model (r : ProviderRecord) : Model := ⟨r.apiType, some r.date, r.providerId, r.body⟩

/-- The record matches a query. -/
def matchesWindow (window : Window) (r : ProviderRecord) : Bool :=
  r.apiType = window.apiType && !isOutside window r.date

/-- A page of `/address/index`. -/
def servePage (perPage : ℕ) (provider : List ProviderRecord) (window : Window) (requestPage : ℕ) :
    Page Model :=
  let found := provider.filter (matchesWindow window)
  { models := ((found.drop ((requestPage - 1) * perPage)).take perPage).map ProviderRecord.model
    page := requestPage - 1
    pageCount := (found.length + (perPage - 1)) / perPage
    totalCount := found.length }

/-- `USOM_SUPPORTED_API_TYPES`. -/
def usomSupportedApiTypes : List String := ["domain", "url", "ip", "ip6", "ip6net"]

/-- `USOM_PERSISTED_IOC_TYPES`. -/
def usomPersistedIocTypes : List String := ["domain", "url", "ip", "ip6"]

/-- The walk of a type, with the time of its first request. -/
structure TypeWalk where
  window : Window
  walk : WalkState
  acc : TypeState
  firstPageAt : ℤ

/-- A run of `executeUsomImportPipeline`, between two requests. The walked types stand with the
times of their first requests. -/
structure RunState where
  mode : RunMode
  runStartedAt : ℤ
  pending : List String
  current : Option TypeWalk
  entries : List StageEntry
  highwaters : List (String × Highwater)
  walked : List (String × ℤ)

/-- The provider, the stored cursors and the run. Of committed runs it is known what they staged,
when the last one began, and when the last full one began to walk each type. -/
structure CursorState where
  now : ℤ
  provider : List ProviderRecord
  cursors : String → Option Highwater
  run : Option RunState
  staged : List StageEntry
  lastBegan : Option ℤ
  lastFull : String → Option ℤ

/-- The actions: time passes, a record joins the provider, a run begins, its next request is
answered, it fails or is aborted, it is committed. -/
inductive CursorAction where
  | tick (elapsed : ℕ)
  | join (position : ℕ) (apiType : String) (date : ℤ) (providerId : Option String) (body : String)
  | begin (mode : RunMode)
  | page
  | fail
  | commit

section Step

variable (config : ApiConfig)

/-- The value of a type in a list. -/
def lookupType {β : Type} (pairs : List (String × β)) (apiType : String) : Option β :=
  (pairs.find? (·.1 = apiType)).map (·.2)

/-- The walk that the next request belongs to. -/
def currentWalk (s : CursorState) (run : RunState) (apiType : String) : Except ApiError TypeWalk :=
  match run.current with
  | some walk => .ok walk
  | none => do
    let window ← queryWindow config run.mode apiType (s.cursors apiType) run.runStartedAt
    .ok ⟨window, WalkState.start, ⟨none, []⟩, s.now⟩

/-- The run after an answer for the first pending type. -/
def answerPage (s : CursorState) (run : RunState) (apiType : String) (pending : List String) :
    Except ApiError RunState := do
  let walk ← currentWalk config s run apiType
  let full := run.mode = .fullReconciliation
  match ← walkStep full (collectPage config run.mode walk.window) walk.walk walk.acc
      (servePage config.perPage s.provider walk.window walk.walk.requestPage) with
  | .next w acc => .ok { run with current := some { walk with walk := w, acc := acc } }
  | .finished w acc =>
    let w ← walkEnd full w
    .ok { run with
      pending := pending
      current := none
      entries := run.entries ++ acc.entries
      highwaters :=
        match nextHighwater config run.mode (s.cursors apiType) acc.typeHighwater w.rawCount with
        | some h => run.highwaters ++ [(apiType, h)]
        | none => run.highwaters
      walked := run.walked ++ [(apiType, walk.firstPageAt)] }

/-- `saveSuccessfulState`, on the cursor of a type. -/
def savedCursor (run : RunState) (cursors : String → Option Highwater) (apiType : String) :
    Option Highwater :=
  match lookupType run.highwaters apiType with
  | some h => if apiType ∈ usomSupportedApiTypes ∧ h.providerId ≠ "" then some h else cursors apiType
  | none => cursors apiType

/-- One step. -/
def cursorStep (s : CursorState) : CursorAction → Option CursorState
  | .tick elapsed => some { s with now := s.now + elapsed }
  | .join position apiType date providerId body =>
    some { s with
      provider := s.provider.take position ++
        ⟨apiType, date, providerId, body, s.now⟩ :: s.provider.drop position }
  | .begin mode =>
    if s.run.isNone ∧ (mode = .incremental → ∀ t ∈ usomPersistedIocTypes, (s.cursors t).isSome) then
      some { s with run := some ⟨mode, s.now, usomSupportedApiTypes, none, [], [], []⟩ }
    else none
  | .page =>
    match s.run with
    | some run =>
      match run.pending with
      | apiType :: pending =>
        match answerPage config s run apiType pending with
        | .ok run' => some { s with run := some run' }
        | .error _ => some { s with run := none }
      | [] => none
    | none => none
  | .fail => s.run.map fun _ => { s with run := none }
  | .commit =>
    match s.run with
    | some run =>
      if run.pending = [] then
        some { s with
          cursors := savedCursor run s.cursors
          run := none
          staged := s.staged ++ run.entries
          lastBegan := some run.runStartedAt
          lastFull := fun apiType =>
            if run.mode = .fullReconciliation then
              (lookupType run.walked apiType).or (s.lastFull apiType)
            else s.lastFull apiType }
      else none
    | none => none

/-- Every normalizable record that was there before the last committed run began, dated up to the
cursor less the overlap, has been staged. -/
def StagedUpToCursor (s : CursorState) : Prop :=
  ∀ r ∈ s.provider, s.lastBegan.any (r.joinedAt < ·) = true →
    ∀ c ∈ s.cursors r.apiType, r.date ≤ c.timestamp - config.overlap →
      ∀ e ∈ config.normalizeUsomModel r.model r.apiType, e ∈ s.staged

/-- The record joined less than the overlap after its date, or before the last committed full
reconciliation began to walk its type. -/
def JoinedInTime (s : CursorState) (r : ProviderRecord) : Prop :=
  r.joinedAt < r.date + config.overlap ∨ (s.lastFull r.apiType).any (r.joinedAt < ·) = true

/-- Every normalizable record that joined in time, dated up to the cursor less the overlap, has been
staged. -/
def TimelyStagedUpToCursor (s : CursorState) : Prop :=
  ∀ r ∈ s.provider, JoinedInTime config s r →
    ∀ c ∈ s.cursors r.apiType, r.date ≤ c.timestamp - config.overlap →
      ∀ e ∈ config.normalizeUsomModel r.model r.apiType, e ∈ s.staged

/-- The commit of an incremental run moves no cursor back. -/
def CommitAdvances (s : CursorState) : Prop :=
  ∀ run s', s.run = some run → run.mode = .incremental → cursorStep config s .commit = some s' →
    ∀ apiType, ∀ c ∈ s.cursors apiType, ∃ c' ∈ s'.cursors apiType,
      c' = c ∨ 0 < compareUsomHighwaters config.localeCompare (some c') (some c)

end Step

end TalonHound.UsomCursor
