import TalonHound.Library.Digits
import TalonHound.Library.KeyedTable
import TalonHound.Usom.Stage

/-!
# Walking the pages of the USOM API

`walkPages` and the page handler of `collect` in `usomOfficialApi.js`: the checks on page numbers,
totals, types, dates and cursors, and what is kept of each page.
-/

namespace TalonHound.UsomCursor

open TalonHound.Usom (StageEntry)

/-- A validated response; `count` is the number of its models. -/
structure Page (α : Type) where
  models : List α
  (page pageCount totalCount : ℕ)

/-- The `code` of a `UsomApiError`. -/
inductive ApiError where
  | paginationStalled | paginationMismatch | paginationChanged | paginationIncomplete
  | totalMismatch | filterIgnored | invalidIncrementalDate | invalidIncrementalHighwater
  | futureCursor

/-- The local variables of `walkPages`. -/
structure WalkState where
  requestPage : ℕ
  (expectedPageCount expectedTotal latestTotal : Option ℕ)
  paginationStable : Bool
  rawCount : ℕ
  seenResponsePages : List ℕ

/-- Before the first request. -/
def WalkState.start : WalkState where
  requestPage := 1
  expectedPageCount := none
  expectedTotal := none
  latestTotal := none
  paginationStable := true
  rawCount := 0
  seenResponsePages := []

section Walk

variable {α σ : Type} (allowPaginationChanges : Bool)

/-- The totals of a response against the expected ones. -/
def checkTotals (s : WalkState) (payload : Page α) : Except ApiError WalkState :=
  match s.expectedPageCount with
  | none =>
    .ok { s with
      expectedPageCount := some payload.pageCount
      expectedTotal := some payload.totalCount
      latestTotal := some payload.totalCount }
  | some expected =>
    if payload.pageCount ≠ expected ∨ some payload.totalCount ≠ s.expectedTotal then
      if allowPaginationChanges then
        .ok { s with
          paginationStable := false
          expectedPageCount := some (max expected payload.pageCount)
          latestTotal := some payload.totalCount }
      else .error .paginationChanged
    else .ok s

/-- The page number of a response against the requested one. -/
def checkPage (s : WalkState) (payload : Page α) : Except ApiError WalkState :=
  if payload.page ∈ s.seenResponsePages then .error .paginationStalled
  else if payload.page ≠ s.requestPage - 1 then .error .paginationMismatch
  else .ok { s with seenResponsePages := payload.page :: s.seenResponsePages }

/-- What follows a response: the loop ends, or goes on with the next page. -/
inductive WalkOutcome (σ : Type) where
  | finished (s : WalkState) (acc : σ)
  | next (s : WalkState) (acc : σ)

/-- One iteration of the loop of `walkPages`, for a response. -/
def walkStep (onPage : σ → ℕ → Page α → Except ApiError σ) (s : WalkState) (acc : σ)
    (payload : Page α) : Except ApiError (WalkOutcome σ) := do
  let s ← checkPage s payload
  let s ← checkTotals allowPaginationChanges s payload
  if payload.models.isEmpty && s.rawCount < payload.totalCount then
    if allowPaginationChanges then .ok (.finished { s with paginationStable := false } acc)
    else .error .paginationIncomplete
  else
    let s := { s with rawCount := s.rawCount + payload.models.length }
    let acc ← onPage acc s.requestPage payload
    if payload.pageCount = 0 || s.expectedPageCount.all (· ≤ s.requestPage) then
      .ok (.finished s acc)
    else .ok (.next { s with requestPage := s.requestPage + 1 } acc)

/-- The end of `walkPages`. -/
def walkEnd (s : WalkState) : Except ApiError WalkState :=
  if some s.rawCount ≠ s.expectedTotal then
    if allowPaginationChanges then .ok { s with paginationStable := false }
    else .error .totalMismatch
  else .ok s

end Walk

/-- A cursor: the date and the id of a record. -/
structure Highwater where
  timestamp : ℤ
  providerId : String
  deriving DecidableEq

/-- The ids are digits only. -/
def isDigits (s : String) : Bool := !s.isEmpty && s.toList.all Char.isDigit

/-- `BigInt` of digits. -/
def bigInt (s : String) : ℕ := digitsValue 10 (fun c => c.toNat - '0'.toNat) s.toList

/-- `compareProviderIds`, with `localeCompare` as a parameter. -/
def compareProviderIds (localeCompare : String → String → ℤ) (a b : String) : ℤ :=
  if isDigits a && isDigits b then
    if bigInt a < bigInt b then -1 else if bigInt b < bigInt a then 1 else 0
  else localeCompare a b

/-- `compareUsomHighwaters`. -/
def compareUsomHighwaters (localeCompare : String → String → ℤ) (left right : Option Highwater) :
    ℤ :=
  match left, right with
  | none, some _ => -1
  | none, none => 0
  | some _, none => 1
  | some l, some r =>
    if l.timestamp - r.timestamp ≠ 0 then l.timestamp - r.timestamp
    else compareProviderIds localeCompare l.providerId r.providerId

/-- A model of a page: its type, the result of `parseProviderDate`, the result of
`normalizeProviderId`, and the rest. -/
structure Model where
  apiType : String
  date : Option ℤ
  providerId : Option String
  body : String

/-- `highwaterFromModel`. -/
def highwaterFromModel (m : Model) : Option Highwater :=
  match m.date, m.providerId with
  | some timestamp, some providerId => some ⟨timestamp, providerId⟩
  | _, _ => none

/-- `effectiveMode`. -/
inductive RunMode where
  | incremental | fullReconciliation
  deriving DecidableEq

/-- The configuration of the client that a walk reads, and the parts of it from outside. -/
structure ApiConfig where
  (perPage cursorOverlapHours incrementalMaxRecords : ℕ)
  perPage_pos : 0 < perPage
  localeCompare : String → String → ℤ
  /-- `normalizeUsomModel`: the entry of a model, if it has one. -/
  normalizeUsomModel : Model → String → Option StageEntry

/-- The overlap in milliseconds. -/
def ApiConfig.overlap (config : ApiConfig) : ℤ := config.cursorOverlapHours * 3600000

/-- The window of the query of a type. -/
structure Window where
  apiType : String
  lowerBound : Option ℤ
  upperBound : ℤ

/-- What the pages of a type have given. -/
structure TypeState where
  typeHighwater : Option Highwater
  entries : List StageEntry

section Collect

variable (config : ApiConfig) (mode : RunMode) (window : Window)

/-- A date is outside the window. -/
def isOutside (date : ℤ) : Bool :=
  window.upperBound < date || window.lowerBound.any (date < ·)

/-- The body of the loop over the models of a page. -/
def collectModel (acc : TypeState) (m : Model) : Except ApiError TypeState :=
  if m.apiType ≠ window.apiType then .error .filterIgnored
  else if mode = .incremental ∧ m.date = none then .error .invalidIncrementalDate
  else if m.date.any (isOutside window) then .error .filterIgnored
  else if mode = .incremental ∧ highwaterFromModel m = none then
    .error .invalidIncrementalHighwater
  else
    .ok {
      typeHighwater :=
        if (highwaterFromModel m).isSome ∧
            0 < compareUsomHighwaters config.localeCompare (highwaterFromModel m) acc.typeHighwater
        then highwaterFromModel m
        else acc.typeHighwater
      entries :=
        match config.normalizeUsomModel m window.apiType with
        | some entry => acc.entries ++ [entry]
        | none => acc.entries }

/-- The handler of a page. -/
def collectPage (acc : TypeState) (requestPage : ℕ) (payload : Page Model) :
    Except ApiError TypeState :=
  if mode = .incremental ∧ requestPage = 1 ∧ config.incrementalMaxRecords < payload.totalCount then
    .error .filterIgnored
  else payload.models.foldlM (collectModel config mode window) acc

/-- `highwaters[apiType]`, at the end of a type. -/
def nextHighwater (cursor typeHighwater : Option Highwater) (rawCount : ℕ) : Option Highwater :=
  if 0 < rawCount ∧ typeHighwater.isSome ∧
      (mode = .fullReconciliation ∨ cursor = none ∨
        0 < compareUsomHighwaters config.localeCompare typeHighwater cursor)
  then typeHighwater
  else none

/-- The window of a type, unless its cursor is in the future. -/
def queryWindow (apiType : String) (cursor : Option Highwater) (upperBound : ℤ) :
    Except ApiError Window :=
  if cursor.any (upperBound < ·.timestamp) then .error .futureCursor
  else
    .ok {
      apiType := apiType
      lowerBound :=
        if mode = .incremental then cursor.map (·.timestamp - config.overlap) else none
      upperBound := upperBound }

end Collect

section Spec

variable {α σ : Type} {allowPaginationChanges : Bool} {s s' : WalkState} {payload : Page α}
  {onPage : σ → ℕ → Page α → Except ApiError σ} {acc acc' : σ}

theorem checkPage_ok (h : checkPage s payload = .ok s') :
    s'.requestPage = s.requestPage ∧ s'.rawCount = s.rawCount := by
  unfold checkPage at h
  split at h
  · cases h
  · split at h
    · cases h
    · obtain rfl := Except.ok.inj h
      exact ⟨rfl, rfl⟩

/-- The expected page count is at least that of the response. -/
theorem checkTotals_ok (h : checkTotals allowPaginationChanges s payload = .ok s') :
    s'.requestPage = s.requestPage ∧
      ∃ expected, s'.expectedPageCount = some expected ∧ payload.pageCount ≤ expected := by
  unfold checkTotals at h
  split at h
  · obtain rfl := Except.ok.inj h
    exact ⟨rfl, payload.pageCount, rfl, le_refl _⟩
  · next expected hexpected =>
    split at h
    · split at h
      · obtain rfl := Except.ok.inj h
        exact ⟨rfl, max expected payload.pageCount, rfl, le_max_right _ _⟩
      · cases h
    · next hsame =>
      obtain rfl := Except.ok.inj h
      refine ⟨rfl, expected, hexpected, ?_⟩
      omega

/-- The loop goes on after a page that was handled, and ends after an empty one or the last. -/
theorem walkStep_ok {outcome : WalkOutcome σ}
    (h : walkStep allowPaginationChanges onPage s acc payload = .ok outcome) :
    match outcome with
    | .next s' acc' =>
      s'.requestPage = s.requestPage + 1 ∧ onPage acc s.requestPage payload = .ok acc'
    | .finished _ acc' =>
      (payload.models = [] ∧ acc' = acc) ∨
        (onPage acc s.requestPage payload = .ok acc' ∧ payload.pageCount ≤ s.requestPage) := by
  obtain ⟨s₁, hpage, h⟩ := KeyedTable.eq_ok_of_bind h
  obtain ⟨s₂, htotals, h⟩ := KeyedTable.eq_ok_of_bind h
  obtain ⟨hrequest₁, -⟩ := checkPage_ok hpage
  obtain ⟨hrequest₂, expected, hexpected, hle⟩ := checkTotals_ok htotals
  have hrequest : s₂.requestPage = s.requestPage := hrequest₂.trans hrequest₁
  split at h
  · next hempty =>
    split at h
    · obtain rfl := Except.ok.inj h
      refine .inl ⟨?_, rfl⟩
      rw [Bool.and_eq_true, List.isEmpty_iff] at hempty
      exact hempty.1
    · cases h
  · obtain ⟨acc₁, hhandled, h⟩ := KeyedTable.eq_ok_of_bind h
    rw [hrequest] at hhandled
    split at h
    · next hlast =>
      obtain rfl := Except.ok.inj h
      refine .inr ⟨hhandled, ?_⟩
      rw [hexpected, hrequest] at hlast
      simp only [Option.all_some, Bool.or_eq_true, decide_eq_true_eq] at hlast
      omega
    · obtain rfl := Except.ok.inj h
      exact ⟨by rw [hrequest], hhandled⟩

end Spec

section Collected

variable {config : ApiConfig} {mode : RunMode} {window : Window} {acc acc' : TypeState} {m : Model}
  {requestPage : ℕ} {payload : Page Model} {models : List Model} {e : StageEntry}

theorem timestamp_highwaterFromModel {h : Highwater} (hm : highwaterFromModel m = some h) :
    m.date = some h.timestamp := by
  unfold highwaterFromModel at hm
  split at hm
  · next timestamp providerId hdate hid =>
    cases hm
    exact hdate
  · cases hm

/-- What a model leaves in the accumulators. -/
structure Collected (config : ApiConfig) (window : Window) (models : List Model)
    (acc acc' : TypeState) : Prop where
  bounded : (∀ h ∈ acc.typeHighwater, h.timestamp ≤ window.upperBound) →
    ∀ h ∈ acc'.typeHighwater, h.timestamp ≤ window.upperBound
  kept : ∀ e ∈ acc.entries, e ∈ acc'.entries
  entries : ∀ m ∈ models, ∀ e, config.normalizeUsomModel m window.apiType = some e →
    e ∈ acc'.entries

theorem collectModel_ok (h : collectModel config mode window acc m = .ok acc') :
    Collected config window [m] acc acc' := by
  unfold collectModel at h
  split at h
  · cases h
  · split at h
    · cases h
    · split at h
      · cases h
      · next hinside =>
        split at h
        · cases h
        · obtain rfl := Except.ok.inj h
          refine ⟨fun hbounded high hhigh => ?_, fun e he => ?_, fun m' hm' e he => ?_⟩
          · dsimp only at hhigh
            split at hhigh
            · have hdate := timestamp_highwaterFromModel hhigh
              rw [hdate] at hinside
              simp only [Option.any_some, isOutside, Bool.or_eq_true, decide_eq_true_eq,
                not_or, not_lt] at hinside
              exact hinside.1
            · exact hbounded high hhigh
          · dsimp only
            split
            · exact List.mem_append_left _ he
            · exact he
          · obtain rfl := List.mem_singleton.mp hm'
            rw [he]
            exact List.mem_append_right _ (List.mem_singleton_self _)

theorem foldlM_collectModel_ok (h : models.foldlM (collectModel config mode window) acc = .ok acc') :
    Collected config window models acc acc' := by
  induction models generalizing acc with
  | nil =>
    obtain rfl := Except.ok.inj h
    exact ⟨fun hbounded => hbounded, fun _ he => he, fun m hm => absurd hm List.not_mem_nil⟩
  | cons m models ih =>
    rw [List.foldlM_cons] at h
    obtain ⟨acc₁, hfirst, hrest⟩ := KeyedTable.eq_ok_of_bind h
    have hm := collectModel_ok hfirst
    have hmodels := ih hrest
    refine ⟨fun hbounded => hmodels.bounded (hm.bounded hbounded),
      fun e he => hmodels.kept e (hm.kept e he), fun m' hm' e he => ?_⟩
    rcases List.mem_cons.mp hm' with rfl | hlater
    · exact hmodels.kept e (hm.entries m' (List.mem_singleton_self _) e he)
    · exact hmodels.entries m' hlater e he

/-- What a page leaves in the accumulators. -/
theorem collectPage_ok (h : collectPage config mode window acc requestPage payload = .ok acc') :
    Collected config window payload.models acc acc' := by
  unfold collectPage at h
  split at h
  · cases h
  · exact foldlM_collectModel_ok h

end Collected

end TalonHound.UsomCursor
