import Mathlib.Data.List.Infix
import TalonHound.Candidates.RefreshGuard

/-!
# Selections of all matching candidates

`candidateSelection.js`: the candidates that the filters of a review action match, those that the
action may change, and the change itself. `finalizeLocked` counts what is left to review.
-/

namespace TalonHound.Candidates

open FileArtifacts (lowerCase)
open ReportLifecycle (Assessment)

/-- The row with the scope that the document has. -/
def Row.stampScope (row : Row) : Row :=
  if row.values.hasAuthoritativePublisherIocScope || !row.hasOriginalDocumentOccurrence then row
  else { row with columns := { row.columns with
    evidence := { row.columns.evidence with documentHasAuthoritativeScope := true } } }

/-- `withInferredPublisherIocScope`. -/
def withInferredPublisherIocScope (rows : List Row) : List Row :=
  if rows.any (·.values.isPublisherAssertedReportIoc) then rows.map Row.stampScope else rows

/-- `SELECTION_TABS`, and the tab of a source. -/
inductive SelectionTab where
  | indicators | totalUnique | linkedOnly | existing | new | needsReview | contextOnly | all
  | source (id : String)

/-- `SELECTION_SOURCES`. -/
inductive SelectionSource where
  | all | original | linked | linkedOnly
  deriving DecidableEq

/-- `SELECTION_MATCHES`. -/
inductive SelectionMatch where
  | all | existing | new
  deriving DecidableEq

/-- `SELECTION_TYPES`. -/
inductive SelectionType where
  | all | ip | domain | url | hash | cidr

/-- `SELECTION_RESULTS`. -/
inductive SelectionResult where
  | all | created | alreadyExisting | unsupported | notCreated

/-- The filters of a selection. -/
structure SelectionFilters where
  tab : SelectionTab
  source : SelectionSource
  matching : SelectionMatch
  type : SelectionType
  result : SelectionResult
  search : String

/-- A tab without any other filter. -/
def SelectionFilters.ofTab (tab : SelectionTab) : SelectionFilters := ⟨tab, .all, .all, .all, .all, ""⟩

/-- `normalizeSelectionFilters`. -/
def SelectionFilters.normalize (f : SelectionFilters) : SelectionFilters :=
  match f.tab with
  | .indicators => { f with
      tab := .totalUnique, source := if f.source = .all then .original else f.source }
  | .linkedOnly => { f with
      tab := .totalUnique, source := if f.source = .all then .linkedOnly else f.source }
  | .existing => { f with
      tab := .totalUnique, matching := if f.matching = .all then .existing else f.matching }
  | .new => { f with
      tab := .totalUnique, matching := if f.matching = .all then .new else f.matching }
  | _ => f

/-- `PROMOTABLE_TYPES`. -/
def promotableTypes : List String := ["ip", "ipv6", "domain", "url", "md5", "sha1", "sha256"]

/-- The outcomes of `classifyCreateOutcome`. -/
inductive CreateOutcome where
  | notApplicable | unsupported | notApproved | alreadyExisting | willCreate
  deriving DecidableEq

/-- The text of an assessment. -/
def assessmentText : Assessment → String
  | .malicious => "malicious"
  | .suspicious => "suspicious"
  | .contextOnly => "context_only"
  | .unknown => "unknown"
  | .invalid => "invalid"

namespace Row

/-- `state === 'existing' || Boolean(candidate.matched_ioc_id)`. -/
def isMatched (row : Row) : Bool :=
  row.columns.matchState = .existing || row.columns.matchedIocId.isSome

/-- `matchSelectionTab`; the rows that are loaded carry no sources. -/
def matchesTab (links : List (ℕ × ℕ)) (row : Row) : SelectionTab → Bool
  | .all => true
  | .indicators => row.values.isReportIndicatorMember
  | .totalUnique => row.isUnionMember links
  | .linkedOnly => row.isUnionMember links && !row.values.isReportIndicatorMember
  | .existing => row.isUnionMember links && row.isMatched
  | .new => row.isUnionMember links && row.columns.matchState = .new
  | .contextOnly => row.values.isContextOnlyCandidate
  | .needsReview => row.columns.reviewStatus = .pending && row.isUnionMember links
  | .source _ => false

/-- `matchSelectionSource`. -/
def matchesSource (row : Row) : SelectionSource → Bool
  | .all => true
  | .original => row.hasOriginalDocumentOccurrence
  | .linked => row.values.assertion = linkedSourceIocAssertion
  | .linkedOnly => !row.hasOriginalDocumentOccurrence

/-- `matchSelectionMatch`. -/
def matchesMatch (row : Row) : SelectionMatch → Bool
  | .all => true
  | .existing => row.isMatched
  | .new => row.columns.matchState = .new

/-- `candidateMatchesQuery`. -/
def matchesQuery (row : Row) (query : String) : Bool :=
  let needle := lowerCase (trim query)
  needle.isEmpty ||
    needle.toList <:+: ("\n".intercalate
      ([row.identity.normalizedValue, row.columns.originalValue, row.identity.candidateType,
        row.columns.role, assessmentText row.columns.assessment].map lowerCase)).toList

/-- `candidateMatchesTypeFilter`. -/
def matchesType (row : Row) : SelectionType → Bool
  | .all => true
  | .hash => hashTypes.contains row.values.typeOf
  | .ip => ["ip", "ipv6"].contains row.values.typeOf
  | .domain => row.values.typeOf = "domain"
  | .url => row.values.typeOf = "url"
  | .cidr => row.values.typeOf = "cidr"

/-- `classifyCreateOutcome`. -/
def classifyCreateOutcome (links : List (ℕ × ℕ)) (row : Row) : CreateOutcome :=
  if !row.columns.isIoc || row.columns.reviewStatus = .ignored ||
      row.values.isContextOnlyCandidate || row.columns.assessment = .invalid ||
      row.columns.matchState = .invalid then .notApplicable
  else if !row.isUnionMember links then .notApplicable
  else if !promotableTypes.contains row.values.typeOf then .unsupported
  else if !row.values.isAnalystConfirmed then .notApproved
  else if row.isMatched || row.columns.reviewStatus = .createdIoc ||
      row.promotionOutcome = some .created then .alreadyExisting
  else .willCreate

/-- `iocResultOutcome`. -/
def iocResultOutcome (links : List (ℕ × ℕ)) (row : Row) : Option PromotionOutcome :=
  if row.isCreated then row.promotionOutcome
  else match row.classifyCreateOutcome links with
    | .alreadyExisting => some .alreadyExisting
    | .willCreate => none
    | _ => row.promotionOutcome

/-- `candidateMatchesResultFilter`. -/
def matchesResult (links : List (ℕ × ℕ)) (row : Row) : SelectionResult → Bool
  | .all => true
  | .created => row.iocResultOutcome links = some .created
  | .alreadyExisting => row.iocResultOutcome links = some .alreadyExisting
  | .unsupported => row.iocResultOutcome links = some .unsupported
  | .notCreated =>
    [none, some .notApproved, some .notApplicable, some PromotionOutcome.failed].contains
      (row.iocResultOutcome links)

end Row

/-- `candidateMatchesSelectionFilters`. -/
def SelectionFilters.accepts (filters : SelectionFilters) (links : List (ℕ × ℕ)) (row : Row) :
    Bool :=
  row.matchesTab links filters.normalize.tab && row.matchesSource filters.normalize.source &&
    row.matchesMatch filters.normalize.matching && row.matchesQuery filters.search &&
    row.matchesType filters.type && row.matchesResult links filters.result

/-- `filterCandidatesForSelection`, for a selection of all matching candidates. -/
def filterCandidatesForSelection (links : List (ℕ × ℕ)) (rows : List Row)
    (filters : SelectionFilters) (excludedIds : List ℕ) : List Row :=
  (withInferredPublisherIocScope rows).filter fun row =>
    filters.accepts links row && !excludedIds.contains row.id

/-- The review actions that set a status. -/
inductive StatusAction where
  | approve | contextOnly | ignore
  deriving DecidableEq

/-- `eligibleCandidateIds`. -/
def eligibleCandidateIds (links : List (ℕ × ℕ)) (rows : List Row) : StatusAction → List ℕ
  | .approve => (rows.filter fun row => row.isUnionMember links).map Row.id
  | .contextOnly => (rows.filter fun row => !row.values.isContextOnlyCandidate).map Row.id
  | .ignore => rows.map Row.id

/-- The condition of the approve `UPDATE`, besides the ids. -/
def Row.isApprovable (links : List (ℕ × ℕ)) (row : Row) : Bool :=
  row.columns.isIoc && !row.values.isContextOnlyCandidate &&
    row.values.isReviewActionableIndicator (Report.isLinked links row)

/-- `applyStatusChange`, on one row. -/
def Row.changeStatus (links : List (ℕ × ℕ)) (ids : List ℕ) (row : Row) : StatusAction → Row
  | .approve =>
    if ids.contains row.id && row.isApprovable links then
      { row with columns := { row.columns with reviewStatus := .approved } }
    else row
  | .contextOnly =>
    if ids.contains row.id then
      { row with columns := { row.columns with
        reviewStatus := .contextOnly
        assessment := .contextOnly
        matchState := .contextOnly } }
    else row
  | .ignore =>
    if ids.contains row.id then
      { row with columns := { row.columns with reviewStatus := .ignored } }
    else row

/-- `applyAllMatchingSelection`, with the token of the selection; without eligible candidates it is
refused. -/
def applyAllMatchingSelection (links : List (ℕ × ℕ)) (rows : List Row)
    (filters : SelectionFilters) (excludedIds : List ℕ) (action : StatusAction) : List Row :=
  let ids := eligibleCandidateIds links
    (filterCandidatesForSelection links rows filters excludedIds) action
  if ids.isEmpty then rows else rows.map fun row => row.changeStatus links ids action

/-- `pendingCount` of `finalizeLocked`: above zero it rejects with `pending_review_remaining`. -/
def pendingCount (links : List (ℕ × ℕ)) (rows : List Row) : ℕ :=
  rows.countP fun row => row.isPendingActionable links

end TalonHound.Candidates
