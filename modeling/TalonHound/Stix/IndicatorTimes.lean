import TalonHound.PublishedFeed.PublicItem
import TalonHound.Stix.RoundTrip

/-!
# The times of a published indicator

A STIX indicator is created when the IOC was first seen, and modified when it was last confirmed; where
one of the two is missing, other columns or the other time take its place.
-/

namespace TalonHound.Stix

open TalonHound.FileArtifacts (lowerCase)

/-- The times of a published item. Null and the empty text are `none`. -/
structure ItemTimes (T : Type*) where
  (firstSeenInSource lastConfirmedInSource lastChangedInSource importedAt createdAt : Option T)

/-- The confidence of an item: a number, given by its floor where it is finite, or a text. -/
inductive ItemConfidence where
  | number (floor : Option ℤ)
  | text (raw : String)

/-- What `indicatorFromPublishedItem` reads. -/
structure Item (T : Type*) where
  (type value : String)
  timestamps : ItemTimes T
  tags : List String
  confidence : Option ItemConfidence

/-- A published indicator. -/
structure Indicator where
  id : String
  (created modified : ℤ)
  (name pattern : String)
  validFrom : ℤ
  confidence : Option ℤ
  labels : List String

/-- The same item with another last confirmation. -/
def Item.confirm {T : Type*} (item : Item T) (confirmation : T) : Item T :=
  { item with timestamps := { item.timestamps with lastConfirmedInSource := some confirmation } }

section item

variable {T : Type*} (read : T → Option ℤ) (uuid : String → String) (rt : Runtime) (host : GenerationHost)

/-- `stixTimestamp`: the instant that a value reads as. -/
def stixTimestamp (value : Option T) : Option ℤ := value.bind read

/-- `stixIndicatorId`. -/
def stixIndicatorId (observableType value : String) : String :=
  let type := (resolveStixObservableType observableType value).getD (lowerCase (trim observableType))
  "indicator--" ++ uuid ("indicator:" ++ (type ++ ":" ++ lowerCase (trim value)))

/-- The score of a confidence. -/
def itemScore : ItemConfidence → Option ℤ
  | .number floor => floor.map fun n => max 0 (min 100 n)
  | .text raw => if raw = "" then none else some (max 0 (min 100 (confidenceToScore rt host raw)))

/-- The value that `created` is read from. -/
def ItemTimes.creation (ts : ItemTimes T) : Option T :=
  (ts.firstSeenInSource.or ts.importedAt).or ts.createdAt

/-- The value that `modified` is read from. -/
def ItemTimes.change (ts : ItemTimes T) : Option T :=
  ((ts.lastConfirmedInSource.or ts.lastChangedInSource).or ts.firstSeenInSource).or ts.importedAt

/-- `indicatorFromPublishedItem`. -/
def indicatorFromPublishedItem (item : Item T) : Option Indicator :=
  let type := lowerCase (trim item.type)
  let value := trim item.value
  match stixPatternForIoc type value with
  | none => none
  | some pattern =>
    let created := (stixTimestamp read item.timestamps.creation).or (stixTimestamp read item.timestamps.change)
    let modified := (stixTimestamp read item.timestamps.change).or created
    match created, modified with
    | some created, some modified =>
      some { id := stixIndicatorId uuid type value, created := created, modified := modified
             name := value, pattern := pattern, validFrom := created
             confidence := item.confidence.bind (itemScore rt host)
             labels := normalizeTags rt host item.tags }
    | _, _ => none

/-- The confirmation is a time, and not before the one that is known. -/
def IsLater (item : Item T) (confirmation : T) : Prop :=
  ∃ τ, read confirmation = some τ ∧ ∀ t ∈ stixTimestamp read item.timestamps.lastConfirmedInSource, t ≤ τ

/-- The indicator of an item, and that of the item with a later confirmation. -/
def TimeConsistent (item : Item T) (confirmation : T) : Prop :=
  ∀ i ∈ indicatorFromPublishedItem read uuid rt host item,
    i.created = i.validFrom ∧ i.created ≤ i.modified ∧
      (IsLater read item confirmation →
        ∀ j ∈ indicatorFromPublishedItem read uuid rt host (item.confirm confirmation),
          j.id = i.id ∧ j.created = i.created ∧ i.modified ≤ j.modified)

/-- Both times are read from the columns of their own, in order. -/
def TimesInOrder (item : Item T) : Prop :=
  ∀ created ∈ stixTimestamp read item.timestamps.creation,
    ∀ modified ∈ stixTimestamp read item.timestamps.change, created ≤ modified

/-- A confirmation does not come before the time that stood for it, nor replace the creation. -/
def ConfirmsInOrder (item : Item T) (confirmation : T) : Prop :=
  ∀ τ ∈ read confirmation,
    match stixTimestamp read item.timestamps.creation, stixTimestamp read item.timestamps.change with
    | some created, none => created ≤ τ
    | some _, some modified => modified ≤ τ
    | none, some modified => modified = τ
    | none, none => True

theorem creation_confirm (item : Item T) (confirmation : T) :
    (item.confirm confirmation).timestamps.creation = item.timestamps.creation := rfl

theorem change_confirm (item : Item T) (confirmation : T) :
    (item.confirm confirmation).timestamps.change = some confirmation := rfl

/-- The times of an indicator are consistent, also after a later confirmation, exactly if the value that
`created` is read from is readable and not after the value that `modified` is read from, and the
confirmation is not before the latter. -/
theorem indicator_times_consistent_iff (item : Item T) (confirmation : T) :
    TimeConsistent read uuid rt host item confirmation ↔
      (stixPatternForIoc (lowerCase (trim item.type)) (trim item.value) ≠ none →
        TimesInOrder read item ∧
          (IsLater read item confirmation → ConfirmsInOrder read item confirmation)) := by
  unfold TimeConsistent TimesInOrder ConfirmsInOrder indicatorFromPublishedItem
  have hvalue : (item.confirm confirmation).value = item.value := rfl
  have htype : (item.confirm confirmation).type = item.type := rfl
  simp only [creation_confirm, change_confirm, hvalue, htype]
  cases stixPatternForIoc (lowerCase (trim item.type)) (trim item.value) with
  | none => simp
  | some pattern =>
    have hread : stixTimestamp read (some confirmation) = read confirmation := rfl
    have hlater : IsLater read item confirmation → ∃ τ, read confirmation = some τ :=
      fun ⟨τ, hτ, _⟩ => ⟨τ, hτ⟩
    rw [hread]
    generalize IsLater read item confirmation = later at hlater
    generalize read confirmation = confirmed at hlater
    cases confirmed with
    | none =>
      have hnever : ¬ later := fun h => nomatch hlater h
      cases stixTimestamp read item.timestamps.creation <;>
        cases stixTimestamp read item.timestamps.change <;> simp [hnever]
    | some τ =>
      -- the new confirmation is what the item is modified at, and stands in for a missing creation
      cases stixTimestamp read item.timestamps.creation with
      | none =>
        cases stixTimestamp read item.timestamps.change with
        | none => simp
        | some modified =>
          simp only [Option.none_or, Option.some_or, Option.mem_def, Option.some.injEq, ne_eq,
            reduceCtorEq, not_false_eq_true, forall_const, forall_eq', le_refl, true_and, false_implies]
          exact imp_congr_right fun _ => ⟨fun h => h.1.symm, fun h => ⟨h.symm, h.le⟩⟩
      | some created => cases stixTimestamp read item.timestamps.change <;> simp

end item

/-- An IOC that was imported on 1 February and that a feed had confirmed on 15 January. -/
def lateImport : Item ℤ where
  type := "domain"
  value := "example.com"
  timestamps := ⟨none, some 1768435200000, none, some 1769904000000, none⟩
  tags := []
  confidence := none

/-- Its indicator is modified before it is created. -/
theorem indicator_modified_before_created :
    ¬ TimeConsistent some id plainRuntime plainHost lateImport 1768435200000 := by
  intro h
  have hmodified : ∃ i ∈ indicatorFromPublishedItem some id plainRuntime plainHost lateImport,
      i.modified < i.created := by
    decide
  obtain ⟨i, hi, hlt⟩ := hmodified
  exact absurd (h i hi).2.1 (not_le.mpr hlt)

end TalonHound.Stix
