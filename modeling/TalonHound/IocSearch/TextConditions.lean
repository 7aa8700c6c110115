import TalonHound.Candidates.SearchValue
import TalonHound.Library.LikePattern

/-!
# Text conditions of a search

`queryBuilder.js` compares a column with a value by `ILIKE` and a pattern of `likeEscape`.
-/

namespace TalonHound.IocSearch

open LikePattern
open Candidates (lower toLower_eq_iff normalizeIocValue)

/-- `likeEscape`. -/
def likeEscape (value : List Char) : List Char := escape value

/-- The text operators with a pattern. -/
inductive TextOperator where
  | contains | notContains | startsWith | endsWith | equals | notEquals
  deriving DecidableEq

namespace TextOperator

/-- The pattern that is bound. -/
def pattern (value : List Char) : TextOperator → List Char
  | .contains | .notContains => '%' :: (likeEscape value ++ ['%'])
  | .startsWith => likeEscape value ++ ['%']
  | .endsWith => '%' :: likeEscape value
  | .equals | .notEquals => likeEscape value

/-- The condition is `NOT ILIKE`. -/
def isNegated : TextOperator → Bool
  | .notContains | .notEquals => true
  | _ => false

/-- What an operator asks of a column. -/
def asks (value column : List Char) : TextOperator → Bool
  | .contains => value <:+: column
  | .notContains => !decide (value <:+: column)
  | .startsWith => value <+: column
  | .endsWith => value <:+ column
  | .equals => column = value
  | .notEquals => column ≠ value

end TextOperator

/-- `text ILIKE pattern ESCAPE '\'`, where case is folded in both. -/
def ilikeEscaped (pattern text : List Char) : Option Bool := likeEscaped (lower pattern) (lower text)

/-- The condition of `buildTextColumn`, on a value of the column. -/
def buildTextColumn (op : TextOperator) (value column : List Char) : Option Bool :=
  (ilikeEscaped (op.pattern value) column).map (xor op.isNegated)

/-- The condition of `buildIoc`, for a value that is no complete file hash. -/
def buildIoc (op : TextOperator) (raw : String) (column : List Char) : Option Bool :=
  buildTextColumn op (normalizeIocValue raw).toList column

variable {c : Char}

theorem isSpecial_toLower : IsSpecial c.toLower ↔ IsSpecial c := by
  unfold IsSpecial
  rw [toLower_eq_iff (by decide) (by decide), toLower_eq_iff (by decide) (by decide),
    toLower_eq_iff (by decide) (by decide)]

/-- Folding goes through the escapes. -/
theorem lower_likeEscape (value : List Char) : lower (likeEscape value) = likeEscape (lower value) := by
  unfold likeEscape escape lower
  rw [List.map_flatMap, List.flatMap_map]
  congr 1
  funext c
  by_cases hspecial : IsSpecial c
  · simp [hspecial, isSpecial_toLower]
  · simp [hspecial, isSpecial_toLower]

theorem lower_pattern (op : TextOperator) (value : List Char) :
    lower (op.pattern value) = op.pattern (lower value) := by
  have hfold : ∀ l l' : List Char, lower (l ++ l') = lower l ++ lower l' := fun l l' => List.map_append
  have hnil : lower [] = [] := rfl
  have hcons : ∀ l, lower ('%' :: l) = '%' :: lower l := fun l => hfold ['%'] l
  cases op <;> simp only [TextOperator.pattern, hcons, hfold, hnil, lower_likeEscape]

/-- The pattern of an operator is read, and matches what the operator asks for. -/
theorem likeEscaped_pattern (op : TextOperator) (value column : List Char) :
    (likeEscaped (op.pattern value) column).map (xor op.isNegated) = some (op.asks value column) := by
  have hend := pieces_escape value ['%']
  have hall := pieces_escape value []
  rw [List.append_nil] at hall
  have hrun : ∀ text, pieces ('%' :: text) = (pieces text).map (.run :: ·) := fun text => rfl
  have hcontains : matchPieces (.run :: (value.map .exactly ++ [.run])) column =
      decide (value <:+: column) := by
    rw [Bool.eq_iff_iff, matchPieces_run, decide_eq_true_eq]
    simp only [matchPieces_exactly_run]
    constructor
    · rintro ⟨front, rest, rfl, back, rfl⟩
      exact ⟨front, back, by simp⟩
    · rintro ⟨front, back, rfl⟩
      exact ⟨front, value ++ back, by simp, back, rfl⟩
  have hends : matchPieces (.run :: value.map .exactly) column = decide (value <:+ column) := by
    rw [Bool.eq_iff_iff, matchPieces_run, decide_eq_true_eq]
    simp only [matchPieces_exactly_nil]
    constructor
    · rintro ⟨front, rest, rfl, rfl⟩
      exact ⟨front, rfl⟩
    · rintro ⟨front, rfl⟩
      exact ⟨front, value, rfl, rfl⟩
  have hstarts : matchPieces (value.map .exactly ++ [.run]) column = decide (value <+: column) := by
    rw [Bool.eq_iff_iff, matchPieces_exactly_run, decide_eq_true_eq]
  have hequals : matchPieces (value.map .exactly) column = decide (column = value) := by
    rw [Bool.eq_iff_iff, matchPieces_exactly_nil, decide_eq_true_eq]
  cases op <;>
    simp [TextOperator.pattern, TextOperator.isNegated, TextOperator.asks, likeEscaped, likeEscape, hrun,
      hend, hall, pieces, hcontains, hends, hstarts, hequals]

theorem buildTextColumn_eq (op : TextOperator) (value column : List Char) :
    buildTextColumn op value column = some (op.asks (lower value) (lower column)) := by
  unfold buildTextColumn ilikeEscaped
  rw [lower_pattern, likeEscaped_pattern]

/-- A value is compared as it is, up to case, whatever characters it has. -/
theorem text_conditions_literal (op : TextOperator) (column : List Char) :
    (∀ value, buildTextColumn op value column = some (op.asks (lower value) (lower column))) ∧
      ∀ raw, buildIoc op raw column =
        some (op.asks (lower (normalizeIocValue raw).toList) (lower column)) :=
  ⟨fun value => buildTextColumn_eq op value column, fun _ => buildTextColumn_eq op _ column⟩

example : buildTextColumn .endsWith "100%\\".toList "Up 100%\\".toList = some true := by decide +kernel

end TalonHound.IocSearch
