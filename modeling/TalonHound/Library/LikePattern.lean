import Mathlib.Data.List.Infix

/-!
# Patterns of `LIKE`

A pattern is a list of pieces; its text is read with an escape character, and a text that ends in one
is no pattern.
-/

namespace LikePattern

variable {α : Type*} [DecidableEq α]

/-- A piece of a pattern. -/
inductive Piece (α : Type*) where
  /-- Any run. -/
  | run
  /-- Any one character. -/
  | one
  | exactly (a : α)

/-- The backtracking matcher. -/
def matchPieces : List (Piece α) → List α → Bool
  | [], text => text.isEmpty
  | .run :: pattern, text => text.tails.any (matchPieces pattern)
  | .one :: pattern, text =>
    match text with
    | [] => false
    | _ :: text => matchPieces pattern text
  | .exactly a :: pattern, text =>
    match text with
    | [] => false
    | b :: text => decide (a = b) && matchPieces pattern text

variable {pattern : List (Piece α)} {v text : List α}

theorem matchPieces_run : matchPieces (.run :: pattern) text = true ↔
    ∃ front rest, text = front ++ rest ∧ matchPieces pattern rest = true := by
  simp only [matchPieces, List.any_eq_true, List.mem_tails]
  constructor
  · rintro ⟨rest, ⟨front, rfl⟩, hrest⟩
    exact ⟨front, rest, rfl, hrest⟩
  · rintro ⟨front, rest, rfl, hrest⟩
    exact ⟨rest, ⟨front, rfl⟩, hrest⟩

/-- Characters match themselves. -/
theorem matchPieces_exactly : matchPieces (v.map .exactly ++ pattern) text = true ↔
    ∃ rest, text = v ++ rest ∧ matchPieces pattern rest = true := by
  induction v generalizing text with
  | nil => simp
  | cons a v ih =>
    cases text with
    | nil => simp [matchPieces]
    | cons b text =>
      simp only [List.map_cons, List.cons_append, matchPieces, Bool.and_eq_true, decide_eq_true_eq, ih,
        List.cons.injEq]
      grind

/-- A run at the end matches every rest. -/
theorem matchPieces_exactly_run :
    matchPieces (v.map .exactly ++ [.run]) text = true ↔ v <+: text := by
  rw [matchPieces_exactly]
  constructor
  · rintro ⟨rest, rfl, -⟩
    exact List.prefix_append v rest
  · rintro ⟨rest, rfl⟩
    exact ⟨rest, rfl, matchPieces_run.mpr ⟨rest, [], by simp, rfl⟩⟩

theorem matchPieces_exactly_nil : matchPieces (v.map .exactly) text = true ↔ text = v := by
  have h : matchPieces (v.map .exactly ++ []) text = true ↔ _ := matchPieces_exactly
  rw [List.append_nil] at h
  rw [h]
  simp [matchPieces]

/-- The pieces of a text, in which a backslash quotes the next character. -/
def pieces : List Char → Option (List (Piece Char))
  | [] => some []
  | ['\\'] => none
  | '\\' :: c :: text => (pieces text).map (.exactly c :: ·)
  | '%' :: text => (pieces text).map (.run :: ·)
  | '_' :: text => (pieces text).map (.one :: ·)
  | c :: text => (pieces text).map (.exactly c :: ·)

/-- A character that a pattern reads in its own way. -/
def IsSpecial (c : Char) : Prop := c = '\\' ∨ c = '%' ∨ c = '_'
  deriving Decidable

/-- Special characters with a backslash before them. -/
def escape (v : List Char) : List Char := v.flatMap fun c => if IsSpecial c then ['\\', c] else [c]

theorem pieces_cons {c : Char} {text : List Char} (h : ¬IsSpecial c) :
    pieces (c :: text) = (pieces text).map (.exactly c :: ·) := by
  simp only [IsSpecial, not_or] at h
  rw [pieces]
  · exact fun hc _ => h.1 hc
  · exact fun _ _ hc _ => h.1 hc
  · exact h.2.1
  · exact h.2.2

/-- An escaped text is read as its characters. -/
theorem pieces_escape (v text : List Char) :
    pieces (escape v ++ text) = (pieces text).map (v.map .exactly ++ ·) := by
  induction v with
  | nil => simp [escape]
  | cons c v ih =>
    unfold escape at ih ⊢
    rw [List.flatMap_cons, List.append_assoc]
    by_cases hspecial : IsSpecial c
    · rw [if_pos hspecial, List.cons_append, List.singleton_append, pieces, ih, Option.map_map]
      rfl
    · rw [if_neg hspecial, List.singleton_append, pieces_cons hspecial, ih, Option.map_map]
      rfl

/-- `text LIKE pattern ESCAPE '\'`; `none` is the error of a pattern that ends in a backslash. -/
def likeEscaped (pattern text : List Char) : Option Bool :=
  (pieces pattern).map (matchPieces · text)

end LikePattern
