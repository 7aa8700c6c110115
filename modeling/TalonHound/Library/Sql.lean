import Mathlib.Data.List.Basic

/-!
# Three-valued conditions

The conditions of SQL: a condition is true, false or unknown, a value may be missing, and a
`WHERE` clause selects what is true. Each connective and comparison has the rule that says when it
is true.
-/

/-- A condition. -/
inductive Truth where
  | holds | fails | unknown
  deriving DecidableEq

namespace Truth

def ofBool (b : Bool) : Truth := if b then holds else fails

/-- `AND`. -/
protected def and : Truth → Truth → Truth
  | fails, _ => fails
  | _, fails => fails
  | holds, holds => holds
  | _, _ => unknown

/-- `OR`. -/
protected def or : Truth → Truth → Truth
  | holds, _ => holds
  | _, holds => holds
  | fails, fails => fails
  | _, _ => unknown

/-- `NOT`. -/
protected def not : Truth → Truth
  | holds => fails
  | fails => holds
  | unknown => unknown

/-- A `WHERE` clause selects the row. -/
def selects (t : Truth) : Bool := t = holds

@[simp] theorem selects_ofBool {b : Bool} : (ofBool b).selects = b := by
  cases b <;> rfl

@[simp] theorem selects_and {t u : Truth} : (t.and u).selects = (t.selects && u.selects) := by
  cases t <;> cases u <;> rfl

@[simp] theorem selects_or {t u : Truth} : (t.or u).selects = (t.selects || u.selects) := by
  cases t <;> cases u <;> rfl

@[simp] theorem not_ofBool {b : Bool} : (ofBool b).not = ofBool !b := by
  cases b <;> rfl

end Truth

namespace Sql

variable {α β : Type*}

/-- `x IS NULL`. -/
def isNull (x : Option α) : Truth := .ofBool x.isNone

/-- `COALESCE(x, y)`. -/
def coalesce (x y : Option α) : Option α := x.or y

/-- `EXISTS (SELECT 1 FROM rows WHERE p)`. -/
def anyRow (rows : List β) (p : β → Truth) : Truth := .ofBool (rows.any fun r => (p r).selects)

/-- A default makes a value. -/
@[simp] theorem coalesce_some {x : Option α} {a : α} : coalesce x (some a) = some (x.getD a) := by
  cases x <;> rfl

@[simp] theorem selects_isNull {x : Option α} : (isNull x).selects = x.isNone :=
  Truth.selects_ofBool

@[simp] theorem selects_anyRow {rows : List β} {p : β → Truth} :
    (anyRow rows p).selects = rows.any fun r => (p r).selects := Truth.selects_ofBool

variable [DecidableEq α]

/-- `x = y`; a missing value compares as unknown. -/
def eq (x y : Option α) : Truth :=
  match x, y with
  | some a, some b => .ofBool (a = b)
  | _, _ => .unknown

/-- `x <> y`. -/
def ne (x y : Option α) : Truth := (eq x y).not

/-- `x IN (values)`. -/
def isIn (x : Option α) (values : List α) : Truth :=
  match x with
  | some a => .ofBool (values.contains a)
  | none => .unknown

/-- `x NOT IN (values)`. -/
def notIn (x : Option α) (values : List α) : Truth := (isIn x values).not

variable {x : Option α} {a b : α} {values : List α}

@[simp] theorem selects_eq : (eq x (some a)).selects = decide (x = some a) := by
  cases x with
  | none => rfl
  | some b => simp [eq]

@[simp] theorem selects_ne : (ne (some b) (some a)).selects = !decide (b = a) := by
  simp [ne, eq]

@[simp] theorem selects_isIn : (isIn x values).selects = x.any fun a => values.contains a := by
  cases x with
  | none => rfl
  | some a => simp [isIn]

@[simp] theorem selects_notIn : (notIn (some a) values).selects = !values.contains a := by
  simp [notIn, isIn]

end Sql
