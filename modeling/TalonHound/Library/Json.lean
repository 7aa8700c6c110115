import Mathlib.Data.List.Nodup

/-!
# JSON documents

Documents as a program writes them, where fields without a value are left out, and as SQL and a
scripting language read them.
-/

/-- A JSON document. -/
inductive Json where
  | null
  | bool (b : Bool)
  | num (text : String)
  | str (s : String)
  | arr (items : List Json)
  | obj (entries : List (String × Json))

namespace Json

/-- The value of a key: `->`. -/
def get? (key : String) : Json → Option Json
  | obj entries => (entries.find? fun e => e.1 = key).map Prod.snd
  | _ => none

/-- The elements of an array. -/
def items? : Json → Option (List Json)
  | arr items => some items
  | _ => none

/-- `jsonb_typeof`. -/
def typeName : Json → String
  | null => "null"
  | bool _ => "boolean"
  | num _ => "number"
  | str _ => "string"
  | arr _ => "array"
  | obj _ => "object"

/-- The text of a value, null for the JSON null; `render` writes arrays and objects. -/
def text (render : Json → String) : Json → Option String
  | null => none
  | bool true => some "true"
  | bool false => some "false"
  | num t => some t
  | str s => some s
  | v => some (render v)

/-- The text of the value of a key: `->>`. -/
def getText (render : Json → String) (key : String) (v : Json) : Option String :=
  (v.get? key).bind (text render)

/-- A value that a condition takes for true. -/
def truthy : Json → Bool
  | null => false
  | bool b => b
  | num t => t ≠ "0"
  | str s => !s.isEmpty
  | arr _ => true
  | obj _ => true

/-- The text of a value that may be missing, and empty for what a condition takes for false. -/
def orEmpty (render : Json → String) : Option Json → String
  | some (str s) => s
  | some (bool true) => "true"
  | some v => if v.truthy then render v else ""
  | none => ""

/-- The value is the given truth value, and no other that a condition takes for it. -/
def isBool (b : Bool) : Option Json → Bool
  | some (bool b') => b' = b
  | _ => false

/-- The object of the fields that have a value. -/
def ofFields (fields : List (String × Option Json)) : Json :=
  obj (fields.filterMap fun (key, v) => v.map fun v => (key, v))

/-- A string, or null. -/
def ofText : Option String → Json
  | some s => str s
  | none => null

variable {fields : List (String × Option Json)} {key : String} {v : Option Json}

/-- A field that is not there. -/
theorem get?_ofFields_of_notMem (h : key ∉ fields.map Prod.fst) :
    (ofFields fields).get? key = none := by
  unfold ofFields get?
  rw [Option.map_eq_none_iff, List.find?_eq_none]
  rintro ⟨key', w⟩ hmem
  obtain ⟨⟨key₀, w₀⟩, hfield, hsome⟩ := List.mem_filterMap.mp hmem
  obtain ⟨w', -, hpair⟩ := Option.map_eq_some_iff.mp hsome
  obtain ⟨rfl, rfl⟩ := Prod.mk.inj hpair
  rw [decide_eq_true_eq]
  rintro rfl
  exact h (List.mem_map.mpr ⟨_, hfield, rfl⟩)

/-- A key of different keys has the value of its field. -/
theorem get?_ofFields (hnodup : (fields.map Prod.fst).Nodup) (hmem : (key, v) ∈ fields) :
    (ofFields fields).get? key = v := by
  induction fields with
  | nil => cases hmem
  | cons field fields ih =>
    obtain ⟨key₀, v₀⟩ := field
    rw [List.map_cons, List.nodup_cons] at hnodup
    rcases List.mem_cons.mp hmem with hfirst | hrest
    · obtain ⟨rfl, rfl⟩ := Prod.mk.inj hfirst
      cases v with
      | none =>
        have hrest := get?_ofFields_of_notMem hnodup.1
        unfold ofFields get? at hrest ⊢
        rw [List.filterMap_cons]
        exact hrest
      | some w =>
        unfold ofFields get?
        rw [List.filterMap_cons]
        simp
    · have hne : key₀ ≠ key := by
        rintro rfl
        exact hnodup.1 (List.mem_map.mpr ⟨_, hrest, rfl⟩)
      have htail := ih hnodup.2 hrest
      unfold ofFields get? at htail ⊢
      rw [List.filterMap_cons]
      cases v₀ with
      | none => exact htail
      | some w =>
        dsimp only [Option.map_some]
        rw [List.find?_cons_of_neg (by simpa using hne)]
        exact htail

end Json
