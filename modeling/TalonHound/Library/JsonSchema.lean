import TalonHound.Library.JsonText

/-!
# Canonical order and schemas

Sorting the keys of a document makes objects with the same entries equal. A schema reads a document:
it checks values, drops the keys it does not know and fills in defaults. What it returns it reads
again unchanged, in any order of keys.
-/

namespace Json

open Option List

mutual

/-- The document with the keys of all objects in order. An assignment to `__proto__` adds no key. -/
def sortValue : Json → Json
  | arr items => arr (sortItems items)
  | obj entries => obj ((sortEntries entries).insertionSort fun a b => a.1 ≤ b.1)
  | null => null
  | bool b => bool b
  | num t => num t
  | str s => str s
termination_by structural v => v

/-- The items, each sorted. -/
def sortItems : List Json → List Json
  | [] => []
  | v :: items => sortValue v :: sortItems items
termination_by structural items => items

/-- The entries, each sorted; `__proto__` is never an own key of the copy. -/
def sortEntries : List (String × Json) → List (String × Json)
  | [] => []
  | (key, v) :: entries =>
    if key = "__proto__" then sortEntries entries else (key, sortValue v) :: sortEntries entries
termination_by structural entries => entries

end

/-- The value of a key among entries. -/
def valueOf (key : String) : List (String × Json) → Option Json
  | [] => none
  | e :: entries => if e.1 = key then some e.2 else valueOf key entries

/-- Neither a list nor an object. -/
def isScalar : Json → Bool
  | arr _ => false
  | obj _ => false
  | _ => true

variable {v w : Json} {key : String} {items : List Json} {entries entries' : List (String × Json)}

/-- The items are sorted one by one. -/
theorem sortItems_eq_map : sortItems items = items.map sortValue := by
  induction items with
  | nil => rfl
  | cons v items ih => rw [sortItems, ih, map_cons]

/-- A scalar is sorted already. -/
theorem sortValue_of_isScalar (h : v.isScalar) : v.sortValue = v := by
  cases v with
  | arr items => cases h
  | obj entries => cases h
  | _ => rfl

/-- A key of an object is one of its entries. -/
theorem get?_obj : (obj entries).get? key = valueOf key entries := by
  induction entries with
  | nil => rfl
  | cons e entries ih =>
    unfold get? at ih ⊢
    by_cases hkey : e.1 = key <;> simp [valueOf, hkey, ← ih]

/-- A value found is an entry. -/
theorem mem_of_valueOf (h : valueOf key entries = some v) : (key, v) ∈ entries := by
  induction entries with
  | nil => cases h
  | cons e entries ih =>
    unfold valueOf at h
    split at h
    · next hkey =>
      cases h
      rw [← hkey]
      exact mem_cons_self
    · exact mem_cons_of_mem _ (ih h)

/-- With distinct keys every entry is found. -/
theorem valueOf_eq_some (hkeys : (entries.map Prod.fst).Nodup) (h : (key, v) ∈ entries) :
    valueOf key entries = some v := by
  induction entries with
  | nil => cases h
  | cons e entries ih =>
    rw [map_cons, nodup_cons] at hkeys
    rcases mem_cons.mp h with rfl | hrest
    · simp [valueOf]
    · unfold valueOf
      rw [if_neg, ih hkeys.2 hrest]
      rintro rfl
      exact hkeys.1 (mem_map.mpr ⟨_, hrest, rfl⟩)

/-- A value is missing exactly when its key is. -/
theorem valueOf_eq_none_iff : valueOf key entries = none ↔ key ∉ entries.map Prod.fst := by
  induction entries with
  | nil => simp [valueOf]
  | cons e entries ih =>
    unfold valueOf
    split
    · next hkey => simp [hkey]
    · next hkey =>
      rw [ih, map_cons, mem_cons]
      simp [Ne.symm hkey]

/-- The order of the entries does not matter. -/
theorem valueOf_perm (hkeys : (entries.map Prod.fst).Nodup) (hperm : entries.Perm entries') :
    valueOf key entries = valueOf key entries' := by
  cases hvalue : valueOf key entries with
  | none =>
    rw [eq_comm, valueOf_eq_none_iff]
    rw [valueOf_eq_none_iff] at hvalue
    rwa [← (hperm.map Prod.fst).mem_iff]
  | some v =>
    rw [eq_comm]
    exact valueOf_eq_some ((hperm.map Prod.fst).nodup hkeys) (hperm.mem_iff.mp (mem_of_valueOf hvalue))

/-- The entries of the sorted object. -/
theorem mem_sortEntries {e : String × Json} :
    e ∈ sortEntries entries ↔ e.1 ≠ "__proto__" ∧ ∃ v, (e.1, v) ∈ entries ∧ v.sortValue = e.2 := by
  induction entries with
  | nil => simp [sortEntries]
  | cons f entries ih =>
    obtain ⟨key, v⟩ := f
    unfold sortEntries
    split
    · next hproto =>
      rw [ih]
      refine and_congr_right fun hne => exists_congr fun w => and_congr_left fun _ => ?_
      rw [mem_cons, Prod.mk.injEq]
      refine ⟨.inr, fun h => h.resolve_left ?_⟩
      rintro ⟨heq, -⟩
      exact hne (heq.trans hproto)
    · next hproto =>
      rw [mem_cons, ih]
      constructor
      · rintro (rfl | ⟨hne, w, hw, hsort⟩)
        · exact ⟨hproto, v, mem_cons_self, rfl⟩
        · exact ⟨hne, w, mem_cons_of_mem _ hw, hsort⟩
      · rintro ⟨hne, w, hw, hsort⟩
        rcases mem_cons.mp hw with heq | hw
        · obtain ⟨hkey, rfl⟩ := Prod.mk.inj heq
          exact .inl (Prod.ext hkey hsort.symm)
        · exact .inr ⟨hne, w, hw, hsort⟩

/-- Sorting values keeps the keys' order. -/
theorem keys_sortEntries_sublist :
    ((sortEntries entries).map Prod.fst).Sublist (entries.map Prod.fst) := by
  induction entries with
  | nil => exact .slnil
  | cons f entries ih =>
    obtain ⟨key, v⟩ := f
    unfold sortEntries
    split
    · exact ih.cons _
    · exact ih.cons_cons _

/-- Sorting repeats no key. -/
theorem nodup_sortEntries (h : (entries.map Prod.fst).Nodup) :
    ((sortEntries entries).map Prod.fst).Nodup := h.sublist keys_sortEntries_sublist

/-- Objects with the same entries in their canonical order are equal. -/
theorem sortValue_obj_congr (hkeys : (entries.map Prod.fst).Nodup)
    (hkeys' : (entries'.map Prod.fst).Nodup)
    (h : ∀ e, e ∈ sortEntries entries ↔ e ∈ sortEntries entries') :
    (obj entries).sortValue = (obj entries').sortValue := by
  have hnodup := nodup_sortEntries hkeys
  have hnodup' := nodup_sortEntries hkeys'
  have hperm : (sortEntries entries).Perm (sortEntries entries') :=
    (perm_ext_iff_of_nodup hnodup.of_map hnodup'.of_map).mpr h
  have hsort := perm_insertionSort (fun a b : String × Json => a.1 ≤ b.1) (sortEntries entries)
  have hsort' := perm_insertionSort (fun a b : String × Json => a.1 ≤ b.1) (sortEntries entries')
  rw [sortValue, sortValue]
  congr 1
  refine List.Perm.eq_of_pairwise ?_ (pairwise_insertionSort _ _)
    (pairwise_insertionSort _ _) (hsort.trans (hperm.trans hsort'.symm))
  intro a b ha hb hab hba
  have hkey : a.1 = b.1 := le_antisymm hab hba
  have hmem := hperm.mem_iff.mpr (hsort'.mem_iff.mp hb)
  have hvalue := valueOf_eq_some hnodup (hsort.mem_iff.mp ha)
  have hvalue' := valueOf_eq_some hnodup hmem
  rw [hkey] at hvalue
  rw [hvalue] at hvalue'
  exact Prod.ext hkey (Option.some.inj hvalue')

/-- Sorting keeps a value well formed. -/
theorem wellFormed_sortValue (hv : WellFormed v) : WellFormed v.sortValue := by
  induction hv with
  | arr items _ ih =>
    rw [sortValue, sortItems_eq_map]
    refine .arr _ fun w hw => ?_
    obtain ⟨v, hv, rfl⟩ := mem_map.mp hw
    exact ih v hv
  | obj entries hkeys _ ih =>
    have hperm := perm_insertionSort (fun a b : String × Json => a.1 ≤ b.1) (sortEntries entries)
    rw [sortValue]
    refine .obj _ ((hperm.map Prod.fst).nodup_iff.mpr (nodup_sortEntries hkeys)) fun e he => ?_
    obtain ⟨-, v, hv, hsort⟩ := mem_sortEntries.mp (hperm.mem_iff.mp he)
    rw [← hsort]
    exact ih _ hv
  | null => exact .null
  | bool b => exact .bool b
  | num t hne hchars => exact .num t hne hchars
  | str s => exact .str s

/-- What a field may be besides being there. -/
inductive Presence
  | required | optional
  | default (v : Json)

/-- A schema of documents; a leaf accepts some of the values that are neither arrays nor objects. -/
inductive Schema
  | leaf (accepts : Json → Bool)
  | nullable (schema : Schema)
  | array (max : ℕ) (item : Schema)
  | object (fields : List (String × Presence × Schema))

mutual

/-- `safeParse`: the document without unknown keys and with its defaults. -/
def Schema.parse : Schema → Json → Option Json
  | .leaf accepts, v => if v.isScalar && accepts v then some v else none
  | .nullable schema, v => match v with
    | null => some null
    | v => schema.parse v
  | .array max item, v => match v with
    | arr items => if items.length ≤ max then (items.mapM item.parse).map arr else none
    | _ => none
  | .object fields, v => match v with
    | obj entries => (parseFields fields entries).map obj
    | _ => none
termination_by structural schema => schema

/-- Unknown keys are stripped, absent ones get their default. -/
def parseFields : List (String × Presence × Schema) → List (String × Json) →
    Option (List (String × Json))
  | [], _ => some []
  | (key, presence, schema) :: fields, entries => match valueOf key entries with
    | some v => (schema.parse v).bind fun w => (parseFields fields entries).map ((key, w) :: ·)
    | none => match presence with
      | .required => none
      | .optional => parseFields fields entries
      | .default d => (parseFields fields entries).map ((key, d) :: ·)
termination_by structural fields => fields

end

/-- A schema whose keys differ, and which reads each default again as it is. -/
inductive Schema.Valid : Schema → Prop
  | leaf (accepts : Json → Bool) : Valid (leaf accepts)
  | nullable {schema : Schema} (h : Valid schema) : Valid (nullable schema)
  | array {max : ℕ} {item : Schema} (h : Valid item) : Valid (array max item)
  | object {fields : List (String × Presence × Schema)} (hkeys : (fields.map Prod.fst).Nodup)
      (hproto : "__proto__" ∉ fields.map Prod.fst) (h : ∀ field ∈ fields, Valid field.2.2)
      (hdefault : ∀ field ∈ fields, ∀ d, field.2.1 = .default d →
        WellFormed d ∧ field.2.2.parse d.sortValue = some d) : Valid (object fields)

variable {schema : Schema} {fields : List (String × Presence × Schema)} {presence : Presence}

/-- The results stand in the order of the elements. -/
theorem forall₂_of_mapM {α β : Type*} {f : α → Option β} {l : List α} {l' : List β}
    (h : l.mapM f = some l') : List.Forall₂ (fun a b => f a = some b) l l' := by
  induction l generalizing l' with
  | nil =>
    cases h
    exact .nil
  | cons a l ih =>
    rw [mapM_cons] at h
    obtain ⟨b, hb, h⟩ := bind_eq_some_iff.mp h
    obtain ⟨rest, hrest, h⟩ := bind_eq_some_iff.mp h
    cases h
    exact .cons hb (ih hrest)

/-- A partial map that is defined everywhere. -/
theorem mapM_of_forall₂ {α β : Type*} {f : α → Option β} {l : List α} {l' : List β}
    (h : List.Forall₂ (fun a b => f a = some b) l l') : l.mapM f = some l' := by
  induction h with
  | nil => rfl
  | cons hb _ ih =>
    rw [mapM_cons, hb, ih]
    rfl

/-- What a partial map returns comes from the list. -/
theorem exists_of_mem_mapM {α β : Type*} {f : α → Option β} {l : List α} {l' : List β} {b : β}
    (h : l.mapM f = some l') (hb : b ∈ l') : ∃ a ∈ l, f a = some b := by
  obtain ⟨i, hi, rfl⟩ := getElem_of_mem hb
  obtain ⟨hlength, hget⟩ := List.forall₂_iff_get.mp (forall₂_of_mapM h)
  exact ⟨l[i], getElem_mem _, hget i (by omega) hi⟩

/-- The entry of a field has what the schema reads, or the default. -/
def Presence.Reads (presence : Presence) (schema : Schema) (value : Option Json) (w : Json) : Prop :=
  (∃ v, value = some v ∧ schema.parse v = some w) ∨ (value = none ∧ presence = .default w)

/-- The first field gives the first entry, or it is optional and absent. -/
theorem parseFields_cons
    (h : parseFields ((key, presence, schema) :: fields) entries = some entries') :
    ∃ rest, parseFields fields entries = some rest ∧
      ((∃ w, entries' = (key, w) :: rest ∧ presence.Reads schema (valueOf key entries) w) ∨
        (entries' = rest ∧ valueOf key entries = none ∧ presence = .optional)) := by
  unfold parseFields at h
  split at h
  · next v hvalue =>
    obtain ⟨w, hparse, h⟩ := bind_eq_some_iff.mp h
    obtain ⟨rest, hrest, rfl⟩ := map_eq_some_iff.mp h
    exact ⟨rest, hrest, .inl ⟨w, rfl, .inl ⟨v, hvalue, hparse⟩⟩⟩
  · next hvalue =>
    split at h
    · cases h
    · exact ⟨entries', h, .inr ⟨rfl, hvalue, rfl⟩⟩
    · obtain ⟨rest, hrest, rfl⟩ := map_eq_some_iff.mp h
      exact ⟨rest, hrest, .inl ⟨_, rfl, .inr ⟨hvalue, rfl⟩⟩⟩

/-- What the entry of an object was read from. -/
theorem mem_parseFields (h : parseFields fields entries = some entries')
    (hmem : (key, w) ∈ entries') :
    ∃ presence schema, (key, presence, schema) ∈ fields ∧
      presence.Reads schema (valueOf key entries) w := by
  induction fields generalizing entries' with
  | nil =>
    cases h
    cases hmem
  | cons field fields ih =>
    obtain ⟨rest, hrest, hfirst⟩ := parseFields_cons h
    have hlater (hin : (key, w) ∈ rest) : ∃ presence schema, (key, presence, schema) ∈
        field :: fields ∧ presence.Reads schema (valueOf key entries) w := by
      obtain ⟨presence, schema, hfield, hread⟩ := ih hrest hin
      exact ⟨presence, schema, mem_cons_of_mem _ hfield, hread⟩
    rcases hfirst with ⟨w₀, rfl, hread⟩ | ⟨rfl, -⟩
    · rcases mem_cons.mp hmem with heq | hin
      · obtain ⟨rfl, rfl⟩ := Prod.mk.inj heq
        exact ⟨_, _, mem_cons_self, hread⟩
      · exact hlater hin
    · exact hlater hmem

/-- The entries have keys of the schema, in its order. -/
theorem keys_parseFields_sublist (h : parseFields fields entries = some entries') :
    (entries'.map Prod.fst).Sublist (fields.map Prod.fst) := by
  induction fields generalizing entries' with
  | nil =>
    cases h
    exact .slnil
  | cons field fields ih =>
    obtain ⟨rest, hrest, ⟨w, rfl, -⟩ | ⟨rfl, -⟩⟩ := parseFields_cons h
    · exact (ih hrest).cons_cons _
    · exact (ih hrest).cons _

/-- What a valid schema returns is well formed. -/
theorem wellFormed_parse (hvalid : schema.Valid) (hv : WellFormed v) (h : schema.parse v = some w) :
    WellFormed w := by
  induction hvalid generalizing v w with
  | leaf accepts =>
    unfold Schema.parse at h
    split at h
    · cases h
      exact hv
    · cases h
  | nullable _ ih =>
    unfold Schema.parse at h
    split at h
    · cases h
      exact .null
    · exact ih hv h
  | array _ ih =>
    unfold Schema.parse at h
    split at h
    · next items =>
      split at h
      · obtain ⟨items', hitems, rfl⟩ := map_eq_some_iff.mp h
        cases hv with
        | arr _ hitems₀ =>
          refine .arr _ fun w hw => ?_
          obtain ⟨v, hv, hparse⟩ := exists_of_mem_mapM hitems hw
          exact ih (hitems₀ v hv) hparse
      · cases h
    · cases h
  | object hkeys _ _ hdefault ih =>
    unfold Schema.parse at h
    split at h
    · next entries =>
      obtain ⟨entries', hentries, rfl⟩ := map_eq_some_iff.mp h
      cases hv with
      | obj _ _ hvalues =>
        refine .obj _ (hkeys.sublist (keys_parseFields_sublist hentries)) fun e he => ?_
        obtain ⟨presence, schema, hfield, ⟨v, hvalue, hparse⟩ | ⟨-, hpresence⟩⟩ :=
          mem_parseFields hentries he
        · exact ih _ hfield (hvalues _ (mem_of_valueOf hvalue)) hparse
        · exact (hdefault _ hfield _ hpresence).1
    · cases h

/-- Every field that is there is read. -/
theorem mem_of_field (h : parseFields fields entries = some entries')
    (hfield : (key, presence, schema) ∈ fields) (hvalue : valueOf key entries = some v) :
    ∃ w, schema.parse v = some w ∧ (key, w) ∈ entries' := by
  induction fields generalizing entries' with
  | nil => cases hfield
  | cons field fields ih =>
    obtain ⟨rest, hrest, hfirst⟩ := parseFields_cons h
    rcases mem_cons.mp hfield with rfl | hin
    · rcases hfirst with ⟨w, rfl, ⟨v', hvalue', hparse⟩ | ⟨hnone, -⟩⟩ | ⟨-, hnone, -⟩
      · obtain rfl := Option.some.inj (hvalue.symm.trans hvalue')
        exact ⟨w, hparse, mem_cons_self⟩
      · simp [hvalue] at hnone
      · simp [hvalue] at hnone
    · obtain ⟨w, hparse, hw⟩ := ih hrest hin
      refine ⟨w, hparse, ?_⟩
      rcases hfirst with ⟨w₀, rfl, -⟩ | ⟨rfl, -⟩
      · exact mem_cons_of_mem _ hw
      · exact hw

/-- A field that is there is read by its schema. -/
theorem valueOf_parseFields (hkeys : (fields.map Prod.fst).Nodup)
    (h : parseFields fields entries = some entries') (hfield : (key, presence, schema) ∈ fields)
    (hvalue : valueOf key entries = some v) :
    ∃ w, schema.parse v = some w ∧ valueOf key entries' = some w := by
  obtain ⟨w, hparse, hw⟩ := mem_of_field h hfield hvalue
  exact ⟨w, hparse, valueOf_eq_some (hkeys.sublist (keys_parseFields_sublist h)) hw⟩

/-- A required field is there. -/
theorem valueOf_of_required (h : parseFields fields entries = some entries')
    (hfield : (key, .required, schema) ∈ fields) : ∃ v, valueOf key entries = some v := by
  induction fields generalizing entries' with
  | nil => cases hfield
  | cons field fields ih =>
    obtain ⟨rest, hrest, hfirst⟩ := parseFields_cons h
    rcases mem_cons.mp hfield with rfl | hin
    · rcases hfirst with ⟨w, -, ⟨v, hvalue, -⟩ | ⟨-, hdefault⟩⟩ | ⟨-, -, hoptional⟩
      · exact ⟨v, hvalue⟩
      · cases hdefault
      · cases hoptional
    · exact ih hrest hin

/-- A value of the sorted object is the sorted value. -/
theorem valueOf_sortEntries (hkeys : (entries.map Prod.fst).Nodup) (hproto : key ≠ "__proto__") :
    valueOf key (sortEntries entries) = (valueOf key entries).map sortValue := by
  cases hvalue : valueOf key entries with
  | none =>
    rw [valueOf_eq_none_iff] at hvalue
    rw [map_none, valueOf_eq_none_iff]
    exact fun hin => hvalue (keys_sortEntries_sublist.subset hin)
  | some v =>
    refine valueOf_eq_some (nodup_sortEntries hkeys) (mem_sortEntries.mpr ⟨hproto, v, ?_, rfl⟩)
    exact mem_of_valueOf hvalue

/-- Sorting an object sorts the values of its keys. -/
theorem valueOf_sorted (hkeys : (entries.map Prod.fst).Nodup) (hproto : key ≠ "__proto__") :
    valueOf key ((sortEntries entries).insertionSort fun a b => a.1 ≤ b.1) =
      (valueOf key entries).map sortValue := by
  rw [← valueOf_sortEntries hkeys hproto]
  exact (valueOf_perm (nodup_sortEntries hkeys) (perm_insertionSort _ _).symm).symm

/-- A sorted copy of what was read is read the same. -/
theorem parseFields_again (hkeys : (fields.map Prod.fst).Nodup)
    (h : parseFields fields entries = some entries') {sorted : List (String × Json)}
    (hsorted : ∀ key ∈ fields.map Prod.fst, valueOf key sorted = (valueOf key entries').map sortValue)
    (hread : ∀ key presence schema w, (key, presence, schema) ∈ fields → (key, w) ∈ entries' →
      schema.parse w.sortValue = some w) :
    parseFields fields sorted = some entries' := by
  induction fields generalizing entries' with
  | nil => exact h
  | cons field fields ih =>
    obtain ⟨key₀, presence₀, schema₀⟩ := field
    rw [map_cons, nodup_cons] at hkeys
    obtain ⟨rest, hrest, ⟨w₀, rfl, -⟩ | ⟨rfl, -, rfl⟩⟩ := parseFields_cons h
    · -- the first entry, with the rest read by the other fields
      have hvalue := hsorted key₀ mem_cons_self
      rw [show valueOf key₀ ((key₀, w₀) :: rest) = some w₀ by simp [valueOf], map_some] at hvalue
      have hparse := hread key₀ _ _ w₀ mem_cons_self mem_cons_self
      have hagain : parseFields fields sorted = some rest := by
        refine ih hkeys.2 hrest (fun key hkey => ?_) fun key presence schema w hfield hin =>
          hread key presence schema w (.tail _ hfield) (.tail _ hin)
        rw [hsorted key (.tail _ hkey)]
        have hne : key₀ ≠ key := by
          rintro rfl
          exact hkeys.1 hkey
        simp [valueOf, hne]
      simp only [parseFields, hvalue, hparse, hagain, bind_some, map_some]
    · have hagain := ih hkeys.2 hrest (fun key hkey => hsorted key (.tail _ hkey))
        fun key presence schema w hfield => hread key presence schema w (.tail _ hfield)
      have hnone : valueOf key₀ sorted = none := by
        rw [hsorted key₀ mem_cons_self, map_eq_none_iff, valueOf_eq_none_iff]
        exact fun hin => hkeys.1 ((keys_parseFields_sublist hrest).subset hin)
      simpa only [parseFields, hnone] using hagain

/-- What a valid schema returns it reads again as it is, with its keys in order. -/
theorem parse_sortValue (hvalid : schema.Valid) (h : schema.parse v = some w) :
    schema.parse w.sortValue = some w := by
  induction hvalid generalizing v w with
  | leaf accepts =>
    unfold Schema.parse at h
    split at h
    · next haccepts =>
      cases h
      have hscalar := (Bool.and_eq_true_iff.mp haccepts).1
      rw [sortValue_of_isScalar hscalar, Schema.parse, if_pos haccepts]
    · cases h
  | @nullable schema _ ih =>
    unfold Schema.parse at h
    split at h
    · cases h
      rfl
    · have hagain := ih h
      cases w with
      | null => rfl
      | _ => exact hagain
  | @array max item _ ih =>
    unfold Schema.parse at h
    split at h
    · next items =>
      split at h
      · next hmax =>
        obtain ⟨items', hitems, rfl⟩ := map_eq_some_iff.mp h
        have hforall := forall₂_of_mapM hitems
        have hlength := hforall.length_eq
        have hagain : (items'.map sortValue).mapM item.parse = some items' := by
          refine mapM_of_forall₂ ?_
          rw [List.forall₂_map_left_iff]
          refine List.forall₂_same.mpr fun w hw => ?_
          obtain ⟨v, -, hparse⟩ := exists_of_mem_mapM hitems hw
          exact ih hparse
        rw [sortValue, sortItems_eq_map, Schema.parse, if_pos (by rw [length_map]; omega), hagain]
        rfl
      · cases h
    · cases h
  | @object fields hkeys hproto _ hdefault ih =>
    unfold Schema.parse at h
    split at h
    · next entries =>
      obtain ⟨entries', hentries, rfl⟩ := map_eq_some_iff.mp h
      have hkeys' := hkeys.sublist (keys_parseFields_sublist hentries)
      have hsorted : ∀ key ∈ fields.map Prod.fst,
          valueOf key ((sortEntries entries').insertionSort fun a b => a.1 ≤ b.1) =
            (valueOf key entries').map sortValue := by
        intro key hkey
        refine valueOf_sorted hkeys' ?_
        rintro rfl
        exact hproto hkey
      have hread : ∀ key presence schema w, (key, presence, schema) ∈ fields →
          (key, w) ∈ entries' → schema.parse w.sortValue = some w := by
        intro key presence schema w hfield hin
        obtain ⟨presence', schema', hfield', hread⟩ := mem_parseFields hentries hin
        have hsame : (key, presence', schema') = (key, presence, schema) :=
          inj_on_of_nodup_map hkeys hfield' hfield rfl
        obtain ⟨rfl, rfl⟩ := Prod.mk.inj (Prod.mk.inj hsame).2
        rcases hread with ⟨v, -, hparse⟩ | ⟨-, hpresence⟩
        · exact ih _ hfield hparse
        · exact (hdefault _ hfield _ hpresence).2
      rw [sortValue, Schema.parse, parseFields_again hkeys hentries hsorted hread]
      rfl
    · cases h

/-- The entry of a key, read again by the schema of its field. -/
theorem parse_entry (hvalid : (Schema.object fields).Valid)
    (h : parseFields fields entries = some entries') (hin : (key, w) ∈ entries') :
    ∃ presence schema, (key, presence, schema) ∈ fields ∧ schema.parse w.sortValue = some w := by
  cases hvalid with
  | object hkeys hproto hfields hdefault =>
    obtain ⟨presence, schema, hfield, ⟨v, -, hparse⟩ | ⟨-, hpresence⟩⟩ := mem_parseFields h hin
    · exact ⟨presence, schema, hfield, parse_sortValue (hfields _ hfield) hparse⟩
    · exact ⟨presence, schema, hfield, (hdefault _ hfield _ hpresence).2⟩

mutual

/-- Every key is one of the schema, and every field with a default is there. -/
def Schema.keeps : Schema → Json → Bool
  | .leaf _, _ => true
  | .nullable schema, v => match v with
    | null => true
    | v => schema.keeps v
  | .array _ item, v => match v with
    | arr items => items.all item.keeps
    | _ => true
  | .object fields, v => match v with
    | obj entries =>
      entries.all (fun e => e.1 = "__proto__" || (fields.map Prod.fst).contains e.1) &&
        keepsFields fields entries
    | _ => true
termination_by structural schema => schema

/-- Every value is kept and no default fills a gap. -/
def keepsFields : List (String × Presence × Schema) → List (String × Json) → Bool
  | [], _ => true
  | (key, presence, schema) :: fields, entries => keepsFields fields entries &&
    match valueOf key entries with
    | some v => schema.keeps v
    | none => match presence with
      | .default _ => false
      | _ => true
termination_by structural fields => fields

end

/-- What that says of one field. -/
theorem of_keepsFields (h : keepsFields fields entries)
    (hfield : (key, presence, schema) ∈ fields) :
    (∀ v, valueOf key entries = some v → schema.keeps v) ∧
      ∀ w, presence = .default w → valueOf key entries ≠ none := by
  induction fields with
  | nil => cases hfield
  | cons field fields ih =>
    obtain ⟨hrest, hfirst⟩ := Bool.and_eq_true_iff.mp h
    rcases mem_cons.mp hfield with rfl | hfield
    · refine ⟨fun v hvalue => ?_, ?_⟩
      · rwa [hvalue] at hfirst
      · rintro w rfl hnone
        rw [hnone] at hfirst
        cases hfirst
    · exact ih hrest hfield

/-- Items read without change sort alike. -/
theorem sortItems_of_forall₂ {items' : List Json}
    (hitems : List.Forall₂ (fun v w => schema.parse v = some w) items items')
    (hsame : ∀ v ∈ items, ∀ w, schema.parse v = some w → v.sortValue = w.sortValue) :
    items.map sortValue = items'.map sortValue := by
  induction hitems with
  | nil => rfl
  | cons hparse _ ih =>
    rw [map_cons, map_cons, hsame _ mem_cons_self _ hparse, ih fun v hv => hsame v (.tail _ hv)]

/-- A document that is kept is returned with its keys in another order at most. -/
theorem sortValue_of_keeps (hvalid : schema.Valid) (hv : WellFormed v) (h : schema.parse v = some w)
    (hkeeps : schema.keeps v) : w.sortValue = v.sortValue := by
  induction hvalid generalizing v w with
  | leaf accepts =>
    unfold Schema.parse at h
    split at h
    · rw [Option.some.inj h]
    · cases h
  | nullable _ ih =>
    unfold Schema.parse at h
    split at h
    · rw [← Option.some.inj h]
    · next hne =>
      unfold Schema.keeps at hkeeps
      split at hkeeps
      · exact absurd rfl hne
      · exact ih hv h hkeeps
  | array _ ih =>
    unfold Schema.parse at h
    split at h
    · next items =>
      split at h
      · obtain ⟨items', hitems, rfl⟩ := map_eq_some_iff.mp h
        cases hv with
        | arr _ hwell =>
          rw [sortValue, sortValue, sortItems_eq_map, sortItems_eq_map]
          congr 1
          refine (sortItems_of_forall₂ (forall₂_of_mapM hitems) fun v hv w hparse => ?_).symm
          exact (ih (hwell v hv) hparse (all_eq_true.mp hkeeps v hv)).symm
      · cases h
    · cases h
  | @object fields hkeys hproto _ hdefault ih =>
    unfold Schema.parse at h
    split at h
    · next entries =>
      obtain ⟨entries', hentries, rfl⟩ := map_eq_some_iff.mp h
      cases hv with
      | obj _ hnodup hwell =>
        obtain ⟨hknown, hfields⟩ := Bool.and_eq_true_iff.mp hkeeps
        refine sortValue_obj_congr (hkeys.sublist (keys_parseFields_sublist hentries)) hnodup
          fun e => ?_
        rw [mem_sortEntries, mem_sortEntries]
        refine and_congr_right fun hne => ⟨?_, ?_⟩
        · rintro ⟨w, hw, hsort⟩
          obtain ⟨presence, schema, hfield, ⟨v, hvalue, hparse⟩ | ⟨hnone, rfl⟩⟩ :=
            mem_parseFields hentries hw
          · have hmem := mem_of_valueOf hvalue
            refine ⟨v, hmem, ?_⟩
            rw [← ih _ hfield (hwell _ hmem) hparse ((of_keepsFields hfields hfield).1 _ hvalue)]
            exact hsort
          · exact absurd hnone ((of_keepsFields hfields hfield).2 _ rfl)
        · rintro ⟨v, hv, hsort⟩
          have hkey : e.1 ∈ fields.map Prod.fst := by
            simpa [hne] using all_eq_true.mp hknown _ hv
          obtain ⟨⟨key, presence, schema⟩, hfield, rfl⟩ := mem_map.mp hkey
          have hvalue := valueOf_eq_some hnodup hv
          obtain ⟨w, hparse, hw⟩ := mem_of_field hentries hfield hvalue
          refine ⟨w, hw, ?_⟩
          rw [ih _ hfield (hwell _ hv) hparse ((of_keepsFields hfields hfield).1 _ hvalue)]
          exact hsort
    · cases h

/-- The object without a key. -/
def eraseKey (dropped : String) : Json → Json
  | obj entries => obj (entries.filter fun e => e.1 ≠ dropped)
  | v => v

variable {dropped : String}

/-- Other keys keep their values. -/
theorem valueOf_filter (hne : key ≠ dropped) :
    valueOf key (entries.filter fun e => e.1 ≠ dropped) = valueOf key entries := by
  induction entries with
  | nil => rfl
  | cons e entries ih =>
    by_cases hdropped : e.1 = dropped
    · rw [filter_cons_of_neg (by simpa using hdropped), ih, valueOf, if_neg]
      rw [hdropped]
      exact Ne.symm hne
    · rw [filter_cons_of_pos (by simpa using hdropped), valueOf, valueOf, ih]

/-- Without a key the value stays well formed. -/
theorem wellFormed_eraseKey (hv : WellFormed v) : WellFormed (v.eraseKey dropped) := by
  cases hv with
  | obj _ hkeys hvalues =>
    refine .obj _ (hkeys.sublist (filter_sublist.map _)) fun e he => ?_
    exact hvalues e (mem_of_mem_filter he)
  | null => exact .null
  | bool b => exact .bool b
  | num t hne hchars => exact .num t hne hchars
  | str s => exact .str s
  | arr items hitems => exact .arr items hitems

/-- Without a key the schema stays valid. -/
theorem valid_filter (hvalid : (Schema.object fields).Valid) :
    (Schema.object (fields.filter fun field => field.1 ≠ dropped)).Valid := by
  cases hvalid with
  | object hkeys hproto hfields hdefault =>
    have hsublist : (fields.filter fun field => field.1 ≠ dropped).Sublist fields := filter_sublist
    exact .object (hkeys.sublist (hsublist.map _)) (fun hin => hproto ((hsublist.map _).subset hin))
      (fun field hfield => hfields field (hsublist.subset hfield))
      fun field hfield => hdefault field (hsublist.subset hfield)

/-- The other fields read the other keys. -/
theorem parseFields_filter (h : parseFields fields entries = some entries') :
    parseFields (fields.filter fun field => field.1 ≠ dropped)
      (entries.filter fun e => e.1 ≠ dropped) = some (entries'.filter fun e => e.1 ≠ dropped) := by
  induction fields generalizing entries' with
  | nil =>
    cases h
    rfl
  | cons field fields ih =>
    obtain ⟨key₀, presence₀, schema₀⟩ := field
    obtain ⟨rest, hrest, hfirst⟩ := parseFields_cons h
    have hagain := ih hrest
    by_cases hdropped : key₀ = dropped
    · rw [filter_cons_of_neg (by simpa using hdropped), hagain]
      rcases hfirst with ⟨w, rfl, -⟩ | ⟨rfl, -⟩
      · rw [filter_cons_of_neg (by simpa using hdropped)]
      · rfl
    · rw [filter_cons_of_pos (by simpa using hdropped)]
      have hsame : valueOf key₀ (entries.filter fun e => e.1 ≠ dropped) = valueOf key₀ entries :=
        valueOf_filter hdropped
      unfold parseFields
      rw [hsame]
      rcases hfirst with ⟨w, rfl, ⟨v, hvalue, hparse⟩ | ⟨hnone, rfl⟩⟩ | ⟨rfl, hnone, rfl⟩
      · rw [filter_cons_of_pos (by simpa using hdropped)]
        simp only [hvalue, hparse, hagain, bind_some, map_some]
      · rw [filter_cons_of_pos (by simpa using hdropped)]
        simp only [hnone, hagain, map_some]
      · simp only [hnone, hagain]

/-- Without the key, what the schema returns is what it was given, up to the order of keys. -/
theorem sortValue_eraseKey_of_keeps (hvalid : (Schema.object fields).Valid) (hv : WellFormed v)
    (h : (Schema.object fields).parse v = some w)
    (hkeeps : (Schema.object (fields.filter fun field => field.1 ≠ dropped)).keeps
      (v.eraseKey dropped)) :
    (w.eraseKey dropped).sortValue = (v.eraseKey dropped).sortValue := by
  refine sortValue_of_keeps (valid_filter hvalid) (wellFormed_eraseKey hv) ?_ hkeeps
  unfold Schema.parse at h
  split at h
  · obtain ⟨entries', hentries, rfl⟩ := map_eq_some_iff.mp h
    rw [eraseKey, Schema.parse, parseFields_filter hentries]
    rfl
  · cases h

/-- Returned objects that are equal up to the order of keys have the same entries. -/
theorem valueOf_eq_of_sortValue_eq {entries₁ entries₁' entries₂ entries₂' : List (String × Json)}
    (hvalid : (Schema.object fields).Valid) (h₁ : parseFields fields entries₁ = some entries₁')
    (h₂ : parseFields fields entries₂ = some entries₂') (hproto : key ≠ "__proto__")
    (hsort : (obj entries₁').sortValue = (obj entries₂').sortValue) :
    valueOf key entries₁' = valueOf key entries₂' := by
  have hkeys : (fields.map Prod.fst).Nodup := by
    cases hvalid with
    | object hkeys => exact hkeys
  have hvalue₁ := valueOf_sorted (hkeys.sublist (keys_parseFields_sublist h₁)) hproto
  have hvalue₂ := valueOf_sorted (hkeys.sublist (keys_parseFields_sublist h₂)) hproto
  rw [sortValue, sortValue] at hsort
  rw [Json.obj.inj hsort, hvalue₂] at hvalue₁
  cases hw₁ : valueOf key entries₁' with
  | none =>
    rw [hw₁, map_none, map_eq_none_iff] at hvalue₁
    exact hvalue₁.symm
  | some w₁ =>
    rw [hw₁, map_some] at hvalue₁
    obtain ⟨w₂, hw₂, hsame⟩ := map_eq_some_iff.mp hvalue₁
    obtain ⟨presence₁, schema₁, hfield₁, hread₁⟩ := parse_entry hvalid h₁ (mem_of_valueOf hw₁)
    obtain ⟨presence₂, schema₂, hfield₂, hread₂⟩ := parse_entry hvalid h₂ (mem_of_valueOf hw₂)
    have hpair : (key, presence₁, schema₁) = (key, presence₂, schema₂) :=
      inj_on_of_nodup_map hkeys hfield₁ hfield₂ rfl
    obtain ⟨rfl, rfl⟩ := Prod.mk.inj (Prod.mk.inj hpair).2
    rw [hsame, hread₁] at hread₂
    rw [hw₂, Option.some.inj hread₂]

end Json
