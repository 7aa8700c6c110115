import Mathlib.Data.Rat.Defs
import TalonHound.FileArtifacts.SuppressionIndex
import TalonHound.Library.JsonSchema
import TalonHound.ReportAnalysis.Chunks

/-!
# Intelligence bundles and their seal

A bundle is sealed with the hash of its canonical text. The reader checks the seal on the object that
its schema returns.
-/

namespace TalonHound.Thib

open Json (Schema Presence WellFormed)
open FileArtifacts (lowerCase)
open ReportAnalysis (utf16Length)
open Option List

/-- The only value of `format`. -/
def THIB_FORMAT : String := "talonhound-intelligence-bundle"

/-- The traffic light levels a report may carry. -/
def TLP_VALUES : List String := ["clear", "green", "amber", "amber_strict", "red"]

/-- The text without a first `tlp:`. -/
def dropTlp (text : List Char) : List Char :=
  if "tlp:".toList <+: text then text.drop 4 else text

/-- Runs of white space as one underscore. -/
def underscore : List Char → List Char
  | [] => []
  | c :: rest =>
    if isJsWhitespace c then
      if (rest.head?.any isJsWhitespace) then underscore rest else '_' :: underscore rest
    else c :: underscore rest

/-- One spelling for each level; what is none of them counts as clear. -/
def normalizeTlp (value : String) : String :=
  let raw := String.ofList (underscore (dropTlp (lowerCase (trim value)).toList))
  if raw = "white" then "clear"
  else if raw = "amber+strict" ∨ raw = "amber-strict" then "amber_strict"
  else if TLP_VALUES.contains raw then raw
  else "clear"

/-- `z.string().min(min).max(max)`. -/
def text (min max : ℕ) : Schema :=
  .leaf fun v => match v with
    | .str s => min ≤ utf16Length s.toList && utf16Length s.toList ≤ max
    | _ => false

/-- `z.string()`. -/
def anyText : Schema :=
  .leaf fun v => match v with
    | .str _ => true
    | _ => false

/-- `z.enum(values)`. -/
def oneOf (values : List String) : Schema :=
  .leaf fun v => match v with
    | .str s => values.contains s
    | _ => false

/-- `z.number()` with a check of the number that a text denotes. -/
def number (numberOf : String → ℚ) (check : ℚ → Bool) : Schema :=
  .leaf fun v => match v with
    | .num t => check (numberOf t)
    | _ => false

/-- A field of an object schema: its key, whether it must be there, its own schema. -/
abbrev Field := String × Presence × Schema

/-- A field that must be present. -/
def required (key : String) (schema : Schema) : Field := (key, .required, schema)

/-- `schema.optional()`. -/
def optional (key : String) (schema : Schema) : Field := (key, .optional, schema)

/-- `schema.optional().nullable()`. -/
def nullish (key : String) (schema : Schema) : Field := (key, .optional, .nullable schema)

/-- `schema.optional().default(v)`. -/
def withDefault (key : String) (schema : Schema) (v : Json) : Field := (key, .default v, schema)

section schemas

variable (numberOf : String → ℚ)

/-- An id that other instances can refer to. -/
def portableId : Schema := text 8 128

/-- `z.number().min(0).max(1)`. -/
def unitNumber : Schema := number numberOf fun x => 0 ≤ x && x ≤ 1

/-- `z.number().int()`. -/
def integer : Schema := number numberOf fun x => x.den = 1

/-- Where an indicator was seen in its report. -/
def thibEvidenceSchema : Schema := .object
  [nullish "source_assertion" (text 0 64), nullish "evidence_strength" (text 0 32),
    nullish "occurrence_count" (number numberOf fun x => x.den = 1 && 0 ≤ x),
    withDefault "zones" (.array 20 (text 0 64)) (.arr []),
    withDefault "ports" (.array 32 (number numberOf fun x => x.den = 1 && 1 ≤ x && x ≤ 65535))
      (.arr []),
    nullish "url_host" (text 0 253),
    withDefault "pages" (.array 64 (integer numberOf)) (.arr [])]

/-- An indicator of the bundle. -/
def thibIndicatorSchema : Schema := .object
  [required "id" portableId, required "type" (text 1 32), required "value" (text 1 4000),
    withDefault "assessment"
      (oneOf ["malicious", "suspicious", "context_only", "unknown", "invalid"]) (.str "unknown"),
    nullish "role" (text 0 64),
    nullish "confidence" (unitNumber numberOf),
    nullish "evidence_text" (text 0 2000),
    nullish "section" (text 0 300),
    nullish "page_number" (integer numberOf),
    nullish "block_id" (text 0 64),
    nullish "evidence" (thibEvidenceSchema numberOf)]

/-- An actor, a tool or another entity that the report names. -/
def thibEntitySchema : Schema := .object
  [required "id" portableId,
    required "entity_type" (oneOf ["threat_actor", "malware", "campaign", "tool", "vulnerability",
      "infrastructure", "organization", "attack_pattern"]),
    required "name" (text 1 300),
    withDefault "aliases" (.array 30 (text 0 200)) (.arr []),
    nullish "description" (text 0 4000)]

/-- A relationship between two ids of the bundle. -/
def thibRelationshipSchema : Schema := .object
  [required "id" portableId, required "subject_ref" portableId,
    required "relationship_type" (text 1 64),
    required "object_ref" portableId,
    nullish "role" (text 0 64),
    nullish "confidence" (unitNumber numberOf),
    nullish "evidence_text" (text 0 2000),
    nullish "section" (text 0 300),
    nullish "page_number" (integer numberOf),
    nullish "block_id" (text 0 64)]

/-- The report that the bundle carries. -/
def thibReportSchema : Schema := .object
  [required "id" portableId, required "title" (text 1 500),
    nullish "source_type" (oneOf ["url", "pdf", "thib", "other"]),
    nullish "source_name" (text 0 300),
    nullish "source_url" (text 0 2000),
    nullish "source_file_name" (text 0 300),
    nullish "source_sha256" (text 0 128),
    nullish "published_at" (text 0 64),
    nullish "language" (text 0 16),
    withDefault "tlp" (text 0 32) (.str "clear"),
    nullish "tlp_source" (oneOf ["explicit", "default", "manual"]),
    nullish "confidence" (unitNumber numberOf),
    nullish "report_type" (text 0 64),
    nullish "summary" (text 0 20000)]

/-- The members of a bundle, in schema order. -/
def thibBundleFields : List Field :=
  [required "format" (oneOf [THIB_FORMAT]), required "spec_version" (text 1 16),
    required "bundle_id" portableId,
    required "created_at" (text 1 64),
    optional "generator" (.object [required "name" (text 0 100), nullish "version" (text 0 64)]),
    required "report" (thibReportSchema numberOf),
    withDefault "entities" (.array 500 thibEntitySchema) (.arr []),
    withDefault "indicators" (.array 5000 (thibIndicatorSchema numberOf)) (.arr []),
    withDefault "relationships" (.array 5000 (thibRelationshipSchema numberOf)) (.arr []),
    withDefault "references" (.array 50 (.object
      [nullish "title" (text 0 500), nullish "url" (text 0 2000)])) (.arr []),
    optional "integrity" (.object
      [optional "alg" anyText, optional "content_sha256" anyText, optional "hash" anyText])]

/-- The bundle as a whole. -/
def thibBundleSchema : Schema := .object (thibBundleFields numberOf)

end schemas

section integrity

variable (sha256 : String → String)

/-- Keys are sorted at every depth before rendering. -/
def canonicalJsonStringify (value : Json) : String := value.sortValue.render

/-- The hash leaves out the whole `integrity` object. -/
def computeThibContentSha256 (bundle : Json) : String :=
  sha256 (canonicalJsonStringify (bundle.eraseKey "integrity"))

/-- Seals a bundle; an older seal is replaced. -/
def attachThibIntegrity : Json → Json
  | .obj entries =>
    .obj (entries.filter (fun e => e.1 ≠ "integrity") ++
      [("integrity", .obj [("alg", .str "sha256"),
        ("content_sha256", .str (computeThibContentSha256 sha256 (.obj entries)))])])
  | v => v

/-- The value of a key in the `integrity` object. -/
def integrityOf (key : String) (bundle : Json) : Option Json :=
  (bundle.get? "integrity").bind (Json.get? key)

/-- `integrity.content_sha256 || integrity.hash`. -/
def claimedSha256 (bundle : Json) : Option Json :=
  let content := integrityOf "content_sha256" bundle
  if content.any Json.truthy then content else integrityOf "hash" bundle

/-- The claimed hash may be written in either case. -/
def verifyThibIntegrity (bundle : Json) : Except String String :=
  match claimedSha256 bundle with
  | some (.str claimed) =>
    if claimed = "" then .error "Missing integrity.content_sha256"
    else
      let actual := computeThibContentSha256 sha256 bundle
      if actual ≠ lowerCase claimed ∧ actual ≠ claimed then .error "Integrity hash mismatch"
      else .ok actual
  | _ => .error "Missing integrity.content_sha256"

/-- The text of a key, if it has one. -/
def textOf (key : String) (v : Json) : String :=
  match v.get? key with
  | some (.str s) => s
  | _ => ""

/-- The document with another value of a key that it has. -/
def updateKey (key : String) (f : Json → Json) : Json → Json
  | .obj entries => .obj (entries.map fun e => (e.1, if e.1 = key then f e.2 else e.2))
  | v => v

/-- The part of a version before its first dot. -/
def majorOf (version : String) : String := String.ofList (version.toList.takeWhile (· ≠ '.'))

/-- A validated report carries a level of the list. -/
def setTlp (report : Json) : Json :=
  let tlp := normalizeTlp (textOf "tlp" report)
  let tlp := if TLP_VALUES.contains tlp then tlp else "clear"
  updateKey "tlp" (fun _ => .str tlp) report

variable (numberOf : String → ℚ)

/-- Schema, format, major version and seal, in this order; each names its error. -/
def validateThibBundle (raw : Json) : Except String Json :=
  match (thibBundleSchema numberOf).parse raw with
  | none => .error "THIB schema validation failed"
  | some bundle =>
    if textOf "format" bundle ≠ THIB_FORMAT then .error "Invalid format identifier"
    else if majorOf (textOf "spec_version" bundle) ≠ "1" then
      .error ("Unsupported THIB spec_version: " ++ textOf "spec_version" bundle)
    else match verifyThibIntegrity sha256 bundle with
      | .error e => .error e
      | .ok _ => .ok (updateKey "report" setTlp bundle)

/-- A field whose schema is valid and reads its own default. -/
structure ValidField (field : Field) : Prop where
  schema : field.2.2.Valid
  default : ∀ d, field.2.1 = .default d → WellFormed d ∧ field.2.2.parse d.sortValue = some d

variable {key : String} {schema : Schema} {fields : List Field}

/-- A required field is valid with its schema. -/
theorem ValidField.required (h : schema.Valid) : ValidField (required key schema) :=
  ⟨h, nofun⟩

/-- An optional field is valid with its schema. -/
theorem ValidField.optional (h : schema.Valid) : ValidField (optional key schema) :=
  ⟨h, nofun⟩

/-- A nullish field is valid with its schema. -/
theorem ValidField.nullish (h : schema.Valid) : ValidField (nullish key schema) :=
  ⟨.nullable h, nofun⟩

/-- An empty array is read by every schema of arrays. -/
theorem ValidField.emptyArray {max : ℕ} (h : schema.Valid) :
    ValidField (withDefault key (.array max schema) (.arr [])) := by
  refine ⟨.array h, fun d hd => ?_⟩
  obtain rfl := Presence.default.inj hd
  refine ⟨.arr _ fun v hv => (nomatch hv), ?_⟩
  simp [withDefault, Json.sortValue, Json.sortItems, Schema.parse]

variable {accepts : Json → Bool}

/-- A default text that the field accepts. -/
theorem ValidField.defaultText {s : String} (h : accepts (.str s)) :
    ValidField (withDefault key (.leaf accepts) (.str s)) := by
  refine ⟨.leaf _, fun d hd => ?_⟩
  obtain rfl := Presence.default.inj hd
  refine ⟨.str s, ?_⟩
  simp [withDefault, Json.sortValue, Schema.parse, Json.isScalar, h]

/-- An object schema is valid when its keys differ and its fields are valid. -/
theorem valid_object (hkeys : (fields.map Prod.fst).Nodup)
    (hproto : "__proto__" ∉ fields.map Prod.fst) (h : ∀ field ∈ fields, ValidField field) :
    (Schema.object fields).Valid :=
  .object hkeys hproto (fun field hfield => (h field hfield).schema)
    fun field hfield => (h field hfield).default

variable {numberOf}

/-- Every default of the evidence passes its own check. -/
theorem valid_thibEvidenceSchema : (thibEvidenceSchema numberOf).Valid := by
  refine valid_object (by simp [nullish, withDefault]) (by simp [nullish, withDefault]) ?_
  simp only [forall_mem_cons]
  exact ⟨.nullish (.leaf _), .nullish (.leaf _), .nullish (.leaf _), .emptyArray (.leaf _),
    .emptyArray (.leaf _), .nullish (.leaf _), .emptyArray (.leaf _), by simp⟩

/-- Every default of an indicator passes its own check. -/
theorem valid_thibIndicatorSchema : (thibIndicatorSchema numberOf).Valid := by
  refine valid_object (by simp [required, nullish, withDefault])
    (by simp [required, nullish, withDefault]) ?_
  simp only [forall_mem_cons]
  exact ⟨.required (.leaf _), .required (.leaf _), .required (.leaf _), .defaultText (by decide),
    .nullish (.leaf _), .nullish (.leaf _), .nullish (.leaf _), .nullish (.leaf _),
    .nullish (.leaf _), .nullish (.leaf _), .nullish valid_thibEvidenceSchema, by simp⟩

/-- Every default of an entity passes its own check. -/
theorem valid_thibEntitySchema : thibEntitySchema.Valid := by
  refine valid_object (by simp [required, nullish, withDefault])
    (by simp [required, nullish, withDefault]) ?_
  simp only [forall_mem_cons]
  exact ⟨.required (.leaf _), .required (.leaf _), .required (.leaf _), .emptyArray (.leaf _),
    .nullish (.leaf _), by simp⟩

/-- A relationship has no defaults to check. -/
theorem valid_thibRelationshipSchema : (thibRelationshipSchema numberOf).Valid := by
  refine valid_object (by simp [required, nullish]) (by simp [required, nullish]) ?_
  simp only [forall_mem_cons]
  exact ⟨.required (.leaf _), .required (.leaf _), .required (.leaf _), .required (.leaf _),
    .nullish (.leaf _), .nullish (.leaf _), .nullish (.leaf _), .nullish (.leaf _),
    .nullish (.leaf _), .nullish (.leaf _), by simp⟩

/-- Every default of a report passes its own check. -/
theorem valid_thibReportSchema : (thibReportSchema numberOf).Valid := by
  refine valid_object (by simp [required, nullish, withDefault])
    (by simp [required, nullish, withDefault]) ?_
  simp only [forall_mem_cons]
  exact ⟨.required (.leaf _), .required (.leaf _), .nullish (.leaf _), .nullish (.leaf _),
    .nullish (.leaf _), .nullish (.leaf _), .nullish (.leaf _), .nullish (.leaf _),
    .nullish (.leaf _), .defaultText (by decide), .nullish (.leaf _), .nullish (.leaf _),
    .nullish (.leaf _), .nullish (.leaf _), by simp⟩

/-- No member of the bundle is declared twice. -/
theorem nodup_thibBundleFields : ((thibBundleFields numberOf).map Prod.fst).Nodup := by
  simp [thibBundleFields, required, optional, withDefault]

/-- Every default of a bundle passes its own check. -/
theorem valid_thibBundleSchema : (thibBundleSchema numberOf).Valid := by
  refine valid_object nodup_thibBundleFields
    (by simp [thibBundleFields, required, optional, withDefault]) ?_
  unfold thibBundleFields
  simp only [forall_mem_cons]
  have hgenerator : (Schema.object [Thib.required "name" (text 0 100),
      Thib.nullish "version" (text 0 64)]).Valid := by
    refine valid_object (by simp [required, nullish]) (by simp [required, nullish]) ?_
    simp only [forall_mem_cons]
    exact ⟨.required (.leaf _), .nullish (.leaf _), by simp⟩
  have hreference : (Schema.object [Thib.nullish "title" (text 0 500),
      Thib.nullish "url" (text 0 2000)]).Valid := by
    refine valid_object (by simp [nullish]) (by simp [nullish]) ?_
    simp only [forall_mem_cons]
    exact ⟨.nullish (.leaf _), .nullish (.leaf _), by simp⟩
  have hintegrity : (Schema.object [Thib.optional "alg" anyText,
      Thib.optional "content_sha256" anyText, Thib.optional "hash" anyText]).Valid := by
    refine valid_object (by simp [optional]) (by simp [optional]) ?_
    simp only [forall_mem_cons]
    exact ⟨.optional (.leaf _), .optional (.leaf _), .optional (.leaf _), by simp⟩
  exact ⟨.required (.leaf _), .required (.leaf _), .required (.leaf _), .required (.leaf _),
    .optional hgenerator, .required valid_thibReportSchema, .emptyArray valid_thibEntitySchema,
    .emptyArray valid_thibIndicatorSchema, .emptyArray valid_thibRelationshipSchema,
    .emptyArray hreference, .optional hintegrity, by simp⟩

variable {sha256} {v v' bundle bundle' parsed parsed' w : Json} {f : Json → Json} {claimed : String}
  {entries entries' : List (String × Json)}

/-- Updating one key leaves the others as they are. -/
theorem get?_updateKey {key' : String} :
    (updateKey key f v).get? key' = (v.get? key').map fun w => if key' = key then f w else w := by
  cases v with
  | obj entries =>
    rw [updateKey, Json.get?_obj, Json.get?_obj]
    induction entries with
    | nil => rfl
    | cons e entries ih =>
      rw [map_cons, Json.valueOf, Json.valueOf]
      by_cases hkey : e.1 = key'
      · rw [if_pos hkey, if_pos hkey, map_some, hkey]
      · rw [if_neg hkey, if_neg hkey, ih]
  | _ => rfl

/-- What an object schema accepts is an object, read field by field. -/
theorem parse_object (h : (Schema.object fields).parse v = some w) :
    ∃ entries entries', v = .obj entries ∧ Json.parseFields fields entries = some entries' ∧
      w = .obj entries' := by
  unfold Schema.parse at h
  split at h
  · obtain ⟨entries', hentries, rfl⟩ := map_eq_some_iff.mp h
    exact ⟨_, entries', rfl, hentries, rfl⟩
  · cases h

/-- A leaf returns what it accepts. -/
theorem parse_leaf (h : (Schema.leaf accepts).parse v = some w) : w = v ∧ accepts v := by
  unfold Schema.parse at h
  split at h
  · next haccepts =>
    exact ⟨(Option.some.inj h).symm, (Bool.and_eq_true_iff.mp haccepts).2⟩
  · cases h

/-- A required leaf is there as it was sent. -/
theorem get?_of_required (hkeys : (fields.map Prod.fst).Nodup)
    (h : (Schema.object fields).parse v = some w) (hfield : required key (.leaf accepts) ∈ fields) :
    ∃ u, v.get? key = some u ∧ w.get? key = some u ∧ accepts u := by
  obtain ⟨entries, entries', rfl, hentries, rfl⟩ := parse_object h
  obtain ⟨u, hu⟩ := Json.valueOf_of_required hentries hfield
  obtain ⟨u', hparse, hu'⟩ := Json.valueOf_parseFields hkeys hentries hfield hu
  obtain ⟨rfl, haccepts⟩ := parse_leaf hparse
  rw [Json.get?_obj, Json.get?_obj]
  exact ⟨u', hu, hu', haccepts⟩

section

variable (h : (thibBundleSchema numberOf).parse v = some parsed)

include h

/-- Parsing keeps the version. -/
theorem textOf_spec_version : textOf "spec_version" parsed = textOf "spec_version" v := by
  obtain ⟨u, hu, hu', -⟩ := get?_of_required nodup_thibBundleFields h
    (show required "spec_version" (text 1 16) ∈ thibBundleFields numberOf by simp [thibBundleFields])
  rw [textOf, textOf, hu, hu']

/-- A parsed bundle has the format's name. -/
theorem textOf_format : textOf "format" parsed = THIB_FORMAT := by
  obtain ⟨u, -, hu', haccepts⟩ := get?_of_required nodup_thibBundleFields h
    (show required "format" (oneOf [THIB_FORMAT]) ∈ thibBundleFields numberOf by simp [thibBundleFields])
  rw [textOf, hu']
  split at haccepts
  · simpa using haccepts
  · cases haccepts

/-- The seal is there as it was sent. -/
theorem integrityOf_content_sha256 (hseal : integrityOf "content_sha256" v = some (.str claimed)) :
    integrityOf "content_sha256" parsed = some (.str claimed) := by
  obtain ⟨entries, entries', rfl, hentries, rfl⟩ := parse_object h
  obtain ⟨sent, hsent, hclaimed⟩ := bind_eq_some_iff.mp hseal
  rw [Json.get?_obj] at hsent
  obtain ⟨read, hread, hin⟩ := Json.valueOf_parseFields nodup_thibBundleFields hentries
    (show optional "integrity" (.object [optional "alg" anyText,
      optional "content_sha256" anyText, optional "hash" anyText]) ∈ thibBundleFields numberOf by
      simp [thibBundleFields]) hsent
  obtain ⟨members, members', rfl, hmembers, rfl⟩ := parse_object hread
  rw [Json.get?_obj] at hclaimed
  obtain ⟨u, hparse, hu⟩ := Json.valueOf_parseFields (by simp [optional]) hmembers
    (show optional "content_sha256" anyText ∈ _ by simp) hclaimed
  obtain ⟨rfl, -⟩ := parse_leaf hparse
  rw [integrityOf, Json.get?_obj, hin, bind_some, Json.get?_obj, hu]

end

/-- A seal that is there is the one that is checked. -/
theorem verifyThibIntegrity_eq (hclaimed : claimed ≠ "")
    (hseal : integrityOf "content_sha256" bundle = some (.str claimed)) :
    verifyThibIntegrity sha256 bundle =
      if computeThibContentSha256 sha256 bundle ≠ lowerCase claimed ∧
          computeThibContentSha256 sha256 bundle ≠ claimed then
        .error "Integrity hash mismatch"
      else .ok (computeThibContentSha256 sha256 bundle) := by
  have hcontent : claimedSha256 bundle = some (.str claimed) := by
    simp [claimedSha256, hseal, Json.truthy, hclaimed]
  rw [verifyThibIntegrity, hcontent]
  dsimp only
  rw [if_neg hclaimed]

/-- A parsed document is accepted when its version and seal are. -/
theorem validateThibBundle_eq_ok_iff (h : (thibBundleSchema numberOf).parse v = some parsed) :
    validateThibBundle sha256 numberOf v = .ok bundle ↔ majorOf (textOf "spec_version" v) = "1" ∧
        (∃ actual, verifyThibIntegrity sha256 parsed = .ok actual) ∧
        updateKey "report" setTlp parsed = bundle := by
  unfold validateThibBundle
  rw [h]
  dsimp only
  rw [textOf_format h, textOf_spec_version h, if_neg (by simp)]
  split
  · next hmajor => simp [hmajor]
  · next hmajor =>
    cases verifyThibIntegrity sha256 parsed <;> simp [not_not.mp hmajor]

/-- The schema of a bundle without its seal. -/
def thibContentSchema (numberOf : String → ℚ) : Schema :=
  .object ((thibBundleFields numberOf).filter fun field => field.1 ≠ "integrity")

/-- A sealed bundle that the schema leaves as it is has the seal of what the schema returns. -/
theorem verifyThibIntegrity_of_keeps (hlength : ∀ text, sha256 text ≠ "") (hv : WellFormed v)
    (h : (thibBundleSchema numberOf).parse v = some parsed)
    (hseal : integrityOf "content_sha256" v = some (.str (computeThibContentSha256 sha256 v)))
    (hkeeps : (thibContentSchema numberOf).keeps (v.eraseKey "integrity")) :
    verifyThibIntegrity sha256 parsed = .ok (computeThibContentSha256 sha256 v) := by
  have hcontent : (parsed.eraseKey "integrity").sortValue = (v.eraseKey "integrity").sortValue :=
    Json.sortValue_eraseKey_of_keeps valid_thibBundleSchema hv h hkeeps
  have hsame : computeThibContentSha256 sha256 parsed = computeThibContentSha256 sha256 v := by
    rw [computeThibContentSha256, canonicalJsonStringify, hcontent]
    rfl
  rw [verifyThibIntegrity_eq (hlength _) (integrityOf_content_sha256 h hseal), hsame, if_neg]
  exact fun hne => hne.2 rfl

/-- The hash that an accepted seal stands for. -/
theorem lowerCase_of_verified (hhex : ∀ text, lowerCase (sha256 text) = sha256 text)
    (hclaimed : claimed ≠ "") (hseal : integrityOf "content_sha256" bundle = some (.str claimed))
    (h : ∃ actual, verifyThibIntegrity sha256 bundle = .ok actual) :
    computeThibContentSha256 sha256 bundle = lowerCase claimed := by
  obtain ⟨actual, hactual⟩ := h
  rw [verifyThibIntegrity_eq hclaimed hseal] at hactual
  split at hactual
  · cases hactual
  · next hmatch =>
    by_contra hne
    refine hmatch ⟨hne, fun heq => hne ?_⟩
    have hlower := hhex (canonicalJsonStringify (bundle.eraseKey "integrity"))
    rw [computeThibContentSha256] at heq ⊢
    rw [← heq, hlower]

/-- An accepted document passed the schema. -/
theorem parse_of_validated (h : validateThibBundle sha256 numberOf v = .ok bundle) :
    ∃ parsed, (thibBundleSchema numberOf).parse v = some parsed := by
  unfold validateThibBundle at h
  split at h
  · cases h
  · next parsed hparse => exact ⟨parsed, hparse⟩

/-- Accepted bundles with one seal have the same entries, the seal apart. -/
theorem get?_eq_of_sealed (hhex : ∀ text, lowerCase (sha256 text) = sha256 text)
    (hcollision : Function.Injective sha256) (hv : WellFormed v) (hv' : WellFormed v')
    (hclaimed : claimed ≠ "") (hseal : integrityOf "content_sha256" v = some (.str claimed))
    (hseal' : integrityOf "content_sha256" v' = some (.str claimed))
    (h : validateThibBundle sha256 numberOf v = .ok bundle)
    (h' : validateThibBundle sha256 numberOf v' = .ok bundle') (hkey : key ≠ "integrity")
    (hproto : key ≠ "__proto__") : bundle.get? key = bundle'.get? key := by
  obtain ⟨parsed, hparse⟩ := parse_of_validated h
  obtain ⟨parsed', hparse'⟩ := parse_of_validated h'
  obtain ⟨-, hverified, rfl⟩ := (validateThibBundle_eq_ok_iff hparse).mp h
  obtain ⟨-, hverified', rfl⟩ := (validateThibBundle_eq_ok_iff hparse').mp h'
  have hhash := lowerCase_of_verified hhex hclaimed (integrityOf_content_sha256 hparse hseal) hverified
  have hhash' :=
    lowerCase_of_verified hhex hclaimed (integrityOf_content_sha256 hparse' hseal') hverified'
  have hwell := Json.wellFormed_parse valid_thibBundleSchema hv hparse
  have hwell' := Json.wellFormed_parse valid_thibBundleSchema hv' hparse'
  have htext : canonicalJsonStringify (parsed.eraseKey "integrity") =
      canonicalJsonStringify (parsed'.eraseKey "integrity") :=
    hcollision (hhash.trans hhash'.symm)
  have hsort := Json.render_inj (Json.wellFormed_sortValue (Json.wellFormed_eraseKey hwell))
    (Json.wellFormed_sortValue (Json.wellFormed_eraseKey hwell')) htext
  obtain ⟨entries, read, rfl, hread, rfl⟩ := parse_object hparse
  obtain ⟨entries', read', rfl, hread', rfl⟩ := parse_object hparse'
  have hvalue := Json.valueOf_eq_of_sortValue_eq (Json.valid_filter valid_thibBundleSchema)
    (Json.parseFields_filter hread) (Json.parseFields_filter hread') hproto hsort
  rw [Json.valueOf_filter hkey, Json.valueOf_filter hkey] at hvalue
  rw [get?_updateKey, get?_updateKey, Json.get?_obj, Json.get?_obj, hvalue]

/-- A sealed bundle of known keys and without omitted defaults is accepted in version 1, and a seal
has one report with its entities, indicators and relationships. -/
theorem seal_checked (hlength : ∀ text, sha256 text ≠ "")
    (hhex : ∀ text, lowerCase (sha256 text) = sha256 text)
    (hcollision : Function.Injective sha256) :
    (∀ v, WellFormed v → ((thibBundleSchema numberOf).parse v).isSome →
      integrityOf "content_sha256" v = some (.str (computeThibContentSha256 sha256 v)) →
      (thibContentSchema numberOf).keeps (v.eraseKey "integrity") →
      ((∃ bundle, validateThibBundle sha256 numberOf v = .ok bundle) ↔
        majorOf (textOf "spec_version" v) = "1")) ∧
    ∀ v v' bundle bundle' claimed, WellFormed v → WellFormed v' → claimed ≠ "" →
      integrityOf "content_sha256" v = some (.str claimed) →
      integrityOf "content_sha256" v' = some (.str claimed) →
      validateThibBundle sha256 numberOf v = .ok bundle →
      validateThibBundle sha256 numberOf v' = .ok bundle' →
      ∀ key ∈ ["report", "entities", "indicators", "relationships"],
        bundle.get? key = bundle'.get? key := by
  constructor
  · intro v hv hparse hseal hkeeps
    obtain ⟨parsed, hparse⟩ := isSome_iff_exists.mp hparse
    have hverified := verifyThibIntegrity_of_keeps hlength hv hparse hseal hkeeps
    constructor
    · rintro ⟨bundle, h⟩
      exact ((validateThibBundle_eq_ok_iff hparse).mp h).1
    · intro hmajor
      exact ⟨_, (validateThibBundle_eq_ok_iff hparse).mpr ⟨hmajor, ⟨_, hverified⟩, rfl⟩⟩
  · intro v v' bundle bundle' claimed hv hv' hclaimed hseal hseal' h h' key hkey
    refine get?_eq_of_sealed hhex hcollision hv hv' hclaimed hseal hseal' h h' ?_ ?_
    · rintro rfl
      simp at hkey
    · rintro rfl
      simp at hkey

end integrity

/-- A bundle of the given version with nothing in it but a report of the given title. -/
def bareEntries (version title : String) : List (String × Json) :=
  [("format", .str THIB_FORMAT), ("spec_version", .str version), ("bundle_id", .str "bundle-1"),
    ("created_at", .str "2024"),
    ("report", .obj [("id", .str "report-1"), ("title", .str title), ("tlp", .str "green")]),
    ("entities", .arr []), ("indicators", .arr []), ("relationships", .arr []),
    ("references", .arr [])]

/-- The bundle under a seal of its own, in the `hash` field. -/
def hashedEntries (title : String) : List (String × Json) :=
  bareEntries "1.0" title ++
    [("integrity", .obj [("content_sha256", .str ""),
      ("hash", .str (computeThibContentSha256 id (.obj (bareEntries "1.0" title))))])]

/-- The smallest bundle is well formed. -/
theorem wellFormed_bareEntries (version title : String) :
    ∀ e ∈ bareEntries version title, WellFormed e.2 := by
  have hnone : ∀ v ∈ ([] : List Json), WellFormed v := nofun
  unfold bareEntries
  simp only [forall_mem_cons]
  refine ⟨.str _, .str _, .str _, .str _, .obj _ (by simp) ?_, .arr _ hnone, .arr _ hnone,
    .arr _ hnone, .arr _ hnone, by simp⟩
  simp only [forall_mem_cons]
  exact ⟨.str _, .str _, .str _, by simp⟩

/-- It stays so with a seal. -/
theorem wellFormed_withSeal (version title : String) {members : Json} (h : WellFormed members) :
    WellFormed (.obj (bareEntries version title ++ [("integrity", members)])) := by
  refine .obj _ (by simp [bareEntries]) fun e he => ?_
  rcases mem_append.mp he with he | he
  · exact wellFormed_bareEntries version title e he
  · obtain rfl := mem_singleton.mp he
    exact h

/-- An object of two texts is well formed. -/
theorem wellFormed_texts {a b s t : String} (hne : a ≠ b) :
    WellFormed (.obj [(a, .str s), (b, .str t)]) := by
  refine .obj _ (by simpa using hne) ?_
  simp only [forall_mem_cons]
  exact ⟨.str _, .str _, by simp⟩

/-- A hash in unary, as long as the text needs. -/
def unaryHash (text : String) : String :=
  String.ofList ('b' :: text.toList.flatMap fun c => List.replicate c.toNat 'a' ++ ['b'])

/-- The sample hash is never empty. -/
theorem unaryHash_ne_empty (text : String) : unaryHash text ≠ "" := by
  intro h
  have hchars := congrArg String.toList h
  rw [unaryHash, String.toList_ofList] at hchars
  cases hchars

/-- The sample hash is lower case. -/
theorem lowerCase_unaryHash (text : String) : lowerCase (unaryHash text) = unaryHash text := by
  rw [lowerCase, unaryHash, String.toList_ofList]
  congr 1
  refine (map_congr_left fun c hc => ?_).trans (map_id _)
  have hletter : c = 'a' ∨ c = 'b' := by
    simp only [mem_cons, mem_flatMap, mem_append, mem_replicate] at hc
    rcases hc with rfl | ⟨d, -, ⟨-, rfl⟩ | rfl | hnil⟩
    · exact .inr rfl
    · exact .inl rfl
    · exact .inr rfl
    · cases hnil
  rcases hletter with rfl | rfl <;> rfl

/-- A number in unary is read back up to its end. -/
theorem replicate_append_inj {m n : ℕ} {x y : List Char}
    (h : List.replicate m 'a' ++ 'b' :: x = List.replicate n 'a' ++ 'b' :: y) : m = n ∧ x = y := by
  induction m generalizing n with
  | zero =>
    cases n with
    | zero => exact ⟨rfl, (List.cons.inj h).2⟩
    | succ n => simp [replicate_succ] at h
  | succ m ih =>
    cases n with
    | zero => simp [replicate_succ] at h
    | succ n =>
      obtain ⟨rfl, rfl⟩ := ih (List.cons.inj h).2
      exact ⟨rfl, rfl⟩

/-- The sample hash has no collisions. -/
theorem unaryHash_injective : Function.Injective unaryHash := by
  intro s t h
  have hchars := (List.cons.inj (String.ofList_injective h)).2
  apply String.toList_inj.mp
  generalize s.toList = cs at hchars
  generalize t.toList = ds at hchars
  induction cs generalizing ds with
  | nil =>
    cases ds with
    | nil => rfl
    | cons d ds => simp at hchars
  | cons c cs ih =>
    cases ds with
    | nil => simp at hchars
    | cons d ds =>
      simp only [flatMap_cons, append_assoc, singleton_append] at hchars
      obtain ⟨hcode, hrest⟩ := replicate_append_inj hchars
      rw [Char.toNat_inj.mp hcode, ih ds hrest]

/-- The smallest bundle, sealed and read back. -/
theorem seal_checked_bare :
    (∃ bundle, validateThibBundle unaryHash (fun _ => 0)
      (attachThibIntegrity unaryHash (.obj (bareEntries "1.0" "a"))) = .ok bundle) ∧
    ∀ bundle bundle', validateThibBundle unaryHash (fun _ => 0)
        (attachThibIntegrity unaryHash (.obj (bareEntries "1.0" "a"))) = .ok bundle →
      validateThibBundle unaryHash (fun _ => 0)
        (attachThibIntegrity unaryHash (.obj (bareEntries "1.0" "a"))) = .ok bundle' →
      bundle.get? "report" = bundle'.get? "report" := by
  obtain ⟨haccepts, hsame⟩ := @seal_checked unaryHash (fun _ => 0) unaryHash_ne_empty
    lowerCase_unaryHash unaryHash_injective
  have hv : WellFormed (attachThibIntegrity unaryHash (.obj (bareEntries "1.0" "a"))) :=
    wellFormed_withSeal "1.0" "a" (wellFormed_texts (by decide))
  refine ⟨(haccepts _ hv (by decide +kernel) rfl (by decide +kernel)).mpr (by decide +kernel), ?_⟩
  intro bundle bundle' h h'
  exact hsame _ _ bundle bundle' _ hv hv (unaryHash_ne_empty _) rfl rfl h h' "report" (by simp)

/-- A sealed bundle of version 2 is rejected, and an empty seal leaves the report open. -/
theorem sealed_bundle_rejected :
    (¬ ∀ v, WellFormed v → ((thibBundleSchema fun _ => 0).parse v).isSome →
      integrityOf "content_sha256" v = some (.str (computeThibContentSha256 id v)) →
      ∃ bundle, validateThibBundle id (fun _ => 0) v = .ok bundle) ∧
    ¬ ∀ v v' bundle bundle' claimed, WellFormed v → WellFormed v' →
      integrityOf "content_sha256" v = some (.str claimed) →
      integrityOf "content_sha256" v' = some (.str claimed) →
      validateThibBundle id (fun _ => 0) v = .ok bundle →
      validateThibBundle id (fun _ => 0) v' = .ok bundle' →
      bundle.get? "report" = bundle'.get? "report" := by
  constructor
  · intro h
    obtain ⟨bundle, hbundle⟩ := h (attachThibIntegrity id (.obj (bareEntries "2.0" "a")))
      (wellFormed_withSeal "2.0" "a" (wellFormed_texts (by decide))) (by decide +kernel) rfl
    have hrejected : (validateThibBundle id (fun _ => 0)
        (attachThibIntegrity id (.obj (bareEntries "2.0" "a")))).isOk = false := by decide +kernel
    rw [hbundle] at hrejected
    cases hrejected
  · intro h
    have haccepted (title : String) (hv : WellFormed (.obj (hashedEntries title)))
        (hkeeps : (thibContentSchema fun _ => 0).keeps
          ((Json.obj (hashedEntries title)).eraseKey "integrity"))
        (hclaimed : ((thibBundleSchema fun _ => 0).parse (.obj (hashedEntries title))).bind
          claimedSha256 = some (.str (computeThibContentSha256 id (.obj (hashedEntries title)))))
        (hne : computeThibContentSha256 id (.obj (hashedEntries title)) ≠ "")
        (htitle : ((((thibBundleSchema fun _ => 0).parse (.obj (hashedEntries title))).map
          (updateKey "report" setTlp)).bind (Json.get? "report")).map (textOf "title") =
            some title) :
        ∃ bundle, validateThibBundle id (fun _ => 0) (.obj (hashedEntries title)) = .ok bundle ∧
          (bundle.get? "report").map (textOf "title") = some title := by
      obtain ⟨parsed, hparse, hclaimed⟩ := bind_eq_some_iff.mp hclaimed
      rw [hparse] at htitle
      have hsame : computeThibContentSha256 id parsed =
          computeThibContentSha256 id (.obj (hashedEntries title)) := by
        rw [computeThibContentSha256, canonicalJsonStringify,
          Json.sortValue_eraseKey_of_keeps valid_thibBundleSchema hv hparse hkeeps]
        rfl
      have hverified : verifyThibIntegrity id parsed =
          .ok (computeThibContentSha256 id (.obj (hashedEntries title))) := by
        rw [verifyThibIntegrity, hclaimed]
        dsimp only
        rw [if_neg hne, hsame, if_neg fun hother => hother.2 rfl]
      have hmajor : majorOf (textOf "spec_version" (.obj (hashedEntries title))) = "1" := by
        change majorOf "1.0" = "1"
        decide
      exact ⟨_, (validateThibBundle_eq_ok_iff hparse).mpr ⟨hmajor, ⟨_, hverified⟩, rfl⟩, htitle⟩
    have hv : WellFormed (.obj (hashedEntries "a")) :=
      wellFormed_withSeal "1.0" "a" (wellFormed_texts (by decide))
    have hv' : WellFormed (.obj (hashedEntries "b")) :=
      wellFormed_withSeal "1.0" "b" (wellFormed_texts (by decide))
    obtain ⟨bundle, hbundle, htitle⟩ :=
      haccepted "a" hv (by decide +kernel) rfl (by decide +kernel) (by decide +kernel)
    obtain ⟨bundle', hbundle', htitle'⟩ :=
      haccepted "b" hv' (by decide +kernel) rfl (by decide +kernel) (by decide +kernel)
    have hsame := h _ _ _ _ "" hv hv' rfl rfl hbundle hbundle'
    rw [hsame, htitle'] at htitle
    simp at htitle

end TalonHound.Thib
