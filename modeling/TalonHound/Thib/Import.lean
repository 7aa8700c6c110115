import TalonHound.FileArtifacts.SuppressionIndex
import TalonHound.Library.IndexedList

/-!
# Importing an intelligence bundle

Several imports of one bundle run side by side. Each checks for an active report of the bundle,
inserts its own, and writes what belongs to it statement by statement. An import may stop between any
two statements.
-/

namespace TalonHound.Thib

open FileArtifacts (lowerCase)
open Indexed List

/-- A member of `entities`. -/
structure BundleEntity where
  (id entityType name : String)
  aliases : List String
  description : Option String

/-- A member of `indicators`, with what the preview reads of it. -/
structure BundleIndicator where
  (id type value assessment : String)

/-- A member of `relationships`. -/
structure BundleRelationship where
  (id subjectRef relationshipType objectRef : String)

/-- A bundle that `validateThibBundle` returned. -/
structure Bundle where
  (bundleId specVersion reportId : String)
  entities : List BundleEntity
  indicators : List BundleIndicator
  relationships : List BundleRelationship

/-- Each run of the characters as one filler. -/
def replaceRuns (isRun : Char → Bool) (filler : Char) : List Char → List Char
  | [] => []
  | c :: rest =>
    if isRun c then
      if rest.head?.any isRun then replaceRuns isRun filler rest
      else filler :: replaceRuns isRun filler rest
    else c :: replaceRuns isRun filler rest

/-- Names are compared in lower case, with single spaces. -/
def normalizeEntityName (name : String) : String :=
  String.ofList (replaceRuns isJsWhitespace ' ' (lowerCase (trim name)).toList)

/-- The unique key of `threat_entities`. -/
structure EntityKey where
  (entityType normalizedName : String)
  deriving DecidableEq

/-- The key under which the import looks for an entity. -/
def BundleEntity.key (e : BundleEntity) : EntityKey := ⟨e.entityType, normalizeEntityName e.name⟩

/-- What a candidate of the preview says about an indicator. -/
structure Candidate where
  (portableId candidateType normalizedValue assessment : String)

/-- `uq_threat_report_candidates_report_norm`, within a report. -/
def Candidate.identity (c : Candidate) : String × String := (c.candidateType, c.normalizedValue)

/-- The `DO UPDATE` of a candidate whose identity is there. -/
def Candidate.conflict (old new : Candidate) : Candidate := { old with assessment := new.assessment }

/-- The normalization of candidate values, which the import calls. -/
structure ImportEnv where
  /-- `normalizeCandidateValue`: type and value, if it is ok and an IOC. -/
  normalizeCandidateValue : String → String → Option (String × String)

/-- The loop body of `previewThibImport`. -/
def previewCandidate (env : ImportEnv) (ind : BundleIndicator) : Candidate :=
  match env.normalizeCandidateValue ind.value ind.type with
  | none => ⟨ind.id, ind.type, ind.value, "invalid"⟩
  | some (candidateType, normalizedValue) =>
    ⟨ind.id, candidateType, normalizedValue, if ind.assessment = "" then "unknown" else ind.assessment⟩

/-- Every indicator becomes a candidate, invalid ones too. -/
def previewCandidates (env : ImportEnv) (b : Bundle) : List Candidate :=
  b.indicators.map (previewCandidate env)

/-- The own keys of `RELATIONSHIP_RULES`: the kinds of subjects and of objects. -/
def relationshipRule (type : String) : Option (List String × List String) :=
  let actors := ["threat_actor", "campaign"]
  let capabilities := ["malware", "tool"]
  let indicators := ["network_indicator", "file_indicator"]
  let carriers := capabilities ++ ["file_indicator"]
  match type with
  | "uses" => some (actors ++ ["malware"],
      ["malware", "tool", "attack_pattern", "infrastructure"] ++ indicators)
  | "targets" => some (actors ++ capabilities ++ ["attack_pattern"],
      ["organization", "vulnerability", "infrastructure", "network_indicator"])
  | "exploits" => some (actors ++ capabilities, ["vulnerability"])
  | "communicates_with" => some (carriers, ["infrastructure", "network_indicator"])
  | "delivered_by" => some (carriers, capabilities ++ ["infrastructure"] ++ indicators)
  | "delivers" => some (capabilities ++ ["infrastructure"] ++ indicators, carriers)
  | "downloads" => some (carriers, carriers)
  | "drops" => some (carriers, carriers)
  | "hosts" => some (["infrastructure", "network_indicator"], carriers)
  | "variant_of" => some (carriers, capabilities)
  | "is_detected_as" => some (carriers, capabilities)
  | "attributed_to" => some (actors ++ capabilities ++ ["infrastructure"] ++ indicators,
      ["threat_actor", "campaign"])
  | "operates" => some (["threat_actor"], ["campaign", "infrastructure", "network_indicator"])
  | "impersonates" => some (actors ++ capabilities ++ ["infrastructure", "network_indicator"],
      ["organization"])
  | "overlaps_with" => some (actors ++ capabilities ++ ["infrastructure"],
      actors ++ capabilities ++ ["infrastructure"])
  | _ => none

/-- Types are compared in lower case, with underscores. -/
def normalizeRelationshipType (type : String) : String :=
  String.ofList (replaceRuns (fun c => isJsWhitespace c || c = '-') '_' (lowerCase (trim type)).toList)

/-- An endpoint of a relationship: an entity, or a candidate that was saved. -/
inductive Endpoint
  | entity (key : EntityKey)
  | candidate (c : Candidate)

/-- What kind an endpoint counts as in the rules. -/
def endpointKind : Endpoint → Option String
  | .entity key => if key.entityType = "" then none else some key.entityType
  | .candidate c =>
    let t := lowerCase c.candidateType
    if t ∈ ["ip", "ipv6", "cidr", "domain", "url"] then some "network_indicator"
    else if t ∈ ["md5", "sha1", "sha256"] then some "file_indicator"
    else if t = "cve" then some "vulnerability"
    else if t = "attack_technique" then some "attack_pattern"
    else none

/-- Context and invalid candidates take part in `targets` only. -/
def isNonMaliciousIndicator : Endpoint → Bool
  | .entity _ => false
  | .candidate c => c.assessment = "context_only" || c.assessment = "invalid"

/-- `validateRelationship` without a document: the normalized type of an admitted relationship. -/
def validateRelationship (type : String) (subject object : Endpoint) : Option String :=
  let type := normalizeRelationshipType type
  match relationshipRule type with
  | none => none
  | some (subjects, objects) =>
    if !((endpointKind subject).any (subjects.contains ·) &&
        (endpointKind object).any (objects.contains ·)) then none
    else if type ≠ "targets" ∧
        (isNonMaliciousIndicator subject || isNonMaliciousIndicator object) then none
    else some type

/-- A row of `threat_relationships`, within a report. -/
structure Relationship where
  (portableId relationshipType subjectRef : String)
  subject : Endpoint
  objectRef : String
  object : Endpoint

/-- The rows that the inserts of the candidates return, one after the other. -/
def savedCandidates : List Candidate → List Candidate → List Candidate
  | _, [] => []
  | rows, c :: rest =>
    match rows.find? fun r => r.identity = c.identity with
    | some r =>
      r.conflict c :: savedCandidates
        (rows.map fun r => if r.identity = c.identity then r.conflict c else r) rest
    | none => c :: savedCandidates (rows ++ [c]) rest

/-- The endpoint of a reference: entities come first, and later entries of the maps win. -/
def resolveEndpoint (b : Bundle) (saved : List Candidate) (ref : String) : Option Endpoint :=
  match b.entities.reverse.find? fun e => e.id = ref with
  | some e => some (.entity e.key)
  | none => (saved.reverse.find? fun c => c.portableId = ref).map .candidate

/-- The loop body over the relationships of the bundle. -/
def admittedRelationship (b : Bundle) (saved : List Candidate) (r : BundleRelationship) :
    Option Relationship :=
  (resolveEndpoint b saved r.subjectRef).bind fun subject =>
    (resolveEndpoint b saved r.objectRef).bind fun object =>
      (validateRelationship r.relationshipType subject object).map fun type =>
        ⟨r.id, type, r.subjectRef, subject, r.objectRef, object⟩

/-- `RELATIONSHIP_RULES[type]` is a property that every object inherits: it has no kinds, and to
read them throws. -/
def isInheritedRule (type : String) : Bool := type = "constructor" || type = "__proto__"

/-- The type policy throws on the relationship. -/
def policyThrows (b : Bundle) (saved : List Candidate) (r : BundleRelationship) : Bool :=
  (resolveEndpoint b saved r.subjectRef).isSome && (resolveEndpoint b saved r.objectRef).isSome &&
    isInheritedRule (normalizeRelationshipType r.relationshipType)

/-- The relationships that the import writes. -/
def admittedRelationships (b : Bundle) (candidates : List Candidate) : List Relationship :=
  b.relationships.filterMap (admittedRelationship b (savedCandidates [] candidates))

/-- A row of `threat_reports`. -/
structure ReportRow where
  id : ℕ
  (portableId bundleId : Option String)
  (importStatus analysisStatus : String)
  specVersion : Option String
  deleted : Bool

/-- A row of `threat_entities`. -/
structure EntityRow where
  portableId : String
  key : EntityKey
  name : String
  description : Option String

/-- A row of `threat_report_candidates`. -/
structure CandidateRow where
  reportId : ℕ
  candidate : Candidate
  reviewStatus : String

/-- The tables that an import writes. Entities are known by their unique key. -/
structure Db where
  reports : List ReportRow
  artifacts : List (ℕ × String)
  entities : List EntityRow
  aliases : List (EntityKey × String)
  links : List (ℕ × EntityKey)
  candidates : List CandidateRow
  relationships : List (ℕ × Relationship)

/-- The active reports of a bundle. -/
def Db.activeReports (db : Db) (bundleId : String) : List ReportRow :=
  db.reports.filter fun r => r.bundleId = some bundleId && !r.deleted

/-- `createThreatReport`, under the two unique indexes of active reports. -/
def createThreatReport (db : Db) (b : Bundle) : Option (ℕ × Db) :=
  if db.activeReports b.bundleId ≠ [] ∨
      db.reports.any (fun r => r.portableId = some b.reportId && !r.deleted) then none
  else
    let id := (db.reports.map ReportRow.id).foldr max 0 + 1
    some (id, { db with
      reports := db.reports ++
        [⟨id, some b.reportId, some b.bundleId, "processing", "skipped", none, false⟩] })

/-- The statements of an import after the one that creates its report. -/
inductive Stmt
  | insertArtifact (fileName : String)
  | upsertEntity (e : EntityRow)
  | insertAlias (key : EntityKey) (normalizedAlias : String)
  | linkEntity (key : EntityKey)
  | replaceCandidates (rows : List (Candidate × String))
  /-- No statement: the loop over the relationships, which may throw. -/
  | admitRelationships (throws : Bool)
  | deleteRelationships
  | insertRelationship (r : Relationship)
  | updateStatus
  | updateSpecVersion (version : String)

/-- The insert of a candidate, with its `ON CONFLICT`. -/
def insertCandidate (reportId : ℕ) (rows : List CandidateRow) (row : Candidate × String) :
    List CandidateRow :=
  if rows.any fun r => r.reportId = reportId && r.candidate.identity = row.1.identity then
    rows.map fun r =>
      if r.reportId = reportId ∧ r.candidate.identity = row.1.identity then
        { r with candidate := r.candidate.conflict row.1 }
      else r
  else rows ++ [⟨reportId, row.1, row.2⟩]

/-- The update of one report. -/
def Db.updateReport (db : Db) (id : ℕ) (f : ReportRow → ReportRow) : Db :=
  { db with reports := db.reports.map fun r => if r.id = id then f r else r }

/-- The pending obligations of a report: `obligations` counts them among its candidates. -/
def analysisStatusOf (obligations : List CandidateRow → ℕ) (db : Db) (id : ℕ) : String :=
  if obligations (db.candidates.filter fun r => r.reportId = id) = 0 then "skipped"
  else "review_required"

/-- A statement, unless it violates a unique index. `replaceCandidates` is one transaction. -/
def exec (obligations : List CandidateRow → ℕ) (id : ℕ) (db : Db) : Stmt → Option Db
  | .insertArtifact fileName => some { db with artifacts := db.artifacts ++ [(id, fileName)] }
  | .upsertEntity e =>
    if db.entities.any fun r => r.key = e.key then
      some { db with
        entities := db.entities.map fun r =>
          if r.key = e.key then { r with description := e.description <|> r.description } else r }
    else if db.entities.any fun r => r.portableId = e.portableId then none
    else some { db with entities := db.entities ++ [e] }
  | .insertAlias key normalizedAlias =>
    some { db with
      aliases := if (key, normalizedAlias) ∈ db.aliases then db.aliases
        else db.aliases ++ [(key, normalizedAlias)] }
  | .linkEntity key =>
    some { db with links := if (id, key) ∈ db.links then db.links else db.links ++ [(id, key)] }
  | .replaceCandidates rows =>
    some { db with
      candidates := rows.foldl (insertCandidate id) (db.candidates.filter fun r => r.reportId ≠ id) }
  | .admitRelationships throws => if throws then none else some db
  | .deleteRelationships =>
    some { db with relationships := db.relationships.filter fun r => r.1 ≠ id }
  | .insertRelationship r =>
    if db.relationships.any fun r' => r'.2.portableId = r.portableId then none
    else some { db with relationships := db.relationships ++ [(id, r)] }
  | .updateStatus =>
    some (db.updateReport id fun r =>
      { r with
        importStatus := "review_required"
        analysisStatus := analysisStatusOf obligations db id })
  | .updateSpecVersion version =>
    some (db.updateReport id fun r => { r with specVersion := some version })

/-- The statements for an entity. -/
def entityStmts (e : BundleEntity) : List Stmt :=
  .upsertEntity ⟨e.id, e.key, e.name, e.description⟩ ::
    ((e.aliases.map normalizeEntityName).filter (· ≠ "")).map (.insertAlias e.key) ++
      [.linkEntity e.key]

/-- The statements of an import after the insert of its report. -/
def importStmts (b : Bundle) (rows : List (Candidate × String)) : List Stmt :=
  .insertArtifact (b.bundleId ++ ".thib.json") :: b.entities.flatMap entityStmts ++
    [.replaceCandidates rows,
        .admitRelationships
          (b.relationships.any (policyThrows b (savedCandidates [] (rows.map Prod.fst)))),
        .deleteRelationships] ++
      (admittedRelationships b (rows.map Prod.fst)).map .insertRelationship ++
        [.updateStatus, .updateSpecVersion b.specVersion]

/-- `conflict_mode` of the request. -/
inductive ConflictMode
  | keepBoth | keepLocal | acceptImported
  deriving DecidableEq

/-- The review status of a candidate of the preview, which matches a local IOC or not. -/
def reviewStatusOf (mode : ConflictMode) (matched : Bool) (c : Candidate) : String :=
  if mode = .keepLocal ∧ matched then "approved"
  else if mode = .acceptImported ∧ matched then "approved"
  else if matched then "approved"
  else if c.assessment = "context_only" then "context_only"
  else "pending"

/-- How far an import is; `writing` holds the statements to come. -/
inductive ImportStage
  | checking
  | creating (rows : List (Candidate × String))
  | writing (reportId : ℕ) (todo : List Stmt)
  | imported (reportId : ℕ)
  | alreadyImported (reportId : ℕ)
  | failed

/-- The tables and the imports of one bundle. -/
structure ImportSystem where
  db : Db
  imports : List ImportStage

/-- What can happen next; `i` is the import's index. -/
inductive ImportAction
  | start
  /-- The check of the preview; `matched` is what the local catalog says. -/
  | check (i : ℕ) (mode : ConflictMode) (matched : Candidate → Bool)
  | create (i : ℕ)
  | execute (i : ℕ)
  /-- A statement fails, or the process dies. -/
  | fail (i : ℕ)

section system

variable (env : ImportEnv) (obligations : List CandidateRow → ℕ) (b : Bundle)

/-- The import of the index goes on. -/
def ImportSystem.set (s : ImportSystem) (i : ℕ) (db : Db) (stage : ImportStage) : ImportSystem :=
  ⟨db, s.imports.set i stage⟩

/-- One step of one import. -/
def importStep (s : ImportSystem) : ImportAction → Option ImportSystem
  | .start => some { s with imports := s.imports ++ [.checking] }
  | .check i mode matched =>
    match s.imports[i]? with
    | some .checking =>
      match s.db.activeReports b.bundleId with
      | r :: _ => some (s.set i s.db (.alreadyImported r.id))
      | [] =>
        let rows := (previewCandidates env b).map fun c => (c, reviewStatusOf mode (matched c) c)
        some (s.set i s.db (.creating rows))
    | _ => none
  | .create i =>
    match s.imports[i]? with
    | some (.creating rows) =>
      match createThreatReport s.db b with
      | some (id, db) => some (s.set i db (.writing id (importStmts b rows)))
      | none => some (s.set i s.db .failed)
    | _ => none
  | .execute i =>
    match s.imports[i]? with
    | some (.writing id (stmt :: todo)) =>
      match exec obligations id s.db stmt with
      | some db => some (s.set i db (.writing id todo))
      | none => some (s.set i s.db .failed)
    | some (.writing id []) => some (s.set i s.db (.imported id))
    | _ => none
  | .fail i =>
    match s.imports[i]? with
    | some .checking => some (s.set i s.db .failed)
    | some (.creating _) => some (s.set i s.db .failed)
    | some (.writing _ _) => some (s.set i s.db .failed)
    | _ => none

/-- The report holds all candidates, entities and admissible relationships of the bundle. -/
structure Complete (db : Db) (id : ℕ) : Prop where
  candidates : ∀ c ∈ previewCandidates env b, ∃ r ∈ db.candidates,
    r.reportId = id ∧ r.candidate.identity = c.identity
  entities : ∀ e ∈ b.entities, (id, e.key) ∈ db.links ∧ ∃ r ∈ db.entities, r.key = e.key
  relationships : ∀ r ∈ admittedRelationships b (previewCandidates env b), (id, r) ∈ db.relationships

/-- What a statement leaves behind. -/
def Stmt.Holds (id : ℕ) (db : Db) : Stmt → Prop
  | .upsertEntity e => ∃ r ∈ db.entities, r.key = e.key
  | .linkEntity key => (id, key) ∈ db.links
  | .replaceCandidates rows => ∀ row ∈ rows, ∃ r ∈ db.candidates,
    r.reportId = id ∧ r.candidate.identity = row.1.identity
  | .insertRelationship r => (id, r) ∈ db.relationships
  | _ => True

/-- The statement writes what a complete report holds. -/
def Stmt.isContent : Stmt → Bool
  | .upsertEntity _ => true
  | .linkEntity _ => true
  | .replaceCandidates rows => rows ≠ []
  | .insertRelationship _ => true
  | _ => false

/-- The second statement may take back what the first one left. -/
def Stmt.undoneBy : Stmt → Stmt → Bool
  | .replaceCandidates _, .replaceCandidates _ => true
  | .insertRelationship _, .deleteRelationships => true
  | _, _ => false

variable {env obligations b} {db db' : Db} {id : ℕ} {stmt stmt' : Stmt} {rows : List (Candidate × String)}

variable {stored : List CandidateRow}

/-- After its insert a candidate has a row. -/
theorem mem_insertCandidate {row : Candidate × String} :
    ∃ r ∈ insertCandidate id stored row, r.reportId = id ∧ r.candidate.identity = row.1.identity := by
  unfold insertCandidate
  split
  · next hany =>
    obtain ⟨r, hr, hsame⟩ := any_eq_true.mp hany
    simp only [Bool.and_eq_true, decide_eq_true_eq] at hsame
    refine ⟨_, mem_map.mpr ⟨r, hr, rfl⟩, ?_⟩
    rw [if_pos hsame]
    exact hsame
  · exact ⟨_, mem_append_right _ (mem_singleton.mpr rfl), rfl, rfl⟩

/-- An identity that is there stays there. -/
theorem insertCandidate_keeps {row : Candidate × String} {r : CandidateRow} (hr : r ∈ stored) :
    ∃ r' ∈ insertCandidate id stored row,
      r'.reportId = r.reportId ∧ r'.candidate.identity = r.candidate.identity := by
  unfold insertCandidate
  split
  · refine ⟨_, mem_map.mpr ⟨r, hr, rfl⟩, ?_⟩
    split <;> exact ⟨rfl, rfl⟩
  · exact ⟨r, mem_append_left _ hr, rfl, rfl⟩

/-- Later inserts keep the row's identity. -/
theorem foldl_insertCandidate_keeps {r : CandidateRow} (hr : r ∈ stored) :
    ∃ r' ∈ rows.foldl (insertCandidate id) stored,
      r'.reportId = r.reportId ∧ r'.candidate.identity = r.candidate.identity := by
  induction rows generalizing stored r with
  | nil => exact ⟨r, hr, rfl, rfl⟩
  | cons row rows ih =>
    obtain ⟨r₁, hr₁, hid, hidentity⟩ := @insertCandidate_keeps id stored row r hr
    obtain ⟨r₂, hr₂, hid₂, hidentity₂⟩ := ih hr₁
    exact ⟨r₂, hr₂, hid₂.trans hid, hidentity₂.trans hidentity⟩

/-- Each inserted candidate has a row in the end. -/
theorem mem_foldl_insertCandidate : ∀ row ∈ rows, ∃ r ∈ rows.foldl (insertCandidate id) stored,
      r.reportId = id ∧ r.candidate.identity = row.1.identity := by
  induction rows generalizing stored with
  | nil => simp
  | cons row rows ih =>
    intro row' hrow'
    rcases mem_cons.mp hrow' with rfl | hrow'
    · obtain ⟨r, hr, hid, hidentity⟩ := @mem_insertCandidate id stored row'
      obtain ⟨r₂, hr₂, hid₂, hidentity₂⟩ :
          ∃ r' ∈ rows.foldl (insertCandidate id) (insertCandidate id stored row'),
            r'.reportId = r.reportId ∧ r'.candidate.identity = r.candidate.identity :=
        foldl_insertCandidate_keeps hr
      exact ⟨r₂, hr₂, hid₂.trans hid, hidentity₂.trans hidentity⟩
    · exact ih row' hrow'

/-- The ids of the active reports of the bundle. -/
def activeIds (b : Bundle) (db : Db) : List ℕ := (db.activeReports b.bundleId).map ReportRow.id

/-- An update of a report that leaves it under its bundle. -/
theorem activeIds_updateReport {f : ReportRow → ReportRow}
    (hf : ∀ r, (f r).id = r.id ∧ (f r).bundleId = r.bundleId ∧ (f r).deleted = r.deleted) :
    activeIds b (db.updateReport id f) = activeIds b db := by
  have hg : ∀ r, (if r.id = id then f r else r).id = r.id ∧
      (if r.id = id then f r else r).bundleId = r.bundleId ∧
      (if r.id = id then f r else r).deleted = r.deleted := by
    intro r
    split
    · exact hf r
    · exact ⟨rfl, rfl, rfl⟩
  unfold activeIds Db.activeReports Db.updateReport
  rw [filter_map, map_map]
  have hactive : ((fun r : ReportRow => decide (r.bundleId = some b.bundleId) && !r.deleted) ∘
      fun r => if r.id = id then f r else r) =
        fun r => decide (r.bundleId = some b.bundleId) && !r.deleted := by
    funext r
    simp only [Function.comp_apply, (hg r).2.1, (hg r).2.2]
  rw [hactive]
  exact map_congr_left fun r _ => (hg r).1

/-- What a statement does to the tables that a complete report is read from. -/
structure Effect (id : ℕ) (stmt : Stmt) (db db' : Db) : Prop where
  holds : stmt.Holds id db'
  entities : ∀ r ∈ db.entities, ∃ r' ∈ db'.entities, r'.key = r.key
  links : ∀ link ∈ db.links, link ∈ db'.links
  candidates : (∀ rows, stmt ≠ .replaceCandidates rows) → db'.candidates = db.candidates
  relationships : stmt ≠ .deleteRelationships → ∀ r ∈ db.relationships, r ∈ db'.relationships
  activeIds : ∀ b, activeIds b db' = activeIds b db

/-- What one statement does. -/
theorem exec_effect (h : exec obligations id db stmt = some db') : Effect id stmt db db' := by
  cases stmt with
  | upsertEntity e =>
    simp only [exec] at h
    split at h
    · next hany =>
      cases h
      obtain ⟨r, hr, hkey⟩ := any_eq_true.mp hany
      have hkey := of_decide_eq_true hkey
      refine ⟨⟨_, mem_map.mpr ⟨r, hr, rfl⟩, by rw [if_pos hkey]; exact hkey⟩, fun r hr => ?_,
        fun _ h => h, fun _ => rfl, fun _ _ h => h, fun _ => rfl⟩
      refine ⟨_, mem_map.mpr ⟨r, hr, rfl⟩, ?_⟩
      split <;> rfl
    · split at h
      · cases h
      · cases h
        exact ⟨⟨e, mem_append_right _ (mem_singleton.mpr rfl), rfl⟩,
          fun r hr => ⟨r, mem_append_left _ hr, rfl⟩, fun _ h => h, fun _ => rfl,
          fun _ _ h => h, fun _ => rfl⟩
  | linkEntity key =>
    cases h
    refine ⟨?_, fun r hr => ⟨r, hr, rfl⟩, fun link hlink => ?_, fun _ => rfl, fun _ _ h => h,
      fun _ => rfl⟩
    · simp only [Stmt.Holds]
      split
      · assumption
      · exact mem_append_right _ (mem_singleton.mpr rfl)
    · dsimp only
      split
      · exact hlink
      · exact mem_append_left _ hlink
  | replaceCandidates rows =>
    cases h
    exact ⟨mem_foldl_insertCandidate, fun r hr => ⟨r, hr, rfl⟩, fun _ h => h,
      fun hnot => absurd rfl (hnot rows), fun _ _ h => h, fun _ => rfl⟩
  | admitRelationships throws =>
    simp only [exec] at h
    split at h
    · cases h
    · cases h
      exact ⟨trivial, fun r hr => ⟨r, hr, rfl⟩, fun _ h => h, fun _ => rfl, fun _ _ h => h,
        fun _ => rfl⟩
  | deleteRelationships =>
    cases h
    exact ⟨trivial, fun r hr => ⟨r, hr, rfl⟩, fun _ h => h, fun _ => rfl,
      fun hnot => absurd rfl hnot, fun _ => rfl⟩
  | insertRelationship r =>
    simp only [exec] at h
    split at h
    · cases h
    · cases h
      exact ⟨mem_append_right _ (mem_singleton.mpr rfl), fun r hr => ⟨r, hr, rfl⟩,
        fun _ h => h, fun _ => rfl, fun _ _ hr => mem_append_left _ hr, fun _ => rfl⟩
  | insertArtifact | insertAlias =>
    cases h
    exact ⟨trivial, fun r hr => ⟨r, hr, rfl⟩, fun _ h => h, fun _ => rfl, fun _ _ h => h,
      fun _ => rfl⟩
  | updateStatus | updateSpecVersion =>
    cases h
    exact ⟨trivial, fun r hr => ⟨r, hr, rfl⟩, fun _ h => h, fun _ => rfl, fun _ _ h => h,
      fun _ => activeIds_updateReport fun r => ⟨rfl, rfl, rfl⟩⟩

/-- What a statement left stays, unless a later one may take it back. -/
theorem Stmt.Holds.exec (hholds : stmt.Holds id db) (hkept : stmt.undoneBy stmt' = false)
    (h : Thib.exec obligations id db stmt' = some db') : stmt.Holds id db' := by
  cases stmt with
  | upsertEntity e =>
    obtain ⟨r, hr, hkey⟩ := hholds
    obtain ⟨r', hr', hsame⟩ := (exec_effect h).entities r hr
    exact ⟨r', hr', hsame.trans hkey⟩
  | linkEntity key => exact (exec_effect h).links _ hholds
  | replaceCandidates rows =>
    have hsame := (exec_effect h).candidates fun rows' heq => by
      rw [heq] at hkept
      cases hkept
    intro row hrow
    rw [hsame]
    exact hholds row hrow
  | insertRelationship r =>
    refine (exec_effect h).relationships (fun heq => ?_) _ hholds
    rw [heq] at hkept
    cases hkept
  | _ => trivial

/-- The statements for an entity. -/
theorem mem_entityStmts {e : BundleEntity} (h : stmt ∈ entityStmts e) :
    stmt = .upsertEntity ⟨e.id, e.key, e.name, e.description⟩ ∨
      (∃ a, stmt = .insertAlias e.key a) ∨ stmt = .linkEntity e.key := by
  simp only [entityStmts, cons_append, mem_cons, mem_append, mem_map] at h
  rcases h with rfl | ⟨a, -, rfl⟩ | rfl | hnil
  · exact .inl rfl
  · exact .inr (.inl ⟨a, rfl⟩)
  · exact .inr (.inr rfl)
  · cases hnil

/-- No statement of an import takes back what an earlier one left. -/
theorem pairwise_importStmts :
    (importStmts b rows).Pairwise fun stmt stmt' => stmt.undoneBy stmt' = false := by
  -- artifact and entities are never taken back
  have hfirst : ∀ stmt ∈ Stmt.insertArtifact (b.bundleId ++ ".thib.json") ::
      b.entities.flatMap entityStmts, ∀ stmt', stmt.undoneBy stmt' = false := by
    intro stmt hstmt stmt'
    rcases mem_cons.mp hstmt with rfl | hstmt
    · rfl
    · obtain ⟨e, -, hstmt⟩ := mem_flatMap.mp hstmt
      rcases mem_entityStmts hstmt with rfl | ⟨a, rfl⟩ | rfl <;> rfl
  have hlast : ∀ stmt ∈ (admittedRelationships b (rows.map Prod.fst)).map Stmt.insertRelationship ++
      [.updateStatus, .updateSpecVersion b.specVersion],
      (∃ r, stmt = .insertRelationship r) ∨ stmt = .updateStatus ∨
        stmt = .updateSpecVersion b.specVersion := by
    intro stmt hstmt
    rcases mem_append.mp hstmt with hstmt | hstmt
    · obtain ⟨r, -, rfl⟩ := mem_map.mp hstmt
      exact .inl ⟨r, rfl⟩
    · exact .inr (by simpa using hstmt)
  rw [importStmts, append_assoc, append_assoc, pairwise_append]
  refine ⟨pairwise_of_forall_mem_list fun stmt hstmt stmt' _ => hfirst stmt hstmt stmt', ?_,
    fun stmt hstmt stmt' _ => hfirst stmt hstmt stmt'⟩
  rw [pairwise_append]
  refine ⟨by simp [Stmt.undoneBy], ?_, ?_⟩
  · refine pairwise_of_forall_mem_list fun stmt hstmt stmt' hstmt' => ?_
    rcases hlast stmt hstmt with ⟨r, rfl⟩ | rfl | rfl <;>
      rcases hlast stmt' hstmt' with ⟨r', rfl⟩ | rfl | rfl <;> rfl
  · intro stmt hstmt stmt' hstmt'
    simp only [mem_cons, not_mem_nil, or_false] at hstmt
    rcases hstmt with rfl | rfl | rfl <;> rcases hlast stmt' hstmt' with ⟨r', rfl⟩ | rfl | rfl <;> rfl

/-- A report is complete once the content of an import is written. -/
theorem complete_of_holds (hrows : rows.map Prod.fst = previewCandidates env b)
    (h : ∀ stmt ∈ importStmts b rows, stmt.isContent → stmt.Holds id db) : Complete env b db id := by
  constructor
  · intro c hc
    rw [← hrows] at hc
    obtain ⟨row, hrow, rfl⟩ := mem_map.mp hc
    have hcontent : (Stmt.replaceCandidates rows).isContent := by
      simp [Stmt.isContent, ne_nil_of_mem hrow]
    exact h (.replaceCandidates rows) (by simp [importStmts]) hcontent row hrow
  · intro e he
    have hin (stmt : Stmt) (hstmt : stmt ∈ entityStmts e) : stmt ∈ importStmts b rows := by
      have := mem_flatMap.mpr ⟨e, he, hstmt⟩
      simp [importStmts, this]
    refine ⟨h (.linkEntity e.key) (hin _ (by simp [entityStmts])) rfl, ?_⟩
    exact h (.upsertEntity ⟨e.id, e.key, e.name, e.description⟩) (hin _ (by simp [entityStmts])) rfl
  · intro r hr
    rw [← hrows] at hr
    exact h (.insertRelationship r) (by simp [importStmts, hr]) rfl

/-- The import has created its report and is not done. -/
def ImportStage.isWriting : ImportStage → Bool
  | .writing _ _ => true
  | _ => false

/-- The report that an import has returned. -/
def ImportStage.returned? : ImportStage → Option ℕ
  | .imported id => some id
  | .alreadyImported id => some id
  | _ => none

/-- How far an import has come: what it has executed holds, and is not taken back. -/
structure Progress (env : ImportEnv) (b : Bundle) (db : Db) (id : ℕ) (todo : List Stmt) : Prop where
  exists_done : ∃ rows done, rows.map Prod.fst = previewCandidates env b ∧
    done ++ todo = importStmts b rows ∧ ∀ stmt ∈ done, stmt.Holds id db

/-- Content is still to be written. -/
def Unwritten (todo : List Stmt) : Bool := todo.any Stmt.isContent

/-- With nothing left to write the import is complete. -/
theorem Progress.complete {todo : List Stmt} (h : Progress env b db id todo)
    (hwritten : Unwritten todo = false) : Complete env b db id := by
  obtain ⟨rows, done, hrows, hsplit, hdone⟩ := h.exists_done
  refine complete_of_holds hrows fun stmt hstmt hcontent => ?_
  rw [← hsplit] at hstmt
  rcases mem_append.mp hstmt with hstmt | hstmt
  · exact hdone stmt hstmt
  · exact absurd (any_eq_true.mpr ⟨stmt, hstmt, hcontent⟩) (by simpa [Unwritten] using hwritten)

/-- A statement that succeeds is progress. -/
theorem Progress.exec {todo : List Stmt} (h : Progress env b db id (stmt :: todo))
    (hexec : Thib.exec obligations id db stmt = some db') : Progress env b db' id todo := by
  obtain ⟨rows, done, hrows, hsplit, hdone⟩ := h.exists_done
  refine ⟨rows, done ++ [stmt], hrows, by rw [← hsplit, append_assoc]; rfl, ?_⟩
  have hpairwise := @pairwise_importStmts b rows
  rw [← hsplit, pairwise_append] at hpairwise
  intro stmt' hstmt'
  rcases mem_append.mp hstmt' with hstmt' | hstmt'
  · exact (hdone stmt' hstmt').exec (hpairwise.2.2 stmt' hstmt' stmt mem_cons_self) hexec
  · obtain rfl := mem_singleton.mp hstmt'
    exact (exec_effect hexec).holds

/-- The unique index admits one active report of a bundle. -/
theorem activeIds_createThreatReport (h : createThreatReport db b = some (id, db')) :
    activeIds b db = [] ∧ activeIds b db' = [id] := by
  unfold createThreatReport at h
  split at h
  · cases h
  · next hfree =>
    obtain ⟨rfl, rfl⟩ := Prod.mk.inj (Option.some.inj h)
    have hnone : db.activeReports b.bundleId = [] := by
      by_contra hne
      exact hfree (.inl hne)
    unfold activeIds
    rw [hnone]
    refine ⟨rfl, ?_⟩
    unfold Db.activeReports at hnone ⊢
    rw [filter_append, hnone]
    simp

/-- Where the imports of a bundle have come to. -/
inductive Phase (env : ImportEnv) (b : Bundle) (s : ImportSystem) : Prop
  /-- There is no report, and none was returned. -/
  | absent (hreports : activeIds b s.db = [])
      (himports : ∀ stage ∈ s.imports, stage.isWriting = false ∧ stage.returned? = none) : Phase env b s
  /-- One import writes the only report. -/
  | writing (i id : ℕ) (todo : List Stmt) (hreports : activeIds b s.db = [id])
      (hi : s.imports[i]? = some (.writing id todo))
      (hothers : ∀ j stage, s.imports[j]? = some stage → j ≠ i → stage.isWriting = false ∧
        ∀ id', stage.returned? = some id' → id' = id ∧ Unwritten todo = false)
      (hprogress : Progress env b s.db id todo) : Phase env b s
  /-- There is one report, and it is complete. -/
  | settled (id : ℕ) (hreports : activeIds b s.db = [id])
      (himports : ∀ stage ∈ s.imports, stage.isWriting = false ∧
        ∀ id', stage.returned? = some id' → id' = id)
      (hcomplete : Complete env b s.db id) : Phase env b s

variable {s s' : ImportSystem} {i : ℕ} {stage stage' : ImportStage} {todo : List Stmt}

/-- The stages after one import has moved on. -/
theorem mem_set_cases {l : List ImportStage} (h : stage' ∈ l.set i stage) :
    stage' = stage ∨ stage' ∈ l := by
  rcases mem_or_eq_of_mem_set h with h | h
  · exact .inr h
  · exact .inl h

/-- The end of the writer, once the content is written. -/
theorem Phase.settle (hreports : activeIds b s.db = [id])
    (hothers : ∀ j stage, s.imports[j]? = some stage → j ≠ i → stage.isWriting = false ∧
      ∀ id', stage.returned? = some id' → id' = id ∧ Unwritten todo = false)
    (hprogress : Progress env b s.db id todo) (hwritten : Unwritten todo = false)
    (hstage : stage.isWriting = false) (hreturned : ∀ id', stage.returned? = some id' → id' = id) :
    Phase env b (s.set i s.db stage) := by
  refine .settled id hreports (fun stage' hmem => ?_) (hprogress.complete hwritten)
  obtain ⟨j, hj⟩ := mem_iff_getElem?.mp hmem
  rcases getElem?_set_cases hj with ⟨-, rfl⟩ | ⟨hne, hold⟩
  · exact ⟨hstage, hreturned⟩
  · obtain ⟨hnot, hids⟩ := hothers j stage' hold hne
    exact ⟨hnot, fun id' hid' => (hids id' hid').1⟩

/-- An import that does not write changes its stage. -/
theorem Phase.other (h : Phase env b s) (hi : s.imports[i]? = some stage)
    (hstage : stage.isWriting = false) (hstage' : stage'.isWriting = false)
    (hreturned : stage'.returned? = none) : Phase env b (s.set i s.db stage') := by
  cases h with
  | absent hreports himports =>
    refine .absent hreports fun stage₀ hmem => ?_
    rcases mem_set_cases hmem with rfl | hold
    · exact ⟨hstage', hreturned⟩
    · exact himports stage₀ hold
  | writing i₀ id todo hreports hwriter hothers hprogress =>
    have hne : i₀ ≠ i := by
      rintro rfl
      rw [hi] at hwriter
      cases hwriter
      cases hstage
    refine .writing i₀ id todo hreports ?_ (fun j stage₀ hj hj₀ => ?_) hprogress
    · change (s.imports.set i stage')[i₀]? = _
      rw [getElem?_set_ne (Ne.symm hne)]
      exact hwriter
    · rcases getElem?_set_cases hj with ⟨-, rfl⟩ | ⟨-, hold⟩
      · exact ⟨hstage', fun id' hid' => by rw [hreturned] at hid'; cases hid'⟩
      · exact hothers j stage₀ hold hj₀
  | settled id hreports himports hcomplete =>
    refine .settled id hreports (fun stage₀ hmem => ?_) hcomplete
    rcases mem_set_cases hmem with rfl | hold
    · exact ⟨hstage', fun id' hid' => by rw [hreturned] at hid'; cases hid'⟩
    · exact himports stage₀ hold

/-- The import of the index has content left to write. -/
def ImportSystem.unwritten (s : ImportSystem) (i : ℕ) : Bool :=
  match s.imports[i]? with
  | some (.writing _ todo) => Unwritten todo
  | _ => false

/-- The next statement of an import violates a unique index, or its check throws. -/
def ImportSystem.violates (obligations : List CandidateRow → ℕ) (s : ImportSystem) (i : ℕ) : Bool :=
  match s.imports[i]? with
  | some (.writing id (stmt :: _)) => (Thib.exec obligations id s.db stmt).isNone
  | _ => false

/-- No import stops with content left to write, and none is checked while another one has some. -/
def Uninterrupted (obligations : List CandidateRow → ℕ) (s : ImportSystem) : ImportAction → Prop
  | .check _ _ _ => ∀ i < s.imports.length, s.unwritten i = false
  | .execute i => s.violates obligations i → s.unwritten i = false
  | .fail i => s.unwritten i = false
  | _ => True

instance (s : ImportSystem) (a : ImportAction) : Decidable (Uninterrupted obligations s a) := by
  unfold Uninterrupted
  split <;> infer_instance

/-- What an import in its writes has left. -/
theorem unwritten_of_getElem? (hi : s.imports[i]? = some (.writing id todo)) :
    s.unwritten i = Unwritten todo := by
  rw [ImportSystem.unwritten, hi]

section

variable (h : Phase env b s)
include h

/-- A new import changes no phase. -/
theorem phase_start : Phase env b { s with imports := s.imports ++ [.checking] } := by
  cases h with
  | absent hreports himports =>
    refine .absent hreports fun stage hmem => ?_
    rcases mem_append.mp hmem with hmem | hmem
    · exact himports stage hmem
    · obtain rfl := mem_singleton.mp hmem
      exact ⟨rfl, rfl⟩
  | writing i id todo hreports hi hothers hprogress =>
    refine .writing i id todo hreports (getElem?_append_of hi) (fun j stage hj hne => ?_) hprogress
    rcases getElem?_append_cases hj with ⟨-, rfl⟩ | hold
    · exact ⟨rfl, nofun⟩
    · exact hothers j stage hold hne
  | settled id hreports himports hcomplete =>
    refine .settled id hreports (fun stage hmem => ?_) hcomplete
    rcases mem_append.mp hmem with hmem | hmem
    · exact himports stage hmem
    · obtain rfl := mem_singleton.mp hmem
      exact ⟨rfl, nofun⟩

/-- The check finds a report: it is the only one, and its content is written. -/
theorem phase_check {r : ReportRow} {rest : List ReportRow} (hi : s.imports[i]? = some .checking)
    (hreport : s.db.activeReports b.bundleId = r :: rest)
    (hwritten : ∀ j < s.imports.length, s.unwritten j = false) :
    Phase env b (s.set i s.db (.alreadyImported r.id)) := by
  have hid {id : ℕ} (hreports : activeIds b s.db = [id]) : r.id = id := by
    rw [activeIds, hreport] at hreports
    exact (List.cons.inj hreports).1
  cases h with
  | absent hreports himports =>
    rw [activeIds, hreport] at hreports
    cases hreports
  | writing i₀ id todo hreports hwriter hothers hprogress =>
    have hdone := hwritten i₀ (List.getElem?_eq_some_iff.mp hwriter).1
    rw [unwritten_of_getElem? hwriter] at hdone
    have hne : i₀ ≠ i := by
      rintro rfl
      rw [hi] at hwriter
      cases hwriter
    refine .writing i₀ id todo hreports ?_ (fun j stage hj hj₀ => ?_) hprogress
    · change (s.imports.set i _)[i₀]? = _
      rw [getElem?_set_ne (Ne.symm hne)]
      exact hwriter
    · rcases getElem?_set_cases hj with ⟨-, rfl⟩ | ⟨-, hold⟩
      · refine ⟨rfl, fun id' hid' => ⟨?_, hdone⟩⟩
        rw [← Option.some.inj hid']
        exact hid hreports
      · exact hothers j stage hold hj₀
  | settled id hreports himports hcomplete =>
    refine .settled id hreports (fun stage hmem => ?_) hcomplete
    rcases mem_set_cases hmem with rfl | hold
    · refine ⟨rfl, fun id' hid' => ?_⟩
      rw [← Option.some.inj hid']
      exact hid hreports
    · exact himports stage hold

/-- The insert of the report: there was none, and now one import writes it. -/
theorem phase_create (hi : s.imports[i]? = some (.creating rows))
    (hrows : rows.map Prod.fst = previewCandidates env b)
    (hcreate : createThreatReport s.db b = some (id, db')) :
    Phase env b (s.set i db' (.writing id (importStmts b rows))) := by
  obtain ⟨hnone, hone⟩ := activeIds_createThreatReport hcreate
  cases h with
  | absent hreports himports =>
    refine .writing i id (importStmts b rows) hone (getElem?_set_self hi) (fun j stage hj hne => ?_)
      ⟨rows, [], hrows, rfl, nofun⟩
    rcases getElem?_set_cases hj with ⟨rfl, -⟩ | ⟨-, hold⟩
    · exact absurd rfl hne
    · obtain ⟨hnot, hreturned⟩ := himports stage (mem_of_getElem? hold)
      exact ⟨hnot, fun id' hid' => by rw [hreturned] at hid'; cases hid'⟩
  | writing i₀ id₀ todo hreports => rw [hnone] at hreports; cases hreports
  | settled id₀ hreports => rw [hnone] at hreports; cases hreports

/-- An import that writes is the writer of the phase. -/
theorem Phase.writer (hi : s.imports[i]? = some (.writing id todo)) :
    activeIds b s.db = [id] ∧
      (∀ j stage, s.imports[j]? = some stage → j ≠ i → stage.isWriting = false ∧
        ∀ id', stage.returned? = some id' → id' = id ∧ Unwritten todo = false) ∧
      Progress env b s.db id todo := by
  cases h with
  | absent hreports himports | settled id₀ hreports himports => cases (himports _ (mem_of_getElem? hi)).1
  | writing i₀ id₀ todo₀ hreports hwriter hothers hprogress =>
    by_cases hsame : i = i₀
    · subst hsame
      rw [hi] at hwriter
      obtain ⟨rfl, rfl⟩ := ImportStage.writing.inj (Option.some.inj hwriter)
      exact ⟨hreports, hothers, hprogress⟩
    · cases (hothers i _ hi hsame).1

end

/-- The candidates of an import before its report are those of the preview. -/
def Prepared (env : ImportEnv) (b : Bundle) (s : ImportSystem) : Prop :=
  ∀ rows, .creating rows ∈ s.imports → rows.map Prod.fst = previewCandidates env b

/-- An import prepares the rows of the preview. -/
theorem Prepared.set (h : Prepared env b s)
    (hstage : ∀ rows, stage = .creating rows → rows.map Prod.fst = previewCandidates env b) :
    Prepared env b (s.set i db stage) := by
  intro rows hmem
  rcases mem_set_cases hmem with heq | hold
  · exact hstage rows heq.symm
  · exact h rows hold

/-- The writer executes a statement. -/
theorem phase_execute (h : Phase env b s) (hi : s.imports[i]? = some (.writing id (stmt :: todo)))
    (hexec : exec obligations id s.db stmt = some db') :
    Phase env b (s.set i db' (.writing id todo)) := by
  obtain ⟨hreports, hothers, hprogress⟩ := h.writer hi
  refine .writing i id todo (((exec_effect hexec).activeIds _).trans hreports) (getElem?_set_self hi)
    (fun j stage hj hne => ?_) (hprogress.exec hexec)
  rcases getElem?_set_cases hj with ⟨heq, -⟩ | ⟨-, hold⟩
  · exact absurd heq hne
  · obtain ⟨hnot, hids⟩ := hothers j stage hold hne
    refine ⟨hnot, fun id' hid' => ⟨(hids id' hid').1, ?_⟩⟩
    have hwritten := (hids id' hid').2
    unfold Unwritten at hwritten ⊢
    rw [any_cons, Bool.or_eq_false_iff] at hwritten
    exact hwritten.2

/-- Every step keeps the phase. -/
theorem phase_step {a : ImportAction} (h : Phase env b s) (hprepared : Prepared env b s)
    (hguard : Uninterrupted obligations s a)
    (hstep : importStep env obligations b s a = some s') :
    Phase env b s' ∧ Prepared env b s' := by
  cases a with
  | start =>
    cases hstep
    refine ⟨phase_start h, fun rows hmem => ?_⟩
    rcases mem_append.mp hmem with hmem | hmem
    · exact hprepared rows hmem
    · cases mem_singleton.mp hmem
  | check i mode matched =>
    simp only [importStep] at hstep
    split at hstep
    · next hi =>
      split at hstep
      · next r rest hreport =>
        cases hstep
        exact ⟨phase_check h hi hreport hguard, hprepared.set nofun⟩
      · cases hstep
        refine ⟨h.other hi rfl rfl rfl, hprepared.set fun rows heq => ?_⟩
        obtain rfl := ImportStage.creating.inj heq
        rw [map_map]
        exact map_id _
    · cases hstep
  | create i =>
    simp only [importStep] at hstep
    split at hstep
    · next rows hi =>
      split at hstep
      · next id db hcreate =>
        cases hstep
        have hbuilt := hprepared rows (mem_of_getElem? hi)
        exact ⟨phase_create h hi hbuilt hcreate, hprepared.set nofun⟩
      · cases hstep
        exact ⟨h.other hi rfl rfl rfl, hprepared.set nofun⟩
    · cases hstep
  | execute i =>
    simp only [importStep] at hstep
    split at hstep
    · next id stmt todo hi =>
      split at hstep
      · next db hexec =>
        cases hstep
        exact ⟨phase_execute h hi hexec, hprepared.set nofun⟩
      · next hexec =>
        cases hstep
        obtain ⟨hreports, hothers, hprogress⟩ := h.writer hi
        have hwritten := hguard (by rw [ImportSystem.violates, hi]; simp [hexec])
        rw [unwritten_of_getElem? hi] at hwritten
        exact ⟨Phase.settle hreports hothers hprogress hwritten rfl (nofun),
          hprepared.set nofun⟩
    · next id hi =>
      cases hstep
      obtain ⟨hreports, hothers, hprogress⟩ := h.writer hi
      refine ⟨Phase.settle hreports hothers hprogress rfl rfl fun id' hid' => ?_,
        hprepared.set nofun⟩
      exact (Option.some.inj hid').symm
    · cases hstep
  | fail i =>
    simp only [importStep] at hstep
    split at hstep
    · next hi =>
      cases hstep
      exact ⟨h.other hi rfl rfl rfl, hprepared.set nofun⟩
    · next rows hi =>
      cases hstep
      exact ⟨h.other hi rfl rfl rfl, hprepared.set nofun⟩
    · next id todo hi =>
      cases hstep
      obtain ⟨hreports, hothers, hprogress⟩ := h.writer hi
      have hwritten : s.unwritten i = false := hguard
      rw [unwritten_of_getElem? hi] at hwritten
      exact ⟨Phase.settle hreports hothers hprogress hwritten rfl (nofun),
        hprepared.set nofun⟩
    · cases hstep

/-- What an import has returned is the only active report of the bundle, and it is complete. -/
theorem import_all_or_nothing {s₀ : ImportSystem} {actions : List ImportAction}
    (himports : s₀.imports = [])
    (hstart : activeIds b s₀.db = [] ∨ ∃ id, activeIds b s₀.db = [id] ∧ Complete env b s₀.db id)
    (hrun : Run (importStep env obligations b) (Uninterrupted obligations) s₀ actions s) :
    ∀ stage ∈ s.imports, ∀ id, stage.returned? = some id →
      activeIds b s.db = [id] ∧ Complete env b s.db id := by
  have hphase₀ : Phase env b s₀ := by
    rcases hstart with hnone | ⟨id, hone, hcomplete⟩
    · exact .absent hnone (by simp [himports])
    · exact .settled id hone (by simp [himports]) hcomplete
  have hprepared₀ : Prepared env b s₀ := by
    intro rows hmem
    rw [himports] at hmem
    cases hmem
  obtain ⟨hphase, -⟩ : Phase env b s ∧ Prepared env b s := by
    refine hrun.invariant (I := fun s => Phase env b s ∧ Prepared env b s) ?_ ⟨hphase₀, hprepared₀⟩
    rintro s a s' ⟨hphase, hprepared⟩ hguard hstep
    exact phase_step hphase hprepared hguard hstep
  intro stage hstage id hid
  cases hphase with
  | absent hreports himports =>
    rw [(himports stage hstage).2] at hid
    cases hid
  | writing i id₀ todo hreports hi hothers hprogress =>
    obtain ⟨j, hj⟩ := mem_iff_getElem?.mp hstage
    by_cases hsame : j = i
    · subst hsame
      rw [hi] at hj
      cases hj
      cases hid
    · obtain ⟨rfl, hwritten⟩ := (hothers j stage hj hsame).2 id hid
      exact ⟨hreports, hprogress.complete hwritten⟩
  | settled id₀ hreports himports hcomplete =>
    obtain rfl := (himports stage hstage).2 id hid
    exact ⟨hreports, hcomplete⟩

/-! A bundle of a malware, a domain and a relationship between them. -/

/-- A bundle with one indicator. -/
def emotetBundle : Bundle where
  bundleId := "bundle--1"
  specVersion := "1.2"
  reportId := "report--1"
  entities := [⟨"entity--1", "malware", "Emotet", ["Heodo"], none⟩]
  indicators := [⟨"indicator--1", "domain", "evil.example", "malicious"⟩]
  relationships := [⟨"relationship--1", "entity--1", "communicates-with", "indicator--1"⟩]

/-- Values are kept as they are. -/
def plainValues : ImportEnv := ⟨fun value type => some (type, value)⟩

/-- An empty database. -/
def noImports : ImportSystem := ⟨⟨[], [], [], [], [], [], []⟩, []⟩

/-- An import that runs to its end, and a retry. -/
def wholeImport : List ImportAction :=
  [.start, .check 0 .keepBoth fun _ => false, .create 0] ++ List.replicate 11 (.execute 0) ++
    [.start, .check 1 .keepBoth fun _ => false]

/-- Two imports of one bundle, the second after the first. -/
theorem import_all_or_nothing_emotet :
    ∃ s, Run (importStep plainValues (fun _ => 0) emotetBundle) (Uninterrupted fun _ => 0)
      noImports wholeImport s ∧
      s.imports.map ImportStage.returned? = [some 1, some 1] ∧
      activeIds emotetBundle s.db = [1] ∧ Complete plainValues emotetBundle s.db 1 := by
  obtain ⟨s, hrun, hreturned⟩ :
      ∃ s, Run (importStep plainValues (fun _ => 0) emotetBundle) (Uninterrupted fun _ => 0)
        noImports wholeImport s ∧ s.imports.map ImportStage.returned? = [some 1, some 1] :=
    Run.exists_of_any (by decide +kernel)
  obtain ⟨stage, hstage, hid⟩ : ∃ stage ∈ s.imports, stage.returned? = some 1 := by
    refine mem_map.mp ?_
    rw [hreturned]
    exact mem_cons_self
  exact ⟨s, hrun, hreturned, import_all_or_nothing rfl (.inl rfl) hrun stage hstage 1 hid⟩

/-- A retry after a torn import is told that the bundle is there. -/
theorem torn_import_answered :
    ∃ s, Run (importStep plainValues (fun _ => 0) emotetBundle) (fun _ _ => True) noImports
      [.start, .check 0 .keepBoth fun _ => false, .create 0, .fail 0,
        .start, .check 1 .keepBoth fun _ => false] s ∧
      s.imports.map ImportStage.returned? = [none, some 1] ∧
      ¬ Complete plainValues emotetBundle s.db 1 := by
  refine ⟨_, Run.of_isSome (by decide +kernel : (Run.exec
    (importStep plainValues (fun _ => 0) emotetBundle) (fun _ _ => True) noImports
      [.start, .check 0 .keepBoth fun _ => false, .create 0, .fail 0,
        .start, .check 1 .keepBoth fun _ => false]).isSome), by decide +kernel, fun hcomplete => ?_⟩
  obtain ⟨r, hr, -⟩ := hcomplete.candidates _ mem_cons_self
  cases hr

end system

end TalonHound.Thib
