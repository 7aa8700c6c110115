import TalonHound.Candidates.SearchValue
import TalonHound.FileArtifacts.SuppressionIndex
import TalonHound.IocExpiration.ImportRun
import TalonHound.IocList.Confidence

/-!
# The sync of a custom threat feed

A run fetches and parses the content of a feed, imports its valid rows one by one, and at its end
ages the memberships that it did not see. The parser throws on some addresses with a zone.
-/

namespace TalonHound.CustomFeeds

open FileArtifacts (lowerCase)
open Option List IocExpiration

/-- `text.split(/\r?\n/)`. -/
def splitLines (text : List Char) : List (List Char) :=
  let parts := text.splitOn '\n'
  parts.dropLast.map (fun line => if line.getLast? = some '\r' then line.dropLast else line) ++
    parts.getLast?.toList

/-- `isCommentLine`. -/
def isCommentLine (line : List Char) : Bool :=
  let t := trimChars line
  t = [] || t.head? = some '#' || ['/', '/'].isPrefixOf t || t.head? = some ';'

/-- The columns of a line, from inside or outside of quotes. -/
def splitCsvFrom (inQuotes : Bool) (cur : List Char) : List Char → List (List Char)
  | [] => [trimChars cur]
  | c :: rest =>
    if c = '"' then
      if inQuotes then
        match rest with
        | '"' :: rest => splitCsvFrom true (cur ++ ['"']) rest
        | rest => splitCsvFrom false cur rest
      else splitCsvFrom true cur rest
    else if c = ',' ∧ !inQuotes then trimChars cur :: splitCsvFrom false [] rest
    else splitCsvFrom inQuotes (cur ++ [c]) rest

/-- `splitCsvLine`. -/
def splitCsvLine (line : List Char) : List (List Char) := splitCsvFrom false [] line

/-- The shape `(\d{1,3}\.){3}\d{1,3}`. -/
def isDottedQuad (v : List Char) : Bool :=
  let parts := v.splitOn '.'
  parts.length = 4 && parts.all fun part => part ≠ [] && part.length ≤ 3 && part.all Char.isDigit

/-- A hash of 32 to 128 digits. -/
def isHashText (v : List Char) : Bool :=
  32 ≤ v.length && v.length ≤ 128 && v.all Candidates.isHexDigit

/-- The shape `https?://`, in any case. -/
def hasHttpScheme (v : List Char) : Bool :=
  let v := v.map Char.toLower
  "http://".toList.isPrefixOf v || "https://".toList.isPrefixOf v

/-- `inferObservableType`. -/
def inferObservableType (value : String) : Option String :=
  let v := trimChars value.toList
  if v = [] then none
  else if hasHttpScheme v || v.contains '/' then some "url"
  else if isDottedQuad v then some "ip"
  else if isHashText v then some "hash"
  else some "domain"

/-- `normalizeHashType`. -/
def normalizeHashType (value : String) : String :=
  let v := trimChars value.toList
  if v.all Candidates.isHexDigit then
    if v.length = 32 then "md5" else if v.length = 40 then "sha1"
    else if v.length = 64 then "sha256" else "hash"
  else "hash"

/-- `mapFixedIocTypeToObservableType`. -/
def mapFixedIocTypeToObservableType (fixedType : Option String) : Option String :=
  let t := lowerCase (trim (fixedType.getD ""))
  if t = "file_hash" then some "hash"
  else if t = "domain" ∨ t = "ip" ∨ t = "url" then some t
  else none

/-- What `parseNetworkObservable` does: it answers `null`, or not `ok`, or with a network, or it
throws, where the zone of an address is read as a part of it. -/
inductive NetworkAnswer where
  | null | notOk
  | network (identity : Candidates.StorageIdentity)
  | throws

/-- `parseNetworkObservable`, with all that it answers. -/
def readNetwork (value : String) : NetworkAnswer :=
  let v := (trim value).toList
  let addr := v.takeWhile (· ≠ '/')
  let digits := v.drop (addr.length + 1)
  if v = [] || v.any isJsWhitespace then .null
  else if !(Candidates.isIPv4 addr || Candidates.isIPv6 addr || Candidates.isZonedIPv6 addr) then
    -- the shape of a network that is none
    if v.contains '/' && addr ≠ [] && addr.all (fun c => c.isDigit || c = '.') && digits ≠ [] &&
        digits.all Char.isDigit then .notOk
    else .null
  else if v.contains '/' && (Candidates.parseNetwork (Candidates.isIPv4 addr) 0 digits).isNone then
    .notOk
  else match Candidates.parseZonedObservable value with
    | some network => .network network.identity
    | none => .throws

example : (match readNetwork "fe80::1%:zz" with | .throws => true | _ => false) = true := by decide

/-- `ioc_type_mode`, `fixed_ioc_type` and what else the parser reads of a feed. -/
structure ParseOptions where
  (format contentType url iocTypeMode : String)
  fixedIocType : Option String

/-- `resolveObservableType`; an exception has the message of `networkError`. -/
def resolveObservableType (networkError : String → String) (value : String)
    (csvType : Option String) (opts : ParseOptions) : Except String (Option String) :=
  if opts.iocTypeMode = "fixed" then
    .ok <| (mapFixedIocTypeToObservableType opts.fixedIocType).map fun mapped =>
      if mapped = "hash" then normalizeHashType value else mapped
  else
    let fromCsv := lowerCase (trim (csvType.getD ""))
    if fromCsv = "file_hash" ∨ fromCsv = "hash" then .ok (some (normalizeHashType value))
    else if fromCsv ∈ ["domain", "ip", "url", "ipv4", "ipv6"] then
      .ok (some (if fromCsv = "ipv4" then "ip" else fromCsv))
    else match readNetwork value with
      | .network identity => .ok (some identity.type)
      | .notOk => .ok none
      | .throws => .error (networkError value)
      | .null => .ok <| (inferObservableType value).map fun inferred =>
        if inferred = "hash" then normalizeHashType value else inferred

/-- The prefix length that may follow a dotted quad. -/
def isPrefixText (v : List Char) : Bool := v ≠ [] && v.length ≤ 2 && v.all Char.isDigit

/-- `validateValueForType`. -/
def validateValueForType (value observableType : String) : Bool :=
  let v := trimChars value.toList
  let t := lowerCase observableType
  if v = [] then false
  else if t = "ip" then
    let addr := v.takeWhile (· ≠ '/')
    isDottedQuad addr && (addr.length = v.length || isPrefixText (v.drop (addr.length + 1)))
  else if t = "ipv6" then v.contains ':'
  else if t = "domain" then v.all fun c => c.isAlphanum || c = '.' || c = '-'
  else if t = "url" then hasHttpScheme v || v.contains '/'
  else if t ∈ ["hash", "md5", "sha1", "sha256"] then isHashText v
  else true

section parser

-- The message of an exception, and `normalizeUrlForMatch`, which the URL library decides.
variable (networkError normalizeUrl : String → String)

/-- `normalizeParsedValue`. -/
def normalizeParsedValue (value observableType : String) : Except String String :=
  let t := lowerCase observableType
  if t = "ip" ∨ t = "ipv6" then
    match readNetwork value with
    | .network identity => .ok (if identity.type = t then identity.value else trim value)
    | .throws => .error (networkError value)
    | .notOk | .null => .ok (trim value)
  else if t = "url" then .ok (if trim value = "" then "" else normalizeUrl (trim value))
  else if t = "domain" ∨ t ∈ ["hash", "md5", "sha1", "sha256"] then .ok (lowerCase (trim value))
  else .ok (trim value)

/-- A row of `valid`. -/
structure ParsedRow where
  (observable observableType : String)
  confidence : Option String
  raw : String

/-- A row of `invalidRows`. -/
structure InvalidRow where
  (raw reason : String)

/-- What a parser returns. -/
structure Parsed where
  valid : List ParsedRow
  invalidRows : List InvalidRow
  totalRows : ℕ

/-- `MAX_INVALID_SAMPLES`. -/
def MAX_INVALID_SAMPLES : ℕ := 20

/-- What becomes of a data row: a row to import, or the reason why there is none; or the parser
throws. -/
abbrev RowAnswer := Except String (Except InvalidRow ParsedRow)

/-- The body of the two loops, for a data row. -/
def classifyRow (opts : ParseOptions) (raw : String) (csvType confidence : Option String) :
    RowAnswer := do
  match ← resolveObservableType networkError raw csvType opts with
  | none => pure (.error ⟨raw, "Could not detect IOC type"⟩)
  | some observableType =>
    if opts.iocTypeMode = "fixed" ∧ !validateValueForType raw observableType then
      pure (.error ⟨raw, "Value does not match fixed type " ++ opts.fixedIocType.getD "null"⟩)
    else
      let observable ← normalizeParsedValue networkError normalizeUrl raw observableType
      pure (if observable = "" then .error ⟨raw, "Empty value after normalization"⟩
        else .ok ⟨observable, observableType, confidence, raw⟩)

/-- `pushInvalid`. -/
def pushInvalid (invalidRows : List InvalidRow) (row : InvalidRow) : List InvalidRow :=
  if MAX_INVALID_SAMPLES ≤ invalidRows.length then invalidRows
  else invalidRows ++ [{ row with raw := String.ofList (row.raw.toList.take 500) }]

/-- The row is kept, or sampled as invalid. -/
def addRow (p : Parsed) : Except InvalidRow ParsedRow → Parsed
  | .ok row => { p with valid := p.valid ++ [row] }
  | .error row => { p with invalidRows := pushInvalid p.invalidRows row }

/-- An answer ends the loop or adds its row. -/
def addAnswer (p : Parsed) (answer : RowAnswer) : Except String Parsed := answer.map (addRow p)

/-- The loop body of `parseTxtFeedContent`. -/
def addTxtLine (opts : ParseOptions) (p : Parsed) (line : List Char) : Except String Parsed :=
  if isCommentLine line then pure p
  else if trimChars line = [] then pure p
  else addAnswer p
    (classifyRow networkError normalizeUrl opts (String.ofList (trimChars line)) none none)

/-- `parseTxtFeedContent`. -/
def parseTxtFeedContent (text : String) (opts : ParseOptions) : Except String Parsed := do
  let lines := splitLines text.toList
  let p ← lines.foldlM (addTxtLine networkError normalizeUrl opts) ⟨[], [], 0⟩
  pure { p with totalRows := (lines.filter fun l => !isCommentLine l && trimChars l ≠ []).length }

/-- `findHeaderIndex`. -/
def findHeaderIndex (headers : List (List Char)) (names : List String) : Option ℕ :=
  names.findSome? fun name =>
    (headers.map fun h => lowerCase (trim (String.ofList h))).findIdx? (· = name)

/-- The columns that the header of a CSV text names. -/
structure CsvHeader where
  (value type confidence : Option ℕ)

/-- The header of a CSV text; without a value column there is none. -/
def csvHeader (firstLine : List Char) : CsvHeader :=
  let cols := splitCsvLine firstLine
  match findHeaderIndex cols ["value", "ioc", "indicator"] with
  | none => ⟨none, none, none⟩
  | some value => ⟨some value, findHeaderIndex cols ["type"], findHeaderIndex cols ["confidence"]⟩

/-- The text of the value column. -/
def csvValue (header : CsvHeader) (line : List Char) : List Char :=
  trimChars ((splitCsvLine line)[header.value.getD 0]?.getD [])

/-- The loop body of `parseCsvFeedContent`. -/
def addCsvLine (opts : ParseOptions) (header : CsvHeader) (p : Parsed) (line : List Char) :
    Except String Parsed :=
  let cols := splitCsvLine line
  let raw := csvValue header line
  let csvType := header.type.bind fun i => cols[i]?.map String.ofList
  let confidence := (header.confidence.bind fun i => cols[i]?.filter (· ≠ [])).map fun col =>
    lowerCase (trim (String.ofList col))
  if raw = [] then pure p
  else addAnswer p
    (classifyRow networkError normalizeUrl opts (String.ofList raw) csvType confidence)

/-- `parseCsvFeedContent`. -/
def parseCsvFeedContent (text : String) (opts : ParseOptions) : Except String Parsed :=
  match (splitLines text.toList).filter fun l => !isCommentLine l with
  | [] => pure ⟨[], [], 0⟩
  | first :: rest => do
    let header := csvHeader first
    let dataLines := if header.value.isSome then rest else first :: rest
    let p ← dataLines.foldlM (addCsvLine networkError normalizeUrl opts header) ⟨[], [], 0⟩
    pure { p with totalRows := (dataLines.filter fun l => csvValue header l ≠ []).length }

/-- `detectFormatFromContent`. -/
def detectFormatFromContent (text contentType url : String) : String :=
  let contentType := (lowerCase contentType).toList
  let path := (lowerCase url).toList
  if "csv".toList <:+: contentType ∨ ".csv".toList <:+ path then "csv"
  else if "text/plain".toList <:+: contentType ∨ ".txt".toList <:+ path then "txt"
  else
    let lines := ((splitLines (text.toList.take 4096)).filter fun l => !isCommentLine l).take 5
    let commaLines := (lines.filter fun l => l.contains ',').length
    if lines ≠ [] ∧ lines.length ≤ 2 * commaLines then "csv" else "txt"

/-- The format of a feed, detected where the feed leaves it open. -/
def formatOf (text : String) (opts : ParseOptions) : String :=
  if opts.format = "auto" then detectFormatFromContent text opts.contentType opts.url else opts.format

/-- `parseFeedContent`. -/
def parseFeedContent (text : String) (opts : ParseOptions) : Except String Parsed :=
  if formatOf text opts = "csv" then parseCsvFeedContent networkError normalizeUrl text opts
  else parseTxtFeedContent networkError normalizeUrl text opts

/-- The answer for a line, if it is a data row. -/
def txtRow (opts : ParseOptions) (line : List Char) : Option RowAnswer :=
  if !isCommentLine line && trimChars line ≠ [] then
    some (classifyRow networkError normalizeUrl opts (String.ofList (trimChars line)) none none)
  else none

/-- The answer for a CSV line, if it is a data row. -/
def csvRow (opts : ParseOptions) (header : CsvHeader) (line : List Char) : Option RowAnswer :=
  let cols := splitCsvLine line
  if csvValue header line ≠ [] then
    some (classifyRow networkError normalizeUrl opts (String.ofList (csvValue header line))
      (header.type.bind fun i => cols[i]?.map String.ofList)
      ((header.confidence.bind fun i => cols[i]?.filter (· ≠ [])).map fun col =>
        lowerCase (trim (String.ofList col))))
  else none

/-- The data rows of a content, each with the answer of the parser. -/
def dataRows (text : String) (opts : ParseOptions) : List RowAnswer :=
  if formatOf text opts = "csv" then
    match (splitLines text.toList).filter fun l => !isCommentLine l with
    | [] => []
    | first :: rest =>
      let header := csvHeader first
      (if header.value.isSome then rest else first :: rest).filterMap
        (csvRow networkError normalizeUrl opts header)
  else (splitLines text.toList).filterMap (txtRow networkError normalizeUrl opts)

/-- The parser finds the row invalid. -/
def isInvalid : RowAnswer → Bool
  | .ok (.error _) => true
  | _ => false

/-- The parser throws at the row. -/
def throws : RowAnswer → Bool
  | .ok _ => false
  | .error _ => true

variable {networkError normalizeUrl} {opts : ParseOptions} {rows : List RowAnswer} {p : Parsed}

/-- A partial map keeps as many entries as it is defined on. -/
theorem length_filterMap_eq {α β : Type*} {f : α → Option β} {q : α → Bool} {l : List α}
    (h : ∀ a, (f a).isSome = q a) : (l.filterMap f).length = (l.filter q).length := by
  rw [length_filterMap_eq_countP, countP_eq_length_filter]
  congr 2
  exact funext h

/-- A loop that passes over some lines is the loop over the rows of the others. -/
theorem foldlM_filterMap_eq {α : Type*} {f : α → Option RowAnswer}
    {step : Parsed → α → Except String Parsed} {l : List α}
    (h : ∀ p a, step p a = ((f a).map (addAnswer p)).getD (pure p)) :
    l.foldlM step p = (l.filterMap f).foldlM addAnswer p := by
  rw [foldlM_filterMap]
  congr 1
  funext p a
  rw [h p a]
  cases f a <;> rfl

/-- The parsers run one loop over the data rows, and count them. -/
theorem parseFeedContent_eq {text : String} :
    parseFeedContent networkError normalizeUrl text opts =
      ((dataRows networkError normalizeUrl text opts).foldlM addAnswer ⟨[], [], 0⟩).map fun p =>
        { p with totalRows := (dataRows networkError normalizeUrl text opts).length } := by
  unfold parseFeedContent dataRows
  split
  · unfold parseCsvFeedContent
    split
    · rfl
    · next first rest _ =>
      dsimp only
      rw [foldlM_filterMap_eq (f := csvRow networkError normalizeUrl opts (csvHeader first)),
        length_filterMap_eq]
      · rfl
      · intro line
        unfold csvRow
        split <;> simp_all
      · intro p line
        unfold addCsvLine csvRow
        by_cases hvalue : csvValue (csvHeader first) line = [] <;> simp [hvalue]
  · unfold parseTxtFeedContent
    dsimp only
    rw [foldlM_filterMap_eq (f := txtRow networkError normalizeUrl opts), length_filterMap_eq]
    · rfl
    · intro line
      unfold txtRow
      split <;> simp_all
    · intro p line
      unfold addTxtLine txtRow
      by_cases hcomment : isCommentLine line <;> by_cases hblank : trimChars line = [] <;>
        simp [hcomment, hblank]

/-- A row that throws ends the loop with an exception. -/
theorem foldlM_addAnswer_error (h : ∃ row ∈ rows, throws row = true) :
    ∃ message, rows.foldlM addAnswer p = .error message := by
  induction rows generalizing p with
  | nil =>
    obtain ⟨_, hrow, -⟩ := h
    cases hrow
  | cons row rows ih =>
    cases row with
    | error message => exact ⟨message, rfl⟩
    | ok row =>
      obtain ⟨thrown, hmem, hthrows⟩ := h
      rcases mem_cons.mp hmem with rfl | hmem
      · cases hthrows
      · exact ih ⟨thrown, hmem, hthrows⟩

/-- Else the loop keeps all valid rows, and as many of the invalid ones as are sampled. -/
theorem foldlM_addAnswer_ok (h : ∀ row ∈ rows, throws row = false)
    (hp : p.invalidRows.length ≤ MAX_INVALID_SAMPLES) :
    ∃ p', rows.foldlM addAnswer p = .ok p' ∧
      p'.valid.length + rows.countP isInvalid = p.valid.length + rows.length ∧
      p'.invalidRows.length =
        min MAX_INVALID_SAMPLES (p.invalidRows.length + rows.countP isInvalid) := by
  induction rows generalizing p with
  | nil => exact ⟨p, rfl, rfl, (min_eq_right hp).symm⟩
  | cons row rows ih =>
    obtain ⟨hrow, hrest⟩ := forall_mem_cons.mp h
    cases row with
    | error message => cases hrow
    | ok answer =>
      have hsamples : (addRow p answer).invalidRows.length =
          min MAX_INVALID_SAMPLES (p.invalidRows.length + [Except.ok answer].countP isInvalid) ∧
          (addRow p answer).valid.length + [Except.ok answer].countP isInvalid =
            p.valid.length + 1 := by
        cases answer with
        | ok row =>
          refine ⟨(min_eq_right hp).symm, ?_⟩
          simp [addRow, isInvalid]
        | error row =>
          simp only [addRow, pushInvalid, countP_singleton, isInvalid, if_true]
          split
          · exact ⟨by omega, trivial⟩
          · rw [length_append, length_singleton]
            exact ⟨by omega, trivial⟩
      obtain ⟨p', hloop, hvalid, hinvalid⟩ :=
        @ih (addRow p answer) hrest (hsamples.1 ▸ min_le_left _ _)
      refine ⟨p', hloop, ?_, ?_⟩
      · rw [← singleton_append, countP_append, length_append, length_singleton]
        omega
      · rw [← singleton_append, countP_append]
        omega

/-- The counts of a parsed content. -/
theorem parseFeedContent_counts {text : String}
    (h : ∀ row ∈ dataRows networkError normalizeUrl text opts, throws row = false) :
    ∃ parsed, parseFeedContent networkError normalizeUrl text opts = .ok parsed ∧
      parsed.totalRows = (dataRows networkError normalizeUrl text opts).length ∧
      parsed.valid.length + (dataRows networkError normalizeUrl text opts).countP isInvalid =
        (dataRows networkError normalizeUrl text opts).length ∧
      parsed.invalidRows.length = min MAX_INVALID_SAMPLES
        ((dataRows networkError normalizeUrl text opts).countP isInvalid) := by
  obtain ⟨p, hloop, hvalid, hinvalid⟩ :=
    @foldlM_addAnswer_ok _ ⟨[], [], 0⟩ h (Nat.zero_le _)
  rw [parseFeedContent_eq, hloop]
  simp only [length_nil, Nat.zero_add] at hvalid hinvalid
  exact ⟨_, rfl, rfl, hvalid, hinvalid⟩

/-- A content with a row at which the parser throws is not parsed. -/
theorem parseFeedContent_error {text : String}
    (h : ∃ row ∈ dataRows networkError normalizeUrl text opts, throws row = true) :
    ∃ message, parseFeedContent networkError normalizeUrl text opts = .error message := by
  obtain ⟨message, hloop⟩ := @foldlM_addAnswer_error _ ⟨[], [], 0⟩ h
  rw [parseFeedContent_eq, hloop]
  exact ⟨message, rfl⟩

end parser

/-- What the parts outside of the run decide. -/
structure SyncEnv where
  /-- The message of the exception that `parseNetworkObservable` throws on a value. -/
  networkError : String → String
  /-- `normalizeUrlForMatch`. -/
  normalizeUrl : String → String
  /-- `computeCustomThreatFeedContentFingerprint`. -/
  fingerprint : String → String → String → String
  isIocSuppressed : String → String → Bool
  /-- `redactCustomFeedSecrets`, on a message of at most 4000 characters. -/
  redact : String → String

/-- The row of a feed, and the policies that hold for it. -/
structure FeedRow where
  integrationFeedId : ℕ
  parse : ParseOptions
  defaultConfidence : Option String
  /-- `feed_update_mode` is `snapshot`. -/
  snapshot : Bool
  policies : PolicyTables

/-- What the fetch of a feed returns. -/
structure FeedResponse where
  ok : Bool
  (httpStatus fetchedBytes : ℕ)
  (contentType bodyText : String)

/-- What happens during a run: when it starts, what the fetch gives, and when it is aborted. -/
structure SyncInput where
  (seenAt finishedAt : ℤ)
  fetched : Except String FeedResponse
  abortedAtStart : Bool
  /-- The signal is aborted before the valid row of this index. -/
  abortedAt : ℕ → Bool

/-- The counters of a run. -/
structure Counters where
  httpStatus : Option ℕ
  (fetchedBytes totalRows validRows invalidRows inserted updated refreshed unchanged adopted : ℕ)
  (duplicateRows expiredMissing : ℕ)

/-- The counters before the run. -/
def Counters.zero : Counters := ⟨none, 0, 0, 0, 0, 0, 0, 0, 0, 0, 0, 0⟩

/-- The status of a run at its end. -/
inductive SyncStatus where
  | success | partialSuccess | failed

/-- What a run stores, and the tables that it leaves. -/
structure SyncResult where
  status : SyncStatus
  counters : Counters
  errorMessage : Option String
  invalidSamples : List InvalidRow
  tables : IocTables

/-- The state of the import loop. -/
structure SyncState where
  run : RunState
  counters : Counters
  seenKeys : List ItemKey
  seenObservables : List Observed

/-- An id that no row has. -/
def freshId (ids : List ℕ) : ℕ := ids.foldr max 0 + 1

/-- A fresh id is not taken. -/
theorem freshId_notMem (ids : List ℕ) : freshId ids ∉ ids := by
  have hle : ∀ n ∈ ids, n ≤ ids.foldr max 0 := by
    induction ids with
    | nil => simp
    | cons m ids ih =>
      intro n hn
      rw [foldr_cons]
      rcases mem_cons.mp hn with rfl | hn
      · omega
      · have := ih n hn
        omega
  intro hmem
  have := hle _ hmem
  unfold freshId at this
  omega

/-- With a fresh id the upsert has a row to work on. -/
theorem upsertTables_isSome (policies : PolicyTables) (call : ImportCall) (key : MembershipKey)
    (t : IocTables) :
    (upsertTables policies call (freshId (t.memberships.map Membership.id)) key t).isSome := by
  unfold upsertTables
  dsimp only
  split
  · rfl
  · rw [dif_pos (freshId_notMem _)]
    rfl

/-- `upsertMembershipOnImport`, with the id that the database gives a new row. -/
def upsertMembership (policies : PolicyTables) (call : ImportCall) (key : MembershipKey)
    (t : IocTables) : ImportResult × IocTables :=
  (upsertTables policies call (freshId (t.memberships.map Membership.id)) key t).get
    (upsertTables_isSome policies call key t)

/-- The first row of an observable, or a new one, and whether it is new. -/
def findOrInsertItem (s : RunState) (observed : Observed) : RunState × ItemKey × Bool :=
  match s.tables.items.find? fun i => i.observed = observed with
  | some i => (s, i.key, false)
  | none =>
    let id := freshId (s.tables.items.map IocItem.id ++ s.tables.memberships.map Membership.iocItemId)
    ((runStep s (.insertItem id observed)).getD s, (newItem id observed).key, true)

/-- The text of a level. -/
def levelText : IocList.ConfidenceLevel → String
  | .low => "low"
  | .medium => "medium"
  | .high => "high"

/-- `resolveRowConfidence`. -/
def resolveRowConfidence (rowConfidence feedDefaultConfidence : Option String) : String :=
  levelText ((IocList.normalizeConfidence rowConfidence <|>
    IocList.normalizeConfidence feedDefaultConfidence).getD .medium)

section sync

variable (env : SyncEnv) (feed : FeedRow) (input : SyncInput)

/-- The membership call of a row. -/
def importCall (row : ParsedRow) : ImportCall where
  seenAt := input.seenAt
  firstSeenAt := none
  observedAt := none
  explicitConfidence := some (resolveRowConfidence row.confidence feed.defaultConfidence)
  contentFingerprint := some (env.fingerprint row.observable row.observableType
    (resolveRowConfidence row.confidence feed.defaultConfidence))
  reactivateOnly := false

/-- What the counters learn from a row: `inserted`, and the outcome of its membership. -/
def Counters.note (c : Counters) (created : Bool) (outcome : ImportOutcome) : Counters :=
  if outcome = .created ∨ created then { c with inserted := c.inserted + 1 }
  else if outcome = .changed then { c with updated := c.updated + 1 }
  else if outcome = .reactivated then { c with refreshed := c.refreshed + 1 }
  else if outcome = .adopted then
    { c with
      adopted := c.adopted + 1
      unchanged := c.unchanged + 1
      duplicateRows := c.duplicateRows + 1 }
  else if outcome = .unchanged then
    { c with unchanged := c.unchanged + 1, duplicateRows := c.duplicateRows + 1 }
  else c

/-- `upsertIocRow`: the item, its membership, and what the counters need. -/
def upsertIocRow (s : RunState) (row : ParsedRow) : RunState × ItemKey × Bool × ImportOutcome :=
  let (s, key, created) := findOrInsertItem s ⟨row.observable, row.observableType⟩
  let (result, tables) := upsertMembership feed.policies (importCall env feed input row)
    ⟨key, feed.integrationFeedId⟩ s.tables
  (afterUpsert env.isIocSuppressed input.seenAt key result { s with tables := tables }, key, created,
    result.outcome)

/-- The loop body over the valid rows. -/
def importRow (s : SyncState) (row : ParsedRow) : SyncState :=
  let observed : Observed := ⟨row.observable, row.observableType⟩
  if observed ∈ s.seenObservables then
    { s with counters := { s.counters with duplicateRows := s.counters.duplicateRows + 1 } }
  else
    let (run, key, created, outcome) := upsertIocRow env feed input s.run row
    { run := run
      counters := s.counters.note created outcome
      seenKeys := s.seenKeys ++ [key]
      seenObservables := observed :: s.seenObservables }

/-- The loop over the valid rows from the one of index `i`, and whether it was aborted. -/
def importRows (i : ℕ) (s : SyncState) : List ParsedRow → SyncState × Bool
  | [] => (s, false)
  | row :: rest =>
    if input.abortedAt i then (s, true) else importRows (i + 1) (importRow env feed input s row) rest

/-- The memberships that the end of a snapshot run does not see. -/
def absentMemberships (t : IocTables) (seenKeys : List ItemKey) : List Membership :=
  t.memberships.filter fun m =>
    m.feedId = feed.integrationFeedId && m.status = .active && m.itemKey ∉ seenKeys

/-- `finalizeSnapshotFeedRun`. -/
def finalizeSnapshotFeedRun (s : RunState) (seenKeys : List ItemKey) : RunState × ℕ :=
  let policy := feed.policies.getFeedPolicy feed.integrationFeedId "all"
  if feed.snapshot && policy.any (fun p => p.enabled && p.expirationMode = .missingFromFeedTtl) &&
      seenKeys ≠ [] then
    let absent := absentMemberships feed s.tables seenKeys
    (absent.foldl (fun s m => writeAndSchedule m.key (finalizeMissing feed.policies input.finishedAt)
      (finalizeMissing_same feed.policies input.finishedAt) s) s, absent.length)
  else (s, 0)

/-- `flushDeferredIocRecomputes`. -/
def flushDeferred (s : RunState) : IocTables :=
  s.deferred.foldl (fun t key =>
    (recomputeIocGlobalStatus env.isIocSuppressed input.finishedAt t key).2) s.tables

/-- The result of a run that threw. -/
def syncFailed (tables : IocTables) (counters : Counters) (samples : List InvalidRow)
    (message : String) : SyncResult :=
  ⟨.failed, counters, some (env.redact (String.ofList (message.toList.take 4000))), samples, tables⟩

/-- The part of the run after the content is parsed. -/
def importParsed (tables : IocTables) (counters : Counters) (parsed : Parsed) : SyncResult :=
  let counters := { counters with
    totalRows := parsed.totalRows
    validRows := parsed.valid.length
    invalidRows := parsed.invalidRows.length }
  let (s, aborted) := importRows env feed input 0 ⟨RunState.begin tables, counters, [], []⟩ parsed.valid
  if aborted then
    -- the deferred recomputations are dropped, the rows stay written
    syncFailed env s.run.tables s.counters parsed.invalidRows "Sync aborted"
  else
    let (run, marked) := finalizeSnapshotFeedRun feed input s.run s.seenKeys
    let counters := { s.counters with expiredMissing := marked }
    { status := if 0 < counters.invalidRows ∧ 0 < counters.validRows then .partialSuccess
        else if counters.validRows = 0 ∧ 0 < counters.totalRows then .failed
        else .success
      counters := counters
      errorMessage := none
      invalidSamples := parsed.invalidRows.take 20
      tables := flushDeferred env input run }

/-- `runCustomThreatFeedSync`. -/
def runCustomThreatFeedSync (tables : IocTables) : SyncResult :=
  if input.abortedAtStart then syncFailed env tables .zero [] "Sync aborted"
  else match input.fetched with
    | .error message => syncFailed env tables .zero [] message
    | .ok fetched =>
      let counters := { Counters.zero with
        httpStatus := some fetched.httpStatus
        fetchedBytes := fetched.fetchedBytes }
      if !fetched.ok then
        syncFailed env tables counters [] ("HTTP " ++ toString fetched.httpStatus ++ ": fetch failed")
      else match parseFeedContent env.networkError env.normalizeUrl fetched.bodyText
          { feed.parse with contentType := fetched.contentType } with
        | .error message => syncFailed env tables counters [] message
        | .ok parsed => importParsed env feed input tables counters parsed

variable {m m' row : Membership} {now : ℤ} {policy : Option FeedPolicy} {call : ImportCall}

/-- The override of the membership has expired it. -/
def OverrideExpired (now : ℤ) (m : Membership) : Prop :=
  m.overrideEnabled ∧ (m.overrideStatus = some .expired ∨
    m.overrideStatus = none ∧ ∃ date, m.overrideExpiresAt = some date ∧ date ≤ now)

/-- The membership has not become missing, and it has expired through its own override at most. -/
structure Spared (now : ℤ) (m m' : Membership) : Prop where
  key : m'.key = m.key
  overrideEnabled : m'.overrideEnabled = m.overrideEnabled
  overrideStatus : m'.overrideStatus = m.overrideStatus
  overrideExpiresAt : m'.overrideExpiresAt = m.overrideExpiresAt
  missing : m'.missingSince = none ∨ m'.missingSince = m.missingSince
  status : m'.status = .expired → m.status = .expired ∨ OverrideExpired now m

/-- A membership that is there for the first time, active and not missing. -/
structure Appeared (m : Membership) : Prop where
  overrideEnabled : m.overrideEnabled = false
  missing : m.missingSince = none
  status : m.status ≠ .expired

/-- An untouched membership is spared. -/
theorem Spared.refl (m : Membership) : Spared now m m := ⟨rfl, rfl, rfl, rfl, .inr rfl, .inl⟩

/-- What two steps spare is spared. -/
theorem Spared.trans {m₁ m₂ m₃ : Membership} (h₁ : Spared now m₁ m₂) (h₂ : Spared now m₂ m₃) :
    Spared now m₁ m₃ := by
  refine ⟨h₂.key.trans h₁.key, h₂.overrideEnabled.trans h₁.overrideEnabled,
    h₂.overrideStatus.trans h₁.overrideStatus, h₂.overrideExpiresAt.trans h₁.overrideExpiresAt, ?_, ?_⟩
  · rcases h₂.missing with h | h
    · exact .inl h
    · rw [h]
      exact h₁.missing
  · intro hexpired
    rcases h₂.status hexpired with h | h
    · exact h₁.status h
    · unfold OverrideExpired at h ⊢
      rw [h₁.overrideEnabled, h₁.overrideStatus, h₁.overrideExpiresAt] at h
      exact .inr h

/-- A new membership that is spared afterwards is still a new one. -/
theorem Appeared.trans (h : Appeared m) (h' : Spared now m m') : Appeared m' := by
  refine ⟨h'.overrideEnabled.trans h.overrideEnabled, ?_, ?_⟩
  · rcases h'.missing with hmissing | hmissing
    · exact hmissing
    · rw [hmissing, h.missing]
  · intro hexpired
    rcases h'.status hexpired with hstatus | hoverride
    · exact h.status hstatus
    · have henabled := hoverride.1
      rw [h.overrideEnabled] at henabled
      cases henabled

/-- The policy expires a membership that is there after its last observation only. -/
theorem lt_of_computePolicyExpiresAt {first last date : ℤ}
    (h : computePolicyExpiresAt policy (some first) (some last) none = some date) : last < date := by
  unfold computePolicyExpiresAt at h
  split at h
  · cases h
  · split at h
    · cases h
    · split at h
      · obtain ⟨base, hbase, h⟩ := bind_eq_some_iff.mp h
        cases hbase
        obtain ⟨days, -, h⟩ := bind_eq_some_iff.mp h
        exact lt_of_addDays h
      · cases h
      · cases h

/-- The computed status of a membership that was just observed. -/
theorem overrideExpired_of_resolved (hmissing : row.missingSince = none) (hseen : now ≤ row.lastSeenInFeed)
    (h : (computeMembershipFieldPatch row policy now).status = .expired) : OverrideExpired now row := by
  have hpolicy : ∀ date, computePolicyExpiresAt policy (some row.firstSeenInFeed)
      (some row.lastSeenInFeed) row.missingSince = some date → now < date := by
    intro date hdate
    rw [hmissing] at hdate
    have := lt_of_computePolicyExpiresAt hdate
    omega
  revert hpolicy h
  generalize hdate : computePolicyExpiresAt policy (some row.firstSeenInFeed)
    (some row.lastSeenInFeed) row.missingSince = policyDate
  intro h hpolicy
  simp only [computeMembershipFieldPatch, hdate, resolveMembershipStatus] at h
  unfold OverrideExpired
  have hundue : ∀ date ∈ policyDate, ¬ date ≤ now := fun date hin => not_le.mpr (hpolicy date hin)
  split at h
  · next status henabled hstatus =>
    cases status with
    | active => cases h
    | expired => exact ⟨henabled, .inl hstatus⟩
  · next hnone =>
    have hdue := Classical.byContradiction fun hnot => by
      rw [if_neg hnot] at h
      cases h
    obtain ⟨date, heffective, hle⟩ := (any_eq_true _ _).mp hdue
    have hle := of_decide_eq_true hle
    unfold resolveEffectiveExpiresAt at heffective
    cases henabled : row.overrideEnabled with
    | false =>
      simp only [henabled, Bool.false_eq_true, if_false] at heffective
      exact absurd hle (hundue date heffective)
    | true =>
      cases hstatus : row.overrideStatus with
      | some status => exact absurd hstatus (hnone status henabled)
      | none =>
        refine ⟨rfl, .inr ⟨rfl, ?_⟩⟩
        simp only [henabled, hstatus, if_true] at heffective
        cases hexpires : row.overrideExpiresAt with
        | some date' =>
          rw [hexpires] at heffective
          exact ⟨date', rfl, by rw [Option.some.inj heffective]; exact hle⟩
        | none =>
          rw [hexpires] at heffective
          exact absurd hle (hundue date heffective)

/-- The computed fields spare a membership that was just observed. -/
theorem spared_computedRow {level : Option String} (hrow : Spared now m row)
    (hmissing : row.missingSince = none) (hseen : now ≤ row.lastSeenInFeed) :
    Spared now m { computedRow policy now row with explicitConfidence := level } := by
  have hbasis : SameBasis row (computedRow policy now row) := sameBasis_computedRow
  have hstatus : (computedRow policy now row).status =
      (computeMembershipFieldPatch row policy now).status := by
    by_cases hagrees : Agrees policy now row
    · rw [computedRow_of_agrees hagrees]
      exact hagrees.status_eq
    · rw [computedRow_of_not_agrees hagrees]
      rfl
  have hsame : (computedRow policy now row).missingSince = none := by
    by_cases hagrees : Agrees policy now row
    · rw [computedRow_of_agrees hagrees]
      exact hmissing
    · rw [computedRow_of_not_agrees hagrees]
      exact hmissing
  refine ⟨hbasis.key.trans hrow.key, hbasis.overrideEnabled.trans hrow.overrideEnabled,
    hbasis.overrideStatus.trans hrow.overrideStatus,
    hbasis.overrideExpiresAt.trans hrow.overrideExpiresAt, .inl hsame, fun hexpired => .inr ?_⟩
  have hoverride := overrideExpired_of_resolved hmissing hseen (hstatus.symm.trans hexpired)
  unfold OverrideExpired at hoverride ⊢
  rwa [hrow.overrideEnabled, hrow.overrideStatus, hrow.overrideExpiresAt] at hoverride

/-- A call without dates of the source. -/
structure Undated (call : ImportCall) : Prop where
  firstSeenAt : call.firstSeenAt = none
  observedAt : call.observedAt = none
  reactivateOnly : call.reactivateOnly = false

/-- A custom feed dates nothing: its rows carry no times of their own. -/
theorem undated_importCall (row : ParsedRow) : Undated (importCall env feed input row) :=
  ⟨rfl, rfl, rfl⟩

/-- An undated call changes nothing before the import. -/
theorem Undated.beforeReimport (h : Undated call) :
    beforeReimport policy call m = ⟨m, m, false, .unchanged⟩ := by
  simp [IocExpiration.beforeReimport, observeSource, lowerFirstSeen, lowersFirstSeen, h.firstSeenAt,
    h.observedAt]

/-- An undated call is seen when the run sees it. -/
theorem Undated.lastSeenWriteAt (h : Undated call) : call.lastSeenWriteAt = call.seenAt := by
  simp [ImportCall.lastSeenWriteAt, h.observedAt]

/-- The exit of an undated call on a healthy membership. -/
theorem Undated.healthyExit (h : Undated call) {result : ImportResult}
    (hexit : healthyExit policy call m = some result) :
    Spared call.seenAt m result.membership ∧ result.outcome ≠ .reobserved := by
  unfold IocExpiration.healthyExit at hexit
  simp only [h.beforeReimport, h.reactivateOnly, Bool.false_eq_true, if_false] at hexit
  split at hexit
  · cases hexit
  · split at hexit
    · obtain ⟨-, rfl⟩ := Run.enabled hexit
      unfold adoptFingerprint
      split
      · split
        · exact ⟨⟨rfl, rfl, rfl, rfl, .inr rfl, .inl⟩, by simp [finishHealthyNoop]⟩
        · exact ⟨Spared.refl m, by simp [finishHealthyNoop]⟩
      · exact ⟨Spared.refl m, by simp [finishHealthyNoop]⟩
    · obtain ⟨-, rfl⟩ := Run.enabled hexit
      exact ⟨Spared.refl m, by simp [finishHealthyNoop]⟩

/-- Finishing keeps the outcome. -/
theorem outcome_finishImport {reactivated : Bool} {st : ImportState} :
    (finishImport policy call reactivated st).outcome = st.outcome := by
  unfold finishImport writeExplicitConfidence ImportState.applyComputed
  split
  · rfl
  · split <;> rfl

/-- The write of an undated import. -/
theorem Undated.spared_reimportSet (h : Undated call) :
    Spared call.seenAt m (reimportSet call m.overrideEnabled m) ∧
      (reimportSet call m.overrideEnabled m).missingSince = none ∧
      call.seenAt ≤ (reimportSet call m.overrideEnabled m).lastSeenInFeed := by
  unfold reimportSet
  rw [h.lastSeenWriteAt]
  dsimp only
  split
  · exact ⟨⟨rfl, rfl, rfl, rfl, .inl rfl, .inl⟩, rfl, le_max_right _ _⟩
  · exact ⟨⟨rfl, rfl, rfl, rfl, .inl rfl, fun hexpired => nomatch hexpired⟩, rfl, le_max_right _ _⟩

/-- An undated import spares the membership. -/
theorem Undated.importKnown (h : Undated call) :
    Spared call.seenAt m (importKnown policy call m).membership ∧
      (importKnown policy call m).outcome ≠ .reobserved := by
  unfold IocExpiration.importKnown
  cases hexit : IocExpiration.healthyExit policy call m with
  | some result => exact h.healthyExit hexit
  | none =>
    rw [h.beforeReimport]
    unfold reimport
    dsimp only
    split
    · have hcoupled : Coupled policy call.seenAt
          { stored := reimportSet call m.overrideEnabled m
            row := reimportSet call m.overrideEnabled m
            touched := true
            outcome := if m.healthyActive then .changed else .reactivated } := .inl rfl
      obtain ⟨level, hmembership⟩ := finishImport_membership (!m.healthyActive) hcoupled
      rw [hmembership, outcome_finishImport]
      exact ⟨spared_computedRow h.spared_reimportSet.1 h.spared_reimportSet.2.1
        h.spared_reimportSet.2.2, by split <;> simp⟩
    · next hwhere =>
      have hcoupled : Coupled policy call.seenAt
          { stored := m, row := m, touched := false, outcome := .unchanged } := .inl rfl
      obtain ⟨level, hmembership⟩ := finishImport_membership false hcoupled
      rw [hmembership, outcome_finishImport]
      simp only [reimportWhere, h.lastSeenWriteAt, Bool.or_eq_true, not_or, decide_eq_true_eq, not_lt,
        Bool.not_eq_true, isSome_eq_false_iff, isNone_iff_eq_none] at hwhere
      exact ⟨spared_computedRow (Spared.refl m) hwhere.1.2 hwhere.1.1.1, by simp⟩

/-- A first undated import inserts a membership that is there. -/
theorem Undated.importNew (h : Undated call) (id : ℕ) (key : MembershipKey) :
    Appeared (importNew policy call id key).membership ∧
      (importNew policy call id key).outcome ≠ .reobserved := by
  obtain ⟨level, hmembership⟩ := importNew_membership policy call id key
  have hseen : call.seenAt ≤ (insertedMembership id key call).lastSeenInFeed :=
    h.lastSeenWriteAt.symm.le
  have hspared : Spared call.seenAt (insertedMembership id key call)
      { computedRow policy call.seenAt (insertedMembership id key call) with
        explicitConfidence := level } := spared_computedRow (Spared.refl _) rfl hseen
  rw [hmembership]
  refine ⟨Appeared.trans ⟨rfl, rfl, by simp [insertedMembership]⟩ hspared, ?_⟩
  rw [IocExpiration.importNew, outcome_finishImport]
  simp

/-- The memberships after are those before, spared, and new ones. -/
def SparesMemberships (now : ℤ) (t t' : IocTables) : Prop :=
  ∀ m' ∈ t'.memberships, (∃ m ∈ t.memberships, Spared now m m') ∨ Appeared m'

variable {t t' : IocTables} {s : SyncState} {run : RunState}

/-- Steps that leave the memberships alone spare them. -/
theorem SparesMemberships.of_eq (h : t'.memberships = t.memberships) : SparesMemberships now t t' := by
  intro m hm
  rw [h] at hm
  exact .inl ⟨m, hm, Spared.refl m⟩

/-- Sparing composes. -/
theorem SparesMemberships.trans {t₁ t₂ t₃ : IocTables} (h₁ : SparesMemberships now t₁ t₂)
    (h₂ : SparesMemberships now t₂ t₃) : SparesMemberships now t₁ t₃ := by
  intro m hm
  rcases h₂ m hm with ⟨m₂, hm₂, hspared⟩ | happeared
  · rcases h₁ m₂ hm₂ with ⟨m₁, hm₁, hfirst⟩ | happeared
    · exact .inl ⟨m₁, hm₁, hfirst.trans hspared⟩
    · exact .inr (happeared.trans hspared)
  · exact .inr happeared

/-- Recomputing a status writes no membership. -/
theorem memberships_recompute {dec : String → String → Bool} {key : ItemKey} :
    (recomputeIocGlobalStatus dec now t key).2.memberships = t.memberships := by
  unfold recomputeIocGlobalStatus
  split
  · rfl
  · split
    · split <;> rfl
    · split
      · rfl
      · split
        · dsimp only
          split <;> rfl
        · unfold recomputeFold
          dsimp only
          split <;> rfl

/-- What follows the upsert writes no membership. -/
theorem memberships_afterUpsert {dec : String → String → Bool} {key : ItemKey} {result : ImportResult} :
    (afterUpsert dec now key result run).tables.memberships = run.tables.memberships := by
  unfold afterUpsert
  split
  · exact memberships_recompute
  · split <;> rfl

/-- Finding or inserting the item writes no membership. -/
theorem memberships_findOrInsertItem {observed : Observed} :
    (findOrInsertItem run observed).1.tables.memberships = run.tables.memberships := by
  unfold findOrInsertItem
  split
  · rfl
  · unfold runStep
    dsimp only
    split
    · split <;> rfl
    · rfl

/-- One upsert spares what is there and never counts as a reobservation. -/
theorem upsertMembership_spares (h : Undated call) {policies : PolicyTables} {key : MembershipKey} :
    SparesMemberships call.seenAt t (upsertMembership policies call key t).2 ∧
      (upsertMembership policies call key t).1.outcome ≠ .reobserved := by
  have hsome := some_get (upsertTables_isSome policies call key t)
  change some (upsertMembership policies call key t) = _ at hsome
  revert hsome
  generalize upsertMembership policies call key t = written
  intro hsome
  unfold upsertTables at hsome
  dsimp only at hsome
  split at hsome
  · next m hm =>
    cases hsome
    refine ⟨fun m' hm' => .inl ?_, h.importKnown.2⟩
    rcases Rows.mem_map_updateWhere.mp hm' with ⟨m₀, hm₀, -, rfl⟩ | ⟨hm', -⟩
    · exact ⟨m₀, hm₀, h.importKnown.1⟩
    · exact ⟨m', hm', Spared.refl m'⟩
  · split at hsome
    · cases hsome
      refine ⟨fun m' hm' => ?_, (h.importNew _ key).2⟩
      rcases mem_append.mp hm' with hm' | hm'
      · exact .inl ⟨m', hm', Spared.refl m'⟩
      · obtain rfl := mem_singleton.mp hm'
        exact .inr (h.importNew _ key).1
    · cases hsome

variable {env feed input}

/-- One row of the file does so as well. -/
theorem upsertIocRow_spares {row : ParsedRow} :
    SparesMemberships input.seenAt run.tables (upsertIocRow env feed input run row).1.tables ∧
      (upsertIocRow env feed input run row).2.2.2 ≠ .reobserved := by
  obtain ⟨hspares, houtcome⟩ := @upsertMembership_spares _
    (findOrInsertItem run ⟨row.observable, row.observableType⟩).1.tables
    (undated_importCall env feed input row) feed.policies
    ⟨(findOrInsertItem run ⟨row.observable, row.observableType⟩).2.1, feed.integrationFeedId⟩
  refine ⟨?_, houtcome⟩
  exact ((SparesMemberships.of_eq memberships_findOrInsertItem).trans hspares).trans
    (SparesMemberships.of_eq memberships_afterUpsert)

/-- The rows that the counters account for. -/
def Counters.accounted (c : Counters) : ℕ := c.inserted + c.updated + c.refreshed + c.duplicateRows

variable {c : Counters}

/-- Every imported row is accounted for once. -/
theorem accounted_note {c : Counters} {created : Bool} {outcome : ImportOutcome}
    (houtcome : outcome ≠ .reobserved) : (c.note created outcome).accounted = c.accounted + 1 := by
  unfold Counters.note Counters.accounted
  cases outcome <;> cases created <;> simp at houtcome ⊢ <;> omega

/-- The counters that are set before the loop. -/
def Counters.parsed (c : Counters) : ℕ × ℕ × ℕ := (c.totalRows, c.validRows, c.invalidRows)

/-- Imported rows leave the parser's counts alone. -/
theorem parsed_note {created : Bool} {outcome : ImportOutcome} :
    (c.note created outcome).parsed = c.parsed := by
  unfold Counters.note Counters.parsed
  cases outcome <;> cases created <;> simp

/-- One row: it is accounted for, and the memberships are spared. -/
theorem importRow_spares {row : ParsedRow} :
    SparesMemberships input.seenAt s.run.tables (importRow env feed input s row).run.tables ∧
      (importRow env feed input s row).counters.accounted = s.counters.accounted + 1 ∧
      (importRow env feed input s row).counters.parsed = s.counters.parsed := by
  unfold importRow
  dsimp only
  split
  · refine ⟨SparesMemberships.of_eq rfl, ?_, rfl⟩
    unfold Counters.accounted
    dsimp only
    omega
  · obtain ⟨hspares, houtcome⟩ := @upsertIocRow_spares env feed input s.run row
    exact ⟨hspares, accounted_note houtcome, parsed_note⟩

/-- The loop: all rows are accounted for unless it is aborted. -/
theorem importRows_spares {rows : List ParsedRow} {i : ℕ} :
    SparesMemberships input.seenAt s.run.tables (importRows env feed input i s rows).1.run.tables ∧
      (importRows env feed input i s rows).1.counters.parsed = s.counters.parsed ∧
      ((importRows env feed input i s rows).2 = false →
        (importRows env feed input i s rows).1.counters.accounted =
          s.counters.accounted + rows.length) := by
  induction rows generalizing i s with
  | nil => exact ⟨SparesMemberships.of_eq rfl, rfl, fun _ => rfl⟩
  | cons row rows ih =>
    unfold importRows
    split
    · exact ⟨SparesMemberships.of_eq rfl, rfl, fun h => nomatch h⟩
    · obtain ⟨hspares, haccounted, hparsed⟩ := @importRow_spares env feed input s row
      obtain ⟨hrest, hparsedRest, haccountedRest⟩ := @ih (importRow env feed input s row) (i + 1)
      refine ⟨hspares.trans hrest, hparsedRest.trans hparsed, fun hdone => ?_⟩
      rw [haccountedRest hdone, haccounted, length_cons]
      omega

variable {tables : IocTables} {counters : Counters} {parsed : Parsed}

/-- What a run reports, beside the counts of its content. -/
structure SoundRun (now : ℤ) (tables : IocTables) (r : SyncResult) : Prop where
  spares : r.status = .failed → SparesMemberships now tables r.tables
  accounted : r.status ≠ .failed → r.counters.accounted = r.counters.validRows

/-- Without valid rows nothing is imported. -/
theorem importRows_of_empty (hempty : parsed.valid = []) :
    importRows env feed input 0 ⟨RunState.begin tables, c, [], []⟩ parsed.valid =
      (⟨RunState.begin tables, c, [], []⟩, false) := by
  rw [hempty, importRows]

/-- An empty snapshot ends nothing. -/
theorem finalizeSnapshotFeedRun_nil : finalizeSnapshotFeedRun feed input run [] = (run, 0) := by
  simp [finalizeSnapshotFeedRun]

/-- After the parser the run is sound and reports what was parsed. -/
theorem importParsed_sound (hzero : counters.accounted = 0) :
    SoundRun input.seenAt tables (importParsed env feed input tables counters parsed) ∧
      (importParsed env feed input tables counters parsed).counters.parsed =
        (parsed.totalRows, parsed.valid.length, parsed.invalidRows.length) ∧
      ((importParsed env feed input tables counters parsed).status = .success →
        parsed.invalidRows.length = 0 ∨ parsed.totalRows = 0) := by
  let c : Counters := { counters with
    totalRows := parsed.totalRows
    validRows := parsed.valid.length
    invalidRows := parsed.invalidRows.length }
  obtain ⟨hspares, hparsed, haccounted⟩ :=
    @importRows_spares env feed input ⟨RunState.begin tables, c, [], []⟩ parsed.valid 0
  unfold importParsed
  dsimp only
  change (_ = false → _ = counters.accounted + parsed.valid.length) at haccounted
  have hempty : parsed.valid = [] → importRows env feed input 0
      ⟨RunState.begin tables, c, [], []⟩ parsed.valid = (⟨RunState.begin tables, c, [], []⟩, false) :=
    fun hnone => importRows_of_empty hnone
  revert hspares hparsed haccounted hempty
  generalize importRows env feed input 0 ⟨RunState.begin tables, c, [], []⟩ parsed.valid = ended
  obtain ⟨s, aborted⟩ := ended
  intro hspares hparsed haccounted hempty
  cases aborted with
  | true => exact ⟨⟨fun _ => hspares, fun hnot => absurd rfl hnot⟩, hparsed, fun h => nomatch h⟩
  | false =>
    have htotal : s.counters.totalRows = parsed.totalRows := congrArg Prod.fst hparsed
    have hvalid : s.counters.validRows = parsed.valid.length :=
      congrArg (fun c : ℕ × ℕ × ℕ => c.2.1) hparsed
    have hinvalid : s.counters.invalidRows = parsed.invalidRows.length :=
      congrArg (fun c : ℕ × ℕ × ℕ => c.2.2) hparsed
    simp only [Bool.false_eq_true, if_false]
    refine ⟨⟨fun hfailed => ?_, fun _ => ?_⟩, hparsed, fun hsuccess => ?_⟩
    · -- a run to its end fails when no row was valid, and then there is nothing to finalize
      have hnone : parsed.valid = [] := by
        split at hfailed
        · cases hfailed
        · split at hfailed
          · next hzero => exact length_eq_zero_iff.mp (hvalid.symm.trans hzero.1)
          · cases hfailed
      obtain ⟨rfl, -⟩ := Prod.mk.inj (hempty hnone)
      rw [finalizeSnapshotFeedRun_nil]
      exact SparesMemberships.of_eq rfl
    · have hrows : s.counters.accounted = counters.accounted + parsed.valid.length := haccounted rfl
      change s.counters.accounted = s.counters.validRows
      omega
    · split at hsuccess
      · cases hsuccess
      · next hpartial =>
        split at hsuccess
        · cases hsuccess
        · next hfailed =>
          omega

/-- The content that a run comes to parse. -/
def SyncInput.content? (input : SyncInput) : Option FeedResponse :=
  if input.abortedAtStart then none
  else match input.fetched with
    | .ok fetched => if fetched.ok then some fetched else none
    | .error _ => none

/-- The data rows of a content that was fetched. -/
def fetchedRows (env : SyncEnv) (feed : FeedRow) (fetched : FeedResponse) : List RowAnswer :=
  dataRows env.networkError env.normalizeUrl fetched.bodyText
    { feed.parse with contentType := fetched.contentType }

/-- The counters once a content is fetched. -/
def fetchedCounters (fetched : FeedResponse) : Counters :=
  { Counters.zero with
    httpStatus := some fetched.httpStatus
    fetchedBytes := fetched.fetchedBytes }

/-- A run that comes to parse its content. -/
theorem runCustomThreatFeedSync_of_content {fetched : FeedResponse}
    (h : input.content? = some fetched) :
    runCustomThreatFeedSync env feed input tables =
      match parseFeedContent env.networkError env.normalizeUrl fetched.bodyText
          { feed.parse with contentType := fetched.contentType } with
      | .error message => syncFailed env tables (fetchedCounters fetched) [] message
      | .ok parsed => importParsed env feed input tables (fetchedCounters fetched) parsed := by
  unfold SyncInput.content? at h
  unfold runCustomThreatFeedSync
  split at h
  · cases h
  · next hstart =>
    rw [if_neg hstart]
    split at h
    · next result hresult =>
      obtain ⟨hok, rfl⟩ := Run.enabled h
      simp [hresult, hok, fetchedCounters]
    · cases h

/-- A run that comes to no content fails and writes nothing. -/
theorem runCustomThreatFeedSync_of_none (h : input.content? = none) :
    (runCustomThreatFeedSync env feed input tables).status = .failed ∧
      (runCustomThreatFeedSync env feed input tables).tables = tables ∧
      (runCustomThreatFeedSync env feed input tables).counters.parsed = (0, 0, 0) := by
  unfold SyncInput.content? at h
  unfold runCustomThreatFeedSync
  split at h
  · next hstart =>
    rw [if_pos hstart]
    exact ⟨rfl, rfl, rfl⟩
  · next hstart =>
    rw [if_neg hstart]
    split at h
    · next result hresult =>
      split at h
      · cases h
      · next hok =>
        rw [hresult]
        simp only [hok]
        exact ⟨rfl, rfl, rfl⟩
    · next message hresult =>
      rw [hresult]
      exact ⟨rfl, rfl, rfl⟩

end sync

/-- A feed of addresses whose content is one word on each of 21 lines. -/
def wordsFeed : FeedRow where
  integrationFeedId := 1
  parse := ⟨"txt", "text/plain", "https://feed.example/list.txt", "fixed", some "ip"⟩
  defaultConfidence := none
  snapshot := true
  policies := ⟨[], []⟩

/-- A fetch of 21 lines of a word. -/
def wordsInput : SyncInput where
  seenAt := 0
  finishedAt := 1
  fetched := .ok ⟨true, 200, 126, "text/plain", String.ofList (List.replicate 21 "word\n".toList).flatten⟩
  abortedAtStart := false
  abortedAt := fun _ => false

/-- Nothing is suppressed or redacted. -/
def plainEnv : SyncEnv := ⟨id, id, fun observable _ _ => observable, fun _ _ => false, id⟩

/-- The tables before any import. -/
def noTables : IocTables := ⟨[], [], by simp, by simp, by simp⟩

end TalonHound.CustomFeeds
