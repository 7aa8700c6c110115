import TalonHound.FileArtifacts.Hash

/-!
# MalwareBazaar coverage

The row of `malwarebazaar_coverage_state` and the transitions of `malwarebazaarCoverage.js` on it.
Instants are milliseconds.
-/

namespace TalonHound.MalwareBazaar

/-- `MALWAREBAZAAR_COVERAGE_STATUSES`. -/
inductive CoverageStatus where
  | current | stale | retentionRisk | gapPending | recoveryRunning | recoveryFailed | recovered
  deriving DecidableEq

/-- `GAP_STATUSES`. -/
def CoverageStatus.isGap : CoverageStatus → Bool
  | gapPending => true
  | recoveryRunning => true
  | recoveryFailed => true
  | _ => false

/-- `MALWAREBAZAAR_STALE_AFTER_MS`. -/
def staleAfterMs : ℤ := 3 * 60 * 60 * 1000

/-- `MALWAREBAZAAR_RETENTION_RISK_AFTER_MS`. -/
def retentionRiskAfterMs : ℤ := 24 * 60 * 60 * 1000

/-- `MALWAREBAZAAR_GAP_OVERLAP_MS`. -/
def gapOverlapMs : ℤ := 2 * 60 * 60 * 1000

/-- `MALWAREBAZAAR_CONTINUITY_SLACK_MS`. -/
def continuitySlackMs : ℤ := 15 * 60 * 1000

/-- A row of `malwarebazaar_coverage_state`. -/
structure Coverage where
  status : CoverageStatus
  (lastSuccessfulRecentAt lastRecentOldestFirstSeen lastRecentNewestFirstSeen : Option ℤ)
  (coveredThrough gapFrom gapTo recoveryWatermarkFirstSeen : Option ℤ)
  recoveryScanLines : ℕ
  recoveryDumpIdentity : Option String
  lastRecoveredThrough : Option ℤ
  lastError : Option String
  (recoveryStartedAt recoveredAt : Option ℤ)
  deriving DecidableEq

/-- `emptyMalwareBazaarCoverage`. -/
def Coverage.empty : Coverage where
  status := .current
  lastSuccessfulRecentAt := none
  lastRecentOldestFirstSeen := none
  lastRecentNewestFirstSeen := none
  coveredThrough := none
  gapFrom := none
  gapTo := none
  recoveryWatermarkFirstSeen := none
  recoveryScanLines := 0
  recoveryDumpIdentity := none
  lastRecoveredThrough := none
  lastError := none
  recoveryStartedAt := none
  recoveredAt := none

/-- `maxTs`. -/
def maxTs : Option ℤ → Option ℤ → Option ℤ
  | none, b => b
  | a, none => a
  | some a, some b => some (max a b)

/-- `computeMalwareBazaarGapInterval`. -/
def gapInterval (covered oldest : ℤ) : ℤ × ℤ :=
  let start := covered - gapOverlapMs
  let stop := oldest + gapOverlapMs
  if start > stop then (stop, start) else (start, stop)

/-- `continuityIsBroken`. -/
def continuityIsBroken (covered oldest : Option ℤ) : Bool :=
  match covered, oldest with
  | some covered, some oldest => oldest > covered + continuitySlackMs
  | _, _ => false

/-- The entries of a recent import with the oldest and the newest `first_seen`; `none` without
entries. -/
abbrev RecentBounds := Option (ℤ × ℤ)

/-- `nextCoverageAfterRecentSuccess`. -/
def nextCoverageAfterRecentSuccess (prev : Option Coverage) (bounds : RecentBounds) (now : ℤ) :
    Coverage :=
  let oldest := bounds.map Prod.fst
  let newest := bounds.map Prod.snd
  match prev with
  | none =>
    { Coverage.empty with
      lastSuccessfulRecentAt := some now
      lastRecentOldestFirstSeen := oldest
      lastRecentNewestFirstSeen := newest
      coveredThrough := newest.or (some now) }
  | some prev =>
    let next := { prev with
      lastSuccessfulRecentAt := some now
      lastRecentOldestFirstSeen := oldest
      lastRecentNewestFirstSeen := newest
      coveredThrough := maxTs prev.coveredThrough newest }
    if prev.status.isGap then next
    else if continuityIsBroken prev.coveredThrough oldest then
      let gap := gapInterval (prev.coveredThrough.getD 0) (oldest.getD 0)
      { next with
        status := .gapPending
        gapFrom := some gap.1
        gapTo := some gap.2
        recoveryWatermarkFirstSeen := none
        recoveryScanLines := 0
        recoveryDumpIdentity := none
        lastError := none }
    else { next with status := .current, lastError := none }

/-- `nextCoverageAfterFreshnessTick`. -/
def nextCoverageAfterFreshnessTick (prev : Coverage) (now : ℤ) : Coverage :=
  if prev.status.isGap then prev
  else
    match prev.lastSuccessfulRecentAt with
    | none => prev
    | some last =>
      if now - last ≥ retentionRiskAfterMs then { prev with status := .retentionRisk }
      else if now - last ≥ staleAfterMs then { prev with status := .stale }
      else { prev with status := .current }

/-- `nextCoverageAfterRecoveryStart`. -/
def nextCoverageAfterRecoveryStart (prev : Coverage) (now : ℤ) : Coverage :=
  if prev.gapFrom.isNone || prev.gapTo.isNone then prev
  else { prev with
    status := .recoveryRunning
    lastError := none
    recoveryStartedAt := some now }

/-- `nextCoverageAfterRecoveryProgress`. -/
def nextCoverageAfterRecoveryProgress (prev : Coverage) (scanLines : ℕ)
    (dumpIdentity : Option String) (watermarkFirstSeen : Option ℤ) : Coverage :=
  { prev with
    status := .recoveryRunning
    recoveryScanLines := scanLines
    recoveryDumpIdentity := dumpIdentity.or prev.recoveryDumpIdentity
    recoveryWatermarkFirstSeen := watermarkFirstSeen.or prev.recoveryWatermarkFirstSeen }

/-- `nextCoverageAfterRecoveryFailure`. -/
def nextCoverageAfterRecoveryFailure (prev : Coverage) (errorMessage : String) : Coverage :=
  let message :=
    if errorMessage.isEmpty then "MalwareBazaar historical recovery failed" else errorMessage
  { prev with
    status := .recoveryFailed
    lastError := some (String.ofList (message.toList.take 2000)) }

/-- `nextCoverageAfterRecoveryComplete`. -/
def nextCoverageAfterRecoveryComplete (prev : Coverage) (recoveredThrough : ℤ) (now : ℤ) :
    Coverage :=
  { prev with
    status := .recovered
    gapFrom := none
    gapTo := none
    recoveryWatermarkFirstSeen := none
    recoveryScanLines := 0
    recoveryDumpIdentity := none
    lastRecoveredThrough := some recoveredThrough
    lastError := none
    recoveredAt := some now }

/-!
## The MalwareBazaar dump

The CSV parser that the recent export and the full dump share, and what a scan of the dump reads
from each line. Texts are lists of characters.
-/

open FileArtifacts

/-- The texts of a dump. -/
abbrev Text := List Char

/-- `splitCsvLine`, with the field so far in reverse. -/
def splitCsvChars : Text → Text → Bool → List Text
  | [], cur, _ => [trimChars cur.reverse]
  | '"' :: '"' :: rest, cur, true => splitCsvChars rest ('"' :: cur) true
  | '"' :: rest, cur, inQuotes => splitCsvChars rest cur (!inQuotes)
  | ',' :: rest, cur, false => trimChars cur.reverse :: splitCsvChars rest [] false
  | ch :: rest, cur, inQuotes => splitCsvChars rest (ch :: cur) inQuotes

/-- `splitCsvLine`. -/
def splitCsvLine (line : Text) : List Text := splitCsvChars line [] false

/-- `toLowerCase` on the letters of column names and hexadecimal digits. -/
def toLowerCase (s : Text) : Text := s.map Char.toLower

/-- `replace(/^"|"$/g, '')`. -/
def unquote (s : Text) : Text :=
  let front := match s with
    | '"' :: rest => rest
    | cs => cs
  if front.getLast? = some '"' then front.dropLast else front

/-- The name of a column. -/
def columnName (s : Text) : Text := toLowerCase (trimChars (unquote s))

/-- A line without the mark of a comment. -/
def uncommented : Text → Text
  | '#' :: rest => trimChars rest
  | line => line

/-- `MALWAREBAZAAR_CSV_COLUMNS`. -/
def csvColumns : List Text :=
  ["first_seen_utc".toList, "sha256_hash".toList, "md5_hash".toList, "sha1_hash".toList,
    "reporter".toList, "file_name".toList, "file_type".toList, "mime_type".toList,
    "signature".toList, "clamav".toList, "vtpercent".toList, "imphash".toList, "ssdeep".toList,
    "tlsh".toList]

/-- `isMalwareBazaarCsvHeaderLine`. -/
def isMalwareBazaarCsvHeaderLine (line : Text) : Bool :=
  let lowered := toLowerCase (uncommented (trimChars line))
  let cols := (splitCsvLine lowered).map columnName
  !lowered.isEmpty && (cols.contains "sha256_hash".toList || cols.contains "first_seen_utc".toList)

/-- A record: its keys in the order of their first assignment. -/
abbrev CsvRecord := List (Text × Text)

/-- `record[key] = value`. -/
def CsvRecord.set (record : CsvRecord) (key value : Text) : CsvRecord :=
  if record.any fun p => p.1 = key then
    record.map fun p => if p.1 = key then (key, value) else p
  else record ++ [(key, value)]

/-- `rowToRecord`. -/
def rowToRecord (header cols : List Text) : CsvRecord :=
  header.zipIdx.foldl
    (fun record (name, i) =>
      let key := columnName name
      if key.isEmpty then record else record.set key (cols.getD i []))
    []

/-- `normalizeMalwareBazaarField`. -/
def normalizeMalwareBazaarField (value : Option Text) : Option Text :=
  let v := trimChars (value.getD [])
  if v.isEmpty || toLowerCase v = "n/a".toList || toLowerCase v = "none".toList then none
  else some v

/-- `parseUtcTimestamp`; `parseDate` is the time value of `new Date(text)`. -/
def parseUtcTimestamp (parseDate : Text → Option ℤ) (value : Option Text) : Option ℤ :=
  (normalizeMalwareBazaarField value).bind fun raw =>
    let before := raw.takeWhile (· ≠ ' ')
    let normalized := match raw.dropWhile (· ≠ ' ') with
      | _ :: rest => before ++ 'T' :: rest
      | [] => before
    parseDate (normalized ++ ['Z'])

/-- `normalizeMalwareBazaarTags`. -/
def normalizeMalwareBazaarTags (raw : Option Text) : List Text :=
  match normalizeMalwareBazaarField raw with
  | none => []
  | some v => ((v.splitOn ',').map trimChars).filter (!·.isEmpty)

/-- `normalizeHexHash`. -/
def normalizeHexHash (value : Option Text) (length : ℕ) : Option Text :=
  (normalizeMalwareBazaarField value).bind fun v =>
    if (toLowerCase v).length = length && (toLowerCase v).all isHexDigit then some (toLowerCase v)
    else none

/-- The values of `confidence`. -/
inductive EntryConfidence where
  | low | medium | high
  deriving DecidableEq

/-- `inferConfidence`. -/
def inferConfidence (signature vtPercentRaw : Option Text) : EntryConfidence :=
  let unknown := if signature.isSome then .high else .medium
  match vtPercentRaw with
  | none => unknown
  | some v =>
    if v.all Char.isDigit && 1 ≤ v.length && v.length ≤ 3 then
      let n := v.foldl (fun n c => 10 * n + (c.toNat - '0'.toNat)) 0
      if n ≥ 70 then .high else if n ≥ 30 then .medium else .low
    else unknown

/-- `Set.add`. -/
def addTag (tags : List Text) (tag : Text) : List Text :=
  if tags.contains tag then tags else tags ++ [tag]

/-- What `mapMalwareBazaarRecord` returns; `observable` is the SHA-256, which is the external id as
well. -/
structure DumpEntry where
  observable : Text
  firstSeenUtc : Option ℤ
  confidence : EntryConfidence
  category : Text
  (md5 sha1 imphash ssdeep tlsh signature fileName fileType mimeType reporter clamav : Option Text)
  (vtPercentRaw referenceUrl : Option Text)
  tags : List Text
  rawMetadata : CsvRecord
  deriving DecidableEq

/-- `mapMalwareBazaarRecord`. -/
def mapMalwareBazaarRecord (parseDate : Text → Option ℤ) (record : CsvRecord) :
    Option DumpEntry :=
  let field := fun (name : String) => record.lookup name.toList
  (normalizeHexHash ((field "sha256_hash").or (field "sha256")) 64).map fun sha256 =>
    let signature := normalizeMalwareBazaarField (field "signature")
    let fileType :=
      normalizeMalwareBazaarField ((field "file_type").or (field "file_type_guess"))
    let vtPercentRaw := normalizeMalwareBazaarField ((field "vtpercent").or (field "vt_percent"))
    let tags := normalizeMalwareBazaarTags (field "tags") ++ signature.toList ++ fileType.toList
    { observable := sha256
      firstSeenUtc :=
        parseUtcTimestamp parseDate ((field "first_seen_utc").or (field "dateadded"))
      confidence := inferConfidence signature vtPercentRaw
      category := signature.getD "malware".toList
      md5 := normalizeHexHash ((field "md5_hash").or (field "md5")) 32
      sha1 := normalizeHexHash ((field "sha1_hash").or (field "sha1")) 40
      imphash := normalizeHexHash (field "imphash") 32
      ssdeep := (normalizeMalwareBazaarField (field "ssdeep")).map toLowerCase
      tlsh := (normalizeMalwareBazaarField (field "tlsh")).map toLowerCase
      signature := signature
      fileName := normalizeMalwareBazaarField (field "file_name")
      fileType := fileType
      mimeType := normalizeMalwareBazaarField ((field "mime_type").or (field "mime"))
      reporter := normalizeMalwareBazaarField (field "reporter")
      clamav := normalizeMalwareBazaarField (field "clamav")
      vtPercentRaw := vtPercentRaw
      referenceUrl :=
        normalizeMalwareBazaarField ((field "malwarebazaar_link").or (field "reference_url"))
      tags := tags.foldl addTag []
      rawMetadata := record }

/-- What `consume` says of a line. -/
inductive ConsumedLine where
  | empty | header | comment | skipped
  | entry (parsed : DumpEntry)

/-- The entry of a line, if it is one. -/
def ConsumedLine.toEntry : ConsumedLine → Option DumpEntry
  | .entry parsed => some parsed
  | _ => none

/-- `consume` of `createMalwareBazaarCsvParser`: the header from then on, and the result. -/
def consume (parseDate : Text → Option ℤ) (header : Option (List Text)) (rawLine : Text) :
    Option (List Text) × ConsumedLine :=
  let line := trimChars rawLine
  if line.isEmpty then (header, .empty)
  else if header.isNone && isMalwareBazaarCsvHeaderLine line then
    (some ((splitCsvLine (uncommented line)).map columnName), .header)
  else if line.head? = some '#' then (header, .comment)
  else
    match mapMalwareBazaarRecord parseDate
        (rowToRecord (header.getD csvColumns) (splitCsvLine line)) with
    | none => (header, .skipped)
    | some entry => (header, .entry entry)

/-- The header that a parser has after lines. -/
def headerAfter (parseDate : Text → Option ℤ) (lines : List Text) : Option (List Text) :=
  lines.foldl (fun header line => (consume parseDate header line).1) none

/-- A downloaded dump, and its `dumpIdentityFromHeaders`. -/
structure Dump where
  lines : List Text
  identity : Option String

/-- `download.identity || 'unknown'`. -/
def Dump.dumpIdentity (dump : Dump) : String := dump.identity.getD "unknown"

/-- The entry that a scan from after line `skipLines` reads from line `n + 1`. -/
def Dump.readAt (parseDate : Text → Option ℤ) (dump : Dump) (skipLines n : ℕ) :
    Option DumpEntry :=
  dump.lines[n]?.bind fun line =>
    (consume parseDate (headerAfter parseDate ((dump.lines.take n).drop skipLines)) line).2.toEntry

/-- `entryInUtcInterval`. -/
def entryInUtcInterval (entry : DumpEntry) (start stop : ℤ) : Bool :=
  match entry.firstSeenUtc with
  | none => false
  | some seen => seen ≥ start && seen ≤ stop

end TalonHound.MalwareBazaar
