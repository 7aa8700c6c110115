import TalonHound.FileArtifacts.Hash
import TalonHound.Library.Regex
import TalonHound.Library.Texts

/-!
# The STIX pattern parser

The parser of the patterns of STIX indicators. It finds the comparisons of a pattern with one
regular expression, looks at what is left of the text without them, and flattens the pattern into
observables.
-/

namespace TalonHound.Stix

open Regex
open TalonHound.FileArtifacts (lowerCase)

/-- `\w`. -/
def isWordChar (c : Char) : Bool := c.isAlphanum || c == '_'

/-- `[a-z0-9_-]`, without regard to case. -/
def isTypeChar (c : Char) : Bool := isWordChar c || c == '-'

/-- `[a-z0-9_.-]`, without regard to case. -/
def isPathChar (c : Char) : Bool := isTypeChar c || c == '.'

/-- A character of a literal that needs no escape: `[^'\\]`. -/
def isLiteralChar (c : Char) : Bool := c != '\'' && c != '\\'

/-- `\s*`. -/
def spaces : Matcher (List Char) := star (char isJsWhitespace)

/-- `\b`. -/
def wordBoundary : Matcher Unit := boundary isWordChar

/-- `'[A-Za-z0-9_-]+'`. -/
def quotedKey : Matcher (List Char) := lit "'" ++ (plus (char isTypeChar) ++ lit "'")

/-- `hashes\.(?:'[A-Za-z0-9_-]+'|[A-Za-z0-9_-]+)`. -/
def hashesPath : Matcher (List Char) :=
  lit "hashes." ++ (quotedKey <|> plus (char isTypeChar))

/-- `(?:\\'|\\\\|[^'\\])*`. -/
def literalText : Matcher (List Char) :=
  star (lit "\\'" <|> lit "\\\\" <|> char isLiteralChar)

/-- The groups of `COMPARISON_RE`. -/
structure RawComparison where
  (objectType property value : List Char)

/-- `(?:=|ISSUBSET|IN)`. -/
def comparisonOperator : Matcher (List Char) := lit "=" <|> lit "ISSUBSET" <|> lit "IN"

/-- `COMPARISON_RE`. -/
def comparisonRe : Matcher RawComparison := do
  let objectType ← plus (char isTypeChar)
  let _ ← lit ":"
  let property ← hashesPath <|> plus (char isPathChar)
  let _ ← spaces
  let _ ← comparisonOperator
  let _ ← spaces
  let _ ← lit "'"
  let value ← literalText
  let _ ← lit "'"
  pure ⟨objectType, property, value⟩

/-- A word of its own: `\b…\b`. -/
def wholeWord (m : Matcher (List Char)) : Matcher (List Char) := do
  let _ ← wordBoundary
  let word ← m
  let _ ← wordBoundary
  pure word

/-- `\b(?:MATCHES|LIKE|EXISTS|FOLLOWEDBY)\b`. -/
def operatorWordRe : Matcher (List Char) :=
  wholeWord (lit "MATCHES" <|> lit "LIKE" <|> lit "EXISTS" <|> lit "FOLLOWEDBY")

/-- `\b(?:AND|OR)\b`. -/
def connectiveRe : Matcher (List Char) := wholeWord (lit "AND" <|> lit "OR")

/-- `file:size\s*=\s*`. -/
def sizeHead : Matcher (List Char) := lit "file:size" ++ (spaces ++ (lit "=" ++ spaces))

/-- `(\bfile:size\s*=\s*)(\d+)\b`. -/
def sizeRe : Matcher (List Char × List Char) := do
  let _ ← wordBoundary
  let path ← sizeHead
  let digits ← plus (char Char.isDigit)
  let _ ← wordBoundary
  pure (path, digits)

/-- `\(([^()]*)\)`. -/
def groupRe : Matcher (List Char) :=
  lit "(" ++ (star (char fun c => c != '(' && c != ')') ++ lit ")")

/-- `unescapeStixString`. -/
def unescapeStixString : List Char → List Char
  | [] => []
  | [c] => [c]
  | c :: d :: text =>
    if c = '\\' then d :: unescapeStixString text else c :: unescapeStixString (d :: text)

/-- `normalizePatternBrackets`. -/
def normalizePatternBrackets (pattern : List Char) : List Char :=
  let p := trimChars pattern
  if p = [] then p
  else
    let p := if p.head? ≠ some '[' ∧ p.getLast? = some ']' then '[' :: p else p
    if p.head? = some '[' ∧ p.getLast? ≠ some ']' then p ++ [']'] else p

/-- The types of observables that a comparison can map to. A key of `HASH_PROP` that the object
inherits maps to what it inherits. -/
inductive MappedType where
  | ip | ipv6 | domain | url | email | md5 | sha1 | sha256
  | inherited (key : String)
  deriving DecidableEq

/-- `HASH_PROP[prop]`. -/
def hashProp (prop : String) : Option MappedType :=
  if prop = "md5" then some .md5
  else if prop = "sha-1" ∨ prop = "sha1" then some .sha1
  else if prop = "sha-256" ∨ prop = "sha256" then some .sha256
  else if prop = "constructor" ∨ prop = "__proto__" then some (.inherited prop)
  else none

/-- The property without `hashes.` and quotes. -/
def hashKey (property : List Char) : List Char :=
  let prop := property.map Char.toLower
  let prop := if "hashes.".toList <+: prop then prop.drop 7 else prop
  prop.filter (· != '\'')

/-- `mapStixPropertyToType`. -/
def mapStixPropertyToType (objectType property : List Char) : Option MappedType :=
  let ot := String.ofList (objectType.map Char.toLower)
  if ot = "ipv4-addr" ∨ ot = "ipv4_addr" then some .ip
  else if ot = "ipv6-addr" ∨ ot = "ipv6_addr" then some .ipv6
  else if ot = "domain-name" ∨ ot = "domain_name" then some .domain
  else if ot = "url" then some .url
  else if ot = "email-addr" ∨ ot = "email_addr" then some .email
  else if ot = "file" then hashProp (String.ofList (hashKey property))
  else none

/-- An extracted comparison. -/
structure Extracted where
  (objectType property value : List Char)
  type : Option MappedType

/-- The comparison that a match of `COMPARISON_RE` gives. -/
def RawComparison.extracted (m : RawComparison) : Extracted where
  objectType := m.objectType.map Char.toLower
  property := m.property
  value := unescapeStixString m.value
  type := mapStixPropertyToType m.objectType m.property

/-- `extractComparisons`. -/
def extractComparisons (body : List Char) : List Extracted :=
  (matchesOf (scan comparisonRe body)).map fun m => m.1.extracted

/-- `${c.objectType}:${c.property}`. -/
def Extracted.path (c : Extracted) : String := String.ofList (c.objectType ++ ':' :: c.property)

/-- `c.type && c.value`. -/
def Extracted.isUsable (c : Extracted) : Bool := c.type.isSome && !c.value.isEmpty

/-- The comparison is of a digest of a file. -/
def Extracted.isDigest (c : Extracted) : Bool :=
  c.objectType == "file".toList && decide ("hashes.".toList <+: c.property.map Char.toLower)

/-- `FILE_ATTRIBUTE_PROP_RE`, on a property of a file. -/
def Extracted.isAttribute (c : Extracted) : Bool :=
  c.objectType == "file".toList &&
    decide (c.property.map Char.toLower ∈ ["name".toList, "size".toList, "mime_type".toList])

/-- `' # '`. -/
def placeholder : List Char := " # ".toList

/-- The words of the body without its comparisons, in upper case. -/
def operatorWords (body : List Char) : List (List Char) :=
  let text := replace comparisonRe (fun _ _ => placeholder) body
  let text := text.map fun c => if c ∈ ['(', ')', '[', ']'] then ' ' else c
  (text.map Char.toUpper).splitOnP isJsWhitespace

/-- The results of `classifyCompound`. -/
inductive Compound where
  | single | mixed | and | or | unknown

/-- `classifyCompound`. -/
def classifyCompound (body : List Char) (comparisonCount : ℕ) : Compound :=
  if comparisonCount ≤ 1 then .single
  else
    let ops := operatorWords body
    let hasAnd := decide ("AND".toList ∈ ops) || decide ("FOLLOWEDBY".toList ∈ ops)
    let hasOr := decide ("OR".toList ∈ ops)
    if hasAnd && hasOr then .mixed
    else if hasAnd then .and
    else if hasOr then .or
    else .unknown

/-- A letter as a word of its own. -/
def letterRe (letters : List Char) : Matcher (List Char) :=
  wholeWord (char fun c => decide (c ∈ letters))

/-- `sameFileHashAlternatives`. -/
def sameFileHashAlternatives (body : List Char) : Bool :=
  let masked := replace comparisonRe
    (fun _ raw => if test (lit ":hashes.") raw then " H ".toList else " A ".toList) body
  let groups := (matchesOf (scan groupRe masked)).map Prod.snd
  let hasDigest := test (letterRe ['H'])
  if groups.any fun g => hasDigest g && (test (letterRe ['A']) g || test (wholeWord (lit "AND")) g)
  then false
  else
    let outer := (replace groupRe
      (fun _ raw => if hasDigest raw then " G ".toList else " A ".toList) masked).map Char.toUpper
    if (outer.any fun c => c == '(' || c == ')') || test (wholeWord (lit "OR")) outer then false
    else decide ((matchesOf (scan (letterRe ['H', 'G']) outer)).length = 1)

/-- An observable of a pattern. -/
structure Observable where
  type : MappedType
  (value property : String)
  deriving DecidableEq

/-- The forms of a flattened pattern. -/
inductive Flattened where
  | single | orSameObject | andSameHashes
  deriving DecidableEq

/-- `PatternResult`. -/
inductive PatternResult where
  | ok (observables : List Observable) (compound : Flattened) (droppedProperties : List String)
  | error (code message : String)
  deriving DecidableEq

/-- `{ ok: false, code: 'unsupported_pattern', … }`. -/
def unsupported (message : String) : PatternResult := .error "unsupported_pattern" message

/-- The observable of a comparison with a type. -/
def Extracted.observable (c : Extracted) : Option Observable :=
  c.type.map fun type => ⟨type, String.ofList c.value, c.path⟩

/-- `['md5', 'sha1', 'sha256'].includes(o.type)`. -/
def Observable.isHash (o : Observable) : Bool := decide (o.type ∈ [.md5, .sha1, .sha256])

/-- The file of the observable is named by its property. -/
def Observable.isOfFile (o : Observable) : Bool := decide ("file:".toList <+: o.property.toList)

/-- `$1'$2'`. -/
def quoteSize (m : List Char × List Char) (_ : List Char) : List Char :=
  m.1 ++ '\'' :: m.2 ++ ['\'']

/-- The body of a normalised pattern, with the sizes of files quoted. -/
def patternBody (normalized : List Char) : List Char :=
  replace sizeRe quoteSize (trimChars normalized.tail.dropLast)

/-- What is left of the body without comparisons, connectives and parentheses. -/
def residualText (body : List Char) : List Char :=
  let text := replace comparisonRe (fun _ _ => [' ']) body
  let text := replace connectiveRe (fun _ _ => [' ']) text
  trimChars (text.map fun c => if c = '(' ∨ c = ')' then ' ' else c)

/-- `/[a-z0-9_:]/i`. -/
def isResidue (c : Char) : Bool := isWordChar c || c == ':'

/-- The last part of `parseStixPattern`, for comparisons that all map to a type. -/
def flatten (body : List Char) (mapped : List Observable) (droppedProperties : List String) :
    PatternResult :=
  match classifyCompound body mapped.length with
  | .mixed | .unknown =>
    unsupported "Compound pattern mixes operators in an unsupported way"
  | .and =>
    if mapped.all Observable.isHash && mapped.all Observable.isOfFile then
      .ok mapped .andSameHashes droppedProperties
    else
      unsupported "AND across distinct observables cannot be flattened into independent Indicators"
  | .or =>
    let types := (mapped.map Observable.type).dedup
    if mapped.all Observable.isHash || decide (types.length = 1) then
      .ok mapped .orSameObject droppedProperties
    else
      unsupported
        "OR across distinct observable types cannot be flattened into independent Indicators"
  | .single => .ok mapped .single droppedProperties

/-- The part of `parseStixPattern` after the checks of the text. -/
def flattenComparisons (body : List Char) (comparisons : List Extracted) : PatternResult :=
  let fileHashCompound := decide (1 < comparisons.length) && comparisons.all Extracted.isDigest
  let fileAttributes := comparisons.filter Extracted.isAttribute
  let fileDigests := comparisons.filter Extracted.isDigest
  let fileHashes := fileDigests.filter Extracted.isUsable
  if !fileAttributes.isEmpty && !fileHashes.isEmpty &&
      decide (fileAttributes.length + fileDigests.length = comparisons.length) &&
      sameFileHashAlternatives body then
    let dropped := fileDigests.filter (fun c => !c.isUsable) ++ fileAttributes
    .ok (fileHashes.filterMap Extracted.observable)
      (if 1 < fileHashes.length then .orSameObject else .single) (dropped.map Extracted.path)
  else
    let droppedProperties :=
      if fileHashCompound then (comparisons.filter fun c => !c.isUsable).map Extracted.path else []
    let usable := if fileHashCompound then comparisons.filter Extracted.isUsable else comparisons
    if usable.isEmpty then unsupported "No supported file hash algorithm in pattern"
    else
      match usable.find? fun c => !c.isUsable with
      | some c => unsupported ("Unsupported observable property " ++ c.path)
      | none => flatten body (usable.filterMap Extracted.observable) droppedProperties

/-- The part of `parseStixPattern` after the body is taken out of the brackets. -/
def parseBody (body : List Char) : PatternResult :=
  if test operatorWordRe body then
    unsupported "Pattern uses MATCHES/LIKE/EXISTS/FOLLOWEDBY"
  else
    let comparisons := extractComparisons body
    if comparisons.isEmpty then
      unsupported "No supported comparison expressions in pattern"
    else
      let residual := residualText body
      if residual.any isResidue then
        unsupported ("Unsupported pattern residue: " ++ String.ofList (residual.take 80))
      else flattenComparisons body comparisons

/-- `parseStixPattern`. -/
def parseStixPattern (pattern : String) : PatternResult :=
  let raw := trimChars pattern.toList
  if raw = [] then unsupported "Empty STIX pattern"
  else
    let normalized := normalizePatternBrackets raw
    if normalized.head? ≠ some '[' ∨ normalized.getLast? ≠ some ']' then
      unsupported "Pattern is not a bracketed STIX comparison"
    else parseBody (patternBody normalized)

end TalonHound.Stix
