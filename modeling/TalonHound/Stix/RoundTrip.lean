import TalonHound.Stix.Searches

/-!
# The published STIX patterns

The comparison pattern that a published feed writes for an IOC.
-/

namespace TalonHound.Stix

open TalonHound.FileArtifacts (lowerCase normalizeHashValue isHexDigit)

/-- `escapeStixPatternString`. -/
def escapeStixPatternString (value : List Char) : List Char :=
  (value.flatMap fun c => if c = '\\' then ['\\', '\\'] else [c]).flatMap fun c =>
    if c = '\'' then ['\\', '\''] else [c]

/-- `isIpv6Literal`. -/
def isIpv6Literal (value : List Char) : Bool := ((value.takeWhile (· != '/')).any (· == ':'))

/-- `isCidr`. -/
def isCidr (value : List Char) : Bool :=
  let reversed := (trimChars value).reverse
  let digits := reversed.takeWhile Char.isDigit
  decide (1 ≤ digits.length ∧ digits.length ≤ 3 ∧ (reversed.drop digits.length).head? = some '/')

/-- `inferExactHashType`. -/
def inferExactHashType (value : String) : Option String :=
  let v := (normalizeHashValue value).toList
  if v = [] ∨ ¬v.all isHexDigit then none
  else if v.length = 32 then some "md5"
  else if v.length = 40 then some "sha1"
  else if v.length = 64 then some "sha256"
  else none

/-- `resolveStixObservableType`. -/
def resolveStixObservableType (observableType value : String) : Option String :=
  let type := lowerCase (trim observableType)
  if type = "hash" ∨ type = "file_hash" then inferExactHashType value
  else if type = "" then none else some type

/-- The pattern with a comparison of a literal. -/
def comparisonPattern (comparison : String) (escaped : List Char) : String :=
  String.ofList ('[' :: (comparison.toList ++ ' ' :: '\'' :: (escaped ++ ['\'', ']'])))

/-- `stixPatternForIoc`. -/
def stixPatternForIoc (observableType value : String) : Option String :=
  let v := trimChars value.toList
  match resolveStixObservableType observableType value with
  | none => none
  | some type =>
    if v = [] then none
    else
      let escaped := escapeStixPatternString v
      if type = "ipv6" ∨ type = "ip" ∧ isIpv6Literal v then
        if isCidr v then some (comparisonPattern "ipv6-addr:value ISSUBSET" escaped)
        else some (comparisonPattern "ipv6-addr:value =" escaped)
      else if type = "ip" ∨ type = "ipv4" then
        if isCidr v then some (comparisonPattern "ipv4-addr:value ISSUBSET" escaped)
        else some (comparisonPattern "ipv4-addr:value =" escaped)
      else if type = "domain" then some (comparisonPattern "domain-name:value =" escaped)
      else if type = "url" then some (comparisonPattern "url:value =" escaped)
      else if type = "md5" then some (comparisonPattern "file:hashes.MD5 =" escaped)
      else if type = "sha1" then some (comparisonPattern "file:hashes.'SHA-1' =" escaped)
      else if type = "sha256" then some (comparisonPattern "file:hashes.'SHA-256' =" escaped)
      else none

/-!
## Published patterns read back

The pattern of a published IOC has one comparison with the escaped value. The parser reads this
comparison back, unless its word search or its rewriting of file sizes finds something in the value.
-/

open Regex

/-- The escaped form of one character. -/
def escapeChar (c : Char) : List Char :=
  if c = '\\' then ['\\', '\\'] else if c = '\'' then ['\\', '\''] else [c]

/-- Escaping works character by character. -/
theorem escapeStixPatternString_eq (v : List Char) :
    escapeStixPatternString v = v.flatMap escapeChar := by
  unfold escapeStixPatternString
  rw [List.flatMap_assoc]
  apply List.flatMap_congr
  intro c _
  unfold escapeChar
  by_cases hbackslash : c = '\\'
  · subst hbackslash
    rfl
  · by_cases hquote : c = '\''
    · subst hquote
      rfl
    · simp [hbackslash, hquote]

/-- Escaping a text from its first character. -/
theorem escape_cons (c : Char) (v : List Char) :
    escapeStixPatternString (c :: v) = escapeChar c ++ escapeStixPatternString v := by
  rw [escapeStixPatternString_eq, escapeStixPatternString_eq, List.flatMap_cons]

/-- The escaped form of a character is a backslash and the character, or the character itself. -/
theorem escapeChar_cases (c : Char) :
    (c = '\'' ∨ c = '\\') ∧ escapeChar c = ['\\', c] ∨
      isLiteralChar c = true ∧ escapeChar c = [c] := by
  unfold escapeChar isLiteralChar
  by_cases hbackslash : c = '\\'
  · subst hbackslash
    exact .inl ⟨.inr rfl, rfl⟩
  · by_cases hquote : c = '\''
    · subst hquote
      exact .inl ⟨.inl rfl, rfl⟩
    · exact .inr ⟨by simp [hbackslash, hquote], by simp [hbackslash, hquote]⟩

/-- An escaped value is the text of a literal. -/
theorem isLiteral_escape (v : List Char) : IsLiteral (escapeStixPatternString v) := by
  induction v with
  | nil => exact .nil
  | cons c v ih =>
    rw [escape_cons]
    apply Star.append _ ih
    rcases escapeChar_cases c with ⟨rfl | rfl, h⟩ | ⟨hc, h⟩
    · exact .inl (.inl rfl)
    · exact .inl (.inr rfl)
    · exact .inr ⟨c, h, hc⟩

/-- A character that is no backslash stands for itself. -/
theorem unescape_cons_of_ne {c : Char} (hc : c ≠ '\\') (text : List Char) :
    unescapeStixString (c :: text) = c :: unescapeStixString text := by
  cases text with
  | nil => rfl
  | cons d text => rw [unescapeStixString, if_neg hc]

/-- The parser undoes the escapes. -/
theorem unescape_escape (v : List Char) :
    unescapeStixString (escapeStixPatternString v) = v := by
  induction v with
  | nil => rfl
  | cons c v ih =>
    rw [escape_cons]
    rcases escapeChar_cases c with ⟨-, h⟩ | ⟨hc, h⟩
    · rw [h, List.cons_append, List.cons_append, List.nil_append, unescapeStixString, if_pos rfl, ih]
    · have hne : c ≠ '\\' := by
        rintro rfl
        cases hc
      rw [h, List.cons_append, List.nil_append, unescape_cons_of_ne hne, ih]

/-- A search that cannot read quotes and backslashes finds in an escaped value what it finds in the
value. -/
theorem test_escape {β : Type} {m : Matcher β} (hfits : Fits m)
    (hquote : StopsAt isWordChar '\'' m) (hbackslash : StopsAt isWordChar '\\' m) (x v : List Char) :
    test m (x ++ escapeStixPatternString v) = test m (x ++ v) := by
  have hnil : test m [] = false := rfl
  induction v generalizing x with
  | nil => rfl
  | cons c v ih =>
    rw [escape_cons]
    rcases escapeChar_cases c with ⟨hc, h⟩ | ⟨-, h⟩
    · have hstop : StopsAt isWordChar c m := by
        rcases hc with rfl | rfl
        · exact hquote
        · exact hbackslash
      have hword : isWordChar c = false := by
        rcases hc with rfl | rfl <;> rfl
      have hrest := ih []
      have hone := test_barrier (x := []) (y := escapeStixPatternString v) hfits hstop hword
      rw [List.nil_append, List.nil_append] at hrest
      rw [List.nil_append, hnil, Bool.false_or] at hone
      rw [h, List.cons_append, List.cons_append, List.nil_append, test_barrier hfits hbackslash rfl,
        hone, hrest, test_barrier hfits hstop hword]
    · rw [h, List.cons_append, List.nil_append, List.append_cons, ih, ← List.append_cons]

/-- A comparison that a published pattern starts with. -/
structure PublishedHead where
  (objectType property operator : String)
  type : MappedType
  deriving DecidableEq

/-- The comparisons that patterns are published with. -/
def publishedHeads : List PublishedHead :=
  [⟨"ipv6-addr", "value", "ISSUBSET", .ipv6⟩, ⟨"ipv6-addr", "value", "=", .ipv6⟩,
    ⟨"ipv4-addr", "value", "ISSUBSET", .ip⟩, ⟨"ipv4-addr", "value", "=", .ip⟩,
    ⟨"domain-name", "value", "=", .domain⟩, ⟨"url", "value", "=", .url⟩,
    ⟨"file", "hashes.MD5", "=", .md5⟩, ⟨"file", "hashes.'SHA-1'", "=", .sha1⟩,
    ⟨"file", "hashes.'SHA-256'", "=", .sha256⟩]

namespace PublishedHead

variable (head : PublishedHead) (v : List Char)

/-- The text before the literal. -/
def text : String := head.objectType ++ ":" ++ head.property ++ " " ++ head.operator

/-- The body of the pattern of a value. -/
def body : List Char :=
  head.text.toList ++ [' '] ++ '\'' :: (escapeStixPatternString v ++ ['\''])

/-- The comparison of a value. -/
def raw : RawComparison where
  objectType := head.objectType.toList
  property := head.property.toList
  value := escapeStixPatternString v

end PublishedHead

/-- The type of the observable that a published IOC is. -/
def canonicalType (observableType value : String) : Option MappedType :=
  (resolveStixObservableType observableType value).bind fun type =>
    if type = "ipv6" then some .ipv6
    else if type = "ip" then some (if isIpv6Literal (trimChars value.toList) then .ipv6 else .ip)
    else if type = "ipv4" then some .ip
    else if type = "domain" then some .domain
    else if type = "url" then some .url
    else if type = "md5" then some .md5
    else if type = "sha1" then some .sha1
    else if type = "sha256" then some .sha256
    else none

/-- A published pattern has one of the comparisons, with the type of the observable. -/
theorem stixPatternForIoc_eq {observableType value pattern : String}
    (h : stixPatternForIoc observableType value = some pattern) :
    trimChars value.toList ≠ [] ∧ ∃ head ∈ publishedHeads,
      pattern = comparisonPattern head.text (escapeStixPatternString (trimChars value.toList)) ∧
        canonicalType observableType value = some head.type := by
  unfold stixPatternForIoc at h
  unfold canonicalType
  cases htype : resolveStixObservableType observableType value with
  | none =>
    rw [htype] at h
    cases h
  | some type =>
    rw [htype] at h
    dsimp only at h
    rw [Option.bind_some]
    by_cases hv : trimChars value.toList = []
    · rw [if_pos hv] at h
      cases h
    · refine ⟨hv, ?_⟩
      rw [if_neg hv] at h
      generalize trimChars value.toList = v at h hv ⊢
      -- one case for every type that has a pattern
      have hhead : ∀ head ∈ publishedHeads, ∀ canonical,
          some (comparisonPattern head.text (escapeStixPatternString v)) = some pattern →
          canonical = some head.type →
          ∃ head ∈ publishedHeads, pattern = comparisonPattern head.text (escapeStixPatternString v) ∧
            canonical = some head.type := by
        intro head hhead canonical heq hcanonical
        exact ⟨head, hhead, (Option.some.inj heq).symm, hcanonical⟩
      by_cases hipv6 : type = "ipv6"
      · subst hipv6
        simp only [true_or, if_true] at h ⊢
        split at h
        · exact hhead ⟨"ipv6-addr", "value", "ISSUBSET", .ipv6⟩ (by decide) _ h rfl
        · exact hhead ⟨"ipv6-addr", "value", "=", .ipv6⟩ (by decide) _ h rfl
      by_cases hip : type = "ip"
      · subst hip
        by_cases hliteral : isIpv6Literal v = true
        · simp only [hliteral, String.reduceEq, and_self, or_true, if_true, if_false] at h ⊢
          split at h
          · exact hhead ⟨"ipv6-addr", "value", "ISSUBSET", .ipv6⟩ (by decide) _ h rfl
          · exact hhead ⟨"ipv6-addr", "value", "=", .ipv6⟩ (by decide) _ h rfl
        · simp only [hliteral, String.reduceEq, and_false, or_self, true_or, if_true, if_false,
            Bool.false_eq_true] at h ⊢
          split at h
          · exact hhead ⟨"ipv4-addr", "value", "ISSUBSET", .ip⟩ (by decide) _ h rfl
          · exact hhead ⟨"ipv4-addr", "value", "=", .ip⟩ (by decide) _ h rfl
      by_cases hipv4 : type = "ipv4"
      · subst hipv4
        simp only [String.reduceEq, false_and, or_self, or_true, if_true, if_false] at h ⊢
        split at h
        · exact hhead ⟨"ipv4-addr", "value", "ISSUBSET", .ip⟩ (by decide) _ h rfl
        · exact hhead ⟨"ipv4-addr", "value", "=", .ip⟩ (by decide) _ h rfl
      simp only [hipv6, hip, hipv4, false_and, or_self, if_false] at h ⊢
      split at h
      · next hdomain =>
        subst hdomain
        exact hhead ⟨"domain-name", "value", "=", .domain⟩ (by decide) _ h rfl
      split at h
      · next hurl =>
        subst hurl
        exact hhead ⟨"url", "value", "=", .url⟩ (by decide) _ h rfl
      split at h
      · next hmd5 =>
        subst hmd5
        exact hhead ⟨"file", "hashes.MD5", "=", .md5⟩ (by decide) _ h rfl
      split at h
      · next hsha1 =>
        subst hsha1
        exact hhead ⟨"file", "hashes.'SHA-1'", "=", .sha1⟩ (by decide) _ h rfl
      split at h
      · next hsha256 =>
        subst hsha256
        exact hhead ⟨"file", "hashes.'SHA-256'", "=", .sha256⟩ (by decide) _ h rfl
      · cases h

section Reading

variable {head : PublishedHead} {v : List Char}

section

variable (hhead : head ∈ publishedHeads)

include hhead

/-- Published properties have one of the two forms that the parser knows. -/
theorem published_property :
    IsQuotedHashes head.property.toList ∨ IsPathRun head.property.toList := by
  have hquoted : ∀ key : List Char, key ≠ [] → (∀ c ∈ key, isTypeChar c = true) →
      IsQuotedHashes ("hashes.".toList ++ '\'' :: (key ++ ['\''])) := fun key hne hkey =>
    ⟨"hashes.".toList, _, rfl, rfl, key, rfl, hne, hkey⟩
  have hcases : head.property = "hashes.'SHA-1'" ∨ head.property = "hashes.'SHA-256'" ∨
      head.property.toList ≠ [] ∧ ∀ c ∈ head.property.toList, isPathChar c = true := by
    revert head
    decide
  rcases hcases with h | h | hrun
  · rw [h]
    exact .inl (hquoted "SHA-1".toList (by decide) (by decide))
  · rw [h]
    exact .inl (hquoted "SHA-256".toList (by decide) (by decide))
  · exact .inr hrun

/-- Published operators are operators of the parser. -/
theorem published_operator : IsOperator head.operator.toList := by
  have hcases : head.operator = "=" ∨ head.operator = "ISSUBSET" := by
    revert head
    decide
  rcases hcases with h | h
  · rw [h]
    exact .inl (.inl rfl)
  · rw [h]
    exact .inl (.inr rfl)

/-- Published object types are written in type characters. -/
theorem published_objectType :
    head.objectType.toList ≠ [] ∧ ∀ c ∈ head.objectType.toList, isTypeChar c = true := by
  revert head
  decide

/-- A published comparison starts with no white space. -/
theorem published_start : ∃ d, head.text.toList.head? = some d ∧ isJsWhitespace d = false := by
  have hstart : (head.text.toList.head?.any fun d => !isJsWhitespace d) = true := by
    revert head
    decide
  cases hd : head.text.toList.head? with
  | none =>
    rw [hd] at hstart
    cases hstart
  | some d =>
    rw [hd] at hstart
    exact ⟨d, rfl, by simpa using hstart⟩

/-- A published body is read as its comparison. -/
theorem readsAs_body (v : List Char) :
    ReadsAs (head.raw v) [' '] head.operator.toList [' '] (head.body v) := by
  have hspace : IsSpaces [' '] := by
    intro c hc
    obtain rfl := List.mem_singleton.mp hc
    rfl
  refine ⟨?_, published_objectType hhead, published_property hhead, hspace,
    published_operator hhead, hspace, isLiteral_escape v⟩
  unfold PublishedHead.body PublishedHead.text PublishedHead.raw
  simp

end

/-- The searches find in a published body what they find in the value. -/
theorem test_body {β : Type} {m : Matcher β} (hfits : Fits m)
    (hquote : StopsAt isWordChar '\'' m) (hbackslash : StopsAt isWordChar '\\' m)
    (hhead : test m (head.text.toList ++ [' ']) = false) :
    test m (head.body v) = test m v := by
  have hescape := test_escape hfits hquote hbackslash [] v
  have hend : test m [] = false := rfl
  unfold PublishedHead.body
  rw [test_barrier hfits hquote rfl, hhead, Bool.false_or, test_barrier hfits hquote rfl, hend,
    Bool.or_false]
  exact hescape

/-- The body of a published pattern, with the sizes in the value quoted. -/
theorem parseStixPattern_published (hhead : head ∈ publishedHeads) :
    parseStixPattern (comparisonPattern head.text (escapeStixPatternString v)) =
      parseBody (replace sizeRe quoteSize (head.body v)) := by
  have hpattern : (comparisonPattern head.text (escapeStixPatternString v)).toList =
      '[' :: (head.body v ++ [']']) := by
    unfold comparisonPattern PublishedHead.body
    rw [String.toList_ofList]
    simp
  have hlast : ('[' :: (head.body v ++ [']'])).getLast? = some ']' := by
    rw [← List.cons_append, List.getLast?_concat]
  have htrimmed : trimChars ('[' :: (head.body v ++ [']'])) = '[' :: (head.body v ++ [']']) := by
    apply trimChars_eq_self
    · rintro c ⟨⟩
      rfl
    · rw [hlast]
      rintro c ⟨⟩
      rfl
  have hbody : trimChars (head.body v) = head.body v := by
    apply trimChars_eq_self
    · intro c hc
      obtain ⟨d, hd, hspace⟩ := published_start hhead
      unfold PublishedHead.body at hc
      rw [List.append_assoc, List.head?_append, hd, Option.some_or, Option.mem_some_iff] at hc
      rwa [← hc]
    · intro c hc
      unfold PublishedHead.body at hc
      rw [← List.cons_append, ← List.append_assoc, List.getLast?_concat, Option.mem_some_iff] at hc
      rw [← hc]
      rfl
  have hnormalized : normalizePatternBrackets ('[' :: (head.body v ++ [']'])) =
      '[' :: (head.body v ++ [']']) := by
    unfold normalizePatternBrackets
    rw [htrimmed]
    simp [hlast]
  unfold parseStixPattern
  rw [hpattern, htrimmed]
  dsimp only
  rw [if_neg (List.cons_ne_nil _ _), hnormalized, if_neg (by simp [hlast])]
  unfold patternBody
  rw [List.tail_cons, List.dropLast_concat, hbody]

/-- The comparison of a published pattern, extracted. -/
def PublishedHead.extracted (head : PublishedHead) (v : List Char) : Extracted where
  objectType := head.objectType.toList
  property := head.property.toList
  value := v
  type := some head.type

section

variable (hhead : head ∈ publishedHeads)

include hhead

/-- What the parser takes from a published comparison. -/
theorem published_extracted (v : List Char) : (head.raw v).extracted = head.extracted v := by
  have htype : head.objectType.toList.map Char.toLower = head.objectType.toList ∧
      mapStixPropertyToType head.objectType.toList head.property.toList = some head.type := by
    revert head
    decide +kernel
  unfold RawComparison.extracted PublishedHead.extracted PublishedHead.raw
  rw [htype.1, htype.2, unescape_escape]

/-- A published comparison is an indicator, no attribute. -/
theorem published_not_attribute (v : List Char) : (head.extracted v).isAttribute = false := by
  have hproperty : (head.property.toList.map Char.toLower) ∉
      ["name".toList, "size".toList, "mime_type".toList] := by
    revert head
    decide
  unfold Extracted.isAttribute PublishedHead.extracted
  rw [Bool.and_eq_false_iff]
  exact .inr (decide_eq_false hproperty)

/-- One comparison with a value is flattened to its observable. -/
theorem flattenComparisons_published (hv : v ≠ []) (body : List Char) :
    flattenComparisons body [head.extracted v] =
      .ok [⟨head.type, String.ofList v, (head.extracted v).path⟩] .single [] := by
  have husable : (head.extracted v).isUsable = true := by
    unfold Extracted.isUsable PublishedHead.extracted
    simp [hv]
  have hattribute := published_not_attribute hhead v
  have hobservable : (head.extracted v).observable =
      some ⟨head.type, String.ofList v, (head.extracted v).path⟩ := rfl
  unfold flattenComparisons
  simp [husable, hattribute, hobservable, flatten, classifyCompound]

/-- A value in which the searches find nothing is read back. -/
theorem parse_published (hv : v ≠ []) (hword : test operatorWordRe v = false)
    (hsize : test sizeRe v = false) :
    parseStixPattern (comparisonPattern head.text (escapeStixPatternString v)) =
      .ok [⟨head.type, String.ofList v, (head.extracted v).path⟩] .single [] := by
  have hheads : test operatorWordRe (head.text.toList ++ [' ']) = false ∧
      test sizeRe (head.text.toList ++ [' ']) = false := by
    revert head
    decide +kernel
  have hbodyWord : test operatorWordRe (head.body v) = false := by
    rw [test_body fits_operatorWordRe (stopsAt_operatorWordRe rfl) (stopsAt_operatorWordRe rfl)
      hheads.1, hword]
  have hbodySize : test sizeRe (head.body v) = false := by
    rw [test_body fits_sizeRe (stopsAt_sizeRe endsSize_quote) (stopsAt_sizeRe endsSize_backslash)
      hheads.2, hsize]
  have hscan : scan comparisonRe (head.body v) = [.found (head.raw v) (head.body v)] := by
    have h := @scanFrom_comparison _ _ _ _ _ [] none (readsAs_body hhead v)
      (.inl (List.cons_ne_nil _ _))
    rwa [List.append_nil] at h
  have hextracted : extractComparisons (head.body v) = [head.extracted v] := by
    unfold extractComparisons
    rw [hscan, matchesOf_found, List.map_cons, published_extracted hhead]
    rfl
  have hblank : replace comparisonRe (fun _ _ => [' ']) (head.body v) = [' '] := by
    unfold replace
    rw [hscan]
    rfl
  have hresidual : residualText (head.body v) = [] := by
    unfold residualText
    rw [hblank]
    decide
  rw [parseStixPattern_published hhead, replace_eq_self hbodySize]
  unfold parseBody
  rw [hbodyWord, hextracted, hresidual]
  exact flattenComparisons_published hhead hv _

/-- A value in which a search finds something is not read back. -/
theorem parse_published_of_found (h : test operatorWordRe v = true ∨ test sizeRe v = true) :
    ∃ message, parseStixPattern (comparisonPattern head.text (escapeStixPatternString v)) =
      unsupported message := by
  have hheads : test operatorWordRe (head.text.toList ++ [' ']) = false ∧
      test sizeRe (head.text.toList ++ [' ']) = false := by
    revert head
    decide
  have hstop := stopsAt_sizeRe endsSize_quote
  have hbodySize := test_body (v := v) fits_sizeRe hstop (stopsAt_sizeRe endsSize_backslash)
    hheads.2
  rw [parseStixPattern_published hhead]
  by_cases hsize : test sizeRe v = true
  · -- the digits of the first size stand outside the literal
    have hescape : test sizeRe (escapeStixPatternString v) = true := by
      have := test_escape fits_sizeRe hstop (stopsAt_sizeRe endsSize_backslash) [] v
      rw [List.nil_append, List.nil_append] at this
      rw [this, hsize]
    obtain ⟨value, digits, rest, hreplace, hvalue, hne, hdigits⟩ :=
      replace_size_literal (isLiteral_escape v) hescape
    have hbody : replace sizeRe quoteSize (head.body v) =
        (head.text.toList ++ [' '] ++ '\'' :: (value ++ ['\''])) ++
          (digits ++ '\'' :: (rest ++ ['\''])) := by
      unfold PublishedHead.body
      rw [replace_barrier fits_sizeRe hstop rfl, replace_barrier fits_sizeRe hstop rfl, hreplace,
        replace_eq_self hheads.2]
      simp [replace, replacePieces, scan, scanFrom]
    have hread := readsAs_body hhead v
    have hreads : ReadsAs ⟨head.objectType.toList, head.property.toList, value⟩ [' ']
        head.operator.toList [' '] (head.text.toList ++ [' '] ++ '\'' :: (value ++ ['\''])) := by
      refine ⟨?_, hread.objectType, hread.property, hread.before, hread.operator, hread.after, hvalue⟩
      unfold PublishedHead.text
      simp
    obtain ⟨d, more, rfl⟩ := List.exists_cons_of_ne_nil hne
    obtain ⟨-, hresidue, hletter⟩ := isDigit_residue (hdigits d List.mem_cons_self)
    apply parseBody_of_residue _ hresidue hletter
    rw [hbody]
    unfold scan
    rw [scanFrom_comparison hreads (.inl (List.cons_ne_nil _ _)), scanFrom_run]
    · simp
    · intro c hc
      exact (isDigit_residue (hdigits c hc)).1
    · rintro c ⟨⟩
      exact ⟨rfl, by decide⟩
  · rw [Bool.not_eq_true] at hsize
    have hword := h.resolve_right (by simp [hsize])
    have hbodyWord : test operatorWordRe (head.body v) = true := by
      rw [test_body fits_operatorWordRe (stopsAt_operatorWordRe rfl) (stopsAt_operatorWordRe rfl)
        hheads.1, hword]
    rw [hsize] at hbodySize
    rw [replace_eq_self hbodySize]
    unfold parseBody
    rw [if_pos hbodyWord]
    exact ⟨_, rfl⟩

end

end Reading

/-- A published pattern is read back as one observable with the canonical type and the trimmed value
exactly when the word search and the search for file sizes find nothing in the value. -/
theorem publishedPattern_readBack_iff (observableType value pattern : String)
    (h : stixPatternForIoc observableType value = some pattern) :
    (∃ o dropped, parseStixPattern pattern = .ok [o] .single dropped ∧
        canonicalType observableType value = some o.type ∧ o.value = trim value) ↔
      test operatorWordRe (trim value).toList = false ∧ test sizeRe (trim value).toList = false := by
  obtain ⟨hv, head, hhead, rfl, htype⟩ := stixPatternForIoc_eq h
  have htrim : (trim value).toList = trimChars value.toList := String.toList_ofList
  rw [htrim, htype]
  constructor
  · rintro ⟨o, dropped, hparse, -, -⟩
    by_contra hfound
    have hfound : test operatorWordRe (trimChars value.toList) = true ∨
        test sizeRe (trimChars value.toList) = true := by
      cases hword : test operatorWordRe (trimChars value.toList) with
      | true => exact .inl rfl
      | false =>
        cases hsize : test sizeRe (trimChars value.toList) with
        | true => exact .inr rfl
        | false => exact absurd ⟨hword, hsize⟩ hfound
    obtain ⟨message, herror⟩ := parse_published_of_found hhead hfound
    rw [herror] at hparse
    cases hparse
  · rintro ⟨hword, hsize⟩
    exact ⟨_, _, parse_published hhead hv hword hsize, rfl, rfl⟩

/-- The theorem on a URL with a quote and a backslash. -/
theorem publishedPattern_readBack_iff_escaped :
    ∃ o dropped, parseStixPattern "[url:value = 'http://a/b\\'c\\\\d']" = .ok [o] .single dropped ∧
      canonicalType "url" " http://a/b'c\\d " = some o.type ∧ o.value = trim " http://a/b'c\\d " :=
  (publishedPattern_readBack_iff "url" " http://a/b'c\\d " _ (by decide +kernel)).mpr
    (by decide +kernel)

/-- The pattern of a URL with `like` as a word of its own is not read at all. -/
theorem publishedPattern_not_readBack :
    stixPatternForIoc "url" "http://a/like" = some "[url:value = 'http://a/like']" ∧
      parseStixPattern "[url:value = 'http://a/like']" =
        unsupported "Pattern uses MATCHES/LIKE/EXISTS/FOLLOWEDBY" := by
  constructor <;> decide

end TalonHound.Stix
