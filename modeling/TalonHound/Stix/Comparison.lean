import TalonHound.Stix.Pattern

/-!
# What `COMPARISON_RE` reads

The texts that the regular expression of the comparisons can read, and why there is at most one of
them at the start of a comparison whose operator stands apart from its path.
-/

namespace TalonHound.Stix

open List Regex

/-- The texts that `lit` reads. -/
def Spells (text : String) (raw : List Char) : Prop :=
  raw.map Char.toUpper = text.toList.map Char.toUpper

/-- `'…'`, with a key inside. -/
def IsQuotedKey (raw : List Char) : Prop :=
  ∃ key, raw = '\'' :: (key ++ ['\'']) ∧ key ≠ [] ∧ ∀ c ∈ key, isTypeChar c = true

/-- `hashes.'…'`. -/
def IsQuotedHashes (raw : List Char) : Prop :=
  ∃ hashes key, raw = hashes ++ key ∧ Spells "hashes." hashes ∧ IsQuotedKey key

/-- A run of path characters. -/
def IsPathRun (raw : List Char) : Prop := raw ≠ [] ∧ ∀ c ∈ raw, isPathChar c = true

/-- White space. -/
def IsSpaces (raw : List Char) : Prop := ∀ c ∈ raw, isJsWhitespace c = true

/-- `=`, `ISSUBSET` or `IN`. -/
def IsOperator (raw : List Char) : Prop :=
  (Spells "=" raw ∨ Spells "ISSUBSET" raw) ∨ Spells "IN" raw

/-- A chunk of a literal: an escape, or a character that needs none. -/
def IsLiteralChunk (raw : List Char) : Prop :=
  (Spells "\\'" raw ∨ Spells "\\\\" raw) ∨ ∃ c, raw = [c] ∧ isLiteralChar c = true

/-- The text of a literal between its quotes. -/
def IsLiteral : List Char → Prop := Star IsLiteralChunk

/-- The parts of a text that `COMPARISON_RE` reads. -/
structure ReadsAs (m : RawComparison) (before operator after raw : List Char) : Prop where
  raw_eq : raw = m.objectType ++ ':' :: (m.property ++ (before ++ (operator ++ (after ++
    '\'' :: (m.value ++ ['\''])))))
  objectType : m.objectType ≠ [] ∧ ∀ c ∈ m.objectType, isTypeChar c = true
  property : IsQuotedHashes m.property ∨ IsPathRun m.property
  before : IsSpaces before
  operator : IsOperator operator
  after : IsSpaces after
  value : IsLiteral m.value

theorem has_spaces : Has spaces IsSpaces := has_star_char _

/-- Upper case moves the small letters alone. -/
theorem toUpper_cases (c : Char) :
    c.toUpper = c ∨ 97 ≤ c.toNat ∧ c.toNat ≤ 122 ∧ c.toUpper.toNat + 32 = c.toNat := by
  unfold Char.toUpper
  split
  · next h =>
    right
    have hlow : 97 ≤ c.val.toNat := h.1
    have hhigh : c.val.toNat ≤ 122 := h.2
    refine ⟨hlow, hhigh, ?_⟩
    change (c.val + 4294967264).toNat + 32 = c.val.toNat
    rw [UInt32.toNat_add]
    simp only [UInt32.reduceToNat]
    omega
  · exact .inl rfl

/-- A character without case. -/
def Caseless (d : Char) : Prop := ¬(65 ≤ d.toNat ∧ d.toNat ≤ 90) ∧ ¬(97 ≤ d.toNat ∧ d.toNat ≤ 122)
  deriving Decidable

theorem eq_of_toUpper_eq {c d : Char} (hd : Caseless d) (h : c.toUpper = d.toUpper) : c = d := by
  obtain ⟨hupper, hlower⟩ := hd
  have hdSame : d.toUpper = d := by
    rcases toUpper_cases d with hd | ⟨hlow, hhigh, -⟩
    · exact hd
    · exact absurd ⟨hlow, hhigh⟩ hlower
  rw [hdSame] at h
  rcases toUpper_cases c with hc | ⟨hlow, hhigh, hc⟩
  · rw [← hc, h]
  · rw [h] at hc
    exact absurd ⟨by omega, by omega⟩ hupper

/-- A text without case is spelled by itself alone. -/
theorem spells_caseless {text : String} {raw : List Char} (h : ∀ d ∈ text.toList, Caseless d) :
    Spells text raw ↔ raw = text.toList := by
  unfold Spells
  generalize text.toList = chars at h
  constructor
  · intro heq
    induction chars generalizing raw with
    | nil => exact map_eq_nil_iff.mp heq
    | cons d chars ih =>
      obtain ⟨c, raw, rfl, hc, hraw⟩ := map_eq_cons_iff.mp heq
      rw [eq_of_toUpper_eq (h d mem_cons_self) hc, ih (fun e he => h e (.tail _ he)) hraw]
  · rintro rfl
    rfl

theorem spells_quote {raw : List Char} : Spells "'" raw ↔ raw = ['\''] :=
  spells_caseless (by decide)

theorem spells_colon {raw : List Char} : Spells ":" raw ↔ raw = [':'] := spells_caseless (by decide)

theorem spells_equals {raw : List Char} : Spells "=" raw ↔ raw = ['='] :=
  spells_caseless (by decide)

theorem spells_escapedQuote {raw : List Char} : Spells "\\'" raw ↔ raw = ['\\', '\''] :=
  spells_caseless (by decide)

theorem spells_escapedBackslash {raw : List Char} : Spells "\\\\" raw ↔ raw = ['\\', '\\'] :=
  spells_caseless (by decide)

/-- The characters of words by their codes. -/
theorem isWordChar_iff (c : Char) : isWordChar c = true ↔
    48 ≤ c.toNat ∧ c.toNat ≤ 57 ∨ 65 ≤ c.toNat ∧ c.toNat ≤ 90 ∨ 97 ≤ c.toNat ∧ c.toNat ≤ 122 ∨
      c.toNat = 95 := by
  have hunderscore : (c == '_') = true ↔ c.toNat = 95 := by
    rw [beq_iff_eq]
    constructor
    · rintro rfl
      rfl
    · intro h
      exact Char.toNat_inj.mp h
  have hupper : c.isUpper = true ↔ 65 ≤ c.toNat ∧ c.toNat ≤ 90 := by
    delta Char.isUpper
    rw [decide_eq_true_eq]
    rfl
  have hlower : c.isLower = true ↔ 97 ≤ c.toNat ∧ c.toNat ≤ 122 := by
    delta Char.isLower
    rw [Bool.and_eq_true, decide_eq_true_eq, decide_eq_true_eq]
    rfl
  have hdigit : c.isDigit = true ↔ 48 ≤ c.toNat ∧ c.toNat ≤ 57 := by
    unfold Char.isDigit
    rw [Bool.and_eq_true, decide_eq_true_eq, decide_eq_true_eq]
    rfl
  delta isWordChar Char.isAlphanum Char.isAlpha
  rw [Bool.or_eq_true, Bool.or_eq_true, Bool.or_eq_true, hunderscore, hupper, hlower, hdigit]
  omega

theorem isWordChar_toUpper (c : Char) : isWordChar c.toUpper = isWordChar c := by
  rw [Bool.eq_iff_iff, isWordChar_iff, isWordChar_iff]
  rcases toUpper_cases c with h | ⟨hlow, hhigh, h⟩
  · rw [h]
  · omega

/-- What a class says of a character of a word in upper case it says of it in either case. -/
theorem Spells.forall {text : String} {raw : List Char} {p : Char → Prop} (h : Spells text raw)
    (hp : ∀ c : Char, p c.toUpper → p c)
    (htext : ∀ d ∈ text.toList.map Char.toUpper, p d) : ∀ c ∈ raw, p c := by
  intro c hc
  apply hp
  apply htext
  rw [← h]
  exact mem_map_of_mem hc

theorem isPathChar_toUpper (c : Char) : isPathChar c.toUpper = true → isPathChar c = true := by
  unfold isPathChar isTypeChar
  rw [isWordChar_toUpper]
  rcases toUpper_cases c with h | ⟨hlow, hhigh, -⟩
  · rw [h]
    exact id
  · intro _
    rw [(isWordChar_iff c).mpr (by omega), Bool.true_or, Bool.true_or]

/-- The characters of `hashes.`, in either case, are path characters. -/
theorem isPathChar_of_spells {raw : List Char} (h : Spells "hashes." raw) :
    ∀ c ∈ raw, isPathChar c = true :=
  h.forall isPathChar_toUpper (by decide)

theorem has_quotedKey : Has quotedKey IsQuotedKey where
  fits := ((has_lit "'").append ((has_plus_char isTypeChar).append (has_lit "'"))).fits
  reads prev out raw rest := by
    unfold quotedKey
    rw [((has_lit "'").append ((has_plus_char isTypeChar).append (has_lit "'"))).reads]
    constructor
    · rintro ⟨hout, opening, more, rfl, hopening, key, closing, rfl, hkey, hclosing⟩
      obtain rfl := spells_quote.mp hopening
      obtain rfl := spells_quote.mp hclosing
      exact ⟨hout, key, rfl, hkey⟩
    · rintro ⟨hout, key, rfl, hkey⟩
      exact ⟨hout, ['\''], key ++ ['\''], rfl, spells_quote.mpr rfl, key, ['\''], rfl, hkey,
        spells_quote.mpr rfl⟩

theorem has_hashesPath : Has hashesPath fun raw =>
    ∃ hashes key, raw = hashes ++ key ∧ Spells "hashes." hashes ∧
      (IsQuotedKey key ∨ key ≠ [] ∧ ∀ c ∈ key, isTypeChar c = true) :=
  (has_lit "hashes.").append (has_quotedKey.orElse (has_plus_char isTypeChar))

theorem has_comparisonOperator : Has comparisonOperator IsOperator where
  fits := ((has_lit "=").orElse ((has_lit "ISSUBSET").orElse (has_lit "IN"))).fits
  reads prev out raw rest := by
    unfold comparisonOperator IsOperator
    rw [((has_lit "=").orElse ((has_lit "ISSUBSET").orElse (has_lit "IN"))).reads, or_assoc]
    rfl

theorem not_isLiteralChunk_nil : ¬IsLiteralChunk [] := by
  rintro ((h | h) | ⟨c, h, -⟩)
  · cases h
  · cases h
  · cases h

theorem has_literalText : Has literalText IsLiteral := by
  have hchunk : Has (lit "\\'" <|> lit "\\\\" <|> char isLiteralChar) IsLiteralChunk := by
    have hplain : Has (lit "\\\\" <|> char isLiteralChar) _ :=
      (has_lit "\\\\").orElse (has_char isLiteralChar)
    have hall : Has (lit "\\'" <|> lit "\\\\" <|> char isLiteralChar) _ :=
      (has_lit "\\'").orElse hplain
    refine ⟨hall.fits, fun prev out raw rest => ?_⟩
    rw [hall.reads]
    unfold IsLiteralChunk
    rw [or_assoc]
    rfl
  exact has_star hchunk not_isLiteralChunk_nil

theorem has_property : Has (hashesPath <|> plus (char isPathChar))
    fun raw => IsQuotedHashes raw ∨ IsPathRun raw where
  fits := (has_hashesPath.orElse (has_plus_char isPathChar)).fits
  reads prev out raw rest := by
    rw [(has_hashesPath.orElse (has_plus_char isPathChar)).reads]
    apply and_congr_right
    intro _
    constructor
    · rintro (⟨hashes, key, rfl, hhashes, hkey | ⟨hne, hkey⟩⟩ | hrun)
      · exact .inl ⟨hashes, key, rfl, hhashes, hkey⟩
      · -- `hashes.` and a bare key are a run of path characters
        refine .inr ⟨by simp [hne], ?_⟩
        intro c hc
        rcases mem_append.mp hc with hc | hc
        · exact isPathChar_of_spells hhashes c hc
        · unfold isPathChar
          rw [hkey c hc, Bool.true_or]
      · exact .inr hrun
    · rintro (⟨hashes, key, rfl, hhashes, hkey⟩ | hrun)
      · exact .inl ⟨hashes, key, rfl, hhashes, .inl hkey⟩
      · exact .inr hrun

/-- What the regular expression reads at a place. -/
theorem reads_comparisonRe {prev : Option Char} {m : RawComparison} {raw rest : List Char} :
    Reads comparisonRe prev m raw rest ↔
      ∃ before operator after, ReadsAs m before operator after raw := by
  unfold comparisonRe
  simp only [(has_plus_char isTypeChar).reads_bind, (has_lit ":").reads_bind,
    has_property.reads_bind, has_spaces.reads_bind, has_comparisonOperator.reads_bind,
    (has_lit "'").reads_bind, has_literalText.reads_bind, reads_pure_iff]
  constructor
  · rintro ⟨objectType, _, rfl, htype, colon, _, rfl, hcolon, property, _, rfl, hproperty, before, _,
      rfl, hbefore, operator, _, rfl, hoperator, after, _, rfl, hafter, opening, _, rfl, hopening,
      value, _, rfl, hvalue, closing, _, rfl, hclosing, rfl, rfl⟩
    obtain rfl := spells_colon.mp hcolon
    obtain rfl := spells_quote.mp hopening
    obtain rfl := spells_quote.mp hclosing
    exact ⟨before, operator, after, rfl, htype, hproperty, hbefore, hoperator, hafter, hvalue⟩
  · rintro ⟨before, operator, after, hraw, htype, hproperty, hbefore, hoperator, hafter, hvalue⟩
    refine ⟨m.objectType, _, hraw, htype, [':'], _, rfl, spells_colon.mpr rfl, m.property, _, rfl,
      hproperty, before, _, rfl, hbefore, operator, _, rfl, hoperator, after, _, rfl, hafter, ['\''],
      _, rfl, spells_quote.mpr rfl, m.value, _, rfl, hvalue, ['\''], [], rfl, spells_quote.mpr rfl,
      rfl, rfl⟩

section Unique

variable {a b x y : List Char}

/-- A literal ends at the first quote that no backslash escapes. -/
theorem IsLiteral.append_quote_inj (ha : IsLiteral a) (hb : IsLiteral b)
    (h : a ++ '\'' :: x = b ++ '\'' :: y) : a = b ∧ x = y := by
  have hchunk : ∀ {first more z : List Char}, IsLiteralChunk first → '\'' :: z ≠ first ++ more := by
    rintro first more z ((h | h) | ⟨c, rfl, hc⟩) heq
    · rw [spells_escapedQuote.mp h, cons_append, List.cons.injEq] at heq
      exact absurd heq.1 (by decide)
    · rw [spells_escapedBackslash.mp h, cons_append, List.cons.injEq] at heq
      exact absurd heq.1 (by decide)
    · rw [cons_append, List.cons.injEq] at heq
      rw [← heq.1] at hc
      cases hc
  induction ha generalizing b with
  | nil =>
    cases hb with
    | nil => exact ⟨rfl, (List.cons.inj h).2⟩
    | append hfirst _ =>
      rw [nil_append, append_assoc] at h
      exact absurd h (hchunk hfirst)
  | @append first more hfirst _ ih =>
    cases hb with
    | nil =>
      rw [nil_append, append_assoc] at h
      exact absurd h.symm (hchunk hfirst)
    | @append first' more' hfirst' hmore' =>
      rw [append_assoc, append_assoc] at h
      have hsame : first = first' ∧ more ++ '\'' :: x = more' ++ '\'' :: y := by
        rcases hfirst with (hf | hf) | ⟨c, rfl, hc⟩
        all_goals rcases hfirst' with (hf' | hf') | ⟨d, rfl, hd⟩
        · rw [spells_escapedQuote.mp hf, spells_escapedQuote.mp hf'] at h ⊢
          simpa using h
        · rw [spells_escapedQuote.mp hf, spells_escapedBackslash.mp hf'] at h
          simp at h
        · rw [spells_escapedQuote.mp hf] at h
          simp only [cons_append, nil_append, List.cons.injEq] at h
          rw [← h.1] at hd
          cases hd
        · rw [spells_escapedBackslash.mp hf, spells_escapedQuote.mp hf'] at h
          simp at h
        · rw [spells_escapedBackslash.mp hf, spells_escapedBackslash.mp hf'] at h ⊢
          simpa using h
        · rw [spells_escapedBackslash.mp hf] at h
          simp only [cons_append, nil_append, List.cons.injEq] at h
          rw [← h.1] at hd
          cases hd
        · rw [spells_escapedQuote.mp hf'] at h
          simp only [cons_append, nil_append, List.cons.injEq] at h
          rw [h.1] at hc
          cases hc
        · rw [spells_escapedBackslash.mp hf'] at h
          simp only [cons_append, nil_append, List.cons.injEq] at h
          rw [h.1] at hc
          cases hc
        · simpa using h
      obtain ⟨rfl, hrest⟩ := hsame
      obtain ⟨rfl, hxy⟩ := ih hmore' hrest
      exact ⟨rfl, hxy⟩

/-- White space ends at the first character that is none. -/
theorem IsSpaces.append_inj (ha : IsSpaces a) (hb : IsSpaces b)
    (hx : ∀ c ∈ x.head?, isJsWhitespace c = false) (hy : ∀ c ∈ y.head?, isJsWhitespace c = false)
    (h : a ++ x = b ++ y) : a = b ∧ x = y :=
  Texts.append_run_inj ha hb hx hy h

/-- The first character of an operator. -/
theorem IsOperator.head (h : IsOperator a) :
    ∃ c more, a = c :: more ∧ (c = '=' ∨ c.toUpper = 'I') := by
  rcases h with (h | h) | h
  · exact ⟨'=', [], spells_equals.mp h, .inl rfl⟩
  · obtain ⟨c, more, rfl, hc, -⟩ := map_eq_cons_iff.mp h
    exact ⟨c, more, rfl, .inr hc⟩
  · obtain ⟨c, more, rfl, hc, -⟩ := map_eq_cons_iff.mp h
    exact ⟨c, more, rfl, .inr hc⟩

/-- An operator is `=` or a keyword. -/
theorem IsOperator.eq_or_keyword (h : IsOperator a) :
    a = ['='] ∨ a ≠ [] ∧ (∀ c ∈ a, isPathChar c = true) ∧ '.' ∉ a := by
  have hkeyword : ∀ text : String, Spells text a → text.toList ≠ [] →
      (∀ d ∈ text.toList.map Char.toUpper, isPathChar d = true) →
      (∀ d ∈ text.toList.map Char.toUpper, d ≠ '.') →
      a ≠ [] ∧ (∀ c ∈ a, isPathChar c = true) ∧ '.' ∉ a := by
    intro text h hne hpath hdot
    refine ⟨?_, h.forall isPathChar_toUpper hpath, ?_⟩
    · rintro rfl
      exact hne (map_eq_nil_iff.mp h.symm)
    · intro hmem
      exact hdot _ (h ▸ mem_map_of_mem hmem) rfl
  rcases h with (h | h) | h
  · exact .inl (spells_equals.mp h)
  · exact .inr (hkeyword _ h (by decide) (by decide) (by decide))
  · exact .inr (hkeyword _ h (by decide) (by decide) (by decide))

/-- No operator is the start of another. -/
theorem IsOperator.append_inj (ha : IsOperator a) (hb : IsOperator b) (h : a ++ x = b ++ y) :
    a = b ∧ x = y := by
  have hlength : ∀ {text : String} {raw : List Char}, Spells text raw →
      raw.length = text.toList.length := by
    intro text raw hraw
    have := congrArg List.length hraw
    rwa [length_map, length_map] at this
  have hsame : ∀ {text : String}, Spells text a → Spells text b → a = b ∧ x = y := by
    intro text ha hb
    exact List.append_inj h ((hlength ha).trans (hlength hb).symm)
  -- different operators differ in their first two characters
  have hdiffer : ∀ {text text' : String} {i : ℕ}, Spells text a → Spells text' b →
      i < text.toList.length → i < text'.toList.length →
      (text.toList.map Char.toUpper)[i]? ≠ (text'.toList.map Char.toUpper)[i]? → False := by
    intro text text' i ha hb hi hi' hne
    apply hne
    have hat : (a ++ x)[i]?.map Char.toUpper = (b ++ y)[i]?.map Char.toUpper := by rw [h]
    rw [getElem?_append_left (by rw [hlength ha]; exact hi),
      getElem?_append_left (by rw [hlength hb]; exact hi'), ← getElem?_map,
      ← getElem?_map] at hat
    rwa [show a.map Char.toUpper = _ from ha, show b.map Char.toUpper = _ from hb] at hat
  rcases ha with (ha | ha) | ha
  · rcases hb with (hb | hb) | hb
    · exact hsame ha hb
    · exact (@hdiffer _ _ 0 ha hb (by decide) (by decide) (by decide)).elim
    · exact (@hdiffer _ _ 0 ha hb (by decide) (by decide) (by decide)).elim
  · rcases hb with (hb | hb) | hb
    · exact (@hdiffer _ _ 0 ha hb (by decide) (by decide) (by decide)).elim
    · exact hsame ha hb
    · exact (@hdiffer _ _ 1 ha hb (by decide) (by decide) (by decide)).elim
  · rcases hb with (hb | hb) | hb
    · exact (@hdiffer _ _ 0 ha hb (by decide) (by decide) (by decide)).elim
    · exact (@hdiffer _ _ 1 ha hb (by decide) (by decide) (by decide)).elim
    · exact hsame ha hb

/-- White space is not part of a path. -/
theorem isPathChar_of_isJsWhitespace {c : Char} (h : isJsWhitespace c = true) :
    isPathChar c = false := by
  have hword := isWordChar_iff c
  have hminus : c = '-' → c.toNat = 45 := by
    rintro rfl
    rfl
  have hdot : c = '.' → c.toNat = 46 := by
    rintro rfl
    rfl
  unfold isJsWhitespace at h
  rw [decide_eq_true_eq] at h
  unfold isPathChar isTypeChar
  rw [Bool.or_eq_false_iff, Bool.or_eq_false_iff, ← Bool.not_eq_true (isWordChar c), hword,
    beq_eq_false_iff_ne, beq_eq_false_iff_ne]
  refine ⟨⟨by omega, fun hc => ?_⟩, fun hc => ?_⟩
  · have := hminus hc
    omega
  · have := hdot hc
    omega

/-- The first character of an operator is not white space. -/
theorem isJsWhitespace_of_operator {c : Char} (h : c = '=' ∨ c.toUpper = 'I') :
    isJsWhitespace c = false := by
  rcases h with rfl | h
  · rfl
  · by_contra hspace
    have hnot := isPathChar_of_isJsWhitespace (by simpa using hspace : isJsWhitespace c = true)
    have hpath := isPathChar_toUpper c (by rw [h]; rfl)
    rw [hnot] at hpath
    cases hpath

variable {before before' operator operator' after after' : List Char}

/-- A quote does not start an operator after white space. -/
theorem quote_not_operator (hbefore : IsSpaces before) (hoperator : IsOperator operator) :
    '\'' :: x ≠ before ++ (operator ++ y) := by
  intro h
  cases before with
  | cons c before =>
    rw [cons_append, List.cons.injEq] at h
    have hc := hbefore c mem_cons_self
    rw [← h.1] at hc
    exact absurd hc (by decide)
  | nil =>
    obtain ⟨c, more, rfl, hc⟩ := hoperator.head
    rw [nil_append, cons_append, List.cons.injEq] at h
    rw [← h.1] at hc
    rcases hc with hc | hc
    · exact absurd hc (by decide)
    · exact absurd hc (by decide)

/-- The operator and what follows it, where path characters would go on. -/
theorem operator_of_path {s : List Char} (hbefore : IsSpaces before) (hoperator : IsOperator operator)
    (hafter : IsSpaces after) (hs : s ≠ []) (hpath : ∀ c ∈ s, isPathChar c = true)
    (hy : ∀ c ∈ y.head?, isPathChar c = false)
    (h : before ++ (operator ++ (after ++ '\'' :: x)) = s ++ y) :
    '.' ∉ s ∧ after ++ '\'' :: x = y := by
  obtain ⟨d, s, rfl⟩ := exists_cons_of_ne_nil hs
  have hd := hpath d mem_cons_self
  cases before with
  | cons c before =>
    rw [cons_append, cons_append, List.cons.injEq] at h
    have hc := isPathChar_of_isJsWhitespace (hbefore c mem_cons_self)
    rw [h.1, hd] at hc
    cases hc
  | nil =>
    rw [nil_append] at h
    rcases hoperator.eq_or_keyword with rfl | ⟨-, hkeyword, hdot⟩
    · rw [cons_append, cons_append, List.cons.injEq] at h
      rw [← h.1] at hd
      cases hd
    · have hend : ∀ c ∈ (after ++ '\'' :: x).head?, isPathChar c = false := by
        cases after with
        | nil =>
          rintro c ⟨⟩
          rfl
        | cons c after =>
          rintro c ⟨⟩
          exact isPathChar_of_isJsWhitespace (hafter c mem_cons_self)
      obtain ⟨rfl, hrest⟩ := Texts.append_run_inj hkeyword hpath hend hy h
      exact ⟨hdot, hrest⟩

/-- `hashes.` ends with a dot. -/
theorem dot_of_hashes_append {p s : List Char} (h : Spells "hashes." (p ++ s)) (hs : s ≠ []) :
    '.' ∈ s := by
  obtain ⟨s, d, rfl⟩ := eq_nil_or_concat s |>.resolve_left hs
  rw [concat_eq_append] at h ⊢
  have hlast := congrArg List.getLast? (show (p ++ (s ++ [d])).map Char.toUpper = _ from h)
  rw [← append_assoc, map_append, map_singleton, getLast?_concat] at hlast
  have hd : d.toUpper = '.' := by
    have hdot : ("hashes.".toList.map Char.toUpper).getLast? = some '.' := by decide
    rw [hdot] at hlast
    exact Option.some.inj hlast
  have hsame : d = '.' := eq_of_toUpper_eq (by decide) hd
  rw [hsame]
  exact mem_append_right _ mem_cons_self

variable {p p' : List Char}

/-- A path is read in one way before an operator that stands apart. -/
theorem property_unique (hp : IsQuotedHashes p ∨ IsPathRun p)
    (hp' : IsQuotedHashes p' ∨ IsPathRun p') (hbefore : IsSpaces before)
    (hbefore' : IsSpaces before') (hoperator : IsOperator operator)
    (hoperator' : IsOperator operator') (hafter' : IsSpaces after')
    (hapart : before ≠ [] ∨ operator = ['='])
    (h : p ++ (before ++ (operator ++ x)) =
      p' ++ (before' ++ (operator' ++ (after' ++ '\'' :: y)))) :
    p = p' ∧ before ++ (operator ++ x) = before' ++ (operator' ++ (after' ++ '\'' :: y)) := by
  have hend : ∀ c ∈ (before ++ (operator ++ x)).head?, isPathChar c = false := by
    cases before with
    | cons c before =>
      rintro c ⟨⟩
      exact isPathChar_of_isJsWhitespace (hbefore c mem_cons_self)
    | nil =>
      obtain rfl := hapart.resolve_left (fun hne => hne rfl)
      rintro c ⟨⟩
      rfl
  have hquote : ∀ z : List Char, ∀ c ∈ ('\'' :: z).head?, isPathChar c = false := by
    rintro z c ⟨⟩
    rfl
  rcases hp with ⟨hashes, key, rfl, hhashes, k, rfl, -, hk⟩ | ⟨-, hrun⟩
  all_goals rcases hp' with ⟨hashes', key', rfl, hhashes', k', rfl, -, hk'⟩ | ⟨-, hrun'⟩
  · -- two quoted keys
    rw [append_assoc, append_assoc] at h
    obtain ⟨hsame, hkeys⟩ := Texts.append_run_inj (isPathChar_of_spells hhashes)
      (isPathChar_of_spells hhashes') (hquote _) (hquote _) h
    have hkeys := (List.cons.inj hkeys).2
    change (k ++ ['\'']) ++ _ = (k' ++ ['\'']) ++ _ at hkeys
    rw [append_assoc, append_assoc] at hkeys
    have hnot : ∀ key : List Char, (∀ c ∈ key, isTypeChar c = true) → '\'' ∉ key := by
      intro key hkey hmem
      exact absurd (hkey _ hmem) (by decide)
    obtain ⟨rfl, hrest⟩ := Texts.append_separator_inj (hnot k hk) (hnot k' hk') hkeys
    rw [hsame]
    exact ⟨rfl, hrest⟩
  · -- a quoted key and a run: the run would end within `hashes.`
    rw [append_assoc] at h
    obtain ⟨s, rfl, hs⟩ := Texts.append_run_prefix hrun' (hquote _) h.symm
    exfalso
    cases s with
    | nil => exact quote_not_operator hbefore' hoperator' hs.symm
    | cons d s =>
      have hpath : ∀ c ∈ d :: s, isPathChar c = true := fun c hc =>
        isPathChar_of_spells hhashes c (mem_append_right _ hc)
      have hdot := dot_of_hashes_append hhashes (cons_ne_nil d s)
      exact (operator_of_path hbefore' hoperator' hafter' (cons_ne_nil _ _) hpath (hquote _)
        hs).1 hdot
  · -- a run and a quoted key: an operator would start with the quote
    rw [append_assoc] at h
    obtain ⟨-, hrest⟩ := Texts.append_run_inj hrun (isPathChar_of_spells hhashes') hend (hquote _) h
    exact absurd hrest.symm (quote_not_operator hbefore hoperator)
  · -- two runs
    obtain ⟨s, rfl, hs⟩ := Texts.append_run_prefix hrun' hend h.symm
    cases s with
    | nil => exact ⟨append_nil _, hs.symm⟩
    | cons d s =>
      exfalso
      have hpath : ∀ c ∈ d :: s, isPathChar c = true := fun c hc =>
        hrun c (mem_append_right _ hc)
      obtain ⟨-, hrest⟩ := operator_of_path hbefore' hoperator' hafter' (cons_ne_nil _ _) hpath
        hend hs
      -- the literal would start where the operator does
      have hspace : ∀ c ∈ (operator ++ x).head?, isJsWhitespace c = false := by
        obtain ⟨c, more, rfl, hc⟩ := hoperator.head
        rintro c ⟨⟩
        exact isJsWhitespace_of_operator hc
      have hspace' : ∀ c ∈ ('\'' :: y).head?, isJsWhitespace c = false := by
        rintro c ⟨⟩
        rfl
      obtain ⟨-, hrest⟩ := hafter'.append_inj hbefore hspace' hspace hrest
      have hnone : IsSpaces [] := by
        rintro c ⟨⟩
      exact quote_not_operator hnone hoperator hrest

/-- A comparison whose operator stands apart from its path is read in one way. -/
theorem ReadsAs.unique {m m' : RawComparison} {raw raw' rest rest' : List Char}
    (h : ReadsAs m before operator after raw) (h' : ReadsAs m' before' operator' after' raw')
    (hapart : before ≠ [] ∨ operator = ['=']) (heq : raw ++ rest = raw' ++ rest') :
    m' = m ∧ raw' = raw := by
  have hcolon : ∀ m : RawComparison, (∀ c ∈ m.objectType, isTypeChar c = true) →
      ':' ∉ m.objectType := by
    intro m hm hmem
    exact absurd (hm _ hmem) (by decide)
  have hspace : ∀ {operator x : List Char}, IsOperator operator →
      ∀ c ∈ (operator ++ x).head?, isJsWhitespace c = false := by
    intro operator x hoperator c hc
    obtain ⟨d, more, rfl, hd⟩ := hoperator.head
    rw [cons_append, head?_cons, Option.mem_some_iff] at hc
    subst hc
    exact isJsWhitespace_of_operator hd
  have hquote : ∀ z : List Char, ∀ c ∈ ('\'' :: z).head?, isJsWhitespace c = false := by
    rintro z c ⟨⟩
    rfl
  have htext := heq
  rw [h.raw_eq, h'.raw_eq] at htext
  simp only [append_assoc, cons_append] at htext
  obtain ⟨htype, htext⟩ := Texts.append_separator_inj (hcolon m h.objectType.2)
    (hcolon m' h'.objectType.2) htext
  obtain ⟨hproperty, htext⟩ := property_unique h.property h'.property h.before h'.before h.operator
    h'.operator h'.after hapart htext
  obtain ⟨hbefore, htext⟩ := h.before.append_inj h'.before (hspace h.operator)
    (hspace h'.operator) htext
  obtain ⟨hoperator, htext⟩ := h.operator.append_inj h'.operator htext
  obtain ⟨hafter, htext⟩ := h.after.append_inj h'.after (hquote _) (hquote _) htext
  obtain ⟨hvalue, -⟩ := h.value.append_quote_inj h'.value (List.cons.inj htext).2
  constructor
  · cases m
    cases m'
    simp_all
  · rw [h.raw_eq, h'.raw_eq, htype, hproperty, hbefore, hoperator, hafter, hvalue]

end Unique

theorem fits_comparisonRe : Fits comparisonRe := by
  refine (has_plus_char isTypeChar).fits.bind fun _ => (has_lit ":").fits.bind fun _ =>
    has_property.fits.bind fun _ => has_spaces.fits.bind fun _ =>
    has_comparisonOperator.fits.bind fun _ => has_spaces.fits.bind fun _ =>
    (has_lit "'").fits.bind fun _ => has_literalText.fits.bind fun _ =>
    (has_lit "'").fits.bind fun _ => Fits.pure _

/-- A scan takes a comparison whose operator stands apart. -/
theorem scanFrom_comparison {m : RawComparison} {before operator after raw rest : List Char}
    {prev : Option Char} (h : ReadsAs m before operator after raw)
    (hapart : before ≠ [] ∨ operator = ['=']) :
    scanFrom comparisonRe 0 prev (raw ++ rest) =
      .found m raw :: scanFrom comparisonRe 0 (lastOf raw prev) rest := by
  apply scanFrom_found
  · apply head?_eq_of_reads fits_comparisonRe
    · exact reads_comparisonRe.mpr ⟨before, operator, after, h⟩
    · intro m' raw' rest' htext hreads
      obtain ⟨before', operator', after', h'⟩ := reads_comparisonRe.mp hreads
      exact h.unique h' hapart htext
  · rw [h.raw_eq]
    simp

section NotRead

variable {run text : List Char} {prev : Option Char}

section

variable (hrun : ∀ c ∈ run, isTypeChar c = true)
  (hend : ∀ c ∈ text.head?, isTypeChar c = false ∧ c ≠ ':')
include hrun hend

/-- A run of characters of types that no colon follows is not the start of a comparison. -/
theorem comparisonRe_run : comparisonRe ⟨prev, run ++ text⟩ = [] := by
  apply eq_nil_of_not_reads fits_comparisonRe
  intro m raw rest htext hreads
  obtain ⟨before, operator, after, h⟩ := reads_comparisonRe.mp hreads
  rw [h.raw_eq, append_assoc, cons_append] at htext
  obtain ⟨s, rfl, hs⟩ := Texts.append_run_prefix h.objectType.2 (fun c hc => (hend c hc).1)
    htext.symm
  cases s with
  | nil =>
    rw [nil_append] at hs
    rw [← hs] at hend
    exact (hend ':' rfl).2 rfl
  | cons d s =>
    rw [cons_append, List.cons.injEq] at hs
    have hd := hrun d (mem_append_right _ mem_cons_self)
    rw [← hs.1] at hd
    cases hd

/-- The scan leaves such a run as it is. -/
theorem scanFrom_run : scanFrom comparisonRe 0 prev (run ++ text) =
      run.map .plain ++ scanFrom comparisonRe 0 (lastOf run prev) text := by
  induction run generalizing prev with
  | nil => rfl
  | cons c run ih =>
    have hnone : comparisonRe ⟨prev, c :: run ++ text⟩ = [] := comparisonRe_run hrun hend
    rw [cons_append] at hnone
    rw [cons_append, scanFrom_plain hnone,
      ih fun d hd => hrun d (.tail _ hd), map_cons, cons_append]
    congr 3
    unfold lastOf
    rw [getLast?_cons]
    cases run.getLast? <;> rfl

end

end NotRead

/-- A literal may be cut after a character that needs no escape. -/
theorem IsLiteral.cut {a y : List Char} {c : Char} (h : IsLiteral (a ++ c :: y))
    (hc : isLiteralChar c = true) : IsLiteral (a ++ [c]) ∧ IsLiteral y := by
  generalize htext : a ++ c :: y = text at h
  induction h generalizing a with
  | nil => simp at htext
  | @append first more hfirst hmore ih =>
    have htwo : ∀ d, first = ['\\', d] → isLiteralChar d = false →
        IsLiteral (a ++ [c]) ∧ IsLiteral y := by
      rintro d rfl hd
      match a, htext with
      | [], htext =>
        simp only [nil_append, cons_append, List.cons.injEq] at htext
        rw [htext.1] at hc
        cases hc
      | [e], htext =>
        simp only [nil_append, cons_append, List.cons.injEq] at htext
        rw [htext.2.1, hd] at hc
        cases hc
      | e :: e' :: a, htext =>
        simp only [nil_append, cons_append, List.cons.injEq] at htext
        obtain ⟨rfl, rfl, hrest⟩ := htext
        obtain ⟨hleft, hright⟩ := ih hrest
        exact ⟨@Star.append _ ['\\', e'] _ hfirst hleft, hright⟩
    rcases hfirst with (hspell | hspell) | ⟨d, rfl, hd⟩
    · exact htwo _ (spells_escapedQuote.mp hspell) rfl
    · exact htwo _ (spells_escapedBackslash.mp hspell) rfl
    · cases a with
      | nil =>
        simp only [nil_append, cons_append, List.cons.injEq] at htext
        obtain ⟨rfl, rfl⟩ := htext
        exact ⟨@Star.append _ [c] [] (.inr ⟨c, rfl, hc⟩) .nil, hmore⟩
      | cons e a =>
        simp only [nil_append, cons_append, List.cons.injEq] at htext
        obtain ⟨rfl, htext⟩ := htext
        obtain ⟨hleft, hright⟩ := ih htext
        exact ⟨@Star.append _ [e] _ (.inr ⟨e, rfl, hd⟩) hleft, hright⟩

end TalonHound.Stix
