import TalonHound.Stix.Comparison

/-!
# The searches of the parser

The word search, the rewriting of file sizes and the removal of connectives: which characters they
cannot read, and which characters they leave in the text.
-/

namespace TalonHound.Stix

open List Regex

theorem fits_wholeWord {m : Regex.Matcher (List Char)} (hm : Fits m) : Fits (wholeWord m) :=
  (fits_boundary _).bind fun _ => hm.bind fun _ => (fits_boundary _).bind fun _ => Fits.pure _

theorem stopsAt_wholeWord {m : Regex.Matcher (List Char)} {b : Char} (hm : StopsAt isWordChar b m)
    (hfits : Fits m) (hb : isWordChar b = false) : StopsAt isWordChar b (wholeWord m) :=
  (StopsAt.boundary hb).bind (fits_boundary _) fun _ => hm.bind hfits fun _ =>
    (StopsAt.boundary hb).bind (fits_boundary _) fun _ => StopsAt.pure _

theorem fits_operatorWordRe : Fits operatorWordRe :=
  fits_wholeWord ((has_lit _).fits.orElse ((has_lit _).fits.orElse
    ((has_lit _).fits.orElse (has_lit _).fits)))

/-- Letters of words are word characters, also in upper case. -/
theorem not_mem_of_not_word {b : Char} {text : String} (hb : isWordChar b = false)
    (htext : ∀ d ∈ text.toList, isWordChar d = true) :
    b.toUpper ∉ text.toList.map Char.toUpper := by
  intro hmem
  obtain ⟨d, hd, heq⟩ := mem_map.mp hmem
  have hword := htext d hd
  rw [← isWordChar_toUpper, heq, isWordChar_toUpper, hb] at hword
  cases hword

theorem stopsAt_operatorWordRe {b : Char} (hb : isWordChar b = false) :
    StopsAt isWordChar b operatorWordRe := by
  apply stopsAt_wholeWord _ _ hb
  · exact (StopsAt.lit (not_mem_of_not_word hb (by decide))).orElse
      ((StopsAt.lit (not_mem_of_not_word hb (by decide))).orElse
        ((StopsAt.lit (not_mem_of_not_word hb (by decide))).orElse
          (StopsAt.lit (not_mem_of_not_word hb (by decide)))))
  · exact (has_lit _).fits.orElse ((has_lit _).fits.orElse
      ((has_lit _).fits.orElse (has_lit _).fits))

theorem has_sizeHead : Has sizeHead fun raw =>
    ∃ path more, raw = path ++ more ∧ Spells "file:size" path ∧
      ∃ before more', more = before ++ more' ∧ IsSpaces before ∧
        ∃ equals after, more' = equals ++ after ∧ Spells "=" equals ∧ IsSpaces after :=
  (has_lit _).append (has_spaces.append ((has_lit _).append has_spaces))

theorem fits_sizeRe : Fits sizeRe := (fits_boundary _).bind fun _ => has_sizeHead.fits.bind fun _ =>
    (has_plus_char _).fits.bind fun _ => (fits_boundary _).bind fun _ => Fits.pure _

/-- A character that no file size has. -/
structure EndsSize (b : Char) : Prop where
  word : isWordChar b = false
  space : isJsWhitespace b = false
  path : b.toUpper ∉ "file:size".toList.map Char.toUpper
  equals : b.toUpper ∉ "=".toList.map Char.toUpper

theorem stopsAt_sizeRe {b : Char} (hb : EndsSize b) : StopsAt isWordChar b sizeRe := by
  have hspaces : StopsAt isWordChar b spaces := StopsAt.star_char hb.space
  have hhead : StopsAt isWordChar b sizeHead := (StopsAt.lit hb.path).append (has_lit _).fits
      (hspaces.append has_spaces.fits ((StopsAt.lit hb.equals).append (has_lit _).fits hspaces
        has_spaces.fits) ((has_lit _).append has_spaces).fits)
      (has_spaces.append ((has_lit _).append has_spaces)).fits
  have hdigit : b.isDigit = false := by
    have hword := hb.word
    unfold isWordChar Char.isAlphanum at hword
    rw [Bool.or_eq_false_iff, Bool.or_eq_false_iff] at hword
    exact hword.1.2
  exact (StopsAt.boundary hb.word).bind (fits_boundary _) fun _ =>
    hhead.bind has_sizeHead.fits fun _ => (StopsAt.plus_char hdigit).bind (has_plus_char _).fits
      fun _ => (StopsAt.boundary hb.word).bind (fits_boundary _) fun _ => StopsAt.pure _

/-- What the rewriting of sizes reads: a path with its equals sign, and digits. -/
theorem sizeRe_reads {prev : Option Char} {m : List Char × List Char} {raw rest : List Char}
    (h : Reads sizeRe prev m raw rest) :
    raw = m.1 ++ m.2 ∧ (∃ x c, m.1 = x ++ [c] ∧ isLiteralChar c = true) ∧ m.2 ≠ [] ∧
      ∀ d ∈ m.2, d.isDigit = true := by
  have hbody := reads_boundary_bind h
  obtain ⟨path, tail, rfl, hpath, htail⟩ := has_sizeHead.reads_bind.mp hbody
  obtain ⟨digits, tail, rfl, hdigits, htail⟩ := (has_plus_char Char.isDigit).reads_bind.mp htail
  have hnone := reads_boundary_bind htail
  obtain ⟨rfl, rfl⟩ := reads_pure_iff.mp hnone
  refine ⟨by rw [append_nil], ?_, hdigits⟩
  obtain ⟨file, _, rfl, -, before, _, rfl, -, equals, after, rfl, hequals, hafter⟩ := hpath
  obtain rfl := spells_equals.mp hequals
  rcases eq_nil_or_concat after with rfl | ⟨spaces, c, rfl⟩
  · exact ⟨file ++ before, '=', by simp, rfl⟩
  · rw [concat_eq_append] at hafter ⊢
    refine ⟨file ++ (before ++ (['='] ++ spaces)), c, by simp, ?_⟩
    have hspace := hafter c (mem_append_right _ mem_cons_self)
    unfold isLiteralChar
    rw [Bool.and_eq_true, bne_iff_ne, bne_iff_ne]
    constructor
    · rintro rfl
      cases hspace
    · rintro rfl
      cases hspace

/-- The rewriting of a size within a literal ends the literal before the digits of the size. -/
theorem replace_size_literal {text : List Char} (hliteral : IsLiteral text)
    (h : test sizeRe text = true) :
    ∃ value digits rest, replace sizeRe quoteSize text = value ++ '\'' :: (digits ++ '\'' :: rest) ∧
      IsLiteral value ∧ digits ≠ [] ∧ ∀ d ∈ digits, d.isDigit = true := by
  obtain ⟨front, m, raw, back, rest, rfl, hreplace, prev, after, hreads⟩ :=
    exists_first_match (f := quoteSize) fits_sizeRe h
  obtain ⟨rfl, ⟨x, c, hpath, hc⟩, hdigits⟩ := sizeRe_reads hreads
  refine ⟨front ++ m.1, m.2, rest, ?_, ?_, hdigits⟩
  · rw [hreplace]
    unfold quoteSize
    simp
  · rw [hpath] at hliteral ⊢
    have hcut : IsLiteral ((front ++ x) ++ c :: (m.2 ++ back)) := by
      simpa using hliteral
    have hleft := (hcut.cut hc).1
    rwa [append_assoc] at hleft

theorem isDigit_residue {d : Char} (h : d.isDigit = true) :
    isTypeChar d = true ∧ isResidue d = true ∧ d.toUpper ∉ ['A', 'N', 'D', 'O', 'R'] := by
  have hword : isWordChar d = true := by
    unfold isWordChar Char.isAlphanum
    rw [h, Bool.or_true, Bool.true_or]
  refine ⟨?_, ?_, ?_⟩
  · unfold isTypeChar
    rw [hword, Bool.true_or]
  · unfold isResidue
    rw [hword, Bool.true_or]
  · have hcode : 48 ≤ d.toNat ∧ d.toNat ≤ 57 := by
      unfold Char.isDigit at h
      rwa [Bool.and_eq_true, decide_eq_true_eq, decide_eq_true_eq] at h
    rcases toUpper_cases d with hsame | ⟨hlow, -, -⟩
    · rw [hsame]
      intro hmem
      simp only [mem_cons, not_mem_nil, or_false] at hmem
      rcases hmem with rfl | rfl | rfl | rfl | rfl <;> exact absurd hcode (by decide)
    · omega

theorem endsSize_quote : EndsSize '\'' := ⟨by decide, by decide, by decide, by decide⟩

theorem endsSize_backslash : EndsSize '\\' := ⟨by decide, by decide, by decide, by decide⟩

/-- The characters of a connective are letters of `AND` and `OR`. -/
theorem connectiveRe_reads {prev : Option Char} {word raw rest : List Char}
    (h : Reads connectiveRe prev word raw rest) :
    ∀ c ∈ raw, c.toUpper ∈ ['A', 'N', 'D', 'O', 'R'] := by
  have hbody := reads_boundary_bind h
  have hwords : Has (lit "AND" <|> lit "OR") _ := (has_lit "AND").orElse (has_lit "OR")
  obtain ⟨front, back, rfl, hfront, hback⟩ := hwords.reads_bind.mp hbody
  have hnone := reads_boundary_bind hback
  obtain ⟨-, rfl⟩ := reads_pure_iff.mp hnone
  rw [append_nil]
  rcases hfront with hfront | hfront
  · intro c hc
    have hmem := hfront ▸ mem_map_of_mem (f := Char.toUpper) hc
    revert hmem
    generalize c.toUpper = d
    revert d
    decide
  · intro c hc
    have hmem := hfront ▸ mem_map_of_mem (f := Char.toUpper) hc
    revert hmem
    generalize c.toUpper = d
    revert d
    decide

theorem fits_connectiveRe : Fits connectiveRe :=
  fits_wholeWord ((has_lit _).fits.orElse (has_lit _).fits)

/-- A character that is not one of the letters of connectives, of spaces or of parentheses stays in
the residual text, when the comparisons leave it. -/
theorem mem_residualText {body : List Char} {c : Char}
    (hc : .plain c ∈ scan comparisonRe body) (hspace : isJsWhitespace c = false)
    (hletter : c.toUpper ∉ ['A', 'N', 'D', 'O', 'R']) (hparen : c ≠ '(' ∧ c ≠ ')') :
    c ∈ residualText body := by
  have hleft : c ∈ replace comparisonRe (fun _ _ => [' ']) body :=
    mem_flatMap.mpr ⟨_, hc, mem_cons_self⟩
  have hconnective := mem_replace (f := fun _ _ => [' ']) fits_connectiveRe hleft
    fun prev word raw rest h hmem => hletter (connectiveRe_reads h c hmem)
  apply mem_trimChars hspace
  refine mem_map.mpr ⟨c, hconnective, ?_⟩
  rw [if_neg]
  rintro (h | h)
  · exact hparen.1 h
  · exact hparen.2 h

/-- A text with a residue is not parsed. -/
theorem parseBody_of_residue {body : List Char} {c : Char} (hc : .plain c ∈ scan comparisonRe body)
    (hresidue : isResidue c = true) (hletter : c.toUpper ∉ ['A', 'N', 'D', 'O', 'R']) :
    ∃ message, parseBody body = unsupported message := by
  have hspace : isJsWhitespace c = false := by
    by_contra hspace
    have hpath := isPathChar_of_isJsWhitespace (by simpa using hspace)
    unfold isPathChar isTypeChar at hpath
    rw [Bool.or_eq_false_iff, Bool.or_eq_false_iff] at hpath
    unfold isResidue at hresidue
    rw [hpath.1.1, Bool.false_or, beq_iff_eq] at hresidue
    rw [hresidue] at hspace
    exact hspace rfl
  have hparen : c ≠ '(' ∧ c ≠ ')' := by
    constructor
    · rintro rfl
      cases hresidue
    · rintro rfl
      cases hresidue
  have hany : (residualText body).any isResidue = true :=
    any_eq_true.mpr ⟨c, mem_residualText hc hspace hletter hparen, hresidue⟩
  unfold parseBody
  dsimp only
  split
  · exact ⟨_, rfl⟩
  · split
    · exact ⟨_, rfl⟩
    · exact ⟨_, rfl⟩

end TalonHound.Stix
