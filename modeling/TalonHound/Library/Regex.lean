import Mathlib.Data.List.Basic

/-!
# Regular expressions by backtracking

A regular expression tries, at a place of a text, the ways to match there in a fixed order: a
repetition takes as much as it can first, an alternation its left side first. A matcher lists all
ways in this order, so that the first of them is the match. A scan goes through a text from left to
right and takes the matches that do not overlap.
-/

namespace Regex

open List

/-- A place in a text: the character before it and what follows. -/
structure Cursor where
  prev : Option Char
  rest : List Char

/-- The place after the next `n` characters. -/
def Cursor.advance (c : Cursor) (n : ℕ) : Cursor :=
  ⟨(c.rest.take n).getLast?.or c.prev, c.rest.drop n⟩

/-- The ways to match at a place, each with what it reads and how many characters that takes. -/
def Matcher (β : Type) : Type := Cursor → List (β × ℕ)

variable {β γ : Type}

/-- Nothing is read. -/
def Matcher.nothing (b : β) : Matcher β := fun _ => [(b, 0)]

/-- One matcher after the other. -/
def Matcher.andThen (m : Matcher β) (f : β → Matcher γ) : Matcher γ := fun c =>
  (m c).flatMap fun r => (f r.1 (c.advance r.2)).map fun s => (s.1, r.2 + s.2)

instance : Monad Matcher where
  pure := Matcher.nothing
  bind := Matcher.andThen

instance : OrElse (Matcher β) where
  orElse m n := fun c => m c ++ n () c

/-- Two texts, one after the other. -/
def Matcher.append (m n : Matcher (List Char)) : Matcher (List Char) := do
  let first ← m
  let more ← n
  pure (first ++ more)

instance : Append (Matcher (List Char)) := ⟨Matcher.append⟩

/-- One character of a class. -/
def char (p : Char → Bool) : Matcher (List Char) := fun c =>
  match c.rest with
  | [] => []
  | a :: _ => if p a then [([a], 1)] else []

/-- A text, without regard to case. -/
def lit (text : String) : Matcher (List Char) := fun c =>
  let n := text.toList.length
  if (c.rest.take n).map Char.toUpper = text.toList.map Char.toUpper then [(c.rest.take n, n)]
  else []

/-- At most `n` repetitions, as many as possible first. -/
def upTo (m : Matcher (List Char)) : ℕ → Matcher (List Char)
  | 0 => pure []
  | n + 1 => m ++ upTo m n <|> pure []

/-- Repetition: `(…)*`. -/
def star (m : Matcher (List Char)) : Matcher (List Char) := fun c => upTo m c.rest.length c

/-- Repetition at least once: `(…)+`. -/
def plus (m : Matcher (List Char)) : Matcher (List Char) := m ++ star m

/-- A place between a word and what is not one: `\b`. -/
def boundary (isWord : Char → Bool) : Matcher Unit := fun c =>
  if c.prev.any isWord = c.rest.head?.any isWord then [] else [((), 0)]

/-- A character that no match has read, or a match with the characters that it reads. -/
inductive Piece (β : Type) where
  | plain (c : Char)
  | found (b : β) (raw : List Char)

/-- The characters of a piece. -/
def Piece.text : Piece β → List Char
  | .plain c => [c]
  | .found _ raw => raw

/-- The scan of a text. The first `skip` characters are read already. -/
def scanFrom (m : Matcher β) : ℕ → Option Char → List Char → List (Piece β)
  | _, _, [] => []
  | skip + 1, _, c :: text => scanFrom m skip (some c) text
  | 0, prev, c :: text =>
    match (m ⟨prev, c :: text⟩).head? with
    | some (b, n + 1) => .found b ((c :: text).take (n + 1)) :: scanFrom m n (some c) text
    | _ => .plain c :: scanFrom m 0 (some c) text

/-- The scan of a text from its start. -/
def scan (m : Matcher β) (text : List Char) : List (Piece β) := scanFrom m 0 none text

/-- What the matches of a scan read: `exec` until it finds no more. -/
def matchesOf (pieces : List (Piece β)) : List (β × List Char) :=
  pieces.filterMap fun
    | .plain _ => none
    | .found b raw => some (b, raw)

/-- `test`. -/
def test (m : Matcher β) (text : List Char) : Bool := !(matchesOf (scan m text)).isEmpty

/-- `replace`, for pieces. -/
def replacePieces (f : β → List Char → List Char) (pieces : List (Piece β)) : List Char :=
  pieces.flatMap fun
    | .plain c => [c]
    | .found b raw => f b raw

/-- `replace`. -/
def replace (m : Matcher β) (f : β → List Char → List Char) (text : List Char) : List Char :=
  replacePieces f (scan m text)

/-- The last character of a text that follows `prev`. -/
def lastOf (raw : List Char) (prev : Option Char) : Option Char := raw.getLast?.or prev

/-- The last character of two texts, one after the other. -/
@[simp] theorem lastOf_append (a b : List Char) (prev : Option Char) :
    lastOf (a ++ b) prev = lastOf b (lastOf a prev) := by
  unfold lastOf
  rw [getLast?_append, Option.or_assoc]

/-- One way to match reads `b` from `raw` and leaves `rest`. -/
def Reads (m : Matcher β) (prev : Option Char) (b : β) (raw rest : List Char) : Prop :=
  (b, raw.length) ∈ m ⟨prev, raw ++ rest⟩

/-- No way to match takes more characters than there are. -/
def Fits (m : Matcher β) : Prop := ∀ c, ∀ r ∈ m c, r.2 ≤ c.rest.length

section Reads

variable {m n : Matcher β} {f : β → Matcher γ} {prev : Option Char} {b : β} {raw rest : List Char}

/-- Past a matched text the cursor stands at the rest. -/
theorem advance_append : (⟨prev, raw ++ rest⟩ : Cursor).advance raw.length =
    ⟨lastOf raw prev, rest⟩ := by
  unfold Cursor.advance lastOf
  rw [take_left, drop_left]

/-- Every way to match reads a front of the text. -/
theorem Fits.exists_reads (h : Fits m) {text : List Char} {r : β × ℕ} (hr : r ∈ m ⟨prev, text⟩) :
    ∃ raw rest, text = raw ++ rest ∧ raw.length = r.2 ∧ Reads m prev r.1 raw rest := by
  have hle : r.2 ≤ text.length := h _ r hr
  refine ⟨text.take r.2, text.drop r.2, (take_append_drop _ _).symm, ?_, ?_⟩
  · rw [length_take, Nat.min_eq_left hle]
  · unfold Reads
    rw [take_append_drop, length_take, Nat.min_eq_left hle]
    exact hr

/-- A constant matcher reads nothing. -/
theorem reads_pure_iff {b' : β} : Reads (pure b') prev b raw rest ↔ b = b' ∧ raw = [] := by
  change (b, raw.length) ∈ [(b', 0)] ↔ _
  rw [mem_singleton, Prod.mk.injEq, length_eq_zero_iff]

/-- An alternative reads what either side reads. -/
theorem reads_orElse {n : Unit → Matcher β} :
    Reads (HOrElse.hOrElse m n) prev b raw rest ↔
      Reads m prev b raw rest ∨ Reads (n ()) prev b raw rest :=
  mem_append

/-- A sequence reads a text in two consecutive pieces. -/
theorem reads_bind (hm : Fits m) {g : γ} :
    Reads (m >>= f) prev g raw rest ↔
      ∃ b first more, raw = first ++ more ∧ Reads m prev b first (more ++ rest) ∧
        Reads (f b) (lastOf first prev) g more rest := by
  change (g, raw.length) ∈ (m ⟨prev, raw ++ rest⟩).flatMap _ ↔ _
  rw [mem_flatMap]
  constructor
  · rintro ⟨r, hr, hmem⟩
    obtain ⟨s, hs, heq⟩ := mem_map.mp hmem
    rw [Prod.mk.injEq] at heq
    obtain ⟨hg, hlength⟩ := heq
    obtain ⟨first, tail, htext, hfirst, hreads⟩ := hm.exists_reads hr
    have hle : first.length ≤ raw.length := by omega
    have hsplit : raw = first ++ raw.drop first.length := by
      have htake := congrArg (List.take first.length) htext
      rw [take_left, take_append_of_le_length hle] at htake
      conv_lhs => rw [← take_append_drop first.length raw, htake]
    refine ⟨r.1, first, raw.drop first.length, hsplit, ?_, ?_⟩
    · have htail : tail = raw.drop first.length ++ rest := by
        have hboth : first ++ tail = first ++ (raw.drop first.length ++ rest) := by
          rw [← htext, ← append_assoc, ← hsplit]
        exact append_cancel_left hboth
      rwa [← htail]
    · have hcursor : (⟨prev, raw ++ rest⟩ : Cursor).advance r.2 =
          ⟨lastOf first prev, raw.drop first.length ++ rest⟩ := by
        rw [← hfirst]
        conv_lhs => rw [hsplit, append_assoc]
        exact advance_append
      rw [hcursor] at hs
      unfold Reads
      have hmore : (raw.drop first.length).length = s.2 := by
        rw [length_drop]
        omega
      rw [hmore, ← hg]
      exact hs
  · rintro ⟨b, first, more, rfl, hfirst, hmore⟩
    refine ⟨(b, first.length), by rwa [append_assoc], mem_map.mpr ⟨(g, more.length), ?_, ?_⟩⟩
    · rw [append_assoc, advance_append]
      exact hmore
    · rw [length_append]

/-- A constant matcher stays in the text. -/
theorem Fits.pure (b : β) : Fits (Pure.pure b : Matcher β) := by
  intro c r hr
  obtain rfl := mem_singleton.mp hr
  exact Nat.zero_le _

/-- Alternatives that stay in the text. -/
theorem Fits.orElse {n : Unit → Matcher β} (hm : Fits m) (hn : Fits (n ())) :
    Fits (HOrElse.hOrElse m n) := by
  intro c r hr
  rcases mem_append.mp hr with hr | hr
  · exact hm c r hr
  · exact hn c r hr

/-- Sequences that stay in the text. -/
theorem Fits.bind (hm : Fits m) (hf : ∀ b, Fits (f b)) : Fits (m >>= f) := by
  intro c r hr
  obtain ⟨s, hs, hmem⟩ := mem_flatMap.mp hr
  obtain ⟨t, ht, rfl⟩ := mem_map.mp hmem
  have hfirst := hm c s hs
  have hmore := hf s.1 (c.advance s.2) t ht
  unfold Cursor.advance at hmore
  rw [length_drop] at hmore
  omega

end Reads

/-- The matcher reads the texts of a language, whatever stands around them. -/
structure Has (m : Matcher (List Char)) (language : List Char → Prop) : Prop where
  fits : Fits m
  reads : ∀ prev out raw rest, Reads m prev out raw rest ↔ out = raw ∧ language raw

/-- The texts of repetitions. -/
inductive Star (language : List Char → Prop) : List Char → Prop
  | nil : Star language []
  | append {first more : List Char} : language first → Star language more →
      Star language (first ++ more)

section Has

variable {m n : Matcher (List Char)} {A B : List Char → Prop} {p : Char → Bool}

/-- The empty pattern matches the empty text. -/
theorem has_pure : Has (pure []) (· = []) where
  fits := Fits.pure _
  reads prev out raw rest := by
    rw [reads_pure_iff]
    constructor
    · rintro ⟨rfl, rfl⟩
      exact ⟨rfl, rfl⟩
    · rintro ⟨rfl, rfl⟩
      exact ⟨rfl, rfl⟩

/-- A class matches one character of the class. -/
theorem has_char (p : Char → Bool) : Has (char p) fun raw => ∃ a, raw = [a] ∧ p a = true where
  fits c r hr := by
    unfold char at hr
    split at hr
    · cases hr
    · next a text heq =>
      split at hr
      · obtain rfl := mem_singleton.mp hr
        rw [heq]
        exact Nat.succ_le_succ (Nat.zero_le _)
      · cases hr
  reads prev out raw rest := by
    unfold Reads char
    cases raw with
    | nil =>
      cases rest with
      | nil => simp
      | cons a rest =>
        split <;> simp
    | cons a raw =>
      dsimp only [cons_append]
      split
      · next h =>
        rw [mem_singleton, Prod.mk.injEq, length_cons]
        constructor
        · rintro ⟨rfl, hlength⟩
          have hnil : raw = [] := length_eq_zero_iff.mp (by omega)
          rw [hnil]
          exact ⟨rfl, a, rfl, h⟩
        · rintro ⟨rfl, b, heq, -⟩
          rw [List.cons.injEq] at heq
          rw [heq.1, heq.2]
          exact ⟨rfl, rfl⟩
      · next h =>
        constructor
        · intro hmem
          cases hmem
        · rintro ⟨-, b, heq, hb⟩
          rw [List.cons.injEq] at heq
          rw [heq.1] at h
          exact absurd hb h

/-- A literal matches its letters in either case. -/
theorem has_lit (text : String) :
    Has (lit text) fun raw => raw.map Char.toUpper = text.toList.map Char.toUpper where
  fits c r hr := by
    unfold lit at hr
    dsimp only at hr
    split at hr
    · next h =>
      obtain rfl := mem_singleton.mp hr
      have hlength := congrArg List.length h
      rw [length_map, length_map, length_take] at hlength
      omega
    · cases hr
  reads prev out raw rest := by
    unfold Reads lit
    dsimp only
    split
    · next h =>
      rw [mem_singleton, Prod.mk.injEq]
      constructor
      · rintro ⟨hout, hlength⟩
        rw [← hlength, take_left] at h hout
        exact ⟨hout, h⟩
      · rintro ⟨rfl, hraw⟩
        have hlength := congrArg List.length hraw
        rw [length_map, length_map] at hlength
        rw [← hlength, take_left]
        exact ⟨rfl, rfl⟩
    · next h =>
      constructor
      · intro hmem
        cases hmem
      · rintro ⟨-, hraw⟩
        have hlength := congrArg List.length hraw
        rw [length_map, length_map] at hlength
        rw [← hlength, take_left] at h
        exact absurd hraw h

/-- The language of an alternative is the union. -/
theorem Has.orElse {n : Unit → Matcher (List Char)} (hm : Has m A) (hn : Has (n ()) B) :
    Has (HOrElse.hOrElse m n) fun raw => A raw ∨ B raw where
  fits := hm.fits.orElse hn.fits
  reads prev out raw rest := by
    rw [reads_orElse, hm.reads, hn.reads]
    constructor
    · rintro (⟨h, ha⟩ | ⟨h, hb⟩)
      · exact ⟨h, .inl ha⟩
      · exact ⟨h, .inr hb⟩
    · rintro ⟨h, ha | hb⟩
      · exact .inl ⟨h, ha⟩
      · exact .inr ⟨h, hb⟩

/-- Concatenations stay in the text. -/
theorem Fits.append (hm : Fits m) (hn : Fits n) : Fits (m ++ n) :=
  hm.bind fun _ => hn.bind fun _ => Fits.pure _

/-- The language of a concatenation. -/
theorem Has.append (hm : Has m A) (hn : Has n B) :
    Has (m ++ n) fun raw => ∃ first more, raw = first ++ more ∧ A first ∧ B more where
  fits := hm.fits.append hn.fits
  reads prev out raw rest := by
    change Reads (m.append n) prev out raw rest ↔ _
    unfold Matcher.append
    rw [reads_bind hm.fits]
    constructor
    · rintro ⟨b, front, back, rfl, hfront, hback⟩
      obtain ⟨rfl, ha⟩ := (hm.reads ..).mp hfront
      rw [reads_bind hn.fits] at hback
      obtain ⟨b', middle, none, rfl, hmiddle, hnone⟩ := hback
      obtain ⟨rfl, hb⟩ := (hn.reads ..).mp hmiddle
      obtain ⟨rfl, rfl⟩ := reads_pure_iff.mp hnone
      rw [append_nil]
      exact ⟨rfl, b, b', rfl, ha, hb⟩
    · rintro ⟨rfl, front, back, rfl, ha, hb⟩
      refine ⟨front, front, back, rfl, (hm.reads ..).mpr ⟨rfl, ha⟩, ?_⟩
      rw [reads_bind hn.fits]
      exact ⟨back, back, [], (append_nil _).symm, (hn.reads ..).mpr ⟨rfl, hb⟩,
        reads_pure_iff.mpr ⟨rfl, rfl⟩⟩

/-- A text of a language first, and then what depends on it. -/
theorem Has.reads_bind (hm : Has m A) {f : List Char → Matcher γ} {prev : Option Char} {g : γ}
    {raw rest : List Char} :
    Reads (m >>= f) prev g raw rest ↔
      ∃ front back, raw = front ++ back ∧ A front ∧ Reads (f front) (lastOf front prev) g back rest := by
  rw [Regex.reads_bind hm.fits]
  constructor
  · rintro ⟨b, front, back, hraw, hfront, hback⟩
    obtain ⟨rfl, ha⟩ := (hm.reads ..).mp hfront
    exact ⟨b, back, hraw, ha, hback⟩
  · rintro ⟨front, back, hraw, ha, hback⟩
    exact ⟨front, front, back, hraw, (hm.reads ..).mpr ⟨rfl, ha⟩, hback⟩

/-- The texts of at most `n` repetitions. -/
def UpTo (language : List Char → Prop) : ℕ → List Char → Prop
  | 0, raw => raw = []
  | n + 1, raw =>
    (∃ first more, raw = first ++ more ∧ language first ∧ UpTo language n more) ∨ raw = []

/-- A bounded repetition matches at most so many copies. -/
theorem has_upTo (hm : Has m A) (n : ℕ) : Has (upTo m n) (UpTo A n) := by
  induction n with
  | zero => exact has_pure
  | succ n ih => exact (hm.append ih).orElse has_pure

/-- A bounded repetition is a repetition. -/
theorem UpTo.star {n : ℕ} {raw : List Char} (h : UpTo A n raw) : Star A raw := by
  induction n generalizing raw with
  | zero =>
    obtain rfl : raw = [] := h
    exact .nil
  | succ n ih =>
    rcases h with ⟨first, more, rfl, ha, hmore⟩ | rfl
    · exact .append ha (ih hmore)
    · exact .nil

/-- Repetitions of texts that are not empty are not more than the characters. -/
theorem Star.upTo {raw : List Char} (h : Star A raw) (hA : ¬A []) {n : ℕ} (hn : raw.length ≤ n) :
    UpTo A n raw := by
  induction h generalizing n with
  | nil =>
    cases n with
    | zero => rfl
    | succ n => exact .inr rfl
  | @append first more ha hmore ih =>
    have hpos : 0 < first.length := by
      apply length_pos_of_ne_nil
      rintro rfl
      exact hA ha
    rw [length_append] at hn
    cases n with
    | zero => omega
    | succ n => exact .inl ⟨first, more, rfl, ha, ih (by omega)⟩

/-- Repetition reads the texts of repetitions. -/
theorem has_star (hm : Has m A) (hA : ¬A []) : Has (star m) (Star A) where
  fits c := (has_upTo hm c.rest.length).fits c
  reads prev out raw rest := by
    change Reads (upTo m (raw ++ rest).length) prev out raw rest ↔ _
    rw [(has_upTo hm _).reads]
    constructor
    · rintro ⟨hout, hraw⟩
      exact ⟨hout, hraw.star⟩
    · rintro ⟨hout, hraw⟩
      refine ⟨hout, hraw.upTo hA ?_⟩
      rw [length_append]
      omega

/-- A repeated class matches the texts over the class. -/
theorem star_char {raw : List Char} :
    Star (fun raw => ∃ a, raw = [a] ∧ p a = true) raw ↔ ∀ a ∈ raw, p a = true := by
  constructor
  · intro h
    induction h with
    | nil =>
      nofun
    | append hfirst _ ih =>
      obtain ⟨b, rfl, hb⟩ := hfirst
      intro a ha
      rcases mem_cons.mp ha with rfl | ha
      · exact hb
      · exact ih a ha
  · intro h
    induction raw with
    | nil => exact .nil
    | cons a raw ih =>
      have hmore := ih fun b hb => h b (.tail _ hb)
      exact @Star.append _ [a] raw ⟨a, rfl, h a mem_cons_self⟩ hmore

/-- `[…]*`. -/
theorem has_star_char (p : Char → Bool) :
    Has (star (char p)) fun raw => ∀ a ∈ raw, p a = true where
  fits := (has_star (has_char p) (by rintro ⟨a, h, -⟩; cases h)).fits
  reads prev out raw rest := by
    rw [(has_star (has_char p) (by rintro ⟨a, h, -⟩; cases h)).reads, star_char]

/-- `[…]+`. -/
theorem has_plus_char (p : Char → Bool) :
    Has (plus (char p)) fun raw => raw ≠ [] ∧ ∀ a ∈ raw, p a = true where
  fits := ((has_char p).append (has_star_char p)).fits
  reads prev out raw rest := by
    unfold plus
    rw [((has_char p).append (has_star_char p)).reads]
    constructor
    · rintro ⟨hout, first, more, rfl, ⟨a, rfl, ha⟩, hmore⟩
      refine ⟨hout, cons_ne_nil _ _, ?_⟩
      intro b hb
      rcases mem_cons.mp hb with rfl | hb
      · exact ha
      · exact hmore b hb
    · rintro ⟨hout, hne, hall⟩
      cases raw with
      | nil => exact absurd rfl hne
      | cons a raw =>
        exact ⟨hout, [a], raw, rfl, ⟨a, rfl, hall a mem_cons_self⟩, fun b hb => hall b (.tail _ hb)⟩

end Has

section First

variable {m : Matcher β} {prev : Option Char} {b : β} {raw rest text : List Char}

/-- A way to match that every other agrees with is the match. -/
theorem head?_eq_of_reads (hm : Fits m) (h : Reads m prev b raw rest)
    (hunique : ∀ b' raw' rest', raw ++ rest = raw' ++ rest' → Reads m prev b' raw' rest' →
      b' = b ∧ raw' = raw) :
    (m ⟨prev, raw ++ rest⟩).head? = some (b, raw.length) := by
  cases hlist : m ⟨prev, raw ++ rest⟩ with
  | nil =>
    unfold Reads at h
    rw [hlist] at h
    cases h
  | cons r ways =>
    have hr : r ∈ m ⟨prev, raw ++ rest⟩ := hlist ▸ mem_cons_self
    obtain ⟨raw', rest', htext, hlength, hreads⟩ := hm.exists_reads hr
    obtain ⟨hb, hraw⟩ := hunique _ _ _ htext hreads
    rw [head?_cons, ← hb, ← hraw, hlength]

/-- There is no match where nothing can be read. -/
theorem eq_nil_of_not_reads (hm : Fits m)
    (h : ∀ b raw rest, text = raw ++ rest → ¬Reads m prev b raw rest) : m ⟨prev, text⟩ = [] := by
  apply eq_nil_iff_forall_not_mem.mpr
  intro r hr
  obtain ⟨raw, rest, htext, -, hreads⟩ := hm.exists_reads hr
  exact h _ _ _ htext hreads

/-- The scan passes over the text it has just replaced. -/
theorem scanFrom_skip (m : Matcher β) (prev : Option Char) (raw rest : List Char) :
    scanFrom m raw.length prev (raw ++ rest) = scanFrom m 0 (lastOf raw prev) rest := by
  induction raw generalizing prev with
  | nil => rfl
  | cons a raw ih =>
    rw [length_cons, cons_append, scanFrom, ih]
    unfold lastOf
    rw [getLast?_cons]
    cases raw.getLast? <;> rfl

/-- A non-empty match at the cursor becomes a piece. -/
theorem scanFrom_found (h : (m ⟨prev, raw ++ rest⟩).head? = some (b, raw.length))
    (hraw : raw ≠ []) :
    scanFrom m 0 prev (raw ++ rest) = .found b raw :: scanFrom m 0 (lastOf raw prev) rest := by
  cases raw with
  | nil => exact absurd rfl hraw
  | cons a raw =>
    rw [cons_append, length_cons] at h
    rw [cons_append, scanFrom, h]
    dsimp only
    rw [scanFrom_skip, take_succ_cons, take_left]
    unfold lastOf
    rw [getLast?_cons]
    cases raw.getLast? <;> rfl

/-- Where nothing matches, the character stays. -/
theorem scanFrom_plain {c : Char} (h : m ⟨prev, c :: text⟩ = []) :
    scanFrom m 0 prev (c :: text) = .plain c :: scanFrom m 0 (some c) text := by
  rw [scanFrom, h]
  rfl

end First

section Pieces

variable {m : Matcher β} {prev : Option Char} {b : β} {raw text : List Char}
  {pieces more : List (Piece β)} {f : β → List Char → List Char}

/-- The matches of two lists of pieces. -/
@[simp] theorem matchesOf_append : matchesOf (pieces ++ more) = matchesOf pieces ++ matchesOf more :=
  filterMap_append

/-- A plain character is no match. -/
@[simp] theorem matchesOf_plain {c : Char} : matchesOf (.plain c :: pieces) = matchesOf pieces := rfl

/-- A match piece is a match. -/
@[simp] theorem matchesOf_found :
    matchesOf (.found b raw :: pieces) = (b, raw) :: matchesOf pieces := rfl

/-- Replacement works piece by piece. -/
@[simp] theorem replacePieces_append :
    replacePieces f (pieces ++ more) = replacePieces f pieces ++ replacePieces f more :=
  flatMap_append

/-- Replacement keeps a plain character. -/
@[simp] theorem replacePieces_plain {c : Char} :
    replacePieces f (.plain c :: pieces) = c :: replacePieces f pieces := rfl

/-- Replacement puts the new text for a match. -/
@[simp] theorem replacePieces_found :
    replacePieces f (.found b raw :: pieces) = f b raw ++ replacePieces f pieces := rfl

/-- A scan leaves out no character. -/
theorem flatMap_text_scanFrom (m : Matcher β) (skip : ℕ) (prev : Option Char) (text : List Char) :
    (scanFrom m skip prev text).flatMap Piece.text = text.drop skip := by
  induction text generalizing skip prev with
  | nil => rw [scanFrom, drop_nil, flatMap_nil]
  | cons c text ih =>
    cases skip with
    | succ skip => rw [scanFrom, ih, drop_succ_cons]
    | zero =>
      rw [scanFrom]
      split
      · next b n _ =>
        rw [flatMap_cons, ih]
        change (c :: text).take (n + 1) ++ text.drop n = c :: text
        rw [take_succ_cons, cons_append, take_append_drop]
      · rw [flatMap_cons, ih]
        rfl

/-- The pieces of a scan without matches are the characters of the text. -/
theorem replacePieces_of_no_match (h : matchesOf pieces = []) :
    replacePieces f pieces = pieces.flatMap Piece.text := by
  induction pieces with
  | nil => rfl
  | cons piece pieces ih =>
    cases piece with
    | plain c => rw [replacePieces_plain, ih h, flatMap_cons]; rfl
    | found b raw => cases h

/-- A test fails when the scan finds nothing. -/
theorem test_eq_false : test m text = false ↔ matchesOf (scan m text) = [] := by
  unfold test
  rw [Bool.not_eq_false', List.isEmpty_iff]

/-- A text without matches is replaced by itself. -/
theorem replace_eq_self (h : test m text = false) : replace m f text = text := by
  unfold replace
  rw [replacePieces_of_no_match (test_eq_false.mp h)]
  exact flatMap_text_scanFrom m 0 none text

/-- What a scan finds is read somewhere. -/
theorem reads_of_found (hm : Fits m) {skip : ℕ} (h : .found b raw ∈ scanFrom m skip prev text) :
    ∃ prev rest, Reads m prev b raw rest := by
  induction text generalizing skip prev with
  | nil =>
    rw [scanFrom] at h
    cases h
  | cons c text ih =>
    cases skip with
    | succ skip =>
      rw [scanFrom] at h
      exact ih h
    | zero =>
      rw [scanFrom] at h
      split at h
      · next b' n hhead =>
        rcases mem_cons.mp h with heq | h
        · rw [Piece.found.injEq] at heq
          obtain ⟨rfl, rfl⟩ := heq
          obtain ⟨raw, rest, htext, hlength, hreads⟩ := hm.exists_reads (mem_of_head? hhead)
          refine ⟨prev, rest, ?_⟩
          rw [htext, ← show raw.length = n + 1 from hlength, take_left]
          exact hreads
        · exact ih h
      · rcases mem_cons.mp h with heq | h
        · cases heq
        · exact ih h

/-- A character that no match reads stays in the text. -/
theorem mem_replace {c : Char} (hm : Fits m) (hc : c ∈ text)
    (hnot : ∀ prev b raw rest, Reads m prev b raw rest → c ∉ raw) : c ∈ replace m f text := by
  have hcover : c ∈ (scan m text).flatMap Piece.text := by
    unfold scan
    rw [flatMap_text_scanFrom]
    exact hc
  obtain ⟨piece, hpiece, hin⟩ := mem_flatMap.mp hcover
  apply mem_flatMap.mpr
  refine ⟨piece, hpiece, ?_⟩
  cases piece with
  | plain d => exact hin
  | found b raw =>
    obtain ⟨prev, rest, hreads⟩ := reads_of_found hm hpiece
    exact absurd hin (hnot prev b raw rest hreads)

/-- A text with matches up to the end of the first. -/
theorem exists_first_match (hm : Fits m) (h : test m text = true) :
    ∃ front b raw back rest, text = front ++ (raw ++ back) ∧
      replace m f text = front ++ (f b raw ++ rest) ∧ ∃ prev after, Reads m prev b raw after := by
  have hsplit : ∀ pieces : List (Piece β), matchesOf pieces ≠ [] →
      ∃ (front : List Char) (b : β) (raw : List Char) (more : List (Piece β)),
        pieces = front.map .plain ++ .found b raw :: more := by
    intro pieces hpieces
    induction pieces with
    | nil => exact absurd rfl hpieces
    | cons piece pieces ih =>
      cases piece with
      | found b raw => exact ⟨[], b, raw, pieces, rfl⟩
      | plain c =>
        obtain ⟨front, b, raw, more, rfl⟩ := ih hpieces
        exact ⟨c :: front, b, raw, more, rfl⟩
  have hne : matchesOf (scan m text) ≠ [] := by
    intro hnil
    rw [test_eq_false.mpr hnil] at h
    cases h
  obtain ⟨front, b, raw, more, hscan⟩ := hsplit _ hne
  have hplain : ∀ front : List Char,
      (front.map (Piece.plain : Char → Piece β)).flatMap Piece.text = front ∧
        replacePieces f (front.map Piece.plain) = front := by
    intro front
    induction front with
    | nil => exact ⟨rfl, rfl⟩
    | cons c front ih =>
      rw [map_cons, flatMap_cons, ih.1, replacePieces_plain, ih.2]
      exact ⟨rfl, rfl⟩
  have htext := flatMap_text_scanFrom m 0 none text
  rw [drop_zero, show scanFrom m 0 none text = _ from hscan, flatMap_append,
    (hplain front).1, flatMap_cons] at htext
  refine ⟨front, b, raw, more.flatMap Piece.text, replacePieces f more, htext.symm, ?_, ?_⟩
  · unfold replace
    rw [hscan, replacePieces_append, (hplain front).2, replacePieces_found]
  · have hfound : .found b raw ∈ scanFrom m 0 none text := by
      rw [show scanFrom m 0 none text = _ from hscan]
      exact mem_append_right _ mem_cons_self
    exact reads_of_found hm hfound

end Pieces

/-! ## Barriers

A character that no match can read, and that is not part of a word, separates what stands before
it from what follows.
-/

section Barriers

variable {isWord : Char → Bool} {m : Matcher β} {f : β → Matcher γ} {p q prev : Option Char}
  {x y : List Char} {b : Char}

/-- The matcher sees the character `b` as it sees the end of the text, and of the character before
it only whether it belongs to a word. -/
def StopsAt (isWord : Char → Bool) (b : Char) (m : Matcher β) : Prop :=
  ∀ p q x y, p.any isWord = q.any isWord → m ⟨p, x ++ b :: y⟩ = m ⟨q, x⟩

/-- Two contexts that agree on word characters agree after any text. -/
theorem any_lastOf (raw : List Char) (h : p.any isWord = q.any isWord) :
    (lastOf raw p).any isWord = (lastOf raw q).any isWord := by
  unfold lastOf
  cases raw.getLast? with
  | none => exact h
  | some a => rfl

/-- A constant matcher reads no barrier. -/
theorem StopsAt.pure (a : β) : StopsAt isWord b (Pure.pure a : Matcher β) := fun _ _ _ _ _ => rfl

/-- Alternatives stop at a barrier if both sides do. -/
theorem StopsAt.orElse {m : Matcher β} {n : Unit → Matcher β} (hm : StopsAt isWord b m)
    (hn : StopsAt isWord b (n ())) : StopsAt isWord b (HOrElse.hOrElse m n) := by
  intro p q x y h
  change m _ ++ n () _ = m _ ++ n () _
  rw [hm p q x y h, hn p q x y h]

/-- Sequences stop at a barrier if their parts do. -/
theorem StopsAt.bind (hm : StopsAt isWord b m) (hfits : Fits m)
    (hf : ∀ a, StopsAt isWord b (f a)) : StopsAt isWord b (m >>= f) := by
  intro p q x y h
  change (m _).flatMap _ = (m _).flatMap _
  rw [hm p q x y h]
  apply flatMap_congr
  intro r hr
  have hle : r.2 ≤ x.length := hfits _ r hr
  have hcursor : (⟨p, x ++ b :: y⟩ : Cursor).advance r.2 =
      ⟨lastOf (x.take r.2) p, x.drop r.2 ++ b :: y⟩ := by
    unfold Cursor.advance lastOf
    rw [take_append_of_le_length hle, drop_append_of_le_length hle]
  have hcursor' : (⟨q, x⟩ : Cursor).advance r.2 = ⟨lastOf (x.take r.2) q, x.drop r.2⟩ := rfl
  rw [hcursor, hcursor', hf r.1 _ _ _ _ (any_lastOf _ h)]

/-- Concatenations stop at a barrier if both parts do. -/
theorem StopsAt.append {m n : Matcher (List Char)} (hm : StopsAt isWord b m) (hfits : Fits m)
    (hn : StopsAt isWord b n) (hfits' : Fits n) : StopsAt isWord b (m ++ n) :=
  hm.bind hfits fun _ => hn.bind hfits' fun _ => StopsAt.pure _

/-- A class without the barrier stops there. -/
theorem StopsAt.char {class' : Char → Bool} (h : class' b = false) :
    StopsAt isWord b (char class') := by
  intro p q x y _
  unfold Regex.char
  cases x with
  | nil =>
    dsimp only [nil_append]
    rw [h]
    rfl
  | cons a x => rfl

/-- A literal without the barrier stops there. -/
theorem StopsAt.lit {text : String} (h : b.toUpper ∉ text.toList.map Char.toUpper) :
    StopsAt isWord b (lit text) := by
  intro p q x y _
  unfold Regex.lit
  dsimp only
  rcases Nat.lt_or_ge x.length text.toList.length with hshort | hlong
  · rw [if_neg, if_neg]
    · intro heq
      have hlength := congrArg List.length heq
      rw [length_map, length_map, length_take] at hlength
      omega
    · intro heq
      apply h
      rw [← heq]
      apply mem_map_of_mem
      rw [mem_take_iff_getElem]
      refine ⟨x.length, ?_, ?_⟩
      · rw [length_append, length_cons]
        omega
      · simp
  · rw [take_append_of_le_length hlong]

/-- A word boundary reads a barrier that is no word character as the end of the text. -/
theorem StopsAt.boundary (h : isWord b = false) : StopsAt isWord b (boundary isWord) := by
  intro p q x y hprev
  unfold Regex.boundary
  have hnext : (x ++ b :: y).head?.any isWord = x.head?.any isWord := by
    cases x with
    | nil => exact h
    | cons a x => rfl
  rw [hprev, hnext]

/-- Every way to match takes a character. -/
def Advances (m : Matcher β) : Prop := ∀ c, ∀ r ∈ m c, 0 < r.2

/-- More repetitions than there are characters make no difference. -/
theorem upTo_eq {m : Matcher (List Char)} (hfits : Fits m) (hadv : Advances m) {c : Cursor}
    {i j : ℕ} (hi : c.rest.length ≤ i) (hj : c.rest.length ≤ j) : upTo m i c = upTo m j c := by
  have hnone : ∀ c : Cursor, c.rest.length = 0 → m c = [] := by
    intro c hc
    apply eq_nil_iff_forall_not_mem.mpr
    intro r hr
    have := hfits c r hr
    have := hadv c r hr
    omega
  have hzero : ∀ k, ∀ c : Cursor, c.rest.length = 0 → upTo m k c = [([], 0)] := by
    intro k c hc
    cases k with
    | zero => rfl
    | succ k =>
      change (m c).flatMap _ ++ [([], 0)] = _
      rw [hnone c hc]
      rfl
  induction i generalizing j c with
  | zero => rw [hzero _ c (by omega), hzero _ c (by omega)]
  | succ i ih =>
    cases j with
    | zero => rw [hzero _ c (by omega), hzero _ c (by omega)]
    | succ j =>
      change (m c).flatMap _ ++ [([], 0)] = (m c).flatMap _ ++ [([], 0)]
      congr 1
      apply flatMap_congr
      intro r hr
      have hadvanced : (c.advance r.2).rest.length + 1 ≤ c.rest.length := by
        have hle := hfits c r hr
        have hpos := hadv c r hr
        unfold Cursor.advance
        rw [length_drop]
        omega
      change ((upTo m i (c.advance r.2)).flatMap _).map _ =
        ((upTo m j (c.advance r.2)).flatMap _).map _
      have hsame : upTo m i (c.advance r.2) = upTo m j (c.advance r.2) := ih (by omega) (by omega)
      rw [hsame]

/-- A bounded repetition stays in the text. -/
theorem fits_upTo {m : Matcher (List Char)} (hfits : Fits m) (n : ℕ) : Fits (upTo m n) := by
  induction n with
  | zero => exact Fits.pure _
  | succ n ih => exact (hfits.append ih).orElse (Fits.pure _)

/-- A repetition stays in the text. -/
theorem fits_star {m : Matcher (List Char)} (hfits : Fits m) : Fits (star m) :=
  fun c => fits_upTo hfits c.rest.length c

/-- A bounded repetition stops where its body does. -/
theorem StopsAt.upTo {m : Matcher (List Char)} (hfits : Fits m) (hm : StopsAt isWord b m) (n : ℕ) :
    StopsAt isWord b (upTo m n) := by
  induction n with
  | zero => exact StopsAt.pure _
  | succ n ih =>
    apply StopsAt.orElse
    · exact hm.append hfits ih (fits_upTo hfits n)
    · exact StopsAt.pure _

/-- A repetition stops where its body does. -/
theorem StopsAt.star {m : Matcher (List Char)} (hfits : Fits m) (hadv : Advances m)
    (hm : StopsAt isWord b m) : StopsAt isWord b (star m) := by
  intro p q x y h
  unfold Regex.star
  rw [hm.upTo hfits _ p q x y h]
  apply upTo_eq hfits hadv
  · dsimp only
    rw [length_append]
    omega
  · exact Nat.le_refl _

/-- A non-empty repetition stops where its body does. -/
theorem StopsAt.plus {m : Matcher (List Char)} (hfits : Fits m) (hadv : Advances m)
    (hm : StopsAt isWord b m) : StopsAt isWord b (plus m) :=
  hm.bind hfits fun _ => (hm.star hfits hadv).bind (fits_star hfits) fun _ => StopsAt.pure _

/-- The scan of a text with a barrier, after `skip` characters. -/
theorem scanFrom_barrier (hfits : Fits m) (hm : StopsAt isWord b m) {skip : ℕ}
    (hskip : skip ≤ x.length) (h : p.any isWord = q.any isWord) :
    scanFrom m skip p (x ++ b :: y) =
      scanFrom m skip q x ++ .plain b :: scanFrom m 0 (some b) y := by
  induction x generalizing skip p q with
  | nil =>
    obtain rfl : skip = 0 := by
      rw [length_nil] at hskip
      omega
    have hways : m ⟨p, b :: y⟩ = m ⟨q, []⟩ := hm p q [] y h
    rw [nil_append, scanFrom, scanFrom, hways, nil_append]
    cases hhead : (m ⟨q, []⟩).head? with
    | none => rfl
    | some r =>
      obtain ⟨w, n⟩ := r
      have hle : n ≤ 0 := hfits _ _ (mem_of_head? hhead)
      obtain rfl : n = 0 := by omega
      rfl
  | cons a x ih =>
    rw [length_cons] at hskip
    cases skip with
    | succ skip =>
      rw [cons_append, scanFrom, scanFrom]
      exact ih (by omega) rfl
    | zero =>
      rw [cons_append, scanFrom, scanFrom]
      have hways : m ⟨p, a :: (x ++ b :: y)⟩ = m ⟨q, a :: x⟩ := hm p q (a :: x) y h
      rw [hways]
      cases hhead : (m ⟨q, a :: x⟩).head? with
      | none =>
        rw [ih (Nat.zero_le _) rfl, cons_append]
      | some r =>
        obtain ⟨w, n⟩ := r
        have hle : n ≤ (a :: x).length := hfits _ _ (mem_of_head? hhead)
        rw [length_cons] at hle
        cases n with
        | zero =>
          rw [ih (Nat.zero_le _) rfl, cons_append]
        | succ n =>
          dsimp only
          rw [ih (by omega) rfl, cons_append]
          congr 2
          rw [take_succ_cons, take_succ_cons, take_append_of_le_length (by omega)]

/-- A scan sees of the character before the text only whether it belongs to a word. -/
theorem scanFrom_congr (hm : StopsAt isWord b m) (h : p.any isWord = q.any isWord) {skip : ℕ} :
    scanFrom m skip p x = scanFrom m skip q x := by
  induction x generalizing skip p q with
  | nil => rw [scanFrom, scanFrom]
  | cons a x ih =>
    cases skip with
    | succ skip => rw [scanFrom, scanFrom]
    | zero =>
      have hways : m ⟨p, a :: x⟩ = m ⟨q, a :: x⟩ :=
        (hm q p (a :: x) [] h.symm).symm.trans (hm q q (a :: x) [] rfl)
      rw [scanFrom, scanFrom, hways]

section

variable (hfits : Fits m) (hm : StopsAt isWord b m) (hb : isWord b = false)
include hfits hm hb

/-- A scan splits at a barrier. -/
theorem scan_barrier : scan m (x ++ b :: y) = scan m x ++ .plain b :: scan m y := by
  have hnone : (some b).any isWord = (none : Option Char).any isWord := hb
  have hprev : scanFrom m 0 (some b) y = scanFrom m 0 none y := scanFrom_congr hm hnone
  unfold scan
  rw [scanFrom_barrier hfits hm (Nat.zero_le _) rfl, hprev]

/-- A test splits at a barrier. -/
theorem test_barrier : test m (x ++ b :: y) = (test m x || test m y) := by
  unfold test
  rw [scan_barrier hfits hm hb, matchesOf_append, matchesOf_plain]
  cases matchesOf (scan m x) <;> rfl

/-- A replacement splits at a barrier. -/
theorem replace_barrier {g : β → List Char → List Char} :
    replace m g (x ++ b :: y) = replace m g x ++ b :: replace m g y := by
  unfold replace
  rw [scan_barrier hfits hm hb, replacePieces_append, replacePieces_plain]

end

/-- A class consumes a character. -/
theorem advances_char (p : Char → Bool) : Advances (char p) := by
  intro c r hr
  unfold Regex.char at hr
  split at hr
  · cases hr
  · split at hr
    · obtain rfl := mem_singleton.mp hr
      exact Nat.one_pos
    · cases hr

/-- A repeated class without the barrier stops there. -/
theorem StopsAt.star_char {p : Char → Bool} (h : p b = false) :
    StopsAt isWord b (Regex.star (Regex.char p)) :=
  (StopsAt.char h).star (has_char p).fits (advances_char p)

/-- A non-empty repeated class without the barrier stops there. -/
theorem StopsAt.plus_char {p : Char → Bool} (h : p b = false) :
    StopsAt isWord b (Regex.plus (Regex.char p)) :=
  (StopsAt.char h).plus (has_char p).fits (advances_char p)

/-- A word boundary consumes nothing. -/
theorem fits_boundary (isWord : Char → Bool) : Fits (Regex.boundary isWord) := by
  intro c r hr
  unfold Regex.boundary at hr
  split at hr
  · cases hr
  · obtain rfl := mem_singleton.mp hr
    exact Nat.zero_le _

/-- A boundary reads nothing. -/
theorem reads_boundary_bind {f : Unit → Matcher γ} {g : γ} {raw rest : List Char}
    (h : Reads (Regex.boundary isWord >>= f) prev g raw rest) : Reads (f ()) prev g raw rest := by
  obtain ⟨u, front, back, rfl, hfront, hback⟩ := (reads_bind (fits_boundary isWord)).mp h
  have hnil : front = [] := by
    unfold Reads Regex.boundary at hfront
    split at hfront
    · cases hfront
    · rw [mem_singleton, Prod.mk.injEq] at hfront
      exact length_eq_zero_iff.mp hfront.2
  rw [hnil] at hback ⊢
  exact hback

end Barriers

end Regex
