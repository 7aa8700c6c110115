import TalonHound.Candidates.NetworkObservable
import TalonHound.FileArtifacts.Hash
import TalonHound.Library.Digits
import TalonHound.Library.Run

/-!
# Address texts and their values

The text that `bigIntToIpv4` or `bigIntToIpv6` writes is an address, and reads as the number it was
written from.
-/

namespace TalonHound.Candidates

open FileArtifacts (lowerCase toLower_cases toLower_toLower toList_lowerCase)
open List

/-- The value of a hexadecimal digit. -/
def hexDigitValue (c : Char) : ℕ :=
  if c.isDigit then c.toNat - '0'.toNat else c.toLower.toNat - 'a'.toNat + 10

/-- A group's value is the number its digits write in base 16. -/
theorem hexValue_eq (digits : List Char) : hexValue digits = digitsValue 16 hexDigitValue digits := rfl

variable {c : Char} {n k : ℕ} {part addr l : List Char} {parts : List (List Char)} {groups : List ℕ}

/-- The codes of the decimal digits. -/
theorem toNat_of_isDigit (h : c.isDigit = true) : 48 ≤ c.toNat ∧ c.toNat ≤ 57 := by
  unfold Char.isDigit at h
  simp only [ge_iff_le, Bool.and_eq_true, decide_eq_true_eq] at h
  exact h

/-- The codes of the hexadecimal digits, in either case. -/
theorem toNat_of_isHexDigit (h : isHexDigit c = true) :
    48 ≤ c.toNat ∧ c.toNat ≤ 57 ∨ 97 ≤ c.toNat ∧ c.toNat ≤ 102 ∨ 65 ≤ c.toNat ∧ c.toNat ≤ 70 := by
  unfold isHexDigit at h
  simp only [Bool.or_eq_true, Bool.and_eq_true, decide_eq_true_eq] at h
  rcases h with h | ⟨hlow, hhigh⟩ | ⟨hlow, hhigh⟩
  · exact .inl (toNat_of_isDigit h)
  · exact .inr (.inl ⟨hlow, hhigh⟩)
  · exact .inr (.inr ⟨hlow, hhigh⟩)

/-- A fact about the characters of a byte holds of each of them. -/
theorem of_forall_lt {p : Char → Prop} {bound : ℕ} (h : ∀ n < bound, p (Char.ofNat n))
    (hc : c.toNat < bound) : p c := by
  have hp := h c.toNat hc
  rwa [Char.ofNat_toNat] at hp

/-- A decimal digit is the character of its own value. -/
theorem digit_of_isDigit (h : c.isDigit = true) :
    c.toNat - '0'.toNat < 10 ∧ (c.toNat - '0'.toNat).digitChar = c := by
  have hall : ∀ n < 58, (Char.ofNat n).isDigit = true → (Char.ofNat n).toNat - '0'.toNat < 10 ∧
      ((Char.ofNat n).toNat - '0'.toNat).digitChar = Char.ofNat n := by decide
  exact of_forall_lt (p := fun c => c.isDigit = true → c.toNat - '0'.toNat < 10 ∧
    (c.toNat - '0'.toNat).digitChar = c) hall (by have := toNat_of_isDigit h; omega) h

/-- A hexadecimal digit, lowered, is the character of its own value. -/
theorem hexDigit_of_isHexDigit (h : isHexDigit c = true) :
    hexDigitValue c < 16 ∧ (hexDigitValue c).digitChar = c.toLower := by
  have hall : ∀ n < 103, isHexDigit (Char.ofNat n) = true → hexDigitValue (Char.ofNat n) < 16 ∧
      (hexDigitValue (Char.ofNat n)).digitChar = (Char.ofNat n).toLower := by decide
  exact of_forall_lt (p := fun c => isHexDigit c = true → hexDigitValue c < 16 ∧
    (hexDigitValue c).digitChar = c.toLower) hall (by have := toNat_of_isHexDigit h; omega) h

/-- Decimal digits read back as the number they write. -/
@[simp] theorem decimalValue_toDigits (n : ℕ) : decimalValue (Nat.toDigits 10 n) = n :=
  digitsValue_toDigits (by omega) (by decide) n

/-- Hexadecimal digits read back as the number they write. -/
@[simp] theorem hexValue_toDigits (n : ℕ) : hexValue (Nat.toDigits 16 n) = n :=
  digitsValue_toDigits (by omega) (by decide) n

/-- The digits written in base 16 are lower-case hexadecimal digits. -/
theorem isHexDigit_of_mem_toDigits (h : c ∈ Nat.toDigits 16 n) :
    isHexDigit c = true ∧ c.toLower = c :=
  of_mem_toDigits (p := fun c => isHexDigit c = true ∧ c.toLower = c) (by omega) (by decide) h

/-- The digits of a group, at most four. -/
theorem isGroup_toDigits (h : n < 2 ^ 16) : isGroup (Nat.toDigits 16 n) = true := by
  have hlength : (Nat.toDigits 16 n).length ≤ 4 :=
    (Nat.length_toDigits_le_iff (by omega) (by omega)).mpr (by omega)
  have hall : (Nat.toDigits 16 n).all isHexDigit = true :=
    all_eq_true.mpr fun c hc => (isHexDigit_of_mem_toDigits hc).1
  simp [isGroup, hlength, hall]

/-- A number below 256 is written as an octet. -/
theorem isOctet_toDigits (h : n < 256) : isOctet (Nat.toDigits 10 n) = true := by
  have hall : ∀ n < 256, isOctet (Nat.toDigits 10 n) = true := by decide +kernel
  exact hall n h

/-- An octet spelled out: digits without a leading zero, at most 255. -/
theorem isOctet_iff : isOctet part = true ↔
    part ≠ [] ∧ (∀ c ∈ part, c.isDigit = true) ∧ (part.length = 1 ∨ part.head? ≠ some '0') ∧
      part.length ≤ 3 ∧ decimalValue part ≤ 255 := by
  simp [isOctet, and_assoc]

/-- An octet's value fits eight bits. -/
theorem isOctet_lt (h : isOctet part = true) : decimalValue part < 256 := by
  have hmax := (isOctet_iff.mp h).2.2.2.2
  omega

/-- The digits of a text of digits, which has no leading zeros. -/
theorem toDigits_decimalValue_iff {digits : List Char} (hne : digits ≠ [])
    (hall : ∀ c ∈ digits, c.isDigit = true) :
    Nat.toDigits 10 (decimalValue digits) = digits ↔
      digits.length = 1 ∨ digits.head? ≠ some '0' := by
  have hmap : digits.map (fun c => (c.toNat - '0'.toNat).digitChar) = digits := by
    conv_rhs => rw [← map_id digits]
    exact map_congr_left fun c hc => (digit_of_isDigit (hall c hc)).2
  have hiff : Nat.toDigits 10 (decimalValue digits) =
        digits.map (fun c => (c.toNat - '0'.toNat).digitChar) ↔
      digits.length = 1 ∨ ∀ c ∈ digits.head?, 0 < c.toNat - '0'.toNat :=
    toDigits_digitsValue_eq_iff (by omega) (fun c hc => (digit_of_isDigit (hall c hc)).1) hne
  rw [hmap] at hiff
  rw [hiff]
  refine or_congr_right ?_
  rcases digits with _ | ⟨c, digits⟩
  · exact absurd rfl hne
  have hc := hall c mem_cons_self
  have hrange := toNat_of_isDigit hc
  have hzero : c = '0' ↔ c.toNat = 48 := ⟨fun h => by rw [h]; rfl, fun h => Char.toNat_inj.mp h⟩
  simp only [head?_cons, Option.mem_some_iff, forall_eq', ne_eq, Option.some.injEq, hzero]
  change 0 < c.toNat - 48 ↔ _
  omega

/-- An octet is the only text of its value. -/
theorem toDigits_of_isOctet (h : isOctet part = true) :
    Nat.toDigits 10 (decimalValue part) = part := by
  obtain ⟨hne, hall, hlead, -⟩ := isOctet_iff.mp h
  exact (toDigits_decimalValue_iff hne hall).mpr hlead

/-- The four numbers of an IPv4 address. -/
theorem isIPv4_iff : isIPv4 addr = true ↔ ∃ a b c d, addr.splitOn '.' = [a, b, c, d] ∧
    isOctet a = true ∧ isOctet b = true ∧ isOctet c = true ∧ isOctet d = true := by
  unfold isIPv4
  rw [Bool.and_eq_true, decide_eq_true_eq]
  constructor
  · rintro ⟨hlength, hall⟩
    obtain ⟨a, b, c, d, hparts⟩ := length_eq_four.mp hlength
    rw [hparts] at hall
    simp only [all_cons, all_nil, Bool.and_true, Bool.and_eq_true] at hall
    exact ⟨a, b, c, d, hparts, hall.1, hall.2.1, hall.2.2.1, hall.2.2.2⟩
  · rintro ⟨a, b, c, d, hparts, ha, hb, hc, hd⟩
    simp [hparts, ha, hb, hc, hd]

/-- The written IPv4 address: its four octets between dots. -/
theorem toList_natToIpv4 (n : ℕ) : (natToIpv4 n).toList =
    ['.'].intercalate ([24, 16, 8, 0].map fun shift => Nat.toDigits 10 (n / 2 ^ shift % 256)) := by
  unfold natToIpv4
  rw [String.toList_intercalate, map_map]
  simp

/-- Cut at the dots, the written address gives its octets back. -/
theorem splitOn_natToIpv4 (n : ℕ) : (natToIpv4 n).toList.splitOn '.' =
    [24, 16, 8, 0].map fun shift => Nat.toDigits 10 (n / 2 ^ shift % 256) := by
  rw [toList_natToIpv4]
  refine splitOn_intercalate '.' (fun part hpart hdot => ?_) (by simp)
  obtain ⟨shift, -, rfl⟩ := mem_map.mp hpart
  have hdigit := Nat.isDigit_of_mem_toDigits (by omega) (by omega) hdot
  exact absurd hdigit (by decide)

/-- What `natToIpv4` writes is an IPv4 address. -/
theorem isIPv4_natToIpv4 (n : ℕ) : isIPv4 (natToIpv4 n).toList = true :=
  isIPv4_iff.mpr ⟨_, _, _, _, splitOn_natToIpv4 n, isOctet_toDigits (by omega),
    isOctet_toDigits (by omega), isOctet_toDigits (by omega), isOctet_toDigits (by omega)⟩

/-- The text of a number reads as the number. -/
theorem ipv4ToNat_natToIpv4 (h : n < 2 ^ 32) : ipv4ToNat (natToIpv4 n).toList = n := by
  unfold ipv4ToNat
  rw [splitOn_natToIpv4]
  simp only [map_cons, map_nil, foldl_cons, foldl_nil, decimalValue_toDigits]
  omega

/-- An IPv4 address fits 32 bits. -/
theorem ipv4ToNat_lt (h : isIPv4 addr = true) : ipv4ToNat addr < 2 ^ 32 := by
  obtain ⟨a, b, c, d, hparts, ha, hb, hc, hd⟩ := isIPv4_iff.mp h
  have ha := isOctet_lt ha
  have hb := isOctet_lt hb
  have hc := isOctet_lt hc
  have hd := isOctet_lt hd
  simp only [ipv4ToNat, hparts, foldl_cons, foldl_nil]
  omega

/-- An IPv4 address has one text. -/
theorem natToIpv4_ipv4ToNat (h : isIPv4 addr = true) :
    (natToIpv4 (ipv4ToNat addr)).toList = addr := by
  obtain ⟨a, b, c, d, hparts, ha, hb, hc, hd⟩ := isIPv4_iff.mp h
  have hlt : decimalValue a < 256 ∧ decimalValue b < 256 ∧ decimalValue c < 256 ∧
      decimalValue d < 256 := ⟨isOctet_lt ha, isOctet_lt hb, isOctet_lt hc, isOctet_lt hd⟩
  have hvalue : ipv4ToNat addr =
      ((decimalValue a * 256 + decimalValue b) * 256 + decimalValue c) * 256 + decimalValue d := by
    simp [ipv4ToNat, hparts]
  have hoctets : [24, 16, 8, 0].map (fun shift => ipv4ToNat addr / 2 ^ shift % 256) =
      [decimalValue a, decimalValue b, decimalValue c, decimalValue d] := by
    rw [hvalue]
    simp only [map_cons, map_nil, List.cons.injEq, and_true]
    omega
  have hdigits : [24, 16, 8, 0].map (fun shift => Nat.toDigits 10 (ipv4ToNat addr / 2 ^ shift % 256)) =
      addr.splitOn '.' := by
    calc [24, 16, 8, 0].map (fun shift => Nat.toDigits 10 (ipv4ToNat addr / 2 ^ shift % 256))
        = ([24, 16, 8, 0].map fun shift => ipv4ToNat addr / 2 ^ shift % 256).map (Nat.toDigits 10) := by
          rw [map_map]; rfl
      _ = [a, b, c, d] := by
          rw [hoctets]
          simp only [map_cons, map_nil, toDigits_of_isOctet ha, toDigits_of_isOctet hb,
            toDigits_of_isOctet hc, toDigits_of_isOctet hd]
      _ = addr.splitOn '.' := hparts.symm
  rw [toList_natToIpv4, hdigits]
  exact intercalate_splitOn '.'

/-- The parts of a text without a double colon. -/
def groupParts (addr : List Char) : List (List Char) := if addr = [] then [] else addr.splitOn ':'

/-- A character of a joined text that is not the separator is in a part. -/
theorem mem_of_mem_intercalate {sep : Char} (h : c ∈ [sep].intercalate parts) (hne : c ≠ sep) :
    ∃ part ∈ parts, c ∈ part := by
  induction parts with
  | nil => cases h
  | cons part parts ih =>
    rcases parts with _ | ⟨next, parts⟩
    · exact ⟨part, mem_cons_self, by simpa using h⟩
    · rw [intercalate_cons_cons, append_assoc, mem_append, singleton_append, mem_cons] at h
      rcases h with h | h | h
      · exact ⟨part, mem_cons_self, h⟩
      · exact absurd h hne
      · obtain ⟨part', hpart', hc⟩ := ih h
        exact ⟨part', mem_cons_of_mem _ hpart', hc⟩

/-- A character that is not the separator is in one of the parts cut. -/
theorem mem_of_mem_splitOn {sep : Char} (h : c ∈ l) (hne : c ≠ sep) :
    ∃ part ∈ l.splitOn sep, c ∈ part := by
  have hjoin : [sep].intercalate (l.splitOn sep) = l := intercalate_splitOn sep
  rw [← hjoin] at h
  exact mem_of_mem_intercalate h hne

/-- A part that stands between separators: neither empty nor with a separator in it. -/
def IsPart (part : List Char) : Prop := part ≠ [] ∧ ':' ∉ part

/-- A group is a non-empty text without colons. -/
theorem isPart_of_isGroup (h : isGroup part = true) : IsPart part := by
  simp only [isGroup, Bool.and_eq_true, decide_eq_true_eq] at h
  exact ⟨h.1.1, fun hc => absurd (all_eq_true.mp h.2 _ hc) (by decide)⟩

/-- Parts joined by colons are not the empty text. -/
theorem intercalate_ne_nil (hparts : ∀ part ∈ parts, IsPart part) (hne : parts ≠ []) :
    [':'].intercalate parts ≠ [] := by
  rcases parts with _ | ⟨part, _ | ⟨next, parts⟩⟩
  · exact absurd rfl hne
  · simpa using (hparts part mem_cons_self).1
  · simp [intercalate_cons_cons]

/-- Parts joined by colons are cut into the same parts. -/
theorem groupParts_intercalate (hparts : ∀ part ∈ parts, IsPart part) :
    groupParts ([':'].intercalate parts) = parts := by
  by_cases hne : parts = []
  · rw [hne]
    rfl
  · rw [groupParts, if_neg (intercalate_ne_nil hparts hne)]
    exact splitOn_intercalate ':' (fun part hpart => (hparts part hpart).2) hne

/-- The parts of a text, joined by colons, are the text. -/
theorem intercalate_groupParts (addr : List Char) : [':'].intercalate (groupParts addr) = addr := by
  unfold groupParts
  split
  · next h => rw [h]; rfl
  · exact intercalate_splitOn ':'

/-- A character that starts no `::` stays before the cut. -/
theorem splitDoubleColon_cons (h : c = ':' → l.head? ≠ some ':') :
    splitDoubleColon (c :: l) = (splitDoubleColon l).map fun (head, tail) => (c :: head, tail) := by
  refine splitDoubleColon.eq_2 c l fun rest hc hl => ?_
  subst hl
  exact absurd rfl (h hc)

/-- A prefix without colons stays before the cut. -/
theorem splitDoubleColon_append (h : ':' ∉ part) :
    splitDoubleColon (part ++ l) = (splitDoubleColon l).map fun (head, tail) => (part ++ head, tail) := by
  induction part with
  | nil => simp
  | cons c part ih =>
    rw [mem_cons, not_or] at h
    rw [cons_append, splitDoubleColon_cons fun heq => absurd heq.symm h.1, ih h.2, Option.map_map]
    rfl

/-- The first double colon is not between parts. -/
theorem splitDoubleColon_intercalate_append (hparts : ∀ part ∈ parts, IsPart part) :
    splitDoubleColon ([':'].intercalate parts ++ l) =
      (splitDoubleColon l).map fun (head, tail) => ([':'].intercalate parts ++ head, tail) := by
  induction parts with
  | nil => simp
  | cons part parts ih =>
    have hpart := hparts part mem_cons_self
    have hrest : ∀ part ∈ parts, IsPart part := fun p hp => hparts p (.tail _ hp)
    rcases parts with _ | ⟨next, parts⟩
    · rw [intercalate_singleton]
      exact splitDoubleColon_append hpart.2
    · have hhead : ([':'].intercalate (next :: parts) ++ l).head? ≠ some ':' := by
        have hnext := hrest next mem_cons_self
        obtain ⟨c, next', rfl⟩ := exists_cons_of_ne_nil hnext.1
        have hc : ':' ≠ c := fun heq => hnext.2 (heq ▸ mem_cons_self)
        simpa [intercalate_cons_cons_left] using hc.symm
      rw [intercalate_cons_cons, append_assoc, append_assoc, singleton_append,
        splitDoubleColon_append hpart.2, splitDoubleColon_cons fun _ => hhead, ih hrest,
        Option.map_map, Option.map_map]
      congr 1
      funext ⟨head, tail⟩
      simp

/-- Single colons between parts are no `::`. -/
theorem splitDoubleColon_intercalate (hparts : ∀ part ∈ parts, IsPart part) :
    splitDoubleColon ([':'].intercalate parts) = none := by
  have h := splitDoubleColon_intercalate_append (l := []) hparts
  rw [append_nil] at h
  rw [h]
  rfl

/-- A text is its parts before and after the double colon. -/
theorem eq_of_splitDoubleColon {head rest : List Char}
    (h : splitDoubleColon addr = some (head, rest)) : addr = head ++ ':' :: ':' :: rest := by
  induction addr generalizing head with
  | nil => cases h
  | cons c addr ih =>
    unfold splitDoubleColon at h
    split at h
    · next rest' heq =>
      obtain ⟨rfl, rfl⟩ := Prod.mk.inj (Option.some.inj h)
      exact heq
    · next c' rest' _ heq =>
      obtain ⟨rfl, rfl⟩ := List.cons.inj heq
      obtain ⟨⟨head', rest''⟩, hsplit, heq⟩ := Option.map_eq_some_iff.mp h
      obtain ⟨rfl, rfl⟩ := Prod.mk.inj heq
      rw [ih hsplit]
      rfl
    · next heq => cases heq

/-- A group holds hexadecimal digits only. -/
theorem not_mem_of_isGroup (h : isGroup part = true) (hc : isHexDigit c = false) : c ∉ part := by
  intro hmem
  simp only [isGroup, Bool.and_eq_true] at h
  rw [all_eq_true.mp h.2 c hmem] at hc
  cases hc

/-- An IPv4 address has a dot. -/
theorem dot_mem_of_isIPv4 (h : isIPv4 addr = true) : '.' ∈ addr := by
  by_contra hdot
  obtain ⟨a, b, c, d, hparts, -⟩ := isIPv4_iff.mp h
  rw [splitOn_eq_singleton hdot] at hparts
  cases hparts

/-- An IPv4 address is written with digits and dots. -/
theorem digit_or_dot_of_isIPv4 (h : isIPv4 addr = true) (hc : c ∈ addr) :
    c.isDigit = true ∨ c = '.' := by
  by_cases hdot : c = '.'
  · exact .inr hdot
  obtain ⟨part, hpart, hmem⟩ := mem_of_mem_splitOn hc hdot
  unfold isIPv4 at h
  rw [Bool.and_eq_true] at h
  have hoctet := all_eq_true.mp h.2 part hpart
  exact .inl ((isOctet_iff.mp hoctet).2.1 c hmem)

/-- An IPv4 tail is a part: it has no colon. -/
theorem isPart_of_isIPv4 (h : isIPv4 addr = true) : IsPart addr := by
  refine ⟨fun hnil => absurd (dot_mem_of_isIPv4 h) (by simp [hnil]), fun hcolon => ?_⟩
  rcases digit_or_dot_of_isIPv4 h hcolon with hc | hc
  · exact absurd hc (by decide)
  · exact absurd hc (by decide)

/-- What is between colons of an accepted text: groups, and at its end it may be a dotted quad. -/
inductive AcceptedParts (parts : List (List Char)) : ℕ → Prop
  | groups (hgroups : ∀ part ∈ parts, isGroup part = true) : AcceptedParts parts parts.length
  | dotted (front : List (List Char)) (quad : List Char) (hparts : parts = front ++ [quad])
      (hgroups : ∀ part ∈ front, isGroup part = true) (hquad : isIPv4 quad = true) :
      AcceptedParts parts (front.length + 2)

/-- How many groups a side has, read from its parts. -/
theorem groupCount_eq (tail : Bool) (addr : List Char) : groupCount tail addr =
    if (groupParts addr).all isGroup then some (groupParts addr).length
    else if tail && (groupParts addr).dropLast.all isGroup &&
        ((groupParts addr).getLast?.map isIPv4).getD false then some ((groupParts addr).length + 1)
    else none := by
  unfold groupCount groupParts
  by_cases haddr : addr = []
  · simp [haddr]
  · simp only [if_neg haddr]

/-- A counted side consists of accepted parts. -/
theorem acceptedParts_of_groupCount {tail : Bool} (h : groupCount tail addr = some k) :
    AcceptedParts (groupParts addr) k := by
  rw [groupCount_eq] at h
  split at h
  · next hall =>
    cases h
    exact .groups (all_eq_true.mp hall)
  · obtain ⟨hdotted, rfl⟩ := Run.enabled h
    simp only [Bool.and_eq_true] at hdotted
    obtain ⟨⟨-, hfront⟩, hlast⟩ := hdotted
    obtain ⟨quad, hquad⟩ : ∃ quad, (groupParts addr).getLast? = some quad := by
      cases hget : (groupParts addr).getLast? with
      | none => rw [hget] at hlast; cases hlast
      | some quad => exact ⟨quad, rfl⟩
    rw [hquad] at hlast
    have hsplit := dropLast_append_getLast? quad hquad
    have hlength : (groupParts addr).length + 1 = (groupParts addr).dropLast.length + 2 := by
      rw [← hsplit]
      simp
    rw [hlength]
    exact .dotted _ quad hsplit.symm (all_eq_true.mp hfront) hlast

/-- A side of groups only counts its groups. -/
theorem groupCount_of_groups (tail : Bool) (h : ∀ part ∈ groupParts addr, isGroup part = true) :
    groupCount tail addr = some (groupParts addr).length := by
  rw [groupCount_eq, if_pos (all_eq_true.mpr h)]

/-- An IPv4 tail is no group. -/
theorem isGroup_of_isIPv4 (h : isIPv4 part = true) : isGroup part = false := by
  by_contra hgroup
  exact not_mem_of_isGroup (Bool.of_not_eq_false hgroup) (by decide) (dot_mem_of_isIPv4 h)

/-- Accepted parts are counted. -/
theorem groupCount_of_acceptedParts (h : AcceptedParts (groupParts addr) k) :
    groupCount true addr = some k := by
  generalize hparts : groupParts addr = parts at h
  cases h with
  | groups hgroups =>
    rw [← hparts] at hgroups ⊢
    exact groupCount_of_groups true hgroups
  | dotted front quad hsplit hgroups hquad =>
    rw [groupCount_eq, hparts, hsplit]
    have hnot : (front ++ [quad]).all isGroup = false := by
      simp [isGroup_of_isIPv4 hquad]
    have hfront : front.all isGroup = true := all_eq_true.mpr hgroups
    simp [hnot, hfront, hquad]

/-- Where no IPv4 tail may stand, every part is a group. -/
theorem acceptedParts_groups (h : groupCount false addr = some k) :
    (∀ part ∈ groupParts addr, isGroup part = true) ∧ k = (groupParts addr).length := by
  rw [groupCount_eq] at h
  split at h
  · next hall => exact ⟨all_eq_true.mp hall, (Option.some.inj h).symm⟩
  · simp at h

/-- The numbers of a part. -/
def partValues (part : List Char) : List ℕ :=
  if part.contains '.' then [ipv4ToNat part / 2 ^ 16, ipv4ToNat part % 2 ^ 16] else [hexValue part]

/-- A side's values are those of its parts, in order. -/
theorem groupValues_eq (addr : List Char) : groupValues addr = (groupParts addr).flatMap partValues := by
  unfold groupValues groupParts
  split
  · rfl
  · rfl

/-- A group gives one value. -/
theorem partValues_of_isGroup (h : isGroup part = true) : partValues part = [hexValue part] := by
  have hdot : '.' ∉ part := not_mem_of_isGroup h (by decide)
  simp [partValues, hdot]

/-- Groups give one value each. -/
theorem flatMap_partValues (h : ∀ part ∈ parts, isGroup part = true) :
    parts.flatMap partValues = parts.map hexValue := by
  rw [map_eq_flatMap]
  exact flatMap_congr fun part hpart => partValues_of_isGroup (h part hpart)

/-- An IPv4 tail gives two values, its halves. -/
theorem partValues_of_isIPv4 (h : isIPv4 part = true) :
    partValues part = [ipv4ToNat part / 2 ^ 16, ipv4ToNat part % 2 ^ 16] := by
  simp [partValues, dot_mem_of_isIPv4 h]

/-- A group fits 16 bits. -/
theorem hexValue_lt (h : isGroup part = true) : hexValue part < 2 ^ 16 := by
  simp only [isGroup, Bool.and_eq_true, decide_eq_true_eq] at h
  calc hexValue part < 16 ^ part.length :=
        digitsValue_lt fun c hc => (hexDigit_of_isHexDigit (all_eq_true.mp h.2 c hc)).1
    _ ≤ 16 ^ 4 := Nat.pow_le_pow_right (by omega) h.1.2
    _ = 2 ^ 16 := by norm_num

/-- Accepted parts give as many 16-bit values as they count. -/
theorem AcceptedParts.values (h : AcceptedParts parts k) :
    (parts.flatMap partValues).length = k ∧ ∀ g ∈ parts.flatMap partValues, g < 2 ^ 16 := by
  cases h with
  | groups hgroups =>
    rw [flatMap_partValues hgroups]
    refine ⟨length_map _, fun g hg => ?_⟩
    obtain ⟨part, hpart, rfl⟩ := mem_map.mp hg
    exact hexValue_lt (hgroups part hpart)
  | dotted front quad hparts hgroups hquad =>
    have hlt := ipv4ToNat_lt hquad
    rw [hparts, flatMap_append, flatMap_partValues hgroups, flatMap_singleton,
      partValues_of_isIPv4 hquad]
    refine ⟨by simp, fun g hg => ?_⟩
    rcases mem_append.mp hg with hg | hg
    · obtain ⟨part, hpart, rfl⟩ := mem_map.mp hg
      exact hexValue_lt (hgroups part hpart)
    · simp only [mem_cons, not_mem_nil, or_false] at hg
      omega

/-- The groups of a number, the highest first. -/
def natGroups (n : ℕ) : List ℕ := (List.range 8).reverse.map fun i => n / 2 ^ (16 * i) % 2 ^ 16

/-- The number of groups. -/
def groupsToNat (groups : List ℕ) : ℕ := groups.foldl (fun n g => n * 2 ^ 16 + g) 0

/-- The address as a number is its eight groups in base `2 ^ 16`. -/
theorem ipv6ToNat_eq (addr : List Char) : ipv6ToNat addr = groupsToNat (ipv6Groups addr) := rfl

/-- A number is cut into eight groups. -/
@[simp] theorem length_natGroups (n : ℕ) : (natGroups n).length = 8 := by simp [natGroups]

/-- Each of these groups fits 16 bits. -/
theorem natGroups_lt {g : ℕ} (h : g ∈ natGroups n) : g < 2 ^ 16 := by
  obtain ⟨i, -, rfl⟩ := mem_map.mp h
  exact Nat.mod_lt _ (by norm_num)

/-- The groups of a 128-bit number give the number back. -/
theorem groupsToNat_natGroups (h : n < 2 ^ 128) : groupsToNat (natGroups n) = n := by
  have hrange : (List.range 8).reverse = [7, 6, 5, 4, 3, 2, 1, 0] := by decide
  simp only [natGroups, groupsToNat, hrange, map_cons, map_nil, foldl_cons, foldl_nil]
  omega

/-- A list of length eight, entry by entry. -/
theorem exists_eight_of_length (h : groups.length = 8) :
    ∃ a b c d e f g i, groups = [a, b, c, d, e, f, g, i] := by
  obtain ⟨a, groups, rfl⟩ := exists_cons_of_length_eq_add_one h
  obtain ⟨b, groups, rfl⟩ := exists_cons_of_length_eq_add_one (Nat.succ.inj h)
  obtain ⟨c, groups, rfl⟩ := exists_cons_of_length_eq_add_one (Nat.succ.inj (Nat.succ.inj h))
  simp only [length_cons, Nat.reduceEqDiff] at h
  obtain ⟨d, groups, rfl⟩ := exists_cons_of_length_eq_add_one h
  obtain ⟨e, f, g, i, rfl⟩ := length_eq_four.mp (Nat.succ.inj h)
  exact ⟨a, b, c, d, e, f, g, i, rfl⟩

/-- Eight 16-bit groups are the groups of their number. -/
theorem natGroups_groupsToNat (hlength : groups.length = 8) (hlt : ∀ g ∈ groups, g < 2 ^ 16) :
    natGroups (groupsToNat groups) = groups := by
  obtain ⟨a, b, c, d, e, f, g, i, rfl⟩ := exists_eight_of_length hlength
  simp only [mem_cons, not_mem_nil, or_false, forall_eq_or_imp, forall_eq] at hlt
  have hrange : (List.range 8).reverse = [7, 6, 5, 4, 3, 2, 1, 0] := by decide
  simp only [natGroups, groupsToNat, hrange, map_cons, map_nil, foldl_cons,
    foldl_nil, List.cons.injEq, and_true]
  omega

/-- Eight 16-bit groups fit 128 bits. -/
theorem groupsToNat_lt (hlength : groups.length = 8) (hlt : ∀ g ∈ groups, g < 2 ^ 16) :
    groupsToNat groups < 2 ^ 128 := by
  obtain ⟨a, b, c, d, e, f, g, i, rfl⟩ := exists_eight_of_length hlength
  simp only [mem_cons, not_mem_nil, or_false, forall_eq_or_imp, forall_eq] at hlt
  simp only [groupsToNat, foldl_cons, foldl_nil]
  omega

/-- The groups of an accepted address: eight, each below `2 ^ 16`. -/
theorem ipv6Groups_of_isIPv6 (h : isIPv6 addr = true) :
    (ipv6Groups addr).length = 8 ∧ ∀ g ∈ ipv6Groups addr, g < 2 ^ 16 := by
  unfold isIPv6 at h
  unfold ipv6Groups
  split at h
  · next hsplit =>
    rw [decide_eq_true_eq] at h
    rw [groupValues_eq]
    exact (acceptedParts_of_groupCount h).values
  · next head rest hsplit =>
    split at h
    · next m k hhead hrest =>
      rw [decide_eq_true_eq] at h
      rw [groupValues_eq, groupValues_eq]
      obtain ⟨hm, hheadlt⟩ := (acceptedParts_of_groupCount hhead).values
      obtain ⟨hk, hrestlt⟩ := (acceptedParts_of_groupCount hrest).values
      refine ⟨by simp only [length_append, length_replicate, hm, hk]; omega, fun g hg => ?_⟩
      rcases mem_append.mp hg with hg | hg
      · rcases mem_append.mp hg with hg | hg
        · exact hheadlt g hg
        · rw [eq_of_mem_replicate hg]
          norm_num
      · exact hrestlt g hg
    · cases h

/-- An IPv6 address fits 128 bits. -/
theorem ipv6ToNat_lt (h : isIPv6 addr = true) : ipv6ToNat addr < 2 ^ 128 :=
  groupsToNat_lt (ipv6Groups_of_isIPv6 h).1 (ipv6Groups_of_isIPv6 h).2

/-- The groups of the address's number are those of its text. -/
theorem natGroups_ipv6ToNat (h : isIPv6 addr = true) :
    natGroups (ipv6ToNat addr) = ipv6Groups addr :=
  natGroups_groupsToNat (ipv6Groups_of_isIPv6 h).1 (ipv6Groups_of_isIPv6 h).2

/-- A run of zeros of the groups. -/
def IsZeroRun (groups : List ℕ) (run : ℕ × ℕ) : Prop :=
  run.1 + run.2 ≤ groups.length ∧ (groups.drop run.1).take run.2 = List.replicate run.2 0

/-- The zeros from a place on are a run of zeros. -/
theorem isZeroRun_takeWhile {i : ℕ} (h : i < groups.length) :
    IsZeroRun groups (i, ((groups.drop i).takeWhile (· = 0)).length) := by
  have htake : (groups.drop i).take ((groups.drop i).takeWhile (· = 0)).length =
      (groups.drop i).takeWhile (· = 0) :=
    (prefix_iff_eq_take.mp (List.takeWhile_prefix _)).symm
  have hall : ∀ g ∈ (groups.drop i).takeWhile (· = 0), g = 0 := fun g hg =>
    by simpa using mem_takeWhile_imp hg
  constructor
  · have hlength : ((groups.drop i).takeWhile (· = 0)).length ≤ (groups.drop i).length :=
      (List.takeWhile_prefix _).length_le
    rw [length_drop] at hlength
    omega
  · rw [htake]
    exact eq_replicate_of_mem hall

/-- The run that `longestZeroRun` finds is one of zeros. -/
theorem isZeroRun_longestZeroRun (groups : List ℕ) : IsZeroRun groups (longestZeroRun groups) := by
  have hfold : ∀ (indices : List ℕ) (best : ℕ × ℕ), (∀ i ∈ indices, i < groups.length) →
      IsZeroRun groups best → IsZeroRun groups (indices.foldl (fun best i =>
        let length := ((groups.drop i).takeWhile (· = 0)).length
        if best.2 < length then (i, length) else best) best) := by
    intro indices
    induction indices with
    | nil => exact fun best _ hbest => hbest
    | cons i indices ih =>
      intro best hindices hbest
      rw [foldl_cons]
      refine ih _ (fun j hj => hindices j (.tail _ hj)) ?_
      dsimp only
      split
      · exact isZeroRun_takeWhile (hindices i mem_cons_self)
      · exact hbest
  exact hfold _ _ (fun i hi => mem_range.mp hi) ⟨by simp, by simp⟩

/-- Groups are those before a run of zeros, the zeros, and those after it. -/
theorem eq_of_isZeroRun {run : ℕ × ℕ} (h : IsZeroRun groups run) :
    groups.take run.1 ++ List.replicate run.2 0 ++ groups.drop (run.1 + run.2) = groups := by
  rw [← h.2, ← drop_drop, append_assoc, take_append_drop, take_append_drop]

/-- An IPv4-mapped address. -/
def IsMapped (groups : List ℕ) : Prop := groups.take 6 = [0, 0, 0, 0, 0, 0xffff]
  deriving Decidable

/-- The text of groups around their longest run of zeros. -/
def groupsText (groups : List ℕ) : List Char :=
  let hex := groups.map (Nat.toDigits 16)
  let best := longestZeroRun groups
  if best.2 < 2 then [':'].intercalate hex
  else [':'].intercalate (hex.take best.1) ++ [':', ':'] ++ [':'].intercalate (hex.drop (best.1 + best.2))

/-- The written IPv6 address, mapped or not. -/
theorem toList_natToIpv6 (n : ℕ) : (natToIpv6 n).toList =
    if IsMapped (natGroups n) then "::ffff:".toList ++ (natToIpv4 (n % 2 ^ 32)).toList
    else groupsText (natGroups n) := by
  have hhex : ∀ groups : List ℕ, (groups.map fun g => String.ofList (Nat.toDigits 16 g)).map
      String.toList = groups.map (Nat.toDigits 16) := by
    intro groups
    rw [map_map]
    exact map_congr_left fun g _ => String.toList_ofList
  unfold natToIpv6 groupsText
  change (if IsMapped (natGroups n) then _ else _ : String).toList = _
  split
  · rw [String.toList_append]
  · dsimp only
    change (if (longestZeroRun (natGroups n)).2 < 2 then _ else _ : String).toList = _
    split
    · rw [String.toList_intercalate, hhex]
      rfl
    · rw [String.toList_append, String.toList_append, String.toList_intercalate,
        String.toList_intercalate, map_take, map_drop, hhex]
      rfl

/-- A group as it is written is a part. -/
theorem isPart_toDigits {g : ℕ} (h : g < 2 ^ 16) : IsPart (Nat.toDigits 16 g) :=
  isPart_of_isGroup (isGroup_toDigits h)

/-- Groups in hexadecimal digits between colons read as these groups. -/
theorem groupCount_hex (tail : Bool) (h : ∀ g ∈ groups, g < 2 ^ 16) :
    groupCount tail ([':'].intercalate (groups.map (Nat.toDigits 16))) = some groups.length ∧
      groupValues ([':'].intercalate (groups.map (Nat.toDigits 16))) = groups := by
  have hgroup : ∀ part ∈ groups.map (Nat.toDigits 16), isGroup part = true := by
    intro part hpart
    obtain ⟨g, hg, rfl⟩ := mem_map.mp hpart
    exact isGroup_toDigits (h g hg)
  have hparts : groupParts ([':'].intercalate (groups.map (Nat.toDigits 16))) =
      groups.map (Nat.toDigits 16) :=
    groupParts_intercalate fun part hpart => isPart_of_isGroup (hgroup part hpart)
  constructor
  · rw [groupCount_of_groups tail (by rw [hparts]; exact hgroup), hparts, length_map]
  · rw [groupValues_eq, hparts, flatMap_partValues hgroup, map_map]
    conv_rhs => rw [← map_id groups]
    exact map_congr_left fun g _ => hexValue_toDigits g

/-- The double colon of a text of groups stands for their longest run of zeros. -/
theorem splitDoubleColon_groupsText (hlt : ∀ g ∈ groups, g < 2 ^ 16) :
    splitDoubleColon (groupsText groups) = if (longestZeroRun groups).2 < 2 then none
      else some ([':'].intercalate ((groups.take (longestZeroRun groups).1).map (Nat.toDigits 16)),
        [':'].intercalate ((groups.drop ((longestZeroRun groups).1 + (longestZeroRun groups).2)).map
          (Nat.toDigits 16))) := by
  have hpart : ∀ groups' : List ℕ, (∀ g ∈ groups', g ∈ groups) →
      ∀ part ∈ groups'.map (Nat.toDigits 16), IsPart part := by
    intro groups' hsub part hpart
    obtain ⟨g, hg, rfl⟩ := mem_map.mp hpart
    exact isPart_toDigits (hlt g (hsub g hg))
  unfold groupsText
  dsimp only
  split
  · exact splitDoubleColon_intercalate (hpart groups fun g hg => hg)
  · rw [← map_take, ← map_drop, append_assoc, splitDoubleColon_intercalate_append
      (hpart (groups.take (longestZeroRun groups).1) fun g hg => mem_of_mem_take hg)]
    simp [splitDoubleColon]

/-- The text of eight groups reads as these groups. -/
theorem groupsText_reads (hlength : groups.length = 8) (hlt : ∀ g ∈ groups, g < 2 ^ 16) :
    isIPv6 (groupsText groups) = true ∧ ipv6Groups (groupsText groups) = groups := by
  have hsplit := splitDoubleColon_groupsText hlt
  unfold isIPv6 ipv6Groups
  rw [hsplit]
  by_cases hshort : (longestZeroRun groups).2 < 2
  · have htext : groupsText groups = [':'].intercalate (groups.map (Nat.toDigits 16)) := by
      exact if_pos hshort
    obtain ⟨hcount, hvalues⟩ := groupCount_hex true hlt
    rw [if_pos hshort, htext]
    rw [hcount, hlength]
    exact ⟨rfl, hvalues⟩
  · obtain ⟨hbound, hzeros⟩ := isZeroRun_longestZeroRun groups
    have hjoin := eq_of_isZeroRun ⟨hbound, hzeros⟩
    have hbefore : ∀ g ∈ groups.take (longestZeroRun groups).1, g < 2 ^ 16 :=
      fun g hg => hlt g (mem_of_mem_take hg)
    have hafter : ∀ g ∈ groups.drop ((longestZeroRun groups).1 + (longestZeroRun groups).2), g < 2 ^ 16 :=
      fun g hg => hlt g (mem_of_mem_drop hg)
    obtain ⟨hcount, hvalues⟩ := groupCount_hex false hbefore
    obtain ⟨hcount', hvalues'⟩ := groupCount_hex true hafter
    rw [if_neg hshort]
    dsimp only
    rw [hcount, hcount', hvalues, hvalues', length_take, length_drop]
    refine ⟨by simp only [decide_eq_true_eq]; omega, ?_⟩
    have hfill : 8 - min (longestZeroRun groups).1 groups.length -
        (groups.length - ((longestZeroRun groups).1 + (longestZeroRun groups).2)) =
        (longestZeroRun groups).2 := by omega
    rw [hfill]
    exact hjoin

/-- `::ffff:` and a dotted quad are an IPv4-mapped address. -/
theorem mapped_reads {quad : List Char} (h : isIPv4 quad = true) :
    isIPv6 ("::ffff:".toList ++ quad) = true ∧ ipv6Groups ("::ffff:".toList ++ quad) =
      [0, 0, 0, 0, 0, 0xffff, ipv4ToNat quad / 2 ^ 16, ipv4ToNat quad % 2 ^ 16] := by
  have hquad := isPart_of_isIPv4 h
  have hffff : IsPart ['f', 'f', 'f', 'f'] := ⟨by simp, by decide⟩
  have hrest : ['f', 'f', 'f', 'f', ':'] ++ quad = [':'].intercalate [['f', 'f', 'f', 'f'], quad] := by
    simp [intercalate_cons_cons]
  have hsplit : splitDoubleColon ("::ffff:".toList ++ quad) =
      some ([], ['f', 'f', 'f', 'f', ':'] ++ quad) := rfl
  have hparts : groupParts (['f', 'f', 'f', 'f', ':'] ++ quad) = [['f', 'f', 'f', 'f'], quad] := by
    rw [hrest]
    exact groupParts_intercalate (by simp [hffff, hquad])
  have hcount : groupCount true (['f', 'f', 'f', 'f', ':'] ++ quad) = some 3 := by
    refine groupCount_of_acceptedParts ?_
    rw [hparts]
    exact .dotted [['f', 'f', 'f', 'f']] quad rfl (by decide) h
  have hvalues : groupValues (['f', 'f', 'f', 'f', ':'] ++ quad) =
      [0xffff, ipv4ToNat quad / 2 ^ 16, ipv4ToNat quad % 2 ^ 16] := by
    rw [groupValues_eq, hparts]
    simp only [flatMap_cons, flatMap_nil, partValues_of_isIPv4 h,
      show partValues ['f', 'f', 'f', 'f'] = [0xffff] by decide, append_nil, singleton_append]
  unfold isIPv6 ipv6Groups
  rw [hsplit]
  dsimp only
  rw [hcount, hvalues]
  exact ⟨rfl, rfl⟩

/-- A mapped address ends in its IPv4 number. -/
theorem mod_of_isMapped {high low : ℕ} (h : groups = [0, 0, 0, 0, 0, 0xffff, high, low])
    (hhigh : high < 2 ^ 16) (hlow : low < 2 ^ 16) :
    groupsToNat groups % 2 ^ 32 = high * 2 ^ 16 + low := by
  subst h
  simp only [groupsToNat, foldl_cons, foldl_nil]
  omega

/-- The groups of a mapped address, from its low 32 bits. -/
theorem eq_of_isMapped (h : IsMapped (natGroups n)) : natGroups n =
    [0, 0, 0, 0, 0, 0xffff, n % 2 ^ 32 / 2 ^ 16, n % 2 ^ 32 % 2 ^ 16] := by
  have hsplit := take_append_drop 6 (natGroups n)
  rw [h] at hsplit
  rw [← hsplit]
  have hrange : (List.range 8).reverse = [7, 6, 5, 4, 3, 2, 1, 0] := by decide
  simp only [natGroups, hrange, map_cons, map_nil, drop_succ_cons, drop_zero,
    cons_append, nil_append, List.cons.injEq, true_and, and_true]
  omega

/-- The text of a number is an IPv6 address, and reads as the number. -/
theorem natToIpv6_reads (h : n < 2 ^ 128) :
    isIPv6 (natToIpv6 n).toList = true ∧ ipv6ToNat (natToIpv6 n).toList = n := by
  rw [toList_natToIpv6, ipv6ToNat_eq]
  split
  · next hmapped =>
    obtain ⟨hvalid, hgroups⟩ := mapped_reads (isIPv4_natToIpv4 (n % 2 ^ 32))
    rw [ipv4ToNat_natToIpv4 (by omega), ← eq_of_isMapped hmapped] at hgroups
    rw [hgroups]
    exact ⟨hvalid, groupsToNat_natGroups h⟩
  · obtain ⟨hvalid, hgroups⟩ := groupsText_reads (length_natGroups n) fun g hg => natGroups_lt hg
    rw [hgroups]
    exact ⟨hvalid, groupsToNat_natGroups h⟩

/-- A character of an address. -/
def IsAddressChar (c : Char) : Prop := isHexDigit c = true ∨ c = ':' ∨ c = '.'

/-- A decimal digit is a hexadecimal one. -/
theorem isHexDigit_of_isDigit (h : c.isDigit = true) : isHexDigit c = true := by
  simp [isHexDigit, h]

/-- Accepted parts are written in address characters. -/
theorem AcceptedParts.isAddressChar (h : AcceptedParts (groupParts addr) k) (hc : c ∈ addr) :
    IsAddressChar c := by
  by_cases hcolon : c = ':'
  · exact .inr (.inl hcolon)
  rw [← intercalate_groupParts addr] at hc
  obtain ⟨part, hpart, hmem⟩ := mem_of_mem_intercalate hc hcolon
  have hgroup : ∀ part, isGroup part = true → c ∈ part → IsAddressChar c := by
    intro part hgroup hmem
    simp only [isGroup, Bool.and_eq_true] at hgroup
    exact .inl (all_eq_true.mp hgroup.2 c hmem)
  generalize groupParts addr = parts at h hpart
  cases h with
  | groups hgroups => exact hgroup part (hgroups part hpart) hmem
  | dotted front quad hparts hgroups hquad =>
    rw [hparts, mem_append, mem_singleton] at hpart
    rcases hpart with hpart | rfl
    · exact hgroup part (hgroups part hpart) hmem
    · rcases digit_or_dot_of_isIPv4 hquad hmem with hdigit | hdot
      · exact .inl (isHexDigit_of_isDigit hdigit)
      · exact .inr (.inr hdot)

/-- An IPv6 address is written in address characters. -/
theorem isAddressChar_of_isIPv6 (h : isIPv6 addr = true) (hc : c ∈ addr) : IsAddressChar c := by
  unfold isIPv6 at h
  split at h
  · rw [decide_eq_true_eq] at h
    exact (acceptedParts_of_groupCount h).isAddressChar hc
  · next head rest hsplit =>
    split at h
    · next m k hhead hrest =>
      rw [eq_of_splitDoubleColon hsplit] at hc
      rcases mem_append.mp hc with hc | hc
      · exact (acceptedParts_of_groupCount hhead).isAddressChar hc
      · rw [mem_cons, mem_cons] at hc
        rcases hc with hc | hc | hc
        · exact .inr (.inl hc)
        · exact .inr (.inl hc)
        · exact (acceptedParts_of_groupCount hrest).isAddressChar hc
    · cases h

/-- An IPv6 address has a colon. -/
theorem colon_mem_of_isIPv6 (h : isIPv6 addr = true) : ':' ∈ addr := by
  unfold isIPv6 at h
  split at h
  · rw [decide_eq_true_eq] at h
    by_contra hcolon
    have hshort : (groupParts addr).length ≤ 1 := by
      unfold groupParts
      split
      · simp
      · simp [splitOn_eq_singleton hcolon]
    rw [groupCount_eq] at h
    split at h
    · have hlength := Option.some.inj h
      omega
    · split at h
      · have hlength := Option.some.inj h
        omega
      · cases h
  · next head rest hsplit =>
    rw [eq_of_splitDoubleColon hsplit]
    simp

/-- An IPv6 address is no IPv4 address. -/
theorem isIPv4_of_isIPv6 (h : isIPv6 addr = true) : isIPv4 addr = false := by
  by_contra hv4
  exact (isPart_of_isIPv4 (Bool.of_not_eq_false hv4)).2 (colon_mem_of_isIPv6 h)

/-- Lowering neither makes nor removes a character that is no letter. -/
theorem toLower_eq_iff {d : Char} (hd : ¬(97 ≤ d.toNat ∧ d.toNat ≤ 122))
    (hd' : ¬(65 ≤ d.toNat ∧ d.toNat ≤ 90)) : c.toLower = d ↔ c = d := by
  rcases toLower_cases c with ⟨hsame, -⟩ | ⟨hlow, hhigh, hlower⟩
  · rw [hsame]
  · refine ⟨fun h => ?_, fun h => ?_⟩
    · rw [h] at hlower
      omega
    · rw [h] at hlow hhigh
      omega

/-- Lowering keeps what a decimal digit is. -/
theorem isDigit_toLower (c : Char) : c.toLower.isDigit = c.isDigit := by
  rcases toLower_cases c with ⟨hsame, -⟩ | ⟨hlow, hhigh, hlower⟩
  · rw [hsame]
  · have hnot : ∀ d : Char, 57 < d.toNat → d.isDigit = false := fun d hd => by
      by_contra hdigit
      have := toNat_of_isDigit (Bool.of_not_eq_false hdigit)
      omega
    rw [hnot c (by omega), hnot c.toLower (by omega)]

/-- A hexadecimal digit has one value in both cases. -/
theorem hexDigitValue_toLower (c : Char) : hexDigitValue c.toLower = hexDigitValue c := by
  unfold hexDigitValue
  rw [isDigit_toLower, toLower_toLower]
  split
  · next hdigit =>
    rcases toLower_cases c with ⟨hsame, -⟩ | ⟨hlow, -, -⟩
    · rw [hsame]
    · have := toNat_of_isDigit hdigit
      omega
  · rfl

/-- The codes that are hexadecimal digits. -/
theorem isHexDigit_iff (c : Char) : isHexDigit c = true ↔
    48 ≤ c.toNat ∧ c.toNat ≤ 57 ∨ 97 ≤ c.toNat ∧ c.toNat ≤ 102 ∨ 65 ≤ c.toNat ∧ c.toNat ≤ 70 := by
  refine ⟨toNat_of_isHexDigit, fun h => ?_⟩
  have hall : ∀ n < 103, (48 ≤ n ∧ n ≤ 57 ∨ 97 ≤ n ∧ n ≤ 102 ∨ 65 ≤ n ∧ n ≤ 70) →
      isHexDigit (Char.ofNat n) = true := by decide
  have hc := hall c.toNat (by omega) h
  rwa [Char.ofNat_toNat] at hc

/-- Lowering keeps what a hexadecimal digit is. -/
theorem isHexDigit_toLower (c : Char) : isHexDigit c.toLower = isHexDigit c := by
  rw [Bool.eq_iff_iff, isHexDigit_iff, isHexDigit_iff]
  rcases toLower_cases c with ⟨hsame, -⟩ | ⟨hlow, hhigh, hlower⟩
  · rw [hsame]
  · omega

/-- A text in lower case. -/
def lower (l : List Char) : List Char := l.map Char.toLower

/-- Lowering keeps what a group is. -/
theorem isGroup_lower (part : List Char) : isGroup (lower part) = isGroup part := by
  have hhex : isHexDigit ∘ Char.toLower = isHexDigit := funext isHexDigit_toLower
  simp [isGroup, lower, all_map, hhex]

/-- A group has one value in both cases. -/
theorem hexValue_lower (part : List Char) : hexValue (lower part) = hexValue part := by
  rw [hexValue_eq, hexValue_eq, digitsValue, digitsValue, lower, foldl_map]
  simp only [hexDigitValue_toLower]

/-- An IPv4 address has no letters to lower. -/
theorem lower_of_isIPv4 (h : isIPv4 addr = true) : lower addr = addr := by
  conv_rhs => rw [← map_id addr]
  refine map_congr_left fun c hc => ?_
  rcases digit_or_dot_of_isIPv4 h hc with hdigit | rfl
  · have hrange := toNat_of_isDigit hdigit
    change c.toLower = c
    exact (toLower_eq_iff (by omega) (by omega)).mpr rfl
  · decide

/-- Lowering commutes with the cut at colons. -/
theorem splitOn_lower (l : List Char) : (lower l).splitOn ':' = (l.splitOn ':').map lower := by
  induction l with
  | nil => rfl
  | cons c l ih =>
    have hcolon : (c.toLower == ':') = (c == ':') := by
      rw [Bool.eq_iff_iff, beq_iff_eq, beq_iff_eq]
      exact toLower_eq_iff (by decide) (by decide)
    change (c.toLower :: lower l).splitOn ':' = _
    rw [splitOn_cons_eq_if_modifyHead, splitOn_cons_eq_if_modifyHead, hcolon, ih]
    split
    · rfl
    · cases l.splitOn ':' <;> rfl

/-- The parts of a lowered text are the lowered parts. -/
theorem groupParts_lower (addr : List Char) : groupParts (lower addr) = (groupParts addr).map lower := by
  unfold groupParts
  by_cases haddr : addr = []
  · simp [haddr, lower]
  · rw [if_neg haddr, if_neg (by simpa [lower] using haddr), splitOn_lower]

/-- Lowering commutes with the cut at `::`. -/
theorem splitDoubleColon_lower (addr : List Char) : splitDoubleColon (lower addr) =
    (splitDoubleColon addr).map fun (head, rest) => (lower head, lower rest) := by
  have hcolon : ∀ c : Char, c.toLower = ':' ↔ c = ':' := fun c =>
    toLower_eq_iff (by decide) (by decide)
  induction addr with
  | nil => rfl
  | cons c addr ih =>
    by_cases hdouble : c = ':' ∧ addr.head? = some ':'
    · obtain ⟨rfl, hhead⟩ := hdouble
      obtain ⟨rest, rfl⟩ : ∃ rest, addr = ':' :: rest := by
        cases addr with
        | nil => cases hhead
        | cons d rest => exact ⟨rest, by rw [Option.some.inj hhead]⟩
      rfl
    · have hhead : (lower addr).head? = some ':' ↔ addr.head? = some ':' := by
        cases addr with
        | nil => rfl
        | cons d rest => simp [lower, hcolon]
      change splitDoubleColon (c.toLower :: lower addr) = _
      rw [splitDoubleColon_cons fun heq hnext => hdouble ⟨(hcolon c).mp heq, hhead.mp hnext⟩,
        splitDoubleColon_cons fun heq hnext => hdouble ⟨heq, hnext⟩, ih, Option.map_map,
        Option.map_map]
      rfl

/-- Accepted parts stay accepted in lower case, with the same values. -/
theorem AcceptedParts.lower (h : AcceptedParts parts k) :
    AcceptedParts (parts.map lower) k ∧
      (parts.map lower).flatMap partValues = parts.flatMap partValues := by
  have hvalues : ∀ {parts : List (List Char)}, (∀ part ∈ parts, isGroup part = true) →
      (∀ part ∈ parts.map Candidates.lower, isGroup part = true) ∧
        (parts.map Candidates.lower).map hexValue = parts.map hexValue := by
    intro parts hgroups
    constructor
    · intro part hpart
      obtain ⟨part', hpart', rfl⟩ := mem_map.mp hpart
      rw [isGroup_lower]
      exact hgroups part' hpart'
    · rw [map_map]
      exact map_congr_left fun part _ => hexValue_lower part
  cases h with
  | groups hgroups =>
    obtain ⟨hlower, heq⟩ := hvalues hgroups
    have haccepted := AcceptedParts.groups hlower
    rw [length_map] at haccepted
    rw [flatMap_partValues hlower, flatMap_partValues hgroups]
    exact ⟨haccepted, heq⟩
  | dotted front quad hparts hgroups hquad =>
    obtain ⟨hlower, heq⟩ := hvalues hgroups
    have hmap : parts.map Candidates.lower = front.map Candidates.lower ++ [quad] := by
      rw [hparts, map_append, map_singleton, lower_of_isIPv4 hquad]
    have haccepted := AcceptedParts.dotted (front.map Candidates.lower) quad hmap hlower hquad
    rw [length_map] at haccepted
    refine ⟨haccepted, ?_⟩
    rw [hmap, hparts, flatMap_append, flatMap_append, flatMap_partValues hlower,
      flatMap_partValues hgroups, heq]

/-- An address in lower case is the same address. -/
theorem reads_lower (h : isIPv6 addr = true) :
    isIPv6 (lower addr) = true ∧ ipv6Groups (lower addr) = ipv6Groups addr := by
  unfold isIPv6 at h
  unfold isIPv6 ipv6Groups
  rw [splitDoubleColon_lower]
  split at h
  · next hsplit =>
    rw [decide_eq_true_eq] at h
    obtain ⟨haccepted, hvalues⟩ := (acceptedParts_of_groupCount h).lower
    rw [hsplit]
    dsimp only [Option.map_none]
    rw [groupValues_eq, groupValues_eq, groupParts_lower, hvalues, decide_eq_true_eq]
    rw [← groupParts_lower] at haccepted
    exact ⟨groupCount_of_acceptedParts haccepted, rfl⟩
  · next head rest hsplit =>
    split at h
    · next m k hhead hrest =>
      obtain ⟨hgroups, rfl⟩ := acceptedParts_groups hhead
      obtain ⟨haccepted, hvalues⟩ := (acceptedParts_of_groupCount hrest).lower
      rw [← groupParts_lower] at haccepted
      have hlower : ∀ part ∈ groupParts (lower head), isGroup part = true := by
        rw [groupParts_lower]
        intro part hpart
        obtain ⟨part', hpart', rfl⟩ := mem_map.mp hpart
        rw [isGroup_lower]
        exact hgroups part' hpart'
      have hheadvalues : groupValues (lower head) = groupValues head := by
        rw [groupValues_eq, groupValues_eq, flatMap_partValues hlower, flatMap_partValues hgroups,
          groupParts_lower, map_map]
        exact map_congr_left fun part _ => hexValue_lower part
      have hrestvalues : groupValues (lower rest) = groupValues rest := by
        rw [groupValues_eq, groupValues_eq, groupParts_lower, hvalues]
      rw [hsplit]
      dsimp only [Option.map_some]
      rw [groupCount_of_groups false hlower, groupCount_of_acceptedParts haccepted, hheadvalues,
        hrestvalues, groupParts_lower, length_map]
      exact ⟨h, rfl⟩
    · cases h

end TalonHound.Candidates
