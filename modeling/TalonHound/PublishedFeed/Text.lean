import Mathlib.Data.List.DropRight
import Mathlib.Data.List.Nodup
import Mathlib.Data.String.Basic

/-!
# Text of observables

The text functions behind a published line: trimming as the host does it, and the test
for private and reserved IPv4 addresses.
-/

namespace TalonHound

/-- White space as `String.prototype.trim` removes it. -/
def isJsWhitespace (c : Char) : Bool :=
  let n := c.toNat
  decide (9 ≤ n ∧ n ≤ 13 ∨ n = 0x20 ∨ n = 0xA0 ∨ n = 0x1680 ∨ 0x2000 ≤ n ∧ n ≤ 0x200A ∨
    n = 0x2028 ∨ n = 0x2029 ∨ n = 0x202F ∨ n = 0x205F ∨ n = 0x3000 ∨ n = 0xFEFF)

/-- Drop the leading and the trailing white space of a list of characters. -/
def trimChars (cs : List Char) : List Char :=
  ((cs.dropWhile isJsWhitespace).reverse.dropWhile isJsWhitespace).reverse

/-- `String.prototype.trim`. -/
def trim (s : String) : String := String.ofList (trimChars s.toList)

/-- A text without white space is its own trimmed form. -/
theorem trim_eq_self {s : String} (h : ∀ c ∈ s.toList, isJsWhitespace c = false) : trim s = s := by
  have hkeep : ∀ cs : List Char, (∀ c ∈ cs, isJsWhitespace c = false) →
      cs.dropWhile isJsWhitespace = cs := by
    intro cs hcs
    cases cs with
    | nil => rfl
    | cons c cs => simp [hcs c List.mem_cons_self]
  rw [trim, trimChars, hkeep _ h, hkeep _ fun c hc => h c (List.mem_reverse.mp hc),
    List.reverse_reverse, String.ofList_toList]

/-- Trimming twice is trimming once. -/
theorem trim_trim (s : String) : trim (trim s) = trim s := by
  have hchars : ∀ cs, trimChars (trimChars cs) = trimChars cs := by
    intro cs
    have hstart : (trimChars cs).dropWhile isJsWhitespace = trimChars cs := by
      rw [List.dropWhile_eq_self_iff]
      intro hpos
      have hcut : trimChars cs <+: cs.dropWhile isJsWhitespace := List.rdropWhile_prefix _ _
      have hlength := hcut.length_le
      have hhead : (trimChars cs)[0] = (cs.dropWhile isJsWhitespace)[0] := hcut.getElem hpos
      have hnot := List.dropWhile_get_zero_not isJsWhitespace cs (by omega)
      rw [hhead]
      exact hnot
    rw [trimChars, hstart]
    exact List.rdropWhile_idempotent isJsWhitespace (cs.dropWhile isJsWhitespace)
  rw [trim, trim, String.toList_ofList, hchars]

/-- A text that neither starts nor ends with white space is its own trimmed form. -/
theorem trimChars_eq_self {cs : List Char} (hhead : ∀ c ∈ cs.head?, isJsWhitespace c = false)
    (hlast : ∀ c ∈ cs.getLast?, isJsWhitespace c = false) : trimChars cs = cs := by
  have hkeep : ∀ cs : List Char, (∀ c ∈ cs.head?, isJsWhitespace c = false) →
      cs.dropWhile isJsWhitespace = cs := by
    intro cs hcs
    cases cs with
    | nil => rfl
    | cons c cs => rw [List.dropWhile_cons_of_neg (by simp [hcs c rfl])]
  rw [trimChars, hkeep cs hhead, hkeep, List.reverse_reverse]
  rwa [List.head?_reverse]

/-- Trimming keeps what is not white space. -/
theorem mem_trimChars {cs : List Char} {c : Char} (hc : isJsWhitespace c = false) (h : c ∈ cs) :
    c ∈ trimChars cs := by
  have hkeep : ∀ cs : List Char, c ∈ cs → c ∈ cs.dropWhile isJsWhitespace := by
    intro cs h
    rw [← List.takeWhile_append_dropWhile (p := isJsWhitespace) (l := cs)] at h
    rcases List.mem_append.mp h with h | h
    · have hspace := List.mem_takeWhile_imp h
      rw [hc] at hspace
      cases hspace
    · exact h
  rw [trimChars, List.mem_reverse]
  exact hkeep _ (List.mem_reverse.mpr (hkeep _ h))

/-- `parseIpv4`: four decimal parts of at most 255. -/
def parseIpv4 (host : List Char) : Option (List ℕ) :=
  let parts := host.splitOn '.'
  if parts.length = 4 then
    parts.mapM fun part =>
      let n := part.foldl (fun n c => 10 * n + (c.toNat - '0'.toNat)) 0
      if part ≠ [] ∧ part.all Char.isDigit ∧ n ≤ 255 then some n else none
  else none

/-- `isPrivateOrReservedIp`. -/
def isPrivateOrReservedIp (value : String) : Bool :=
  let raw := trimChars value.toList
  let host := trimChars (raw.takeWhile (· != '/'))
  raw.isEmpty || match parseIpv4 host with
    | some (a :: b :: _) =>
      a == 10 || a == 127 || a == 0 || (a == 169 && b == 254) ||
        (a == 172 && decide (16 ≤ b ∧ b ≤ 31)) || (a == 192 && b == 168) || decide (224 ≤ a)
    | _ => false

end TalonHound
