import Mathlib.Tactic

/-!
# Numbers in digits

A text of digits has a value, and a number has one text without leading zeros.
-/

namespace TalonHound

open List

/-- The value of a text of digits in a base. -/
def digitsValue (b : ℕ) (digit : Char → ℕ) (digits : List Char) : ℕ :=
  digits.foldl (fun n c => b * n + digit c) 0

section digits

variable {b : ℕ} {digit : Char → ℕ} {digits : List Char}

@[simp] theorem digitsValue_concat (c : Char) :
    digitsValue b digit (digits ++ [c]) = b * digitsValue b digit digits + digit c := by
  simp [digitsValue]

/-- What holds of each digit holds of the characters of a number. -/
theorem of_mem_toDigits {p : Char → Prop} (hb : 1 < b) (hdigit : ∀ d < b, p d.digitChar) {n : ℕ} {c : Char}
    (hc : c ∈ Nat.toDigits b n) : p c := by
  induction n using Nat.strong_induction_on with
  | _ n ih =>
    rw [Nat.toDigits_eq_if hb] at hc
    split at hc
    · next hlt =>
      rw [mem_singleton.mp hc]
      exact hdigit n hlt
    · next hle =>
      rcases mem_append.mp hc with hc | hc
      · exact ih (n / b) (Nat.div_lt_self (by omega) hb) hc
      · rw [mem_singleton.mp hc]
        exact hdigit (n % b) (Nat.mod_lt n (by omega))

/-- The digits of a number read as this number. -/
theorem digitsValue_toDigits (hb : 1 < b) (hdigit : ∀ d < b, digit d.digitChar = d) (n : ℕ) :
    digitsValue b digit (Nat.toDigits b n) = n := by
  induction n using Nat.strong_induction_on with
  | _ n ih =>
    rw [Nat.toDigits_eq_if hb]
    split
    · next hlt => simp [digitsValue, hdigit n hlt]
    · next hle =>
      rw [digitsValue_concat, ih (n / b) (Nat.div_lt_self (by omega) hb),
        hdigit (n % b) (Nat.mod_lt n (by omega))]
      exact Nat.div_add_mod n b

/-- Digits stay below the power of their number. -/
theorem digitsValue_lt (hdigit : ∀ c ∈ digits, digit c < b) :
    digitsValue b digit digits < b ^ digits.length := by
  induction digits using List.reverseRecOn with
  | nil => simp [digitsValue]
  | append_singleton digits c ih =>
    have hfront := ih fun c' hc' => hdigit c' (mem_append_left _ hc')
    have hlast := hdigit c (mem_append_right _ mem_cons_self)
    rw [digitsValue_concat, length_append, length_singleton, Nat.pow_succ]
    calc b * digitsValue b digit digits + digit c
        < b * (digitsValue b digit digits + 1) := by rw [Nat.mul_add]; omega
      _ ≤ b * b ^ digits.length := Nat.mul_le_mul_left b hfront
      _ = b ^ digits.length * b := Nat.mul_comm _ _

/-- A text whose first digit is not zero has a value. -/
theorem digitsValue_pos (hne : digits ≠ []) (hhead : ∀ c ∈ digits.head?, 0 < digit c) (hb : 0 < b) :
    0 < digitsValue b digit digits := by
  induction digits using List.reverseRecOn with
  | nil => exact absurd rfl hne
  | append_singleton digits c ih =>
    rw [digitsValue_concat]
    rcases digits with _ | ⟨d, digits⟩
    · have hc := hhead c rfl
      omega
    · have hfront := ih (by simp) fun c' hc' => hhead c' hc'
      have hprod := Nat.mul_pos hb hfront
      omega

section

variable (hb : 1 < b) (hdigit : ∀ c ∈ digits, digit c < b) (hne : digits ≠ [])
include hb hdigit hne

/-- A text without leading zeros consists of the digits of its value. -/
theorem toDigits_digitsValue (hlead : digits.length = 1 ∨ ∀ c ∈ digits.head?, 0 < digit c) :
    Nat.toDigits b (digitsValue b digit digits) = digits.map fun c => (digit c).digitChar := by
  induction digits using List.reverseRecOn with
  | nil => exact absurd rfl hne
  | append_singleton digits c ih =>
    have hlast := hdigit c (mem_append_right _ mem_cons_self)
    rw [digitsValue_concat, map_append]
    rcases digits with _ | ⟨d, digits⟩
    · simpa [digitsValue] using Nat.toDigits_of_lt_base hlast
    · have hhead : ∀ c' ∈ (d :: digits).head?, 0 < digit c' := by
        rcases hlead with hlength | hhead
        · simp at hlength
        · exact hhead
      have hfront := ih (fun c' hc' => hdigit c' (mem_append_left _ hc')) (by simp) (.inr hhead)
      have hpos := digitsValue_pos (b := b) (by simp) hhead (by omega)
      rw [← Nat.toDigits_append_toDigits hb hpos hlast, hfront, Nat.toDigits_of_lt_base hlast]
      rfl

/-- A text of digits is the text of its value exactly without leading zeros. -/
theorem toDigits_digitsValue_eq_iff :
    Nat.toDigits b (digitsValue b digit digits) = digits.map (fun c => (digit c).digitChar) ↔
      digits.length = 1 ∨ ∀ c ∈ digits.head?, 0 < digit c := by
  refine ⟨fun h => ?_, toDigits_digitsValue hb hdigit hne⟩
  rcases digits with _ | ⟨c, digits⟩
  · exact absurd rfl hne
  by_cases hlength : (c :: digits).length = 1
  · exact .inl hlength
  refine .inr fun c' hc' => ?_
  obtain rfl : c = c' := by simpa using hc'
  -- With a leading zero the value has fewer digits than the text.
  by_contra hzero
  have hzero : digit c = 0 := by omega
  have hvalue : digitsValue b digit (c :: digits) = digitsValue b digit digits := by
    simp [digitsValue, hzero]
  have hpositive : 0 < digits.length := by
    rw [length_cons] at hlength
    omega
  have hshort : (Nat.toDigits b (digitsValue b digit (c :: digits))).length ≤ digits.length := by
    rw [hvalue, Nat.length_toDigits_le_iff hb hpositive]
    exact digitsValue_lt fun c' hc' => hdigit c' (.tail _ hc')
  rw [h, length_map, length_cons] at hshort
  omega

end

end digits

end TalonHound
