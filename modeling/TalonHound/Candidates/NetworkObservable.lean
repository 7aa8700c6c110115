import TalonHound.PublishedFeed.Text

/-!
# Network observables

`networkObservable.js`: the identity under which an IP address or a network is stored. Texts are
lists of characters.
-/

namespace TalonHound.Candidates

/-- The value of decimal digits. -/
def decimalValue (digits : List Char) : ℕ :=
  digits.foldl (fun n d => 10 * n + (d.toNat - '0'.toNat)) 0

/-- A hexadecimal digit. -/
def isHexDigit (c : Char) : Bool := c.isDigit || (('a' ≤ c && c ≤ 'f') || ('A' ≤ c && c ≤ 'F'))

/-- The value of hexadecimal digits. -/
def hexValue (digits : List Char) : ℕ :=
  digits.foldl (fun n d => 16 * n +
    if d.isDigit then d.toNat - '0'.toNat else d.toLower.toNat - 'a'.toNat + 10) 0

/-- A number from 0 to 255 without leading zeros. -/
def isOctet (part : List Char) : Bool :=
  part ≠ [] && part.all Char.isDigit && (part.length = 1 || part.head? ≠ some '0') &&
    part.length ≤ 3 && decimalValue part ≤ 255

/-- `isIPv4` of `node:net`. -/
def isIPv4 (addr : List Char) : Bool :=
  (addr.splitOn '.').length = 4 && (addr.splitOn '.').all isOctet

/-- A group of one to four hexadecimal digits. -/
def isGroup (part : List Char) : Bool := part ≠ [] && part.length ≤ 4 && part.all isHexDigit

/-- The number of 16-bit groups in a text without a double colon; the last part may be a dotted
quad, where `tail` says so. -/
def groupCount (tail : Bool) (addr : List Char) : Option ℕ :=
  let parts := addr.splitOn ':'
  if addr = [] then some 0
  else if parts.all isGroup then some parts.length
  else if tail && parts.dropLast.all isGroup && (parts.getLast?.map isIPv4).getD false then
    some (parts.length + 1)
  else none

/-- The texts before and after the first double colon. -/
def splitDoubleColon : List Char → Option (List Char × List Char)
  | ':' :: ':' :: rest => some ([], rest)
  | c :: rest => (splitDoubleColon rest).map fun (head, tail) => (c :: head, tail)
  | [] => none

/-- `isIPv6` of `node:net`, for an address without a zone. -/
def isIPv6 (addr : List Char) : Bool :=
  match splitDoubleColon addr with
  | none => groupCount true addr = some 8
  | some (head, rest) =>
    match groupCount false head, groupCount true rest with
    | some h, some r => h + r ≤ 7
    | _, _ => false

/-- `ipv4ToBigInt`. -/
def ipv4ToNat (addr : List Char) : ℕ :=
  (addr.splitOn '.').foldl (fun n part => n * 256 + decimalValue part) 0

/-- `bigIntToIpv4`. -/
def natToIpv4 (n : ℕ) : String :=
  ".".intercalate ([24, 16, 8, 0].map fun shift => toString (n / 2 ^ shift % 256))

/-- The groups of a text without a double colon; a dotted quad is two groups. -/
def groupValues (addr : List Char) : List ℕ :=
  if addr = [] then []
  else (addr.splitOn ':').flatMap fun part =>
    if part.contains '.' then [ipv4ToNat part / 2 ^ 16, ipv4ToNat part % 2 ^ 16]
    else [hexValue part]

/-- `ipv6Groups`. -/
def ipv6Groups (addr : List Char) : List ℕ :=
  match splitDoubleColon addr with
  | none => groupValues addr
  | some (head, rest) =>
    let h := groupValues head
    let r := groupValues rest
    h ++ List.replicate (8 - h.length - r.length) 0 ++ r

/-- `ipv6ToBigInt`. -/
def ipv6ToNat (addr : List Char) : ℕ := (ipv6Groups addr).foldl (fun n g => n * 2 ^ 16 + g) 0

/-- The first of the longest runs of zeros: where it starts, and its length. -/
def longestZeroRun (groups : List ℕ) : ℕ × ℕ :=
  (List.range groups.length).foldl (fun best i =>
    let length := ((groups.drop i).takeWhile (· = 0)).length
    if best.2 < length then (i, length) else best) (0, 0)

/-- `bigIntToIpv6`. -/
def natToIpv6 (n : ℕ) : String :=
  let groups := (List.range 8).reverse.map fun i => n / 2 ^ (16 * i) % 2 ^ 16
  let hex := groups.map fun g => String.ofList (Nat.toDigits 16 g)
  let best := longestZeroRun groups
  if groups.take 6 = [0, 0, 0, 0, 0, 0xffff] then "::ffff:" ++ natToIpv4 (n % 2 ^ 32)
  else if best.2 < 2 then ":".intercalate hex
  else ":".intercalate (hex.take best.1) ++ "::" ++ ":".intercalate (hex.drop (best.1 + best.2))

/-- The identity of an `ioc_items` record: its type and its canonical value. -/
structure StorageIdentity where
  (type value : String)
  deriving DecidableEq

/-- A result of `parseNetworkObservable` that is `ok`. -/
structure NetworkObservable where
  identity : StorageIdentity
  isCidr : Bool
  deriving DecidableEq

/-- The address of a network without its host bits. -/
def maskHostBits (bits length n : ℕ) : ℕ := n / 2 ^ (bits - length) * 2 ^ (bits - length)

/-- The canonical text of an address. -/
def addressText (v4 : Bool) (n : ℕ) : String := if v4 then natToIpv4 n else natToIpv6 n

/-- The length of an address in bits. -/
def addressBits (v4 : Bool) : ℕ := if v4 then 32 else 128

/-- The type of an address. -/
def addressType (v4 : Bool) : String := if v4 then "ip" else "ipv6"

/-- The value of an address. -/
def addressValue (v4 : Bool) (addr : List Char) : ℕ := if v4 then ipv4ToNat addr else ipv6ToNat addr

/-- A network with a prefix length in digits. -/
def parseNetwork (v4 : Bool) (value : ℕ) (digits : List Char) : Option NetworkObservable :=
  let length := decimalValue digits
  if digits = [] || !digits.all Char.isDigit || 3 < digits.length || addressBits v4 < length ||
      length = 0 then none
  else
    let network := addressText v4 (maskHostBits (addressBits v4) length value)
    some ⟨⟨addressType v4, network ++ "/" ++ toString length⟩, true⟩

/-- `parseNetworkObservable`; a text that is malformed, or no address at all, is `none`. -/
def parseNetworkObservable (raw : String) : Option NetworkObservable :=
  let v := (trim raw).toList
  let addr := v.takeWhile (· ≠ '/')
  let v4 := isIPv4 addr
  if v = [] || v.any isJsWhitespace || !(v4 || isIPv6 addr) then none
  else if !v.contains '/' then
    some ⟨⟨addressType v4, addressText v4 (addressValue v4 addr)⟩, false⟩
  else parseNetwork v4 (addressValue v4 addr) (v.drop (addr.length + 1))

example : parseNetworkObservable "198.51.100.7/24" =
    some ⟨⟨"ip", "198.51.100.0/24"⟩, true⟩ := by decide

example : parseNetworkObservable "2001:DB8::0:1" =
    some ⟨⟨"ipv6", "2001:db8::1"⟩, false⟩ := by decide

theorem slash_not_mem_intercalate {sep : String} {parts : List String} (hsep : '/' ∉ sep.toList)
    (hparts : ∀ part ∈ parts, '/' ∉ part.toList) : '/' ∉ (sep.intercalate parts).toList := by
  induction parts with
  | nil => simp
  | cons part parts ih =>
    have hpart := hparts part List.mem_cons_self
    have hrest := ih fun p hp => hparts p (List.mem_cons_of_mem _ hp)
    cases parts with
    | nil => rwa [String.intercalate_singleton]
    | cons next parts =>
      rw [String.intercalate_cons_cons, String.toList_append, String.toList_append]
      simp only [List.mem_append, not_or]
      exact ⟨⟨hpart, hsep⟩, hrest⟩

theorem slash_not_mem_toDigits (n : ℕ) : '/' ∉ Nat.toDigits 16 n := by
  induction n using Nat.strong_induction_on with
  | _ n ih =>
    have hdigit : ∀ d < 16, '/' ≠ Nat.digitChar d := by decide
    rw [Nat.toDigits_eq_if (by omega)]
    split
    · next hlt =>
      rw [List.mem_singleton]
      exact hdigit n hlt
    · next hle =>
      rw [List.mem_append, List.mem_singleton, not_or]
      exact ⟨ih _ (by omega), hdigit _ (by omega)⟩

theorem slash_not_mem_natToIpv4 (n : ℕ) : '/' ∉ (natToIpv4 n).toList := by
  refine slash_not_mem_intercalate (by decide) fun part hpart hslash => ?_
  obtain ⟨shift, -, rfl⟩ := List.mem_map.mp hpart
  rw [Nat.toString_eq_ofList_toDigits, String.toList_ofList] at hslash
  have hdigit := Nat.isDigit_of_mem_toDigits (by omega) (by omega) hslash
  revert hdigit
  decide

theorem slash_not_mem_natToIpv6 (n : ℕ) : '/' ∉ (natToIpv6 n).toList := by
  have hhex : ∀ groups : List ℕ, ∀ part ∈ groups.map fun g => String.ofList (Nat.toDigits 16 g),
      '/' ∉ part.toList := by
    intro groups part hpart
    obtain ⟨g, -, rfl⟩ := List.mem_map.mp hpart
    rw [String.toList_ofList]
    exact slash_not_mem_toDigits g
  unfold natToIpv6
  dsimp only
  split
  · rw [String.toList_append, List.mem_append, not_or]
    exact ⟨by decide, slash_not_mem_natToIpv4 _⟩
  · split
    · exact slash_not_mem_intercalate (by decide) (hhex _)
    · rw [String.toList_append, String.toList_append, List.mem_append, List.mem_append, not_or,
        not_or]
      refine ⟨⟨slash_not_mem_intercalate (by decide) fun part hpart => ?_, by decide⟩,
        slash_not_mem_intercalate (by decide) fun part hpart => ?_⟩
      · exact hhex _ part (List.mem_of_mem_take hpart)
      · exact hhex _ part (List.mem_of_mem_drop hpart)

theorem slash_not_mem_addressText (v4 : Bool) (n : ℕ) : '/' ∉ (addressText v4 n).toList := by
  unfold addressText
  split
  · exact slash_not_mem_natToIpv4 n
  · exact slash_not_mem_natToIpv6 n

end TalonHound.Candidates
