import TalonHound.Candidates.AddressText

/-!
# Searching for stored networks

A network is stored under the text of `parseNetworkObservable`; a search compares with the text of
`normalizeIocValue`. The two write addresses in loops of their own.
-/

namespace TalonHound.Candidates

open FileArtifacts (lowerCase toLower_cases toLower_toLower toList_lowerCase)
open List

/-- The groups of `canonicalizeIpv6`, filled up at a double colon. -/
def expandGroups (head : List Char) : Option (List (List Char)) :=
  match splitDoubleColon head with
  | none => some (groupParts head)
  | some (left, right) =>
    -- More than one double colon.
    if (splitDoubleColon right).isSome then none
    else
      let l := groupParts left
      let r := groupParts right
      if 8 ≤ l.length + r.length then none
      else some (l ++ List.replicate (8 - (l.length + r.length)) ['0'] ++ r)

/-- The loop over the groups: the best run so far, and the current one; no start is `-1`. -/
structure ZeroScan where
  best : ℕ × ℕ
  curStart : Option ℕ
  curLen : ℕ

/-- One group of the loop. -/
def ZeroScan.next (s : ZeroScan) (isZero : Bool) (i : ℕ) : ZeroScan :=
  if isZero then
    let curStart := s.curStart.getD i
    let curLen := s.curLen + 1
    ⟨if s.best.2 < curLen then (curStart, curLen) else s.best, some curStart, curLen⟩
  else { s with curStart := none, curLen := 0 }

/-- The longest run of zeros, as `canonicalizeIpv6` looks for it. -/
def scanZeros (zeros : List Bool) : ℕ × ℕ :=
  (zeros.zipIdx.foldl (fun (s : ZeroScan) p => s.next p.1 p.2) ⟨(0, 0), none, 0⟩).best

/-- The text of the groups of `canonicalizeIpv6`. -/
def compressGroups (nums : List ℕ) : List Char :=
  let hex := nums.map (Nat.toDigits 16)
  let best := scanZeros (nums.map (· = 0))
  if 2 ≤ best.2 then
    [':'].intercalate (hex.take best.1) ++ [':', ':'] ++ [':'].intercalate (hex.drop (best.1 + best.2))
  else [':'].intercalate hex

/-- `canonicalizeIpv6`. -/
def canonicalizeIpv6 (value : String) : Option (List Char) :=
  let raw := (trim value).toList
  if !raw.contains ':' then none
  else
    let head := if raw.head? = some '[' && raw.getLast? = some ']' then raw.tail.dropLast else raw
    let zone := head.dropWhile (· ≠ '%')
    match expandGroups (head.takeWhile (· ≠ '%')) with
    | none => none
    | some groups =>
      if groups.length ≠ 8 || !groups.all isGroup then none
      else some (compressGroups (groups.map hexValue) ++ lower zone)

/-- `normalizeIocValue`. -/
def normalizeIocValue (raw : String) : String :=
  match canonicalizeIpv6 (trim raw) with
  | some ipv6 => String.ofList ipv6
  | none => lowerCase (trim raw)

example : normalizeIocValue "2001:0DB8::0001" = "2001:db8::1" := by decide

/-- A character of a zone. -/
def isZoneChar (c : Char) : Bool := c.isAlphanum || c = '-' || c = '.' || c = ':'

/-- `isIPv6` of `node:net`, for an address with a zone. -/
def isZonedIPv6 (addr : List Char) : Bool :=
  let zone := (addr.dropWhile (· ≠ '%')).tail
  isIPv6 (addr.takeWhile (· ≠ '%')) && zone ≠ [] && zone.all isZoneChar

/-- The last digits of a text, at most three. -/
def lastDigits (part : List Char) : List Char := ((part.reverse.takeWhile Char.isDigit).take 3).reverse

/-- The dotted tail of a text, and the text before it. -/
def splitDottedTail (a : List Char) : Option (List Char × List Char) :=
  match (a.splitOn '.').reverse with
  | fourth :: third :: second :: first :: _ =>
    let isDigits := fun part : List Char => part ≠ [] && part.length ≤ 3 && part.all Char.isDigit
    let tail := ['.'].intercalate [lastDigits first, second, third, fourth]
    if [second, third, fourth].all isDigits && lastDigits first ≠ [] then
      some (a.take (a.length - tail.length), tail)
    else none
  | _ => none

/-- A number as a double, the nearest one, unless it is too large. -/
def toDouble (n : ℕ) : Option ℕ :=
  if n < 2 ^ 53 then some n
  else
    let unit := 2 ^ (Nat.log2 n - 52)
    let up := unit < 2 * (n % unit) || (unit = 2 * (n % unit) && n / unit % 2 = 1)
    let rounded := (if up then n / unit + 1 else n / unit) * unit
    if rounded < 2 ^ 1024 then some rounded else none

/-- `BigInt(parseInt(text, 16))`, which throws for a text without digits. -/
def parseHex (text : List Char) : Option ℤ :=
  let unsigned := if text.head? = some '-' then text.tail else text
  let digits := (if unsigned.take 2 = ['0', 'x'] then unsigned.drop 2 else unsigned).takeWhile isHexDigit
  if digits = [] then none
  else (toDouble (hexValue digits)).map fun n => if text.head? = some '-' then -(n : ℤ) else n

/-- `ipv6Groups` of an address with a zone, which is read as if it belonged to the address. -/
def zonedGroups (addr : List Char) : Option (List ℤ) :=
  let a := match splitDottedTail (lower addr) with
    | none => lower addr
    | some (front, tail) => front ++ Nat.toDigits 16 (ipv4ToNat tail / 2 ^ 16) ++ [':'] ++
      Nat.toDigits 16 (ipv4ToNat tail % 2 ^ 16)
  match splitDoubleColon a with
  | none => (groupParts a).mapM parseHex
  | some (head, tail) =>
    let rest := match splitDoubleColon tail with
      | none => tail
      | some (rest, _) => rest
    let h := groupParts head
    let r := groupParts rest
    -- The array of a negative length throws.
    if 8 < h.length + r.length then none
    else (h ++ List.replicate (8 - h.length - r.length) ['0'] ++ r).mapM parseHex

/-- The low 128 bits of the number of the groups. -/
def zonedValue (groups : List ℤ) : ℕ :=
  (groups.foldl (fun n g => n * 2 ^ 16 + g) 0 % 2 ^ 128).toNat

/-- `parseNetworkObservable`, also of addresses with a zone. A text on which it throws is not
accepted. -/
def parseZonedObservable (raw : String) : Option NetworkObservable :=
  let v := (trim raw).toList
  let addr := v.takeWhile (· ≠ '/')
  if !addr.contains '%' then parseNetworkObservable raw
  else if v.any isJsWhitespace || !isZonedIPv6 addr then none
  else (zonedGroups addr).bind fun groups =>
    if !v.contains '/' then some ⟨⟨"ipv6", natToIpv6 (zonedValue groups)⟩, false⟩
    else parseNetwork false (zonedValue groups) (v.drop (addr.length + 1))

example : parseZonedObservable "fe80::1%eth0/64" = some ⟨⟨"ipv6", "fe80::/64"⟩, true⟩ := by
  decide

/-- A host, or a network without host bits and its prefix length. -/
structure Network where
  v4 : Bool
  address : ℕ
  prefixLength : Option ℕ

/-- The canonical text of a network. -/
def Network.text (w : Network) : String :=
  match w.prefixLength with
  | none => addressText w.v4 w.address
  | some length => addressText w.v4 w.address ++ "/" ++ toString length

/-- The masked network and the prefix length that a text denotes; a zone does not belong to them. -/
def networkOf (raw : String) : Network :=
  let v := (trim raw).toList
  let addr := v.takeWhile (· ≠ '/')
  let base := addr.takeWhile (· ≠ '%')
  let v4 := isIPv4 base
  if !v.contains '/' then ⟨v4, addressValue v4 base, none⟩
  else
    let length := decimalValue (v.drop (addr.length + 1))
    ⟨v4, maskHostBits (addressBits v4) length (addressValue v4 base), some length⟩

/-- A group without leading zeros. -/
def isPlainGroup (part : List Char) : Bool :=
  isGroup part && (part.length = 1 || part.head? ≠ some '0')

/-- A lower-case IPv6 address in its canonical form: a mapped address ends in a dotted quad; elsewhere
the groups have no leading zeros, and a double colon stands for the first longest run of zeros, if that
has two or more. -/
def isCanonicalIpv6 (addr : List Char) : Bool :=
  let run := longestZeroRun (ipv6Groups addr)
  if IsMapped (ipv6Groups addr) then addr.take 7 = "::ffff:".toList && isIPv4 (addr.drop 7)
  else match splitDoubleColon addr with
    | none => run.2 < 2 && (groupParts addr).all isPlainGroup
    | some (head, rest) => 2 ≤ run.2 && (groupParts head).length = run.1 &&
      (groupParts rest).length = 8 - (run.1 + run.2) && (groupParts head ++ groupParts rest).all isPlainGroup

/-- The search finds the stored value under this text. -/
def isSearchable (raw : String) : Bool :=
  let v := (trim raw).toList
  let addr := v.takeWhile (· ≠ '/')
  let v4 := isIPv4 addr
  let isCanonical := isCanonicalIpv6 (lower addr)
  if addr.contains '%' then false
  else if v.contains '/' then
    let digits := v.drop (addr.length + 1)
    addressValue v4 addr % 2 ^ (addressBits v4 - decimalValue digits) = 0 &&
      (digits.length = 1 || digits.head? ≠ some '0') && (v4 || isCanonical)
  else v4 || if addr.contains '.' then isCanonical else !decide (IsMapped (ipv6Groups addr))

/-- `longestZeroRun`, of which groups are zero. -/
def zeroRunOf (zeros : List Bool) : ℕ × ℕ :=
  (List.range zeros.length).foldl (fun best i =>
    let length := ((zeros.drop i).takeWhile id).length
    if best.2 < length then (i, length) else best) (0, 0)

/-- The run is found by the places that are zero. -/
theorem longestZeroRun_eq (groups : List ℕ) :
    longestZeroRun groups = zeroRunOf (groups.map (· = 0)) := by
  unfold longestZeroRun zeroRunOf
  rw [length_map]
  congr 1
  funext best i
  have hlength : (((groups.map fun g => decide (g = 0)).drop i).takeWhile id).length =
      ((groups.drop i).takeWhile (· = 0)).length := by
    rw [← map_drop, takeWhile_map, length_map]
    rfl
  rw [hlength]

variable {groups : List ℕ} {part v : List Char} {c : Char} {net : NetworkObservable} {n : ℕ}

/-- Eight groups have 256 patterns of zeros, and on each both loops find the same run. -/
theorem scanZeros_eq (h : groups.length = 8) :
    scanZeros (groups.map (· = 0)) = longestZeroRun groups := by
  obtain ⟨a, b, c, d, e, f, g, i, rfl⟩ := exists_eight_of_length h
  have hall : ∀ a b c d e f g i : Bool, scanZeros [a, b, c, d, e, f, g, i] =
      zeroRunOf [a, b, c, d, e, f, g, i] := by decide
  rw [longestZeroRun_eq]
  exact hall _ _ _ _ _ _ _ _

/-- On eight groups the two writers agree. -/
theorem compressGroups_eq (h : groups.length = 8) : compressGroups groups = groupsText groups := by
  unfold compressGroups groupsText
  rw [scanZeros_eq h]
  by_cases hlong : (longestZeroRun groups).2 < 2
  · rw [if_pos hlong, if_neg (by omega)]
  · rw [if_neg hlong, if_pos (by omega)]

/-- A group, lowered, is what its value writes when it has no leading zero. -/
theorem map_toLower_of_isGroup_iff (h : isGroup part = true) :
    Nat.toDigits 16 (hexValue part) = part.map Char.toLower ↔
      part.length = 1 ∨ part.head? ≠ some '0' := by
  simp only [isGroup, Bool.and_eq_true, decide_eq_true_eq] at h
  have hhex : ∀ c ∈ part, isHexDigit c = true := fun c hc => all_eq_true.mp h.2 c hc
  have hmap : part.map (fun c => (hexDigitValue c).digitChar) = part.map Char.toLower :=
    map_congr_left fun c hc => (hexDigit_of_isHexDigit (hhex c hc)).2
  have hiff : Nat.toDigits 16 (hexValue part) = part.map (fun c => (hexDigitValue c).digitChar) ↔
      part.length = 1 ∨ ∀ c ∈ part.head?, 0 < hexDigitValue c :=
    toDigits_digitsValue_eq_iff (by omega) (fun c hc => (hexDigit_of_isHexDigit (hhex c hc)).1) h.1.1
  rw [← hmap, hiff]
  refine or_congr_right ?_
  rcases part with _ | ⟨c, part⟩
  · exact absurd rfl h.1.1
  have hzero : ∀ n < 103, isHexDigit (Char.ofNat n) = true →
      (0 < hexDigitValue (Char.ofNat n) ↔ Char.ofNat n ≠ '0') := by decide
  have hc := hhex c mem_cons_self
  have hiff := of_forall_lt (p := fun c => isHexDigit c = true → (0 < hexDigitValue c ↔ c ≠ '0')) hzero
    (by have := toNat_of_isHexDigit hc; omega) hc
  simp [hiff]

/-- A plain group is a lower-case group that its value writes. -/
theorem isPlainGroup_iff (hlower : part.map Char.toLower = part) :
    isPlainGroup part = true ↔ isGroup part = true ∧ Nat.toDigits 16 (hexValue part) = part := by
  unfold isPlainGroup
  rw [Bool.and_eq_true]
  refine and_congr_right fun hgroup => ?_
  have hiff := map_toLower_of_isGroup_iff hgroup
  rw [hlower] at hiff
  rw [hiff]
  simp

/-- What a 16-bit value writes is a plain group. -/
theorem isPlainGroup_toDigits {g : ℕ} (h : g < 2 ^ 16) : isPlainGroup (Nat.toDigits 16 g) = true := by
  have hgroup := isGroup_toDigits h
  have hlower : (Nat.toDigits 16 g).map Char.toLower = Nat.toDigits 16 g := by
    conv_rhs => rw [← map_id (Nat.toDigits 16 g)]
    exact map_congr_left fun c hc => (isHexDigit_of_mem_toDigits hc).2
  exact (isPlainGroup_iff hlower).mpr ⟨hgroup, by rw [hexValue_toDigits]⟩

/-- The text of plain groups is their own. -/
theorem map_hex_of_plain {parts : List (List Char)} (hplain : parts.all isPlainGroup = true)
    (hlower : ∀ part ∈ parts, part.map Char.toLower = part) :
    (parts.map hexValue).map (Nat.toDigits 16) = parts := by
  rw [map_map]
  conv_rhs => rw [← map_id parts]
  refine map_congr_left fun part hpart => ?_
  exact ((isPlainGroup_iff (hlower part hpart)).mp (all_eq_true.mp hplain part hpart)).2

/-- Plain groups are groups. -/
theorem isGroup_of_plain {parts : List (List Char)} (hplain : parts.all isPlainGroup = true) :
    ∀ part ∈ parts, isGroup part = true := by
  intro part hpart
  have hpart := all_eq_true.mp hplain part hpart
  unfold isPlainGroup at hpart
  rw [Bool.and_eq_true] at hpart
  exact hpart.1

/-- A part's characters are the address's. -/
theorem mem_of_mem_groupParts {addr : List Char} (hpart : part ∈ groupParts addr) (hc : c ∈ part) :
    c ∈ addr := by
  rw [← intercalate_groupParts addr]
  generalize groupParts addr = parts at hpart
  induction parts with
  | nil => cases hpart
  | cons first parts ih =>
    rcases parts with _ | ⟨next, parts⟩
    · rw [mem_singleton.mp hpart] at hc
      simpa using hc
    · rw [intercalate_cons_cons, append_assoc, mem_append, mem_append]
      rcases mem_cons.mp hpart with rfl | hpart
      · exact .inl hc
      · exact .inr (.inr (ih hpart))

/-- The parts of a lower-case address are lower case. -/
theorem map_toLower_part {addr : List Char} (hlower : ∀ c ∈ addr, c.toLower = c)
    (hpart : part ∈ groupParts addr) : part.map Char.toLower = part := by
  conv_rhs => rw [← map_id part]
  exact map_congr_left fun c hc => hlower c (mem_of_mem_groupParts hpart hc)

/-- Written groups are plain. -/
theorem all_isPlainGroup_hex (h : ∀ g ∈ groups, g < 2 ^ 16) :
    (groups.map (Nat.toDigits 16)).all isPlainGroup = true := by
  refine all_eq_true.mpr fun part hpart => ?_
  obtain ⟨g, hg, rfl⟩ := mem_map.mp hpart
  exact isPlainGroup_toDigits (h g hg)

/-- Written groups, joined by colons, are cut apart again. -/
theorem groupParts_hex (h : ∀ g ∈ groups, g < 2 ^ 16) :
    groupParts ([':'].intercalate (groups.map (Nat.toDigits 16))) = groups.map (Nat.toDigits 16) := by
  refine groupParts_intercalate fun part hpart => ?_
  obtain ⟨g, hg, rfl⟩ := mem_map.mp hpart
  exact isPart_toDigits (h g hg)

/-- A canonical text of a mapped address. -/
theorem canonical_mapped_iff {addr : List Char} :
    (addr.take 7 = "::ffff:".toList ∧ isIPv4 (addr.drop 7) = true) ↔
      addr = "::ffff:".toList ++ (natToIpv4 (ipv6ToNat addr % 2 ^ 32)).toList := by
  constructor
  · rintro ⟨hfront, hquad⟩
    have haddr : addr = "::ffff:".toList ++ addr.drop 7 := by
      rw [← hfront, take_append_drop]
    obtain ⟨-, hgroups⟩ := mapped_reads hquad
    rw [← haddr] at hgroups
    have hlt := ipv4ToNat_lt hquad
    have hvalue : ipv6ToNat addr % 2 ^ 32 = ipv4ToNat (addr.drop 7) := by
      rw [ipv6ToNat_eq, mod_of_isMapped hgroups (by omega) (by omega)]
      omega
    rw [hvalue, natToIpv4_ipv4ToNat hquad]
    exact haddr
  · intro haddr
    rw [haddr]
    exact ⟨rfl, isIPv4_natToIpv4 _⟩

/-- A text of plain groups, where a double colon stands for the longest run, is the text of its
groups. -/
theorem eq_groupsText_of_plain {addr : List Char} (h : isIPv6 addr = true)
    (hlower : ∀ c ∈ addr, c.toLower = c)
    (hcanonical : (match splitDoubleColon addr with
      | none => (longestZeroRun (ipv6Groups addr)).2 < 2 && (groupParts addr).all isPlainGroup
      | some (head, rest) => 2 ≤ (longestZeroRun (ipv6Groups addr)).2 &&
        (groupParts head).length = (longestZeroRun (ipv6Groups addr)).1 &&
        (groupParts rest).length = 8 - ((longestZeroRun (ipv6Groups addr)).1 +
          (longestZeroRun (ipv6Groups addr)).2) &&
        (groupParts head ++ groupParts rest).all isPlainGroup) = true) :
    addr = groupsText (ipv6Groups addr) := by
  obtain ⟨hlength, -⟩ := ipv6Groups_of_isIPv6 h
  obtain ⟨hbound, -⟩ := isZeroRun_longestZeroRun (ipv6Groups addr)
  unfold groupsText
  generalize longestZeroRun (ipv6Groups addr) = run at hcanonical hbound ⊢
  split at hcanonical
  · next hsplit =>
    simp only [Bool.and_eq_true, decide_eq_true_eq] at hcanonical
    obtain ⟨hshort, hplain⟩ := hcanonical
    have hgroups : ipv6Groups addr = (groupParts addr).map hexValue := by
      unfold ipv6Groups
      rw [hsplit]
      rw [groupValues_eq, flatMap_partValues (isGroup_of_plain hplain)]
    rw [if_pos hshort]
    conv_rhs => rw [hgroups, map_hex_of_plain hplain fun part hpart => map_toLower_part hlower hpart]
    exact (intercalate_groupParts addr).symm
  · next head rest hsplit =>
    have haddr := eq_of_splitDoubleColon hsplit
    simp only [Bool.and_eq_true, decide_eq_true_eq, all_append] at hcanonical
    obtain ⟨⟨⟨hlong, hhead⟩, hrest⟩, hplain, hplain'⟩ := hcanonical
    have hlower' : ∀ c ∈ head, c.toLower = c := fun c hc => hlower c (by rw [haddr]; simp [hc])
    have hlower'' : ∀ c ∈ rest, c.toLower = c := fun c hc => hlower c (by rw [haddr]; simp [hc])
    have hgroups : ipv6Groups addr = (groupParts head).map hexValue ++
        List.replicate (8 - (groupParts head).length - (groupParts rest).length) 0 ++
          (groupParts rest).map hexValue := by
      unfold ipv6Groups
      rw [hsplit]
      dsimp only
      rw [groupValues_eq, groupValues_eq, flatMap_partValues (isGroup_of_plain hplain),
        flatMap_partValues (isGroup_of_plain hplain'), length_map, length_map]
    have htake : (ipv6Groups addr).take run.1 = (groupParts head).map hexValue := by
      rw [hgroups, ← hhead, append_assoc, take_left' (length_map _)]
    have hdrop : (ipv6Groups addr).drop (run.1 + run.2) = (groupParts rest).map hexValue := by
      rw [hgroups]
      refine drop_left' ?_
      rw [length_append, length_map, length_replicate, hhead, hrest]
      omega
    rw [if_neg (by omega), ← map_take, ← map_drop, htake, hdrop,
      map_hex_of_plain hplain fun part hpart => map_toLower_part hlower' hpart,
      map_hex_of_plain hplain' fun part hpart => map_toLower_part hlower'' hpart,
      intercalate_groupParts, intercalate_groupParts]
    rw [append_assoc]
    exact haddr

/-- The canonical texts are those that are written. -/
theorem isCanonicalIpv6_iff {addr : List Char} (h : isIPv6 addr = true)
    (hlower : ∀ c ∈ addr, c.toLower = c) :
    isCanonicalIpv6 addr = true ↔ addr = (natToIpv6 (ipv6ToNat addr)).toList := by
  obtain ⟨hlength, hlt⟩ := ipv6Groups_of_isIPv6 h
  rw [toList_natToIpv6, natGroups_ipv6ToNat h]
  unfold isCanonicalIpv6
  by_cases hmapped : IsMapped (ipv6Groups addr)
  · rw [if_pos hmapped, if_pos hmapped, Bool.and_eq_true, decide_eq_true_eq]
    exact canonical_mapped_iff
  · rw [if_neg hmapped, if_neg hmapped]
    refine ⟨eq_groupsText_of_plain h hlower, fun haddr => ?_⟩
    have hsplit := splitDoubleColon_groupsText hlt
    rw [← haddr] at hsplit
    have hbefore : ∀ g ∈ (ipv6Groups addr).take (longestZeroRun (ipv6Groups addr)).1, g < 2 ^ 16 :=
      fun g hg => hlt g (mem_of_mem_take hg)
    have hafter : ∀ g ∈ (ipv6Groups addr).drop ((longestZeroRun (ipv6Groups addr)).1 +
        (longestZeroRun (ipv6Groups addr)).2), g < 2 ^ 16 := fun g hg => hlt g (mem_of_mem_drop hg)
    have hbound := (isZeroRun_longestZeroRun (ipv6Groups addr)).1
    rw [hsplit]
    by_cases hshort : (longestZeroRun (ipv6Groups addr)).2 < 2
    · have hparts : groupParts addr = (ipv6Groups addr).map (Nat.toDigits 16) := by
        conv_lhs => rw [haddr]
        unfold groupsText
        rw [if_pos hshort, groupParts_hex hlt]
      rw [if_pos hshort]
      rw [hparts, all_isPlainGroup_hex hlt, decide_eq_true hshort]
      rfl
    · rw [if_neg hshort]
      dsimp only
      rw [groupParts_hex hbefore, groupParts_hex hafter, all_append, all_isPlainGroup_hex hbefore,
        all_isPlainGroup_hex hafter]
      simp only [length_map, length_take, length_drop, hlength, Bool.and_true,
        Bool.and_eq_true, decide_eq_true_eq, and_true]
      omega

/-- Without the character the text runs to its end. -/
theorem takeWhile_ne_eq_self (h : c ∉ v) : v.takeWhile (· ≠ c) = v :=
  takeWhile_eq_self_iff.mpr fun _ hd => decide_eq_true fun heq => h (heq ▸ hd)

/-- Without the character nothing is left behind it. -/
theorem dropWhile_ne_eq_nil (h : c ∉ v) : v.dropWhile (· ≠ c) = [] :=
  dropWhile_eq_nil_iff.mpr fun _ hd => decide_eq_true fun heq => h (heq ▸ hd)

instance : DecidablePred IsAddressChar := fun _ => inferInstanceAs (Decidable (_ ∨ _ ∨ _))

/-- Other characters do not occur in an address. -/
theorem not_mem_of_isAddressChar {l : List Char} (hl : ∀ c ∈ l, IsAddressChar c)
    (hc : ¬IsAddressChar c) : c ∉ l := fun hmem => hc (hl c hmem)

/-- An address has no white space. -/
theorem isJsWhitespace_of_isAddressChar (h : IsAddressChar c) : isJsWhitespace c = false := by
  have hrange : 33 ≤ c.toNat ∧ c.toNat ≤ 102 := by
    rcases h with hhex | rfl | rfl
    · have := toNat_of_isHexDigit hhex
      omega
    · decide
    · decide
  unfold isJsWhitespace
  rw [decide_eq_false_iff_not]
  omega

/-- How an accepted text is written: an address, and for a network the digits of its prefix length. -/
structure Spelled (raw : String) (v4 : Bool) (addr : List Char) (digits? : Option (List Char)) : Prop where
  text_eq : (trim raw).toList = addr ++ digits?.elim [] fun digits => '/' :: digits
  isIPv4_eq : isIPv4 addr = v4
  valid : (v4 || isIPv6 addr) = true
  digits : ∀ digits ∈ digits?, digits ≠ [] ∧ (∀ c ∈ digits, c.isDigit = true) ∧ digits.length ≤ 3 ∧
    decimalValue digits ≤ addressBits v4 ∧ decimalValue digits ≠ 0

/-- The network that is written so. -/
def spelledNetwork (v4 : Bool) (addr : List Char) (digits? : Option (List Char)) : Network :=
  match digits? with
  | none => ⟨v4, addressValue v4 addr, none⟩
  | some digits => ⟨v4, maskHostBits (addressBits v4) (decimalValue digits) (addressValue v4 addr),
    some (decimalValue digits)⟩

/-- The record of a network. -/
def Network.observable (w : Network) : NetworkObservable :=
  ⟨⟨addressType w.v4, w.text⟩, w.prefixLength.isSome⟩

variable {digits : List Char}

namespace Spelled

variable {raw : String} {v4 : Bool} {addr : List Char} {digits? : Option (List Char)}

/-- A spelled address is written in address characters. -/
theorem isAddressChar (h : Spelled raw v4 addr digits?) : ∀ c ∈ addr, IsAddressChar c := by
  intro c hc
  cases v4 with
  | true =>
    rcases digit_or_dot_of_isIPv4 h.isIPv4_eq hc with hdigit | hdot
    · exact .inl (isHexDigit_of_isDigit hdigit)
    · exact .inr (.inr hdot)
  | false => exact isAddressChar_of_isIPv6 h.valid hc

/-- What is not spelled as IPv4 is an IPv6 address. -/
theorem isIPv6 (h : Spelled raw false addr digits?) : Candidates.isIPv6 addr = true := h.valid

section

variable (h : Spelled raw v4 addr digits?)
include h

/-- The address is what stands before the slash. -/
theorem takeWhile_slash : (trim raw).toList.takeWhile (· ≠ '/') = addr := by
  have hslash : '/' ∉ addr := not_mem_of_isAddressChar h.isAddressChar (by decide)
  have hall : ∀ c ∈ addr, decide (c ≠ '/') = true := fun c hc =>
    decide_eq_true fun heq => hslash (heq ▸ hc)
  rw [h.text_eq, takeWhile_append_of_pos hall]
  cases digits? <;> simp

/-- A spelled address has no zone. -/
theorem takeWhile_percent : addr.takeWhile (· ≠ '%') = addr := by
  exact takeWhile_ne_eq_self (not_mem_of_isAddressChar h.isAddressChar (by decide))

/-- A slash stands there exactly when a prefix length does. -/
theorem slash_mem : (trim raw).toList.contains '/' = digits?.isSome := by
  have hslash : '/' ∉ addr := not_mem_of_isAddressChar h.isAddressChar (by decide)
  rw [h.text_eq]
  cases digits? <;> simp [hslash]

end

/-- Behind the slash stand the digits of the prefix length. -/
theorem drop_slash (h : Spelled raw v4 addr (some digits)) :
    (trim raw).toList.drop (addr.length + 1) = digits := by
  rw [h.text_eq, ← drop_drop, drop_left]
  rfl

section

variable (h : Spelled raw v4 addr digits?)
include h

/-- A spelled address is not empty. -/
theorem addr_ne_nil : addr ≠ [] := by
  rintro rfl
  cases v4 with
  | true => exact absurd h.isIPv4_eq (by decide)
  | false => exact absurd h.valid (by decide)

/-- A spelled text parses to its network. -/
theorem parse : parseNetworkObservable raw = some (spelledNetwork v4 addr digits?).observable := by
  have hne : (trim raw).toList ≠ [] := by
    rw [h.text_eq]
    simp [h.addr_ne_nil]
  have hspace : (trim raw).toList.any isJsWhitespace = false := by
    rw [any_eq_false]
    intro c hc
    rw [h.text_eq] at hc
    rw [Bool.not_eq_true]
    rcases mem_append.mp hc with hc | hc
    · exact isJsWhitespace_of_isAddressChar (h.isAddressChar c hc)
    · cases digits? with
      | none => cases hc
      | some digits =>
        rcases mem_cons.mp hc with rfl | hc
        · decide
        · exact isJsWhitespace_of_isAddressChar
            (.inl (isHexDigit_of_isDigit ((h.digits digits rfl).2.1 c hc)))
  unfold parseNetworkObservable
  dsimp only
  rw [h.takeWhile_slash, h.isIPv4_eq, hspace, h.slash_mem, h.valid]
  simp only [hne, decide_false, Bool.or_self, Bool.not_true, Bool.false_eq_true, if_false]
  cases hdigits : digits? with
  | none => rfl
  | some digits =>
    subst hdigits
    obtain ⟨hne, hall, hlength, hmax, hzero⟩ := h.digits digits rfl
    rw [h.drop_slash]
    unfold parseNetwork
    have hguard : (digits = [] || !digits.all Char.isDigit || 3 < digits.length ||
        addressBits v4 < decimalValue digits || decimalValue digits = 0) = false := by
      simp only [Bool.or_eq_false_iff, decide_eq_false_iff_not, Bool.not_eq_false', all_eq_true]
      exact ⟨⟨⟨⟨hne, hall⟩, by omega⟩, by omega⟩, hzero⟩
    simp only [Option.isSome_some, Bool.not_true, Bool.false_eq_true, if_false]
    simp only [hguard, Bool.false_eq_true, if_false]
    rfl

/-- The network of a spelled text. -/
theorem networkOf_eq : networkOf raw = spelledNetwork v4 addr digits? := by
  unfold networkOf
  dsimp only
  rw [h.takeWhile_slash, h.takeWhile_percent, h.isIPv4_eq, h.slash_mem]
  cases hdigits : digits? with
  | none => rfl
  | some digits =>
    subst hdigits
    rw [h.drop_slash]
    rfl

end

end Spelled

/-- A text with a slash: what is before the first one, and what is after it. -/
theorem eq_takeWhile_slash (h : '/' ∈ v) :
    v = v.takeWhile (· ≠ '/') ++ '/' :: v.drop ((v.takeWhile (· ≠ '/')).length + 1) := by
  induction v with
  | nil => cases h
  | cons c v ih =>
    by_cases hc : c = '/'
    · subst hc
      simp
    · have hmem : '/' ∈ v := by
        rcases mem_cons.mp h with heq | hmem
        · exact absurd heq.symm hc
        · exact hmem
      rw [takeWhile_cons_of_pos (by simpa using hc), length_cons, drop_succ_cons,
        cons_append, ← ih hmem]

/-- An accepted text is written in one of these ways. -/
theorem exists_spelled {raw : String} (h : parseNetworkObservable raw = some net) :
    ∃ v4 addr digits?, Spelled raw v4 addr digits? := by
  unfold parseNetworkObservable at h
  dsimp only at h
  split at h
  · cases h
  · next hguard =>
    simp only [Bool.or_eq_true, decide_eq_true_eq, Bool.not_eq_true', not_or, Bool.not_eq_false] at hguard
    have hvalid := Bool.or_eq_true_iff.mpr hguard.2
    split at h
    · next hslash =>
      have hnot : '/' ∉ (trim raw).toList := by simpa using hslash
      refine ⟨_, (trim raw).toList.takeWhile (· ≠ '/'), none, ?_, rfl, hvalid, by simp⟩
      rw [takeWhile_ne_eq_self hnot]
      simp
    · next hslash =>
      have hmem : '/' ∈ (trim raw).toList := by simpa using hslash
      refine ⟨_, (trim raw).toList.takeWhile (· ≠ '/'), some _, eq_takeWhile_slash hmem, rfl, hvalid,
        fun digits hdigits => ?_⟩
      obtain rfl := Option.mem_some_iff.mp hdigits
      unfold parseNetwork at h
      dsimp only at h
      split at h
      · cases h
      · next hprefix =>
        simp only [Bool.or_eq_true, decide_eq_true_eq, Bool.not_eq_true', not_or, Bool.not_eq_false] at hprefix
        obtain ⟨⟨⟨⟨hne, hall⟩, hlength⟩, hmax⟩, hzero⟩ := hprefix
        exact ⟨hne, all_eq_true.mp hall, by omega, by omega, hzero⟩

/-- An address fits its family's bits. -/
theorem addressValue_lt {v4 : Bool} {addr : List Char} (h : isIPv4 addr = v4)
    (hvalid : (v4 || isIPv6 addr) = true) : addressValue v4 addr < 2 ^ addressBits v4 := by
  cases v4 with
  | true => exact ipv4ToNat_lt h
  | false => exact ipv6ToNat_lt hvalid

/-- The canonical text of an address is an address of its kind, and reads as it. -/
theorem addressText_reads {v4 : Bool} (h : n < 2 ^ addressBits v4) :
    isIPv4 (addressText v4 n).toList = v4 ∧ (v4 || isIPv6 (addressText v4 n).toList) = true ∧
      addressValue v4 (addressText v4 n).toList = n := by
  cases v4 with
  | true =>
    simp only [addressBits, if_true] at h
    simp only [addressText, addressValue, if_true, Bool.true_or, true_and]
    exact ⟨isIPv4_natToIpv4 n, ipv4ToNat_natToIpv4 h⟩
  | false =>
    simp only [addressBits, Bool.false_eq_true, if_false] at h
    simp only [addressText, addressValue, Bool.false_eq_true, if_false, Bool.false_or]
    obtain ⟨hvalid, hvalue⟩ := natToIpv6_reads h
    exact ⟨isIPv4_of_isIPv6 hvalid, hvalid, hvalue⟩

/-- A network that the code can store. -/
structure Network.Canonical (w : Network) : Prop where
  address_lt : w.address < 2 ^ addressBits w.v4
  masked : ∀ length ∈ w.prefixLength, length ≠ 0 ∧ length ≤ addressBits w.v4 ∧
    maskHostBits (addressBits w.v4) length w.address = w.address

/-- Masking only clears bits. -/
theorem maskHostBits_le (bits length n : ℕ) : maskHostBits bits length n ≤ n :=
  Nat.div_mul_le_self _ _

/-- Masking twice is masking once. -/
theorem maskHostBits_maskHostBits (bits length n : ℕ) :
    maskHostBits bits length (maskHostBits bits length n) = maskHostBits bits length n := by
  unfold maskHostBits
  rw [Nat.mul_div_cancel _ (Nat.two_pow_pos _)]

/-- An address without host bits. -/
theorem maskHostBits_eq_iff (bits length n : ℕ) :
    maskHostBits bits length n = n ↔ n % 2 ^ (bits - length) = 0 := by
  have hdiv := Nat.div_add_mod' n (2 ^ (bits - length))
  unfold maskHostBits
  omega

/-- A spelled network is canonical: its host bits are clear. -/
theorem Spelled.canonical {raw : String} {v4 : Bool} {addr : List Char} {digits? : Option (List Char)}
    (h : Spelled raw v4 addr digits?) : (spelledNetwork v4 addr digits?).Canonical := by
  have hlt := addressValue_lt h.isIPv4_eq h.valid
  cases hdigits : digits? with
  | none => exact ⟨hlt, nofun⟩
  | some digits =>
    obtain ⟨-, -, -, hmax, hzero⟩ := h.digits digits hdigits
    refine ⟨Nat.lt_of_le_of_lt (maskHostBits_le _ _ _) hlt, fun length hlength => ?_⟩
    cases hlength
    exact ⟨hzero, hmax, maskHostBits_maskHostBits _ _ _⟩

/-- A written address is in address characters. -/
theorem isAddressChar_addressText {v4 : Bool} (h : n < 2 ^ addressBits v4)
    (hc : c ∈ (addressText v4 n).toList) : IsAddressChar c := by
  obtain ⟨hv4, hvalid, -⟩ := addressText_reads h
  cases v4 with
  | true =>
    rcases digit_or_dot_of_isIPv4 hv4 hc with hdigit | hdot
    · exact .inl (isHexDigit_of_isDigit hdigit)
    · exact .inr (.inr hdot)
  | false => exact isAddressChar_of_isIPv6 hvalid hc

/-- A written network adds only the slash. -/
theorem Network.isAddressChar_text (w : Network) (h : w.address < 2 ^ addressBits w.v4)
    (hc : c ∈ w.text.toList) : IsAddressChar c ∨ c = '/' := by
  unfold Network.text at hc
  split at hc
  · exact .inl (isAddressChar_addressText h hc)
  · rw [String.toList_append, String.toList_append, mem_append, mem_append] at hc
    rcases hc with (hc | hc) | hc
    · exact .inl (isAddressChar_addressText h hc)
    · exact .inr (by simpa using hc)
    · rw [Nat.toString_eq_ofList_toDigits, String.toList_ofList] at hc
      exact .inl (.inl (isHexDigit_of_isDigit (Nat.isDigit_of_mem_toDigits (by omega) (by omega) hc)))

/-- The canonical text of a network is a way to write it. -/
theorem Network.Canonical.spelled {w : Network} (h : w.Canonical) :
    ∃ addr digits?, Spelled w.text w.v4 addr digits? ∧ spelledNetwork w.v4 addr digits? = w := by
  obtain ⟨hv4, hvalid, hvalue⟩ := addressText_reads h.address_lt
  have htrim : trim w.text = w.text := by
    refine trim_eq_self fun c hc => ?_
    rcases w.isAddressChar_text h.address_lt hc with hchar | rfl
    · exact isJsWhitespace_of_isAddressChar hchar
    · decide
  rcases w with ⟨v4, address, prefixLength⟩
  cases prefixLength with
  | none =>
    refine ⟨(addressText v4 address).toList, none, ⟨?_, hv4, hvalid, by simp⟩, ?_⟩
    · rw [htrim]
      simp [Network.text]
    · simp only [spelledNetwork]
      rw [hvalue]
  | some length =>
    obtain ⟨hzero, hmax, hmasked⟩ := h.masked length rfl
    dsimp only at hmax hmasked
    have hbits : addressBits v4 ≤ 128 := by cases v4 <;> decide
    have hlength : (Nat.toDigits 10 length).length ≤ 3 :=
      (Nat.length_toDigits_le_iff (by omega) (by omega)).mpr (by omega)
    refine ⟨(addressText v4 address).toList, some (Nat.toDigits 10 length), ⟨?_, hv4, hvalid, ?_⟩, ?_⟩
    · rw [htrim]
      simp [Network.text]
    · intro digits hdigits
      cases hdigits
      rw [decimalValue_toDigits]
      exact ⟨Nat.toDigits_ne_nil, fun c hc => Nat.isDigit_of_mem_toDigits (by omega) (by omega) hc,
        hlength, hmax, hzero⟩
    · simp only [spelledNetwork]
      rw [hvalue, decimalValue_toDigits]
      simp only [hmasked]

/-- The record of an accepted text is that of its network. -/
theorem parse_eq {raw : String} (h : parseNetworkObservable raw = some net) :
    net = (networkOf raw).observable ∧ (networkOf raw).Canonical := by
  obtain ⟨v4, addr, digits?, hspelled⟩ := exists_spelled h
  rw [hspelled.parse] at h
  rw [hspelled.networkOf_eq]
  exact ⟨(Option.some.inj h).symm, hspelled.canonical⟩

/-- The text of a canonical network parses back to it. -/
theorem Network.Canonical.parse_text {w : Network} (h : w.Canonical) :
    parseNetworkObservable w.text = some w.observable ∧ networkOf w.text = w := by
  obtain ⟨addr, digits?, hspelled, heq⟩ := h.spelled
  rw [hspelled.parse, hspelled.networkOf_eq, heq]
  exact ⟨rfl, rfl⟩

/-- Values are equal exactly for equal networks, and a value is its own value. -/
theorem parseNetworkObservable_complete {raw raw' : String} {net' : NetworkObservable}
    (h : parseNetworkObservable raw = some net) (h' : parseNetworkObservable raw' = some net') :
    (net.identity.value = net'.identity.value ↔ networkOf raw = networkOf raw') ∧
      parseNetworkObservable net.identity.value = some net := by
  obtain ⟨rfl, hcanonical⟩ := parse_eq h
  obtain ⟨rfl, hcanonical'⟩ := parse_eq h'
  constructor
  · constructor
    · intro heq
      simp only [Network.observable] at heq
      rw [← hcanonical.parse_text.2, heq, hcanonical'.parse_text.2]
    · intro heq
      rw [heq]
  · have hvalue : (networkOf raw).observable.identity.value = (networkOf raw).text := by
      simp only [Network.observable]
    rw [hvalue]
    exact hcanonical.parse_text.1

section search

variable {raw : String}

/-- A value without colons is only trimmed and lowered. -/
theorem normalizeIocValue_of_colon (h : ':' ∉ (trim raw).toList) :
    normalizeIocValue raw = lowerCase (trim raw) := by
  unfold normalizeIocValue canonicalizeIpv6
  rw [trim_trim]
  simp [h]

/-- Each character but colons stands in a group. -/
theorem mem_group_of_expandGroups {groups : List (List Char)} (h : expandGroups v = some groups)
    (hc : c ∈ v) (hcolon : c ≠ ':') : ∃ part ∈ groups, c ∈ part := by
  have hparts : ∀ l : List Char, c ∈ l → ∃ part ∈ groupParts l, c ∈ part := fun l hl => by
    rw [← intercalate_groupParts l] at hl
    exact mem_of_mem_intercalate hl hcolon
  unfold expandGroups at h
  split at h
  · cases h
    exact hparts v hc
  · next left right hsplit =>
    split at h
    · cases h
    · dsimp only at h
      split at h
      · cases h
      · cases h
        rw [eq_of_splitDoubleColon hsplit] at hc
        simp only [mem_append, mem_cons, hcolon, false_or] at hc
        rcases hc with hc | hc
        · obtain ⟨part, hpart, hmem⟩ := hparts left hc
          exact ⟨part, by simp [hpart], hmem⟩
        · obtain ⟨part, hpart, hmem⟩ := hparts right hc
          exact ⟨part, by simp [hpart], hmem⟩

/-- A text with a character that no group has is left as it is. -/
theorem normalizeIocValue_of_char {c : Char} (hc : c ∈ (trim raw).toList) (hcolon : c ≠ ':')
    (hhex : isHexDigit c = false) (hbracket : (trim raw).toList.head? ≠ some '[')
    (hzone : '%' ∉ (trim raw).toList) : normalizeIocValue raw = lowerCase (trim raw) := by
  have hnone : canonicalizeIpv6 (trim raw) = none := by
    unfold canonicalizeIpv6
    rw [trim_trim]
    simp only [hbracket, decide_false, Bool.false_and, Bool.false_eq_true, if_false,
      takeWhile_ne_eq_self hzone]
    split
    · rfl
    · split
      · rfl
      · next groups hgroups =>
        obtain ⟨part, hpart, hmem⟩ := mem_group_of_expandGroups hgroups hc hcolon
        have hnot : groups.all isGroup = false := by
          by_contra hall
          exact not_mem_of_isGroup (all_eq_true.mp (Bool.of_not_eq_false hall) part hpart) hhex hmem
        simp [hnot]
  unfold normalizeIocValue
  rw [hnone]

/-- The groups of an address without a dotted tail. -/
theorem expandGroups_of_isIPv6 (h : isIPv6 v = true) (hdot : '.' ∉ v) :
    ∃ groups, expandGroups v = some groups ∧ groups.length = 8 ∧ groups.all isGroup = true ∧
      groups.map hexValue = ipv6Groups v := by
  have hgroups : ∀ {l : List Char} {k : ℕ}, (∀ c ∈ l, c ∈ v) → AcceptedParts (groupParts l) k →
      (∀ part ∈ groupParts l, isGroup part = true) ∧ k = (groupParts l).length := by
    intro l k hsub haccepted
    generalize hparts : groupParts l = parts at haccepted
    cases haccepted with
    | groups hgroups => exact ⟨hgroups, rfl⟩
    | dotted front quad hsplit hgroups hquad =>
      have hmem : quad ∈ groupParts l := by
        rw [hparts, hsplit]
        simp
      exact absurd (hsub '.' (mem_of_mem_groupParts hmem (dot_mem_of_isIPv4 hquad))) hdot
  unfold isIPv6 at h
  unfold expandGroups ipv6Groups
  cases hsplit : splitDoubleColon v with
  | none =>
    rw [hsplit] at h
    dsimp only at h
    rw [decide_eq_true_eq] at h
    obtain ⟨hall, hlength⟩ := hgroups (fun c hc => hc) (acceptedParts_of_groupCount h)
    exact ⟨groupParts v, rfl, hlength.symm, all_eq_true.mpr hall, by
      rw [groupValues_eq, flatMap_partValues hall]⟩
  | some parts =>
    obtain ⟨head, rest⟩ := parts
    rw [hsplit] at h
    dsimp only at h
    split at h
    · next m k hhead hrest =>
      rw [decide_eq_true_eq] at h
      have hv := eq_of_splitDoubleColon hsplit
      obtain ⟨hall, rfl⟩ := hgroups (fun c hc => by rw [hv]; simp [hc]) (acceptedParts_of_groupCount hhead)
      obtain ⟨hall', rfl⟩ := hgroups (fun c hc => by rw [hv]; simp [hc]) (acceptedParts_of_groupCount hrest)
      have hone : splitDoubleColon rest = none := by
        rw [← intercalate_groupParts rest]
        exact splitDoubleColon_intercalate fun part hpart => isPart_of_isGroup (hall' part hpart)
      have hzero : isGroup ['0'] = true ∧ hexValue ['0'] = 0 := by decide
      dsimp only
      rw [hone, Option.isSome_none, if_neg (by simp), if_neg (by omega)]
      refine ⟨_, rfl, ?_, ?_, ?_⟩
      · simp only [length_append, length_replicate]
        omega
      · simp only [all_append, all_eq_true.mpr hall, all_eq_true.mpr hall', all_replicate, hzero.1]
        simp
      · rw [groupValues_eq, groupValues_eq, flatMap_partValues hall, flatMap_partValues hall',
          map_append, map_append, map_replicate, hzero.2, length_map,
          length_map, Nat.sub_sub]
    · cases h

section

variable (h : isIPv6 (trim raw).toList = true) (hdot : '.' ∉ (trim raw).toList)
include h hdot

/-- The canonical text of an address in groups. -/
theorem canonicalizeIpv6_of_groups :
    canonicalizeIpv6 raw = some (groupsText (ipv6Groups (trim raw).toList)) := by
  obtain ⟨groups, hexpand, hlength, hall, hvalues⟩ := expandGroups_of_isIPv6 h hdot
  have hchars : ∀ c ∈ (trim raw).toList, IsAddressChar c := fun c hc => isAddressChar_of_isIPv6 h hc
  have hzone : '%' ∉ (trim raw).toList := not_mem_of_isAddressChar hchars (by decide)
  have hbracket : (trim raw).toList.head? ≠ some '[' := fun hhead =>
    not_mem_of_isAddressChar hchars (by decide) (mem_of_head? hhead)
  have hcolon := colon_mem_of_isIPv6 h
  unfold canonicalizeIpv6
  simp only [hbracket, decide_false, Bool.false_and, Bool.false_eq_true, if_false,
    takeWhile_ne_eq_self hzone, dropWhile_ne_eq_nil hzone, hexpand, hlength, hall]
  rw [hvalues, compressGroups_eq (ipv6Groups_of_isIPv6 h).1]
  simp [hcolon, lower]

/-- An address in groups is found under the text of its groups. -/
theorem normalizeIocValue_of_groups :
    (normalizeIocValue raw).toList = groupsText (ipv6Groups (trim raw).toList) := by
  unfold normalizeIocValue
  rw [canonicalizeIpv6_of_groups (by rwa [trim_trim]) (by rwa [trim_trim]), trim_trim,
    String.toList_ofList]

end

/-- Two texts with a slash are equal part by part. -/
theorem append_slash_inj {addr addr' digits' : List Char} (h : '/' ∉ addr) (h' : '/' ∉ addr') :
    addr ++ '/' :: digits = addr' ++ '/' :: digits' ↔ addr = addr' ∧ digits = digits' := by
  constructor
  · intro heq
    rw [append_eq_append_iff] at heq
    rcases heq with ⟨tail, rfl, htail⟩ | ⟨tail, rfl, htail⟩
    · cases tail with
      | nil => exact ⟨(append_nil _).symm, (List.cons.inj htail).2⟩
      | cons c tail =>
        obtain ⟨rfl, -⟩ := List.cons.inj htail
        exact absurd (mem_append_right _ mem_cons_self) h'
    · cases tail with
      | nil => exact ⟨append_nil _, (List.cons.inj htail).2.symm⟩
      | cons c tail =>
        obtain ⟨rfl, -⟩ := List.cons.inj htail
        exact absurd (mem_append_right _ mem_cons_self) h
  · rintro ⟨rfl, rfl⟩
    rfl

/-- A lowered text stays as it is. -/
theorem lower_lower (l : List Char) : ∀ c ∈ lower l, c.toLower = c := by
  intro c hc
  obtain ⟨d, -, rfl⟩ := mem_map.mp hc
  exact toLower_toLower d

/-- A text in lower case is the canonical text of an address exactly if the address is this one and is
written canonically. -/
theorem lower_eq_natToIpv6_iff {addr : List Char} (h : isIPv6 addr = true) (hn : n < 2 ^ 128) :
    lower addr = (natToIpv6 n).toList ↔ n = ipv6ToNat addr ∧ isCanonicalIpv6 (lower addr) = true := by
  obtain ⟨hvalid, hgroups⟩ := reads_lower h
  have hsame : ipv6ToNat (lower addr) = ipv6ToNat addr := by
    rw [ipv6ToNat_eq, hgroups, ipv6ToNat_eq]
  rw [isCanonicalIpv6_iff hvalid (lower_lower addr), hsame]
  constructor
  · intro heq
    have hread := (natToIpv6_reads hn).2
    rw [← heq, hsame] at hread
    rw [hread]
    exact ⟨rfl, heq⟩
  · rintro ⟨rfl, heq⟩
    exact heq

variable {v4 : Bool} {addr : List Char} {digits? : Option (List Char)}

/-- A spelled text does not open with a bracket. -/
theorem Spelled.bracket (h : Spelled raw v4 addr digits?) : (trim raw).toList.head? ≠ some '[' := by
  have hnot : '[' ∉ addr := not_mem_of_isAddressChar h.isAddressChar (by decide)
  rw [h.text_eq, head?_append_of_ne_nil _ h.addr_ne_nil]
  exact fun hhead => hnot (mem_of_head? hhead)

/-- A spelled text has no percent sign. -/
theorem Spelled.percent_not_mem (h : Spelled raw v4 addr digits?) : '%' ∉ (trim raw).toList := by
  have hnot : '%' ∉ addr := not_mem_of_isAddressChar h.isAddressChar (by decide)
  rw [h.text_eq, mem_append, not_or]
  refine ⟨hnot, fun hmem => ?_⟩
  cases hdigits : digits? with
  | none => rw [hdigits] at hmem; cases hmem
  | some digits =>
    rw [hdigits] at hmem
    rcases mem_cons.mp hmem with hc | hc
    · exact absurd hc (by decide)
    · exact absurd ((h.digits digits hdigits).2.1 _ hc) (by decide)

/-- The text of groups has no dotted tail. -/
theorem dot_not_mem_groupsText (groups : List ℕ) : '.' ∉ groupsText groups := by
  have hparts : ∀ groups : List ℕ, '.' ∉ [':'].intercalate (groups.map (Nat.toDigits 16)) := by
    intro groups hdot
    obtain ⟨part, hpart, hmem⟩ := mem_of_mem_intercalate hdot (by decide)
    obtain ⟨g, -, rfl⟩ := mem_map.mp hpart
    exact absurd (isHexDigit_of_mem_toDigits hmem).1 (by decide)
  unfold groupsText
  dsimp only
  split
  · exact hparts groups
  · rw [← map_take, ← map_drop, mem_append, mem_append, not_or, not_or]
    exact ⟨⟨hparts _, by decide⟩, hparts _⟩

/-- A host is found under its text, unless it is a mapped address in groups, or ends in a dotted quad
without being canonical. -/
theorem Spelled.search_host (h : Spelled raw v4 addr none) :
    normalizeIocValue raw = addressText v4 (addressValue v4 addr) ↔
      (v4 || if addr.contains '.' then isCanonicalIpv6 (lower addr)
        else !decide (IsMapped (ipv6Groups addr))) = true := by
  have htext : (trim raw).toList = addr := by
    rw [h.text_eq]
    simp
  have hlowerCase : ∀ {text : String}, normalizeIocValue raw = lowerCase (trim raw) →
      (normalizeIocValue raw = text ↔ lower addr = text.toList) := by
    intro text heq
    rw [heq, ← String.toList_inj, toList_lowerCase, htext]
    rfl
  cases v4 with
  | true =>
    have hcolon : ':' ∉ (trim raw).toList := by
      rw [htext]
      exact (isPart_of_isIPv4 h.isIPv4_eq).2
    simp only [addressText, addressValue, if_true, Bool.true_or, iff_true]
    rw [hlowerCase (normalizeIocValue_of_colon hcolon), lower_of_isIPv4 h.isIPv4_eq,
      natToIpv4_ipv4ToNat h.isIPv4_eq]
  | false =>
    simp only [addressText, addressValue, Bool.false_eq_true, if_false, Bool.false_or]
    by_cases hdot : '.' ∈ addr
    · rw [if_pos (contains_iff_mem.mpr hdot), hlowerCase (normalizeIocValue_of_char (htext ▸ hdot)
        (by decide) (by decide) h.bracket h.percent_not_mem),
        lower_eq_natToIpv6_iff h.isIPv6 (ipv6ToNat_lt h.isIPv6)]
      exact and_iff_right rfl
    · have hgroups : (normalizeIocValue raw).toList = groupsText (ipv6Groups (trim raw).toList) :=
        normalizeIocValue_of_groups (htext ▸ h.isIPv6) (htext ▸ hdot)
      rw [htext] at hgroups
      rw [if_neg (by simpa using hdot), ← String.toList_inj, hgroups, toList_natToIpv6,
        natGroups_ipv6ToNat h.isIPv6, Bool.not_eq_true', decide_eq_false_iff_not]
      split
      · next hmapped =>
        refine iff_of_false (fun heq => ?_) (fun hnot => hnot hmapped)
        refine dot_not_mem_groupsText (ipv6Groups addr) ?_
        rw [heq]
        exact mem_append_right _ (dot_mem_of_isIPv4 (isIPv4_natToIpv4 _))
      · next hmapped => exact iff_of_true rfl hmapped

/-- Different addresses are written differently. -/
theorem addressText_inj {v4 : Bool} {m : ℕ} (hm : m < 2 ^ addressBits v4)
    (hn : n < 2 ^ addressBits v4) (h : addressText v4 m = addressText v4 n) : m = n := by
  rw [← (addressText_reads hm).2.2, h, (addressText_reads hn).2.2]

/-- A network is found under its text, if this has no host bits, no leading zeros in its prefix length,
and a canonical address. -/
theorem Spelled.search_network (h : Spelled raw v4 addr (some digits)) :
    normalizeIocValue raw = (spelledNetwork v4 addr (some digits)).text ↔
      addressValue v4 addr % 2 ^ (addressBits v4 - decimalValue digits) = 0 ∧
        (digits.length = 1 ∨ digits.head? ≠ some '0') ∧ (v4 || isCanonicalIpv6 (lower addr)) = true := by
  obtain ⟨hne, hall, -⟩ := h.digits digits rfl
  have htext : (trim raw).toList = addr ++ '/' :: digits := h.text_eq
  have hslash : '/' ∈ (trim raw).toList := by
    rw [htext]
    simp
  have hlt := addressValue_lt h.isIPv4_eq h.valid
  have hmasklt : maskHostBits (addressBits v4) (decimalValue digits) (addressValue v4 addr) <
      2 ^ addressBits v4 := Nat.lt_of_le_of_lt (maskHostBits_le _ _ _) hlt
  have hdigits : lower digits = digits := by
    conv_rhs => rw [← map_id digits]
    refine map_congr_left fun c hc => ?_
    have hrange := toNat_of_isDigit (hall c hc)
    change c.toLower = c
    exact (toLower_eq_iff (by omega) (by omega)).mpr rfl
  have hleft : '/' ∉ lower addr := by
    intro hmem
    obtain ⟨c, hc, heq⟩ := mem_map.mp hmem
    obtain rfl : c = '/' := (toLower_eq_iff (by decide) (by decide)).mp heq
    exact not_mem_of_isAddressChar h.isAddressChar (by decide) hc
  have hright := slash_not_mem_addressText v4
    (maskHostBits (addressBits v4) (decimalValue digits) (addressValue v4 addr))
  have hvalue : normalizeIocValue raw = (spelledNetwork v4 addr (some digits)).text ↔
      lower addr = (addressText v4 (maskHostBits (addressBits v4) (decimalValue digits)
        (addressValue v4 addr))).toList ∧ digits = Nat.toDigits 10 (decimalValue digits) := by
    rw [normalizeIocValue_of_char hslash (by decide) (by decide) h.bracket h.percent_not_mem,
      ← String.toList_inj, toList_lowerCase, htext, ← append_slash_inj hleft hright]
    have hlower : lower (addr ++ '/' :: digits) = lower addr ++ '/' :: digits := by
      conv_rhs => rw [← hdigits]
      simp [lower]
    change lower (addr ++ '/' :: digits) = _ ↔ _
    rw [hlower]
    simp [spelledNetwork, Network.text]
  rw [hvalue, eq_comm (b := Nat.toDigits 10 (decimalValue digits)), toDigits_decimalValue_iff hne hall,
    ← maskHostBits_eq_iff]
  cases v4 with
  | true =>
    have haddr : (addressText true (addressValue true addr)).toList = addr := by
      simp only [addressText, addressValue, if_true]
      exact natToIpv4_ipv4ToNat h.isIPv4_eq
    have hsame : addr = (addressText true (maskHostBits (addressBits true) (decimalValue digits)
        (addressValue true addr))).toList ↔
        maskHostBits (addressBits true) (decimalValue digits) (addressValue true addr) =
          addressValue true addr := by
      refine ⟨fun heq => ?_, fun heq => by rw [heq, haddr]⟩
      conv_lhs at heq => rw [← haddr]
      exact (addressText_inj hlt hmasklt (String.toList_inj.mp heq)).symm
    rw [lower_of_isIPv4 h.isIPv4_eq, hsame]
    simp
  | false =>
    simp only [addressText, addressValue, addressBits, Bool.false_eq_true, if_false, Bool.false_or]
      at hmasklt ⊢
    rw [lower_eq_natToIpv6_iff h.isIPv6 hmasklt, and_assoc, and_congr_right_iff]
    exact fun _ => and_comm

/-- An accepted text without a zone is found under its value exactly if it is searchable. -/
theorem Spelled.search (h : Spelled raw v4 addr digits?) :
    normalizeIocValue raw = (spelledNetwork v4 addr digits?).text ↔ isSearchable raw = true := by
  have hzone : addr.contains '%' = false := by
    have hnot : '%' ∉ addr := not_mem_of_isAddressChar h.isAddressChar (by decide)
    simpa using hnot
  unfold isSearchable
  dsimp only
  rw [h.takeWhile_slash, h.isIPv4_eq, h.slash_mem, hzone]
  cases hdigits : digits? with
  | none =>
    subst hdigits
    simp only [Option.isSome_none, Bool.false_eq_true, if_false]
    exact h.search_host
  | some digits =>
    subst hdigits
    rw [h.drop_slash, h.search_network]
    simp only [Option.isSome_some, if_true, Bool.false_eq_true, if_false, Bool.and_eq_true,
      decide_eq_true_eq, Bool.or_eq_true, and_assoc]

/-- A zoned value fits 128 bits. -/
theorem zonedValue_lt (groups : List ℤ) : zonedValue groups < 2 ^ 128 := by
  unfold zonedValue
  omega

/-- What is stored for an address with a zone has no zone. -/
theorem percent_not_mem_zoned (h : parseZonedObservable raw = some net)
    (hzone : '%' ∈ (trim raw).toList.takeWhile (· ≠ '/')) : '%' ∉ net.identity.value.toList := by
  have hnot : ∀ w : Network, w.address < 2 ^ addressBits w.v4 → '%' ∉ w.text.toList := by
    intro w hw hmem
    rcases w.isAddressChar_text hw hmem with hchar | hslash
    · exact not_mem_of_isAddressChar (l := ['%']) (by simpa using hchar) (by decide) mem_cons_self
    · exact absurd hslash (by decide)
  have hlt : ∀ groups : List ℤ, zonedValue groups < 2 ^ addressBits false := by
    simpa [addressBits] using zonedValue_lt
  unfold parseZonedObservable at h
  rw [if_neg (by simpa using hzone)] at h
  split at h
  · cases h
  · obtain ⟨groups, -, hnet⟩ := Option.bind_eq_some_iff.mp h
    split at hnet
    · cases hnet
      exact hnot ⟨false, zonedValue groups, none⟩ (hlt groups)
    · unfold parseNetwork at hnet
      dsimp only at hnet
      split at hnet
      · cases hnet
      · cases hnet
        exact hnot ⟨false, _, some _⟩ (Nat.lt_of_le_of_lt (maskHostBits_le _ _ _) (hlt groups))

/-- The search keeps the zone. -/
theorem percent_mem_normalizeIocValue (h : '%' ∈ (trim raw).toList)
    (hbracket : (trim raw).toList.head? ≠ some '[') : '%' ∈ (normalizeIocValue raw).toList := by
  have hlower : ∀ {l : List Char}, '%' ∈ l → '%' ∈ lower l := fun hl =>
    mem_map.mpr ⟨'%', hl, by decide⟩
  unfold normalizeIocValue
  split
  · next ipv6 hsome =>
    unfold canonicalizeIpv6 at hsome
    rw [trim_trim] at hsome
    simp only [hbracket, decide_false, Bool.false_and, Bool.false_eq_true, if_false] at hsome
    split at hsome
    · cases hsome
    · split at hsome
      · cases hsome
      · split at hsome
        · cases hsome
        · cases hsome
          rw [String.toList_ofList]
          refine mem_append_right _ (hlower ?_)
          rw [← takeWhile_append_dropWhile (p := fun c : Char => decide (c ≠ '%'))
            (l := (trim raw).toList)] at h
          rcases mem_append.mp h with hmem | hmem
          · have hne := mem_takeWhile_imp hmem
            simp at hne
          · exact hmem
  · rw [toList_lowerCase]
    exact hlower (l := (trim raw).toList) h

section

variable (h : parseZonedObservable raw = some net)
include h

/-- A zoned text does not open with a bracket. -/
theorem head?_zoned (hzone : '%' ∈ (trim raw).toList.takeWhile (· ≠ '/')) :
    (trim raw).toList.head? ≠ some '[' := by
  unfold parseZonedObservable at h
  rw [if_neg (by simpa using hzone)] at h
  split at h
  · cases h
  · next hguard =>
    simp only [Bool.or_eq_true, Bool.not_eq_true', not_or, Bool.not_eq_false] at hguard
    have hzoned := hguard.2
    unfold isZonedIPv6 at hzoned
    simp only [Bool.and_eq_true] at hzoned
    have hbase := hzoned.1.1
    have hsub : ((trim raw).toList.takeWhile (· ≠ '/')).takeWhile (· ≠ '%') <+: (trim raw).toList :=
      (List.takeWhile_prefix _).trans (List.takeWhile_prefix _)
    obtain ⟨rest, hrest⟩ := hsub
    have hne : ((trim raw).toList.takeWhile (· ≠ '/')).takeWhile (· ≠ '%') ≠ [] := fun hnil => by
      rw [hnil] at hbase
      exact absurd hbase (by decide)
    rw [← hrest, head?_append_of_ne_nil _ hne]
    intro hhead
    exact not_mem_of_isAddressChar (fun c hc => isAddressChar_of_isIPv6 hbase hc) (by decide) (mem_of_head? hhead)

/-- An accepted text is found under its value exactly if it is searchable. -/
theorem search_iff : normalizeIocValue raw = net.identity.value ↔ isSearchable raw = true := by
  by_cases hzone : '%' ∈ (trim raw).toList.takeWhile (· ≠ '/')
  · have hmem := (takeWhile_subset _) hzone
    have hfound := percent_mem_normalizeIocValue hmem (head?_zoned h hzone)
    refine iff_of_false (fun heq => ?_) (fun hsearchable => ?_)
    · rw [heq] at hfound
      exact percent_not_mem_zoned h hzone hfound
    · unfold isSearchable at hsearchable
      rw [if_pos (contains_iff_mem.mpr hzone)] at hsearchable
      cases hsearchable
  · unfold parseZonedObservable at h
    rw [if_pos (by simpa using hzone)] at h
    obtain ⟨v4, addr, digits?, hspelled⟩ := exists_spelled h
    rw [(parse_eq h).1, hspelled.networkOf_eq]
    exact hspelled.search

/-- A searchable text has no zone. -/
theorem parse_of_searchable (hsearchable : isSearchable raw = true) :
    parseNetworkObservable raw = some net := by
  by_cases hzone : '%' ∈ (trim raw).toList.takeWhile (· ≠ '/')
  · unfold isSearchable at hsearchable
    rw [if_pos (contains_iff_mem.mpr hzone)] at hsearchable
    cases hsearchable
  · unfold parseZonedObservable at h
    rw [if_pos (by simpa using hzone)] at h
    exact h

end

/-- Zoned parsing extends the plain parser. -/
theorem parseZonedObservable_of_parse (h : parseNetworkObservable raw = some net) :
    parseZonedObservable raw = some net := by
  obtain ⟨v4, addr, digits?, hspelled⟩ := exists_spelled h
  have hnot : '%' ∉ addr := not_mem_of_isAddressChar hspelled.isAddressChar (by decide)
  unfold parseZonedObservable
  dsimp only
  rw [hspelled.takeWhile_slash, if_pos (by simpa using hnot)]
  exact h

/-- What is promised of two accepted texts: a spelling of a network is searched under the value of
every text of the same network, values are a complete invariant, and a value is its own value. -/
structure StoredIsSearched (raw raw' : String) (net net' : NetworkObservable) : Prop where
  search : ∀ text ∈ [(raw, net), (raw', net')], ∀ spelling ∈ [(raw, net), (raw', net')],
    networkOf spelling.1 = networkOf text.1 → normalizeIocValue spelling.1 = text.2.identity.value
  complete : net.identity.value = net'.identity.value ↔ networkOf raw = networkOf raw'
  fixed : parseZonedObservable net.identity.value = some net ∧
    parseZonedObservable net'.identity.value = some net'

theorem stored_searched_iff {raw raw' : String} {net net' : NetworkObservable}
    (h : parseZonedObservable raw = some net) (h' : parseZonedObservable raw' = some net') :
    StoredIsSearched raw raw' net net' ↔ isSearchable raw = true ∧ isSearchable raw' = true := by
  constructor
  · intro hpromise
    have hself := hpromise.search (raw, net) (by simp) (raw, net) (by simp) rfl
    have hself' := hpromise.search (raw', net') (by simp) (raw', net') (by simp) rfl
    exact ⟨(search_iff h).mp hself, (search_iff h').mp hself'⟩
  · rintro ⟨hsearchable, hsearchable'⟩
    have hparse := parse_of_searchable h hsearchable
    have hparse' := parse_of_searchable h' hsearchable'
    obtain ⟨hiff, hfixed⟩ := parseNetworkObservable_complete hparse hparse'
    obtain ⟨hiff', hfixed'⟩ := parseNetworkObservable_complete hparse' hparse
    refine ⟨fun text htext spelling hspelling hsame => ?_, hiff,
      parseZonedObservable_of_parse hfixed, parseZonedObservable_of_parse hfixed'⟩
    simp only [mem_cons, not_mem_nil, or_false] at htext hspelling
    rcases htext with rfl | rfl <;> rcases hspelling with rfl | rfl
    · exact (search_iff h).mpr hsearchable
    · rw [(search_iff h').mpr hsearchable']
      exact hiff'.mpr hsame
    · rw [(search_iff h).mpr hsearchable]
      exact hiff.mpr hsame
    · exact (search_iff h').mpr hsearchable'

/-- Two spellings of an address that are searched as they are stored. -/
theorem stored_searched_documented :
    StoredIsSearched "2001:0DB8::0001" "2001:db8:0:0::1" ⟨⟨"ipv6", "2001:db8::1"⟩, false⟩
      ⟨⟨"ipv6", "2001:db8::1"⟩, false⟩ :=
  (stored_searched_iff (by decide +kernel) (by decide +kernel)).mpr (by decide +kernel)

/-- A mapped address in groups is stored with a dotted quad and searched without one, and a network
with host bits is searched with them. -/
theorem mapped_not_searched :
    parseZonedObservable "::ffff:0102:0304" = some ⟨⟨"ipv6", "::ffff:1.2.3.4"⟩, false⟩ ∧
      normalizeIocValue "::ffff:0102:0304" = "::ffff:102:304" ∧
      parseZonedObservable "198.51.100.7/24" = some ⟨⟨"ip", "198.51.100.0/24"⟩, true⟩ ∧
      normalizeIocValue "198.51.100.7/24" = "198.51.100.7/24" := by
  decide

/-- The groups that a text denotes: eight parts, or fewer around a double colon, which stands for
zeros. -/
inductive DenotesGroups : List Char → List ℕ → Prop
  | full (parts : List (List Char)) (hlength : parts.length = 8)
      (hgroups : ∀ part ∈ parts, isGroup part = true) :
      DenotesGroups ([':'].intercalate parts) (parts.map hexValue)
  | shortened (left right : List (List Char)) (hlength : left.length + right.length < 8)
      (hleft : ∀ part ∈ left, isGroup part = true) (hright : ∀ part ∈ right, isGroup part = true) :
      DenotesGroups ([':'].intercalate left ++ ':' :: ':' :: [':'].intercalate right)
        ((left ++ List.replicate (8 - (left.length + right.length)) ['0'] ++ right).map hexValue)

/-- The groups of an input, which may stand in brackets. -/
def Denotes (value : String) (groups : List ℕ) : Prop :=
  let raw := (trim value).toList
  DenotesGroups (if raw.head? = some '[' && raw.getLast? = some ']' then raw.tail.dropLast else raw)
    groups

/-- A text denotes what the loop of `canonicalizeIpv6` makes of it. -/
theorem denotesGroups_iff : DenotesGroups v groups ↔ ∃ parts, expandGroups v = some parts ∧
    parts.length = 8 ∧ (∀ part ∈ parts, isGroup part = true) ∧ parts.map hexValue = groups := by
  have hisPart : ∀ {parts : List (List Char)}, (∀ part ∈ parts, isGroup part = true) →
      ∀ part ∈ parts, IsPart part := fun h part hpart => isPart_of_isGroup (h part hpart)
  constructor
  · intro h
    cases h with
    | full parts hlength hgroups =>
      refine ⟨parts, ?_, hlength, hgroups, rfl⟩
      unfold expandGroups
      rw [splitDoubleColon_intercalate (hisPart hgroups)]
      exact congrArg some (groupParts_intercalate (hisPart hgroups))
    | shortened left right hlength hleft hright =>
      refine ⟨_, ?_, ?_, ?_, rfl⟩
      · unfold expandGroups
        rw [splitDoubleColon_intercalate_append (hisPart hleft)]
        simp only [splitDoubleColon, Option.map_some, append_nil,
          splitDoubleColon_intercalate (hisPart hright), groupParts_intercalate (hisPart hleft),
          groupParts_intercalate (hisPart hright)]
        simp [hlength]
      · simp only [length_append, length_replicate]
        omega
      · intro part hpart
        simp only [mem_append, mem_replicate] at hpart
        rcases hpart with (hpart | ⟨-, rfl⟩) | hpart
        · exact hleft part hpart
        · decide
        · exact hright part hpart
  · rintro ⟨parts, hexpand, hlength, hgroups, rfl⟩
    unfold expandGroups at hexpand
    split at hexpand
    · cases hexpand
      have hfull := DenotesGroups.full (groupParts v) hlength hgroups
      rwa [intercalate_groupParts] at hfull
    · next left right hsplit =>
      split at hexpand
      · cases hexpand
      · dsimp only at hexpand
        split at hexpand
        · cases hexpand
        · cases hexpand
          have hshort := DenotesGroups.shortened (groupParts left) (groupParts right) (by omega)
            (fun part hpart => hgroups part (by simp [hpart]))
            (fun part hpart => hgroups part (by simp [hpart]))
          rwa [intercalate_groupParts, intercalate_groupParts, ← eq_of_splitDoubleColon hsplit] at hshort

/-- A text denotes one list of groups. -/
theorem DenotesGroups.unique {groups' : List ℕ} (h : DenotesGroups v groups)
    (h' : DenotesGroups v groups') : groups = groups' := by
  obtain ⟨parts, hexpand, -, -, rfl⟩ := denotesGroups_iff.mp h
  obtain ⟨parts', hexpand', -, -, rfl⟩ := denotesGroups_iff.mp h'
  rw [hexpand] at hexpand'
  rw [Option.some.inj hexpand']

/-- A value denotes one address. -/
theorem Denotes.unique {groups' : List ℕ} (h : Denotes raw groups) (h' : Denotes raw groups') :
    groups = groups' := by
  exact DenotesGroups.unique h h'

/-- Different groups are written differently. -/
theorem groupsText_inj {groups' : List ℕ} (hlength : groups.length = 8) (hlt : ∀ g ∈ groups, g < 2 ^ 16)
    (hlength' : groups'.length = 8) (hlt' : ∀ g ∈ groups', g < 2 ^ 16)
    (h : groupsText groups = groupsText groups') : groups = groups' := by
  rw [← (groupsText_reads hlength hlt).2, h, (groupsText_reads hlength' hlt').2]

/-- What `canonicalizeIpv6` accepts without a zone denotes groups, and gets the text of them. -/
theorem denotes_of_canonicalizeIpv6 (hzone : '%' ∉ (trim raw).toList)
    (h : canonicalizeIpv6 raw = some v) : ∃ groups, Denotes raw groups ∧ groups.length = 8 ∧
      (∀ g ∈ groups, g < 2 ^ 16) ∧ v = groupsText groups := by
  unfold canonicalizeIpv6 at h
  unfold Denotes
  dsimp only at h ⊢
  split at h
  · cases h
  · generalize hhead : (if (trim raw).toList.head? = some '[' && (trim raw).toList.getLast? = some ']' then
      (trim raw).toList.tail.dropLast else (trim raw).toList) = head at h ⊢
    have hnot : '%' ∉ head := by
      intro hmem
      rw [← hhead] at hmem
      split at hmem
      · exact hzone (mem_of_mem_tail (mem_of_mem_dropLast hmem))
      · exact hzone hmem
    rw [takeWhile_ne_eq_self hnot, dropWhile_ne_eq_nil hnot] at h
    split at h
    · cases h
    · next parts hexpand =>
      split at h
      · cases h
      · next hgroups =>
        simp only [Bool.or_eq_true, decide_eq_true_eq, Bool.not_eq_true', not_or, not_not,
          Bool.not_eq_false, all_eq_true] at hgroups
        have hlength : (parts.map hexValue).length = 8 := by rw [length_map, hgroups.1]
        refine ⟨parts.map hexValue, denotesGroups_iff.mpr ⟨parts, hexpand, hgroups.1, hgroups.2, rfl⟩,
          hlength, ?_, ?_⟩
        · intro g hg
          obtain ⟨part, hpart, rfl⟩ := mem_map.mp hg
          exact hexValue_lt (hgroups.2 part hpart)
        · rw [← Option.some.inj h, compressGroups_eq hlength]
          exact append_nil _

/-- The text of groups is canonical. -/
theorem canonicalizeIpv6_groupsText (hlength : groups.length = 8) (hlt : ∀ g ∈ groups, g < 2 ^ 16) :
    '%' ∉ (trim (String.ofList (groupsText groups))).toList ∧
      canonicalizeIpv6 (String.ofList (groupsText groups)) = some (groupsText groups) := by
  obtain ⟨hvalid, hgroups⟩ := groupsText_reads hlength hlt
  have hchars : ∀ c ∈ groupsText groups, IsAddressChar c := fun c hc => isAddressChar_of_isIPv6 hvalid hc
  have htrim : (trim (String.ofList (groupsText groups))).toList = groupsText groups := by
    rw [trim_eq_self fun c hc => isJsWhitespace_of_isAddressChar (hchars c (by simpa using hc)),
      String.toList_ofList]
  have hdot : '.' ∉ (trim (String.ofList (groupsText groups))).toList := fun hmem =>
    dot_not_mem_groupsText groups (htrim.subst hmem)
  have hcanonical := canonicalizeIpv6_of_groups ((congrArg isIPv6 htrim).trans hvalid) hdot
  rw [htrim, hgroups] at hcanonical
  exact ⟨fun hmem => not_mem_of_isAddressChar hchars (by decide) (htrim.subst hmem), hcanonical⟩

/-- Canonical texts are equal exactly for equal groups, and a canonical text is its own, of the same
groups. -/
theorem canonicalizeIpv6_complete {value value' : String} {c c' : List Char}
    (hzone : '%' ∉ (trim value).toList) (hzone' : '%' ∉ (trim value').toList)
    (h : canonicalizeIpv6 value = some c) (h' : canonicalizeIpv6 value' = some c') :
    (∃! groups, Denotes value groups) ∧
      (c = c' ↔ ∃ groups, Denotes value groups ∧ Denotes value' groups) ∧
      canonicalizeIpv6 (String.ofList c) = some c ∧
      ∀ groups, Denotes (String.ofList c) groups ↔ Denotes value groups := by
  obtain ⟨groups, hdenotes, hlength, hlt, rfl⟩ := denotes_of_canonicalizeIpv6 hzone h
  obtain ⟨groups', hdenotes', hlength', hlt', rfl⟩ := denotes_of_canonicalizeIpv6 hzone' h'
  obtain ⟨hfree, hfixed⟩ := canonicalizeIpv6_groupsText hlength hlt
  obtain ⟨again, hagain, hlengthAgain, hltAgain, htext⟩ := denotes_of_canonicalizeIpv6 hfree hfixed
  obtain rfl := groupsText_inj hlength hlt hlengthAgain hltAgain htext
  refine ⟨⟨groups, hdenotes, fun other hother => hother.unique hdenotes⟩, ⟨fun heq => ?_, ?_⟩, hfixed,
    fun other => ⟨fun hother => ?_, fun hother => ?_⟩⟩
  · obtain rfl := groupsText_inj hlength hlt hlength' hlt' heq
    exact ⟨groups, hdenotes, hdenotes'⟩
  · rintro ⟨other, hother, hother'⟩
    rw [hdenotes.unique hother, hdenotes'.unique hother']
  · obtain rfl := hother.unique hagain
    exact hdenotes
  · obtain rfl := hother.unique hdenotes
    exact hagain

/-- Two spellings of one address. -/
theorem canonicalizeIpv6_complete_documented : canonicalizeIpv6 "2001:db8::1" = some "2001:db8::1".toList := by
  have h := canonicalizeIpv6_complete
    (show '%' ∉ (trim "[2001:0DB8::0001]").toList by decide)
    (show '%' ∉ (trim "2001:db8:0:0:0:0:0:1").toList by decide)
    (show canonicalizeIpv6 "[2001:0DB8::0001]" = some "2001:db8::1".toList by decide)
    (show canonicalizeIpv6 "2001:db8:0:0:0:0:0:1" = some "2001:db8::1".toList by decide)
  exact h.2.2.1

end search

end TalonHound.Candidates
