import TalonHound.PublishedFeed.Text

/-!
# Exact file hashes

Normalisation of the hashes that identify a file, the notes of a provider record and the
choice of the primary hash.
-/

namespace TalonHound.FileArtifacts

/-- `EXACT_HASH_TYPES`. -/
inductive HashType where
  | md5 | sha1 | sha256
  deriving DecidableEq

/-- The text of a hash type. -/
def HashType.text : HashType → String
  | .md5 => "md5"
  | .sha1 => "sha1"
  | .sha256 => "sha256"

/-- `HASH_LENGTH_BY_TYPE`. -/
def hashLengthByType : HashType → ℕ
  | .md5 => 32
  | .sha1 => 40
  | .sha256 => 64

/-- `toLowerCase` on the letters of hash types and hexadecimal digits; no other character
has one of these as its lower-case form. -/
def lowerCase (s : String) : String := String.ofList (s.toList.map Char.toLower)

/-- Lower case moves the capital letters alone. -/
theorem toLower_cases (c : Char) :
    c.toLower = c ∧ ¬(65 ≤ c.toNat ∧ c.toNat ≤ 90) ∨
      65 ≤ c.toNat ∧ c.toNat ≤ 90 ∧ c.toLower.toNat = c.toNat + 32 := by
  unfold Char.toLower
  split
  · next h =>
    right
    have hhigh : c.val.toNat ≤ 90 := h.2
    refine ⟨h.1, hhigh, ?_⟩
    change (c.val + 32).toNat = c.val.toNat + 32
    rw [UInt32.toNat_add]
    simp only [UInt32.reduceToNat]
    omega
  · next h => exact .inl ⟨rfl, h⟩

theorem toLower_toLower (c : Char) : c.toLower.toLower = c.toLower := by
  rcases toLower_cases c with ⟨hsame, -⟩ | ⟨hlow, hhigh, hlower⟩
  · rw [hsame, hsame]
  · rcases toLower_cases c.toLower with ⟨hsame, -⟩ | ⟨-, hfar, -⟩
    · exact hsame
    · omega

@[simp] theorem toList_lowerCase (s : String) :
    (lowerCase s).toList = s.toList.map Char.toLower := by
  rw [lowerCase, String.toList_ofList]

/-- `HEX_RE`, for one character. -/
def isHexDigit (c : Char) : Bool :=
  (decide ('a' ≤ c) && decide (c ≤ 'f')) || (decide ('0' ≤ c) && decide (c ≤ '9'))

/-- The format that `file_artifact_hashes_value_format` demands of a value. -/
def IsHashValue (hashType : HashType) (value : String) : Prop :=
  value.toList.length = hashLengthByType hashType ∧ value.toList.all isHexDigit = true
  deriving Decidable

/-- A normalised exact hash. -/
structure ExactHash where
  hashType : HashType
  value : String
  isHashValue : IsHashValue hashType value
  deriving DecidableEq

/-- `normalizeHashType`, with the test for an exact type. -/
def normalizeHashType (type : String) : Option HashType :=
  let t := lowerCase (trim type)
  if t = "md5" then some .md5
  else if t = "sha1" then some .sha1
  else if t = "sha256" then some .sha256
  else none

/-- `normalizeHashValue`. -/
def normalizeHashValue (value : String) : String := lowerCase (trim value)

/-- `normalizeExactHash`. -/
def normalizeExactHash (hashType hashValue : String) : Option ExactHash :=
  (normalizeHashType hashType).bind fun type =>
    if h : IsHashValue type (normalizeHashValue hashValue) then some ⟨type, _, h⟩ else none

/-- The pairs of `parseNoteKeyValues`, in the order of the note. -/
def parseNoteKeyValues (note : String) : List (String × String) :=
  ((trim note).toList.splitOn '|').filterMap fun part =>
    let part := trimChars part
    let before := part.takeWhile (· ≠ '=')
    if before = [] ∨ before = part then none
    else
      let key := lowerCase (String.ofList (trimChars before))
      let value := String.ofList (trimChars (part.drop (before.length + 1)))
      if key = "" ∨ value = "" then none else some (key, value)

/-- The property of the parsed note: a key given twice keeps its last value. -/
def noteValue (note key : String) : Option String :=
  ((parseNoteKeyValues note).reverse.find? (·.1 = key)).map Prod.snd

/-- `found.set`: a hash that is already there keeps its place. -/
def addFound (found : List ExactHash) (hash : ExactHash) : List ExactHash :=
  if hash ∈ found then found else found ++ [hash]

/-- `extractExactHashesFromNote` for a record whose own hash is `primary`. -/
def extractExactHashesFromNote (primary : ExactHash) (note : String) : List ExactHash :=
  ([HashType.md5, .sha1, .sha256].filterMap fun type =>
    (noteValue note type.text).bind (normalizeExactHash type.text)).foldl addFound [primary]

/-- `extractNonIdentityAttrsFromNote`. -/
def extractNonIdentityAttrsFromNote (note : String) : List (String × String) :=
  ["imphash", "tlsh", "ssdeep"].filterMap fun type => (noteValue note type).map (type, ·)

/-- `PRIMARY_HASH_PRIORITY`. -/
def primaryHashPriority : List HashType := [.sha256, .sha1, .md5]

/-- `primaryPriorityRank`. -/
def primaryPriorityRank : HashType → ℕ
  | .sha256 => 0
  | .sha1 => 1
  | .md5 => 2

/-- `selectPrimaryHash` on rows with a hash type; the fallback to the first row is out of
reach, since every row has one of the three types. -/
def selectPrimaryHash {ρ : Type*} (hashType : ρ → HashType) (rows : List ρ) : Option ρ :=
  (primaryHashPriority.findSome? fun preferred =>
    rows.find? fun row => decide (hashType row = preferred)) <|> rows.head?

section SelectPrimaryHash

variable {ρ : Type*} {hashType : ρ → HashType} {rows : List ρ} {row : ρ}

/-- There is a primary hash exactly when there is a hash. -/
theorem selectPrimaryHash_eq_none : selectPrimaryHash hashType rows = none ↔ rows = [] := by
  cases rows with
  | nil => simp [selectPrimaryHash, primaryHashPriority]
  | cons r rows => simp [selectPrimaryHash]

/-- The primary hash is one of the rows, and none of them has a better rank. -/
theorem selectPrimaryHash_spec (h : selectPrimaryHash hashType rows = some row) :
    row ∈ rows ∧
      ∀ r ∈ rows, primaryPriorityRank (hashType row) ≤ primaryPriorityRank (hashType r) := by
  have hfind : ∀ preferred, rows.find? (fun r => decide (hashType r = preferred)) = none →
      ∀ r ∈ rows, hashType r ≠ preferred := by
    intro preferred hnone r hr
    simpa using List.find?_eq_none.mp hnone r hr
  have hsome : ∀ preferred, rows.find? (fun r => decide (hashType r = preferred)) = some row →
      row ∈ rows ∧ hashType row = preferred := by
    intro preferred hrow
    exact ⟨List.mem_of_find?_eq_some hrow, by simpa using List.find?_some hrow⟩
  unfold selectPrimaryHash primaryHashPriority at h
  cases h256 : rows.find? (fun r => decide (hashType r = .sha256)) with
  | some r =>
    obtain rfl : r = row := by simpa [h256] using h
    obtain ⟨hmem, htype⟩ := hsome _ h256
    exact ⟨hmem, fun r _ => by rw [htype]; exact Nat.zero_le _⟩
  | none =>
    have hno256 := hfind _ h256
    cases h1 : rows.find? (fun r => decide (hashType r = .sha1)) with
    | some r =>
      obtain rfl : r = row := by simpa [h256, h1] using h
      obtain ⟨hmem, htype⟩ := hsome _ h1
      refine ⟨hmem, fun r hr => ?_⟩
      rw [htype]
      cases hr' : hashType r with
      | sha256 => exact absurd hr' (hno256 r hr)
      | sha1 => exact le_refl _
      | md5 => decide
    | none =>
      have hno1 := hfind _ h1
      have hmem : row ∈ rows := by
        cases hmd5 : rows.find? (fun r => decide (hashType r = .md5)) with
        | some r =>
          obtain rfl : r = row := by simpa [h256, h1, hmd5] using h
          exact (hsome _ hmd5).1
        | none =>
          have hhead : rows.head? = some row := by simpa [h256, h1, hmd5] using h
          exact List.mem_of_mem_head? hhead
      refine ⟨hmem, fun r hr => ?_⟩
      have hmd5 : ∀ x ∈ rows, hashType x = .md5 := by
        intro x hx
        cases hx' : hashType x with
        | sha256 => exact absurd hx' (hno256 x hx)
        | sha1 => exact absurd hx' (hno1 x hx)
        | md5 => rfl
      rw [hmd5 row hmem, hmd5 r hr]

end SelectPrimaryHash

/-- A record's list of hashes has no hash twice, and starts with its own. -/
theorem extractExactHashesFromNote_spec (primary : ExactHash) (note : String) :
    (extractExactHashesFromNote primary note).Nodup ∧
      ∃ rest, extractExactHashesFromNote primary note = primary :: rest := by
  have hfold : ∀ (more found : List ExactHash), found.Nodup → (∃ rest, found = primary :: rest) →
      (more.foldl addFound found).Nodup ∧ ∃ rest, more.foldl addFound found = primary :: rest := by
    intro more
    induction more with
    | nil => exact fun found hnodup hhead => ⟨hnodup, hhead⟩
    | cons hash more ih =>
      rintro found hnodup ⟨rest, rfl⟩
      rw [List.foldl_cons]
      unfold addFound
      by_cases hmem : hash ∈ primary :: rest
      · rw [if_pos hmem]
        exact ih _ hnodup ⟨rest, rfl⟩
      · rw [if_neg hmem]
        apply ih
        · exact List.nodup_append.mpr ⟨hnodup, List.nodup_singleton _, by
            intro a ha b hb
            obtain rfl := List.mem_singleton.mp hb
            rintro rfl
            exact hmem ha⟩
        · exact ⟨rest ++ [hash], rfl⟩
  exact hfold _ _ (List.nodup_singleton _) ⟨[], rfl⟩

end TalonHound.FileArtifacts
