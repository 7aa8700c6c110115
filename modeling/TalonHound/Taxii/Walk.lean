import TalonHound.Library.OffsetWalk
import TalonHound.Library.Run

/-!
# TAXII envelopes

`taxii21.js`: the objects of a collection as they are loaded from the current generation or
snapshot of the feed, the cursor and the page of one request.
-/

namespace TalonHound.Taxii

/-- The title and the description of an error response. -/
structure TaxiiError where
  code : String
  status : ℕ
  (title description : String)

/-- `TAXII_OBJECTS_DEFAULT_LIMIT`. -/
def objectsDefaultLimit : ℕ := 100

/-- `TAXII_OBJECTS_MAX_LIMIT`. -/
def objectsMaxLimit : ℕ := 1000

/-- `TAXII_PARSE_MAX_BYTES`. -/
def parseMaxBytes : ℕ := 32 * 1024 * 1024

/-- The text of a cursor: base64url of a JSON object with the offset. -/
structure CursorCodec where
  encode : ℕ → String
  decode : String → Option ℕ
  decode_encode : ∀ n, decode (encode n) = some n
  encode_ne_empty : ∀ n, encode n ≠ ""

/-- `decodeTaxiiCursor`. -/
def decodeTaxiiCursor (codec : CursorCodec) (raw : Option String) : Except String ℕ :=
  match raw with
  | none => .ok 0
  | some text =>
    if text = "" then .ok 0
    else
      match codec.decode text with
      | none => .error "Invalid next cursor"
      | some o => .ok o

/-- An encoded offset decodes to itself. -/
theorem decodeTaxiiCursor_encode (codec : CursorCodec) (n : ℕ) :
    decodeTaxiiCursor codec (some (codec.encode n)) = .ok n := by
  unfold decodeTaxiiCursor
  dsimp only
  rw [if_neg (codec.encode_ne_empty n), codec.decode_encode]

/-- `parseTaxiiLimit`; `none` for an absent parameter, and an integer for its `Number`. -/
def parseTaxiiLimit (raw : Option ℤ) : Except String ℕ :=
  match raw with
  | none => .ok objectsDefaultLimit
  | some n =>
    if n ≤ 0 then .error "limit must be a positive integer"
    else .ok (min n.toNat objectsMaxLimit)

/-- An envelope. -/
structure Envelope (ω : Type) where
  objects : List ω
  more : Bool
  next : Option String

/-- `lim` of `pageTaxiiObjects`. -/
def pageLimit (limit : ℕ) : ℕ :=
  min (max 1 (if limit = 0 then objectsDefaultLimit else limit)) objectsMaxLimit

/-- `pageTaxiiObjects`. -/
def pageTaxiiObjects {ω : Type} (codec : CursorCodec) (objects : List ω) (limit : ℕ)
    (next : Option String) : Except String (Envelope ω) :=
  match decodeTaxiiCursor codec next with
  | .error e => .error e
  | .ok offset =>
    let slice := (objects.drop offset).take (pageLimit limit)
    let more := offset + slice.length < objects.length
    .ok ⟨slice, more, if more then some (codec.encode (offset + slice.length)) else none⟩

/-- The active chunk generation: `none` for a chunk file that cannot be read. -/
structure ChunkGeneration where
  byteLength : ℕ
  (header separator footer : String)
  chunks : List (Option String)

/-- The file of a snapshot: its size and its text; `none` where the file is missing. -/
structure ArtifactFile where
  size : ℕ
  text : String

/-- Where the content of a snapshot is. -/
inductive SnapshotContent where
  /-- `none` where the artifact or its file is missing. -/
  | file (artifact : Option ArtifactFile)
  | inline (content : Option String)

/-- The latest snapshot. -/
structure Snapshot where
  contentBytes : Option ℕ
  content : SnapshotContent

/-- What is stored of a feed in the format STIX. -/
structure StixSource where
  /-- Chunks are enabled for the feed and its window is `all`. -/
  chunked : Bool
  generation : Option ChunkGeneration
  snapshot : Option Snapshot

/-- The error of a source above the size cap. -/
def snapshotTooLarge : TaxiiError :=
  ⟨"SNAPSHOT_TOO_LARGE", 413, "Payload Too Large", "STIX snapshot exceeds the TAXII pagination " ++
    "size cap; use the Published Feed STIX pull instead"⟩

/-- The error of a source that cannot be read. -/
def unavailable (code description : String) : TaxiiError :=
  ⟨code, 503, "Service Unavailable", description⟩

/-- The error of a feed without a snapshot. -/
def noSnapshot : TaxiiError :=
  ⟨"NO_SNAPSHOT", 404, "Resource Not Found", "Collection has no STIX snapshot yet"⟩

section Load

-- `parseStixBundleObjects`; `none` where it throws.
variable {ω : Type} (parse : String → Option (List ω))

/-- The text of a chunk generation. -/
def ChunkGeneration.text (generation : ChunkGeneration) (chunks : List String) : String :=
  generation.header ++ String.intercalate generation.separator chunks ++ generation.footer

/-- The objects of a chunk generation. -/
def ChunkGeneration.load (generation : ChunkGeneration) : Except TaxiiError (List ω) :=
  if parseMaxBytes < generation.byteLength then .error snapshotTooLarge
  else
    match generation.chunks.mapM id with
    | none =>
      .error (unavailable "SNAPSHOT_UNAVAILABLE" "STIX snapshot is momentarily unavailable")
    | some chunks =>
      match parse (generation.text chunks) with
      | none =>
        .error (unavailable "SNAPSHOT_UNAVAILABLE" "STIX snapshot is momentarily unavailable")
      | some objects => .ok objects

/-- The objects of a text. -/
def loadText (text : String) : Except TaxiiError (List ω) :=
  match parse text with
  | none => .error (unavailable "INVALID_STIX_BUNDLE" "STIX snapshot could not be parsed")
  | some objects => .ok objects

/-- The objects of a snapshot. -/
def Snapshot.load (snapshot : Snapshot) : Except TaxiiError (List ω) :=
  if snapshot.contentBytes.any fun bytes => parseMaxBytes < bytes then .error snapshotTooLarge
  else
    match snapshot.content with
    | .file none =>
      .error (unavailable "ARTIFACT_MISSING" "STIX snapshot is momentarily unavailable")
    | .file (some artifact) =>
      if parseMaxBytes < artifact.size then .error snapshotTooLarge
      else loadText parse artifact.text
    | .inline none => .error noSnapshot
    | .inline (some content) =>
      if content = "" then .error noSnapshot
      else if parseMaxBytes < content.utf8ByteSize then .error snapshotTooLarge
      else loadText parse content

/-- `loadStixObjectsFromFeed`. -/
def loadStixObjectsFromFeed (source : StixSource) : Except TaxiiError (List ω) :=
  match source.chunked, source.generation with
  | true, some generation => generation.load parse
  | _, _ =>
    match source.snapshot with
    | none => .error noSnapshot
    | some snapshot => snapshot.load parse

end Load

/-!
## Walking a collection while it regenerates

A client follows `next` until `more` is false, and between its requests the stored generation of
the feed may be replaced. An object of all generations is missed only where a regeneration moves it
from behind the cursor to the front of it.
-/

/-- The feed and the client. -/
structure WalkState (ω : Type) where
  source : StixSource
  /-- The cursor that the client sends next. -/
  next : Option String
  /-- The last envelope said that there is no more. -/
  finished : Bool
  /-- The answered requests, each with the objects that were loaded for it. -/
  reads : List (OffsetRead ω)

/-- What happens in a walk. -/
inductive WalkAction where
  /-- The feed is regenerated. -/
  | regenerate (source : StixSource)
  /-- The client asks for a page; `none` for a request without a limit. -/
  | request (limit : Option ℤ)

section Walk

variable {ω : Type} (parse : String → Option (List ω)) (codec : CursorCodec)

/-- The objects route, from the client's cursor: the read it makes, and the envelope. -/
def objectsRoute (source : StixSource) (limit : Option ℤ) (next : Option String) :
    Option (OffsetRead ω × Envelope ω) :=
  match parseTaxiiLimit limit, loadStixObjectsFromFeed parse source with
  | .ok value, .ok objects =>
    match decodeTaxiiCursor codec next, pageTaxiiObjects codec objects value next with
    | .ok offset, .ok envelope => some (⟨objects, offset, pageLimit value⟩, envelope)
    | _, _ => none
  | _, _ => none

/-- One step. A request that is answered with an error leaves the client where it is, and a
finished client makes no more requests. -/
def walkStep (s : WalkState ω) : WalkAction → Option (WalkState ω)
  | .regenerate source => some { s with source := source }
  | .request limit =>
    if s.finished then none
    else
      match objectsRoute parse codec s.source limit s.next with
      | none => some s
      | some (read, envelope) => some { s with
          next := envelope.next
          finished := !envelope.more
          reads := s.reads ++ [read] }

/-- A walk begins without a cursor. -/
def WalkState.start (source : StixSource) : WalkState ω := ⟨source, none, false, []⟩

variable {parse codec} {s s' : WalkState ω} {source : StixSource} {limit : Option ℤ}
  {next : Option String} {read : OffsetRead ω} {envelope : Envelope ω} {a : WalkAction}

/-- What an answered request says: the page from the cursor on, and the cursor after it. -/
theorem objectsRoute_eq_some (h : objectsRoute parse codec source limit next = some (read, envelope)) :
    decodeTaxiiCursor codec next = .ok read.offset ∧ envelope.objects = read.page ∧
      (envelope.more = false → read.ahead = []) ∧
      (envelope.more = true → envelope.next = some (codec.encode read.next)) := by
  unfold objectsRoute at h
  split at h
  · next value objects _ _ =>
    split at h
    · next offset envelope' hoffset hpage =>
      obtain ⟨rfl, rfl⟩ := Prod.mk.inj (Option.some.inj h)
      unfold pageTaxiiObjects at hpage
      rw [hoffset] at hpage
      obtain rfl := Except.ok.inj hpage
      refine ⟨hoffset, rfl, fun hmore => ?_, fun hmore => ?_⟩
      · refine List.drop_eq_nil_of_le ?_
        exact not_lt.mp (of_decide_eq_false hmore)
      · exact if_pos (of_decide_eq_true hmore)
    · cases h
  · cases h

/-- The reads follow each other from the start, and the cursor is the offset after the last. -/
structure WalkInv (codec : CursorCodec) (s : WalkState ω) : Prop where
  follows : s.reads.IsChain OffsetRead.Follows
  first : ∀ r ∈ s.reads.head?, r.offset = 0
  cursor : s.finished = false →
    decodeTaxiiCursor codec s.next = .ok ((s.reads.getLast?.map OffsetRead.next).getD 0)
  complete : s.finished = true → ∃ r ∈ s.reads.getLast?, r.ahead = []

/-- A walk starts within its invariant. -/
theorem walkInv_start : WalkInv codec (WalkState.start source : WalkState ω) where
  follows := .nil
  first := by simp [WalkState.start]
  cursor := fun _ => rfl
  complete := fun h => by cases h

/-- A step keeps the invariant. -/
theorem WalkInv.step (h : WalkInv codec s) (hstep : walkStep parse codec s a = some s') :
    WalkInv codec s' := by
  cases a with
  | regenerate source =>
    cases hstep
    exact ⟨h.follows, h.first, h.cursor, h.complete⟩
  | request limit =>
    unfold walkStep at hstep
    dsimp only at hstep
    split at hstep
    · cases hstep
    · next hunfinished =>
      have hopen : s.finished = false := by simpa using hunfinished
      split at hstep
      · cases hstep
        exact h
      · next read envelope hroute =>
        cases hstep
        obtain ⟨hdecode, -, hlast, hmore⟩ := objectsRoute_eq_some hroute
        have hoffset : read.offset = (s.reads.getLast?.map OffsetRead.next).getD 0 := by
          have hcursor := h.cursor hopen
          rw [hdecode] at hcursor
          exact Except.ok.inj hcursor
        have hgetLast : (s.reads ++ [read]).getLast? = some read := List.getLast?_concat
        refine ⟨?_, ?_, ?_, ?_⟩
        · refine List.isChain_append.mpr ⟨h.follows, List.isChain_singleton _, ?_⟩
          intro r hr r' hr'
          cases hr'
          change read.offset = r.next
          rw [hoffset, Option.mem_def.mp hr]
          rfl
        · intro r hr
          cases hreads : s.reads with
          | nil =>
            rw [hreads] at hr hoffset
            cases hr
            exact hoffset
          | cons r₀ rest =>
            rw [hreads] at hr
            refine h.first r ?_
            rw [hreads]
            exact hr
        · intro hopen'
          have hmore' : envelope.more = true := by simpa using hopen'
          rw [hmore hmore', hgetLast]
          exact decodeTaxiiCursor_encode codec _
        · intro hclosed
          have hmore' : envelope.more = false := by simpa using hclosed
          exact ⟨read, hgetLast, hlast hmore'⟩

/-- An object that no read moves back over is on a page. -/
theorem WalkInv.served {object : ω} (hinv : WalkInv codec s) (hfinished : s.finished = true)
    (hall : ∀ r ∈ s.reads, object ∈ r.items)
    (hkeeps : s.reads.IsChain (OffsetRead.KeepsAhead object)) :
    ∃ r ∈ s.reads, object ∈ r.page := by
  obtain ⟨last, hlast, hahead⟩ := hinv.complete hfinished
  have hfirst := hinv.first
  cases hreads : s.reads with
  | nil =>
    rw [hreads] at hlast
    cases hlast
  | cons r rest =>
    rw [hreads] at hkeeps hlast hall hfirst
    have hlast' : (r :: rest).getLast (List.cons_ne_nil _ _) = last := by
      rw [List.getLast?_eq_some_getLast (List.cons_ne_nil _ _)] at hlast
      exact Option.some.inj hlast
    rw [← hlast'] at hahead
    exact OffsetRead.mem_page_of_complete (hfirst r rfl) hahead hkeeps (hall r List.mem_cons_self)

/-- The invariant holds along a walk. -/
theorem walkInv_of_run {actions : List WalkAction}
    (hrun : Run (walkStep parse codec) (fun _ _ => True) (WalkState.start source) actions s) :
    WalkInv codec s :=
  Run.invariant (fun _ _ _ h _ hstep => h.step hstep) hrun walkInv_start

/-- A finished walk has brought every object that all its generations have and that no
regeneration moves from behind the cursor to the front of it. -/
theorem object_of_all_generations_served {actions : List WalkAction} {object : ω}
    (hrun : Run (walkStep parse codec) (fun _ _ => True) (WalkState.start source) actions s)
    (hfinished : s.finished = true) (hall : ∀ r ∈ s.reads, object ∈ r.items)
    (hkeeps : s.reads.IsChain (OffsetRead.KeepsAhead object)) :
    ∃ r ∈ s.reads, object ∈ r.page :=
  (walkInv_of_run hrun).served hfinished hall hkeeps

/-- A finished walk over generations that only add objects has brought every object that all of
them have. -/
theorem object_served_of_additions {actions : List WalkAction} {object : ω}
    (hrun : Run (walkStep parse codec) (fun _ _ => True) (WalkState.start source) actions s)
    (hfinished : s.finished = true) (hall : ∀ r ∈ s.reads, object ∈ r.items)
    (hadds : s.reads.IsChain fun r r' => r.items.Sublist r'.items) :
    ∃ r ∈ s.reads, object ∈ r.page := by
  have hinv := walkInv_of_run hrun
  exact hinv.served hfinished hall (OffsetRead.keepsAhead_of_additions hinv.follows hadds)

end Walk

/-- Cursors as the text of their JSON object. -/
def jsonCursor : CursorCodec where
  encode := fun n => String.ofList ("\x7b\"o\":".toList ++ (Nat.toDigits 10 n ++ ['\x7d']))
  decode := fun text =>
    if text.toList.take 5 = "\x7b\"o\":".toList then
      some (Nat.ofDigitChars 10 (text.toList.drop 5).dropLast 0)
    else none
  decode_encode := by
    intro n
    have hdigits : ("\x7b\"o\":".toList ++ (Nat.toDigits 10 n ++ ['\x7d'])).drop 5 =
        Nat.toDigits 10 n ++ ['\x7d'] := rfl
    have hhead : ("\x7b\"o\":".toList ++ (Nat.toDigits 10 n ++ ['\x7d'])).take 5 =
        "\x7b\"o\":".toList := rfl
    rw [String.toList_ofList, if_pos hhead, hdigits, List.dropLast_concat]
    exact congrArg some (Nat.ofDigitChars_toDigits (by omega) (by omega))
  encode_ne_empty := by
    intro n hempty
    have hlist := congrArg String.toList hempty
    rw [String.toList_ofList] at hlist
    cases hlist

/-- A feed with an inline snapshot, one letter for each object. -/
def letters (text : String) : StixSource := ⟨false, none, some ⟨none, .inline (some text)⟩⟩

/-- An addition between two pages. -/
theorem object_of_all_generations_served_addition : ∃ s : WalkState Char,
    s.finished = true ∧ ∃ r ∈ s.reads, 'b' ∈ r.page := by
  have hrun := Run.of_isSome (by decide +kernel :
    (Run.exec (walkStep (fun text => some text.toList) jsonCursor) (fun _ _ => True)
      (WalkState.start (letters "ab"))
      [.request (some 1), .regenerate (letters "xab"), .request (some 5)]).isSome)
  exact ⟨_, by decide +kernel, object_of_all_generations_served hrun (by decide +kernel)
    (by decide +kernel) (by decide +kernel)⟩

/-- The first object is removed after the first page, and the second one is never served. -/
theorem object_missed_after_removal :
    ¬ ∀ (ω : Type) (parse : String → Option (List ω)) (codec : CursorCodec) (source : StixSource)
        (actions : List WalkAction) (s : WalkState ω) (object : ω),
      Run (walkStep parse codec) (fun _ _ => True) (WalkState.start source) actions s →
      s.finished = true → (∀ r ∈ s.reads, object ∈ r.items) → ∃ r ∈ s.reads, object ∈ r.page := by
  intro hclaim
  have hrun := Run.of_isSome (by decide +kernel :
    (Run.exec (walkStep (fun text => some text.toList) jsonCursor) (fun _ _ => True)
      (WalkState.start (letters "abc"))
      [.request (some 1), .regenerate (letters "bc"), .request (some 1)]).isSome)
  have hserved := hclaim _ _ _ _ _ _ 'b' hrun (by decide +kernel) (by decide +kernel)
  revert hserved
  decide +kernel

end TalonHound.Taxii
