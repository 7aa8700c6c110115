import Mathlib.Algebra.GroupWithZero.Nat
import Mathlib.Algebra.Order.BigOperators.Group.List
import TalonHound.PublishedFeed.Text

/-!
# Chunks of a report for the model

A report is cut into chunks of blocks, and each chunk becomes one prompt with its text and its
candidates. The chunks lose no block. A prompt holds only so many characters of report text and so
many candidates, and the last chunk has no bound.
-/

namespace TalonHound.ReportAnalysis

open List

/-- A text, character by character. -/
abbrev Text := List Char

/-- The length of a JavaScript string. -/
def utf16Length (text : Text) : ℕ := (text.map fun c => if c.toNat < 0x10000 then 1 else 2).sum

/-- `lines.join("\n")`. -/
def joinLines (lines : List Text) : Text := List.intercalate ['\n'] lines

/-- The zones of `annotateDocumentZones`. -/
inductive Zone
  | reportBody | explicitIocSection | c2Section | sampleTable | operationalInfrastructure
  | delegatedIocScope | referenceSection | sourceMetadata | headerFooter | navigation | vendorAbout
  | code | unknown
  deriving DecidableEq

/-- A canonical block, with the zone that the annotation may have given it. -/
structure Block where
  (id type text : String)
  page : Option ℕ
  layout : Option String
  zone : Option Zone
  deriving DecidableEq

/-- A canonical document. -/
structure Document where
  title : String
  language : Option String
  blocks : List Block
  zonesAnnotated : Bool

/-- `annotateDocumentZones`, which gives every block a zone and keeps the blocks' ids. -/
structure Annotator where
  annotateDocumentZones : Document → Document
  ids : ∀ document, (annotateDocumentZones document).blocks.map Block.id = document.blocks.map Block.id

/-- The marker of a block and its text, on one line. -/
def blockLine (b : Block) : Text :=
  let page := match b.page with
    | none => ""
    | some page => "|p" ++ toString page
  ("[" ++ b.id ++ "|" ++ b.type ++ page ++ "] " ++ b.text).toList

/-- What a line takes up with its separator. -/
def lineSize (b : Block) : ℕ := utf16Length (blockLine b) + 1

/-- The lines that fit, up to the first one that does not. -/
def flattenLines (maxChars : ℕ) : ℕ → List Block → List Text
  | _, [] => []
  | used, b :: rest =>
    if used + lineSize b > maxChars then []
    else blockLine b :: flattenLines maxChars (used + lineSize b) rest

/-- The lines that fit, joined. -/
def flattenCanonicalText (maxChars : ℕ) (blocks : List Block) : Text :=
  joinLines (flattenLines maxChars 0 blocks)

/-- The closed chunks, and the one being filled. -/
structure ChunkState where
  chunks : List (List Block)
  current : List Block
  size : ℕ

/-- Closes the chunk, unless it is empty. -/
def ChunkState.flush (s : ChunkState) : ChunkState :=
  if s.current = [] then s else ⟨s.chunks ++ [s.current], [], 0⟩

/-- The loop body: a full chunk is closed while another one is allowed after it. -/
def chunkBlock (maxChars maxChunks : ℕ) (s : ChunkState) (b : Block) : ChunkState :=
  let len := utf16Length b.text.toList + 32
  let s := if s.current ≠ [] ∧ s.size + len > maxChars ∧ s.chunks.length < maxChunks - 1 then s.flush
    else s
  { s with current := s.current ++ [b], size := s.size + len }

/-- The blocks in chunks, in document order. -/
def chunkCanonicalDocument (maxChars maxChunks : ℕ) (blocks : List Block) : List (List Block) :=
  (blocks.foldl (chunkBlock maxChars maxChunks) ⟨[], [], 0⟩).flush.chunks

/-- Zones that never reach the model as body text. -/
def nonSemanticZones : List Zone := [.headerFooter, .navigation, .sourceMetadata, .vendorAbout]

/-- Not of a zone above, no list of references, not blank. -/
def isSemanticBlock (b : Block) : Bool :=
  let zone := b.zone.getD .reportBody
  !nonSemanticZones.contains zone &&
    !(zone = .referenceSection && (b.type = "list_item" || b.layout = some "observable_row")) &&
      trim b.text ≠ ""

/-- The blocks worth the model's attention. -/
def selectSemanticBlocks (env : Annotator) (document : Document) : List Block :=
  let annotated := if document.zonesAnnotated then document else env.annotateDocumentZones document
  annotated.blocks.filter isSemanticBlock

/-- `max_input_chars` and the largest number of chunks, with 0 where they are absent. -/
structure ChunkOptions where
  (maxInputChars maxChunks : ℤ)
  semanticOnly : Bool

/-- The size at which a chunk is full, within fixed bounds. -/
def ChunkOptions.charsPerChunk (opts : ChunkOptions) : ℕ :=
  let maxInputChars := max (if opts.maxInputChars = 0 then 120000 else opts.maxInputChars) 4000
  (min 14000 (max 4000 (maxInputChars - 8000))).toNat

/-- At most this many chunks. -/
def ChunkOptions.chunkCount (opts : ChunkOptions) : ℕ :=
  (min (max (if opts.maxChunks = 0 then 24 else opts.maxChunks) 1) 40).toNat

/-- A chunk with its index. -/
structure Chunk where
  index : ℕ
  blocks : List Block
  deriving DecidableEq

/-- The ids that the prompt allows. -/
def Chunk.blockIds (chunk : Chunk) : List String :=
  (chunk.blocks.map Block.id).filter (· ≠ "")

/-- The blocks to analyze: the semantic ones, or all when there are none. -/
def analysisBlocks (env : Annotator) (document : Document) (opts : ChunkOptions) : List Block :=
  let semantic := if opts.semanticOnly then selectSemanticBlocks env document else document.blocks
  if semantic = [] then document.blocks else semantic

/-- The chunks of an analysis, numbered. -/
def buildAnalysisChunks (env : Annotator) (document : Document) (opts : ChunkOptions) :
    List Chunk :=
  (chunkCanonicalDocument opts.charsPerChunk opts.chunkCount
    (analysisBlocks env document opts)).mapIdx fun index blocks => ⟨index, blocks⟩

/-- A candidate; `blockId` and the blocks of its occurrences may be missing. -/
structure Candidate where
  candidateId : Option String
  (candidateType normalizedValue : String)
  isIoc : Option Bool
  aiNeeded : Bool
  (assessment sourceAssertion blockId : Option String)
  occurrences : List (Option String)

/-- The blocks where a candidate was seen. -/
def candidateBlockIds (c : Candidate) : List String :=
  ((c.blockId :: c.occurrences).filterMap id).filter (· ≠ "")

/-- The candidate occurs in the chunk; one that is placed nowhere belongs to the first chunk. -/
def isPlaced (chunk : Chunk) (isFirst : Bool) (c : Candidate) : Bool :=
  if candidateBlockIds c = [] then isFirst
  else (candidateBlockIds c).any fun id => chunk.blockIds.contains id

/-- The candidates placed in a chunk. -/
def candidatesForChunk (candidates : List Candidate) (chunk : Chunk) (isFirst : Bool) :
    List Candidate :=
  candidates.filter (isPlaced chunk isFirst)

/-- The candidates to classify, and those resolved already. -/
structure Partition where
  (toClassify explicit resolvedOther : List Candidate)

/-- Candidates that are no indicators are left out, unless they name a vulnerability or a
technique. -/
def isAiRelevant (c : Candidate) : Bool :=
  !(c.isIoc = some false && c.candidateType ≠ "cve" && c.candidateType ≠ "attack_technique")

/-- The report itself says that this is an indicator. -/
def isExplicit (c : Candidate) : Bool :=
  c.assessment = some "malicious" || c.sourceAssertion = some "explicit_ioc" ||
    c.sourceAssertion = some "explicit_c2" ||
      c.sourceAssertion = some "explicit_operational_infrastructure"

/-- Only the first part is asked about. -/
def partitionCandidatesForAi (candidates : List Candidate) : Partition :=
  let relevant := candidates.filter isAiRelevant
  let resolved := relevant.filter fun c => !c.aiNeeded
  ⟨relevant.filter Candidate.aiNeeded, resolved.filter isExplicit,
    resolved.filter fun c => !isExplicit c⟩

/-- What a chunk prompt is made of. -/
structure PromptInput where
  (chunkIndex chunkTotal : ℕ)
  documentTitle : String
  (language sourceHost : Option String)
  blockIds : List String
  blocksText : Text
  (toClassify resolved : List Candidate)
  compactRecovery : Bool

/-- The wording of a prompt: its instructions, and the lines of candidates. -/
structure Wording where
  instructions : PromptInput → List Text
  (formatCandidateEvidenceLine formatResolvedCandidateLine : Candidate → Text)

/-- The candidates that the prompt asks about. -/
def PromptInput.listed (input : PromptInput) : List Candidate := input.toClassify.take 250

/-- `text || default`. -/
def orElse (text : Text) (default : String) : Text := if text = [] then default.toList else text

/-- The prompt up to the report text. -/
def promptHead (wording : Wording) (input : PromptInput) : List Text :=
  wording.instructions input ++
    ["".toList, ("DOCUMENT TITLE: " ++ input.documentTitle).toList,
      "DETECTED LANGUAGE HINT: ".toList ++ orElse (input.language.getD "").toList "unknown",
      "REPORT SOURCE HOST (provenance, not automatically an IOC): ".toList ++
        orElse (input.sourceHost.getD "").toList "unknown",
      "Allowed block ids: ".toList ++
        orElse (List.intercalate ", ".toList (input.blockIds.map String.toList)) "(none)",
      "".toList,
      "=== BEGIN UNTRUSTED REPORT CHUNK DATA ===".toList]

/-- The prompt between the report text and the candidates to classify. -/
def promptContext (wording : Wording) (input : PromptInput) : List Text :=
  let resolved := joinLines ((input.resolved.take 300).map wording.formatResolvedCandidateLine)
  ["=== END UNTRUSTED REPORT CHUNK DATA ===".toList, "".toList,
    "=== RESOLVED INDICATORS (deterministic report evidence — do not reclassify) ===".toList,
    orElse resolved "(none)",
    "=== END RESOLVED ===".toList,
    "".toList,
    "=== TO CLASSIFY (body mentions needing semantic judgement) ===".toList]

/-- The lines of the candidates to classify. -/
def promptCandidates (wording : Wording) (input : PromptInput) : Text :=
  orElse (joinLines (input.listed.map wording.formatCandidateEvidenceLine))
    "(none — return an empty candidate_updates array)"

/-- The prompt of a chunk. -/
def buildChunkPrompt (wording : Wording) (input : PromptInput) : Text :=
  joinLines (promptHead wording input ++ input.blocksText :: promptContext wording input ++
    promptCandidates wording input :: ["=== END TO CLASSIFY ===".toList])

/-- What is sent for a chunk. -/
structure ChunkRequest where
  input : PromptInput
  user : Text
  refinableResolved : ℕ

/-- The report text of a prompt, at most 100 000 characters. -/
def chunkText (chunk : Chunk) : Text := flattenCanonicalText 100000 chunk.blocks

/-- Resolved candidates are shown as context, in bounded number. -/
def buildChunkRequest (wording : Wording) (document : Document) (sourceHost : Option String)
    (compactRecovery : Bool) (partition : Partition) (chunkTotal : ℕ) (chunk : Chunk) :
    ChunkRequest :=
  let isFirst : Bool := chunk.index = 0
  let resolved := partition.explicit.take 80 ++
    (candidatesForChunk partition.resolvedOther chunk false).take 40
  let input : PromptInput := {
    chunkIndex := chunk.index
    chunkTotal := chunkTotal
    documentTitle := document.title
    language := document.language
    sourceHost := sourceHost
    blockIds := chunk.blockIds
    blocksText := chunkText chunk
    toClassify := candidatesForChunk partition.toClassify chunk isFirst
    resolved := resolved
    compactRecovery := compactRecovery }
  { input
    user := buildChunkPrompt wording input
    refinableResolved := resolved.countP fun c =>
      c.assessment ≠ some "context_only" && c.assessment ≠ some "invalid" }

variable {env : Annotator} {document : Document} {opts : ChunkOptions} {wording : Wording}
  {chunk : Chunk} {b : Block} {blocks : List Block} {c : Candidate} {maxChars maxChunks used : ℕ}
  {lines lines' : List Text} {line : Text} {s : ChunkState}

/-- The blocks that the loop has passed. -/
def ChunkState.passed (s : ChunkState) : List Block := s.chunks.flatten ++ s.current

/-- Closing a chunk loses no block. -/
theorem ChunkState.passed_flush : s.flush.passed = s.passed := by
  unfold flush
  split
  · rfl
  · simp [passed]

/-- After closing, the chunks hold every block passed. -/
theorem ChunkState.flatten_flush : s.flush.chunks.flatten = s.passed := by
  unfold flush
  split
  · next hnone => simp [passed, hnone]
  · simp [passed]

/-- One step of the loop passes one block. -/
theorem passed_chunkBlock : (chunkBlock maxChars maxChunks s b).passed = s.passed ++ [b] := by
  unfold chunkBlock
  dsimp only
  split
  · have hflush := ChunkState.passed_flush (s := s)
    simp only [ChunkState.passed] at hflush ⊢
    rw [← append_assoc, hflush]
  · simp [ChunkState.passed]

/-- The loop passes all blocks, in order. -/
theorem passed_foldl : (blocks.foldl (chunkBlock maxChars maxChunks) s).passed = s.passed ++ blocks := by
  induction blocks generalizing s with
  | nil => simp
  | cons b blocks ih => rw [foldl_cons, ih, passed_chunkBlock, append_assoc,
      singleton_append]

/-- The chunks together are the document. -/
theorem flatten_chunkCanonicalDocument :
    (chunkCanonicalDocument maxChars maxChunks blocks).flatten = blocks := by
  rw [chunkCanonicalDocument, ChunkState.flatten_flush, passed_foldl]
  rfl

/-- The numbered chunks are the blocks to analyze. -/
theorem flatMap_buildAnalysisChunks : (buildAnalysisChunks env document opts).flatMap Chunk.blocks =
      analysisBlocks env document opts := by
  have hchunks : (chunkCanonicalDocument opts.charsPerChunk opts.chunkCount
      (analysisBlocks env document opts)).flatten = analysisBlocks env document opts :=
    flatten_chunkCanonicalDocument
  have hblocks (chunks : List (List Block)) :
      (chunks.mapIdx fun index blocks => (⟨index, blocks⟩ : Chunk)).map Chunk.blocks = chunks := by
    refine ext_getElem? fun i => ?_
    rw [getElem?_map, getElem?_mapIdx, Option.map_map]
    exact Option.map_id'
  rw [flatMap_def, buildAnalysisChunks, hblocks, hchunks]

/-- The blocks of an annotated document have the ids of the document. -/
theorem nodup_analysisBlocks (hids : (document.blocks.map Block.id).Nodup) :
    (analysisBlocks env document opts).Nodup := by
  have hdocument : document.blocks.Nodup := hids.of_map _
  have hsemantic : (selectSemanticBlocks env document).Nodup := by
    refine List.Nodup.filter _ ?_
    split
    · exact hdocument
    · exact List.Nodup.of_map _ (by rw [env.ids]; exact hids)
  have hselected : (if opts.semanticOnly then selectSemanticBlocks env document
      else document.blocks).Nodup := by
    split
    · exact hsemantic
    · exact hdocument
  unfold analysisBlocks
  dsimp only
  generalize (if opts.semanticOnly then selectSemanticBlocks env document
    else document.blocks) = selected at hselected
  split
  · exact hdocument
  · exact hselected

/-- Joining two non-empty lists of lines. -/
theorem joinLines_append (hlines : lines ≠ []) (hlines' : lines' ≠ []) :
    joinLines (lines ++ lines') = joinLines lines ++ '\n' :: joinLines lines' := by
  induction lines with
  | nil => exact absurd rfl hlines
  | cons l rest ih =>
    cases rest with
    | nil =>
      obtain ⟨l', rest', rfl⟩ := exists_cons_of_ne_nil hlines'
      simp [joinLines, List.intercalate]
    | cons l' rest' =>
      have hrest := ih (by simp)
      simp only [joinLines, List.intercalate, cons_append, intersperse_cons_cons,
        flatten_cons] at hrest ⊢
      rw [hrest]
      simp

/-- A line stands in full in the text of the lines. -/
theorem infix_joinLines (hline : line ∈ lines) : line <:+: joinLines lines := by
  obtain ⟨before, after, rfl⟩ := append_of_mem hline
  have hafter : line <:+: joinLines (line :: after) := by
    cases after with
    | nil => simp [joinLines, List.intercalate]
    | cons l rest =>
      rw [← singleton_append, joinLines_append (by simp) (by simp)]
      have hsingle : joinLines [line] = line := by simp [joinLines, List.intercalate]
      rw [hsingle]
      exact (prefix_append _ _).isInfix
  cases before with
  | nil => exact hafter
  | cons l rest =>
    rw [joinLines_append (by simp) (by simp)]
    exact hafter.trans ⟨joinLines (l :: rest) ++ ['\n'], [], by simp⟩

/-- A text of fewer lines is another text, where no line is empty. -/
theorem joinLines_append_ne (hlines : ∀ l ∈ lines', l ≠ []) (hlines' : lines' ≠ []) :
    joinLines (lines ++ lines') ≠ joinLines lines := by
  cases lines with
  | nil =>
    obtain ⟨l, rest, rfl⟩ := exists_cons_of_ne_nil hlines'
    intro heq
    have hinfix : l <:+: joinLines [] := heq ▸ infix_joinLines (by simp)
    exact hlines l (by simp) (eq_nil_of_infix_nil hinfix)
  | cons l rest =>
    rw [joinLines_append (by simp) hlines']
    intro heq
    have hlength := congrArg List.length heq
    simp at hlength

/-- The line of a block is not empty. -/
theorem blockLine_ne_nil : blockLine b ≠ [] := by
  simp [blockLine]

/-- The lines are those of a first part of the blocks. -/
theorem flattenLines_prefix : ∃ shown hidden, blocks = shown ++ hidden ∧
      flattenLines maxChars used blocks = shown.map blockLine := by
  induction blocks generalizing used with
  | nil => exact ⟨[], [], rfl, rfl⟩
  | cons b rest ih =>
    unfold flattenLines
    split
    · exact ⟨[], b :: rest, rfl, rfl⟩
    · obtain ⟨shown, hidden, hrest, hlines⟩ := @ih (used + lineSize b)
      exact ⟨b :: shown, hidden, by rw [hrest, cons_append], by rw [hlines, map_cons]⟩

/-- All lines fit when their sizes do. -/
theorem flattenLines_eq_iff (hused : used ≤ maxChars) :
    flattenLines maxChars used blocks = blocks.map blockLine ↔
      used + (blocks.map lineSize).sum ≤ maxChars := by
  induction blocks generalizing used with
  | nil => simpa [flattenLines] using hused
  | cons b rest ih =>
    rw [flattenLines, map_cons, map_cons, sum_cons]
    split
    · next hover =>
      refine ⟨fun heq => ?_, fun hle => ?_⟩
      · cases heq
      · omega
    · next hfits =>
      rw [cons_inj_right, ih (by omega)]
      omega

/-- No line is cut exactly when all of them fit. -/
theorem flattenCanonicalText_eq_iff :
    flattenCanonicalText maxChars blocks = joinLines (blocks.map blockLine) ↔
      (blocks.map lineSize).sum ≤ maxChars := by
  have hlines : flattenLines maxChars 0 blocks = blocks.map blockLine ↔
      0 + (blocks.map lineSize).sum ≤ maxChars := flattenLines_eq_iff (Nat.zero_le maxChars)
  rw [Nat.zero_add] at hlines
  rw [← hlines]
  refine ⟨fun heq => ?_, fun heq => congrArg joinLines heq⟩
  obtain ⟨shown, hidden, hblocks, hshown⟩ : ∃ shown hidden, blocks = shown ++ hidden ∧
      flattenLines maxChars 0 blocks = shown.map blockLine := flattenLines_prefix
  rw [flattenCanonicalText, hshown, hblocks, map_append] at heq
  rw [hshown, hblocks]
  cases hidden with
  | nil => rw [append_nil]
  | cons b rest =>
    refine absurd heq.symm (joinLines_append_ne ?_ (by simp))
    intro l hl
    obtain ⟨b', -, rfl⟩ := mem_map.mp hl
    exact blockLine_ne_nil

/-- The first elements with a property are those with few of them before. -/
theorem mem_take_filter_iff {α : Type*} {p : α → Bool} {l : List α} {n : ℕ} {x : α} :
    x ∈ (l.filter p).take n ↔ ∃ i, l[i]? = some x ∧ p x ∧ ((l.take i).filter p).length < n := by
  induction l generalizing n with
  | nil => simp
  | cons a l ih =>
    constructor
    · intro hx
      by_cases ha : p a
      · rw [filter_cons_of_pos ha] at hx
        cases n with
        | zero => simp at hx
        | succ n =>
          rw [take_succ_cons] at hx
          rcases mem_cons.mp hx with rfl | hx
          · exact ⟨0, rfl, ha, by simp⟩
          · obtain ⟨i, hi, hpx, hlt⟩ := ih.mp hx
            refine ⟨i + 1, hi, hpx, ?_⟩
            rw [take_succ_cons, filter_cons_of_pos ha, length_cons]
            omega
      · rw [filter_cons_of_neg ha] at hx
        obtain ⟨i, hi, hpx, hlt⟩ := ih.mp hx
        refine ⟨i + 1, hi, hpx, ?_⟩
        rwa [take_succ_cons, filter_cons_of_neg ha]
    · rintro ⟨i, hi, hpx, hlt⟩
      cases i with
      | zero =>
        obtain rfl : a = x := Option.some.inj hi
        rw [filter_cons_of_pos hpx]
        cases n with
        | zero => simp at hlt
        | succ n => simp
      | succ i =>
        rw [take_succ_cons] at hlt
        by_cases ha : p a
        · rw [filter_cons_of_pos ha] at hlt ⊢
          cases n with
          | zero => simp at hlt
          | succ n =>
            rw [length_cons] at hlt
            rw [take_succ_cons]
            exact mem_cons_of_mem _ (ih.mpr ⟨i, hi, hpx, by omega⟩)
        · rw [filter_cons_of_neg ha] at hlt ⊢
          exact ih.mpr ⟨i, hi, hpx, hlt⟩

/-- One run of the analysis. -/
structure Analysis where
  env : Annotator
  wording : Wording
  document : Document
  opts : ChunkOptions
  candidates : List Candidate
  sourceHost : Option String
  compactRecovery : Bool

namespace Analysis

variable {a : Analysis}

/-- The chunks of the analysis. -/
def chunks (a : Analysis) : List Chunk := buildAnalysisChunks a.env a.document a.opts

/-- The candidates that it asks about. -/
def toClassify (a : Analysis) : List Candidate := (partitionCandidatesForAi a.candidates).toClassify

/-- The request for one of its chunks. -/
def request (a : Analysis) (chunk : Chunk) : ChunkRequest :=
  buildChunkRequest a.wording a.document a.sourceHost a.compactRecovery
    (partitionCandidatesForAi a.candidates) a.chunks.length chunk

/-- The prompts of the chunks hold every block once and ask about every candidate. -/
structure Covers (a : Analysis) : Prop where
  blocks : a.chunks.flatMap Chunk.blocks = analysisBlocks a.env a.document a.opts
  nodup : (a.chunks.flatMap Chunk.blocks).Nodup
  text : ∀ chunk ∈ a.chunks,
    (a.request chunk).input.blocksText = joinLines (chunk.blocks.map blockLine)
  shown : ∀ chunk ∈ a.chunks, ∀ b ∈ chunk.blocks, blockLine b <:+: (a.request chunk).user
  listed : ∀ c ∈ a.toClassify, ∃ chunk ∈ a.chunks, c ∈ (a.request chunk).input.listed ∧
    a.wording.formatCandidateEvidenceLine c <:+: (a.request chunk).user

/-- The lines of a chunk's blocks take up at most 100 000 characters. -/
def Fits (a : Analysis) : Prop := ∀ chunk ∈ a.chunks, (chunk.blocks.map lineSize).sum ≤ 100000

/-- A candidate is placed in a chunk, after fewer than 250 others of the chunk. -/
def Reaches (a : Analysis) : Prop :=
  ∀ c ∈ a.toClassify, ∃ chunk ∈ a.chunks, ∃ i, a.toClassify[i]? = some c ∧
    isPlaced chunk (chunk.index = 0) c ∧
      (candidatesForChunk (a.toClassify.take i) chunk (chunk.index = 0)).length < 250

/-- A chunk is sent whole exactly when its lines fit the prompt. -/
theorem text_eq_iff :
    (a.request chunk).input.blocksText = joinLines (chunk.blocks.map blockLine) ↔
      (chunk.blocks.map lineSize).sum ≤ 100000 :=
  flattenCanonicalText_eq_iff

/-- What stands in the report text of a prompt stands in the prompt. -/
theorem infix_user_of_text (h : line <:+: (a.request chunk).input.blocksText) :
    line <:+: (a.request chunk).user := by
  refine h.trans (infix_joinLines ?_)
  simp only [mem_append, mem_cons]
  exact .inl (.inr (.inl rfl))

/-- What the prompt asks about stands in it. -/
theorem infix_user_of_listed (h : c ∈ (a.request chunk).input.listed) :
    a.wording.formatCandidateEvidenceLine c <:+: (a.request chunk).user := by
  have hline : a.wording.formatCandidateEvidenceLine c <:+:
      joinLines ((a.request chunk).input.listed.map a.wording.formatCandidateEvidenceLine) :=
    infix_joinLines (mem_map_of_mem h)
  have hpart : a.wording.formatCandidateEvidenceLine c <:+:
      promptCandidates a.wording (a.request chunk).input := by
    unfold promptCandidates orElse
    split
    · next hempty =>
      rw [hempty] at hline
      rw [eq_nil_of_infix_nil hline]
      exact nil_infix
    · exact hline
  refine hpart.trans (infix_joinLines ?_)
  simp only [mem_append, mem_cons]
  exact .inr (.inl rfl)

/-- A candidate is listed while fewer than 250 precede it in its chunk. -/
theorem mem_listed_iff : c ∈ (a.request chunk).input.listed ↔ ∃ i, a.toClassify[i]? = some c ∧
    isPlaced chunk (chunk.index = 0) c ∧
      (candidatesForChunk (a.toClassify.take i) chunk (chunk.index = 0)).length < 250 :=
  mem_take_filter_iff

/-- The prompts cover the report when every chunk fits and every candidate is reached, and only
then. -/
theorem covers_iff (hids : (a.document.blocks.map Block.id).Nodup) :
    a.Covers ↔ a.Fits ∧ a.Reaches := by
  constructor
  · intro h
    refine ⟨fun chunk hchunk => text_eq_iff.mp (h.text chunk hchunk), fun c hc => ?_⟩
    obtain ⟨chunk, hchunk, hlisted, -⟩ := h.listed c hc
    exact ⟨chunk, hchunk, mem_listed_iff.mp hlisted⟩
  · rintro ⟨hfits, hreaches⟩
    have hblocks : a.chunks.flatMap Chunk.blocks = analysisBlocks a.env a.document a.opts :=
      flatMap_buildAnalysisChunks
    have htext : ∀ chunk ∈ a.chunks,
        (a.request chunk).input.blocksText = joinLines (chunk.blocks.map blockLine) :=
      fun chunk hchunk => text_eq_iff.mpr (hfits chunk hchunk)
    refine ⟨hblocks, by rw [hblocks]; exact nodup_analysisBlocks hids, htext,
      fun chunk hchunk b hb => infix_user_of_text ?_, fun c hc => ?_⟩
    · rw [htext chunk hchunk]
      exact infix_joinLines (mem_map_of_mem hb)
    · obtain ⟨chunk, hchunk, hposition⟩ := hreaches c hc
      have hlisted := mem_listed_iff.mpr hposition
      exact ⟨chunk, hchunk, hlisted, infix_user_of_listed hlisted⟩

/-- A report that is annotated already, with plain candidate lines. -/
def annotated (blocks : List Block) (candidates : List Candidate) : Analysis where
  env := ⟨id, fun _ => rfl⟩
  wording := ⟨fun _ => [], fun c => c.normalizedValue.toList, fun c => c.normalizedValue.toList⟩
  document := ⟨"Report", none, blocks, true⟩
  opts := ⟨0, 0, true⟩
  candidates := candidates
  sourceHost := none
  compactRecovery := false

/-- A paragraph of a zone. -/
def paragraph (id text : String) (zone : Zone) : Block :=
  ⟨id, "paragraph", text, none, none, some zone⟩

/-- A domain that the model must classify. -/
def mentioned (value : String) (blockId : Option String) : Candidate :=
  ⟨none, "domain", value, none, true, none, none, blockId, []⟩

/-- A body paragraph with a page footer, and a domain in the paragraph. -/
def shortReport : Analysis :=
  annotated [paragraph "b1" "Beacons to c2.example" .reportBody, paragraph "b2" "Page 1" .headerFooter]
    [mentioned "c2.example" (some "b1")]

/-- A report of one paragraph is covered. -/
theorem covers_iff_shortReport : shortReport.Covers := by
  have hchunks : shortReport.chunks =
      [⟨0, [paragraph "b1" "Beacons to c2.example" .reportBody]⟩] := by decide +kernel
  refine (covers_iff (by decide +kernel)).mpr ⟨?_, fun c hc => ?_⟩
  · unfold Fits
    rw [hchunks]
    decide +kernel
  · obtain rfl := mem_singleton.mp hc
    rw [hchunks]
    exact ⟨_, mem_singleton_self _, 0, rfl, by decide +kernel, by decide +kernel⟩

/-- One paragraph of 100 000 characters. -/
def longParagraph : Block :=
  paragraph "b1" (String.ofList (List.replicate 100000 'x')) .reportBody

/-- The domain stands in the page footer. -/
def footerReport : Analysis :=
  annotated [paragraph "b1" "A report" .reportBody, paragraph "b2" "c2.example" .headerFooter]
    [mentioned "c2.example" (some "b2")]

/-- Characters count once or twice. -/
theorem length_le_utf16Length (text : Text) : text.length ≤ utf16Length text := by
  induction text with
  | nil => simp [utf16Length]
  | cons c text ih =>
    simp only [utf16Length, map_cons, sum_cons, length_cons] at ih ⊢
    split <;> omega

/-- A line is longer than its text. -/
theorem length_lt_lineSize (b : Block) : b.text.toList.length < lineSize b := by
  have hlength := length_le_utf16Length (blockLine b)
  have htext : b.text.toList.length ≤ (blockLine b).length := by
    unfold blockLine
    rw [String.toList_append, length_append]
    omega
  unfold lineSize
  omega

/-- A report of one block is cut into one block. -/
theorem analysisBlocks_singleton (b : Block) :
    analysisBlocks (annotated [b] []).env (annotated [b] []).document (annotated [b] []).opts =
      [b] := by
  have hselected : selectSemanticBlocks (annotated [b] []).env (annotated [b] []).document =
      [b].filter isSemanticBlock := rfl
  unfold analysisBlocks
  rw [hselected, filter_singleton]
  cases isSemanticBlock b with
  | true => rfl
  | false => rfl

/-- A long paragraph is missing from its prompt, and a domain of a dropped block is in none. -/
theorem long_paragraph_missing : ¬ (annotated [longParagraph] []).Covers ∧ ¬ footerReport.Covers := by
  refine ⟨fun h => ?_, fun h => ?_⟩
  · have hmem : longParagraph ∈ (annotated [longParagraph] []).chunks.flatMap Chunk.blocks := by
      rw [h.blocks, analysisBlocks_singleton]
      exact mem_singleton_self _
    obtain ⟨chunk, hchunk, hin⟩ := mem_flatMap.mp hmem
    have hfits := text_eq_iff.mp (h.text chunk hchunk)
    have hsize := single_le_sum (fun _ _ => Nat.zero_le _) _ (mem_map_of_mem (f := lineSize) hin)
    have hlong : longParagraph.text.toList.length = 100000 := by
      rw [show longParagraph.text = String.ofList (List.replicate 100000 'x') from rfl,
        String.toList_ofList, length_replicate]
    have hline := length_lt_lineSize longParagraph
    omega
  · obtain ⟨chunk, hchunk, hlisted, -⟩ := h.listed _ (mem_singleton_self _)
    obtain ⟨-, -, hplaced, -⟩ := mem_listed_iff.mp hlisted
    have hchunks : footerReport.chunks = [⟨0, [paragraph "b1" "A report" .reportBody]⟩] := by
      decide +kernel
    rw [hchunks] at hchunk
    obtain rfl := mem_singleton.mp hchunk
    revert hplaced
    decide +kernel

end Analysis

end TalonHound.ReportAnalysis
