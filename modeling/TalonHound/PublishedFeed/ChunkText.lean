import Mathlib.Algebra.GroupWithZero.Nat
import TalonHound.Library.JsonText
import TalonHound.PublishedFeed.FullGeneration
import TalonHound.PublishedFeed.IncrementalGeneration

/-!
# The text of a chunked representation

A body writer puts commas between the items of a chunk, `streamChunkGeneration` and
`loadStixObjectsFromFeed` put them between the chunks, and `logicalRepresentationLength` counts
the bytes from the manifest. A client that does not close the connection is sent one document.
-/

namespace TalonHound

open List KeyedTable

/-- The structured items, and the indicators that `indicatorFromPublishedItem` makes of them. -/
structure ItemDocuments where
  item : String → {v : Json // v.WellFormed}
  indicator : Json → Option {v : Json // v.WellFormed}

/-- `JSON.stringify` of both. -/
def ItemDocuments.serializers (docs : ItemDocuments) : Serializers where
  json item := (docs.item item).val.render
  json_ne item := Json.render_ne (docs.item item).property
  stix item := (docs.indicator (docs.item item).val).map fun v => v.val.render
  stix_ne item text h := by
    obtain ⟨v, -, rfl⟩ := Option.map_eq_some_iff.mp h
    exact Json.render_ne v.property

/-- The items of some rows. -/
def itemsOf (docs : ItemDocuments) (rows : List ProjectionRow) : List {v : Json // v.WellFormed} :=
  rows.filterMap fun r => r.itemJson.map docs.item

/-- The indicators of some rows; a row may have none. -/
def indicatorsOf (docs : ItemDocuments) (rows : List ProjectionRow) :
    List {v : Json // v.WellFormed} :=
  (itemsOf docs rows).filterMap fun v => docs.indicator v.val

/-- What stands between the items of a format. -/
def itemSeparator : FeedFormat → String
  | .txt => ""
  | .json | .stix => ","

/-- The state of a body writer. -/
structure FragmentWriter where
  first : Bool
  text : String
  (byteLength itemCount : ℕ)

def FragmentWriter.start : FragmentWriter := ⟨true, "", 0, 0⟩

/-- `StreamingTxtWriter.addValue`, with the line. -/
def FragmentWriter.addValue (w : FragmentWriter) (line : String) : FragmentWriter :=
  { w with
    text := w.text ++ line
    byteLength := w.byteLength + line.utf8ByteSize
    itemCount := w.itemCount + 1 }

/-- `StreamingJsonBodyWriter.addItem`, and `addIndicator` of an indicator. -/
def FragmentWriter.addItem (w : FragmentWriter) (chunk : String) : FragmentWriter :=
  let bytes := if w.first then chunk else "," ++ chunk
  { first := false
    text := w.text ++ bytes
    byteLength := w.byteLength + bytes.utf8ByteSize
    itemCount := w.itemCount + 1 }

/-- The writer of a chunk after its items. -/
def ChunkFile.writer (c : ChunkFile) : FragmentWriter :=
  match c.format with
  | .txt => c.items.foldl FragmentWriter.addValue .start
  | .json | .stix => c.items.foldl FragmentWriter.addItem .start

/-- One pass over the rows of each chunk key, in the order of the chunks. -/
def writeChunkFiles (ser : Serializers) (formats : List FeedFormat) :
    List (ℕ × List ProjectionRow) → Except GenerationError (List ChunkFile)
  | [] => .ok []
  | (key, rows) :: rest => do
    let slots ← Buckets.fill (addProjectionRow ser) (openChunkWriters formats) rows
    let files ← writeChunkFiles ser formats rest
    return finishChunkWriters key slots ++ files

/-- What stands around the chunks. -/
structure FeedEnvelope where
  (header footer separator : String)

/-- What the representations of a feed show of it. -/
structure FeedMeta where
  feed : Feed
  name : Option String
  generatedAt : String
  /-- `stixBundleIdForFeed` of the slug. -/
  bundleId : String

/-- `feed` in `buildJsonFeedHeader`. -/
def feedDocument (feed : FeedMeta) (itemCount : ℕ) : Json :=
  let flags := resolveJsonIncludeFlags feed.feed
  .obj [("name", .ofText feed.name), ("generated_at", .str feed.generatedAt),
    ("item_count", .num (toString itemCount)),
    ("include_source_metadata", .bool flags.includeSourceMetadata),
    ("include_classification", .bool flags.includeClassification),
    ("include_enrichment", .bool flags.includeEnrichment)]

def buildJsonFeedHeader (feed : FeedMeta) (itemCount : ℕ) : String :=
  "\x7b\"schema_version\":" ++ (Json.str "1.0").render ++ "," ++
    "\"feed\":" ++ (feedDocument feed itemCount).render ++ ",\"items\":["

def buildStixFeedHeader (bundleId : String) : String :=
  "\x7b\"type\":\"bundle\",\"id\":" ++ (Json.str bundleId).render ++ "," ++
    "\"spec_version\":" ++ (Json.str "2.1").render ++ ",\"objects\":["

/-- `JSON_FEED_FOOTER` and `STIX_FEED_FOOTER`. -/
def feedFooter : String := "]\x7d\n"

def formatEnvelope (feed : FeedMeta) (itemCount : ℕ) : FeedFormat → FeedEnvelope
  | .json => ⟨buildJsonFeedHeader feed itemCount, feedFooter, ","⟩
  | .stix => ⟨buildStixFeedHeader feed.bundleId, feedFooter, ","⟩
  | .txt => ⟨"", "", ""⟩

/-- `logicalRepresentationLength`, of the `byte_length` of the chunks. -/
def logicalRepresentationLength (e : FeedEnvelope) (chunks : List ℕ) : ℕ :=
  let nonEmpty := chunks.filter (0 < ·)
  e.header.utf8ByteSize + nonEmpty.sum + (nonEmpty.length - 1) * e.separator.utf8ByteSize +
    e.footer.utf8ByteSize

/-- The loop of `streamChunkGeneration`, with its flag. -/
def streamChunks (separator : String) : Bool → List String → String
  | _, [] => ""
  | emitted, bytes :: rest =>
    (if emitted && separator != "" then separator else "") ++ bytes ++
      streamChunks separator true rest

/-- What `streamChunkGeneration` sends. -/
def streamChunkGeneration (e : FeedEnvelope) (chunks : List String) : String :=
  e.header ++ streamChunks e.separator false chunks ++ e.footer

/-- The loop of `loadStixObjectsFromFeed` from the `i`-th chunk on. -/
def chunkParts (separator : String) : ℕ → List String → List String
  | _, [] => []
  | i, file :: rest =>
    (if 0 < i then [separator] else []) ++ file :: chunkParts separator (i + 1) rest

/-- The text that `loadStixObjectsFromFeed` reads the bundle from. -/
def assembleBundle (e : FeedEnvelope) (chunks : List String) : String :=
  String.join (e.header :: chunkParts e.separator 0 chunks ++ [e.footer])

/-- A text is a document and a line break. -/
def Parses (text : String) (doc : Json) : Prop := doc.WellFormed ∧ text = doc.render ++ "\n"

/-- A text is all of the items, and no other document. -/
def IsDocumentOf (text field : String) (items : List Json) (doc : Json) : Prop :=
  Parses text doc ∧ (∀ other, Parses text other → other = doc) ∧ doc.get? field = some (.arr items)

variable {docs : ItemDocuments} {ser : Serializers} {formats : List FeedFormat}
  {format : FeedFormat} {rows : List ProjectionRow} {key : ℕ} {files : List ChunkFile}
  {e : FeedEnvelope} {feed : FeedMeta} {separator : String} {items : List String}

theorem intercalate_concat (s x : String) : s.intercalate (items ++ [x]) =
    s.intercalate items ++ (if items = [] then x else s ++ x) := by
  split
  · next hnil => simp [hnil]
  · next hne =>
    rw [String.intercalate_append_of_ne_nil hne (by simp), String.intercalate_singleton,
      String.append_assoc]

/-- Parts that are not empty can be joined one by one. -/
theorem intercalate_flatten (s : String) {parts : List (List String)}
    (h : ∀ part ∈ parts, part ≠ []) :
    s.intercalate (parts.map s.intercalate) = s.intercalate parts.flatten := by
  induction parts with
  | nil => rfl
  | cons part parts ih =>
    have hrest := ih fun p hp => h p (.tail _ hp)
    cases parts with
    | nil => simp
    | cons next parts =>
      have hnext : (next :: parts).flatten ≠ [] := by
        simp [h next (by simp)]
      rw [map_cons, String.intercalate_cons_of_ne_nil (by simp), hrest, flatten_cons (l := part),
        String.intercalate_append_of_ne_nil (h part mem_cons_self) hnext]

theorem utf8ByteSize_intercalate (s : String) : (s.intercalate items).utf8ByteSize =
    (items.map String.utf8ByteSize).sum + (items.length - 1) * s.utf8ByteSize := by
  induction items with
  | nil => simp
  | cons item items ih =>
    cases items with
    | nil => simp
    | cons next items =>
      rw [String.intercalate_cons_cons, String.utf8ByteSize_append, String.utf8ByteSize_append, ih]
      simp only [map_cons, sum_cons, length_cons, Nat.add_sub_cancel, Nat.add_mul]
      omega

theorem intercalate_empty : "".intercalate items = String.join items := by
  induction items with
  | nil => simp
  | cons item items ih => cases items <;> simp_all

theorem foldl_addItem : items.foldl FragmentWriter.addItem .start =
    ⟨items.isEmpty, ",".intercalate items, (",".intercalate items).utf8ByteSize,
      items.length⟩ := by
  induction items using List.reverseRecOn with
  | nil => simp [FragmentWriter.start]
  | append_singleton items chunk ih =>
    rw [foldl_append, ih, intercalate_concat]
    simp [FragmentWriter.addItem]

theorem foldl_addValue : items.foldl FragmentWriter.addValue .start =
    ⟨true, "".intercalate items, ("".intercalate items).utf8ByteSize, items.length⟩ := by
  induction items using List.reverseRecOn with
  | nil => simp [FragmentWriter.start]
  | append_singleton items chunk ih =>
    rw [foldl_append, ih, intercalate_concat]
    simp [FragmentWriter.addValue]

/-- The body of a chunk is its items with the separator of the format between them. -/
theorem writer_text (c : ChunkFile) :
    c.writer.text = (itemSeparator c.format).intercalate c.items := by
  cases hformat : c.format <;>
    simp [ChunkFile.writer, hformat, foldl_addItem, foldl_addValue, itemSeparator]

theorem writer_byteLength (c : ChunkFile) : c.writer.byteLength = c.writer.text.utf8ByteSize := by
  cases hformat : c.format <;> simp [ChunkFile.writer, hformat, foldl_addItem, foldl_addValue]

theorem writer_itemCount (c : ChunkFile) : c.writer.itemCount = c.itemCount := by
  cases hformat : c.format <;>
    simp [ChunkFile.writer, hformat, foldl_addItem, foldl_addValue, ChunkFile.itemCount]

/-- The writer counts the bytes that decide whether a chunk is dropped. -/
theorem writer_byteLength_eq (c : ChunkFile) :
    c.writer.byteLength = fragmentLength c.format c.items := by
  have hcomma : ",".utf8ByteSize = 1 := by decide
  rw [writer_byteLength, writer_text, utf8ByteSize_intercalate]
  cases c.format <;> simp [itemSeparator, fragmentLength, hcomma]

theorem streamChunks_true (bytes : String) (rest : List String) :
    streamChunks separator true (bytes :: rest) =
      separator ++ separator.intercalate (bytes :: rest) := by
  induction rest generalizing bytes with
  | nil => simp [streamChunks]
  | cons next rest ih =>
    rw [streamChunks, ih]
    simp [String.append_assoc]

theorem streamChunks_false (chunks : List String) :
    streamChunks separator false chunks = separator.intercalate chunks := by
  cases chunks with
  | nil => rfl
  | cons bytes rest =>
    cases rest with
    | nil => simp [streamChunks]
    | cons next rest =>
      rw [streamChunks, streamChunks_true]
      simp [String.append_assoc]

theorem join_chunkParts (i : ℕ) (file : String) (rest : List String) :
    String.join (chunkParts separator i (file :: rest)) =
      (if 0 < i then separator else "") ++ separator.intercalate (file :: rest) := by
  induction rest generalizing i file with
  | nil => split <;> simp [chunkParts, *]
  | cons next rest ih =>
    rw [chunkParts, String.join_append, String.join_cons, ih]
    split <;> simp [String.append_assoc, *]

/-- Both readers see the same text. -/
theorem assembleBundle_eq (chunks : List String) :
    assembleBundle e chunks = streamChunkGeneration e chunks := by
  rw [assembleBundle, streamChunkGeneration, streamChunks_false, cons_append,
    String.join_cons, String.join_append]
  cases chunks with
  | nil => simp [chunkParts]
  | cons file rest => simp [join_chunkParts, String.append_assoc]

/-- The bytes of the whole text are counted from the manifest. -/
theorem utf8ByteSize_streamChunkGeneration (hne : ∀ c ∈ files, c.writer.byteLength ≠ 0) :
    (streamChunkGeneration e (files.map fun c => c.writer.text)).utf8ByteSize =
      logicalRepresentationLength e (files.map fun c => c.writer.byteLength) := by
  have hall : (files.map fun c => c.writer.byteLength).filter (0 < ·) =
      files.map fun c => c.writer.byteLength := by
    refine filter_eq_self.mpr fun n hn => ?_
    obtain ⟨c, hc, rfl⟩ := mem_map.mp hn
    simpa [Nat.pos_iff_ne_zero] using hne c hc
  have hsizes : (files.map fun c => c.writer.text).map String.utf8ByteSize =
      files.map fun c => c.writer.byteLength := by
    simp [writer_byteLength, Function.comp_def]
  rw [streamChunkGeneration, streamChunks_false, String.utf8ByteSize_append,
    String.utf8ByteSize_append, utf8ByteSize_intercalate, hsizes, logicalRepresentationLength, hall]
  simp only [length_map]
  omega

/-- The writers of one chunk leave the items of each format. -/
theorem items_finishChunkWriters (hnodup : formats.Nodup) (hformat : format ∈ formats) :
    ((finishChunkWriters key (formats.map fun f => (f, emittedItems ser f rows))).filter
      fun c => c.format = format).flatMap ChunkFile.items = emittedItems ser format rows := by
  induction formats with
  | nil => cases hformat
  | cons f formats ih =>
    obtain ⟨hnotMem, hnodup⟩ := nodup_cons.mp hnodup
    have hcons : finishChunkWriters key ((f :: formats).map fun f => (f, emittedItems ser f rows)) =
        (if emittedItems ser f rows = [] then [] else [⟨f, key, emittedItems ser f rows⟩]) ++
          finishChunkWriters key (formats.map fun f => (f, emittedItems ser f rows)) := by
      simp only [finishChunkWriters, map_cons, filterMap_cons, fragmentLength_eq_zero_iff]
      split_ifs <;> rfl
    rw [hcons, filter_append, flatMap_append]
    rcases mem_cons.mp hformat with rfl | hrest
    · have hnil : (finishChunkWriters key (formats.map fun f =>
          (f, emittedItems ser f rows))).filter (fun c => c.format = format) = [] := by
        refine filter_eq_nil_iff.mpr fun c hc hcformat => hnotMem ?_
        rw [← of_decide_eq_true hcformat]
        exact (mem_finishChunkWriters.mp hc).1
      rw [hnil]
      split_ifs with hempty <;> simp [hempty]
    · have hne : f ≠ format := fun h => hnotMem (h ▸ hrest)
      rw [ih hnodup hrest]
      split_ifs <;> simp [hne]

theorem of_writeChunkFiles (hnodup : formats.Nodup) (hformat : format ∈ formats)
    {buckets : List (ℕ × List ProjectionRow)}
    (hok : writeChunkFiles ser formats buckets = .ok files) :
    (files.filter fun c => c.format = format).flatMap ChunkFile.items =
      emittedItems ser format (buckets.flatMap Prod.snd) ∧
    ∀ c ∈ files, c.items ≠ [] ∧ c.writer.byteLength ≠ 0 := by
  induction buckets generalizing files with
  | nil =>
    obtain rfl := Except.ok.inj hok
    simp [emittedItems]
  | cons bucket rest ih =>
    obtain ⟨key, rows⟩ := bucket
    obtain ⟨slots, hfill, hok⟩ := eq_ok_of_bind hok
    obtain ⟨others, hothers, hok⟩ := eq_ok_of_bind hok
    obtain rfl := Except.ok.inj hok
    have hslots : slots = formats.map fun f => (f, emittedItems ser f rows) := by
      rw [fill_eq_ok hfill, openChunkWriters, map_map]
      exact map_congr_left fun f _ => by simp
    obtain ⟨hitems, hrest⟩ := ih hothers
    rw [hslots]
    refine ⟨?_, fun c hc => ?_⟩
    · rw [filter_append, flatMap_append, items_finishChunkWriters hnodup hformat, hitems]
      simp [emittedItems]
    · rcases mem_append.mp hc with hc | hc
      · obtain ⟨-, -, heq, hne⟩ := mem_finishChunkWriters.mp hc
        refine ⟨hne, ?_⟩
        rw [writer_byteLength_eq, heq, Ne, fragmentLength_eq_zero_iff]
        exact heq ▸ hne
      · exact hrest c hc

variable {n : ℕ} {vs : List Json}

theorem wellFormed_repr : (Json.num n.repr).WellFormed := by
  refine .num _ (by simp [Nat.toDigits_ne_nil]) fun c hc => ?_
  rw [Nat.toList_repr] at hc
  have hdigit : c.isDigit := Nat.isDigit_of_mem_toDigits (by omega) (by omega) hc
  simp [Json.isNumberChar, hdigit]

theorem wellFormed_feedDocument : (feedDocument feed n).WellFormed := by
  have hname : (Json.ofText feed.name).WellFormed := by
    cases feed.name with
    | none => exact .null
    | some name => exact .str name
  refine .obj _ (by simp) ?_
  simp [hname, wellFormed_repr, Json.WellFormed.str, Json.WellFormed.bool]

theorem isDocumentOf_of_parses {text field : String} {doc : Json} (h : Parses text doc)
    (hfield : doc.get? field = some (.arr vs)) : IsDocumentOf text field vs doc :=
  ⟨h, fun _ hother => Json.render_inj hother.1 h.1
    ((String.append_left_inj "\n").mp (hother.2.symm.trans h.2)), hfield⟩

/-- The JSON representation of some items. -/
def jsonDocument (feed : FeedMeta) (n : ℕ) (vs : List Json) : Json :=
  .obj [("schema_version", .str "1.0"), ("feed", feedDocument feed n), ("items", .arr vs)]

theorem isDocumentOf_json (h : ∀ v ∈ vs, v.WellFormed) : IsDocumentOf
    (buildJsonFeedHeader feed n ++ ",".intercalate (vs.map Json.render) ++ feedFooter) "items" vs
    (jsonDocument feed n vs) := by
  have hfeed : (feedDocument feed n).WellFormed := wellFormed_feedDocument
  unfold buildJsonFeedHeader jsonDocument
  generalize feedDocument feed n = head at hfeed ⊢
  refine isDocumentOf_of_parses ⟨.obj _ (by simp) ?_, String.toList_inj.mp ?_⟩ (by simp [Json.get?])
  · simp [hfeed, Json.WellFormed.str, Json.WellFormed.arr _ h]
  · simp only [Json.render, Json.renderBefore, Json.renderEntries, Json.renderBefore_arr h,
      String.toList_append, String.toList_ofList, append_assoc]
    rw [Json.renderBefore_eq hfeed (',' :: _)]
    simp [Json.quoteBefore, Json.escapeChar, feedFooter]

/-- The bundle of some indicators. -/
def stixDocument (bundleId : String) (vs : List Json) : Json :=
  .obj [("type", .str "bundle"), ("id", .str bundleId), ("spec_version", .str "2.1"),
    ("objects", .arr vs)]

theorem isDocumentOf_stix (h : ∀ v ∈ vs, v.WellFormed) : IsDocumentOf
    (buildStixFeedHeader feed.bundleId ++ ",".intercalate (vs.map Json.render) ++ feedFooter)
    "objects" vs (stixDocument feed.bundleId vs) := by
  unfold buildStixFeedHeader stixDocument
  refine isDocumentOf_of_parses ⟨.obj _ (by simp) ?_, String.toList_inj.mp ?_⟩ (by simp [Json.get?])
  · simp [Json.WellFormed.str, Json.WellFormed.arr _ h]
  · simp only [Json.render, Json.renderBefore, Json.renderEntries,
      Json.renderBefore_arr h, String.toList_append, String.toList_ofList, append_assoc]
    simp [Json.quoteBefore, Json.escapeChar, feedFooter]

/-- What is written in a format that takes some of the items. -/
theorem emittedItems_eq (taken : {v : Json // v.WellFormed} → Option {v : Json // v.WellFormed})
    (h : ∀ r, emitted docs.serializers format r =
      (r.itemJson.bind fun item => taken (docs.item item)).map fun v => v.val.render) :
    emittedItems docs.serializers format rows =
      (((itemsOf docs rows).filterMap taken).map Subtype.val).map Json.render := by
  rw [emittedItems, itemsOf, filterMap_filterMap, map_map, map_filterMap]
  refine filterMap_congr fun r _ => ?_
  rw [h]
  cases r.itemJson <;> rfl

theorem emittedItems_json : emittedItems docs.serializers .json rows =
    ((itemsOf docs rows).map Subtype.val).map Json.render := by
  rw [emittedItems_eq some, filterMap_some]
  intro r
  cases h : r.itemJson <;> simp [emitted, itemFor, h, ItemDocuments.serializers]

theorem emittedItems_stix : emittedItems docs.serializers .stix rows =
    ((indicatorsOf docs rows).map Subtype.val).map Json.render := by
  refine emittedItems_eq (fun v => docs.indicator v.val) fun r => ?_
  cases h : r.itemJson <;> simp [emitted, itemFor, h, ItemDocuments.serializers]

/-- Whatever the split over chunks, and whichever rows have no indicator, both readers see the
lines of all rows, or one document with all items and their number, as long as announced. -/
theorem chunked_representation_exact (docs : ItemDocuments) (feed : FeedMeta)
    (buckets : List (ℕ × List ProjectionRow)) (files : List ChunkFile) (format : FeedFormat)
    (hformat : format ∈ resolvePublishedFeedFormats feed.feed)
    (hok : writeChunkFiles docs.serializers (resolvePublishedFeedFormats feed.feed) buckets =
      .ok files) :
    let refs := files.filter fun c => c.format = format
    let e := formatEnvelope feed (refs.map fun c => c.writer.itemCount).sum format
    let sent := streamChunkGeneration e (refs.map fun c => c.writer.text)
    let rows := buckets.flatMap Prod.snd
    assembleBundle e (refs.map fun c => c.writer.text) = sent ∧
      sent.utf8ByteSize = logicalRepresentationLength e (refs.map fun c => c.writer.byteLength) ∧
      match format with
      | .txt => sent = String.join (rows.map fun r => r.txtValue ++ "\n")
      | .json => ∃ doc, IsDocumentOf sent "items" ((itemsOf docs rows).map Subtype.val) doc ∧
          (doc.get? "feed").bind (Json.get? "item_count") =
            some (.num (toString (itemsOf docs rows).length))
      | .stix =>
        ∃ doc, IsDocumentOf sent "objects" ((indicatorsOf docs rows).map Subtype.val) doc := by
  intro refs e sent rows
  obtain ⟨hitems, hwritten⟩ :=
    of_writeChunkFiles (nodup_resolvePublishedFeedFormats feed.feed) hformat hok
  have hrefs : ∀ c ∈ refs, c.items ≠ [] ∧ c.writer.byteLength ≠ 0 := fun c hc =>
    hwritten c (mem_of_mem_filter hc)
  have htexts : (itemSeparator format).intercalate (refs.map fun c => c.writer.text) =
      (itemSeparator format).intercalate (emittedItems docs.serializers format rows) := by
    rw [← hitems, flatMap_def, ← intercalate_flatten, map_map]
    · refine congrArg _ (map_congr_left fun c hc => ?_)
      rw [writer_text, of_decide_eq_true (mem_filter.mp hc).2]
      rfl
    · intro part hpart
      obtain ⟨c, hc, rfl⟩ := mem_map.mp hpart
      exact (hrefs c hc).1
  have hcount : (refs.map fun c => c.writer.itemCount).sum =
      (emittedItems docs.serializers format rows).length := by
    rw [← hitems, length_flatMap]
    simp only [writer_itemCount]
    rfl
  refine ⟨assembleBundle_eq _, utf8ByteSize_streamChunkGeneration fun c hc => (hrefs c hc).2, ?_⟩
  have hsent : sent = e.header ++
      e.separator.intercalate (refs.map fun c => c.writer.text) ++ e.footer := by
    rw [← streamChunks_false]
    rfl
  have hwell : ∀ vs : List {v : Json // v.WellFormed}, ∀ v ∈ vs.map Subtype.val, v.WellFormed := by
    intro vs v hv
    obtain ⟨w, -, rfl⟩ := mem_map.mp hv
    exact w.property
  cases format with
  | txt =>
    have hlines : emittedItems docs.serializers .txt rows = rows.map fun r => r.txtValue ++ "\n" := by
      rw [emittedItems, ← filterMap_eq_map]
      rfl
    simp only [hsent, e, formatEnvelope, itemSeparator] at htexts ⊢
    rw [htexts, hlines, intercalate_empty]
    simp
  | json =>
    refine ⟨jsonDocument feed (refs.map fun c => c.writer.itemCount).sum
      ((itemsOf docs rows).map Subtype.val), ?_, ?_⟩
    · simp only [hsent, e, formatEnvelope, itemSeparator] at htexts ⊢
      rw [htexts, emittedItems_json]
      exact isDocumentOf_json (hwell _)
    · rw [hcount, emittedItems_json]
      simp [jsonDocument, Json.get?, feedDocument]
  | stix =>
    refine ⟨stixDocument feed.bundleId ((indicatorsOf docs rows).map Subtype.val), ?_⟩
    simp only [hsent, e, formatEnvelope, itemSeparator] at htexts ⊢
    rw [htexts, emittedItems_stix]
    exact isDocumentOf_stix (hwell _)

/-- Two chunks with items, and one without. -/
theorem chunked_representation_of_two :
    let docs : ItemDocuments := ⟨fun s => ⟨.str s, .str s⟩, fun _ => none⟩
    let feed : FeedMeta := ⟨{ plainFeed [.domain] with formats := [.json, .stix] }, none, "t", "b"⟩
    let row : ProjectionRow := ⟨.observable .domain "a", 1, "a", .domain, 0, "high", none, "a",
      some "a", "", .observable .domain "a", none⟩
    ∃ files, writeChunkFiles docs.serializers (resolvePublishedFeedFormats feed.feed)
        [(0, [row]), (1, []), (2, [row])] = .ok files ∧
      ∃ doc, IsDocumentOf (streamChunkGeneration (formatEnvelope feed 2 .json)
        (files.map fun c => c.writer.text)) "items" [.str "a", .str "a"] doc := by
  intro docs feed row
  refine ⟨[⟨.json, 0, ["\"a\""]⟩, ⟨.json, 2, ["\"a\""]⟩], rfl, ?_⟩
  obtain ⟨-, -, doc, hdoc, -⟩ := chunked_representation_exact docs feed
    [(0, [row]), (1, []), (2, [row])] _ .json (by decide) rfl
  exact ⟨doc, hdoc⟩

end TalonHound
