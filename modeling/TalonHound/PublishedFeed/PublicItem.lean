import TalonHound.Library.CanonicalList
import TalonHound.Library.JsonText
import TalonHound.PublishedFeed.RegenerationSkip

/-!
# The public item of an IOC

`publishedFeedJson.js` writes an IOC from its row and the metadata at hand: the sources and the tags of
its siblings, which come in the order in which the database returns them.
-/

namespace TalonHound

open CanonicalList (sorted firstOfList builds_firstOfList builds_ofList)

/-- A membership or a manual source at hand; times are as the driver returns them. -/
structure SourceRow (T : Type*) where
  (feedKey feedName : Option String)
  (firstSeenInSource lastConfirmedInSource : T)

/-- An entry of the public source list. -/
structure SourceEntry where
  (feedKey feedName firstSeenInSource lastConfirmedInSource : Option String)
  deriving DecidableEq

/-- A value that the code takes for missing. -/
def isBlank (text : Option String) : Bool := text.getD "" = ""

/-- The key of an entry: that of its feed, else its name. -/
def SourceEntry.dedupKey (e : SourceEntry) : String :=
  if isBlank e.feedKey then "name:" ++ e.feedName.getD "" else e.feedKey.getD ""

def SourceEntry.json (e : SourceEntry) : Json :=
  .ofFields [("feed_key", e.feedKey.map .str), ("feed_name", e.feedName.map .str),
    ("first_seen_in_source", e.firstSeenInSource.map .str),
    ("last_confirmed_in_source", e.lastConfirmedInSource.map .str)]

/-- The row of an IOC, as far as its item shows it. -/
structure PublishedBase where
  (value observableType : String)
  (category confidence : Option String)

/-- The metadata of an IOC. -/
structure PublishedMeta (T : Type*) where
  (importedAt firstSeenInSource lastConfirmedInSource expiresAt : T)
  sources : List (SourceRow T)
  tags : List String
  /-- What `normalizeEnrichment` makes of the provider rows, which are found by provider. -/
  enrichment : Option Json

/-- The include flags of a feed. -/
structure IncludeFlags where
  (sourceMetadata classification enrichment : Bool)

section item

variable {T : Type*} (toIsoUtc : T → Option String) (rt : Runtime) (host : GenerationHost)

/-- The loop body of `normalizeSourceMetadata`. -/
def sourceEntry (row : SourceRow T) : Option SourceEntry :=
  if isBlank row.feedKey && isBlank row.feedName then none
  else some ⟨row.feedKey, row.feedName, toIsoUtc row.firstSeenInSource, toIsoUtc row.lastConfirmedInSource⟩

/-- `normalizeSourceMetadata`: the last entry of a key, in the place of the first. -/
def normalizeSourceMetadata (rows : List (SourceRow T)) : List SourceEntry :=
  sorted (fun e => host.collationKey e.dedupKey)
    (InsertionMap.ofList SourceEntry.dedupKey (rows.filterMap (sourceEntry toIsoUtc)))

/-- The names that `normalizeTags` considers. -/
def tagNames (names : List String) : List String :=
  names.filterMap fun raw => if trim raw = "" then none else some (trim raw)

/-- `normalizeTags`: the first spelling of a name. -/
def normalizeTags (names : List String) : List String :=
  sorted host.collationKey (firstOfList rt.lower (tagNames names))

/-- `normalizeTimestamps`. -/
def normalizeTimestamps (info : PublishedMeta T) : Json :=
  .ofFields [("imported_at", (toIsoUtc info.importedAt).map .str),
    ("first_seen_in_source", (toIsoUtc info.firstSeenInSource).map .str),
    ("last_confirmed_in_source", (toIsoUtc info.lastConfirmedInSource).map .str),
    ("expires_at", (toIsoUtc info.expiresAt).map .str)]

/-- `normalizeClassification`, where something is left. -/
def normalizeClassification (base : PublishedBase) (names : List String) : Option Json :=
  let category := trim (base.category.getD "")
  let tags := normalizeTags rt host names
  let confidence := base.confidence.bind fun c =>
    if trim c = "" then none else some (Json.num (toString (confidenceToScore rt host c)))
  if category = "" && tags.isEmpty && confidence.isNone then none
  else some (.ofFields [("category", if category = "" then none else some (.str category)),
    ("confidence", confidence), ("tags", if tags.isEmpty then none else some (.arr (tags.map .str)))])

/-- `normalizePublishedIoc`. -/
def normalizePublishedIoc (base : PublishedBase) (info : PublishedMeta T) (flags : IncludeFlags) : Json :=
  .ofFields [("type", some (.str (rt.lower base.observableType))), ("value", some (.str base.value)),
    ("timestamps", some (normalizeTimestamps toIsoUtc info)),
    ("sources", if flags.sourceMetadata then
      some (.arr ((normalizeSourceMetadata toIsoUtc host info.sources).map SourceEntry.json)) else none),
    ("classification", if flags.classification then normalizeClassification rt host base info.tags else none),
    ("enrichment", if flags.enrichment then info.enrichment else none)]

/-- `projectionContentFingerprint` of an item. -/
def projectionContentFingerprint (txtValue : String) (item : Json) : String :=
  rt.contentDigest txtValue (some item.render)

/-- Two sources under one key, or under keys that the collation does not tell apart, have one entry. -/
def SourcesAgree (rows : List (SourceRow T)) : Prop :=
  ∀ e ∈ rows.filterMap (sourceEntry toIsoUtc), ∀ e' ∈ rows.filterMap (sourceEntry toIsoUtc),
    host.collationKey e.dedupKey = host.collationKey e'.dedupKey → e = e'

/-- Two tags that differ in case alone, or that the collation does not tell apart, are one. -/
def TagsAgree (names : List String) : Prop :=
  ∀ a ∈ tagNames names, ∀ b ∈ tagNames names,
    rt.lower a = rt.lower b ∨ host.collationKey a = host.collationKey b → a = b

theorem normalizeTags_order_free_iff (names : List String) :
    (∀ names', names'.Perm names → normalizeTags rt host names' = normalizeTags rt host names) ↔
      TagsAgree rt host names :=
  (builds_firstOfList rt.lower).order_free_filterMap_iff host.collationKey _ names

theorem normalizeSourceMetadata_order_free_iff (rows : List (SourceRow T)) :
    (∀ rows', rows'.Perm rows →
        normalizeSourceMetadata toIsoUtc host rows' = normalizeSourceMetadata toIsoUtc host rows) ↔
      SourcesAgree toIsoUtc host rows := by
  have hiff := (builds_ofList SourceEntry.dedupKey).order_free_filterMap_iff
    (fun e => host.collationKey e.dedupKey) (sourceEntry toIsoUtc) rows
  refine hiff.trans ⟨fun h e he e' he' hrank => h e he e' he' (.inr hrank), fun h e he e' he' hshare => ?_⟩
  rcases hshare with hkey | hrank
  · exact h e he e' he' (by rw [hkey])
  · exact h e he e' he' hrank

/-- The sources, the tags and with them the item and its fingerprint are the same for every order of
the rows exactly if no two sources or tags compete for one place. -/
theorem published_item_order_free_iff (rows : List (SourceRow T)) (names : List String) :
    (∀ rows' names', rows'.Perm rows → names'.Perm names →
      normalizeSourceMetadata toIsoUtc host rows' = normalizeSourceMetadata toIsoUtc host rows ∧
      normalizeTags rt host names' = normalizeTags rt host names ∧
      ∀ (base : PublishedBase) (info : PublishedMeta T) (flags : IncludeFlags) (txtValue : String),
        projectionContentFingerprint rt txtValue (normalizePublishedIoc toIsoUtc rt host base
            { info with sources := rows', tags := names' } flags) =
          projectionContentFingerprint rt txtValue (normalizePublishedIoc toIsoUtc rt host base
            { info with sources := rows, tags := names } flags)) ↔
      SourcesAgree toIsoUtc host rows ∧ TagsAgree rt host names := by
  rw [← normalizeSourceMetadata_order_free_iff, ← normalizeTags_order_free_iff]
  constructor
  · intro h
    exact ⟨fun rows' hrows => (h rows' names hrows (List.Perm.refl names)).1,
      fun names' hnames => (h rows names' (List.Perm.refl rows) hnames).2.1⟩
  · rintro ⟨hsources, htags⟩ rows' names' hrows hnames
    refine ⟨hsources rows' hrows, htags names' hnames, fun base info flags txtValue => ?_⟩
    unfold normalizePublishedIoc normalizeClassification
    rw [hsources rows' hrows, htags names' hnames]
    rfl

end item

/-- The memberships of two siblings in one feed. -/
def siblingRows : List (SourceRow String) :=
  [⟨some "otx", some "OTX", "2026-01-01T00:00:00.000Z", "2026-02-01T00:00:00.000Z"⟩,
    ⟨some "otx", some "OTX", "2026-01-15T00:00:00.000Z", "2026-01-20T00:00:00.000Z"⟩]

/-- Two tags that are one text in two normal forms. -/
def accentTags : List String := ["caf\u00e9", "cafe\u0301"]

/-- A collation that, like that of the runtime, does not tell the normal forms apart. -/
def accentHost : GenerationHost :=
  { plainHost with collationKey := fun text => if text = "caf\u00e9" then "cafe\u0301" else text }

/-- Each order of the rows shows the times of the row that it has last, and each order of the tags is
published as it is. -/
theorem published_item_depends_on_order :
    (siblingRows.reverse.Perm siblingRows ∧
      normalizeSourceMetadata some accentHost siblingRows.reverse ≠
        normalizeSourceMetadata some accentHost siblingRows) ∧
      accentTags.reverse.Perm accentTags ∧
      normalizeTags plainRuntime accentHost accentTags.reverse ≠
        normalizeTags plainRuntime accentHost accentTags :=
  ⟨⟨List.reverse_perm siblingRows, by decide +kernel⟩, List.reverse_perm accentTags, by decide +kernel⟩

end TalonHound
