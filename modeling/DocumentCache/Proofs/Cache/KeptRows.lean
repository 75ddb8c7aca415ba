import DocumentCache.Proofs.Cache.LastWrite
import DocumentCache.Proofs.Cache.QueryAnswers

/-!
# Tables that only adds wrote

As long as nobody writes to the engine of a cache but the cache itself, all rows are
rows of documents that were added, whether or not older documents are refused.  Then
no row is ever corrupt: the latest read time is the maximum over all rows, and a query
that always answers finds those of the documents that it wants.
-/

namespace DocumentCache

namespace Cache

open Shell (FileCache)

/-! ## Kept tables -/

/-- The rows of a table are those of these documents, and no key of a row has an empty
segment. -/
structure Kept (table : Table) (documents : DocumentMap) : Prop where
  stored : Stores table documents
  named : KeysNamed table

theorem kept_empty : Kept .empty .empty := ⟨stores_empty, keysNamed_empty⟩

theorem KeysNamed.erase {table : Table} (h : KeysNamed table) (rowKey : Bytes) :
    KeysNamed (table.erase rowKey) := by
  intro other bytes hheld hbegins
  by_cases hother : other = rowKey
  · rw [hother, Table.get?_erase_self] at hheld
    cases hheld
  · rw [Table.get?_erase_of_ne _ hother] at hheld
    exact h other bytes hheld hbegins

/-- The latest of the read times of all rows, and `never` only if there is no row. -/
structure LatestIn (table : Table) (latest : ReadTime) : Prop where
  upper : ∀ entry ∈ table.startingWith RowKey.ofTable,
    ∃ readTime, RowTime entry.2 readTime ∧ readTime ≤ latest
  attained : latest ≠ .never → ∃ entry ∈ table.startingWith RowKey.ofTable,
    RowTime entry.2 latest
  never_iff : latest = .never ↔ table.startingWith RowKey.ofTable = []

namespace Kept

variable {table : Table} {documents : DocumentMap}

theorem insert (h : Kept table documents) {document : Document} {readTime : ReadTime}
    {row : Bytes} (hnamed : document.key.Named)
    (hencode : encodeRow Payload.codec document readTime =
      .ok (RowKey.ofDocument document.key, row))
    (hrange : row.length < wordRange 8) :
    Kept (table.insert (RowKey.ofDocument document.key) row)
      (documents.insert document.key (document.withReadTime readTime)) :=
  ⟨h.stored.insert hnamed hencode hrange, h.named.insert hnamed row⟩

theorem erase (h : Kept table documents) (key : DocumentKey) :
    Kept (table.erase (RowKey.ofDocument key)) (documents.erase key) :=
  ⟨h.stored.erase key, h.named.erase _⟩

/-- A row that is there holds the document of its key, read at the time in its columns. -/
theorem exists_document (h : Kept table documents) {key : DocumentKey} {bytes : Bytes}
    (hheld : table.get? (RowKey.ofDocument key) = some bytes) :
    ∃ document row, documents.get? key = some document ∧ Row.decode bytes = .ok row ∧
      row.readTime = .ok document.readTime ∧
      decodeContents Payload.codec row.contents document.readTime key = .ok document := by
  have hkey := h.stored key
  rw [hheld, Option.map_some, eq_comm, Option.map_eq_some_iff] at hkey
  obtain ⟨document, hdocument, hdecode⟩ := hkey
  obtain ⟨row, hrow, hrest⟩ := bind_eq_ok_iff.mp hdecode.symm
  obtain ⟨readTime, hread, hcontents⟩ := bind_eq_ok_iff.mp hrest
  obtain ⟨-, -, rfl⟩ := known_of_decodeContents hcontents
  exact ⟨document, row, hdocument, parseRow_eq_ok_iff.mp hrow, rowReadTime_eq_ok_iff.mp hread,
    hcontents⟩

theorem exists_bytes (h : Kept table documents) {key : DocumentKey} {document : Document}
    (hheld : documents.get? key = some document) :
    ∃ bytes, table.get? (RowKey.ofDocument key) = some bytes := by
  have hkey := h.stored key
  rw [hheld, Option.map_some, Option.map_eq_some_iff] at hkey
  obtain ⟨bytes, hbytes, -⟩ := hkey
  exact ⟨bytes, hbytes⟩

/-- The rows of a kept table and the documents they hold. -/
theorem holdsRow_iff (h : Kept table documents) {key : DocumentKey} {document : Document}
    {since : ReadTime} :
    (∃ row readTime, HoldsRow table key row readTime ∧ Recent since readTime ∧
        decodeContents Payload.codec row.contents readTime key = .ok document) ↔
      documents.get? key = some document ∧ Recent since document.readTime := by
  constructor
  · rintro ⟨row, readTime, ⟨bytes, hheld, hrow, hread⟩, hrecent, hdecode⟩
    obtain ⟨other, otherRow, hother, hotherRow, hotherRead, hotherDecode⟩ :=
      h.exists_document hheld
    obtain rfl := Except.ok.inj (hrow.symm.trans hotherRow)
    obtain rfl := Except.ok.inj (hread.symm.trans hotherRead)
    obtain rfl := Except.ok.inj (hdecode.symm.trans hotherDecode)
    exact ⟨hother, hrecent⟩
  · rintro ⟨hdocument, hrecent⟩
    obtain ⟨bytes, hheld⟩ := h.exists_bytes hdocument
    obtain ⟨other, row, hother, hrow, hread, hdecode⟩ := h.exists_document hheld
    obtain rfl := Option.some.inj (hdocument.symm.trans hother)
    exact ⟨row, _, ⟨bytes, hheld, hrow, hread⟩, hrecent, hdecode⟩

/-! ## Reading a kept table -/

theorem not_spoiled (h : Kept table documents) (collection : Path) (since : ReadTime) :
    ¬ Spoiled table collection since := by
  intro hspoiled
  cases hspoiled with
  | columns key bytes hcollection hheld hcolumns =>
      obtain ⟨document, row, -, hrow, hread, -⟩ := h.exists_document hheld
      exact hcolumns row document.readTime hrow hread
  | payload key row readTime hcollection hrow hrecent hpayload =>
      obtain ⟨bytes, hheld, hdecode, hread⟩ := hrow
      obtain ⟨document, other, -, hother, hotherRead, hcontents⟩ := h.exists_document hheld
      obtain rfl := Except.ok.inj (hdecode.symm.trans hother)
      obtain ⟨stored, hstored, hknown, hkey, -⟩ :=
        decodeContents_payload_eq_ok_iff.mp hcontents
      exact hpayload stored hstored hknown hkey

theorem exists_rowTime (h : Kept table documents) {entry : Bytes × Bytes}
    (hmem : entry ∈ table.startingWith RowKey.ofTable) :
    ∃ key document, documents.get? key = some document ∧ RowTime entry.2 document.readTime := by
  obtain ⟨hheld, hbegins⟩ := Table.mem_startingWith.mp hmem
  obtain ⟨key, -, hrowKey⟩ := h.named entry.1 entry.2 hheld hbegins
  rw [hrowKey] at hheld
  obtain ⟨document, row, hdocument, hrow, hread, -⟩ := h.exists_document hheld
  exact ⟨key, document, hdocument, row, hrow, hread⟩

/-- The latest of the read times of all rows can be told. -/
theorem latestOf_eq (h : Kept table documents) :
    ∃ latest, latestOf (table.startingWith RowKey.ofTable) .never = .ok latest ∧
      LatestIn table latest := by
  have htimed : ∀ entry ∈ table.startingWith RowKey.ofTable,
      ∃ readTime, RowTime entry.2 readTime := by
    intro entry hmem
    obtain ⟨_, document, -, htime⟩ := h.exists_rowTime hmem
    exact ⟨document.readTime, htime⟩
  obtain ⟨latest, hlatest⟩ := (latestOf_ok_iff .never).mpr htimed
  obtain ⟨-, hupper, hsome⟩ := latestOf_max hlatest
  have hattained : latest ≠ .never → ∃ entry ∈ table.startingWith RowKey.ofTable,
      RowTime entry.2 latest := fun hne => hsome.resolve_left hne
  refine ⟨latest, hlatest, ?_, hattained, ?_⟩
  · intro entry hmem
    obtain ⟨readTime, htime⟩ := htimed entry hmem
    exact ⟨readTime, htime, hupper entry hmem readTime htime⟩
  · constructor
    · rintro rfl
      apply List.eq_nil_iff_forall_not_mem.mpr
      intro entry hmem
      obtain ⟨readTime, row, hrow, hread⟩ := htimed entry hmem
      obtain ⟨-, -, hpositive⟩ := columns_of_readTime hread
      exact Nat.not_le_of_lt hpositive (hupper entry hmem readTime ⟨row, hrow, hread⟩)
    · intro hnone
      apply Classical.byContradiction
      intro hne
      obtain ⟨entry, hmem, -⟩ := hattained hne
      rw [hnone] at hmem
      cases hmem

/-- No document was read after the latest read time. -/
theorem le_latest (h : Kept table documents) {latest : ReadTime} (hlatest : LatestIn table latest)
    {key : DocumentKey} {document : Document} (hheld : documents.get? key = some document) :
    document.readTime ≤ latest := by
  obtain ⟨bytes, hbytes⟩ := h.exists_bytes hheld
  obtain ⟨other, row, hother, hrow, hread, -⟩ := h.exists_document hbytes
  obtain rfl := Option.some.inj (hheld.symm.trans hother)
  have hmem : (RowKey.ofDocument key, bytes) ∈ table.startingWith RowKey.ofTable :=
    Table.mem_startingWith.mpr ⟨hbytes, rfl⟩
  obtain ⟨readTime, htime, hle⟩ := hlatest.upper _ hmem
  obtain rfl := htime.unique ⟨row, hrow, hread⟩
  exact hle

/-- Some document was read at the latest read time, if any was read. -/
theorem exists_latest (h : Kept table documents) {latest : ReadTime}
    (hlatest : LatestIn table latest) (hne : latest ≠ .never) :
    ∃ key document, documents.get? key = some document ∧ document.readTime = latest := by
  obtain ⟨entry, hmem, htime⟩ := hlatest.attained hne
  obtain ⟨key, document, hdocument, hread⟩ := h.exists_rowTime hmem
  exact ⟨key, document, hdocument, hread.unique htime⟩

end Kept

/-! ## What such a cache answers -/

/-- A cache that answers from a table with the rows of these documents. -/
structure Shows (cache : FileCache) (documents : DocumentMap) : Prop where
  answersFrom : AnswersFrom cache.engine cache.engine.engine.table
  codec_eq : cache.codec = Payload.codec
  kept : Kept cache.engine.engine.table documents

namespace Shows

variable {cache : FileCache} {documents : DocumentMap}

/-- A query finds the recent documents of its collection that it wants. -/
theorem query_eq (h : cache.Shows documents) {query : Query} (htotal : query.Total)
    (since : ReadTime) :
    ∃ found, (cache.query query since false).1 = .ok found ∧
      ∀ key document, found.get? key = some document ↔
        key.collection = query.collection ∧
          (documents.get? key = some document ∧ Recent since document.readTime) ∧
          query.Wants document := by
  obtain ⟨found, hfound⟩ :=
    (scanAnswer_ok_iff h.kept.named htotal).mpr (h.kept.not_spoiled query.collection since)
  refine ⟨found, ?_, ?_⟩
  · rw [Cache.query_eq h.answersFrom, h.codec_eq, hfound]
  · intro key document
    rw [get?_scanAnswer_iff h.kept.named hfound, h.kept.holdsRow_iff]

theorem get?_query_iff (h : cache.Shows documents) {query : Query} (htotal : query.Total)
    {since : ReadTime} {found : DocumentMap}
    (hfound : (cache.query query since false).1 = .ok found) {key : DocumentKey}
    {document : Document} :
    found.get? key = some document ↔
      key.collection = query.collection ∧
        (documents.get? key = some document ∧ Recent since document.readTime) ∧
        query.Wants document := by
  obtain ⟨same, hsame, hget⟩ := h.query_eq htotal since
  obtain rfl := Except.ok.inj (hsame.symm.trans hfound)
  exact hget key document

theorem latest_eq (h : cache.Shows documents) :
    ∃ latest, cache.latestReadTime.1 = .ok latest ∧
      LatestIn cache.engine.engine.table latest := by
  rw [latestReadTime_eq h.answersFrom]
  exact h.kept.latestOf_eq

end Shows

/-! ## Histories -/

/-- What may be called when older documents may be refused. -/
def Call.Permitted : Call → Prop
  | .reopen settings => settings.validate = .ok ()
  | call => call.Allowed

theorem Call.Allowed.permitted {call : Call} (h : call.Allowed) : call.Permitted := by
  cases call with
  | reopen settings => exact h.1
  | _ => exact h

/-- A working cache that only adds wrote to. -/
structure Keeps (cache : FileCache) (documents : DocumentMap) (short : Prop) : Prop where
  works : cache.Works short
  kept : Kept cache.engine.engine.table documents

namespace Keeps

variable {cache : FileCache} {documents : DocumentMap} {short : Prop}

/-- Counters do not matter. -/
theorem counters (h : cache.Keeps documents short) (counters : Counters) :
    Keeps { cache with counters } documents short :=
  ⟨h.works.of_engine_eq rfl rfl, h.kept⟩

theorem shows (h : cache.Keeps documents short) : cache.Shows documents :=
  ⟨h.works.answersFrom, h.works.codec_eq, h.kept⟩

theorem mono (h : cache.Keeps documents short) {weaker : Prop} (hshort : weaker → short) :
    cache.Keeps documents weaker :=
  ⟨h.works.mono hshort, h.kept⟩

theorem add (h : cache.Keeps documents short) {document : Document} {readTime : ReadTime}
    (hpermitted : (Call.add document readTime).Permitted) :
    ∃ after, (cache.add document readTime).2.Keeps after
      (short ∧ (Call.add document readTime).Short) := by
  rcases h.works.add_cases document readTime with
    ⟨error, counters, hadd⟩ | ⟨hok, row, hencode, hwrote, hworks⟩
  · rw [hadd]
    exact ⟨documents, (h.counters counters).mono And.left⟩
  · have hkept := h.kept.insert hpermitted.1 hencode (hpermitted.2 _ row hencode)
    rw [← hwrote.table_eq] at hkept
    refine ⟨_, hworks.mono ?_, hkept⟩
    rintro ⟨hshort, hrow⟩
    exact ⟨hshort, hrow _ row hencode⟩

theorem remove (h : cache.Keeps documents short) (key : DocumentKey) :
    (cache.remove key).2.Keeps (documents.erase key) short := by
  obtain ⟨engine, counters, hremove, htable, hworks⟩ := h.works.remove key
  have hkept := h.kept.erase key
  rw [← htable] at hkept
  rw [hremove]
  exact ⟨hworks, hkept⟩

theorem checkpoint (h : cache.Keeps documents short) :
    Keeps { cache with engine := cache.engine.checkpoint.2 } documents short := by
  obtain ⟨htable, hworks⟩ := h.works.checkpoint
  have hkept := h.kept
  rw [← htable] at hkept
  exact ⟨hworks, hkept⟩

theorem perform (h : cache.Keeps documents short) {call : Call} (hpermitted : call.Permitted)
    (hreopen : ∀ settings, call = .reopen settings → short) :
    ∃ after documents, cache.perform call = .ok after ∧
      after.Keeps documents (short ∧ call.Short) := by
  by_cases hasks : call.Asks
  · obtain ⟨counters, hperform⟩ := cache.perform_asks hasks
    exact ⟨_, documents, hperform, (h.counters counters).mono And.left⟩
  · cases call with
    | add document readTime =>
        obtain ⟨after, hafter⟩ := h.add hpermitted
        exact ⟨_, after, rfl, hafter⟩
    | remove key => exact ⟨_, _, rfl, (h.remove key).mono And.left⟩
    | checkpoint => exact ⟨_, _, rfl, h.checkpoint.mono And.left⟩
    | reopen settings =>
        obtain ⟨reopened, hopen, -, htable, hworks⟩ :=
          h.works.reopen (hreopen settings rfl) hpermitted
        have hkept := h.kept
        rw [← htable] at hkept
        exact ⟨reopened, documents, hopen, hworks.mono fun _ => trivial, hkept⟩
    | get _ => exact absurd trivial hasks
    | getAll _ => exact absurd trivial hasks
    | query _ _ _ => exact absurd trivial hasks
    | latestReadTime => exact absurd trivial hasks

end Keeps

/-- After every history the rows are those of documents that were added. -/
theorem history_keeps {settings : Settings} (hvalid : settings.validate = .ok ())
    {calls : List Call} (hpermitted : ∀ call ∈ calls, call.Permitted)
    (hshort : ShortWhenClosed calls) :
    ∃ cache, history settings calls = .ok cache ∧
      ∃ documents, cache.Keeps documents (∀ call ∈ calls, call.Short) := by
  obtain ⟨opened, hopen, -, htable, hworks⟩ := openOn_works hvalid Engine.records_empty rfl
  have hkept := kept_empty
  rw [← htable] at hkept
  have hstart : opened.Keeps .empty (∀ call ∈ ([] : List Call), call.Short) :=
    ⟨hworks.mono fun _ => trivial, hkept⟩
  apply history_invariant ⟨opened, hopen, .empty, hstart⟩ ?_ hpermitted hshort
  rintro earlier cache call ⟨documents, hcache⟩ hcall hreopen
  obtain ⟨after, others, hperform, hafter⟩ := hcache.perform hcall hreopen
  exact ⟨after, hperform, others, hafter.mono forall_short_concat⟩

end Cache

end DocumentCache
