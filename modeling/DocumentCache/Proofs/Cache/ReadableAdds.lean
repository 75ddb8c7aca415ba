import DocumentCache.Proofs.Cache.BatchLookups
import DocumentCache.Proofs.Cache.LastWrite

/-!
# What is added can be read

After an add that succeeds the document is read back, and every read that succeeded
before succeeds still, whatever the cache holds besides.  This takes a key without an
empty segment.  A key may have one, since a segment put below a path is not looked at;
then the add succeeds all the same, but its row can never be read, and from then on no
query of its collection succeeds.
-/

namespace DocumentCache.Cache

/-! ## Rows beside a new one -/

/-- What stands in a table after a row was written stood there before, or is that row. -/
theorem mem_startingWith_insert {table : Table} {rowKey row front : Bytes}
    {entry : Bytes × Bytes} (h : entry ∈ (table.insert rowKey row).startingWith front) :
    entry = (rowKey, row) ∨ entry ∈ table.startingWith front := by
  obtain ⟨hheld, hbegins⟩ := Table.mem_startingWith.mp h
  by_cases hrowKey : entry.1 = rowKey
  · rw [hrowKey, Table.get?_insert_self] at hheld
    exact .inl (Prod.ext hrowKey (Option.some.inj hheld).symm)
  · rw [Table.get?_insert_of_ne _ _ hrowKey] at hheld
    exact .inr (Table.mem_startingWith.mpr ⟨hheld, hbegins⟩)

/-- The row of a document that can be read back, and what it is read back as. -/
structure ReadBack (document : Document) (readTime : ReadTime) (bytes : Bytes) (row : Row) :
    Prop where
  decode_eq : Row.decode bytes = .ok row
  readTime_eq : row.readTime = .ok readTime
  contents_eq : decodeContents Payload.codec row.contents readTime document.key =
    .ok (document.withReadTime readTime)

namespace ReadBack

variable {document : Document} {readTime : ReadTime} {bytes : Bytes} {row : Row}

theorem rowTime (h : ReadBack document readTime bytes row) : RowTime bytes readTime :=
  ⟨row, h.decode_eq, h.readTime_eq⟩

theorem decodeRow_eq (h : ReadBack document readTime bytes row) :
    decodeRow Payload.codec bytes document.key = .ok (document.withReadTime readTime) := by
  rw [← h.contents_eq]
  exact decodeRow_of_columns (parseRow_eq_ok_iff.mpr h.decode_eq)
    (rowReadTime_eq_ok_iff.mpr h.readTime_eq) _

end ReadBack

/-- The row that an add writes can be read back. -/
theorem exists_readBack {document : Document} {readTime : ReadTime} {rowKey bytes : Bytes}
    (hnamed : document.key.Named)
    (hencode : encodeRow Payload.codec document readTime = .ok (rowKey, bytes))
    (hrange : bytes.length < wordRange 8) : ∃ row, ReadBack document readTime bytes row := by
  have hdecode := decodeRow_encodeRow hnamed hencode hrange
  obtain ⟨hread, -, contents, -, rfl⟩ := encodeRow_cases hencode
  have hlength : (Row.ofReadTime readTime contents).contents.length < wordRange 8 :=
    Nat.lt_trans (Row.length_contents_lt _) hrange
  have hrow := Row.decode_encode hlength
  have htime := Row.readTime_ofReadTime hread contents
  rw [decodeRow_of_columns (parseRow_eq_ok_iff.mpr hrow) (rowReadTime_eq_ok_iff.mpr htime)]
    at hdecode
  exact ⟨_, hrow, htime, hdecode⟩

/-! ## Reads after an add -/

section Reads

variable {ι : Type} {cache after : Cache SharedEngine ι} {document : Document}
  {readTime : ReadTime} {bytes : Bytes} {row : Row}

/-- A lookup of the key answers with the document, and of any other key as before. -/
theorem get_of_wrote (hcodec : cache.codec = Payload.codec)
    (hwrote : cache.Wrote after (RowKey.ofDocument document.key) bytes)
    (hback : ReadBack document readTime bytes row) (key : DocumentKey) :
    (after.get key).1 =
      if key = document.key then .ok (document.withReadTime readTime) else (cache.get key).1 := by
  rw [get_eq hwrote.answers, get_eq hwrote.answered, hwrote.codec_eq]
  by_cases hkey : key = document.key
  · subst hkey
    rw [Table.get?_insert_self, if_pos rfl, hcodec, ← hback.decodeRow_eq]
  · rw [Table.get?_insert_of_ne _ _ (mt RowKey.ofDocument_injective hkey), if_neg hkey]

/-- A lookup that succeeded succeeds still. -/
theorem get_ok_of_wrote (hcodec : cache.codec = Payload.codec)
    (hwrote : cache.Wrote after (RowKey.ofDocument document.key) bytes)
    (hback : ReadBack document readTime bytes row) {key : DocumentKey}
    (h : ∃ held, (cache.get key).1 = .ok held) : ∃ held, (after.get key).1 = .ok held := by
  rw [get_of_wrote hcodec hwrote hback]
  split
  · exact ⟨_, rfl⟩
  · exact h

theorem getAll_ok_of_wrote (hcodec : cache.codec = Payload.codec)
    (hwrote : cache.Wrote after (RowKey.ofDocument document.key) bytes)
    (hback : ReadBack document readTime bytes row) {keys : List DocumentKey}
    (h : ∃ found, (cache.getAll keys).1 = .ok found) :
    ∃ found, (after.getAll keys).1 = .ok found := by
  have hbefore : _ ↔ ∀ key ∈ keys, ∃ held, (cache.get key).1 = .ok held :=
    getAll_ok_iff hwrote.answered hcodec
  have hafter : _ ↔ ∀ key ∈ keys, ∃ held, (after.get key).1 = .ok held :=
    getAll_ok_iff hwrote.answers (hwrote.codec_eq.trans hcodec)
  rw [hafter]
  intro key hkey
  exact get_ok_of_wrote hcodec hwrote hback (hbefore.mp h key hkey)

theorem latestReadTime_ok_of_wrote
    (hwrote : cache.Wrote after (RowKey.ofDocument document.key) bytes)
    (hback : ReadBack document readTime bytes row)
    (h : ∃ latest, cache.latestReadTime.1 = .ok latest) :
    ∃ latest, after.latestReadTime.1 = .ok latest := by
  rw [latestReadTime_eq hwrote.answered, latestOf_ok_iff] at h
  rw [latestReadTime_eq hwrote.answers, latestOf_ok_iff]
  intro entry hmem
  rcases mem_startingWith_insert hmem with rfl | hbefore
  · exact ⟨readTime, hback.rowTime⟩
  · exact h entry hbefore

/-- A scan gets to the rows to be decoded if it did so before the new row was there. -/
theorem pendingRows_ok_of_insert {table : Table} {collection : Path} {since : ReadTime}
    (hnamed : document.key.Named) (hback : ReadBack document readTime bytes row)
    (h : ∃ pending, pendingRows collection since
      (table.startingWith (RowKey.ofCollection collection)) = .ok pending) :
    ∃ pending, pendingRows collection since
      ((table.insert (RowKey.ofDocument document.key) bytes).startingWith
        (RowKey.ofCollection collection)) = .ok pending := by
  rw [pendingRows_ok_iff] at h ⊢
  intro entry hmem
  rcases mem_startingWith_insert hmem with rfl | hbefore
  · obtain rfl := RowKey.ofCollection_isPrefixOf_ofDocument.mp (Table.mem_startingWith.mp hmem).2
    exact (pendingRow_ok_iff hnamed).mpr ⟨row, readTime, hback.decode_eq, hback.readTime_eq⟩
  · exact h entry hbefore

/-- The rows to be decoded are those of before and perhaps the new one. -/
theorem mem_pendingRows_insert {table : Table} {collection : Path} {since : ReadTime}
    {before pending : List Pending} (hnamed : document.key.Named)
    (hback : ReadBack document readTime bytes row)
    (hbefore : pendingRows collection since
      (table.startingWith (RowKey.ofCollection collection)) = .ok before)
    (hpending : pendingRows collection since
      ((table.insert (RowKey.ofDocument document.key) bytes).startingWith
        (RowKey.ofCollection collection)) = .ok pending) {item : Pending} (hmem : item ∈ pending) :
    item = ⟨document.key, row.contents, readTime⟩ ∨ item ∈ before := by
  obtain ⟨entry, hentry, hitem⟩ := (mem_pendingRows_iff hpending).mp hmem
  rcases mem_startingWith_insert hentry with rfl | hheld
  · obtain rfl := RowKey.ofCollection_isPrefixOf_ofDocument.mp (Table.mem_startingWith.mp hentry).2
    obtain ⟨other, time, hother, htime, _, rfl⟩ := (pendingRow_eq_some_iff hnamed).mp hitem
    obtain rfl := Except.ok.inj (hback.decode_eq.symm.trans hother)
    obtain rfl := Except.ok.inj (hback.readTime_eq.symm.trans htime)
    exact .inl rfl
  · exact .inr ((mem_pendingRows_iff hbefore).mpr ⟨entry, hheld, hitem⟩)

/-- A query that succeeded succeeds still, if its conditions answer for the new document. -/
theorem query_ok_of_wrote (hcodec : cache.codec = Payload.codec)
    (hwrote : cache.Wrote after (RowKey.ofDocument document.key) bytes)
    (hnamed : document.key.Named) (hback : ReadBack document readTime bytes row)
    {query : Query} {since : ReadTime} {interrupted : Bool}
    (hanswers : document.isFound = true →
      query.matchesDocument (document.withReadTime readTime) ≠ none)
    (h : ∃ found, (cache.query query since interrupted).1 = .ok found) :
    ∃ found, (after.query query since interrupted).1 = .ok found := by
  obtain ⟨found, h⟩ := h
  rw [query_eq hwrote.answered, hcodec] at h
  rw [query_eq hwrote.answers, hwrote.codec_eq, hcodec]
  obtain ⟨before, hbefore, hfold⟩ := bind_eq_ok_iff.mp h
  obtain ⟨pending, hpending⟩ := pendingRows_ok_of_insert hnamed hback ⟨before, hbefore⟩
  cases interrupted with
  | true => cases hfold
  | false =>
      have hall := (foldlM_keepMatch_ok_iff_succeeds .empty).mp ⟨found, hfold⟩
      have hstill : ∀ item ∈ pending, Succeeds Payload.codec query item := by
        intro item hmem
        rcases mem_pendingRows_insert hnamed hback hbefore hpending hmem with rfl | hheld
        · refine ⟨_, hback.contents_eq, ?_⟩
          rw [Document.isFound_withReadTime]
          exact hanswers
        · exact hall item hheld
      obtain ⟨result, hresult⟩ := (foldlM_keepMatch_ok_iff_succeeds .empty).mpr hstill
      exact ⟨result, bind_eq_ok_iff.mpr ⟨pending, hpending, hresult⟩⟩

end Reads

/-! ## Adds -/

section Adds

variable {ι : Type} [CollectionIndex ι] {cache : Cache SharedEngine ι} {document : Document}
  {readTime : ReadTime}

/-- An add that succeeds under a key without an empty segment makes nothing unreadable: the
document is read back, and every lookup, batch lookup, query and latest read time that was
answered is answered still.  A query must have an answer for the new document, if that is found. -/
theorem add_readable (hcodec : cache.codec = Payload.codec) (hnamed : document.key.Named)
    (hrange : ∀ rowKey row, encodeRow Payload.codec document readTime = .ok (rowKey, row) →
      row.length < wordRange 8)
    (hadd : (cache.add document readTime).1 = .ok ()) :
    ((cache.add document readTime).2.get document.key).1 =
        .ok (document.withReadTime readTime) ∧
      (∀ key, (∃ held, (cache.get key).1 = .ok held) →
        ∃ held, ((cache.add document readTime).2.get key).1 = .ok held) ∧
      (∀ keys, (∃ found, (cache.getAll keys).1 = .ok found) →
        ∃ found, ((cache.add document readTime).2.getAll keys).1 = .ok found) ∧
      (∀ query since interrupted,
        (document.isFound = true →
          query.matchesDocument (document.withReadTime readTime) ≠ none) →
        (∃ found, (cache.query query since interrupted).1 = .ok found) →
          ∃ found, ((cache.add document readTime).2.query query since interrupted).1 =
            .ok found) ∧
      ((∃ latest, cache.latestReadTime.1 = .ok latest) →
        ∃ latest, (cache.add document readTime).2.latestReadTime.1 = .ok latest) := by
  obtain ⟨bytes, hencode, hwrote⟩ := wrote_of_add hcodec hadd
  obtain ⟨row, hback⟩ := exists_readBack hnamed hencode (hrange _ _ hencode)
  refine ⟨?_, ?_, ?_, ?_, latestReadTime_ok_of_wrote hwrote hback⟩
  · rw [get_of_wrote hcodec hwrote hback, if_pos rfl]
  · intro key h
    exact get_ok_of_wrote hcodec hwrote hback h
  · intro keys h
    exact getAll_ok_of_wrote hcodec hwrote hback h
  · intro query since interrupted hanswers h
    exact query_ok_of_wrote hcodec hwrote hnamed hback hanswers h

/-- A document whose key has an empty segment is never read back. -/
theorem get_unnamed (hcodec : cache.codec = Payload.codec) (hunnamed : ¬ document.key.Named)
    (hadd : (cache.add document readTime).1 = .ok ()) :
    ∃ fault, ((cache.add document readTime).2.get document.key).1 =
      .error (.corruptRecord fault) := by
  obtain ⟨bytes, _, hwrote⟩ := wrote_of_add hcodec hadd
  rw [get_eq hwrote.answers, Table.get?_insert_self, hwrote.codec_eq, hcodec]
  apply (decodeRow_failsCorrupt bytes document.key).exists_fault
  intro held hheld
  exact hunnamed (named_of_decodeRow hheld)

/-- A document with an empty name fails every query of its collection. -/
theorem query_unnamed (hcodec : cache.codec = Payload.codec) (hid : document.key.id = "")
    (hadd : (cache.add document readTime).1 = .ok ()) {query : Query}
    (hcollection : document.key.collection = query.collection) (interrupted : Bool) :
    ∃ error, ((cache.add document readTime).2.query query .never interrupted).1 =
      .error error := by
  obtain ⟨bytes, _, hwrote⟩ := wrote_of_add hcodec hadd
  cases hquery : ((cache.add document readTime).2.query query .never interrupted).1 with
  | error error => exact ⟨error, rfl⟩
  | ok found =>
      rw [query_eq hwrote.answers] at hquery
      obtain ⟨pending, hpending, _⟩ := bind_eq_ok_iff.mp hquery
      have hmem : (RowKey.ofDocument document.key, bytes) ∈
          (cache.engine.engine.table.insert (RowKey.ofDocument document.key) bytes).startingWith
            (RowKey.ofCollection query.collection) :=
        Table.mem_startingWith.mpr ⟨Table.get?_insert_self _ _ _,
          RowKey.ofCollection_isPrefixOf_ofDocument.mpr hcollection⟩
      obtain ⟨item, hitem⟩ := pendingRows_ok_iff.mp ⟨pending, hpending⟩ _ hmem
      obtain ⟨row, _, h⟩ := bind_eq_ok_iff.mp hitem
      obtain ⟨time, _, h⟩ := bind_eq_ok_iff.mp h
      rw [if_neg fun hold => hold.1 rfl] at h
      obtain ⟨key, hkey, _⟩ := bind_eq_ok_iff.mp h
      rw [← hcollection] at hkey
      exact absurd hid (keyOfRow_ofDocument_eq_ok_iff.mp hkey).1

end Adds

/-! ## Documents in an empty directory -/

/-- The odd note, as it was read first. -/
def oddReading : Request := ⟨oddNote, .ofSeconds 5⟩

/-- The odd note was deleted, as was seen four seconds later. -/
def oddTombstone : Request := ⟨.deleted (noteKey "odd") .never .never, .ofSeconds 9⟩

theorem oddReading_allowed_short :
    (Call.add oddReading.document oddReading.readTime).Allowed ∧
      (Call.add oddReading.document oddReading.readTime).Short :=
  add_allowed_short (DocumentKey.named_topLevel (by decide) (by decide)) rfl (by decide +kernel)

theorem oddTombstone_allowed_short :
    (Call.add oddTombstone.document oddTombstone.readTime).Allowed ∧
      (Call.add oddTombstone.document oddTombstone.readTime).Short :=
  add_allowed_short (DocumentKey.named_topLevel (by decide) (by decide)) rfl (by decide +kernel)

/-- Another note, as it was read when the odd one was deleted. -/
def evenReading : Request := ⟨.found (noteKey "even") .never .empty .never, .ofSeconds 9⟩

theorem evenReading_allowed_short :
    (Call.add evenReading.document evenReading.readTime).Allowed ∧
      (Call.add evenReading.document evenReading.readTime).Short :=
  add_allowed_short (DocumentKey.named_topLevel (by decide) (by decide)) rfl (by decide +kernel)

/-- All notes. -/
def noteQuery : Query := ⟨⟨["notes"]⟩, rfl, []⟩

/-- When the even note is there already and the odd one is added, both are read back, and all that
was answered is answered still. -/
theorem add_readable_oddNote :
    ∃ cache, history .default [.add evenReading.document evenReading.readTime] = .ok cache ∧
      (cache.get (noteKey "even")).1 = .ok evenReading.stored ∧
      (cache.add oddNote (.ofSeconds 5)).1 = .ok () ∧
      ((cache.add oddNote (.ofSeconds 5)).2.get (noteKey "odd")).1 =
        .ok (oddNote.withReadTime (.ofSeconds 5)) ∧
      (∃ held, ((cache.add oddNote (.ofSeconds 5)).2.get (noteKey "even")).1 = .ok held) ∧
      (∃ found, ((cache.add oddNote (.ofSeconds 5)).2.getAll [noteKey "odd", noteKey "even"]).1 =
        .ok found) ∧
      (∃ found, ((cache.add oddNote (.ofSeconds 5)).2.query noteQuery .never false).1 =
        .ok found) ∧
      ∃ latest, (cache.add oddNote (.ofSeconds 5)).2.latestReadTime.1 = .ok latest := by
  have hvalid : Settings.default.validate = .ok () := rfl
  obtain ⟨hevenNamed, hevenRange⟩ := evenReading_allowed_short.1
  obtain ⟨hnamed, hrange⟩ := oddReading_allowed_short.1
  obtain ⟨opened, hopen, htable, hholds⟩ :=
    openOn_holds hvalid rfl Engine.records_empty rfl stores_empty
  have hanswers := hholds.answersFrom
  rw [htable] at hanswers
  obtain ⟨hevenAdd, hadded⟩ := hholds.add evenReading_allowed_short.1
  have heven := hevenAdd.mpr ⟨rfl, by decide⟩
  have hodd := (hadded.add oddReading_allowed_short.1).1.mpr ⟨rfl, by decide⟩
  have hhistory : history .default [.add evenReading.document evenReading.readTime] =
      .ok (opened.add evenReading.document evenReading.readTime).2 := by
    rw [history, hopen]
    rfl
  -- The cache that was just opened answers everything, and so do the two that follow it.
  have hopenedAll : ∃ found, (opened.getAll [noteKey "odd", noteKey "even"]).1 = .ok found := by
    rw [getAll_eq hanswers]
    exact ⟨_, rfl⟩
  have hopenedQuery : ∃ found, (opened.query noteQuery .never false).1 = .ok found := by
    rw [query_eq hanswers]
    exact ⟨.empty, rfl⟩
  have hopenedLatest : ∃ latest, opened.latestReadTime.1 = .ok latest := by
    rw [latestReadTime_eq hanswers]
    exact ⟨.never, rfl⟩
  obtain ⟨hevenGet, -, hevenAll, hevenQuery, hevenLatest⟩ :=
    add_readable hholds.codec_eq hevenNamed hevenRange heven
  obtain ⟨hget, hgets, hall, hquery, hlatest⟩ :=
    add_readable hadded.codec_eq hnamed hrange hodd
  exact ⟨_, hhistory, hevenGet, hodd, hget, hgets _ ⟨_, hevenGet⟩, hall _ (hevenAll _ hopenedAll),
    hquery _ _ _ (fun _ => Option.some_ne_none true)
      (hevenQuery _ _ _ (fun _ => Option.some_ne_none true) hopenedQuery),
    hlatest (hevenLatest hopenedLatest)⟩

/-- The key of the room without a name, put together segment by segment. -/
def namelessRoomKey : DocumentKey :=
  ⟨(Path.root.child "rooms").child "", by decide, by decide⟩

/-- A tombstone of the room without a name. -/
def namelessRoom : Document := .deleted namelessRoomKey .never .never

/-- The room without a name is added, but it is never read back, and the rooms, which could
be listed before, cannot be listed any more. -/
theorem add_unreadable_namelessRoom :
    ∃ cache, openOn .default .empty = .ok cache ∧
      DocumentKey.ofPath ((Path.root.child "rooms").child "") = .ok namelessRoomKey ∧
      (cache.get namelessRoomKey).1 = .ok (.unknown namelessRoomKey) ∧
      (cache.query roomQuery .never false).1 = .ok .empty ∧
      (cache.add namelessRoom (.ofSeconds 5)).1 = .ok () ∧
      (∃ fault, ((cache.add namelessRoom (.ofSeconds 5)).2.get namelessRoomKey).1 =
        .error (.corruptRecord fault)) ∧
      ∃ error, ((cache.add namelessRoom (.ofSeconds 5)).2.query roomQuery .never false).1 =
        .error error := by
  have hvalid : Settings.default.validate = .ok () := rfl
  obtain ⟨cache, hopen, htable, hholds⟩ :=
    openOn_holds hvalid rfl Engine.records_empty rfl stores_empty
  have hanswers := hholds.answersFrom
  rw [htable] at hanswers
  have hadd : (cache.add namelessRoom (.ofSeconds 5)).1 = .ok () := by
    have hcheck : cache.checkAdd namelessRoomKey (.ofSeconds 5)
        (RowKey.ofDocument namelessRoomKey) = .ok () := by
      rw [checkAdd, hholds.lenient]
      rfl
    have hencode : ∃ row, encodeRow cache.codec namelessRoom (.ofSeconds 5) =
        .ok (RowKey.ofDocument namelessRoomKey, row) := by
      rw [hholds.codec_eq]
      exact encodeRow_of_known rfl (by decide)
    obtain ⟨row, hrow⟩ := hencode
    exact (hholds.works.add hrow hcheck).1
  have hunnamed : ¬ namelessRoom.key.Named := fun hnamed => hnamed.id_ne rfl
  refine ⟨cache, hopen, rfl, ?_, ?_, hadd, ?_, ?_⟩
  · rw [get_eq hanswers]
    rfl
  · rw [query_eq hanswers]
    rfl
  · exact get_unnamed hholds.codec_eq hunnamed hadd
  · exact query_unnamed hholds.codec_eq rfl hadd rfl false

end DocumentCache.Cache
