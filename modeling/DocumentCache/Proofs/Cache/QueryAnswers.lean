import DocumentCache.Proofs.Cache.PendingRows

/-!
# What a query answers

A query answers with the found documents of its collection that were read after the
given time and meet all of its conditions, each as a lookup of its key would give
it, and with nothing else.  It fails, for a corrupt record, exactly if some row of
the collection has no read time, or one that was read after the given time holds no
document of its key.  Rows of other collections, however corrupt, do not matter.
-/

namespace DocumentCache

/-! ## Conditions -/

namespace Query

/-- Every condition ends with an answer. -/
def Total (query : Query) : Prop :=
  ∀ condition ∈ query.conditions, ∀ document, condition document ≠ none

/-- The document is found and meets all conditions. -/
def Wants (query : Query) (document : Document) : Prop :=
  document.isFound = true ∧ ∀ condition ∈ query.conditions, condition document = some true

theorem meetsAll_eq_some_true_iff {document : Document} {conditions : List Condition} :
    meetsAll document conditions = some true ↔
      ∀ condition ∈ conditions, condition document = some true := by
  induction conditions with
  | nil => simp [meetsAll]
  | cons condition rest ih =>
      rw [List.forall_mem_cons, ← ih, meetsAll]
      cases hanswer : condition document with
      | none => simp
      | some answer => cases answer <;> simp

theorem meetsAll_ne_none {document : Document} {conditions : List Condition}
    (htotal : ∀ condition ∈ conditions, condition document ≠ none) :
    meetsAll document conditions ≠ none := by
  induction conditions with
  | nil => simp [meetsAll]
  | cons condition rest ih =>
      obtain ⟨hcondition, hrest⟩ := List.forall_mem_cons.mp htotal
      rw [meetsAll]
      cases hanswer : condition document with
      | none => exact absurd hanswer hcondition
      | some answer =>
          cases answer with
          | false => simp
          | true => exact ih hrest

/-- A document lies directly in its own collection. -/
theorem collection_isParentOf (key : DocumentKey) : key.collection.isParentOf key.path = true := by
  rw [← key.child_collection_id]
  simp [Path.isParentOf, Path.child, Path.length]

theorem Total.matchesDocument_ne_none {query : Query} (h : query.Total) (document : Document) :
    query.matchesDocument document ≠ none := by
  unfold matchesDocument
  split
  · apply meetsAll_ne_none
    intro condition hmem
    exact h condition hmem document
  · simp

theorem matchesDocument_eq {query : Query} {document : Document}
    (hcollection : document.key.collection = query.collection) :
    query.matchesDocument document = meetsAll document query.conditions := by
  rw [matchesDocument, ← hcollection, if_pos (collection_isParentOf document.key)]

end Query

namespace Cache

/-! ## Matches -/

variable {codec : Codec} {query : Query} {collection : Path} {since : ReadTime} {table : Table}

/-- The document that a pending row holds, if the query wants it. -/
def Yields (codec : Codec) (query : Query) (pending : Pending) (document : Document) : Prop :=
  decodeContents codec pending.contents pending.readTime pending.key = .ok document ∧
    document.isFound = true ∧ query.matchesDocument document = some true

theorem yields_iff {pending : Pending} (hcollection : pending.key.collection = query.collection)
    {document : Document} :
    Yields codec query pending document ↔
      decodeContents codec pending.contents pending.readTime pending.key = .ok document ∧
        query.Wants document := by
  refine and_congr_right fun hdecode => and_congr_right fun _ => ?_
  rw [← key_of_decodeContents hdecode] at hcollection
  rw [Query.matchesDocument_eq hcollection, Query.meetsAll_eq_some_true_iff]

/-- A row that is decoded is kept or passed over. -/
theorem keepMatch_eq_ok {pending : Pending} {found after : DocumentMap}
    (h : keepMatch codec query found pending = .ok after) :
    (∃ document, Yields codec query pending document ∧
        after = found.insert pending.key document) ∨
      (∀ document, ¬ Yields codec query pending document) ∧ after = found := by
  simp only [keepMatch, Yields] at h ⊢
  cases hdecode : decodeContents codec pending.contents pending.readTime pending.key with
  | error error => simp [hdecode] at h
  | ok document =>
      simp only [hdecode] at h
      by_cases hfound : document.isFound = true
      · rw [if_pos hfound] at h
        cases hmatches : query.matchesDocument document with
        | none => simp [hmatches] at h
        | some answer =>
            simp only [hmatches] at h
            cases answer with
            | true => exact .inl ⟨document, ⟨rfl, hfound, hmatches⟩, (Except.ok.inj h).symm⟩
            | false =>
                refine .inr ⟨?_, (Except.ok.inj h).symm⟩
                rintro _ ⟨hsame, _, hother⟩
                obtain rfl := Except.ok.inj hsame
                rw [hmatches] at hother
                cases hother
      · rw [if_neg hfound] at h
        refine .inr ⟨?_, (Except.ok.inj h).symm⟩
        rintro _ ⟨hsame, hother, _⟩
        obtain rfl := Except.ok.inj hsame
        exact hfound hother

/-- The row can be decoded, and the conditions tried on its document have an answer. -/
def Succeeds (codec : Codec) (query : Query) (pending : Pending) : Prop :=
  ∃ document, decodeContents codec pending.contents pending.readTime pending.key = .ok document ∧
    (document.isFound = true → query.matchesDocument document ≠ none)

theorem keepMatch_ok_iff_succeeds {pending : Pending} (found : DocumentMap) :
    (∃ after, keepMatch codec query found pending = .ok after) ↔
      Succeeds codec query pending := by
  unfold keepMatch Succeeds
  cases decodeContents codec pending.contents pending.readTime pending.key with
  | error error => simp
  | ok document =>
      simp only [Except.ok.injEq, exists_eq_left']
      by_cases hfound : document.isFound = true
      · rw [if_pos hfound]
        cases query.matchesDocument document with
        | none => simp [hfound]
        | some answer => cases answer <;> simp
      · rw [if_neg hfound]
        simp [hfound]

/-- With conditions that always answer, only a row that cannot be decoded fails. -/
theorem succeeds_iff_of_total (htotal : query.Total) {pending : Pending} :
    Succeeds codec query pending ↔
      ∃ document,
        decodeContents codec pending.contents pending.readTime pending.key = .ok document :=
  exists_congr fun document =>
    and_iff_left fun _ => htotal.matchesDocument_ne_none document

theorem keepMatch_ok_iff (htotal : query.Total) {pending : Pending} (found : DocumentMap) :
    (∃ after, keepMatch codec query found pending = .ok after) ↔
      ∃ document,
        decodeContents codec pending.contents pending.readTime pending.key = .ok document :=
  (keepMatch_ok_iff_succeeds found).trans (succeeds_iff_of_total htotal)

theorem keepMatch_failsCorrupt (htotal : query.Total) (found : DocumentMap) (pending : Pending) :
    FailsCorrupt (keepMatch Payload.codec query found pending) := by
  intro error h
  have hdecode : ∀ document,
      decodeContents Payload.codec pending.contents pending.readTime pending.key ≠
        .ok document := by
    intro document hok
    obtain ⟨after, hafter⟩ := (keepMatch_ok_iff htotal found).mpr ⟨document, hok⟩
    rw [hafter] at h
    cases h
  obtain ⟨fault, hfault⟩ := (decodeContents_failsCorrupt pending.contents pending.readTime
    pending.key).exists_fault hdecode
  simp only [keepMatch, hfault] at h
  exact ⟨fault, (Except.error.inj h).symm⟩

/-! ## All rows of a scan -/

theorem foldlM_keepMatch_failsCorrupt (htotal : query.Total) (pending : List Pending)
    (found : DocumentMap) :
    FailsCorrupt (pending.foldlM (keepMatch Payload.codec query) found) :=
  .foldlM (fun item _ found => keepMatch_failsCorrupt htotal found item) found

theorem foldlM_keepMatch_ok_iff_succeeds {pending : List Pending} (found : DocumentMap) :
    (∃ result, pending.foldlM (keepMatch codec query) found = .ok result) ↔
      ∀ item ∈ pending, Succeeds codec query item := by
  induction pending generalizing found with
  | nil => exact iff_of_true ⟨found, rfl⟩ (List.forall_mem_nil _)
  | cons item rest ih =>
      simp only [List.foldlM_cons, bind_eq_ok_iff, List.forall_mem_cons]
      rw [← keepMatch_ok_iff_succeeds found]
      constructor
      · rintro ⟨result, middle, hmiddle, hresult⟩
        exact ⟨⟨middle, hmiddle⟩, (ih middle).mp ⟨result, hresult⟩⟩
      · rintro ⟨⟨middle, hmiddle⟩, hrest⟩
        obtain ⟨result, hresult⟩ := (ih middle).mpr hrest
        exact ⟨result, middle, hmiddle, hresult⟩

theorem foldlM_keepMatch_ok_iff (htotal : query.Total) {pending : List Pending}
    (found : DocumentMap) :
    (∃ result, pending.foldlM (keepMatch codec query) found = .ok result) ↔
      ∀ item ∈ pending, ∃ document,
        decodeContents codec item.contents item.readTime item.key = .ok document := by
  rw [foldlM_keepMatch_ok_iff_succeeds]
  exact forall₂_congr fun _ _ => succeeds_iff_of_total htotal

theorem get?_insert_iff {found : DocumentMap} {key other : DocumentKey} {held document : Document}
    (hnew : found.get? other = none) :
    (found.insert other held).get? key = some document ↔
      found.get? key = some document ∨ other = key ∧ held = document := by
  by_cases hkey : key = other
  · subst hkey
    simp [hnew]
  · rw [OrderedMap.get?_insert_of_ne _ _ hkey]
    simp [Ne.symm hkey]

/-- What a scan finds is what its rows yield. -/
theorem get?_foldlM_keepMatch {pending : List Pending} {found result : DocumentMap}
    (hdistinct : pending.Pairwise fun first second => first.key ≠ second.key)
    (hnew : ∀ item ∈ pending, found.get? item.key = none)
    (h : pending.foldlM (keepMatch codec query) found = .ok result) {key : DocumentKey}
    {document : Document} :
    result.get? key = some document ↔
      found.get? key = some document ∨
        ∃ item ∈ pending, item.key = key ∧ Yields codec query item document := by
  induction pending generalizing found with
  | nil =>
      obtain rfl := Except.ok.inj h
      simp
  | cons item rest ih =>
      obtain ⟨hitem, hrest⟩ := List.pairwise_cons.mp hdistinct
      obtain ⟨hnewItem, hnewRest⟩ := List.forall_mem_cons.mp hnew
      rw [List.foldlM_cons] at h
      obtain ⟨middle, hmiddle, hresult⟩ := bind_eq_ok_iff.mp h
      simp only [List.mem_cons, exists_eq_or_imp]
      rcases keepMatch_eq_ok hmiddle with ⟨held, hheld, rfl⟩ | ⟨hnone, rfl⟩
      · have hnewMiddle : ∀ other ∈ rest, (found.insert item.key held).get? other.key = none := by
          intro other hmem
          rw [OrderedMap.get?_insert_of_ne _ _ (Ne.symm (hitem other hmem))]
          exact hnewRest other hmem
        have hyields : Yields codec query item document ↔ held = document := by
          constructor
          · intro hother
            exact Except.ok.inj (hheld.1.symm.trans hother.1)
          · rintro rfl
            exact hheld
        rw [ih hrest hnewMiddle hresult, get?_insert_iff hnewItem, hyields, or_assoc]
      · rw [ih hrest hnewRest hresult]
        simp [hnone document]

/-! ## Queries -/

/-- A row of the collection has no read time, or it was read after the given time and
holds no known document of its key. -/
inductive Spoiled (table : Table) (collection : Path) (since : ReadTime) : Prop where
  | columns (key : DocumentKey) (bytes : Bytes) (hcollection : key.collection = collection)
      (hheld : table.get? (RowKey.ofDocument key) = some bytes)
      (hcolumns : ∀ row readTime, Row.decode bytes = .ok row → row.readTime ≠ .ok readTime)
  | payload (key : DocumentKey) (row : Row) (readTime : ReadTime)
      (hcollection : key.collection = collection) (hrow : HoldsRow table key row readTime)
      (hrecent : Recent since readTime)
      (hpayload : ∀ document, Payload.decode row.contents = .ok document →
        document.isKnown = true → document.key ≠ key)

/-- A scan succeeds unless a row of the collection is spoiled. -/
theorem scanAnswer_ok_iff (hnamed : KeysNamed table) (htotal : query.Total) :
    (∃ found, scanAnswer Payload.codec query since false
        (table.startingWith (RowKey.ofCollection query.collection)) = .ok found) ↔
      ¬ Spoiled table query.collection since := by
  simp only [scanAnswer, bind_eq_ok_iff, Bool.false_eq_true, if_false]
  constructor
  · rintro ⟨found, pending, hpending, hfound⟩ hspoiled
    have hdecode := (foldlM_keepMatch_ok_iff htotal .empty).mp ⟨found, hfound⟩
    cases hspoiled with
    | columns key bytes hcollection hheld hcolumns =>
        obtain ⟨row, readTime, hrow, hread⟩ :=
          (pendingRows_collection_ok_iff hnamed).mp ⟨pending, hpending⟩ key bytes hcollection hheld
        exact hcolumns row readTime hrow hread
    | payload key row readTime hcollection hrow hrecent hpayload =>
        have hmem : (⟨key, row.contents, readTime⟩ : Pending) ∈ pending :=
          (mem_pendingRows_collection_iff hnamed hpending).mpr
            ⟨hcollection, hrecent, row, hrow, rfl⟩
        obtain ⟨document, hdocument⟩ := hdecode _ hmem
        obtain ⟨stored, hstored, hknown, hkey, _⟩ :=
          decodeContents_payload_eq_ok_iff.mp hdocument
        exact hpayload stored hstored hknown hkey
  · intro hsound
    have hcolumns : ∀ key bytes, key.collection = query.collection →
        table.get? (RowKey.ofDocument key) = some bytes →
          ∃ row readTime, Row.decode bytes = .ok row ∧ row.readTime = .ok readTime := by
      intro key bytes hcollection hheld
      apply Classical.byContradiction
      intro hnone
      apply hsound
      apply Spoiled.columns key bytes hcollection hheld
      intro row readTime hrow hread
      exact hnone ⟨row, readTime, hrow, hread⟩
    obtain ⟨pending, hpending⟩ := (pendingRows_collection_ok_iff hnamed).mpr hcolumns
    have hdecode : ∀ item ∈ pending, ∃ document,
        decodeContents Payload.codec item.contents item.readTime item.key = .ok document := by
      intro item hmem
      obtain ⟨hcollection, hrecent, row, hrow, hcontents⟩ :=
        (mem_pendingRows_collection_iff hnamed hpending).mp hmem
      apply Classical.byContradiction
      intro hnone
      apply hsound
      apply Spoiled.payload item.key row item.readTime hcollection hrow hrecent
      intro stored hstored hknown hkey
      apply hnone
      rw [hcontents]
      exact ⟨_, decodeContents_payload_eq_ok_iff.mpr ⟨stored, hstored, hknown, hkey, rfl⟩⟩
    obtain ⟨found, hfound⟩ := (foldlM_keepMatch_ok_iff htotal .empty).mpr hdecode
    exact ⟨found, pending, hpending, hfound⟩

theorem scanAnswer_failsCorrupt (htotal : query.Total) (rows : List (Bytes × Bytes)) :
    FailsCorrupt (scanAnswer Payload.codec query since false rows) :=
  .bind (pendingRows_failsCorrupt rows) fun pending =>
    foldlM_keepMatch_failsCorrupt htotal pending .empty

/-- A scan finds the documents of the recent rows of its collection that it wants. -/
theorem get?_scanAnswer_iff (hnamed : KeysNamed table) {found : DocumentMap}
    (h : scanAnswer Payload.codec query since false
      (table.startingWith (RowKey.ofCollection query.collection)) = .ok found)
    {key : DocumentKey} {document : Document} :
    found.get? key = some document ↔
      key.collection = query.collection ∧
        (∃ row readTime, HoldsRow table key row readTime ∧ Recent since readTime ∧
          decodeContents Payload.codec row.contents readTime key = .ok document) ∧
        query.Wants document := by
  obtain ⟨pending, hpending, hfound⟩ := bind_eq_ok_iff.mp h
  have hget : found.get? key = some document ↔ _ :=
    get?_foldlM_keepMatch ((hnamed.rowsNamed _).pairwise_pendingRows hpending) (fun _ _ => rfl)
      hfound
  rw [hget]
  constructor
  · rintro (hnone | ⟨item, hmem, rfl, hyields⟩)
    · cases hnone
    · obtain ⟨hcollection, hrecent, row, hrow, hcontents⟩ :=
        (mem_pendingRows_collection_iff hnamed hpending).mp hmem
      obtain ⟨hdecode, hwants⟩ := (yields_iff hcollection).mp hyields
      rw [hcontents] at hdecode
      exact ⟨hcollection, ⟨row, item.readTime, hrow, hrecent, hdecode⟩, hwants⟩
  · rintro ⟨hcollection, ⟨row, readTime, hrow, hrecent, hdecode⟩, hwants⟩
    have hmem : (⟨key, row.contents, readTime⟩ : Pending) ∈ pending :=
      (mem_pendingRows_collection_iff hnamed hpending).mpr ⟨hcollection, hrecent, row, hrow, rfl⟩
    exact .inr ⟨_, hmem, rfl, (yields_iff hcollection).mpr ⟨hdecode, hwants⟩⟩

/-- What a lookup says of a row that has a read time. -/
theorem get_of_holdsRow {σ ι : Type} [KeyValueEngine σ] {cache : Cache σ ι}
    (hanswers : AnswersFrom cache.engine table) {key : DocumentKey} {row : Row}
    {readTime : ReadTime} (hrow : HoldsRow table key row readTime) :
    (cache.get key).1 = decodeContents cache.codec row.contents readTime key := by
  obtain ⟨bytes, hheld, hparse, hread⟩ := hrow
  rw [get_eq hanswers, hheld]
  exact decodeRow_of_columns (parseRow_eq_ok_iff.mpr hparse) (rowReadTime_eq_ok_iff.mpr hread) key

/-- A query of a table fails, for a corrupt record, if a row of its collection is
spoiled; otherwise it answers with the found documents of the recent rows of its
collection that meet all conditions, as lookups give them. -/
theorem query_answers {σ ι : Type} [KeyValueEngine σ] {cache : Cache σ ι}
    (hanswers : AnswersFrom cache.engine table) (hcodec : cache.codec = Payload.codec)
    (hnamed : KeysNamed table) (query : Query) (htotal : query.Total) (since : ReadTime) :
    (Spoiled table query.collection since →
        ∃ fault, (cache.query query since false).1 = .error (.corruptRecord fault)) ∧
      (¬ Spoiled table query.collection since →
        ∃ found, (cache.query query since false).1 = .ok found ∧
          ∀ key document, found.get? key = some document ↔
            key.collection = query.collection ∧
              (∃ row readTime, HoldsRow table key row readTime ∧ Recent since readTime) ∧
              (cache.get key).1 = .ok document ∧ document.isFound = true ∧
              ∀ condition ∈ query.conditions, condition document = some true) := by
  rw [query_eq hanswers, hcodec]
  have hok : _ ↔ ¬ Spoiled table query.collection since := scanAnswer_ok_iff hnamed htotal
  constructor
  · intro hspoiled
    apply (scanAnswer_failsCorrupt htotal _).exists_fault
    intro found hfound
    exact hok.mp ⟨found, hfound⟩ hspoiled
  · intro hsound
    obtain ⟨found, hfound⟩ := hok.mpr hsound
    refine ⟨found, hfound, ?_⟩
    intro key document
    rw [get?_scanAnswer_iff hnamed hfound]
    refine and_congr_right fun _ => ?_
    constructor
    · rintro ⟨⟨row, readTime, hrow, hrecent, hdecode⟩, hwants⟩
      rw [← hcodec, ← get_of_holdsRow hanswers hrow] at hdecode
      exact ⟨⟨row, readTime, hrow, hrecent⟩, hdecode, hwants⟩
    · rintro ⟨⟨row, readTime, hrow, hrecent⟩, hget, hwants⟩
      rw [get_of_holdsRow hanswers hrow, hcodec] at hget
      exact ⟨⟨row, readTime, hrow, hrecent, hget⟩, hwants⟩

/-! ## A table with a row that nobody should read -/

theorem keysNamed_empty : KeysNamed .empty := by
  intro rowKey bytes hheld
  cases hheld

theorem KeysNamed.insert (hnamed : KeysNamed table) {key : DocumentKey} (hkey : key.Named)
    (bytes : Bytes) : KeysNamed (table.insert (RowKey.ofDocument key) bytes) := by
  intro rowKey held hheld hbegins
  by_cases hrowKey : rowKey = RowKey.ofDocument key
  · exact ⟨key, hkey, hrowKey⟩
  · rw [Table.get?_insert_of_ne _ _ hrowKey] at hheld
    exact hnamed rowKey held hheld hbegins

/-- The document `name` of the collection `rooms`. -/
def roomKey (name : String) : DocumentKey := .topLevel "rooms" name

/-- The row of room `a`, read at five seconds. -/
def soundRow : Row :=
  .ofReadTime (.ofSeconds 5)
    (Payload.frame (Payload.foundBody (roomKey "a") .never .empty))

/-- The row of room `b`, read at three seconds, whose payload is no document. -/
def brokenRow : Row := .ofReadTime (.ofSeconds 3) [9]

def roomTable : Table :=
  (Table.empty.insert (RowKey.ofDocument (roomKey "b")) brokenRow.encode).insert
    (RowKey.ofDocument (roomKey "a")) soundRow.encode

def roomCache : Cache SharedEngine ParentIndex :=
  ⟨.ofEngine ⟨.default, roomTable, ⟨.empty, false, 0, true⟩⟩, .empty, Payload.codec, .default, .zero⟩

/-- All documents of the collection `rooms`. -/
def roomQuery : Query := ⟨⟨["rooms"]⟩, rfl, []⟩

theorem keysNamed_roomTable : KeysNamed roomTable := by
  have hsound : (roomKey "a").Named := DocumentKey.named_topLevel (by decide) (by decide)
  have hbroken : (roomKey "b").Named := DocumentKey.named_topLevel (by decide) (by decide)
  exact (keysNamed_empty.insert hbroken _).insert hsound _

theorem get?_roomTable {key : DocumentKey} {bytes : Bytes}
    (hheld : roomTable.get? (RowKey.ofDocument key) = some bytes) :
    key = roomKey "a" ∧ bytes = soundRow.encode ∨ key = roomKey "b" ∧ bytes = brokenRow.encode := by
  by_cases hsound : key = roomKey "a"
  · subst hsound
    rw [roomTable, Table.get?_insert_self] at hheld
    exact .inl ⟨rfl, (Option.some.inj hheld).symm⟩
  · rw [roomTable, Table.get?_insert_of_ne _ _ (mt RowKey.ofDocument_injective hsound)] at hheld
    by_cases hbroken : key = roomKey "b"
    · subst hbroken
      rw [Table.get?_insert_self] at hheld
      exact .inr ⟨rfl, (Option.some.inj hheld).symm⟩
    · rw [Table.get?_insert_of_ne _ _ (mt RowKey.ofDocument_injective hbroken)] at hheld
      cases hheld

theorem decode_soundRow : Row.decode soundRow.encode = .ok soundRow :=
  Row.decode_encode (by decide +kernel)

theorem decode_brokenRow : Row.decode brokenRow.encode = .ok brokenRow :=
  Row.decode_encode (by decide)

theorem decode_soundRow_contents :
    Payload.decode soundRow.contents = .ok (.found (roomKey "a") .never .empty .never) := by
  have hnamed : (Document.found (roomKey "a") .never .empty .never).key.Named :=
    keysNamed_roomTable.named (Table.get?_insert_self _ _ _)
  have hencode : Payload.encode (.found (roomKey "a") .never .empty .never) =
      .ok soundRow.contents := rfl
  have hfits := Payload.fits_of_encode hencode (by decide +kernel)
  exact Payload.decode_encode hnamed hfits hencode

theorem holdsRow_soundRow :
    HoldsRow roomTable (roomKey "a") soundRow (.ofSeconds 5) :=
  ⟨_, Table.get?_insert_self _ _ _, decode_soundRow, Row.readTime_ofReadTime (by decide) _⟩

theorem holdsRow_brokenRow :
    HoldsRow roomTable (roomKey "b") brokenRow (.ofSeconds 3) := by
  have hother : RowKey.ofDocument (roomKey "b") ≠ RowKey.ofDocument (roomKey "a") :=
    mt RowKey.ofDocument_injective (by decide)
  refine ⟨_, ?_, decode_brokenRow, Row.readTime_ofReadTime (by decide) _⟩
  rw [roomTable, Table.get?_insert_of_ne _ _ hother]
  exact Table.get?_insert_self _ _ _

theorem not_recent_brokenRow {row : Row} {readTime : ReadTime}
    (hrow : HoldsRow roomTable (roomKey "b") row readTime) :
    ¬ Recent (.ofSeconds 4) readTime := by
  obtain ⟨bytes, hheld, hparse, hread⟩ := hrow
  rcases get?_roomTable hheld with ⟨hkey, _⟩ | ⟨_, rfl⟩
  · exact absurd hkey (by decide)
  · obtain rfl := Except.ok.inj (decode_brokenRow.symm.trans hparse)
    obtain rfl := Except.ok.inj ((Row.readTime_ofReadTime (by decide) _).symm.trans hread)
    unfold Recent
    decide

/-- The broken row does not spoil what was read after four seconds. -/
theorem not_spoiled_roomTable : ¬ Spoiled roomTable ⟨["rooms"]⟩ (.ofSeconds 4) := by
  intro hspoiled
  cases hspoiled with
  | columns key bytes _ hheld hcolumns =>
      rcases get?_roomTable hheld with ⟨_, rfl⟩ | ⟨_, rfl⟩
      · exact hcolumns _ _ decode_soundRow (Row.readTime_ofReadTime (by decide) _)
      · exact hcolumns _ _ decode_brokenRow (Row.readTime_ofReadTime (by decide) _)
  | payload key row readTime _ hrow hrecent hpayload =>
      have ⟨bytes, hheld, hparse, _⟩ := hrow
      rcases get?_roomTable hheld with ⟨rfl, rfl⟩ | ⟨rfl, rfl⟩
      · obtain rfl := Except.ok.inj (decode_soundRow.symm.trans hparse)
        exact hpayload _ decode_soundRow_contents rfl rfl
      · exact not_recent_brokenRow hrow hrecent

/-- A query of all rooms fails for the broken row; one of those read after four seconds
answers with the sound one. -/
theorem query_answers_roomTable :
    (∃ fault, (roomCache.query roomQuery .never false).1 = .error (.corruptRecord fault)) ∧
    ∃ found, (roomCache.query roomQuery (.ofSeconds 4) false).1 = .ok found ∧
      found.get? (roomKey "a") =
        some (.found (roomKey "a") .never .empty (.ofSeconds 5)) ∧
      ∀ document, found.get? (roomKey "b") ≠ some document := by
  have hanswers : AnswersFrom roomCache.engine roomTable := SharedEngine.answersFrom rfl
  have htotal : roomQuery.Total := fun _ hmem => by cases hmem
  have hspoiled : Spoiled roomTable ⟨["rooms"]⟩ .never :=
    .payload (roomKey "b") brokenRow _ rfl holdsRow_brokenRow (.inl rfl) fun _ hdecode => by
      cases hdecode
  refine ⟨(query_answers hanswers rfl keysNamed_roomTable roomQuery htotal .never).1 hspoiled, ?_⟩
  obtain ⟨found, hfound, hget⟩ := (query_answers hanswers rfl keysNamed_roomTable roomQuery htotal
    (.ofSeconds 4)).2 not_spoiled_roomTable
  refine ⟨found, hfound, ?_, ?_⟩
  · have hlookup : (roomCache.get (roomKey "a")).1 =
        .ok (.found (roomKey "a") .never .empty (.ofSeconds 5)) := by
      rw [get_of_holdsRow hanswers holdsRow_soundRow]
      exact decodeContents_payload_eq_ok_iff.mpr ⟨_, decode_soundRow_contents, rfl, rfl, rfl⟩
    refine (hget _ _).mpr ⟨rfl, ⟨_, _, holdsRow_soundRow, ?_⟩, hlookup, rfl, ?_⟩
    · unfold Recent
      decide
    · intro _ hmem
      cases hmem
  · intro document hheld
    obtain ⟨_, ⟨_, _, hrow, hrecent⟩, _⟩ := (hget _ _).mp hheld
    exact not_recent_brokenRow hrow hrecent

end Cache

end DocumentCache
