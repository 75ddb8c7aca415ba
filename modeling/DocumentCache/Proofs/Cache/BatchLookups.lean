import DocumentCache.Proofs.Cache.QueryAnswers

/-!
# A batch lookup is many lookups

A batch lookup reads, collection by collection, the rows from the smallest to the
largest one requested.  Among these it keeps the requested ones, so what it decodes are
the rows of the requested keys, whatever else is stored between them.  It succeeds if
the lookup of every requested key does, and then says of each what that lookup says.
-/

namespace DocumentCache.Cache

/-! ## Requested rows -/

/-- The row keys of a collection among those asked for. -/
def requestedOf (groups : OrderedMap Path (OrderedSet Bytes)) (collection : Path) :
    OrderedSet Bytes :=
  (groups.get? collection).getD .empty

theorem requestedOf_insert (groups : OrderedMap Path (OrderedSet Bytes)) (collection other : Path)
    (requested : OrderedSet Bytes) :
    requestedOf (groups.insert collection requested) other =
      if other = collection then requested else requestedOf groups other := by
  unfold requestedOf
  split
  · next hsame => rw [hsame, OrderedMap.get?_insert_self, Option.getD_some]
  · next hother => rw [OrderedMap.get?_insert_of_ne _ _ hother]

/-- What is asked for in a collection are the row keys of the requested keys in it. -/
theorem contains_requestedRows_iff {keys : List DocumentKey} {collection : Path} {rowKey : Bytes} :
    (requestedOf (requestedRows keys) collection).contains rowKey = true ↔
      ∃ key ∈ keys, key.collection = collection ∧ rowKey = RowKey.ofDocument key := by
  have hfold : ∀ groups : OrderedMap Path (OrderedSet Bytes),
      (requestedOf (keys.foldl (fun groups key =>
          let rows := (groups.get? key.collection).getD .empty
          groups.insert key.collection (rows.insert (RowKey.ofDocument key) ())) groups)
        collection).contains rowKey = true ↔
        (requestedOf groups collection).contains rowKey = true ∨
          ∃ key ∈ keys, key.collection = collection ∧ rowKey = RowKey.ofDocument key := by
    induction keys with
    | nil => simp
    | cons key rest ih =>
        intro groups
        rw [List.foldl_cons, ih, requestedOf_insert]
        simp only [List.mem_cons, exists_eq_or_imp, ← or_assoc]
        refine or_congr_left ?_
        by_cases hcollection : collection = key.collection
        · subst hcollection
          rw [if_pos rfl, OrderedMap.contains_insert_iff, or_comm]
          exact or_congr Iff.rfl (and_iff_right rfl).symm
        · rw [if_neg hcollection]
          exact (or_iff_left fun h => hcollection h.1.symm).symm
  refine (hfold .empty).trans (or_iff_right ?_)
  intro h
  cases h

variable {σ ι : Type} [KeyValueEngine σ] {engine : σ} {table : Table} {codec : Codec}

/-- The span of the requested rows holds all of them. -/
theorem filter_readSpan (hanswers : AnswersFrom engine table) (requested : OrderedSet Bytes) :
    ∃ rows, readSpan engine requested = .ok rows ∧
      (rows.filter fun entry => requested.contains entry.1) =
        table.toList.filter fun entry => requested.contains entry.1 := by
  unfold readSpan
  split
  · next first last hfirst hlast =>
      refine ⟨_, hanswers.between first last, ?_⟩
      rw [Table.between_eq_filter, List.filter_filter]
      apply List.filter_congr
      intro entry _
      cases hrequested : requested.contains entry.1 with
      | false => rfl
      | true =>
          have hmem := OrderedMap.contains_iff_mem_keys.mp hrequested
          rw [OrderedMap.head_le_of_mem_keys hfirst hmem, OrderedMap.le_last_of_mem_keys hlast hmem]
          rfl
  · next hnone =>
      refine ⟨[], rfl, (List.filter_eq_nil_iff.mpr ?_).symm⟩
      intro entry _ hrequested
      have hmem := OrderedMap.contains_iff_mem_keys.mp hrequested
      cases hkeys : requested.keys with
      | nil =>
          rw [hkeys] at hmem
          cases hmem
      | cons first rest =>
          exact hnone first ((first :: rest).getLast (List.cons_ne_nil _ _))
            (by rw [hkeys, List.head?_cons]) (by rw [hkeys, List.getLast?_eq_some_getLast])

/-- The document of a requested row and its key, from the collection, the row key and the
row. -/
def readRequested (codec : Codec) (item : Path × Bytes × Bytes) :
    Except Error (DocumentKey × Document) := do
  let key ← keyOfRow item.1 item.2.1
  let document ← decodeRow codec item.2.2 key
  return (key, document)

/-- Read one requested row and put its document into the answer. -/
def keepRequested (codec : Codec) (found : DocumentMap) (item : Path × Bytes × Bytes) :
    Except Error DocumentMap := do
  let entry ← readRequested codec item
  return found.insert entry.1 entry.2

/-- The rows of a collection that are requested, each with the collection. -/
def requestedEntries (table : Table) (group : Path × OrderedSet Bytes) :
    List (Path × Bytes × Bytes) :=
  (table.toList.filter fun entry => group.2.contains entry.1).map (Prod.mk group.1)

/-- All rows that are requested, each with its collection. -/
def requestedItems (table : Table) (keys : List DocumentKey) : List (Path × Bytes × Bytes) :=
  (requestedRows keys).entries.flatMap (requestedEntries table)

theorem collectRows_eq (collection : Path) (requested : OrderedSet Bytes)
    (rows : List (Bytes × Bytes)) (found : DocumentMap) :
    collectRows codec collection requested rows found =
      ((rows.filter fun entry => requested.contains entry.1).map (Prod.mk collection)).foldlM
        (keepRequested codec) found := by
  induction rows generalizing found with
  | nil => rfl
  | cons entry rest ih =>
      obtain ⟨rowKey, bytes⟩ := entry
      unfold collectRows
      split
      · next hrequested =>
          simp only [List.filter_cons, hrequested, if_true, List.map_cons, List.foldlM_cons,
            keepRequested, readRequested, bind_assoc, pure_bind, ih]
      · next hskipped =>
          simp only [List.filter_cons, hskipped, Bool.false_eq_true, if_false, ih]

theorem collectGroups_eq (hanswers : AnswersFrom engine table)
    (groups : List (Path × OrderedSet Bytes)) (found : DocumentMap) (rowsRead : Nat) :
    Prod.fst <$> collectGroups engine codec groups (found, rowsRead) =
      (groups.flatMap (requestedEntries table)).foldlM (keepRequested codec) found := by
  induction groups generalizing found rowsRead with
  | nil => rfl
  | cons group rest ih =>
      obtain ⟨collection, requested⟩ := group
      obtain ⟨rows, hrows, hfilter⟩ := filter_readSpan hanswers requested
      rw [collectGroups, hrows, List.flatMap_cons, List.foldlM_append, requestedEntries, ← hfilter,
        ← collectRows_eq]
      change Prod.fst <$> (collectRows codec collection requested rows found >>= fun found =>
        collectGroups engine codec rest (found, rowsRead + rows.length)) = _
      rw [map_bind]
      simp only [ih]

/-- What is said of keys before their rows are read. -/
def unknownDocuments (keys : List DocumentKey) : DocumentMap :=
  keys.foldl (fun found key => found.insert key (.unknown key)) .empty

/-- A batch lookup reads the requested rows one after another. -/
theorem getAll_eq {cache : Cache σ ι} (hanswers : AnswersFrom cache.engine table)
    (keys : List DocumentKey) :
    (cache.getAll keys).1 =
      (requestedItems table keys).foldlM (keepRequested cache.codec) (unknownDocuments keys) := by
  rw [requestedItems, ← collectGroups_eq hanswers _ _ 0, getAll_fst, unknownDocuments]

theorem get?_unknownDocuments_iff {keys : List DocumentKey} {key : DocumentKey}
    {document : Document} :
    (unknownDocuments keys).get? key = some document ↔ key ∈ keys ∧ document = .unknown key := by
  have hfold : ∀ found : DocumentMap,
      (keys.foldl (fun found key => found.insert key (.unknown key)) found).get? key =
          some document ↔
        key ∈ keys ∧ document = .unknown key ∨ key ∉ keys ∧ found.get? key = some document := by
    induction keys with
    | nil => simp
    | cons first rest ih =>
        intro found
        rw [List.foldl_cons, ih, List.mem_cons]
        by_cases hfirst : key = first
        · subst hfirst
          rw [OrderedMap.get?_insert_self, Option.some.injEq, eq_comm (a := Document.unknown key)]
          by_cases hmem : key ∈ rest <;> simp [hmem]
        · rw [OrderedMap.get?_insert_of_ne _ _ hfirst]
          simp [hfirst]
  refine (hfold .empty).trans (or_iff_left ?_)
  rintro ⟨_, hnone⟩
  cases hnone

/-! ## Which rows are read -/

theorem requestedOf_of_mem {groups : OrderedMap Path (OrderedSet Bytes)}
    {group : Path × OrderedSet Bytes} (hmem : group ∈ groups.entries) :
    requestedOf groups group.1 = group.2 := by
  rw [requestedOf, OrderedMap.get?_eq_some_iff.mpr hmem, Option.getD_some]

theorem mem_of_contains_requestedOf {groups : OrderedMap Path (OrderedSet Bytes)}
    {collection : Path} {rowKey : Bytes}
    (h : (requestedOf groups collection).contains rowKey = true) :
    (collection, requestedOf groups collection) ∈ groups.entries := by
  rw [← OrderedMap.get?_eq_some_iff]
  unfold requestedOf at h ⊢
  cases hgroup : groups.get? collection with
  | none =>
      rw [hgroup] at h
      cases h
  | some requested => rfl

theorem mem_requestedItems_iff {keys : List DocumentKey} {item : Path × Bytes × Bytes} :
    item ∈ requestedItems table keys ↔
      ∃ key ∈ keys, ∃ bytes, table.get? (RowKey.ofDocument key) = some bytes ∧
        item = (key.collection, RowKey.ofDocument key, bytes) := by
  simp only [requestedItems, requestedEntries, List.mem_flatMap, List.mem_map, List.mem_filter]
  constructor
  · rintro ⟨group, hgroup, entry, ⟨hheld, hrequested⟩, rfl⟩
    rw [← requestedOf_of_mem hgroup, contains_requestedRows_iff] at hrequested
    obtain ⟨key, hkey, hcollection, hrowKey⟩ := hrequested
    refine ⟨key, hkey, entry.2, ?_, ?_⟩
    · rw [← hrowKey]
      exact OrderedMap.get?_eq_some_iff.mpr hheld
    · rw [hcollection, ← hrowKey]
  · rintro ⟨key, hkey, bytes, hheld, rfl⟩
    have hrequested := contains_requestedRows_iff.mpr ⟨key, hkey, rfl, rfl⟩
    refine ⟨_, mem_of_contains_requestedOf hrequested, (RowKey.ofDocument key, bytes), ?_, rfl⟩
    exact ⟨OrderedMap.get?_eq_some_iff.mp hheld, hrequested⟩

/-- Tables that agree on the rows of the requested keys give the same rows to read. -/
theorem requestedItems_congr {other : Table} {keys : List DocumentKey}
    (hsame : ∀ key ∈ keys,
      other.get? (RowKey.ofDocument key) = table.get? (RowKey.ofDocument key)) :
    requestedItems other keys = requestedItems table keys := by
  rw [requestedItems, requestedItems, List.flatMap_def, List.flatMap_def]
  congr 1
  apply List.map_congr_left
  intro group hgroup
  unfold requestedEntries
  congr 1
  apply Table.filter_toList_congr
  intro rowKey hrequested
  rw [← requestedOf_of_mem hgroup, contains_requestedRows_iff] at hrequested
  obtain ⟨key, hkey, _, rfl⟩ := hrequested
  exact hsame key hkey

/-! ## What the rows give -/

/-- A requested row gives the document of its own key, read as a lookup reads it. -/
theorem readRequested_eq_ok_iff {key : DocumentKey} {bytes : Bytes}
    {entry : DocumentKey × Document} :
    readRequested Payload.codec (key.collection, RowKey.ofDocument key, bytes) = .ok entry ↔
      entry.1 = key ∧ decodeRow Payload.codec bytes key = .ok entry.2 := by
  simp only [readRequested, bind_eq_ok_iff, keyOfRow_ofDocument_eq_ok_iff]
  constructor
  · rintro ⟨_, ⟨_, rfl⟩, document, hdocument, hentry⟩
    obtain rfl := Except.ok.inj hentry
    exact ⟨rfl, hdocument⟩
  · rintro ⟨rfl, hdocument⟩
    exact ⟨_, ⟨(named_of_decodeRow hdocument).id_ne, rfl⟩, _, hdocument, rfl⟩

theorem readRequested_failsCorrupt (item : Path × Bytes × Bytes) :
    FailsCorrupt (readRequested Payload.codec item) :=
  .bind (keyOfRow_failsCorrupt item.1 item.2.1) fun key =>
    .bind (decodeRow_failsCorrupt item.2.2 key) fun _ => .ok _

theorem foldlM_keepRequested_ok_iff {items : List (Path × Bytes × Bytes)} (found : DocumentMap) :
    (∃ result, items.foldlM (keepRequested codec) found = .ok result) ↔
      ∀ item ∈ items, ∃ entry, readRequested codec item = .ok entry := by
  induction items generalizing found with
  | nil => exact iff_of_true ⟨found, rfl⟩ (List.forall_mem_nil _)
  | cons item rest ih =>
      simp only [List.foldlM_cons, keepRequested, bind_eq_ok_iff, List.forall_mem_cons]
      constructor
      · rintro ⟨result, _, ⟨entry, hentry, hafter⟩, hresult⟩
        exact ⟨⟨entry, hentry⟩, (ih _).mp ⟨result, hresult⟩⟩
      · rintro ⟨⟨entry, hentry⟩, hrest⟩
        obtain ⟨result, hresult⟩ := (ih (found.insert entry.1 entry.2)).mpr hrest
        exact ⟨result, _, ⟨entry, hentry, rfl⟩, hresult⟩

/-- An answer says of a key what its row gives, and what was said before if it has none. -/
theorem get?_foldlM_keepRequested {items : List (Path × Bytes × Bytes)}
    {found result : DocumentMap} {key : DocumentKey} {document : Document}
    (hsame : ∀ first ∈ items, ∀ second ∈ items, ∀ left right,
      readRequested codec first = .ok (key, left) →
        readRequested codec second = .ok (key, right) → left = right)
    (h : items.foldlM (keepRequested codec) found = .ok result) :
    result.get? key = some document ↔
      (∃ item ∈ items, readRequested codec item = .ok (key, document)) ∨
        (∀ item ∈ items, ∀ other, readRequested codec item ≠ .ok (key, other)) ∧
          found.get? key = some document := by
  induction items generalizing found with
  | nil =>
      obtain rfl := Except.ok.inj h
      simp
  | cons item rest ih =>
      rw [List.foldlM_cons] at h
      obtain ⟨middle, hmiddle, hresult⟩ := bind_eq_ok_iff.mp h
      obtain ⟨⟨first, held⟩, hread, hkept⟩ := bind_eq_ok_iff.mp hmiddle
      obtain rfl := Except.ok.inj hkept
      have hrest := ih (fun first hfirst second hsecond =>
        hsame first (List.mem_cons_of_mem _ hfirst) second (List.mem_cons_of_mem _ hsecond)) hresult
      rw [hrest]
      simp only [List.mem_cons, exists_eq_or_imp, forall_eq_or_imp, hread, Except.ok.injEq,
        Prod.mk.injEq]
      by_cases hkey : first = key
      · subst hkey
        rw [OrderedMap.get?_insert_self, Option.some.injEq]
        constructor
        · rintro (hlater | ⟨_, hheld⟩)
          · exact .inl (.inr hlater)
          · exact .inl (.inl ⟨rfl, hheld⟩)
        · rintro ((⟨_, rfl⟩ | hlater) | ⟨⟨hnone, _⟩, _⟩)
          · by_cases hlater : ∃ other ∈ rest, ∃ last, readRequested codec other = .ok (first, last)
            · obtain ⟨other, hmem, last, hother⟩ := hlater
              obtain rfl := hsame item (List.mem_cons_self ..) other (List.mem_cons_of_mem _ hmem)
                held last hread hother
              exact .inl ⟨other, hmem, hother⟩
            · exact .inr ⟨fun other hmem last hother => hlater ⟨other, hmem, last, hother⟩, rfl⟩
          · exact .inl hlater
          · exact absurd rfl (hnone held)
      · rw [OrderedMap.get?_insert_of_ne _ _ (Ne.symm hkey)]
        simp [hkey]

/-! ## Batch lookups -/

section Answers

variable {cache : Cache σ ι} {keys : List DocumentKey}

/-- The rows of the requested keys, read one after another, are what lookups read. -/
theorem exists_readRequested_iff (hanswers : AnswersFrom cache.engine table)
    (hcodec : cache.codec = Payload.codec) {key : DocumentKey} {document : Document} :
    (∃ item ∈ requestedItems table keys, readRequested Payload.codec item = .ok (key, document)) ↔
      key ∈ keys ∧ table.get? (RowKey.ofDocument key) ≠ none ∧
        (cache.get key).1 = .ok document := by
  rw [get_eq hanswers, hcodec]
  constructor
  · rintro ⟨item, hmem, hread⟩
    obtain ⟨other, hkey, bytes, hheld, rfl⟩ := mem_requestedItems_iff.mp hmem
    obtain ⟨rfl, hdecode⟩ := readRequested_eq_ok_iff.mp hread
    rw [hheld]
    exact ⟨hkey, by simp, hdecode⟩
  · rintro ⟨hkey, hrow, hget⟩
    cases hheld : table.get? (RowKey.ofDocument key) with
    | none => exact absurd hheld hrow
    | some bytes =>
        rw [hheld] at hget
        exact ⟨_, mem_requestedItems_iff.mpr ⟨key, hkey, bytes, hheld, rfl⟩,
          readRequested_eq_ok_iff.mpr ⟨rfl, hget⟩⟩

theorem getAll_ok_iff (hanswers : AnswersFrom cache.engine table)
    (hcodec : cache.codec = Payload.codec) :
    (∃ found, (cache.getAll keys).1 = .ok found) ↔
      ∀ key ∈ keys, ∃ document, (cache.get key).1 = .ok document := by
  rw [getAll_eq hanswers, hcodec, foldlM_keepRequested_ok_iff]
  constructor
  · intro hread key hkey
    rw [get_eq hanswers, hcodec]
    cases hheld : table.get? (RowKey.ofDocument key) with
    | none => exact ⟨_, rfl⟩
    | some bytes =>
        obtain ⟨entry, hentry⟩ :=
          hread _ (mem_requestedItems_iff.mpr ⟨key, hkey, bytes, hheld, rfl⟩)
        exact ⟨entry.2, (readRequested_eq_ok_iff.mp hentry).2⟩
  · intro hget item hmem
    obtain ⟨key, hkey, bytes, hheld, rfl⟩ := mem_requestedItems_iff.mp hmem
    obtain ⟨document, hdocument⟩ := hget key hkey
    rw [get_eq hanswers, hcodec, hheld] at hdocument
    exact ⟨(key, document), readRequested_eq_ok_iff.mpr ⟨rfl, hdocument⟩⟩

theorem get?_getAll_iff (hanswers : AnswersFrom cache.engine table)
    (hcodec : cache.codec = Payload.codec) {found : DocumentMap}
    (h : (cache.getAll keys).1 = .ok found) {key : DocumentKey} {document : Document} :
    found.get? key = some document ↔ key ∈ keys ∧ (cache.get key).1 = .ok document := by
  have hlookups := (getAll_ok_iff hanswers hcodec).mp ⟨found, h⟩
  rw [getAll_eq hanswers, hcodec] at h
  have hsame : ∀ first ∈ requestedItems table keys, ∀ second ∈ requestedItems table keys,
      ∀ left right, readRequested Payload.codec first = .ok (key, left) →
        readRequested Payload.codec second = .ok (key, right) → left = right := by
    intro first hfirst second hsecond left right hleft hright
    have hgetLeft := ((exists_readRequested_iff hanswers hcodec).mp ⟨first, hfirst, hleft⟩).2.2
    have hgetRight := ((exists_readRequested_iff hanswers hcodec).mp ⟨second, hsecond, hright⟩).2.2
    exact Except.ok.inj (hgetLeft.symm.trans hgetRight)
  rw [get?_foldlM_keepRequested hsame h, exists_readRequested_iff hanswers hcodec,
    get?_unknownDocuments_iff]
  cases hheld : table.get? (RowKey.ofDocument key) with
  | some bytes =>
      -- A key with a row has been read, so nothing is left of what was said before.
      simp only [ne_eq, reduceCtorEq, not_false_eq_true, true_and, or_iff_left_iff_imp]
      rintro ⟨hunread, hkey, _⟩
      obtain ⟨last, hlast⟩ := hlookups key hkey
      obtain ⟨item, hmem, hread⟩ := (exists_readRequested_iff hanswers hcodec).mpr
        ⟨hkey, by simp [hheld], hlast⟩
      exact absurd hread (hunread item hmem last)
  | none =>
      rw [get_eq hanswers, hheld]
      simp only [ne_eq, not_true_eq_false, false_and, and_false, false_or, Except.ok.injEq]
      rw [eq_comm (a := Document.unknown key)]
      refine and_iff_right ?_
      intro item hmem other hread
      exact ((exists_readRequested_iff hanswers hcodec).mp ⟨item, hmem, hread⟩).2.1 hheld

end Answers

/-- A batch lookup succeeds if the lookups of all requested keys do, and then says of these
keys, and of no others, what the lookups say; it fails for a corrupt record only.  Rows of
keys that are not requested do not matter. -/
theorem getAll_answers {cache : Cache σ ι} (hanswers : AnswersFrom cache.engine table)
    (hcodec : cache.codec = Payload.codec) (keys : List DocumentKey) :
    ((∃ found, (cache.getAll keys).1 = .ok found) ↔
        ∀ key ∈ keys, ∃ document, (cache.get key).1 = .ok document) ∧
      (∀ found, (cache.getAll keys).1 = .ok found →
        (∀ key, found.contains key = true ↔ key ∈ keys) ∧
          (∀ key ∈ keys, ∃ document, found.get? key = some document ∧
            (cache.get key).1 = .ok document) ∧
          ∀ key ∈ keys, table.get? (RowKey.ofDocument key) = none →
            found.get? key = some (.unknown key)) ∧
      FailsCorrupt (cache.getAll keys).1 ∧
      ∀ (other : Cache σ ι) (otherTable : Table), AnswersFrom other.engine otherTable →
        other.codec = Payload.codec →
          (∀ key ∈ keys, otherTable.get? (RowKey.ofDocument key) =
            table.get? (RowKey.ofDocument key)) →
            (other.getAll keys).1 = (cache.getAll keys).1 := by
  have hok : _ ↔ ∀ key ∈ keys, ∃ document, (cache.get key).1 = .ok document :=
    getAll_ok_iff hanswers hcodec
  refine ⟨hok, ?_, ?_, ?_⟩
  · intro found hfound
    have hget : ∀ key ∈ keys, ∃ document, found.get? key = some document ∧
        (cache.get key).1 = .ok document := by
      intro key hkey
      obtain ⟨document, hdocument⟩ := hok.mp ⟨found, hfound⟩ key hkey
      exact ⟨document, (get?_getAll_iff hanswers hcodec hfound).mpr ⟨hkey, hdocument⟩, hdocument⟩
    refine ⟨?_, hget, ?_⟩
    · intro key
      rw [OrderedMap.contains, Option.isSome_iff_exists]
      constructor
      · rintro ⟨document, hdocument⟩
        exact ((get?_getAll_iff hanswers hcodec hfound).mp hdocument).1
      · intro hkey
        obtain ⟨document, hdocument, _⟩ := hget key hkey
        exact ⟨document, hdocument⟩
    · intro key hkey hnone
      apply (get?_getAll_iff hanswers hcodec hfound).mpr
      rw [get_eq hanswers, hnone]
      exact ⟨hkey, rfl⟩
  · rw [getAll_eq hanswers, hcodec]
    apply FailsCorrupt.foldlM
    intro item _ found
    exact .bind (readRequested_failsCorrupt item) fun _ => .ok _
  · intro other otherTable hother hotherCodec hsame
    rw [getAll_eq hanswers, getAll_eq hother, hcodec, hotherCodec, requestedItems_congr hsame]

/-- Room `b`, whose row is broken, lies between the rooms `a` and `c`: a batch lookup of
these two passes it over, and one that asks for it fails. -/
theorem getAll_answers_roomTable :
    (∃ found, (roomCache.getAll [roomKey "c", roomKey "a", roomKey "c"]).1 = .ok found ∧
      found.get? (roomKey "c") = some (.unknown (roomKey "c")) ∧
      found.get? (roomKey "a") =
        some (.found (roomKey "a") .never .empty (.ofSeconds 5))) ∧
    ∃ fault, (roomCache.getAll [roomKey "a", roomKey "b"]).1 = .error (.corruptRecord fault) := by
  have hanswers : AnswersFrom roomCache.engine roomTable := SharedEngine.answersFrom rfl
  have hsound : (roomCache.get (roomKey "a")).1 =
      .ok (.found (roomKey "a") .never .empty (.ofSeconds 5)) := by
    rw [get_of_holdsRow hanswers holdsRow_soundRow]
    exact decodeContents_payload_eq_ok_iff.mpr ⟨_, decode_soundRow_contents, rfl, rfl, rfl⟩
  have habsent : roomTable.get? (RowKey.ofDocument (roomKey "c")) = none := by
    cases hheld : roomTable.get? (RowKey.ofDocument (roomKey "c")) with
    | none => rfl
    | some bytes =>
        rcases get?_roomTable hheld with ⟨hkey, _⟩ | ⟨hkey, _⟩
        · exact absurd hkey (by decide)
        · exact absurd hkey (by decide)
  have hunknown : (roomCache.get (roomKey "c")).1 = .ok (.unknown (roomKey "c")) := by
    rw [get_eq hanswers, habsent]
  constructor
  · obtain ⟨hok, hsays, _⟩ :=
      getAll_answers hanswers rfl [roomKey "c", roomKey "a", roomKey "c"]
    obtain ⟨found, hfound⟩ := hok.mpr fun key hmem => by
      simp only [List.mem_cons, List.not_mem_nil, or_false] at hmem
      rcases hmem with rfl | rfl | rfl
      · exact ⟨_, hunknown⟩
      · exact ⟨_, hsound⟩
      · exact ⟨_, hunknown⟩
    obtain ⟨_, hget, hnone⟩ := hsays found hfound
    obtain ⟨document, hdocument, hlookup⟩ := hget (roomKey "a") (by simp)
    obtain rfl := Except.ok.inj (hsound.symm.trans hlookup)
    exact ⟨found, hfound, hnone _ (by simp) habsent, hdocument⟩
  · obtain ⟨hok, _, hcorrupt, _⟩ := getAll_answers hanswers rfl [roomKey "a", roomKey "b"]
    apply hcorrupt.exists_fault
    intro found hfound
    obtain ⟨document, hdocument⟩ := hok.mp ⟨found, hfound⟩ (roomKey "b") (by simp)
    rw [get_of_holdsRow hanswers holdsRow_brokenRow] at hdocument
    obtain ⟨_, hdecode, _⟩ := decodeContents_payload_eq_ok_iff.mp hdocument
    cases hdecode

end DocumentCache.Cache
