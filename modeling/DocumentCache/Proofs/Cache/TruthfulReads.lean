import DocumentCache.Proofs.Cache.BatchLookups
import DocumentCache.Proofs.Cache.InterleavedScans

/-!
# Reads tell the truth

Nothing is assumed of what is stored, under which keys it is stored, or what the codec
makes of a payload.  Still, a document is answered only under its own key, it is a known
one unless the key has no row, and it carries the time in the columns of its row.  What
a query finds lies in its collection, meets its conditions and was read after the given
time, in whatever order its rows are decoded.
-/

namespace DocumentCache.Cache

open DecodePool

/-! ## What a table tells -/

/-- What the table has to tell of a key: nothing where it has no row, and otherwise a
known document of this key, read at the time in the columns of the row. -/
def Tells (table : Table) (key : DocumentKey) (document : Document) : Prop :=
  document.key = key ∧
    (document = .unknown key ∧ table.get? (RowKey.ofDocument key) = none ∨
      document.isKnown = true ∧ .never < document.readTime ∧
        ∃ bytes row, table.get? (RowKey.ofDocument key) = some bytes ∧
          Row.decode bytes = .ok row ∧ row.seconds.toInt = document.readTime.seconds ∧
          row.nanos.toInt = document.readTime.nanos)

/-- What a query may find: a found document of its collection that meets its conditions
and was read, and read after the given time. -/
structure Finds (query : Query) (since : ReadTime) (key : DocumentKey) (document : Document) :
    Prop where
  key_eq : document.key = key
  collection_eq : key.collection = query.collection
  isFound : document.isFound = true
  conditions : ∀ condition ∈ query.conditions, condition document = some true
  read : .never < document.readTime
  recent : since < document.readTime

variable {codec : Codec} {table : Table}

theorem tells_of_decodeRow {key : DocumentKey} {bytes : Bytes} {document : Document}
    (hheld : table.get? (RowKey.ofDocument key) = some bytes)
    (h : decodeRow codec bytes key = .ok document) : Tells table key document := by
  obtain ⟨row, hrow, h⟩ := bind_eq_ok_iff.mp h
  obtain ⟨readTime, hread, hcontents⟩ := bind_eq_ok_iff.mp h
  obtain ⟨hkey, hknown, rfl⟩ := known_of_decodeContents hcontents
  obtain ⟨hseconds, hnanos, hpositive⟩ := columns_of_readTime (rowReadTime_eq_ok_iff.mp hread)
  exact ⟨hkey, .inr ⟨hknown, hpositive, bytes, row, hheld, parseRow_eq_ok_iff.mp hrow, hseconds,
    hnanos⟩⟩

/-! ## Lookups -/

section Lookups

variable {σ ι : Type} [KeyValueEngine σ] {cache : Cache σ ι}

theorem get_tells (hanswers : AnswersFrom cache.engine table) {key : DocumentKey}
    {document : Document} (h : (cache.get key).1 = .ok document) : Tells table key document := by
  rw [get_eq hanswers] at h
  cases hheld : table.get? (RowKey.ofDocument key) with
  | none =>
      rw [hheld] at h
      obtain rfl := Except.ok.inj h
      exact ⟨rfl, .inl ⟨rfl, hheld⟩⟩
  | some bytes =>
      rw [hheld] at h
      exact tells_of_decodeRow hheld h

/-- Whatever the codec, a requested row gives a document under the key requested. -/
theorem decodeRow_of_readRequested {key : DocumentKey} {bytes : Bytes}
    {entry : DocumentKey × Document}
    (h : readRequested codec (key.collection, RowKey.ofDocument key, bytes) = .ok entry) :
    entry.1 = key ∧ decodeRow codec bytes key = .ok entry.2 := by
  obtain ⟨other, hother, h⟩ := bind_eq_ok_iff.mp h
  obtain ⟨document, hdocument, h⟩ := bind_eq_ok_iff.mp h
  obtain rfl := Except.ok.inj h
  obtain ⟨_, rfl⟩ := keyOfRow_ofDocument_eq_ok_iff.mp hother
  exact ⟨rfl, hdocument⟩

/-- A requested row that gives a document under a key is the row of that key. -/
theorem row_of_readRequested {keys : List DocumentKey} {item : Path × Bytes × Bytes}
    {key : DocumentKey} {document : Document} (hmem : item ∈ requestedItems table keys)
    (h : readRequested codec item = .ok (key, document)) :
    ∃ bytes, table.get? (RowKey.ofDocument key) = some bytes ∧
      decodeRow codec bytes key = .ok document := by
  obtain ⟨other, _, bytes, hheld, rfl⟩ := mem_requestedItems_iff.mp hmem
  obtain ⟨rfl, hdecode⟩ := decodeRow_of_readRequested h
  exact ⟨bytes, hheld, hdecode⟩

theorem getAll_tells (hanswers : AnswersFrom cache.engine table) {keys : List DocumentKey}
    {found : DocumentMap} (h : (cache.getAll keys).1 = .ok found) {key : DocumentKey}
    {document : Document} (hentry : found.get? key = some document) :
    Tells table key document := by
  rw [getAll_eq hanswers] at h
  have hsame : ∀ first ∈ requestedItems table keys, ∀ second ∈ requestedItems table keys,
      ∀ left right, readRequested cache.codec first = .ok (key, left) →
        readRequested cache.codec second = .ok (key, right) → left = right := by
    intro first hfirst second hsecond left right hleft hright
    obtain ⟨bytes, hheld, hdecode⟩ := row_of_readRequested hfirst hleft
    obtain ⟨others, hothers, hagain⟩ := row_of_readRequested hsecond hright
    obtain rfl := Option.some.inj (hheld.symm.trans hothers)
    exact Except.ok.inj (hdecode.symm.trans hagain)
  rcases (get?_foldlM_keepRequested hsame h).mp hentry with
    ⟨item, hmem, hread⟩ | ⟨hunread, hunknown⟩
  · obtain ⟨bytes, hheld, hdecode⟩ := row_of_readRequested hmem hread
    exact tells_of_decodeRow hheld hdecode
  · obtain ⟨hkey, rfl⟩ := get?_unknownDocuments_iff.mp hunknown
    refine ⟨rfl, .inl ⟨rfl, ?_⟩⟩
    -- A row of the key would have been read, and what it gave would stand under the key.
    rw [Option.eq_none_iff_forall_ne_some]
    intro bytes hheld
    have hmem := mem_requestedItems_iff.mpr ⟨key, hkey, bytes, hheld, rfl⟩
    obtain ⟨⟨other, document⟩, hread⟩ :=
      (foldlM_keepRequested_ok_iff (unknownDocuments keys)).mp ⟨found, h⟩ _ hmem
    obtain ⟨rfl, _⟩ := decodeRow_of_readRequested hread
    exact hunread _ hmem document hread

end Lookups

/-! ## Scans -/

/-- What a row key of a collection names lies in that collection. -/
theorem collection_of_keyOfRow {collection : Path} {rowKey : Bytes} {key : DocumentKey}
    (h : keyOfRow collection rowKey = .ok key) : key.collection = collection := by
  obtain ⟨id, -, hpath⟩ := exists_id_of_keyOfRow h
  rw [DocumentKey.collection, hpath, Path.parent_child]

/-- A row that is to be decoded lies in the collection and was read late enough. -/
theorem pending_of_pendingRow {collection : Path} {since : ReadTime} {rowKey bytes : Bytes}
    {pending : Pending} (h : pendingRow collection since rowKey bytes = .ok (some pending)) :
    pending.key.collection = collection ∧ .never < pending.readTime ∧
      since < pending.readTime := by
  obtain ⟨row, _, h⟩ := bind_eq_ok_iff.mp h
  obtain ⟨readTime, hread, h⟩ := bind_eq_ok_iff.mp h
  obtain ⟨_, _, hpositive⟩ := columns_of_readTime (rowReadTime_eq_ok_iff.mp hread)
  split at h
  · cases h
  · next hrecent =>
      obtain ⟨key, hkey, h⟩ := bind_eq_ok_iff.mp h
      obtain rfl := Option.some.inj (Except.ok.inj h)
      refine ⟨collection_of_keyOfRow hkey, hpositive, ?_⟩
      rcases recent_iff.mpr hrecent with rfl | hlater
      · exact hpositive
      · exact hlater

variable {query : Query} {since : ReadTime}

/-- What a scan holds in the end it held before or got from one of its rows, whether or
not these have different keys. -/
theorem yields_of_foldlM_keepMatch {ran : List Pending} {found result : DocumentMap}
    (h : ran.foldlM (keepMatch codec query) found = .ok result) {key : DocumentKey}
    {document : Document} (hentry : result.get? key = some document) :
    found.get? key = some document ∨
      ∃ item ∈ ran, item.key = key ∧ Yields codec query item document := by
  induction ran generalizing found with
  | nil =>
      obtain rfl := Except.ok.inj h
      exact .inl hentry
  | cons item rest ih =>
      rw [List.foldlM_cons] at h
      obtain ⟨middle, hmiddle, hresult⟩ := bind_eq_ok_iff.mp h
      simp only [List.mem_cons, exists_eq_or_imp]
      rcases ih hresult with hheld | hlater
      · rcases keepMatch_eq_ok hmiddle with ⟨kept, hkept, rfl⟩ | ⟨_, rfl⟩
        · by_cases hkey : key = item.key
          · subst hkey
            rw [OrderedMap.get?_insert_self] at hheld
            obtain rfl := Option.some.inj hheld
            exact .inr (.inl ⟨rfl, hkept⟩)
          · rw [OrderedMap.get?_insert_of_ne _ _ hkey] at hheld
            exact .inl hheld
        · exact .inl hheld
      · exact .inr (.inr hlater)

/-- Rows to be decoded give only what a query may find, in whatever order they are. -/
theorem finds_of_foldlM_keepMatch {rows : List (Bytes × Bytes)} {pending ran : List Pending}
    (hpending : pendingRows query.collection since rows = .ok pending) (hran : ran ⊆ pending)
    {found : DocumentMap} (h : ran.foldlM (keepMatch codec query) .empty = .ok found)
    {key : DocumentKey} {document : Document} (hentry : found.get? key = some document) :
    Finds query since key document := by
  rcases yields_of_foldlM_keepMatch h hentry with hempty | ⟨item, hmem, rfl, hyields⟩
  · cases hempty
  · obtain ⟨entry, _, hrow⟩ := (mem_pendingRows_iff hpending).mp (hran hmem)
    obtain ⟨hcollection, hread, hrecent⟩ := pending_of_pendingRow hrow
    obtain ⟨hdecode, hfound, hconditions⟩ := (yields_iff hcollection).mp hyields
    obtain ⟨hkey, _, htime⟩ := known_of_decodeContents hdecode
    exact ⟨hkey, hcollection, hfound, hconditions, htime ▸ hread, htime ▸ hrecent⟩

section Scans

variable {σ ι : Type} {cache : Cache σ ι}

theorem query_finds [KeyValueEngine σ] (hanswers : AnswersFrom cache.engine table)
    {interrupted : Bool} {found : DocumentMap}
    (h : (cache.query query since interrupted).1 = .ok found) {key : DocumentKey}
    {document : Document} (hentry : found.get? key = some document) :
    Finds query since key document := by
  rw [query_eq hanswers] at h
  obtain ⟨pending, hpending, h⟩ := bind_eq_ok_iff.mp h
  split at h
  · cases h
  · exact finds_of_foldlM_keepMatch hpending (List.Subset.refl pending) h hentry

/-- Threads that share the rows of a scan find nothing else. -/
theorem Returns.finds {rows : List (Bytes × Bytes)} {pending : List Pending}
    (hpending : pendingRows query.collection since rows = .ok pending) {interrupted : Bool}
    {last : Threads Pending Matches}
    (hreach : Reaches (Turn (matchJob cache.codec query))
      (cache.scanThreads interrupted pending) last)
    {found : DocumentMap} (h : Returns last (.ok found)) {key : DocumentKey} {document : Document}
    (hentry : found.get? key = some document) : Finds query since key document := by
  obtain ⟨hclosed, answer, hanswer, hresult⟩ := h
  obtain ⟨_, hsame, hsettled⟩ := settled_of_scan hreach hclosed
  obtain rfl := List.singleton_inj.mp (hanswer.symm.trans hsame)
  cases hsettled with
  | complete _ ran hran hall =>
      obtain rfl := Except.ok.inj hresult
      have hperm : ran.Perm pending := Multiset.coe_eq_coe.mp hall
      exact finds_of_foldlM_keepMatch hpending hperm.subset hran hentry
  | interrupted | failed => cases hresult

end Scans

/-! ## All reads -/

/-- Whatever a table holds and whatever the codec makes of it: a lookup, alone or in a
batch, answers with what the table tells of the key, and a query, in whatever order its
threads take their turns, with nothing but what it may find. -/
theorem reads_truthful {σ ι : Type} [KeyValueEngine σ] {cache : Cache σ ι}
    (hanswers : AnswersFrom cache.engine table) :
    (∀ key document, (cache.get key).1 = .ok document → Tells table key document) ∧
      (∀ keys found, (cache.getAll keys).1 = .ok found →
        ∀ key document, found.get? key = some document → Tells table key document) ∧
      ∀ query since interrupted,
        (∀ found, (cache.query query since interrupted).1 = .ok found →
          ∀ key document, found.get? key = some document → Finds query since key document) ∧
        ∀ pending last found,
          pendingRows query.collection since
            (table.startingWith (RowKey.ofCollection query.collection)) = .ok pending →
          Reaches (Turn (matchJob cache.codec query))
            (cache.scanThreads interrupted pending) last →
          Returns last (.ok found) →
          ∀ key document, found.get? key = some document → Finds query since key document := by
  refine ⟨?_, ?_, ?_⟩
  · intro key document h
    exact get_tells hanswers h
  · intro keys found h key document hentry
    exact getAll_tells hanswers h hentry
  · intro query since interrupted
    constructor
    · intro found h key document hentry
      exact query_finds hanswers h hentry
    · intro pending last found hpending hreach hreturns key document hentry
      exact hreturns.finds hpending hreach hentry

/-- The rooms under a codec that takes every payload for room `a`. -/
def credulousRoomCache : Cache SharedEngine ParentIndex :=
  { roomCache with
    codec := ⟨fun _ => .ok [], fun _ => .ok (.found (roomKey "a") .never .empty .never)⟩ }

/-- Room `a` is told as its row has it, and room `b`, whose payload is taken for room `a`
too, is not answered at all. -/
theorem reads_truthful_credulousRoomCache :
    (∃ document, (credulousRoomCache.get (roomKey "a")).1 = .ok document ∧
      Tells roomTable (roomKey "a") document) ∧
    ∃ error, (credulousRoomCache.get (roomKey "b")).1 = .error error := by
  have hanswers : AnswersFrom credulousRoomCache.engine roomTable := SharedEngine.answersFrom rfl
  have hsound : (credulousRoomCache.get (roomKey "a")).1 =
      .ok (.found (roomKey "a") .never .empty (.ofSeconds 5)) := by
    rw [get_of_holdsRow hanswers holdsRow_soundRow]
    rfl
  have hbroken : (credulousRoomCache.get (roomKey "b")).1 =
      .error (.corruptRecord (.foreignPayload (roomKey "b") (roomKey "a"))) := by
    rw [get_of_holdsRow hanswers holdsRow_brokenRow]
    rfl
  exact ⟨⟨_, hsound, (reads_truthful hanswers).1 _ _ hsound⟩, _, hbroken⟩

end DocumentCache.Cache
