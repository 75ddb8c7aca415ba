import DocumentCache.Proofs.Cache.BatchLookups
import DocumentCache.Proofs.Cache.KeptRows
import DocumentCache.Proofs.Format.RowKeyOrder
import Mathlib.Algebra.BigOperators.Group.List.Basic
import Mathlib.Algebra.GroupWithZero.Nat
import Mathlib.Data.List.Dedup

/-!
# What a batch lookup reads

A batch lookup reads one run of rows for each collection that it is asked about, from the
smallest to the largest row key requested there.  Row keys of one collection go up as the
names do, in the order of their bytes, and nothing else stands between them.  So the rows
read are those of the stored documents whose names lie in the span of the requested ones,
the counter of rows grows by their number, and an engine that hands over no other row is
good enough.
-/

namespace DocumentCache

namespace RowKey

/-- Row keys of one collection are compared by the names. -/
theorem compare_ofDocument_of_collection_eq {left right : DocumentKey}
    (h : left.collection = right.collection) :
    compare (ofDocument left) (ofDocument right) =
      compare (Utf8.encode left.id) (Utf8.encode right.id) := by
  rw [compare_ofDocument, h, Std.ReflOrd.compare_self]
  rfl

/-- What begins as the rows of a collection do begins as all rows do. -/
theorem ofTable_isPrefixOf_of_ofCollection {collection : Path} {rowKey : Bytes}
    (h : ofCollection collection <+: rowKey) : ofTable.isPrefixOf rowKey = true := by
  rw [List.isPrefixOf_iff_prefix]
  exact (List.prefix_append ofTable (encodePath collection ++ [partitionMark])).trans h

end RowKey

namespace Cache

/-! ## Spans -/

/-- The name of the key lies between the smallest and the largest one that is requested in
its collection: not below all of these names, and not above all of them. -/
def InSpan (keys : List DocumentKey) (key : DocumentKey) : Prop :=
  (∃ low ∈ keys, low.collection = key.collection ∧
      (compare (Utf8.encode low.id) (Utf8.encode key.id)).isLE = true) ∧
    ∃ high ∈ keys, high.collection = key.collection ∧
      (compare (Utf8.encode key.id) (Utf8.encode high.id)).isLE = true

instance (keys : List DocumentKey) (key : DocumentKey) : Decidable (InSpan keys key) :=
  inferInstanceAs (Decidable (_ ∧ _))

/-- These two are a requested key with the smallest and one with the largest name of a
collection. -/
structure SpanEnds (keys : List DocumentKey) (collection : Path)
    (first last : DocumentKey) : Prop where
  first_mem : first ∈ keys
  last_mem : last ∈ keys
  first_collection : first.collection = collection
  last_collection : last.collection = collection
  first_le : ∀ key ∈ keys, key.collection = collection →
    (compare (Utf8.encode first.id) (Utf8.encode key.id)).isLE = true
  le_last : ∀ key ∈ keys, key.collection = collection →
    (compare (Utf8.encode key.id) (Utf8.encode last.id)).isLE = true

theorem SpanEnds.inSpan_iff {keys : List DocumentKey} {collection : Path}
    {first last : DocumentKey} (h : SpanEnds keys collection first last) {key : DocumentKey}
    (hkey : key.collection = collection) :
    InSpan keys key ↔
      (compare (Utf8.encode first.id) (Utf8.encode key.id)).isLE = true ∧
        (compare (Utf8.encode key.id) (Utf8.encode last.id)).isLE = true := by
  constructor
  · rintro ⟨⟨low, hlow, hlowIn, hbelow⟩, high, hhigh, hhighIn, habove⟩
    exact ⟨Std.TransCmp.isLE_trans (h.first_le low hlow (hlowIn.trans hkey)) hbelow,
      Std.TransCmp.isLE_trans habove (h.le_last high hhigh (hhighIn.trans hkey))⟩
  · rintro ⟨hbelow, habove⟩
    exact ⟨⟨first, h.first_mem, h.first_collection.trans hkey.symm, hbelow⟩,
      last, h.last_mem, h.last_collection.trans hkey.symm, habove⟩

/-- Ends of one span have the same row keys. -/
theorem SpanEnds.rowKey_eq {keys : List DocumentKey} {collection : Path}
    {first last low high : DocumentKey} (h : SpanEnds keys collection first last)
    (hother : SpanEnds keys collection low high) :
    RowKey.ofDocument first = RowKey.ofDocument low ∧
      RowKey.ofDocument last = RowKey.ofDocument high := by
  have hsame {left right : DocumentKey} (hleft : left.collection = collection)
      (hright : right.collection = collection)
      (hle : (compare (Utf8.encode left.id) (Utf8.encode right.id)).isLE = true)
      (hge : (compare (Utf8.encode right.id) (Utf8.encode left.id)).isLE = true) :
      RowKey.ofDocument left = RowKey.ofDocument right := by
    apply Std.LawfulEqOrd.eq_of_compare
    rw [RowKey.compare_ofDocument_of_collection_eq (hleft.trans hright.symm)]
    exact Std.OrientedCmp.isLE_antisymm hle hge
  constructor
  · exact hsame h.first_collection hother.first_collection
      (h.first_le _ hother.first_mem hother.first_collection)
      (hother.first_le _ h.first_mem h.first_collection)
  · exact hsame h.last_collection hother.last_collection
      (hother.le_last _ h.last_mem h.last_collection)
      (h.le_last _ hother.last_mem hother.last_collection)

/-- The stored documents of a collection in the span of the requested names. -/
def spanned (documents : DocumentMap) (keys : List DocumentKey) (collection : Path) :
    List (DocumentKey × Document) :=
  documents.entries.filter fun entry => entry.1.collection = collection ∧ InSpan keys entry.1

/-- Whether a row is that of a stored document in the span of the requested names. -/
def spanRow (documents : DocumentMap) (keys : List DocumentKey) (rowKey : Bytes) : Bool :=
  documents.entries.any fun entry =>
    decide (InSpan keys entry.1) && decide (rowKey = RowKey.ofDocument entry.1)

theorem mem_spanned_iff {documents : DocumentMap} {keys : List DocumentKey} {collection : Path}
    {entry : DocumentKey × Document} :
    entry ∈ spanned documents keys collection ↔
      documents.get? entry.1 = some entry.2 ∧ entry.1.collection = collection ∧
        InSpan keys entry.1 := by
  rw [spanned, List.mem_filter, decide_eq_true_eq, OrderedMap.get?_eq_some_iff]

/-! ## The rows of a span -/

/-- The rows of a table from the first to the last one requested. -/
def spanRows (table : Table) (requested : OrderedSet Bytes) : List (Bytes × Bytes) :=
  match requested.keys.head?, requested.keys.getLast? with
  | some first, some last => table.between first last
  | _, _ => []

section Rows

variable {σ : Type} [KeyValueEngine σ] {engine : σ} {table : Table} {codec : Codec}
  {keys : List DocumentKey} {group : Path × OrderedSet Bytes}

theorem readSpan_eq (hanswers : AnswersFrom engine table) (requested : OrderedSet Bytes) :
    readSpan engine requested = .ok (spanRows table requested) := by
  unfold readSpan spanRows
  cases requested.keys.head? with
  | none => rfl
  | some first =>
      cases requested.keys.getLast? with
      | none => rfl
      | some last => exact hanswers.between first last

/-- The row keys requested in a collection are those of the requested keys. -/
theorem mem_keys_iff_of_mem (hgroup : group ∈ (requestedRows keys).entries) {rowKey : Bytes} :
    rowKey ∈ group.2.keys ↔
      ∃ key ∈ keys, key.collection = group.1 ∧ rowKey = RowKey.ofDocument key := by
  rw [← OrderedMap.contains_iff_mem_keys, ← requestedOf_of_mem hgroup, contains_requestedRows_iff]

/-- The first and the last row key requested in a collection belong to the smallest and the
largest name. -/
theorem exists_ends (hgroup : group ∈ (requestedRows keys).entries) {first last : Bytes}
    (hfirst : group.2.keys.head? = some first) (hlast : group.2.keys.getLast? = some last) :
    ∃ low high, SpanEnds keys group.1 low high ∧ first = RowKey.ofDocument low ∧
      last = RowKey.ofDocument high := by
  obtain ⟨low, hlow, hlowIn, rfl⟩ := (mem_keys_iff_of_mem hgroup).mp (List.mem_of_head? hfirst)
  obtain ⟨high, hhigh, hhighIn, rfl⟩ :=
    (mem_keys_iff_of_mem hgroup).mp (List.mem_of_getLast? hlast)
  refine ⟨low, high, ⟨hlow, hhigh, hlowIn, hhighIn, ?_, ?_⟩, rfl, rfl⟩
  · intro key hkey hkeyIn
    have hmem := (mem_keys_iff_of_mem hgroup).mpr ⟨key, hkey, hkeyIn, rfl⟩
    rw [← RowKey.compare_ofDocument_of_collection_eq (hlowIn.trans hkeyIn.symm)]
    exact OrderedMap.head_le_of_mem_keys hfirst hmem
  · intro key hkey hkeyIn
    have hmem := (mem_keys_iff_of_mem hgroup).mpr ⟨key, hkey, hkeyIn, rfl⟩
    rw [← RowKey.compare_ofDocument_of_collection_eq (hkeyIn.trans hhighIn.symm)]
    exact OrderedMap.le_last_of_mem_keys hlast hmem

/-- The rows read of a collection are the rows of its keys in the span. -/
theorem mem_spanRows_iff (hnamed : KeysNamed table)
    (hgroup : group ∈ (requestedRows keys).entries) {entry : Bytes × Bytes} :
    entry ∈ spanRows table group.2 ↔
      table.get? entry.1 = some entry.2 ∧
        ∃ key, (key.collection = group.1 ∧ InSpan keys key) ∧
          entry.1 = RowKey.ofDocument key := by
  unfold spanRows
  split
  · next first last hfirst hlast =>
      obtain ⟨low, high, hends, rfl, rfl⟩ := exists_ends hgroup hfirst hlast
      rw [Table.between_eq_filter, List.mem_filter, Bool.and_eq_true, Table.toList,
        ← OrderedMap.get?_eq_some_iff]
      refine and_congr_right fun hheld => ?_
      constructor
      · rintro ⟨hbelow, habove⟩
        have hbegins := RowKey.ofCollection_prefix_of_between hends.first_collection
          hends.last_collection hbelow habove
        obtain ⟨key, -, hrowKey⟩ := hnamed entry.1 entry.2 hheld
          (RowKey.ofTable_isPrefixOf_of_ofCollection hbegins)
        rw [hrowKey, ← List.isPrefixOf_iff_prefix,
          RowKey.ofCollection_isPrefixOf_ofDocument] at hbegins
        rw [hrowKey, RowKey.compare_ofDocument_of_collection_eq
          (hends.first_collection.trans hbegins.symm)] at hbelow
        rw [hrowKey, RowKey.compare_ofDocument_of_collection_eq
          (hbegins.trans hends.last_collection.symm)] at habove
        exact ⟨key, ⟨hbegins, (hends.inSpan_iff hbegins).mpr ⟨hbelow, habove⟩⟩, hrowKey⟩
      · rintro ⟨key, ⟨hkeyIn, hspan⟩, hrowKey⟩
        rw [hrowKey, RowKey.compare_ofDocument_of_collection_eq
          (hends.first_collection.trans hkeyIn.symm), RowKey.compare_ofDocument_of_collection_eq
          (hkeyIn.trans hends.last_collection.symm)]
        exact (hends.inSpan_iff hkeyIn).mp hspan
  · next hnone =>
      refine iff_of_false (by simp) ?_
      rintro ⟨-, key, ⟨hkeyIn, ⟨low, hlow, hlowIn, -⟩, -⟩, -⟩
      have hmem := (mem_keys_iff_of_mem hgroup).mpr ⟨low, hlow, hlowIn.trans hkeyIn, rfl⟩
      have hsome := List.ne_nil_of_mem hmem
      exact hnone _ _ (List.head?_eq_some_head hsome) (List.getLast?_eq_some_getLast hsome)

theorem spanRows_sublist (table : Table) (requested : OrderedSet Bytes) :
    (spanRows table requested).Sublist table.toList := by
  unfold spanRows
  split
  · rw [Table.between_eq_filter]
    exact List.filter_sublist
  · exact List.nil_sublist _

/-- The rows read of a collection are as many as the stored documents in its span. -/
theorem Kept.length_spanRows {documents : DocumentMap} (h : Kept table documents)
    (hgroup : group ∈ (requestedRows keys).entries) :
    (spanRows table group.2).length = (spanned documents keys group.1).length := by
  have hrows : ((spanRows table group.2).map Prod.fst).Nodup :=
    table.entries.nodup_keys.sublist ((spanRows_sublist table group.2).map Prod.fst)
  have hkeys : ((spanned documents keys group.1).map Prod.fst).Nodup :=
    documents.nodup_keys.sublist (List.filter_sublist.map Prod.fst)
  have hdocuments := hkeys.map fun _ _ hsame => RowKey.ofDocument_injective hsame
  have hperm : ((spanRows table group.2).map Prod.fst).Perm
      (((spanned documents keys group.1).map Prod.fst).map RowKey.ofDocument) := by
    rw [List.perm_ext_iff_of_nodup hrows hdocuments]
    intro rowKey
    simp only [List.mem_map, mem_spanRows_iff h.named hgroup, mem_spanned_iff]
    constructor
    · rintro ⟨⟨_, bytes⟩, ⟨hheld, key, hspan, rfl⟩, rfl⟩
      obtain ⟨document, -, hdocument, -⟩ := h.exists_document hheld
      exact ⟨key, ⟨(key, document), ⟨hdocument, hspan⟩, rfl⟩, rfl⟩
    · rintro ⟨_, ⟨⟨key, document⟩, ⟨hdocument, hspan⟩, rfl⟩, rfl⟩
      obtain ⟨bytes, hheld⟩ := h.exists_bytes hdocument
      exact ⟨(_, bytes), ⟨hheld, key, hspan, rfl⟩, rfl⟩
  have hlength := hperm.length_eq
  rwa [List.length_map, List.length_map, List.length_map] at hlength

/-! ## Counting rows -/

/-- The rows of every span are counted. -/
theorem rowsRead_of_collectGroups (hanswers : AnswersFrom engine table)
    {groups : List (Path × OrderedSet Bytes)} {progress result : DocumentMap × Nat}
    (h : collectGroups engine codec groups progress = .ok result) :
    result.2 = progress.2 + (groups.map fun group => (spanRows table group.2).length).sum := by
  induction groups generalizing progress with
  | nil =>
      obtain rfl := Except.ok.inj h
      rfl
  | cons group rest ih =>
      simp only [collectGroups, readSpan_eq hanswers, bind_eq_ok_iff] at h
      obtain ⟨_, hrows, found, -, hrest⟩ := h
      obtain rfl := Except.ok.inj hrows
      rw [ih hrest, List.map_cons, List.sum_cons, Nat.add_assoc]

theorem mem_keys_requestedRows_iff {collection : Path} :
    collection ∈ (requestedRows keys).keys ↔ ∃ key ∈ keys, key.collection = collection := by
  have hfold : ∀ groups : OrderedMap Path (OrderedSet Bytes),
      (keys.foldl (fun groups key =>
          let rows := (groups.get? key.collection).getD .empty
          groups.insert key.collection (rows.insert (RowKey.ofDocument key) ())) groups).contains
        collection = true ↔
        groups.contains collection = true ∨ ∃ key ∈ keys, key.collection = collection := by
    induction keys with
    | nil => simp
    | cons key rest ih =>
        intro groups
        rw [List.foldl_cons, ih, OrderedMap.contains_insert_iff]
        simp only [List.mem_cons, exists_eq_or_imp, ← or_assoc]
        exact or_congr_left (or_comm.trans (or_congr_right eq_comm))
  rw [← OrderedMap.contains_iff_mem_keys]
  refine (hfold .empty).trans (or_iff_right ?_)
  intro hempty
  cases hempty

/-- How many stored documents lie in the spans of the requested names, over all collections
that are asked about. -/
def spanCount (documents : DocumentMap) (keys : List DocumentKey) : Nat :=
  ((keys.map DocumentKey.collection).dedup.map fun collection =>
    (spanned documents keys collection).length).sum

/-- A sum over the groups of requested row keys is one over the collections that are asked
about. -/
theorem sum_requestedRows (keys : List DocumentKey) (count : OrderedSet Bytes → Nat)
    (other : Path → Nat)
    (hcount : ∀ group ∈ (requestedRows keys).entries, count group.2 = other group.1) :
    ((requestedRows keys).entries.map fun group => count group.2).sum =
      ((keys.map DocumentKey.collection).dedup.map other).sum := by
  have hgroups : (requestedRows keys).entries.map (fun group => count group.2) =
      (requestedRows keys).keys.map other := by
    rw [OrderedMap.keys, List.map_map]
    exact List.map_congr_left hcount
  have hperm : (requestedRows keys).keys.Perm (keys.map DocumentKey.collection).dedup := by
    rw [List.perm_ext_iff_of_nodup (requestedRows keys).nodup_keys (List.nodup_dedup _)]
    intro collection
    rw [mem_keys_requestedRows_iff, List.mem_dedup, List.mem_map]
  rw [hgroups]
  exact (hperm.map _).sum_eq

theorem Kept.rowsRead_eq {documents : DocumentMap} (h : Kept table documents)
    (keys : List DocumentKey) :
    ((requestedRows keys).entries.map fun group => (spanRows table group.2).length).sum =
      spanCount documents keys :=
  sum_requestedRows keys (fun requested => (spanRows table requested).length)
    (fun collection => (spanned documents keys collection).length)
    fun _ hgroup => h.length_spanRows hgroup

end Rows

/-! ## Fences -/

/-- An engine that hands over certain rows only: a call that would show another one is
refused, and so is every write. -/
structure FencedEngine (σ : Type) where
  engine : σ
  allowed : Bytes → Bool

/-- Hand over rows if all of them are allowed. -/
def FencedEngine.handOver {σ : Type} (fenced : FencedEngine σ)
    (rows : Except Error (List (Bytes × Bytes))) : Except Error (List (Bytes × Bytes)) :=
  match rows with
  | .error error => .error error
  | .ok rows =>
      if rows.all fun entry => fenced.allowed entry.1 then .ok rows else .error Disk.failure

instance {σ : Type} [KeyValueEngine σ] : KeyValueEngine (FencedEngine σ) where
  get fenced key :=
    if fenced.allowed key then KeyValueEngine.get fenced.engine key else .error Disk.failure
  put fenced _ _ := (.error Disk.failure, fenced)
  putIf fenced _ _ _ := (⟨none, .error Disk.failure⟩, fenced)
  delete fenced _ := (.error Disk.failure, fenced)
  startingWith fenced front := fenced.handOver (KeyValueEngine.startingWith fenced.engine front)
  between fenced first last := fenced.handOver (KeyValueEngine.between fenced.engine first last)

/-- The cache over an engine that hands over these rows only. -/
def fenced {σ ι : Type} (cache : Cache σ ι) (allowed : Bytes → Bool) :
    Cache (FencedEngine σ) ι where
  engine := ⟨cache.engine, allowed⟩
  index := cache.index
  codec := cache.codec
  settings := cache.settings
  counters := cache.counters

section Fences

variable {σ ι : Type} [KeyValueEngine σ] {engine : σ} {table : Table} {allowed : Bytes → Bool}

/-- A span whose rows are all allowed is read as if there were no fence. -/
theorem readSpan_fenced (hanswers : AnswersFrom engine table) {requested : OrderedSet Bytes}
    (hallowed : ∀ entry ∈ spanRows table requested, allowed entry.1 = true) :
    readSpan (FencedEngine.mk engine allowed) requested = readSpan engine requested := by
  rw [readSpan_eq hanswers]
  unfold spanRows at hallowed ⊢
  unfold readSpan
  cases hfirst : requested.keys.head? with
  | none => rfl
  | some first =>
      cases hlast : requested.keys.getLast? with
      | none => rfl
      | some last =>
          simp only [hfirst, hlast] at hallowed
          change FencedEngine.handOver _ (KeyValueEngine.between engine first last) = _
          rw [hanswers.between]
          exact if_pos (List.all_eq_true.mpr hallowed)

theorem readGroups_fenced (codec : Codec) {groups : List (Path × OrderedSet Bytes)}
    (hspans : ∀ group ∈ groups,
      readSpan (FencedEngine.mk engine allowed) group.2 = readSpan engine group.2)
    (progress : DocumentMap × Nat) :
    readGroups (FencedEngine.mk engine allowed) codec groups progress =
      readGroups engine codec groups progress := by
  induction groups generalizing progress with
  | nil => rfl
  | cons group rest ih =>
      obtain ⟨hfirst, hrest⟩ := List.forall_mem_cons.mp hspans
      simp only [readGroups, hfirst, ih hrest]

theorem getAll_fenced {cache : Cache σ ι} {keys : List DocumentKey}
    (hspans : ∀ group ∈ (requestedRows keys).entries,
      readSpan (FencedEngine.mk cache.engine allowed) group.2 = readSpan cache.engine group.2) :
    (cache.fenced allowed).getAll keys =
      ((cache.getAll keys).1, (cache.getAll keys).2.fenced allowed) := by
  unfold getAll
  simp only [fenced, readGroups_fenced _ hspans]
  split <;> rfl

end Fences

/-! ## Batch lookups -/

open Shell (FileCache)

section Kept

variable {σ ι : Type} [KeyValueEngine σ] {cache : Cache σ ι} {table : Table}
  {documents : DocumentMap}

theorem Kept.exists_getAll (h : Kept table documents) (hanswers : AnswersFrom cache.engine table)
    (hcodec : cache.codec = Payload.codec) (keys : List DocumentKey) :
    ∃ found, (cache.getAll keys).1 = .ok found :=
  (getAll_ok_iff hanswers hcodec).mpr fun key _ => ⟨_, h.stored.get_eq hanswers hcodec key⟩

theorem Kept.rowsScanned_getAll (h : Kept table documents)
    (hanswers : AnswersFrom cache.engine table) (hcodec : cache.codec = Payload.codec)
    (keys : List DocumentKey) :
    (cache.getAll keys).2.counters.rowsScanned =
      cache.counters.rowsScanned + UInt64.ofNat (spanCount documents keys) := by
  obtain ⟨found, hfound⟩ := h.exists_getAll hanswers hcodec keys
  obtain ⟨rowsRead, hcollect, hcounters⟩ := exists_collectGroups hfound
  have hrows := rowsRead_of_collectGroups hanswers hcollect
  rw [h.rowsRead_eq keys, Nat.zero_add] at hrows
  rw [hcounters, ← hrows]
  rfl

/-- Every row of a span is that of a stored document in it. -/
theorem Kept.spanRow_of_mem (h : Kept table documents) {keys : List DocumentKey}
    {group : Path × OrderedSet Bytes} (hgroup : group ∈ (requestedRows keys).entries)
    {entry : Bytes × Bytes} (hmem : entry ∈ spanRows table group.2) :
    spanRow documents keys entry.1 = true := by
  obtain ⟨hheld, key, ⟨-, hspan⟩, hrowKey⟩ := (mem_spanRows_iff h.named hgroup).mp hmem
  rw [hrowKey] at hheld
  obtain ⟨document, -, hdocument, -⟩ := h.exists_document hheld
  refine List.any_eq_true.mpr ⟨_, OrderedMap.get?_eq_some_iff.mp hdocument, ?_⟩
  rw [Bool.and_eq_true, decide_eq_true_eq, decide_eq_true_eq]
  exact ⟨hspan, hrowKey⟩

/-- The stored documents are those that lookups find. -/
theorem Kept.get?_iff (h : Kept table documents) (hanswers : AnswersFrom cache.engine table)
    (hcodec : cache.codec = Payload.codec) {key : DocumentKey} {document : Document} :
    documents.get? key = some document ↔
      (cache.get key).1 = .ok document ∧ document.isKnown = true := by
  rw [h.stored.get_eq hanswers hcodec]
  cases hheld : documents.get? key with
  | none =>
      refine iff_of_false (by simp) ?_
      rintro ⟨hunknown, hknown⟩
      obtain rfl := Except.ok.inj hunknown
      cases hknown
  | some held =>
      rw [Option.getD_some, Except.ok.injEq, Option.some.injEq]
      refine (and_iff_left_of_imp ?_).symm
      rintro rfl
      obtain ⟨bytes, hbytes⟩ := h.exists_bytes hheld
      obtain ⟨other, row, hother, -, -, hdecode⟩ := h.exists_document hbytes
      obtain rfl := Option.some.inj (hheld.symm.trans hother)
      exact (known_of_decodeContents hdecode).2.1

end Kept

/-- After every history a batch lookup succeeds, and its counter of rows grows by the number of
stored documents whose names lie, in their collections, between the smallest and the largest
name requested there.  It would not notice if the engine handed over no row but theirs. -/
theorem history_reads_spans {settings : Settings} (hvalid : settings.validate = .ok ())
    {calls : List Call} (hpermitted : ∀ call ∈ calls, call.Permitted)
    (hshort : ShortWhenClosed calls) :
    ∃ cache documents, history settings calls = .ok cache ∧
      (∀ key document, documents.get? key = some document ↔
        (cache.get key).1 = .ok document ∧ document.isKnown = true) ∧
      ∀ keys : List DocumentKey,
        (∃ found, (cache.getAll keys).1 = .ok found) ∧
          (cache.getAll keys).2.counters.rowsScanned =
            cache.counters.rowsScanned + UInt64.ofNat (spanCount documents keys) ∧
          (cache.fenced (spanRow documents keys)).getAll keys =
            ((cache.getAll keys).1, (cache.getAll keys).2.fenced (spanRow documents keys)) := by
  obtain ⟨cache, hhistory, documents, hkeeps⟩ := history_keeps hvalid hpermitted hshort
  obtain ⟨hanswers, hcodec, hkept⟩ := hkeeps.shows
  refine ⟨cache, documents, hhistory, fun _ _ => hkept.get?_iff hanswers hcodec, ?_⟩
  intro keys
  refine ⟨hkept.exists_getAll hanswers hcodec keys,
    hkept.rowsScanned_getAll hanswers hcodec keys, getAll_fenced ?_⟩
  intro group hgroup
  exact readSpan_fenced hanswers fun _ => hkept.spanRow_of_mem hgroup

/-- A cache that holds known documents shows these and no others. -/
theorem Holds.eq_of_found {cache : FileCache} {documents others : DocumentMap} {short : Prop}
    (h : cache.Holds documents short)
    (hknown : ∀ entry ∈ documents.entries, entry.2.isKnown = true)
    (hfound : ∀ key document, others.get? key = some document ↔
      (cache.get key).1 = .ok document ∧ document.isKnown = true) : others = documents := by
  refine OrderedMap.ext_get? fun key => Option.ext fun document => ?_
  rw [hfound, h.get_eq]
  cases hheld : documents.get? key with
  | none =>
      refine iff_of_false ?_ (by simp)
      rintro ⟨hunknown, hisKnown⟩
      obtain rfl := Except.ok.inj hunknown
      cases hisKnown
  | some held =>
      rw [Option.getD_some, Except.ok.injEq, Option.some.injEq]
      refine and_iff_left_of_imp ?_
      rintro rfl
      exact hknown _ (OrderedMap.get?_eq_some_iff.mp hheld)

/-- A part of the note `b`. -/
def partOfNote : DocumentKey := ⟨⟨["notes", "b", "parts", "x"]⟩, by simp, rfl⟩

/-- Calls that store three notes, a part of one of them and a room. -/
def shelfCalls : List Call :=
  [.add (.deleted (noteKey "d") .never .never) (.ofSeconds 1),
    .add (.deleted (noteKey "a") .never .never) (.ofSeconds 2),
    .add (.deleted partOfNote .never .never) (.ofSeconds 3),
    .add (.deleted (roomKey "b") .never .never) (.ofSeconds 4),
    .add (.deleted (noteKey "b") .never .never) (.ofSeconds 5)]

theorem shelfCalls_allowed_short : ∀ call ∈ shelfCalls, call.Allowed ∧ call.Short := by
  have hnote : ∀ name, name ≠ "" → (noteKey name).Named := fun _ hname =>
    DocumentKey.named_topLevel (by decide) hname
  have hroom : (roomKey "b").Named := DocumentKey.named_topLevel (by decide) (by decide)
  have hpart : partOfNote.Named := by
    unfold DocumentKey.Named
    decide
  simp only [shelfCalls, List.forall_mem_cons]
  exact ⟨add_allowed_short (hnote "d" (by decide)) rfl (by decide +kernel),
    add_allowed_short (hnote "a" (by decide)) rfl (by decide +kernel),
    add_allowed_short hpart rfl (by decide +kernel),
    add_allowed_short hroom rfl (by decide +kernel),
    add_allowed_short (hnote "b" (by decide)) rfl (by decide +kernel), List.forall_mem_nil _⟩

/-- From `a` to `c` there are two notes; nothing is read of the note behind them, of the part
of a note between them and of the room whose name lies between theirs. -/
theorem history_reads_spans_shelfCalls :
    ∃ cache, history .default shelfCalls = .ok cache ∧
      (cache.getAll [noteKey "c", roomKey "z", noteKey "a"]).2.counters.rowsScanned =
        cache.counters.rowsScanned + 2 := by
  have hvalid : Settings.default.validate = .ok () := rfl
  have hallowed : ∀ call ∈ shelfCalls, call.Allowed := fun call hmem =>
    (shelfCalls_allowed_short call hmem).1
  have hpermitted : ∀ call ∈ shelfCalls, call.Permitted := fun call hmem =>
    (hallowed call hmem).permitted
  have hclosed : ShortWhenClosed shelfCalls := shortWhenClosed_of_short fun call hmem =>
    (shelfCalls_allowed_short call hmem).2
  obtain ⟨cache, documents, hhistory, hstored, hreads⟩ :=
    history_reads_spans hvalid hpermitted hclosed
  obtain ⟨same, hsame, hholds⟩ := history_holds hvalid rfl hallowed hclosed
  obtain rfl := Except.ok.inj (hhistory.symm.trans hsame)
  have hdocuments := hholds.eq_of_found (by decide +kernel) hstored
  have hcount : spanCount (remembered shelfCalls) [noteKey "c", roomKey "z", noteKey "a"] = 2 := by
    decide +kernel
  refine ⟨cache, hhistory, ?_⟩
  rw [(hreads _).2.1, hdocuments, hcount]
  rfl

end Cache

end DocumentCache
