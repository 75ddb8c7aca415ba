import DocumentCache.Proofs.Cache.Scans
import DocumentCache.Proofs.Journal.TableContents

/-!
# Rows of a collection

Where every row key is the row key of some document, a scan of a collection reads
the rows of the documents directly in it, each under its own key.  It gets through
if all of them have a read time, and then those read after the given time are to be
decoded.
-/

namespace DocumentCache

namespace Cache

/-! ## Rows and keys -/

/-- Every row key of the table is the row key of a document whose key has no empty
segment. -/
def KeysNamed (table : Table) : Prop :=
  ∀ rowKey bytes, table.get? rowKey = some bytes → RowKey.ofTable.isPrefixOf rowKey = true →
    ∃ key : DocumentKey, key.Named ∧ rowKey = RowKey.ofDocument key

/-- The row of a document and the read time in its columns. -/
def HoldsRow (table : Table) (key : DocumentKey) (row : Row) (readTime : ReadTime) : Prop :=
  ∃ bytes, table.get? (RowKey.ofDocument key) = some bytes ∧
    Row.decode bytes = .ok row ∧ row.readTime = .ok readTime

/-- A query scans rows read after the given time, all rows when that is `never`. -/
def Recent (since readTime : ReadTime) : Prop := since = .never ∨ since < readTime

theorem recent_iff {since readTime : ReadTime} :
    Recent since readTime ↔ ¬ (since ≠ .never ∧ readTime ≤ since) := by
  constructor
  · rintro (hnever | hlt) ⟨hne, hle⟩
    · exact hne hnever
    · exact Nat.not_lt.mpr hle hlt
  · intro h
    by_cases hnever : since = .never
    · exact .inl hnever
    · exact .inr (Nat.not_le.mp fun hle => h ⟨hnever, hle⟩)

theorem KeysNamed.named {table : Table} (hnamed : KeysNamed table) {key : DocumentKey}
    {bytes : Bytes} (hheld : table.get? (RowKey.ofDocument key) = some bytes) : key.Named := by
  obtain ⟨other, hother, hrowKey⟩ := hnamed _ bytes hheld rfl
  rw [RowKey.ofDocument_injective hrowKey]
  exact hother

theorem mem_collection_iff {table : Table} (hnamed : KeysNamed table) {collection : Path}
    {entry : Bytes × Bytes} :
    entry ∈ table.startingWith (RowKey.ofCollection collection) ↔
      ∃ key : DocumentKey, key.collection = collection ∧ entry.1 = RowKey.ofDocument key ∧
        table.get? (RowKey.ofDocument key) = some entry.2 := by
  rw [Table.mem_startingWith]
  constructor
  · rintro ⟨hheld, hbegins⟩
    have htable : RowKey.ofTable.isPrefixOf entry.1 = true := by
      have hfront : RowKey.ofTable <+: RowKey.ofCollection collection := ⟨_, rfl⟩
      exact List.isPrefixOf_iff_prefix.mpr (hfront.trans (List.isPrefixOf_iff_prefix.mp hbegins))
    obtain ⟨key, _, hrowKey⟩ := hnamed entry.1 entry.2 hheld htable
    rw [hrowKey] at hheld hbegins
    exact ⟨key, RowKey.ofCollection_isPrefixOf_ofDocument.mp hbegins, hrowKey, hheld⟩
  · rintro ⟨key, hcollection, hrowKey, hheld⟩
    rw [hrowKey]
    exact ⟨hheld, RowKey.ofCollection_isPrefixOf_ofDocument.mpr hcollection⟩

/-! ## Pending rows -/

theorem pendingRow_ofDocument {key : DocumentKey} (hnamed : key.Named) (since : ReadTime)
    (bytes : Bytes) :
    pendingRow key.collection since (RowKey.ofDocument key) bytes = do
      let row ← parseRow bytes
      let readTime ← rowReadTime row
      if since ≠ .never ∧ readTime ≤ since then return none
      else return some ⟨key, row.contents, readTime⟩ := by
  unfold pendingRow
  rw [keyOfRow_ofDocument hnamed]
  rfl

/-- A row is to be decoded if its columns hold a recent read time. -/
theorem pendingRow_eq_some_iff {key : DocumentKey} (hnamed : key.Named) {since : ReadTime}
    {bytes : Bytes} {pending : Pending} :
    pendingRow key.collection since (RowKey.ofDocument key) bytes = .ok (some pending) ↔
      ∃ row readTime, Row.decode bytes = .ok row ∧ row.readTime = .ok readTime ∧
        Recent since readTime ∧ pending = ⟨key, row.contents, readTime⟩ := by
  simp only [pendingRow_ofDocument hnamed, bind_eq_ok_iff, parseRow_eq_ok_iff,
    rowReadTime_eq_ok_iff]
  constructor
  · rintro ⟨row, hrow, readTime, hread, h⟩
    split at h
    · cases h
    · next hrecent =>
        obtain rfl := Option.some.inj (Except.ok.inj h)
        exact ⟨row, readTime, hrow, hread, recent_iff.mpr hrecent, rfl⟩
  · rintro ⟨row, readTime, hrow, hread, hrecent, rfl⟩
    refine ⟨row, hrow, readTime, hread, ?_⟩
    rw [if_neg (recent_iff.mp hrecent)]
    rfl

/-- A row can be passed over or decoded if its columns hold a read time. -/
theorem pendingRow_ok_iff {key : DocumentKey} (hnamed : key.Named) {since : ReadTime}
    {bytes : Bytes} :
    (∃ pending?, pendingRow key.collection since (RowKey.ofDocument key) bytes = .ok pending?) ↔
      ∃ row readTime, Row.decode bytes = .ok row ∧ row.readTime = .ok readTime := by
  simp only [pendingRow_ofDocument hnamed, bind_eq_ok_iff, parseRow_eq_ok_iff,
    rowReadTime_eq_ok_iff]
  constructor
  · rintro ⟨_, row, hrow, readTime, hread, _⟩
    exact ⟨row, readTime, hrow, hread⟩
  · rintro ⟨row, readTime, hrow, hread⟩
    by_cases hold : since ≠ .never ∧ readTime ≤ since
    · exact ⟨none, row, hrow, readTime, hread, if_pos hold⟩
    · exact ⟨some _, row, hrow, readTime, hread, if_neg hold⟩

theorem pendingRow_failsCorrupt (collection : Path) (since : ReadTime) (rowKey bytes : Bytes) :
    FailsCorrupt (pendingRow collection since rowKey bytes) := by
  apply FailsCorrupt.bind (parseRow_failsCorrupt bytes)
  intro row
  apply FailsCorrupt.bind (rowReadTime_failsCorrupt row)
  intro readTime
  split
  · exact .ok none
  · exact .bind (keyOfRow_failsCorrupt collection rowKey) fun key => .ok _

variable {collection : Path} {since : ReadTime}

/-- The rows to be decoded are those of the rows read, in their order. -/
theorem pendingRows_cons (entry : Bytes × Bytes) (rest : List (Bytes × Bytes)) :
    pendingRows collection since (entry :: rest) = do
      let first ← pendingRow collection since entry.1 entry.2
      let others ← pendingRows collection since rest
      return first.toList ++ others := by
  obtain ⟨rowKey, bytes⟩ := entry
  rw [pendingRows]
  cases pendingRow collection since rowKey bytes with
  | error error => rfl
  | ok first =>
      cases first with
      | none => exact (bind_pure _).symm
      | some pending => rfl

theorem pendingRows_failsCorrupt (rows : List (Bytes × Bytes)) :
    FailsCorrupt (pendingRows collection since rows) := by
  induction rows with
  | nil => exact .ok []
  | cons entry rest ih =>
      rw [pendingRows_cons]
      exact .bind (pendingRow_failsCorrupt collection since entry.1 entry.2) fun _ =>
        .bind ih fun _ => .ok _

theorem pendingRows_ok_iff {rows : List (Bytes × Bytes)} :
    (∃ pending, pendingRows collection since rows = .ok pending) ↔
      ∀ entry ∈ rows, ∃ pending?, pendingRow collection since entry.1 entry.2 = .ok pending? := by
  induction rows with
  | nil => simp [pendingRows]
  | cons entry rest ih =>
      simp only [pendingRows_cons, bind_eq_ok_iff, List.forall_mem_cons, ← ih]
      constructor
      · rintro ⟨_, first, hfirst, others, hothers, _⟩
        exact ⟨⟨first, hfirst⟩, others, hothers⟩
      · rintro ⟨⟨first, hfirst⟩, others, hothers⟩
        exact ⟨_, first, hfirst, others, hothers, rfl⟩

theorem mem_pendingRows_iff {rows : List (Bytes × Bytes)} {pending : List Pending}
    (h : pendingRows collection since rows = .ok pending) {item : Pending} :
    item ∈ pending ↔
      ∃ entry ∈ rows, pendingRow collection since entry.1 entry.2 = .ok (some item) := by
  induction rows generalizing pending with
  | nil =>
      obtain rfl := Except.ok.inj h
      simp
  | cons entry rest ih =>
      rw [pendingRows_cons] at h
      obtain ⟨first, hfirst, h⟩ := bind_eq_ok_iff.mp h
      obtain ⟨others, hothers, h⟩ := bind_eq_ok_iff.mp h
      obtain rfl := Except.ok.inj h
      simp only [List.mem_append, Option.mem_toList, ih hothers, List.mem_cons, exists_eq_or_imp,
        hfirst, Except.ok.injEq]

/-- Rows under different row keys are decoded for different keys. -/
theorem pairwise_pendingRows {rows : List (Bytes × Bytes)} {pending : List Pending}
    (hrows : rows.Pairwise fun first second => first.1 ≠ second.1)
    (hkeys : ∀ entry ∈ rows, ∀ item,
      pendingRow collection since entry.1 entry.2 = .ok (some item) →
        entry.1 = RowKey.ofDocument item.key)
    (h : pendingRows collection since rows = .ok pending) :
    pending.Pairwise fun first second => first.key ≠ second.key := by
  induction rows generalizing pending with
  | nil =>
      obtain rfl := Except.ok.inj h
      exact .nil
  | cons entry rest ih =>
      obtain ⟨hhead, hrest⟩ := List.pairwise_cons.mp hrows
      obtain ⟨hkey, hkeys⟩ := List.forall_mem_cons.mp hkeys
      rw [pendingRows_cons] at h
      obtain ⟨first, hfirst, h⟩ := bind_eq_ok_iff.mp h
      obtain ⟨others, hothers, h⟩ := bind_eq_ok_iff.mp h
      obtain rfl := Except.ok.inj h
      have hlater := ih hrest hkeys hothers
      cases first with
      | none => exact hlater
      | some item =>
          refine List.pairwise_cons.mpr ⟨?_, hlater⟩
          intro other hmem hsame
          obtain ⟨later, hlaterMem, hpending⟩ := (mem_pendingRows_iff hothers).mp hmem
          apply hhead later hlaterMem
          rw [hkey item hfirst, hkeys later hlaterMem other hpending, hsame]

/-! ## Scans of a collection -/

variable {table : Table}

theorem pendingRows_collection_ok_iff (hnamed : KeysNamed table) :
    (∃ pending, pendingRows collection since
        (table.startingWith (RowKey.ofCollection collection)) = .ok pending) ↔
      ∀ key bytes, key.collection = collection →
        table.get? (RowKey.ofDocument key) = some bytes →
          ∃ row readTime, Row.decode bytes = .ok row ∧ row.readTime = .ok readTime := by
  rw [pendingRows_ok_iff]
  constructor
  · rintro h key bytes rfl hheld
    exact (pendingRow_ok_iff (hnamed.named hheld)).mp
      (h (_, bytes) ((mem_collection_iff hnamed).mpr ⟨key, rfl, rfl, hheld⟩))
  · intro h entry hmem
    obtain ⟨key, rfl, hrowKey, hheld⟩ := (mem_collection_iff hnamed).mp hmem
    rw [hrowKey]
    exact (pendingRow_ok_iff (hnamed.named hheld)).mpr (h key entry.2 rfl hheld)

theorem mem_pendingRows_collection_iff (hnamed : KeysNamed table) {pending : List Pending}
    (h : pendingRows collection since
      (table.startingWith (RowKey.ofCollection collection)) = .ok pending) {item : Pending} :
    item ∈ pending ↔
      item.key.collection = collection ∧ Recent since item.readTime ∧
        ∃ row, HoldsRow table item.key row item.readTime ∧ item.contents = row.contents := by
  rw [mem_pendingRows_iff h]
  constructor
  · rintro ⟨entry, hmem, hpending⟩
    obtain ⟨key, rfl, hrowKey, hheld⟩ := (mem_collection_iff hnamed).mp hmem
    rw [hrowKey] at hpending
    obtain ⟨row, readTime, hrow, hread, hrecent, rfl⟩ :=
      (pendingRow_eq_some_iff (hnamed.named hheld)).mp hpending
    exact ⟨rfl, hrecent, row, ⟨entry.2, hheld, hrow, hread⟩, rfl⟩
  · rintro ⟨rfl, hrecent, row, ⟨bytes, hheld, hrow, hread⟩, hcontents⟩
    refine ⟨(_, bytes), (mem_collection_iff hnamed).mpr ⟨item.key, rfl, rfl, hheld⟩, ?_⟩
    refine (pendingRow_eq_some_iff (hnamed.named hheld)).mpr
      ⟨row, item.readTime, hrow, hread, hrecent, ?_⟩
    rw [← hcontents]

/-- Every row of the collection lies under the row key of a document whose key has no
empty segment. -/
def RowsNamed (table : Table) (collection : Path) : Prop :=
  ∀ entry ∈ table.startingWith (RowKey.ofCollection collection),
    ∃ key : DocumentKey, key.Named ∧ entry.1 = RowKey.ofDocument key

/-- Every row of the collection has a read time in its columns. -/
def RowsTimed (table : Table) (collection : Path) : Prop :=
  ∀ entry ∈ table.startingWith (RowKey.ofCollection collection),
    ∃ row readTime, Row.decode entry.2 = .ok row ∧ row.readTime = .ok readTime

theorem KeysNamed.rowsNamed (hnamed : KeysNamed table) (collection : Path) :
    RowsNamed table collection := by
  intro entry hmem
  obtain ⟨key, _, hrowKey, hheld⟩ := (mem_collection_iff hnamed).mp hmem
  exact ⟨key, hnamed.named hheld, hrowKey⟩

theorem RowsNamed.exists_key (hnamed : RowsNamed table collection) {entry : Bytes × Bytes}
    (hmem : entry ∈ table.startingWith (RowKey.ofCollection collection)) :
    ∃ key : DocumentKey, key.Named ∧ key.collection = collection ∧
      entry.1 = RowKey.ofDocument key := by
  obtain ⟨key, hkey, hrowKey⟩ := hnamed entry hmem
  have hbegins := (Table.mem_startingWith.mp hmem).2
  rw [hrowKey] at hbegins
  exact ⟨key, hkey, RowKey.ofCollection_isPrefixOf_ofDocument.mp hbegins, hrowKey⟩

theorem RowsNamed.pendingRows_ok (hnamed : RowsNamed table collection)
    (htimed : RowsTimed table collection) (since : ReadTime) :
    ∃ pending, pendingRows collection since
      (table.startingWith (RowKey.ofCollection collection)) = .ok pending := by
  rw [pendingRows_ok_iff]
  intro entry hmem
  obtain ⟨key, hkey, rfl, hrowKey⟩ := hnamed.exists_key hmem
  rw [hrowKey]
  exact (pendingRow_ok_iff hkey).mpr (htimed entry hmem)

theorem RowsNamed.pairwise_pendingRows (hnamed : RowsNamed table collection)
    {pending : List Pending}
    (h : pendingRows collection since
      (table.startingWith (RowKey.ofCollection collection)) = .ok pending) :
    pending.Pairwise fun first second => first.key ≠ second.key := by
  refine Cache.pairwise_pendingRows ?_ ?_ h
  · rw [Table.startingWith_eq_filter]
    apply (table.ascending_toList.filter _).imp
    intro first second hlt
    apply OrderedMap.ne_of_compare
    rw [hlt]
    decide
  · intro entry hmem item hpending
    obtain ⟨key, hkey, rfl, hrowKey⟩ := hnamed.exists_key hmem
    rw [hrowKey] at hpending
    obtain ⟨_, _, _, _, _, rfl⟩ := (pendingRow_eq_some_iff hkey).mp hpending
    exact hrowKey

/-! ## The latest read time -/

/-- The columns of a row hold this read time. -/
def RowTime (bytes : Bytes) (readTime : ReadTime) : Prop :=
  ∃ row, Row.decode bytes = .ok row ∧ row.readTime = .ok readTime

theorem RowTime.unique {bytes : Bytes} {first second : ReadTime} (hfirst : RowTime bytes first)
    (hsecond : RowTime bytes second) : first = second := by
  obtain ⟨row, hrow, hread⟩ := hfirst
  obtain ⟨other, hother, hotherRead⟩ := hsecond
  obtain rfl := Except.ok.inj (hrow.symm.trans hother)
  exact Except.ok.inj (hread.symm.trans hotherRead)

theorem latestOf_cons_iff {entry : Bytes × Bytes} {rest : List (Bytes × Bytes)}
    {latest result : ReadTime} :
    latestOf (entry :: rest) latest = .ok result ↔
      ∃ readTime, RowTime entry.2 readTime ∧
        latestOf rest (latest.later readTime) = .ok result := by
  simp only [latestOf, bind_eq_ok_iff, parseRow_eq_ok_iff, rowReadTime_eq_ok_iff, RowTime]
  constructor
  · rintro ⟨row, hrow, readTime, hread, hrest⟩
    exact ⟨readTime, ⟨row, hrow, hread⟩, hrest⟩
  · rintro ⟨readTime, ⟨row, hrow, hread⟩, hrest⟩
    exact ⟨row, hrow, readTime, hread, hrest⟩

theorem latestOf_ok_iff {rows : List (Bytes × Bytes)} (latest : ReadTime) :
    (∃ result, latestOf rows latest = .ok result) ↔
      ∀ entry ∈ rows, ∃ readTime, RowTime entry.2 readTime := by
  induction rows generalizing latest with
  | nil => exact iff_of_true ⟨latest, rfl⟩ (List.forall_mem_nil _)
  | cons entry rest ih =>
      simp only [latestOf_cons_iff, List.forall_mem_cons]
      constructor
      · rintro ⟨result, readTime, hread, hrest⟩
        exact ⟨⟨readTime, hread⟩, (ih _).mp ⟨result, hrest⟩⟩
      · rintro ⟨⟨readTime, hread⟩, hrest⟩
        obtain ⟨result, hresult⟩ := (ih (latest.later readTime)).mpr hrest
        exact ⟨result, readTime, hread, hresult⟩

/-- The latest read time is that of a row, if it is not the one to begin with, and no row
has a later one. -/
theorem latestOf_max {rows : List (Bytes × Bytes)} {latest result : ReadTime}
    (h : latestOf rows latest = .ok result) :
    latest ≤ result ∧
      (∀ entry ∈ rows, ∀ readTime, RowTime entry.2 readTime → readTime ≤ result) ∧
      (result = latest ∨ ∃ entry ∈ rows, RowTime entry.2 result) := by
  induction rows generalizing latest with
  | nil =>
      obtain rfl := Except.ok.inj h
      exact ⟨Nat.le_refl _, List.forall_mem_nil _, .inl rfl⟩
  | cons entry rest ih =>
      obtain ⟨readTime, hread, hrest⟩ := latestOf_cons_iff.mp h
      obtain ⟨hlatest, hall, hsome⟩ := ih hrest
      refine ⟨Nat.le_trans (latest.le_later_left readTime) hlatest, ?_, ?_⟩
      · rw [List.forall_mem_cons]
        refine ⟨?_, hall⟩
        intro other hother
        obtain rfl := hread.unique hother
        exact Nat.le_trans (latest.le_later_right readTime) hlatest
      · rcases hsome with hresult | ⟨later, hmem, hlater⟩
        · rcases latest.later_cases readTime with hsame | hsame
          · exact .inl (hresult.trans hsame)
          · rw [hresult, hsame]
            exact .inr ⟨entry, List.mem_cons_self .., hread⟩
        · exact .inr ⟨later, List.mem_cons_of_mem _ hmem, hlater⟩

end Cache

end DocumentCache
