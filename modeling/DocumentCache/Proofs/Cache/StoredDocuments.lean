import DocumentCache.Proofs.Cache.Reading

/-!
# Stored documents

A table stores a finite map of documents when the row of every key is read as the
document of the key, and a key without a document has no row.  Writing the row of a
document puts it into the map, deleting a row takes its document out, and a lookup
answers with the map.
-/

namespace DocumentCache

namespace Cache

/-- The rows of a table are read as these documents. -/
def Stores (table : Table) (documents : DocumentMap) : Prop :=
  ∀ key, (table.get? (RowKey.ofDocument key)).map (fun bytes =>
    decodeRow Payload.codec bytes key) = (documents.get? key).map .ok

theorem stores_empty : Stores .empty .empty := fun _ => rfl

namespace Stores

variable {table : Table} {documents : DocumentMap}

theorem insert (h : Stores table documents) {document : Document} {readTime : ReadTime}
    {rowKey row : Bytes} (hnamed : document.key.Named)
    (hencode : encodeRow Payload.codec document readTime = .ok (rowKey, row))
    (hrange : row.length < wordRange 8) :
    Stores (table.insert rowKey row)
      (documents.insert document.key (document.withReadTime readTime)) := by
  obtain ⟨_, rfl, _⟩ := encodeRow_cases hencode
  intro key
  by_cases hkey : key = document.key
  · subst hkey
    rw [Table.get?_insert_self, OrderedMap.get?_insert_self]
    exact congrArg some (decodeRow_encodeRow hnamed hencode hrange)
  · rw [Table.get?_insert_of_ne _ _ (mt RowKey.ofDocument_injective hkey),
      OrderedMap.get?_insert_of_ne _ _ hkey]
    exact h key

theorem erase (h : Stores table documents) (key : DocumentKey) :
    Stores (table.erase (RowKey.ofDocument key)) (documents.erase key) := by
  intro other
  by_cases hother : other = key
  · subst hother
    rw [Table.get?_erase_self, OrderedMap.get?_erase_self]
    rfl
  · rw [Table.get?_erase_of_ne _ (mt RowKey.ofDocument_injective hother),
      OrderedMap.get?_erase_of_ne _ hother]
    exact h other

/-- A key without a document has no row. -/
theorem get?_eq_none (h : Stores table documents) {key : DocumentKey}
    (hnone : documents.get? key = none) : table.get? (RowKey.ofDocument key) = none := by
  have hkey := h key
  rw [hnone] at hkey
  exact Option.map_eq_none_iff.mp hkey

theorem get_eq {σ ι : Type} [KeyValueEngine σ] {cache : Cache σ ι} (h : Stores table documents)
    (hanswers : AnswersFrom cache.engine table) (hcodec : cache.codec = Payload.codec)
    (key : DocumentKey) :
    (cache.get key).1 = .ok ((documents.get? key).getD (.unknown key)) := by
  have hkey := h key
  rw [Cache.get_eq hanswers, hcodec]
  cases hrow : table.get? (RowKey.ofDocument key) with
  | none =>
      rw [hrow, Option.map_none, eq_comm, Option.map_eq_none_iff] at hkey
      rw [hkey]
      rfl
  | some bytes =>
      rw [hrow, Option.map_some, eq_comm, Option.map_eq_some_iff] at hkey
      obtain ⟨document, hdocument, hdecode⟩ := hkey
      rw [hdocument]
      exact hdecode.symm

end Stores

/-! ## Writes -/

section Writes

variable {σ ι : Type} [KeyValueEngine σ] {cache : Cache σ ι}

/-- Removing a key is deleting its row, but for the counters. -/
theorem remove_of_delete {key : DocumentKey} {engine : σ} {result : Except Error Unit}
    (hdelete : KeyValueEngine.delete cache.engine (RowKey.ofDocument key) = (result, engine)) :
    ∃ counters, cache.remove key = (result, { cache with engine, counters }) := by
  simp only [remove, hdelete]
  exact ⟨_, rfl⟩

variable [CollectionIndex ι]

/-- A document that cannot be encoded changes nothing. -/
theorem add_of_encodeRow_error {document : Document} {readTime : ReadTime} {error : Error}
    (hencode : encodeRow cache.codec document readTime = .error error) :
    cache.add document readTime = (.error error, cache) := by
  simp only [add, hencode]

end Writes

end Cache

end DocumentCache
