import DocumentCache.Cache.Rows

/-!
# Looking documents up

A lookup reads one row.  A batch lookup reads, for each collection, the rows between
the smallest and the largest one asked for, and leaves out those in between that were
not asked for.
-/

namespace DocumentCache.Cache

variable {σ ι : Type} [KeyValueEngine σ] [CollectionIndex ι]

/-- What the cache knows about a key. -/
def get (cache : Cache σ ι) (key : DocumentKey) : Except Error Document × Cache σ ι :=
  let counters := cache.counters.recordGet
  match KeyValueEngine.get cache.engine (RowKey.ofDocument key) with
  | .error error => (.error error, { cache with counters })
  | .ok none => (.ok (.unknown key), { cache with counters })
  | .ok (some bytes) =>
      match readDocument cache.codec bytes key counters with
      | (result, counters) => (result, { cache with counters })

/-- The row keys asked for, by collection. -/
def requestedRows (keys : List DocumentKey) : OrderedMap Path (OrderedSet Bytes) :=
  keys.foldl (fun groups key =>
    let rows := (groups.get? key.collection).getD .empty
    groups.insert key.collection (rows.insert (RowKey.ofDocument key) ())) .empty

/-- Put the requested rows among those handed over into the answer. -/
def readRows (codec : Codec) (collection : Path) (requested : OrderedSet Bytes) :
    List (Bytes × Bytes) → DocumentMap → RowReader DocumentMap
  | [], found => return found
  | (rowKey, bytes) :: rest, found =>
      if requested.contains rowKey then do
        let key ← readKey collection rowKey
        let document ← readDocument codec bytes key
        readRows codec collection requested rest (found.insert key document)
      else readRows codec collection requested rest found

/-- The rows of a collection from the smallest to the largest one requested. -/
def readSpan (engine : σ) (requested : OrderedSet Bytes) :
    Except Error (List (Bytes × Bytes)) :=
  match requested.keys.head?, requested.keys.getLast? with
  | some first, some last => KeyValueEngine.between engine first last
  | _, _ => .ok []

/-- Read the requested rows of one collection after another, counting all rows that
the engine hands over. -/
def readGroups (engine : σ) (codec : Codec) :
    List (Path × OrderedSet Bytes) → DocumentMap × Nat → RowReader (DocumentMap × Nat)
  | [], progress => return progress
  | (collection, requested) :: rest, (found, rowsRead) => do
      let rows ← unnoted (readSpan engine requested)
      let found ← readRows codec collection requested rows found
      readGroups engine codec rest (found, rowsRead + rows.length)

/-- What the cache knows about each of some keys. -/
def getAll (cache : Cache σ ι) (keys : List DocumentKey) :
    Except Error DocumentMap × Cache σ ι :=
  let unknown : DocumentMap :=
    keys.foldl (fun found key => found.insert key (.unknown key)) .empty
  match readGroups cache.engine cache.codec (requestedRows keys).entries (unknown, 0)
      cache.counters with
  | (.error error, counters) => (.error error, { cache with counters })
  | (.ok (found, rowsRead), counters) =>
      (.ok found, { cache with counters := counters.recordBatchGet (UInt64.ofNat rowsRead) })

end DocumentCache.Cache
