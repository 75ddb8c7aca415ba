import DocumentCache.Cache.Rows

/-!
# Adding and removing documents

A document is added by writing its row in place of the one that stands there; the
index is told of its collection afterwards.  A cache may refuse documents read
earlier than the stored row; then the comparison and the write are one step of the
engine.
-/

namespace DocumentCache.Cache

variable {σ ι : Type} [KeyValueEngine σ] [CollectionIndex ι]

/-- Refuse to replace a row that was read later. -/
def checkNotOlder (key : DocumentKey) (readTime : ReadTime) (held : Option Bytes) :
    Except Error Unit := do
  match held with
  | none => return ()
  | some bytes =>
      let row ← parseRow bytes
      let stored ← rowReadTime row
      if readTime < stored then
        throw (.invalidArgument (.olderReadTime readTime key stored))

/-- The row and the row key under which a document is added. -/
def encodeRow (codec : Codec) (document : Document) (readTime : ReadTime) :
    Except Error (Bytes × Bytes) :=
  if readTime = .never then .error (.invalidArgument (.neverRead document.key))
  else
    match codec.encodeKnown document with
    | .error error => .error error
    | .ok contents =>
        .ok (RowKey.ofDocument document.key, (Row.ofReadTime readTime contents).encode)

/-- Write a row.  When older documents are refused, the row that stands there is
shown to the check; only bytes that are no row at all count as corrupt then. -/
def writeRow (cache : Cache σ ι) (document : Document) (readTime : ReadTime)
    (rowKey row : Bytes) : Except Error Unit × Cache σ ι :=
  if cache.settings.rejectOlder then
    match KeyValueEngine.putIf cache.engine rowKey row (checkNotOlder document.key readTime) with
    | (outcome, engine) =>
        let counters :=
          match outcome.seen with
          | some (some held) => countCorrupt cache.counters (parseRow held)
          | _ => cache.counters
        (outcome.result, { cache with engine, counters })
  else
    match KeyValueEngine.put cache.engine rowKey row with
    | (result, engine) => (result, { cache with engine })

/-- Store a document as read at a given time, in place of the row that stands
there.  A failure of the index does not matter. -/
def add (cache : Cache σ ι) (document : Document) (readTime : ReadTime) :
    Except Error Unit × Cache σ ι :=
  match encodeRow cache.codec document readTime with
  | .error error => (.error error, cache)
  | .ok (rowKey, row) =>
      match cache.writeRow document readTime rowKey row with
      | (.error error, cache) => (.error error, cache)
      | (.ok (), cache) =>
          (.ok (), { cache with
            counters := cache.counters.recordAdd
              (UInt64.ofNat rowKey.length) (UInt64.ofNat row.length)
            index := (CollectionIndex.notify cache.index document.key.collection).2 })

/-- Delete the row of a key, if there is one. -/
def remove (cache : Cache σ ι) (key : DocumentKey) : Except Error Unit × Cache σ ι :=
  match KeyValueEngine.delete cache.engine (RowKey.ofDocument key) with
  | (result, engine) =>
      (result, { cache with engine, counters := cache.counters.recordRemove })

end DocumentCache.Cache
