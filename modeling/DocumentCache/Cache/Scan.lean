import DocumentCache.Cache.DecodePool
import DocumentCache.Cache.Query
import DocumentCache.Cache.Rows

/-!
# Scans

A query reads the rows of one collection and leaves out those not read after a given
time before it decodes the others in a pool.  It answers with all documents that
match or, if one of these rows is corrupt, with none.  The latest read time is taken
over all rows.
-/

namespace DocumentCache.Cache

variable {σ ι : Type} [KeyValueEngine σ] [CollectionIndex ι]

/-- A row that is to be decoded for a query. -/
structure Pending where
  key : DocumentKey
  contents : Bytes
  readTime : ReadTime

/-- Read the pending row of one row, unless that was not read after `since`. -/
def readPending (collection : Path) (since : ReadTime) (rowKey bytes : Bytes) :
    RowReader (Option Pending) := do
  let row ← noteCorrupt (parseRow bytes)
  let readTime ← noteCorrupt (rowReadTime row)
  if since ≠ .never ∧ readTime ≤ since then return none
  let key ← readKey collection rowKey
  return some ⟨key, row.contents, readTime⟩

/-- Read the rows that are to be decoded, in the order handed over. -/
def readAllPending (collection : Path) (since : ReadTime) :
    List (Bytes × Bytes) → RowReader (List Pending)
  | [] => return []
  | (rowKey, bytes) :: rest => do
      match ← readPending collection since rowKey bytes with
      | none => readAllPending collection since rest
      | some pending => return pending :: (← readAllPending collection since rest)

/-- What the jobs of one query work on together. -/
structure Matches where
  found : DocumentMap
  counters : Counters

/-- Decode one row and keep its document if it matches. -/
def matchJob (codec : Codec) (query : Query) (pending : Pending) : Job Matches where
  run shared :=
    match decodeContents codec pending.contents pending.readTime pending.key with
    | .error error =>
        (.failed error,
          { shared with counters := countCorrupt (α := Unit) shared.counters (.error error) })
    | .ok document =>
        if document.isFound then
          match query.matchesDocument document with
          | none => (.aborted, shared)
          | some true => (.done, { shared with found := shared.found.insert pending.key document })
          | some false => (.done, shared)
        else (.done, shared)

/-- Decode the pending rows: in the background all but the last, which the caller
does. -/
def runJobs (codec : Codec) (query : Query) (background : Bool) :
    List Pending → DecodePool Matches → DecodePool Matches
  | [], pool => pool
  | pending :: rest, pool =>
      let job := matchJob codec query pending
      if background && !rest.isEmpty then
        let counters := pool.shared.counters.recordBackgroundDecode
        let pool := { pool with shared := { pool.shared with counters } }
        runJobs codec query background rest (pool.submit job)
      else runJobs codec query background rest (pool.runInline job)

/-- The found documents of a collection that match a query and were read after
`since`; all of them when that is `never`. -/
def query (cache : Cache σ ι) (query : Query) (since : ReadTime) (interrupted : Bool) :
    Except Error DocumentMap × Cache σ ι :=
  match KeyValueEngine.startingWith cache.engine (RowKey.ofCollection query.collection) with
  | .error error => (.error error, cache)
  | .ok rows =>
      match readAllPending query.collection since rows cache.counters with
      | (.error error, counters) => (.error error, { cache with counters })
      | (.ok pending, counters) =>
          let counters := counters.recordScan (UInt64.ofNat pending.length)
          let background := cache.settings.parallelThreshold ≤ pending.length
          let pool := DecodePool.create cache.settings.decodeWorkers interrupted
            (⟨.empty, counters⟩ : Matches)
          match (runJobs cache.codec query background pending pool).drain with
          | (.error error, pool) => (.error error, { cache with counters := pool.shared.counters })
          | (.ok (), pool) =>
              (.ok pool.shared.found, { cache with counters := pool.shared.counters })

/-- Read the latest read time of some rows, not before the given one. -/
def readLatest : List (Bytes × Bytes) → ReadTime → RowReader ReadTime
  | [], latest => return latest
  | (_, bytes) :: rest, latest => do
      let row ← noteCorrupt (parseRow bytes)
      let readTime ← noteCorrupt (rowReadTime row)
      readLatest rest (latest.later readTime)

/-- The latest read time of all rows; `never` when there is none. -/
def latestReadTime (cache : Cache σ ι) : Except Error ReadTime × Cache σ ι :=
  match KeyValueEngine.startingWith cache.engine RowKey.ofTable with
  | .error error => (.error error, cache)
  | .ok rows =>
      match readLatest rows .never cache.counters with
      | (result, counters) => (result, { cache with counters })

end DocumentCache.Cache
