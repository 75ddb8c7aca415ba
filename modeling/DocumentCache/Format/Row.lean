import DocumentCache.Format.Reader

/-!
# Rows

A row is what the engine holds for one document: the two columns of the time at
which it was read and the payload.  The columns are kept as they are stored, since
a row may hold columns that are no read time.
-/

namespace DocumentCache

structure Row where
  seconds : Int64
  nanos : Int32
  contents : Bytes
  deriving DecidableEq

namespace Row

/-- The row of a payload read at a given time. -/
def ofReadTime (readTime : ReadTime) (contents : Bytes) : Row :=
  ⟨Int64.ofNat readTime.seconds, Int32.ofNat readTime.nanos, contents⟩

/-- The time in the columns; it must lie after the epoch. -/
def readTime (row : Row) : Except Corruption ReadTime :=
  (ReadTime.ofPartsAfterEpoch row.seconds row.nanos).mapError .rowReadTime

def encode (row : Row) : Bytes :=
  Wire.int64 row.seconds ++ Wire.int32 row.nanos ++ Wire.blob row.contents

def reader : Reader Row := do
  let seconds ← Reader.int64
  let nanos ← Reader.int32
  let contents ← Reader.blob
  return ⟨seconds, nanos, contents⟩

/-- The row at the beginning of these bytes; bytes behind it do not count. -/
def decode (bytes : Bytes) : Except Corruption Row :=
  match reader bytes with
  | .ok (row, _) => .ok row
  | .error fault => .error (.wire fault)

end Row

end DocumentCache
