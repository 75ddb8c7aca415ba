import DocumentCache.Cache.Basic
import DocumentCache.Format.Row
import DocumentCache.Format.RowKey

/-!
# Rows of the cache

What stands under a row key is read in three steps: the row, the time at which it was
read, and the document in its payload.  A document is answered only if it belongs to
the key it is stored under.  Each step counts what it finds corrupt.
-/

namespace DocumentCache.Cache

/-- Interprets rows, with the counters at hand. -/
abbrev RowReader (α : Type) : Type := ExceptT Error (StateM Counters) α

/-- Count a failure of a step that is due to a corrupt row. -/
def noteCorrupt {α : Type} (result : Except Error α) : RowReader α := fun counters =>
  (result, countCorrupt counters result)

/-- A step of which no failure is counted. -/
def unnoted {α : Type} (result : Except Error α) : RowReader α := fun counters =>
  (result, counters)

def parseRow (bytes : Bytes) : Except Error Row :=
  (Row.decode bytes).mapError .corruptRecord

def rowReadTime (row : Row) : Except Error ReadTime :=
  row.readTime.mapError .corruptRecord

/-- The document in a payload, which must belong to the key of its row. -/
def decodeContents (codec : Codec) (contents : Bytes) (readTime : ReadTime)
    (expected : DocumentKey) : Except Error Document :=
  match codec.decodeAt contents readTime with
  | .error error => .error error
  | .ok document =>
      if document.key = expected then .ok document
      else .error (.corruptRecord (.foreignPayload expected document.key))

/-- Read the document in a row. -/
def readDocument (codec : Codec) (bytes : Bytes) (expected : DocumentKey) :
    RowReader Document := do
  let row ← noteCorrupt (parseRow bytes)
  let readTime ← noteCorrupt (rowReadTime row)
  noteCorrupt (decodeContents codec row.contents readTime expected)

/-- The key of the document with this name in a collection. -/
def childKey (collection : Path) (id : String) : Except Error DocumentKey :=
  (DocumentKey.ofPath (collection.child id)).mapError fun fault => .corruptRecord (.rowKey fault)

/-- Read the key of the document whose row key was found in a collection. -/
def readKey (collection : Path) (rowKey : Bytes) : RowReader DocumentKey := do
  let id ← noteCorrupt
    ((RowKey.documentId rowKey (RowKey.ofCollection collection)).mapError .corruptRecord)
  unnoted (childKey collection id)

end DocumentCache.Cache
