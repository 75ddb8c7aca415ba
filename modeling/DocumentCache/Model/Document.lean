import DocumentCache.Model.Path
import DocumentCache.Model.ReadTime
import DocumentCache.Model.Value

/-!
# Documents

What the cache knows about one key: the document was found with some data, it was
deleted, or nothing is known.  Found and deleted documents carry the version the
server gave them and the time at which they were read; an unknown one carries
neither.
-/

namespace DocumentCache

inductive Document where
  | found (key : DocumentKey) (version : ReadTime) (data : Fields) (readTime : ReadTime)
  | deleted (key : DocumentKey) (version : ReadTime) (readTime : ReadTime)
  | unknown (key : DocumentKey)

namespace Document

def key : Document → DocumentKey
  | .found key _ _ _ => key
  | .deleted key _ _ => key
  | .unknown key => key

def readTime : Document → ReadTime
  | .found _ _ _ readTime => readTime
  | .deleted _ _ readTime => readTime
  | .unknown _ => .never

def version : Document → ReadTime
  | .found _ version _ _ => version
  | .deleted _ version _ => version
  | .unknown _ => .never

def data? : Document → Option Fields
  | .found _ _ data _ => some data
  | _ => none

/-- The value at a field path of a found document. -/
def field? (document : Document) (path : String) : Option Value :=
  document.data?.bind fun data => data.at? path

/-- The same document read at another time; an unknown one stays as it is. -/
def withReadTime : Document → ReadTime → Document
  | .found key version data _, readTime => .found key version data readTime
  | .deleted key version _, readTime => .deleted key version readTime
  | .unknown key, _ => .unknown key

def isFound : Document → Bool
  | .found .. => true
  | _ => false

def isDeleted : Document → Bool
  | .deleted .. => true
  | _ => false

/-- Whether the cache knows anything about the document. -/
def isKnown : Document → Bool
  | .unknown _ => false
  | _ => true

/-- Equality of documents, floating-point numbers compared as numbers. -/
def same : Document → Document → Bool
  | .found key version data readTime, .found key' version' data' readTime' =>
      key = key' && version = version' && data.same data' && readTime = readTime'
  | .deleted key version readTime, .deleted key' version' readTime' =>
      key = key' && version = version' && readTime = readTime'
  | .unknown key, .unknown key' => key = key'
  | _, _ => false

@[simp]
theorem key_withReadTime (document : Document) (readTime : ReadTime) :
    (document.withReadTime readTime).key = document.key := by
  cases document <;> rfl

@[simp]
theorem withReadTime_withReadTime (document : Document) (first second : ReadTime) :
    (document.withReadTime first).withReadTime second = document.withReadTime second := by
  cases document <;> rfl

@[simp]
theorem isFound_withReadTime (document : Document) (readTime : ReadTime) :
    (document.withReadTime readTime).isFound = document.isFound := by
  cases document <;> rfl

@[simp]
theorem isKnown_withReadTime (document : Document) (readTime : ReadTime) :
    (document.withReadTime readTime).isKnown = document.isKnown := by
  cases document <;> rfl

theorem readTime_withReadTime {document : Document} (readTime : ReadTime)
    (hknown : document.isKnown = true) :
    (document.withReadTime readTime).readTime = readTime := by
  cases document with
  | found _ _ _ _ => rfl
  | deleted _ _ _ => rfl
  | unknown _ => cases hknown

end Document

end DocumentCache
