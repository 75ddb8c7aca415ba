import DocumentCache.OrderedMap.Lookup

/-!
# Tables

A table is the live content of an engine: values under byte-string keys, in key
order, and a running count of the bytes of all keys and values.  Keys are compared
byte by byte, so the keys that begin with given bytes, and the keys between two
bounds, are neighbours in the table.
-/

namespace DocumentCache

structure Table where
  entries : OrderedMap Bytes Bytes
  size : Nat

namespace Table

def empty : Table := ⟨.empty, 0⟩

instance : Inhabited Table := ⟨empty⟩

def length (table : Table) : Nat := table.entries.size

def isEmpty (table : Table) : Bool := table.entries.isEmpty

def get? (table : Table) (key : Bytes) : Option Bytes := table.entries.get? key

def toList (table : Table) : List (Bytes × Bytes) := table.entries.entries

/-- The bytes that one entry counts for. -/
def entrySize (key value : Bytes) : Nat := key.length + value.length

/-- The count without the entry under this key, if there is one. -/
def sizeWithout (table : Table) (key : Bytes) : Nat :=
  match table.get? key with
  | some held => table.size - entrySize key held
  | none => table.size

def insert (table : Table) (key value : Bytes) : Table where
  entries := table.entries.insert key value
  size := table.sizeWithout key + entrySize key value

def erase (table : Table) (key : Bytes) : Table where
  entries := table.entries.erase key
  size := table.sizeWithout key

@[simp]
theorem get?_insert_self (table : Table) (key value : Bytes) :
    (table.insert key value).get? key = some value :=
  table.entries.get?_insert_self key value

theorem get?_insert_of_ne (table : Table) {key other : Bytes} (value : Bytes)
    (hne : other ≠ key) : (table.insert key value).get? other = table.get? other :=
  table.entries.get?_insert_of_ne value hne

@[simp]
theorem get?_erase_self (table : Table) (key : Bytes) : (table.erase key).get? key = none :=
  table.entries.get?_erase_self key

theorem get?_erase_of_ne (table : Table) {key other : Bytes} (hne : other ≠ key) :
    (table.erase key).get? other = table.get? other :=
  table.entries.get?_erase_of_ne hne

/-! ## Scans -/

/-- The entries whose keys begin with `front`: the run that starts at the first key
not below it. -/
def startingWith (table : Table) (front : Bytes) : List (Bytes × Bytes) :=
  (table.toList.dropWhile fun entry => (compare entry.1 front).isLT).takeWhile
    fun entry => front.isPrefixOf entry.1

/-- The entries whose keys lie between two bounds, both included: the run that
starts at the first key not below the lower bound. -/
def between (table : Table) (first last : Bytes) : List (Bytes × Bytes) :=
  (table.toList.dropWhile fun entry => (compare entry.1 first).isLT).takeWhile
    fun entry => (compare entry.1 last).isLE

end Table

end DocumentCache
