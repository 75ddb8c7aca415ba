import DocumentCache.Model.Fault

/-!
# Stored values

Numbers are stored in a fixed width, least significant byte first; texts, byte
strings and sequences begin with their length in eight bytes, choices with their
tag in four.  A reader takes a value off the front of a byte string and leaves
the bytes behind it.
-/

namespace DocumentCache

/-! ## Writing -/

namespace Wire

/-- A length as it is stored before what it counts. -/
def length (count : Nat) : Bytes := littleEndian 8 count

/-- The tag of a choice. -/
def tag (choice : Nat) : Bytes := littleEndian 4 choice

def text (string : String) : Bytes :=
  length (Utf8.encode string).length ++ Utf8.encode string

def blob (bytes : Bytes) : Bytes :=
  length bytes.length ++ bytes

def int64 (number : Int64) : Bytes := littleEndian 8 number.toUInt64.toNat

def int32 (number : Int32) : Bytes := littleEndian 4 number.toUInt32.toNat

def path (path : Path) : Bytes :=
  length path.length ++ path.segments.flatMap text

def readTime (time : ReadTime) : Bytes :=
  littleEndian 8 time.seconds ++ littleEndian 4 time.nanos

end Wire

/-! ## Reading -/

/-- Takes a value off the front of a byte string. -/
abbrev Reader (α : Type) : Type := StateT Bytes (Except WireFault) α

namespace Reader

def fail {α : Type} (fault : WireFault) : Reader α := fun _ => .error fault

/-- The next `count` bytes. -/
def bytes (count : Nat) : Reader Bytes := fun input =>
  match splitExactly count input with
  | some (front, rest) => .ok (front, rest)
  | none => .error .endOfInput

/-- An unsigned number of `width` bytes. -/
def word (width : Nat) : Reader Nat := do
  return littleEndianValue (← bytes width)

def int64 : Reader Int64 := do
  return (UInt64.ofNat (← word 8)).toInt64

def int32 : Reader Int32 := do
  return (UInt32.ofNat (← word 4)).toInt32

def double : Reader UInt64 := do
  return UInt64.ofNat (← word 8)

def flag : Reader Bool := do
  match ← bytes 1 with
  | [byte] =>
      if byte = 0 then return false
      else if byte = 1 then return true
      else fail (.badFlag byte)
  | _ => fail .endOfInput

def blob : Reader Bytes := do
  bytes (← word 8)

/-- The bytes of a text whose length is known. -/
def textOfLength (count : Nat) : Reader String := fun input =>
  match splitExactly count input with
  | none => .error .endOfText
  | some (front, rest) =>
      match Utf8.decode? front with
      | some string => .ok (string, rest)
      | none => .error (.badText (Utf8.fault front))

def text : Reader String := do
  textOfLength (← word 8)

/-- The same reader `count` times. -/
def replicate {α : Type} (item : Reader α) : Nat → Reader (List α)
  | 0 => return []
  | count + 1 => do
      let head ← item
      let rest ← replicate item count
      return head :: rest

/-- A sequence, its length in front. -/
def sequence {α : Type} (item : Reader α) : Reader (List α) := do
  replicate item (← word 8)

/-- Two values, one behind the other. -/
def pair {α β : Type} (first : Reader α) (second : Reader β) : Reader (α × β) := do
  let left ← first
  let right ← second
  return (left, right)

/-- The tag of one of `count` choices. -/
def choice (count : Nat) : Reader Nat := do
  let tag ← word 4
  if tag < count then return tag else fail (.unknownTag tag count)

end Reader

end DocumentCache
