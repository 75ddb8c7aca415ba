import DocumentCache.Model.Fault

/-!
# Row keys

A path is stored so that stored paths sort as paths do.  Each segment is its
UTF-8 bytes with `0x00` written `01 10` and `0x01` written `01 11`, closed by the
terminator `01 01`.  The terminator lies below every escape and every other byte,
so a segment sorts before the longer ones it begins, and no `0x00` is left over:
that byte separates the collection of a row key from the document's name.
-/

namespace DocumentCache.RowKey

def escape : UInt8 := 0x01

def separatorCode : UInt8 := 0x01

def nulCode : UInt8 := 0x10

def escapeCode : UInt8 := 0x11

/-- The first byte of every row key. -/
def table : UInt8 := 0x02

/-- The byte between a collection and a name within it. -/
def partitionMark : UInt8 := 0x00

/-! ## Writing -/

def escapeByte (byte : UInt8) : Bytes :=
  if byte = 0x00 then [escape, nulCode]
  else if byte = escape then [escape, escapeCode]
  else [byte]

def encodeSegment (segment : String) : Bytes :=
  (Utf8.encode segment).flatMap escapeByte ++ [escape, separatorCode]

def encodePath (path : Path) : Bytes :=
  path.segments.flatMap encodeSegment

/-- The beginning of the keys of all rows of a collection. -/
def ofCollection (collection : Path) : Bytes :=
  table :: encodePath collection ++ [partitionMark]

/-- The beginning of the keys of all rows. -/
def ofTable : Bytes := [table]

/-- The key of a document's row. -/
def ofDocument (key : DocumentKey) : Bytes :=
  ofCollection key.collection ++ encodeSegment key.id

/-! ## Reading -/

/-- The segments of a stored path, `current` being the bytes read of the first. -/
def readSegments (current : Bytes) : Bytes → Except Corruption (List String)
  | [] => if current.isEmpty then .ok [] else .error .unterminatedPath
  | byte :: rest =>
      if byte = escape then
        match rest with
        | [] => .error .cutEscape
        | code :: rest =>
            if code = separatorCode then
              match Utf8.decode? current with
              | none => .error .badSegment
              | some segment => (segment :: ·) <$> readSegments [] rest
            else if code = nulCode then readSegments (current ++ [0x00]) rest
            else if code = escapeCode then readSegments (current ++ [escape]) rest
            else .error (.badEscape code)
      else readSegments (current ++ [byte]) rest

/-- The path that these bytes store. -/
def decodePath (bytes : Bytes) : Except Corruption Path :=
  match readSegments [] bytes with
  | .error fault => .error fault
  | .ok segments => (Path.ofSegments segments).mapError fun _ => .emptySegment

/-- The name of the document in a row key that begins with `front`. -/
def documentId (key front : Bytes) : Except Corruption String :=
  if front.isPrefixOf key then
    match decodePath (key.drop front.length) with
    | .error fault => .error fault
    | .ok ⟨[id]⟩ => .ok id
    | .ok path => .error (.idSegments path.length)
  else .error .foreignRowKey

end DocumentCache.RowKey
