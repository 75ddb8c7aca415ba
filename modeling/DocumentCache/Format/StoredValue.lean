import DocumentCache.Format.Reader

/-!
# Stored field values

A value is stored as the tag of its kind and its content; arrays and maps as
their length and their members.  Reading accepts the entries of a map in any
order and with repeated names.
-/

namespace DocumentCache

namespace Wire

mutual

def value : Value → Bytes
  | .null => tag 0
  | .boolean flag => tag 1 ++ [if flag then 1 else 0]
  | .integer number => tag 2 ++ int64 number
  | .double bits => tag 3 ++ littleEndian 8 bits.toNat
  | .text string => tag 4 ++ text string
  | .blob bytes => tag 5 ++ blob bytes
  | .array items => tag 6 ++ (length items.length ++ valueItems items)
  | .map entries => tag 7 ++ (length entries.length ++ valueEntries entries)

def valueItems : List Value → Bytes
  | [] => []
  | item :: rest => value item ++ valueItems rest

def valueEntries : List (String × Value) → Bytes
  | [] => []
  | (name, item) :: rest => text name ++ (value item ++ valueEntries rest)

end

/-- The data of a document. -/
def fields (data : Fields) : Bytes :=
  length data.entries.length ++ valueEntries data.entries

end Wire

namespace Reader

/-- A value in which arrays and maps are nested less than `depth` deep. -/
def value : Nat → Reader Value
  | 0 => fail .endOfInput
  | depth + 1 => do
      match ← choice 8 with
      | 0 => return .null
      | 1 => return .boolean (← flag)
      | 2 => return .integer (← int64)
      | 3 => return .double (← double)
      | 4 => return .text (← text)
      | 5 => return .blob (← blob)
      | 6 => return .array (← sequence (value depth))
      | _ => return .map (← sequence (pair text (value depth)))

/-- The data of a document.  Each level of nesting takes bytes of its own, so the
length of the input bounds the depth. -/
def fields : Reader Fields := fun input =>
  (Fields.ofEntries <$> sequence (pair text (value (input.length + 1)))) input

end Reader

end DocumentCache
