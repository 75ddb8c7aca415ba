import DocumentCache.Cache.Basic
import DocumentCache.Cache.Query
import DocumentCache.Decimal.Shortest
import DocumentCache.Text.Quoted

/-!
# How documents are shown

A value is shown as the name of its kind with its content in parentheses; texts are
quoted.  A document takes one line for itself and, if it was found, one line for
each field.
-/

namespace DocumentCache

namespace Shell

/-- Numbers have at least one digit behind the point and an exponent from ten to
the sixteenth on and below a ten-thousandth. -/
def numberSpelling : Decimal.Spelling where
  highest := 16
  lowest := -4
  nan := "NaN"
  infinity := "inf"

/-- Items between commas. -/
def commaSeparated (items : List String) : String := ", ".intercalate items

mutual

def showValue : Value → String
  | .null => "Null"
  | .boolean flag => s!"Boolean({flag})"
  | .integer number => s!"Integer({number.toInt})"
  | .double bits => s!"Double({numberSpelling.text bits})"
  | .text string => s!"String({Text.quoted string})"
  | .blob bytes => s!"Bytes([{commaSeparated (bytes.map fun byte => toString byte.toNat)}])"
  | .array items => s!"Array([{commaSeparated (showItems items)}])"
  | .map entries => "Map(\x7b" ++ commaSeparated (showEntries entries) ++ "\x7d)"

def showItems : List Value → List String
  | [] => []
  | item :: rest => showValue item :: showItems rest

def showEntries : List (String × Value) → List String
  | [] => []
  | (name, value) :: rest => (Text.quoted name ++ ": " ++ showValue value) :: showEntries rest

end

def showField (entry : String × Value) : String :=
  s!"    {entry.1} = {showValue entry.2}\n"

def showDocument : Document → String
  | .found key _ data readTime =>
      s!"  {key.display} (read {readTime.display})\n" ++ String.join (data.entries.map showField)
  | .deleted key _ readTime => s!"  {key.display} <deleted> (read {readTime.display})\n"
  | .unknown key => s!"  {key.display} (nil)\n"

def showDocuments (documents : DocumentMap) : String :=
  if documents.isEmpty then "  (empty)\n"
  else
    String.join (documents.entries.map fun entry => showDocument entry.2)
      ++ s!"  ({documents.size} documents)\n"

end Shell

/-- A query for people who look for faults in it. -/
def Query.display (query : Query) : String :=
  let segments := Shell.commaSeparated (query.collection.segments.map Text.quoted)
  "Query \x7b path: ResourcePath \x7b segments: [" ++ segments ++ "] \x7d, has_predicate: "
    ++ toString (!query.conditions.isEmpty) ++ " \x7d"

end DocumentCache
