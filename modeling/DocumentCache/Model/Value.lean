import DocumentCache.OrderedMap
import DocumentCache.Text.Split

/-!
# Field values

A document's data are named values.  A value is null, a truth value, a 64-bit
integer, a 64-bit floating-point number, a text, a byte string, an array of
values or a map of named values.  Floating-point numbers are kept as their bits,
so that every bit pattern survives storage; comparing them as numbers is a
separate relation under which a NaN differs from itself and the two zeros agree.

Names are distinct and ascending at every level of a document's data.
-/

namespace DocumentCache

inductive Value where
  | null
  | boolean (flag : Bool)
  | integer (number : Int64)
  | double (bits : UInt64)
  | text (string : String)
  | blob (bytes : Bytes)
  | array (items : List Value)
  | map (entries : List (String × Value))
  deriving Inhabited

namespace Value

/-! ## Ordered names -/

mutual

/-- Every map in the value has distinct names in ascending order. -/
def Ordered : Value → Prop
  | .array items => OrderedItems items
  | .map entries => Ascending entries ∧ OrderedEntries entries
  | _ => True

def OrderedItems : List Value → Prop
  | [] => True
  | item :: rest => item.Ordered ∧ OrderedItems rest

def OrderedEntries : List (String × Value) → Prop
  | [] => True
  | (_, value) :: rest => value.Ordered ∧ OrderedEntries rest

end

/-- Put an entry in its place unless its name is there already. -/
def insertNew (name : String) (value : Value) (entries : List (String × Value)) :
    List (String × Value) :=
  match OrderedMap.lookup? name entries with
  | some _ => entries
  | none => OrderedMap.insertEntry name value entries

mutual

/-- The value with the entries of every map in order; of entries with the same
name the last stays. -/
def order : Value → Value
  | .array items => .array (orderItems items)
  | .map entries => .map (orderEntries entries)
  | value => value

def orderItems : List Value → List Value
  | [] => []
  | item :: rest => item.order :: orderItems rest

def orderEntries : List (String × Value) → List (String × Value)
  | [] => []
  | (name, value) :: rest => insertNew name value.order (orderEntries rest)

end

theorem orderedEntries_insertEntry {name : String} {value : Value}
    {entries : List (String × Value)} (hvalue : value.Ordered)
    (hentries : OrderedEntries entries) :
    OrderedEntries (OrderedMap.insertEntry name value entries) := by
  induction entries with
  | nil => exact ⟨hvalue, trivial⟩
  | cons head rest ih =>
      obtain ⟨other, held⟩ := head
      unfold OrderedMap.insertEntry
      split
      · exact ⟨hvalue, hentries⟩
      · exact ⟨hvalue, hentries.2⟩
      · exact ⟨hentries.1, ih hentries.2⟩

theorem ascending_insertNew (name : String) (value : Value)
    {entries : List (String × Value)} (h : Ascending entries) :
    Ascending (insertNew name value entries) := by
  unfold insertNew
  split
  · exact h
  · exact OrderedMap.ascending_insertEntry name value h

theorem orderedEntries_insertNew {name : String} {value : Value}
    {entries : List (String × Value)} (hvalue : value.Ordered)
    (hentries : OrderedEntries entries) :
    OrderedEntries (insertNew name value entries) := by
  unfold insertNew
  split
  · exact hentries
  · exact orderedEntries_insertEntry hvalue hentries

mutual

theorem ordered_order : (value : Value) → value.order.Ordered
  | .null => trivial
  | .boolean _ => trivial
  | .integer _ => trivial
  | .double _ => trivial
  | .text _ => trivial
  | .blob _ => trivial
  | .array items => orderedItems_orderItems items
  | .map entries => orderedEntries_orderEntries entries

theorem orderedItems_orderItems : (items : List Value) → OrderedItems (orderItems items)
  | [] => trivial
  | item :: rest => ⟨ordered_order item, orderedItems_orderItems rest⟩

theorem orderedEntries_orderEntries : (entries : List (String × Value)) →
    Ascending (orderEntries entries) ∧ OrderedEntries (orderEntries entries)
  | [] => ⟨List.Pairwise.nil, trivial⟩
  | (name, value) :: rest =>
      have hrest := orderedEntries_orderEntries rest
      ⟨ascending_insertNew name value.order hrest.1,
        orderedEntries_insertNew (ordered_order value) hrest.2⟩

end

/-! ## Numerical equality -/

/-- Bits with all exponent bits set and a fraction that is not zero. -/
def isNaN (bits : UInt64) : Bool :=
  bits &&& 0x7FFFFFFFFFFFFFFF > 0x7FF0000000000000

/-- The bits of plus or minus zero. -/
def isZero (bits : UInt64) : Bool :=
  bits &&& 0x7FFFFFFFFFFFFFFF == 0

/-- Equality of floating-point numbers. -/
def sameDouble (left right : UInt64) : Bool :=
  !isNaN left && !isNaN right && (left == right || isZero left && isZero right)

mutual

/-- Equality of values, floating-point numbers compared as numbers. -/
def same : Value → Value → Bool
  | .null, .null => true
  | .boolean left, .boolean right => left == right
  | .integer left, .integer right => left == right
  | .double left, .double right => sameDouble left right
  | .text left, .text right => left == right
  | .blob left, .blob right => left == right
  | .array left, .array right => sameItems left right
  | .map left, .map right => sameEntries left right
  | _, _ => false

def sameItems : List Value → List Value → Bool
  | [], [] => true
  | left :: lefts, right :: rights => left.same right && sameItems lefts rights
  | _, _ => false

def sameEntries : List (String × Value) → List (String × Value) → Bool
  | [], [] => true
  | (leftName, left) :: lefts, (rightName, right) :: rights =>
      leftName == rightName && left.same right && sameEntries lefts rights
  | _, _ => false

end

end Value

/-- The data of a document: named values, ordered at every level. -/
structure Fields where
  entries : List (String × Value)
  ordered : (Value.map entries).Ordered

namespace Fields

def empty : Fields := ⟨[], List.Pairwise.nil, trivial⟩

instance : Inhabited Fields := ⟨empty⟩

/-- The data with these entries; of entries with the same name the last stays. -/
def ofEntries (entries : List (String × Value)) : Fields :=
  ⟨Value.orderEntries entries, Value.orderedEntries_orderEntries entries⟩

@[ext]
theorem ext_entries {left right : Fields} (h : left.entries = right.entries) :
    left = right := by
  cases left
  cases right
  simpa using h

/-- The value with this name. -/
def get? (fields : Fields) (name : String) : Option Value :=
  OrderedMap.lookup? name fields.entries

/-- Equality of data, floating-point numbers compared as numbers. -/
def same (left right : Fields) : Bool :=
  Value.sameEntries left.entries right.entries

end Fields

/-- Follow the remaining names of a field path down through maps. -/
def Value.descend : Value → List String → Option Value
  | value, [] => some value
  | .map entries, name :: rest =>
      match OrderedMap.lookup? name entries with
      | some value => value.descend rest
      | none => none
  | _, _ :: _ => none

/-- The value at a field path, a list of names joined by dots. -/
def Fields.at? (fields : Fields) (path : String) : Option Value :=
  (Value.map fields.entries).descend ((Text.split '.' path.toList).map String.ofList)

end DocumentCache
