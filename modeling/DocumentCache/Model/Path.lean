import DocumentCache.OrderedMap
import DocumentCache.Text.Split
import DocumentCache.Text.Utf8

/-!
# Paths and document keys

A path names a place in the cache by a list of segments, for instance
`rooms/1/messages`.  Paths alternate between collections and documents: a
document key is a path with an even, positive number of segments, and the
collection that holds the document is that path without its last segment.
Paths are ordered segment by segment, each segment by its UTF-8 bytes.
-/

namespace DocumentCache

structure Path where
  segments : List String
  deriving DecidableEq, Repr, Inhabited

/-- What can be wrong with a path. -/
inductive PathFault where
  | emptySegment
  | notDocument (path : Path)
  | notCollection (path : Path)
  deriving DecidableEq, Repr

namespace Path

/-- The path above all collections. -/
def root : Path := ⟨[]⟩

/-- The path of these segments, none of which may be empty. -/
def ofSegments (segments : List String) : Except PathFault Path :=
  if segments.any (· = "") then .error .emptySegment else .ok ⟨segments⟩

def length (path : Path) : Nat := path.segments.length

def isEmpty (path : Path) : Bool := path.segments.isEmpty

def last? (path : Path) : Option String := path.segments.getLast?

/-- The path without its last segment. -/
def parent (path : Path) : Path := ⟨path.segments.dropLast⟩

/-- The path with one more segment at its end. -/
def child (path : Path) (segment : String) : Path := ⟨path.segments ++ [segment]⟩

@[simp]
theorem parent_child (path : Path) (segment : String) : (path.child segment).parent = path :=
  congrArg mk List.dropLast_concat

theorem child_inj {left right : Path} {leftName rightName : String}
    (h : left.child leftName = right.child rightName) : left = right ∧ leftName = rightName := by
  have hparent : left = right := by rw [← left.parent_child leftName, h, parent_child]
  subst hparent
  have hname := List.append_cancel_left (congrArg segments h)
  exact ⟨rfl, List.singleton_inj.mp hname⟩

/-- Whether `other` lies exactly one segment below this path. -/
def isParentOf (path other : Path) : Bool :=
  other.length == path.length + 1 && path.segments.isPrefixOf other.segments

/-! ## Written form -/

def display (path : Path) : String :=
  "/".intercalate path.segments

/-- The path that a text names; slashes at the two ends do not count. -/
def parse (text : String) : Except PathFault Path :=
  let trimmed := Text.trim '/' text.toList
  if trimmed.isEmpty then .ok root
  else ofSegments ((Text.split '/' trimmed).map String.ofList)

/-! ## Order -/

/-- What a path is compared by. -/
def rank (path : Path) : List Bytes := path.segments.map Utf8.encode

theorem rank_injective {left right : Path} (h : left.rank = right.rank) : left = right := by
  obtain ⟨leftSegments⟩ := left
  obtain ⟨rightSegments⟩ := right
  have hsegments : leftSegments = rightSegments :=
    (List.map_inj_right fun _ _ heq => Utf8.encode_injective heq).mp h
  rw [hsegments]

instance : Ord Path := ⟨fun left right => compare left.rank right.rank⟩

theorem compare_eq (left right : Path) :
    compare left right = compare left.rank right.rank := rfl

instance : Std.TransOrd Path :=
  inferInstanceAs (Std.TransCmp (compareOn Path.rank))

instance : Std.LawfulEqOrd Path :=
  lawfulEqCmp_compareOn rank fun _ _ => rank_injective

end Path

/-- A path with an even, positive number of segments. -/
structure DocumentKey where
  path : Path
  nonempty : path.segments ≠ []
  even : path.length % 2 = 0
  deriving DecidableEq

namespace DocumentKey

def ofPath (path : Path) : Except PathFault DocumentKey :=
  if h : path.segments ≠ [] ∧ path.length % 2 = 0 then .ok ⟨path, h.1, h.2⟩
  else .error (.notDocument path)

def parse (text : String) : Except PathFault DocumentKey := do
  ofPath (← Path.parse text)

/-- The collection that holds the document. -/
def collection (key : DocumentKey) : Path := key.path.parent

/-- The name of the document within its collection. -/
def id (key : DocumentKey) : String := key.path.segments.getLast key.nonempty

def display (key : DocumentKey) : String := key.path.display

theorem path_injective {left right : DocumentKey} (h : left.path = right.path) :
    left = right := by
  cases left
  cases right
  simpa using h

/-- A key is its collection with its name below it. -/
theorem child_collection_id (key : DocumentKey) : key.collection.child key.id = key.path := by
  obtain ⟨⟨segments⟩, nonempty, even⟩ := key
  simp [collection, id, Path.parent, Path.child, List.dropLast_concat_getLast]

instance : Ord DocumentKey := ⟨fun left right => compare left.path right.path⟩

instance : Std.TransOrd DocumentKey :=
  inferInstanceAs (Std.TransCmp (compareOn DocumentKey.path))

instance : Std.LawfulEqOrd DocumentKey :=
  lawfulEqCmp_compareOn DocumentKey.path fun _ _ => path_injective

end DocumentKey

/-- What is wrong with a path, in words. -/
def PathFault.message : PathFault → String
  | .emptySegment => "path segments must be non-empty"
  | .notDocument path =>
      s!"'{path.display}' is not a document path (needs an even number of segments)"
  | .notCollection path => s!"'{path.display}' is not a collection path"

end DocumentCache
