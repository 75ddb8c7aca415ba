import DocumentCache.Model.Fault

/-!
# The index of collection parents

Collections at different places may share their last segment.  The index holds,
for every such collection name, the paths under which a collection of that name
has documents.  The cache notifies it of the collection of every document added.
-/

namespace DocumentCache

/-- What is told of collections that received a document; it may refuse. -/
class CollectionIndex (ι : Type) where
  notify : ι → Path → Except Error Unit × ι

structure ParentIndex where
  parents : OrderedMap String (OrderedSet Path)

namespace ParentIndex

def empty : ParentIndex := ⟨.empty⟩

instance : Inhabited ParentIndex := ⟨empty⟩

/-- The parents recorded for a collection name. -/
def parentSet (index : ParentIndex) (name : String) : OrderedSet Path :=
  (index.parents.get? name).getD .empty

/-- The parents of all collections of this name, in order. -/
def parentsOf (index : ParentIndex) (name : String) : List Path :=
  (index.parentSet name).keys

/-- Record a collection under its name. -/
def add (index : ParentIndex) (collection : Path) : Except Error ParentIndex :=
  match collection.last? with
  | none => .error (.invalidArgument .rootCollection)
  | some name =>
      .ok ⟨index.parents.insert name ((index.parentSet name).insert collection.parent ())⟩

instance : CollectionIndex ParentIndex where
  notify index collection :=
    match index.add collection with
    | .ok index => (.ok (), index)
    | .error error => (.error error, index)

end ParentIndex

end DocumentCache
