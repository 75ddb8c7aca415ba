import DocumentCache.Model.Fault

/-!
# Queries

A query names a collection and conditions on its documents.  A document matches if
it lies directly in the collection and meets all conditions, which are tried in
their order.  A condition may also end without an answer.
-/

namespace DocumentCache

/-- A condition on documents; no answer when it ends without one. -/
abbrev Condition : Type := Document → Option Bool

structure Query where
  collection : Path
  odd : collection.length % 2 = 1
  conditions : List Condition

namespace Query

/-- All documents of a collection. -/
def ofCollection (collection : Path) : Except PathFault Query :=
  if h : collection.length % 2 = 1 then .ok ⟨collection, h, []⟩
  else .error (.notCollection collection)

/-- Add one more condition. -/
def satisfying (query : Query) (condition : Condition) : Query :=
  { query with conditions := query.conditions ++ [condition] }

/-- The field at a field path is there and equals a value. -/
def fieldEquals (field : String) (value : Value) : Condition := fun document =>
  some ((document.field? field).any fun held => held.same value)

/-- Try conditions in order, up to the first that fails. -/
def meetsAll (document : Document) : List Condition → Option Bool
  | [] => some true
  | condition :: rest =>
      match condition document with
      | some true => meetsAll document rest
      | answer => answer

/-- Whether a document matches; no answer when a condition has none. -/
def matchesDocument (query : Query) (document : Document) : Option Bool :=
  if query.collection.isParentOf document.key.path then meetsAll document query.conditions
  else some false

end Query

end DocumentCache
