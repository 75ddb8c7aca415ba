import DocumentCache.Journal.Engine
import DocumentCache.Proofs.Journal.TableContents
import Mathlib.Data.List.TakeWhile

/-!
# Scans of a table

Inserts, removals and clearings leave under each key what was inserted there last, unless
it was taken out again, and the entries of the table are what is left.  A scan looks at no
more than a run of neighbours: it starts at the first key that is not below its bound, and
stops at the first key that it does not want.  Wanted keys are neighbours, so the run is
all that a filter of all entries finds.
-/

namespace DocumentCache

namespace Table

/-! ## Tables that were changed -/

/-- A change that the owner of a table can make. -/
inductive Change where
  | insert (key value : Bytes)
  | remove (key : Bytes)
  | clear

namespace Change

def apply (change : Change) (table : Table) : Table :=
  match change with
  | .insert key value => table.insert key value
  | .remove key => table.erase key
  | .clear => empty

/-- What a change leaves under a key where this stood before. -/
def leaves (change : Change) (key : Bytes) (held : Option Bytes) : Option Bytes :=
  match change with
  | .insert other value => if key = other then some value else held
  | .remove other => if key = other then none else held
  | .clear => none

theorem get?_apply (change : Change) (table : Table) (key : Bytes) :
    (change.apply table).get? key = change.leaves key (table.get? key) := by
  cases change with
  | insert other value => exact get?_insert table other value key
  | remove other => exact get?_erase table other key
  | clear => rfl

end Change

/-- The table that changes make of the empty one. -/
def made (changes : List Change) : Table :=
  changes.foldl (fun table change => change.apply table) empty

/-- What changes leave under a key. -/
def leftUnder (changes : List Change) (key : Bytes) : Option Bytes :=
  changes.foldl (fun held change => change.leaves key held) none

theorem get?_made (changes : List Change) (key : Bytes) :
    (made changes).get? key = leftUnder changes key := by
  have hfold : ∀ table : Table,
      (changes.foldl (fun table change => change.apply table) table).get? key =
        changes.foldl (fun held change => change.leaves key held) (table.get? key) := by
    induction changes with
    | nil => exact fun _ => rfl
    | cons change rest ih =>
        intro table
        rw [List.foldl_cons, List.foldl_cons, ih, change.get?_apply]
  exact hfold empty

/-! ## Scans and filters -/

/-- No key lies between bounds that are the wrong way round. -/
theorem between_of_gt (table : Table) {first last : Bytes} (h : compare first last = .gt) :
    table.between first last = [] := by
  rw [between_eq_filter, List.filter_eq_nil_iff]
  intro entry _ hwithin
  obtain ⟨hfirst, hlast⟩ := Bool.and_eq_true_iff.mp hwithin
  have hle : (compare first last).isLE = true := Std.TransCmp.isLE_trans hfirst hlast
  rw [h] at hle
  cases hle

/-- A scan may read on to any later bound if it then stops behind the right one. -/
theorem between_eq_takeWhile (table : Table) (first : Bytes) {last upper : Bytes}
    (h : (compare last upper).isLE = true) :
    table.between first last =
      (table.between first upper).takeWhile fun entry => (compare entry.1 last).isLE := by
  have hupper : ∀ entry : Bytes × Bytes, (compare entry.1 last).isLE = true →
      (compare entry.1 upper).isLE = true := fun _ hlast => Std.TransCmp.isLE_trans hlast h
  rw [between, between, List.takeWhile_takeWhile]
  congr 1
  funext entry
  simp only [and_iff_left_of_imp (hupper entry), Bool.decide_eq_true]

/-- Scans that list, in ascending order of the keys, what a filter of all entries lists. -/
structure ScansAll (entries : List (Bytes × Bytes)) (startingWith : Bytes → List (Bytes × Bytes))
    (between : Bytes → Bytes → List (Bytes × Bytes)) : Prop where
  startingWith_eq : ∀ front,
    startingWith front = entries.filter fun entry => front.isPrefixOf entry.1
  startingWith_ascending : ∀ front, Ascending (startingWith front)
  between_eq : ∀ first last, between first last =
    entries.filter fun entry => (compare first entry.1).isLE && (compare entry.1 last).isLE
  between_ascending : ∀ first last, Ascending (between first last)
  between_inverted : ∀ first last, compare first last = .gt → between first last = []
  /-- Reading on to a later bound does not matter. -/
  between_cut : ∀ first last upper, (compare last upper).isLE = true →
    between first last =
      (between first upper).takeWhile fun entry => (compare entry.1 last).isLE

theorem scansAll (table : Table) :
    ScansAll table.toList table.startingWith table.between where
  startingWith_eq := table.startingWith_eq_filter
  startingWith_ascending front := by
    rw [startingWith_eq_filter]
    exact table.ascending_toList.filter _
  between_eq := table.between_eq_filter
  between_ascending first last := by
    rw [between_eq_filter]
    exact table.ascending_toList.filter _
  between_inverted _ _ := table.between_of_gt
  between_cut first _ _ := table.between_eq_takeWhile first

/-- Whatever changes made a table, its entries are what the changes left under each key, each
key once and in ascending order, and the scans of the table and of an engine that holds it
list all entries that a filter by the prefix or by the bounds lists. -/
theorem scans_list_all (changes : List Change) :
    (∀ key value, (key, value) ∈ (made changes).toList ↔ leftUnder changes key = some value) ∧
      Ascending (made changes).toList ∧
      ScansAll (made changes).toList (made changes).startingWith (made changes).between ∧
      ∀ settings log,
        let engine : Engine := ⟨settings, made changes, log⟩
        ScansAll (made changes).toList engine.startingWith engine.between := by
  refine ⟨?_, (made changes).ascending_toList, (made changes).scansAll, ?_⟩
  · intro key value
    rw [← get?_made]
    exact OrderedMap.get?_eq_some_iff.symm
  · intro _ _
    exact (made changes).scansAll

/-- Keys that end in `0xFF` are neighbours of their prefix, and a bound the wrong way round
finds nothing although its candidate is there. -/
example :
    let table := made [.insert [1, 0xFF] [7], .clear, .insert [2] [3], .insert [1, 0xFF, 0] [4],
      .insert [1, 0xFF] [5], .insert [1] [6], .remove [1]]
    table.startingWith [1, 0xFF] = [([1, 0xFF], [5]), ([1, 0xFF, 0], [4])] ∧
      table.between [2] [1] = [] := by
  decide +kernel

end Table

end DocumentCache
