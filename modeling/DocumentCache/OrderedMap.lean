import DocumentCache.Bytes

/-!
# Ordered maps

A finite map is the list of its entries in strictly ascending order of their
keys.  Every operation keeps that order, so two maps with the same entries are
equal and a listing needs no sorting.
-/

namespace DocumentCache

/-- Comparing by an injective key tells different things apart. -/
theorem lawfulEqCmp_compareOn {α β : Type} [Ord β] [Std.LawfulEqOrd β] (key : α → β)
    (hkey : ∀ left right, key left = key right → left = right) :
    Std.LawfulEqCmp (compareOn key) where
  compare_self {item} := Std.ReflOrd.compare_self (a := key item)
  eq_of_compare {left right} h := hkey left right (Std.LawfulEqOrd.eq_of_compare h)

/-- Entries in strictly ascending order of their keys. -/
def Ascending {κ ν : Type} [Ord κ] (entries : List (κ × ν)) : Prop :=
  entries.Pairwise fun left right => compare left.1 right.1 = .lt

structure OrderedMap (κ ν : Type) [Ord κ] where
  entries : List (κ × ν)
  ascending : Ascending entries

namespace OrderedMap

variable {κ ν : Type}

/-- Put an entry in its place, in place of an entry with the same key. -/
def insertEntry [Ord κ] (key : κ) (value : ν) : List (κ × ν) → List (κ × ν)
  | [] => [(key, value)]
  | (other, held) :: rest =>
      match compare key other with
      | .lt => (key, value) :: (other, held) :: rest
      | .eq => (key, value) :: rest
      | .gt => (other, held) :: insertEntry key value rest

/-- Take out the entry with this key. -/
def eraseEntry [Ord κ] (key : κ) : List (κ × ν) → List (κ × ν)
  | [] => []
  | (other, held) :: rest =>
      match compare key other with
      | .lt => (other, held) :: rest
      | .eq => rest
      | .gt => (other, held) :: eraseEntry key rest

/-- The value held under this key. -/
def lookup? [Ord κ] (key : κ) : List (κ × ν) → Option ν
  | [] => none
  | (other, held) :: rest =>
      match compare key other with
      | .lt => none
      | .eq => some held
      | .gt => lookup? key rest

theorem mem_insertEntry [Ord κ] {key : κ} {value : ν} {entries : List (κ × ν)} {entry : κ × ν}
    (h : entry ∈ insertEntry key value entries) :
    entry = (key, value) ∨ entry ∈ entries := by
  induction entries with
  | nil => simpa [insertEntry] using h
  | cons head rest ih =>
      obtain ⟨other, held⟩ := head
      unfold insertEntry at h
      split at h
      · simpa using h
      · rcases List.mem_cons.mp h with rfl | hrest
        · exact .inl rfl
        · exact .inr (List.mem_cons_of_mem _ hrest)
      · rcases List.mem_cons.mp h with rfl | hrest
        · exact .inr (List.mem_cons_self ..)
        · exact (ih hrest).imp_right (List.mem_cons_of_mem _)

theorem eraseEntry_sublist [Ord κ] (key : κ) (entries : List (κ × ν)) :
    (eraseEntry key entries).Sublist entries := by
  induction entries with
  | nil => exact .slnil
  | cons head rest ih =>
      obtain ⟨other, held⟩ := head
      unfold eraseEntry
      split
      · exact List.Sublist.refl _
      · exact List.sublist_cons_self _ _
      · exact ih.cons_cons _

section Order

variable [Ord κ] [Std.TransOrd κ] [Std.LawfulEqOrd κ]

theorem ascending_insertEntry (key : κ) (value : ν) {entries : List (κ × ν)}
    (h : Ascending entries) : Ascending (insertEntry key value entries) := by
  induction entries with
  | nil => simp [insertEntry, Ascending]
  | cons head rest ih =>
      obtain ⟨other, held⟩ := head
      obtain ⟨hhead, hrest⟩ := List.pairwise_cons.mp h
      unfold insertEntry
      split
      · next hlt =>
          refine List.pairwise_cons.mpr ⟨?_, h⟩
          intro entry hmem
          rcases List.mem_cons.mp hmem with rfl | hmem
          · exact hlt
          · exact Std.TransCmp.lt_trans hlt (hhead entry hmem)
      · next heq =>
          obtain rfl := Std.LawfulEqCmp.eq_of_compare heq
          exact List.pairwise_cons.mpr ⟨hhead, hrest⟩
      · next hgt =>
          refine List.pairwise_cons.mpr ⟨?_, ih hrest⟩
          intro entry hmem
          rcases mem_insertEntry hmem with rfl | hmem
          · exact Std.OrientedCmp.lt_of_gt hgt
          · exact hhead entry hmem

end Order

section Operations

variable [Ord κ]

def empty : OrderedMap κ ν := ⟨[], List.Pairwise.nil⟩

instance : Inhabited (OrderedMap κ ν) := ⟨empty⟩

instance : EmptyCollection (OrderedMap κ ν) := ⟨empty⟩

def get? (map : OrderedMap κ ν) (key : κ) : Option ν :=
  lookup? key map.entries

def contains (map : OrderedMap κ ν) (key : κ) : Bool :=
  (map.get? key).isSome

def erase (map : OrderedMap κ ν) (key : κ) : OrderedMap κ ν :=
  ⟨eraseEntry key map.entries, map.ascending.sublist (eraseEntry_sublist key map.entries)⟩

def size (map : OrderedMap κ ν) : Nat := map.entries.length

def isEmpty (map : OrderedMap κ ν) : Bool := map.entries.isEmpty

def keys (map : OrderedMap κ ν) : List κ := map.entries.map Prod.fst

variable [Std.TransOrd κ] [Std.LawfulEqOrd κ]

def insert (map : OrderedMap κ ν) (key : κ) (value : ν) : OrderedMap κ ν :=
  ⟨insertEntry key value map.entries, ascending_insertEntry key value map.ascending⟩

/-- The map of a list of entries; of entries with the same key the last stays. -/
def ofList (entries : List (κ × ν)) : OrderedMap κ ν :=
  entries.foldl (fun map entry => map.insert entry.1 entry.2) empty

end Operations

@[ext]
theorem ext_entries [Ord κ] {left right : OrderedMap κ ν}
    (h : left.entries = right.entries) : left = right := by
  cases left
  cases right
  simpa using h

end OrderedMap

/-- A finite set is a map that holds nothing but its keys. -/
abbrev OrderedSet (κ : Type) [Ord κ] := OrderedMap κ Unit

end DocumentCache
