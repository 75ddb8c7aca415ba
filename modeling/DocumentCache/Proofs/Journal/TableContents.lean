import DocumentCache.Journal.Table

/-!
# What a table holds

The running count of a table is the total length of its keys and values, so a
table is determined by its entries.  Inserting entries in ascending order, each
above all that are there, lists them one behind the other.  The two scans, which
walk a run of neighbours, list exactly the entries with the wanted keys.
-/

namespace DocumentCache

/-! ## Byte order -/

/-- A byte string between a front and something that begins with it begins with it. -/
theorem isPrefixOf_of_between {front middle last : Bytes}
    (hfront : compare middle front ≠ .lt) (hlast : compare middle last = .lt)
    (hbegins : front.isPrefixOf last = true) : front.isPrefixOf middle = true := by
  induction front generalizing middle last with
  | nil => rfl
  | cons byte front ih =>
      cases last with
      | nil => cases hbegins
      | cons lastByte last =>
          rw [List.isPrefixOf_cons_cons, Bool.and_eq_true, beq_iff_eq] at hbegins
          obtain ⟨rfl, hbegins⟩ := hbegins
          cases middle with
          | nil => exact absurd List.compare_nil_cons hfront
          | cons middleByte middle =>
              rw [List.compare_cons_cons] at hfront hlast
              have hbyte : compare middleByte byte = .eq := by
                cases hcompare : compare middleByte byte with
                | lt => simp [hcompare] at hfront
                | eq => rfl
                | gt => simp [hcompare] at hlast
              obtain rfl := Std.LawfulEqCmp.eq_of_compare hbyte
              rw [hbyte] at hfront hlast
              rw [List.isPrefixOf_cons_cons, Bool.and_eq_true, beq_iff_eq]
              exact ⟨rfl, ih hfront hlast hbegins⟩

/-- What begins with a front does not lie below it. -/
theorem compare_ne_lt_of_isPrefixOf {front bytes : Bytes}
    (hbegins : front.isPrefixOf bytes = true) : compare bytes front ≠ .lt := by
  induction front generalizing bytes with
  | nil => cases bytes <;> simp [List.compare_cons_nil]
  | cons byte front ih =>
      cases bytes with
      | nil => cases hbegins
      | cons head rest =>
          rw [List.isPrefixOf_cons_cons, Bool.and_eq_true, beq_iff_eq] at hbegins
          obtain ⟨rfl, hbegins⟩ := hbegins
          rw [List.compare_cons_cons, Std.ReflOrd.compare_self]
          exact ih hbegins

namespace OrderedMap

variable {κ ν : Type} [Ord κ] [Std.TransOrd κ] [Std.LawfulEqOrd κ]

omit [Std.LawfulEqOrd κ] in
/-- A key above all others goes to the end. -/
theorem insertEntry_of_all_lt {key : κ} {value : ν} {entries : List (κ × ν)}
    (h : ∀ entry ∈ entries, compare entry.1 key = .lt) :
    insertEntry key value entries = entries ++ [(key, value)] := by
  induction entries with
  | nil => rfl
  | cons head rest ih =>
      obtain ⟨other, held⟩ := head
      have hother : compare key other = .gt :=
        Std.OrientedCmp.gt_of_lt (h (other, held) (List.mem_cons_self ..))
      unfold insertEntry
      rw [hother]
      have hrest := ih fun entry hmem => h entry (List.mem_cons_of_mem _ hmem)
      rw [hrest, List.cons_append]

end OrderedMap

namespace Table

/-! ## The count of bytes -/

/-- The length of all keys and values of some entries. -/
def bytesOf : List (Bytes × Bytes) → Nat
  | [] => 0
  | entry :: rest => entrySize entry.1 entry.2 + bytesOf rest

/-- The running count is the length of all keys and values. -/
def Counted (table : Table) : Prop := table.size = bytesOf table.toList

/-- What is held under a key counts for as much as there is. -/
def heldSize (key : Bytes) (entries : List (Bytes × Bytes)) : Nat :=
  match OrderedMap.lookup? key entries with
  | some held => entrySize key held
  | none => 0

theorem heldSize_of_get?_eq_some {table : Table} {key held : Bytes}
    (hget : table.get? key = some held) :
    heldSize key table.toList = key.length + held.length := by
  have hlookup : OrderedMap.lookup? key table.toList = some held := hget
  rw [heldSize, hlookup]
  rfl

theorem heldSize_of_get?_eq_none {table : Table} {key : Bytes} (hget : table.get? key = none) :
    heldSize key table.toList = 0 := by
  have hlookup : OrderedMap.lookup? key table.toList = none := hget
  rw [heldSize, hlookup]

theorem bytesOf_insertEntry (key value : Bytes) (entries : List (Bytes × Bytes)) :
    bytesOf (OrderedMap.insertEntry key value entries) + heldSize key entries =
      bytesOf entries + entrySize key value := by
  induction entries with
  | nil => simp [OrderedMap.insertEntry, heldSize, OrderedMap.lookup?, bytesOf]
  | cons head rest ih =>
      obtain ⟨other, held⟩ := head
      simp only [OrderedMap.insertEntry, heldSize, OrderedMap.lookup?] at ih ⊢
      cases hcompare : compare key other with
      | lt => simp only [bytesOf]; omega
      | eq =>
          obtain rfl := Std.LawfulEqCmp.eq_of_compare hcompare
          simp only [bytesOf]
          omega
      | gt => simp only [bytesOf]; omega

theorem bytesOf_eraseEntry (key : Bytes) (entries : List (Bytes × Bytes)) :
    bytesOf (OrderedMap.eraseEntry key entries) + heldSize key entries = bytesOf entries := by
  induction entries with
  | nil => rfl
  | cons head rest ih =>
      obtain ⟨other, held⟩ := head
      simp only [OrderedMap.eraseEntry, heldSize, OrderedMap.lookup?] at ih ⊢
      cases hcompare : compare key other with
      | lt => simp only [bytesOf]; omega
      | eq =>
          obtain rfl := Std.LawfulEqCmp.eq_of_compare hcompare
          simp only [bytesOf]
          omega
      | gt => simp only [bytesOf]; omega

theorem sizeWithout_eq (table : Table) (key : Bytes) :
    table.sizeWithout key = table.size - heldSize key table.toList := by
  unfold sizeWithout heldSize get? OrderedMap.get? toList
  split <;> simp_all

theorem counted_empty : Counted empty := rfl

theorem Counted.insert {table : Table} (h : table.Counted) (key value : Bytes) :
    (table.insert key value).Counted := by
  have hbytes := bytesOf_insertEntry key value table.toList
  have hheld := bytesOf_eraseEntry key table.toList
  have hsize := sizeWithout_eq table key
  unfold Counted at h
  change table.sizeWithout key + entrySize key value =
    bytesOf (OrderedMap.insertEntry key value table.toList)
  omega

theorem Counted.erase {table : Table} (h : table.Counted) (key : Bytes) :
    (table.erase key).Counted := by
  have hbytes := bytesOf_eraseEntry key table.toList
  have hsize := sizeWithout_eq table key
  unfold Counted at h
  change table.sizeWithout key = bytesOf (OrderedMap.eraseEntry key table.toList)
  omega

/-- Tables with the same entries are the same. -/
theorem Counted.ext {left right : Table} (hleft : left.Counted) (hright : right.Counted)
    (h : left.toList = right.toList) : left = right := by
  obtain ⟨leftEntries, leftSize⟩ := left
  obtain ⟨rightEntries, rightSize⟩ := right
  obtain rfl : leftEntries = rightEntries := OrderedMap.ext_entries h
  obtain rfl : leftSize = rightSize := hleft.trans hright.symm
  rfl

/-! ## Changes of one key -/

theorem get?_insert (table : Table) (key value other : Bytes) :
    (table.insert key value).get? other = if other = key then some value else table.get? other := by
  by_cases hother : other = key
  · rw [hother, if_pos rfl, get?_insert_self]
  · rw [if_neg hother, get?_insert_of_ne _ _ hother]

theorem get?_erase (table : Table) (key other : Bytes) :
    (table.erase key).get? other = if other = key then none else table.get? other := by
  by_cases hother : other = key
  · rw [hother, if_pos rfl, get?_erase_self]
  · rw [if_neg hother, get?_erase_of_ne _ hother]

/-- Deleting a key that is not there changes nothing. -/
theorem erase_of_get?_eq_none {table : Table} {key : Bytes} (h : table.get? key = none) :
    table.erase key = table := by
  have hentries : table.entries.erase key = table.entries := by
    apply OrderedMap.ext_get?
    intro other
    by_cases hother : other = key
    · rw [hother, OrderedMap.get?_erase_self]
      exact h.symm
    · exact OrderedMap.get?_erase_of_ne _ hother
  have hsize : table.sizeWithout key = table.size := by
    rw [sizeWithout, h]
  rw [erase, hentries, hsize]

/-! ## Scans -/

/-- A run that starts at once is all that is wanted when nothing is wanted behind
its end. -/
theorem takeWhile_eq_filter {α : Type} {wanted : α → Bool} {items : List α}
    (hrun : items.Pairwise fun first second => wanted first = false → wanted second = false) :
    items.takeWhile wanted = items.filter wanted := by
  induction items with
  | nil => rfl
  | cons item rest ih =>
      obtain ⟨hhead, hrest⟩ := List.pairwise_cons.mp hrun
      cases hitem : wanted item with
      | true =>
          rw [List.takeWhile_cons_of_pos hitem, List.filter_cons_of_pos hitem, ih hrest]
      | false =>
          have hnot : ¬ wanted item = true := by simp [hitem]
          have hnone : rest.filter wanted = [] := by
            rw [List.filter_eq_nil_iff]
            intro other hmem
            rw [hhead other hmem hitem]
            decide
          rw [List.takeWhile_cons_of_neg hnot, List.filter_cons_of_neg hnot, hnone]

/-- A run of neighbours is all that is wanted when what is skipped before it is not
wanted, and nothing is wanted behind its end. -/
theorem takeWhile_dropWhile_eq_filter {α : Type} {below wanted : α → Bool} {items : List α}
    (hbelow : ∀ item ∈ items, below item = true → wanted item = false)
    (hdown : items.Pairwise fun first second => below first = false → below second = false)
    (hrun : items.Pairwise fun first second =>
      below first = false → wanted first = false → wanted second = false) :
    (items.dropWhile below).takeWhile wanted = items.filter wanted := by
  induction items with
  | nil => rfl
  | cons item rest ih =>
      obtain ⟨hdownHead, hdownRest⟩ := List.pairwise_cons.mp hdown
      obtain ⟨hrunHead, hrunRest⟩ := List.pairwise_cons.mp hrun
      cases hitem : below item with
      | true =>
          have hskip : ¬ wanted item = true := by
            rw [hbelow item (List.mem_cons_self ..) hitem]
            decide
          rw [List.dropWhile_cons_of_pos hitem, List.filter_cons_of_neg hskip]
          exact ih (fun other hmem => hbelow other (List.mem_cons_of_mem _ hmem))
            hdownRest hrunRest
      | false =>
          have hkeep : ¬ below item = true := by simp [hitem]
          rw [List.dropWhile_cons_of_neg hkeep]
          refine takeWhile_eq_filter (List.pairwise_cons.mpr ⟨?_, ?_⟩)
          · intro other hmem
            exact hrunHead other hmem hitem
          · exact hrunRest.imp_of_mem fun hfirst _ hafter => hafter (hdownHead _ hfirst hitem)

/-- What is skipped is all that is skipped anywhere when nothing behind the first item
kept is skipped. -/
theorem dropWhile_eq_filter {α : Type} {below : α → Bool} {items : List α}
    (hdown : items.Pairwise fun first second => below first = false → below second = false) :
    items.dropWhile below = items.filter fun item => !below item := by
  induction items with
  | nil => rfl
  | cons item rest ih =>
      obtain ⟨hhead, hrest⟩ := List.pairwise_cons.mp hdown
      cases hitem : below item with
      | true => simp [hitem, ih hrest]
      | false =>
          have hall : rest.filter (fun other => !below other) = rest := by
            rw [List.filter_eq_self]
            intro other hmem
            simp [hhead other hmem hitem]
          simp [hitem, hall]

/-- The keys of a table go up. -/
theorem ascending_toList (table : Table) :
    table.toList.Pairwise fun first second => compare first.1 second.1 = .lt :=
  table.entries.ascending

/-- Once a key is not below a bound, no later one is. -/
theorem pairwise_not_below (table : Table) (bound : Bytes) :
    table.toList.Pairwise fun first second =>
      (compare first.1 bound).isLT = false → (compare second.1 bound).isLT = false := by
  apply table.ascending_toList.imp
  intro first second hlt hfirst
  cases hsecond : compare second.1 bound with
  | lt => simp [Std.TransCmp.lt_trans hlt hsecond] at hfirst
  | eq => rfl
  | gt => rfl

theorem startingWith_eq_filter (table : Table) (front : Bytes) :
    table.startingWith front = table.toList.filter fun entry => front.isPrefixOf entry.1 := by
  refine takeWhile_dropWhile_eq_filter ?_ (table.pairwise_not_below front) ?_
  · intro entry _ hbelow
    cases hbegins : front.isPrefixOf entry.1 with
    | false => rfl
    | true => simp [compare_ne_lt_of_isPrefixOf hbegins] at hbelow
  · apply table.ascending_toList.imp
    intro first second hlt hnotBelow hfirst
    cases hsecond : front.isPrefixOf second.1 with
    | false => rfl
    | true =>
        have hge : compare first.1 front ≠ .lt := by
          intro hlow
          simp [hlow] at hnotBelow
        rw [isPrefixOf_of_between hge hlt hsecond] at hfirst
        cases hfirst

/-- A key behind one above a bound lies above it too. -/
theorem pairwise_not_above (table : Table) (bound : Bytes) :
    table.toList.Pairwise fun first second =>
      (compare first.1 bound).isLE = false → (compare second.1 bound).isLE = false := by
  apply table.ascending_toList.imp
  intro first second hlt hfirst
  rw [← Bool.not_eq_true] at hfirst ⊢
  intro hsecond
  exact hfirst (Std.TransCmp.isLE_trans (Ordering.isLE_of_eq_lt hlt) hsecond)

theorem between_eq_filter (table : Table) (first last : Bytes) :
    table.between first last = table.toList.filter fun entry =>
      (compare first entry.1).isLE && (compare entry.1 last).isLE := by
  rw [between, dropWhile_eq_filter (table.pairwise_not_below first),
    takeWhile_eq_filter ((table.pairwise_not_above last).sublist List.filter_sublist),
    List.filter_filter]
  congr 1
  funext entry
  rw [Std.OrientedOrd.eq_swap (a := first), Ordering.isLE_swap, Bool.and_comm]
  cases compare entry.1 first <;> rfl

/-- Entries whose keys are wanted are the same in tables that agree on these keys. -/
theorem filter_toList_congr {left right : Table} {wanted : Bytes → Bool}
    (h : ∀ key, wanted key = true → left.get? key = right.get? key) :
    (left.toList.filter fun entry => wanted entry.1) =
      right.toList.filter fun entry => wanted entry.1 := by
  have hmap : (⟨_, left.ascending_toList.filter fun entry => wanted entry.1⟩ :
      OrderedMap Bytes Bytes) = ⟨_, right.ascending_toList.filter fun entry => wanted entry.1⟩ := by
    apply OrderedMap.ext_get?
    intro key
    apply Option.ext
    intro value
    rw [OrderedMap.get?_eq_some_iff, OrderedMap.get?_eq_some_iff, List.mem_filter, List.mem_filter]
    refine and_congr_left fun hwanted => ?_
    have hheld := h key hwanted
    rw [Table.get?, Table.get?] at hheld
    rw [toList, toList, ← OrderedMap.get?_eq_some_iff, ← OrderedMap.get?_eq_some_iff, hheld]
  exact congrArg OrderedMap.entries hmap

theorem mem_startingWith {table : Table} {front : Bytes} {entry : Bytes × Bytes} :
    entry ∈ table.startingWith front ↔
      table.get? entry.1 = some entry.2 ∧ front.isPrefixOf entry.1 = true := by
  rw [startingWith_eq_filter, List.mem_filter]
  exact and_congr_left' OrderedMap.get?_eq_some_iff.symm

end Table

end DocumentCache
