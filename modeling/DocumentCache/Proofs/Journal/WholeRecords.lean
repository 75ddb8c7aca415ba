import DocumentCache.Journal.Log
import DocumentCache.Proofs.Journal.Frames
import DocumentCache.Proofs.Journal.TableContents

/-!
# Whole records and torn ones

A record whose key and value are short enough for the four bytes of their lengths
reads back as the change it records.  Bytes that end inside it are torn, for
whatever can be read from some bytes can be read from every continuation of them.
So replaying a run of whole records and a torn tail makes exactly the changes of
the run, in order, and counts exactly its bytes.
-/

namespace DocumentCache

namespace Operation

/-- The key and the value are short enough for the lengths in a record. -/
def Short (operation : Operation) : Prop :=
  operation.key.length < wordRange 4 ∧ operation.value.length < wordRange 4

instance (operation : Operation) : Decidable operation.Short :=
  inferInstanceAs (Decidable (_ ∧ _))

def AllShort (operations : List Operation) : Prop :=
  ∀ operation ∈ operations, operation.Short

/-! ## Reading a record -/

theorem wholeRecord_encode {operation : Operation} (hshort : operation.Short) :
    WholeRecord operation.encode operation := by
  cases operation with
  | put key value => exact .put hshort.1 hshort.2
  | delete key => exact .delete hshort.1 hshort.2

/-- The frame of a record that is followed by some bytes. -/
def frameBefore (operation : Operation) (rest : Bytes) : Frame where
  kind := operation.kind
  key := operation.key
  value := operation.value
  content := operation.content
  checksum := Checksum.trailer operation.content
  rest := rest

theorem split?_encode_append {operation : Operation} (hshort : operation.Short) (rest : Bytes) :
    Frame.split? (operation.encode ++ rest) = some (operation.frameBefore rest) :=
  split?_recordOf_append hshort.1 hshort.2 rest

/-- Bytes that end inside a record. -/
def Torn (bytes : Bytes) : Prop := read? bytes = .ok none

theorem allShort_concat {operations : List Operation} {operation : Operation}
    (hshort : AllShort operations) (hlast : operation.Short) :
    AllShort (operations ++ [operation]) := by
  intro other hmem
  rcases List.mem_append.mp hmem with hmem | hmem
  · exact hshort other hmem
  · rw [List.mem_singleton.mp hmem]
    exact hlast

theorem torn_nil : Torn [] := rfl

theorem torn_of_split?_eq_none {bytes : Bytes} (h : Frame.split? bytes = none) : Torn bytes := by
  rw [Torn, read?, h]

/-- The beginning of a record is torn until the record is whole. -/
theorem torn_take_encode {operation : Operation} (hshort : operation.Short) {count : Nat}
    (hcount : count < operation.encode.length) : Torn (operation.encode.take count) := by
  refine torn_of_split?_eq_none ?_
  cases hframe : Frame.split? (operation.encode.take count) with
  | none => rfl
  | some frame =>
      have hwhole := Frame.split?_extend hframe (operation.encode.drop count)
      have hsame := split?_encode_append hshort []
      rw [List.append_nil] at hsame
      rw [List.take_append_drop, hsame] at hwhole
      have hrest : frame.rest ++ operation.encode.drop count = [] :=
        (congrArg Frame.rest (Option.some.inj hwhole)).symm
      have hdrop := (List.append_eq_nil_iff.mp hrest).2
      rw [List.drop_eq_nil_iff] at hdrop
      omega

/-! ## Runs of records -/

/-- These bytes are whole records of these changes, one behind the other. -/
inductive WholeRecords : Bytes → List Operation → Prop where
  | nil : WholeRecords [] []
  | cons {record rest : Bytes} {operation : Operation} {operations : List Operation}
      (hfirst : WholeRecord record operation) (hrest : WholeRecords rest operations) :
      WholeRecords (record ++ rest) (operation :: operations)

theorem WholeRecords.append {front back : Bytes} {first second : List Operation}
    (hfront : WholeRecords front first) (hback : WholeRecords back second) :
    WholeRecords (front ++ back) (first ++ second) := by
  induction hfront with
  | nil => exact hback
  | cons hfirst _ ih =>
      rw [List.append_assoc]
      exact .cons hfirst ih

theorem wholeRecords_encodeAll {operations : List Operation} (hshort : AllShort operations) :
    WholeRecords (Log.encodeAll operations) operations := by
  induction operations with
  | nil => exact .nil
  | cons operation rest ih =>
      obtain ⟨hfirst, hrest⟩ := List.forall_mem_cons.mp hshort
      exact .cons (wholeRecord_encode hfirst) (ih hrest)

/-! ## Making changes -/

/-- Make changes one after another. -/
def applyAll (operations : List Operation) (table : Table) : Table :=
  operations.foldl (fun table operation => operation.apply table) table

@[simp]
theorem applyAll_cons (operation : Operation) (rest : List Operation) (table : Table) :
    applyAll (operation :: rest) table = applyAll rest (operation.apply table) := rfl

theorem applyAll_append (first second : List Operation) (table : Table) :
    applyAll (first ++ second) table = applyAll second (applyAll first table) :=
  List.foldl_append

theorem counted_apply (operation : Operation) {table : Table} (h : table.Counted) :
    (operation.apply table).Counted := by
  cases operation with
  | put key value => exact h.insert key value
  | delete key => exact h.erase key

theorem counted_applyAll (operations : List Operation) {table : Table} (h : table.Counted) :
    (applyAll operations table).Counted := by
  induction operations generalizing table with
  | nil => exact h
  | cons operation rest ih => exact ih (counted_apply operation h)

/-- Every entry of a table stands for a record that is short enough. -/
def ShortEntries (table : Table) : Prop :=
  ∀ entry ∈ table.toList, (Operation.put entry.1 entry.2).Short

theorem shortEntries_empty : ShortEntries .empty := by
  intro entry hmem
  cases hmem

theorem shortEntries_apply {operation : Operation} (hshort : operation.Short) {table : Table}
    (h : ShortEntries table) : ShortEntries (operation.apply table) := by
  intro entry hmem
  cases operation with
  | put key value =>
      rcases OrderedMap.mem_insertEntry hmem with rfl | hmem
      · exact hshort
      · exact h entry hmem
  | delete key => exact h entry ((OrderedMap.eraseEntry_sublist key table.toList).subset hmem)

theorem shortEntries_applyAll {operations : List Operation} (hshort : AllShort operations)
    {table : Table}
    (h : ShortEntries table) : ShortEntries (applyAll operations table) := by
  induction operations generalizing table with
  | nil => exact h
  | cons operation rest ih =>
      have hfirst := hshort operation (List.mem_cons_self ..)
      exact ih (fun other hmem => hshort other (List.mem_cons_of_mem _ hmem))
        (shortEntries_apply hfirst h)

end Operation

/-! ## The records of the live entries -/

namespace Log

theorem encodeAll_cons (operation : Operation) (rest : List Operation) :
    encodeAll (operation :: rest) = operation.encode ++ encodeAll rest := rfl

theorem encodeAll_append (first second : List Operation) :
    encodeAll (first ++ second) = encodeAll first ++ encodeAll second :=
  List.flatMap_append

theorem encodeAll_concat (operations : List Operation) (operation : Operation) :
    encodeAll (operations ++ [operation]) = encodeAll operations ++ operation.encode := by
  rw [encodeAll_append, encodeAll, encodeAll, List.flatMap_singleton]

theorem allShort_liveRecords {table : Table} (h : Operation.ShortEntries table) :
    Operation.AllShort (liveRecords table) := by
  intro operation hmem
  obtain ⟨entry, hentry, rfl⟩ := List.mem_map.mp hmem
  exact h entry hentry

/-- Putting ascending entries, all above what is there, lists them behind it. -/
theorem toList_applyAll_puts {entries : List (Bytes × Bytes)} {table : Table}
    (h : Ascending (table.toList ++ entries)) :
    (Operation.applyAll (entries.map fun entry => .put entry.1 entry.2) table).toList =
      table.toList ++ entries := by
  induction entries generalizing table with
  | nil => exact (List.append_nil _).symm
  | cons entry rest ih =>
      have hbefore : ∀ other ∈ table.toList, compare other.1 entry.1 = .lt := fun other hmem =>
        (List.pairwise_append.mp h).2.2 other hmem entry (List.mem_cons_self ..)
      have hinsert : (table.insert entry.1 entry.2).toList = table.toList ++ [entry] :=
        OrderedMap.insertEntry_of_all_lt hbefore
      have hascending : Ascending ((table.insert entry.1 entry.2).toList ++ rest) := by
        rw [hinsert, List.append_assoc]
        exact h
      have hrest := ih hascending
      rw [hinsert, List.append_assoc] at hrest
      exact hrest

/-- Replaying the records of a table's live entries gives the table. -/
theorem applyAll_liveRecords {table : Table} (h : table.Counted) :
    Operation.applyAll (liveRecords table) .empty = table := by
  have hascending : Ascending (Table.empty.toList ++ table.toList) := table.entries.ascending
  have hlist := toList_applyAll_puts hascending
  exact (Operation.counted_applyAll _ Table.counted_empty).ext h hlist

end Log

/-! ## Replay -/

namespace Replay

theorem continueWith_torn (replay : Replay) {bytes : Bytes} (h : Operation.Torn bytes) :
    replay.continueWith bytes = .ok replay := by
  rw [continueWith]
  split
  · next hread => rw [h] at hread; cases hread
  · rfl
  · next hread => rw [h] at hread; cases hread

theorem ofLog_nil : ofLog [] = .ok .start := continueWith_torn _ Operation.torn_nil

/-- The replay after these changes, whose records have this length. -/
def advanceOver (replay : Replay) (length : Nat) (operations : List Operation) : Replay where
  table := Operation.applyAll operations replay.table
  validBytes := replay.validBytes + length
  records := replay.records + operations.length

theorem advanceOver_cons (replay : Replay) (first length : Nat) (operation : Operation)
    (rest : List Operation) :
    replay.advanceOver (first + length) (operation :: rest) =
      (replay.advance operation first).advanceOver length rest := by
  simp only [advanceOver, advance, Operation.applyAll_cons, List.length_cons, mk.injEq, true_and]
  omega

theorem continueWith_records (replay : Replay) {bytes : Bytes} {operations : List Operation}
    (hrecords : Operation.WholeRecords bytes operations) (tail : Bytes) :
    replay.continueWith (bytes ++ tail) =
      (replay.advanceOver bytes.length operations).continueWith tail := by
  induction hrecords generalizing replay with
  | nil => rfl
  | cons hfirst _ ih =>
      rw [List.append_assoc, continueWith_record replay hfirst, ih, List.length_append,
        advanceOver_cons]

/-- The replay after a whole run of records. -/
def advanceAll (replay : Replay) (operations : List Operation) : Replay where
  table := Operation.applyAll operations replay.table
  validBytes := replay.validBytes + (Log.encodeAll operations).length
  records := replay.records + operations.length

theorem continueWith_encodeAll_append (replay : Replay) {operations : List Operation}
    (hshort : Operation.AllShort operations) (tail : Bytes) :
    replay.continueWith (Log.encodeAll operations ++ tail) =
      (replay.advanceAll operations).continueWith tail :=
  continueWith_records replay (Operation.wholeRecords_encodeAll hshort) tail

/-- Replaying whole records and a torn tail makes the changes of the records. -/
theorem ofLog_encodeAll_append {operations : List Operation}
    (hshort : Operation.AllShort operations) {tail : Bytes}
    (htail : Operation.Torn tail) :
    ofLog (Log.encodeAll operations ++ tail) =
      .ok ⟨Operation.applyAll operations .empty, (Log.encodeAll operations).length,
        operations.length⟩ := by
  rw [ofLog, continueWith_encodeAll_append _ hshort, continueWith_torn _ htail]
  simp only [advanceAll, start, Nat.zero_add]

theorem ofLog_encodeAll {operations : List Operation}
    (hshort : Operation.AllShort operations) :
    ofLog (Log.encodeAll operations) =
      .ok ⟨Operation.applyAll operations .empty, (Log.encodeAll operations).length,
        operations.length⟩ := by
  have hreplay := ofLog_encodeAll_append hshort Operation.torn_nil
  rwa [List.append_nil] at hreplay

end Replay

end DocumentCache
