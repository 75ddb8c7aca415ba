import DocumentCache.Proofs.Journal.ArbitraryLogs
import DocumentCache.Proofs.Journal.Crashes
import DocumentCache.Proofs.Journal.LogLengths
import DocumentCache.Proofs.Journal.TableScans
import Mathlib.Algebra.GroupWithZero.Nat

/-!
# The byte count of a table

A table does not add up its entries when it is asked how many bytes they take.  It goes on
counting: a change takes off the count what stands under its key, and adds what it puts
there.  What is taken off is part of the count, so although the subtraction would stop at
zero, it never does so early.  A replay makes its table by inserts and removals alone, and a
call on an engine changes the table by one of these or not at all, whatever becomes of its
files.  So the count is exact wherever a table came from, and an engine weighs its log
against the true length of the live data.
-/

namespace DocumentCache

namespace Table

/-! ## Lengths of entries -/

theorem bytesOf_eq_sum (entries : List (Bytes × Bytes)) :
    bytesOf entries = (entries.map fun entry => entry.1.length + entry.2.length).sum := by
  induction entries with
  | nil => rfl
  | cons entry rest ih => rw [bytesOf, ih, entrySize, List.map_cons, List.sum_cons]

theorem entrySize_eq_zero_iff {entry : Bytes × Bytes} :
    entrySize entry.1 entry.2 = 0 ↔ entry = ([], []) := by
  rw [entrySize, Nat.add_eq_zero_iff, List.length_eq_zero_iff, List.length_eq_zero_iff,
    Prod.ext_iff]

theorem bytesOf_eq_zero_iff {entries : List (Bytes × Bytes)} :
    bytesOf entries = 0 ↔ ∀ entry ∈ entries, entry = ([], []) := by
  induction entries with
  | nil => exact iff_of_true rfl (List.forall_mem_nil _)
  | cons entry rest ih =>
      rw [bytesOf, Nat.add_eq_zero_iff, entrySize_eq_zero_iff, ih, List.forall_mem_cons]

/-- Where nothing is repeated and only one item occurs, it occurs once at most. -/
theorem eq_nil_or_singleton_of_nodup {α : Type} {item : α} {items : List α}
    (hnodup : items.Nodup) (hall : ∀ other ∈ items, other = item) :
    items = [] ∨ items = [item] := by
  obtain ⟨count, rfl⟩ : ∃ count, items = List.replicate count item :=
    ⟨_, List.eq_replicate_of_mem hall⟩
  have hcount : count ≤ 1 := List.nodup_replicate.mp hnodup
  obtain rfl | rfl := Nat.le_one_iff_eq_zero_or_eq_one.mp hcount
  · exact .inl rfl
  · exact .inr rfl

/-- Nothing but the empty entry takes no bytes, and a table holds it once at most. -/
theorem bytesOf_toList_eq_zero_iff (table : Table) :
    bytesOf table.toList = 0 ↔ table.toList = [] ∨ table.toList = [([], [])] := by
  rw [bytesOf_eq_zero_iff]
  constructor
  · exact eq_nil_or_singleton_of_nodup (OrderedMap.nodup_of_ascending table.entries.ascending)
  · rintro (hnone | hempty)
    · rw [hnone]
      exact List.forall_mem_nil _
    · rw [hempty]
      exact List.forall_mem_singleton.mpr rfl

/-! ## Counting on -/

variable {table : Table}

theorem Counted.size_insert (h : table.Counted) (key value : Bytes) :
    (table.insert key value).size + heldSize key table.toList =
      table.size + (key.length + value.length) := by
  have hafter : (table.insert key value).size = bytesOf (table.insert key value).toList :=
    h.insert key value
  rw [hafter, h]
  exact bytesOf_insertEntry key value table.toList

theorem Counted.size_erase (h : table.Counted) (key : Bytes) :
    (table.erase key).size + heldSize key table.toList = table.size := by
  have hafter : (table.erase key).size = bytesOf (table.erase key).toList := h.erase key
  rw [hafter, h]
  exact bytesOf_eraseEntry key table.toList

/-- The count of a table is the length of its entries, and each change counts on exactly. -/
structure CountsExactly (table : Table) : Prop where
  size_eq : table.size = (table.toList.map fun entry => entry.1.length + entry.2.length).sum
  /-- What a change takes off the count is part of it. -/
  held_le : ∀ key held, table.get? key = some held → key.length + held.length ≤ table.size
  insert_new : ∀ key value, table.get? key = none →
    (table.insert key value).size = table.size + (key.length + value.length)
  /-- The key of an entry that is replaced stays, and its value counts no more. -/
  insert_over : ∀ key held value, table.get? key = some held →
    (table.insert key value).size + held.length = table.size + value.length
  erase_held : ∀ key held, table.get? key = some held →
    (table.erase key).size + (key.length + held.length) = table.size
  erase_absent : ∀ key, table.get? key = none → (table.erase key).size = table.size
  size_eq_zero_iff : table.size = 0 ↔ table.toList = [] ∨ table.toList = [([], [])]

theorem Counted.countsExactly (h : table.Counted) : table.CountsExactly where
  size_eq := h.trans (bytesOf_eq_sum table.toList)
  held_le key held hget := by
    have herase := h.size_erase key
    rw [heldSize_of_get?_eq_some hget] at herase
    exact herase ▸ Nat.le_add_left ..
  insert_new key value hget := by
    have hinsert := h.size_insert key value
    rwa [heldSize_of_get?_eq_none hget] at hinsert
  insert_over key held value hget := by
    have hinsert := h.size_insert key value
    rw [heldSize_of_get?_eq_some hget] at hinsert
    omega
  erase_held key held hget := by
    have herase := h.size_erase key
    rwa [heldSize_of_get?_eq_some hget] at herase
  erase_absent key hget := by rw [erase_of_get?_eq_none hget]
  size_eq_zero_iff := by
    rw [h]
    exact table.bytesOf_toList_eq_zero_iff

/-! ## Changes, one after another -/

namespace Change

theorem counted_apply (change : Change) (h : table.Counted) : (change.apply table).Counted := by
  cases change with
  | insert key value => exact h.insert key value
  | remove key => exact h.erase key
  | clear => exact counted_empty

/-- The change that a record stands for. -/
def ofRecord : Operation → Change
  | .put key value => .insert key value
  | .delete key => .remove key

theorem apply_ofRecord (operation : Operation) (table : Table) :
    (ofRecord operation).apply table = operation.apply table := by
  cases operation <;> rfl

end Change

/-- The table that changes make of a table. -/
def changed (changes : List Change) (table : Table) : Table :=
  changes.foldl (fun table change => change.apply table) table

theorem counted_changed (changes : List Change) (h : table.Counted) :
    (changed changes table).Counted := by
  induction changes generalizing table with
  | nil => exact h
  | cons change rest ih => exact ih (change.counted_apply h)

theorem changed_ofRecords (operations : List Operation) (table : Table) :
    changed (operations.map Change.ofRecord) table = Operation.applyAll operations table := by
  induction operations generalizing table with
  | nil => rfl
  | cons operation rest ih =>
      rw [Operation.applyAll_cons, ← Change.apply_ofRecord]
      exact ih _

/-- A replay makes its table by a change for each record, beginning with the empty table, so
the tables it goes through are made by changes too. -/
theorem exists_made_of_recover {disk : Disk} {replay : Replay}
    (h : Log.recover disk = .ok replay) :
    ∃ operations : List Operation, operations.length = replay.records ∧
      replay.table = made (operations.map Change.ofRecord) := by
  obtain ⟨content, -, hreplay⟩ := Log.exists_replay_of_recover h
  obtain ⟨operations, -, hcount, htable, -⟩ := Replay.exists_wholeRecords hreplay
  exact ⟨operations, hcount, htable.trans (changed_ofRecords operations .empty).symm⟩

end Table

/-! ## Engines -/

namespace Engine

variable {engine after : Engine}

theorem counted_of_openOn {settings : Settings} {disk : Disk}
    (h : openOn settings disk = .ok engine) : engine.table.Counted := by
  obtain ⟨_, operations, -, hmade⟩ := exists_wholeRecords_of_openOn h
  rw [hmade]
  exact Operation.counted_applyAll operations Table.counted_empty

theorem counted_commit (h : engine.table.Counted) (operation : Operation) :
    (engine.commit operation).2.table.Counted := by
  rcases engine.table_commit operation with htable | ⟨htable, -⟩
  · rw [htable]
    exact Operation.counted_apply operation h
  · rwa [htable]

/-- Whatever a call answers, the count of the table goes on exactly. -/
theorem counted_perform (h : engine.table.Counted) {call : Call}
    (hcall : engine.perform call = .ok after) : after.table.Counted := by
  rcases perform_cases hcall with rfl | ⟨operation, rfl⟩ | rfl | ⟨settings, hopen⟩
  · exact h
  · exact counted_commit h operation
  · exact h
  · exact counted_of_openOn hopen

theorem counted_meet (h : engine.table.Counted) {event : Event}
    (hevent : engine.meet event = .ok after) : after.table.Counted := by
  cases event with
  | done call => exact counted_perform h hevent
  | died crash settings => exact counted_of_openOn hevent

theorem counted_meetAll (h : engine.table.Counted) {events : List Event}
    (hevents : engine.meetAll events = .ok after) : after.table.Counted := by
  induction events generalizing engine with
  | nil =>
      obtain rfl := Except.ok.inj hevents
      exact h
  | cons event rest ih =>
      simp only [meetAll] at hevents
      cases hfirst : engine.meet event with
      | error failure =>
          rw [hfirst] at hevents
          cases hevents
      | ok middle =>
          rw [hfirst] at hevents
          exact ih (counted_meet h hfirst) hevents

end Engine

namespace Table

/-- Whether changes of an empty table made it, a replay and changes behind that, or an engine
that was opened on any directory and met with any calls, failures and crashes: the count of a
table is exact, and so is what an engine compares with the length of its log. -/
theorem byte_counts_exact :
    (∀ changes, (∀ key value,
        (key, value) ∈ (made changes).toList ↔ leftUnder changes key = some value) ∧
      (made changes).CountsExactly) ∧
    (∀ disk replay, Log.recover disk = .ok replay →
      (∃ operations : List Operation, operations.length = replay.records ∧
        replay.table = made (operations.map Change.ofRecord)) ∧
      ∀ changes, (changed changes replay.table).CountsExactly) ∧
    ∀ settings disk opened events engine, Engine.openOn settings disk = .ok opened →
      opened.meetAll events = .ok engine →
      engine.table.CountsExactly ∧
        (engine.checkpointDue = true ↔
          engine.settings.checkpointBytes ≤ engine.logSize ∧
            2 * (engine.table.toList.map fun entry => entry.1.length + entry.2.length).sum <
              engine.logSize) := by
  refine ⟨?_, ?_, ?_⟩
  · intro changes
    refine ⟨?_, (counted_changed changes counted_empty).countsExactly⟩
    intro key value
    rw [← get?_made]
    exact OrderedMap.get?_eq_some_iff.symm
  · intro disk replay hrecover
    obtain ⟨operations, hcount, hmade⟩ := exists_made_of_recover hrecover
    refine ⟨⟨operations, hcount, hmade⟩, fun changes => ?_⟩
    have hreplayed : replay.table.Counted := hmade ▸ counted_changed _ counted_empty
    exact (counted_changed changes hreplayed).countsExactly
  · intro settings disk opened events engine hopen hevents
    have hcounted := Engine.counted_meetAll (Engine.counted_of_openOn hopen) hevents
    refine ⟨hcounted.countsExactly, ?_⟩
    rw [← bytesOf_eq_sum]
    exact Engine.checkpointDue_iff_of_counted hcounted

/-- An empty directory in which the fourth file action fails. -/
def failingFourth : Disk := ⟨.missing, none, [.done, .done, .done, .failed 0]⟩

/-- Calls that replace a value by a longer one, delete it and leave an entry without bytes. -/
def overwritingCalls : List Engine.Event :=
  [.done (.put [7] [1]), .done (.put [7] [2, 3]), .done (.delete [8]), .done (.put [] []),
    .done (.delete [7])]

/-- A replayed value is replaced by a shorter one; and an engine that could not make the
checkpoint behind its second put is left with an entry that takes no bytes. -/
theorem byte_counts_exact_overwritingCalls :
    ∃ replay opened engine, Log.recover ⟨.file Engine.halfWrittenLog, none, []⟩ = .ok replay ∧
      replay.table.size = 2 ∧ (changed [.insert [7] [], .remove [8]] replay.table).size = 1 ∧
      Engine.openOn Engine.smallLog failingFourth = .ok opened ∧
      opened.meetAll overwritingCalls = .ok engine ∧ engine.length = 1 ∧
      engine.table.size = 0 := by
  obtain ⟨-, hreplays, hengines⟩ := byte_counts_exact
  obtain ⟨-, hchanged⟩ := hreplays _ _ Engine.recover_halfWrittenLog
  have hopen : Engine.openOn Engine.smallLog failingFourth = .ok _ := rfl
  obtain ⟨hcounts, -⟩ := hengines _ _ _ overwritingCalls _ hopen rfl
  exact ⟨_, _, _, Engine.recover_halfWrittenLog, (hchanged []).size_eq, (hchanged _).size_eq,
    hopen, rfl, rfl, hcounts.size_eq_zero_iff.mpr (.inr rfl)⟩

end Table

end DocumentCache
