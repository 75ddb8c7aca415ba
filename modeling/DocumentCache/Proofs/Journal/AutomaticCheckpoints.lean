import DocumentCache.Proofs.Journal.Crashes
import DocumentCache.Proofs.Journal.LogLengths

/-!
# When a log is rewritten

A log is as long as the records of its live entries and its history: the records that
were overwritten or deleted, and the records of the deletions.  A checkpoint keeps the
first and drops the second, so it more than halves the log exactly if the history is the
longer part.  What makes a checkpoint due is less than that, for there the keys and values
of the live entries are counted without the thirteen bytes around each of them.  Where
these bytes are the larger part of the records, a log without any history is rewritten,
and then again with every short new entry.
-/

namespace DocumentCache

namespace OrderedMap

variable {κ ν : Type} [Ord κ]

theorem length_insertEntry (key : κ) (value : ν) (entries : List (κ × ν)) :
    (insertEntry key value entries).length + (lookup? key entries).toList.length =
      entries.length + 1 := by
  induction entries with
  | nil => rfl
  | cons head rest ih =>
      obtain ⟨other, held⟩ := head
      unfold insertEntry lookup?
      split
      · rfl
      · rfl
      · simp only [List.length_cons]
        omega

theorem length_eraseEntry (key : κ) (entries : List (κ × ν)) :
    (eraseEntry key entries).length + (lookup? key entries).toList.length = entries.length := by
  induction entries with
  | nil => rfl
  | cons head rest ih =>
      obtain ⟨other, held⟩ := head
      unfold eraseEntry lookup?
      split
      · rfl
      · rfl
      · simp only [List.length_cons]
        omega

end OrderedMap

/-! ## Live records and history -/

/-- The length of the records of the live entries. -/
def Table.recordBytes (table : Table) : Nat := bytesOf table.toList + 13 * table.length

/-- The length of the record under this key, if an entry is there. -/
def Table.heldRecord (table : Table) (key : Bytes) : Nat :=
  match table.get? key with
  | some held => (Operation.put key held).encode.length
  | none => 0

theorem Table.heldRecord_eq (table : Table) (key : Bytes) :
    table.heldRecord key =
      heldSize key table.toList + 13 * (OrderedMap.lookup? key table.toList).toList.length := by
  have hget : table.get? key = OrderedMap.lookup? key table.toList := rfl
  unfold heldRecord heldSize
  rw [hget]
  cases OrderedMap.lookup? key table.toList with
  | none => rfl
  | some held => exact Operation.length_encode (.put key held)

theorem Table.heldRecord_eq_zero_iff {table : Table} {key : Bytes} :
    table.heldRecord key = 0 ↔ table.get? key = none := by
  unfold heldRecord
  cases table.get? key with
  | none => exact iff_of_true rfl rfl
  | some held =>
      dsimp only
      rw [Operation.length_encode]
      exact iff_of_false (Nat.succ_ne_zero _) (Option.some_ne_none held)

theorem Table.get?_insert_eq_none_iff {table : Table} {key other value : Bytes} :
    (table.insert key value).get? other = none ↔ other ≠ key ∧ table.get? other = none := by
  by_cases hsame : other = key
  · subst hsame
    simp
  · rw [get?_insert_of_ne table value hsame]
    exact (and_iff_right hsame).symm

theorem Table.bytesOf_insert_of_absent {table : Table} {key : Bytes} (value : Bytes)
    (habsent : table.get? key = none) :
    bytesOf (table.insert key value).toList =
      bytesOf table.toList + (key.length + value.length) := by
  have hbytes := bytesOf_insertEntry key value table.toList
  rw [heldSize_of_get?_eq_none habsent] at hbytes
  exact hbytes

theorem Table.length_insert_of_absent {table : Table} {key : Bytes} (value : Bytes)
    (habsent : table.get? key = none) : (table.insert key value).length = table.length + 1 := by
  have hlength := OrderedMap.length_insertEntry key value table.toList
  have hlookup : OrderedMap.lookup? key table.toList = none := habsent
  rw [hlookup] at hlength
  exact hlength

namespace Operation

/-- The bytes of a log that become history with this change: the record of the entry that is
replaced or deleted, and the record of a deletion itself. -/
def spent (operation : Operation) (table : Table) : Nat :=
  match operation with
  | .put key _ => table.heldRecord key
  | .delete key => table.heldRecord key + (Operation.delete key).encode.length

/-- The bytes of these records that are history once all changes are made. -/
def historyBytes : List Operation → Table → Nat
  | [], _ => 0
  | operation :: rest, table =>
      operation.spent table + historyBytes rest (operation.apply table)

theorem recordBytes_apply (operation : Operation) (table : Table) :
    (operation.apply table).recordBytes + operation.spent table =
      table.recordBytes + operation.encode.length := by
  cases operation with
  | put key value =>
      have hbytes := Table.bytesOf_insertEntry key value table.toList
      have hlength := OrderedMap.length_insertEntry key value table.toList
      have hheld := table.heldRecord_eq key
      rw [length_encode]
      change Table.bytesOf (OrderedMap.insertEntry key value table.toList) +
          13 * (OrderedMap.insertEntry key value table.toList).length + table.heldRecord key =
        Table.bytesOf table.toList + 13 * table.toList.length +
          (key.length + value.length + 13)
      rw [Table.entrySize] at hbytes
      omega
  | delete key =>
      have hbytes := Table.bytesOf_eraseEntry key table.toList
      have hlength := OrderedMap.length_eraseEntry key table.toList
      have hheld := table.heldRecord_eq key
      change Table.bytesOf (OrderedMap.eraseEntry key table.toList) +
          13 * (OrderedMap.eraseEntry key table.toList).length +
          (table.heldRecord key + (Operation.delete key).encode.length) =
        Table.bytesOf table.toList + 13 * table.toList.length +
          (Operation.delete key).encode.length
      omega

/-- Records are those of the live entries and history. -/
theorem recordBytes_applyAll (operations : List Operation) (table : Table) :
    (applyAll operations table).recordBytes + historyBytes operations table =
      table.recordBytes + (Log.encodeAll operations).length := by
  induction operations generalizing table with
  | nil => rfl
  | cons operation rest ih =>
      have hfirst := recordBytes_apply operation table
      have hrest := ih (operation.apply table)
      rw [applyAll_cons, historyBytes, Log.encodeAll_cons, List.length_append]
      omega

theorem historyBytes_append (first second : List Operation) (table : Table) :
    historyBytes (first ++ second) table =
      historyBytes first table + historyBytes second (applyAll first table) := by
  induction first generalizing table with
  | nil => exact (Nat.zero_add _).symm
  | cons operation rest ih =>
      rw [List.cons_append, historyBytes, historyBytes, ih, applyAll_cons, Nat.add_assoc]

/-- There is no history where entries are only put, each under a key of its own. -/
theorem historyBytes_eq_zero_iff {operations : List Operation} {table : Table} :
    historyBytes operations table = 0 ↔
      (∀ operation ∈ operations, ∃ key value, operation = .put key value ∧
        table.get? key = none) ∧ (operations.map key).Nodup := by
  induction operations generalizing table with
  | nil => simp [historyBytes]
  | cons operation rest ih =>
      rw [historyBytes, Nat.add_eq_zero_iff, ih, List.forall_mem_cons, List.map_cons,
        List.nodup_cons]
      cases operation with
      | delete key => simp [spent, length_encode]
      | put key value =>
          have hspent : (Operation.put key value).spent table = 0 ↔ table.get? key = none :=
            Table.heldRecord_eq_zero_iff
          rw [hspent]
          constructor
          · rintro ⟨habsent, hputs, hkeys⟩
            refine ⟨⟨⟨key, value, rfl, habsent⟩, ?_⟩, ?_, hkeys⟩
            · intro other hmem
              obtain ⟨later, held, rfl, hlater⟩ := hputs other hmem
              exact ⟨later, held, rfl, (Table.get?_insert_eq_none_iff.mp hlater).2⟩
            · intro hmem
              obtain ⟨other, hother, hsame⟩ := List.mem_map.mp hmem
              obtain ⟨later, held, rfl, hlater⟩ := hputs other hother
              exact (Table.get?_insert_eq_none_iff.mp hlater).1 hsame
          · rintro ⟨⟨⟨first, held, hput, habsent⟩, hputs⟩, hfresh, hkeys⟩
            obtain ⟨rfl, rfl⟩ := Operation.put.inj hput
            refine ⟨habsent, ?_, hkeys⟩
            intro other hmem
            obtain ⟨later, held, rfl, hlater⟩ := hputs other hmem
            have hne : later ≠ key := fun hsame => hfresh (List.mem_map.mpr ⟨_, hmem, hsame⟩)
            exact ⟨later, held, rfl, Table.get?_insert_eq_none_iff.mpr ⟨hne, hlater⟩⟩

theorem historyBytes_empty_eq_zero_iff {operations : List Operation} :
    historyBytes operations .empty = 0 ↔
      (∀ operation ∈ operations, ∃ key value, operation = .put key value) ∧
        (operations.map key).Nodup := by
  have habsent : ∀ key, Table.empty.get? key = none := fun _ => rfl
  simp only [historyBytes_eq_zero_iff, habsent, and_true]

/-- The records of the live entries are no history. -/
theorem historyBytes_liveRecords {table : Table} (h : table.Counted) :
    historyBytes (Log.liveRecords table) .empty = 0 := by
  have hbytes := recordBytes_applyAll (Log.liveRecords table) .empty
  rw [Log.applyAll_liveRecords h, Log.length_encodeAll_liveRecords] at hbytes
  have hempty : Table.empty.recordBytes = 0 := rfl
  unfold Table.recordBytes at hbytes hempty
  omega

end Operation

namespace Engine

open Operation (historyBytes)

variable {engine : Engine} {records : List Operation}

/-! ## Checkpoints that a change brings on -/

theorem Synced.logSize_eq (hsync : engine.Synced records) :
    engine.logSize = engine.compacted.logSize + historyBytes records .empty := by
  have hbytes := Operation.recordBytes_applyAll records .empty
  have hempty : Table.empty.recordBytes = 0 := rfl
  have hlive : engine.compacted.logSize = engine.table.recordBytes := engine.logSize_compacted
  rw [← hsync.table_eq, ← hlive, ← hsync.size_eq, hempty, Nat.zero_add] at hbytes
  exact hbytes.symm

/-- Where the history and thirteen bytes for each live entry are more than the keys and
values of these entries, a checkpoint of a long log is due. -/
theorem checkpointDue_iff_history (hsync : engine.Synced records) :
    engine.checkpointDue = true ↔
      engine.settings.checkpointBytes ≤ engine.logSize ∧
        Table.bytesOf engine.table.toList <
          historyBytes records .empty + 13 * engine.length := by
  have hsize := hsync.logSize_eq
  have hlive := engine.logSize_compacted
  rw [checkpointDue_iff hsync]
  omega

/-- The log has no history and is to be rewritten all the same. -/
structure Overrated (engine : Engine) : Prop where
  synced : ∃ records, engine.Synced records ∧ historyBytes records .empty = 0
  due : engine.checkpointDue = true

/-- Where a log without history is rewritten, the record of a short new entry brings it
to be rewritten again. -/
theorem Overrated.again (h : engine.Overrated) {key value : Bytes}
    (habsent : engine.get? key = none) (hentry : key.length + value.length ≤ 13) :
    (engine.compacted.logged (.put key value)).Overrated := by
  obtain ⟨⟨records, hsync, hhistory⟩, hdue⟩ := h
  obtain ⟨-, hlogged, -⟩ := append_of_calm hsync.compacted rfl (.put key value)
  refine ⟨⟨_, hlogged, ?_⟩, ?_⟩
  · rw [Operation.historyBytes_append, Operation.historyBytes_liveRecords hsync.counted,
      Log.applyAll_liveRecords hsync.counted, Nat.zero_add]
    exact Table.heldRecord_eq_zero_iff.mpr habsent
  · have hbytes : Table.bytesOf (engine.compacted.logged (.put key value)).table.toList =
        Table.bytesOf engine.table.toList + (key.length + value.length) :=
      Table.bytesOf_insert_of_absent value habsent
    have hlength : (engine.compacted.logged (.put key value)).length = engine.length + 1 :=
      Table.length_insert_of_absent value habsent
    have hsettings : (engine.compacted.logged (.put key value)).settings = engine.settings := rfl
    have hsize := hlogged.logSize_eq
    have hlive := (engine.compacted.logged (.put key value)).logSize_compacted
    obtain ⟨hlong, hoverhead⟩ := (checkpointDue_iff_history hsync).mp hdue
    have hbefore := hsync.logSize_eq
    have hbeforeLive := engine.logSize_compacted
    -- The entry adds no more to the live data than the thirteen bytes of its record outweigh.
    rw [checkpointDue_iff_history hlogged, hsettings]
    omega

/-- Put one after another, every one of these entries has the log rewritten. -/
def RewrittenByEach (engine : Engine) : List (Bytes × Bytes) → Prop
  | [] => True
  | entry :: rest =>
      engine.perform (.put entry.1 entry.2) =
          .ok (engine.logged (.put entry.1 entry.2)).compacted ∧
        (engine.logged (.put entry.1 entry.2)).compacted.RewrittenByEach rest

/-- Entries under different keys that are not there yet, none longer than thirteen bytes. -/
structure ShortNews (engine : Engine) (entries : List (Bytes × Bytes)) : Prop where
  absent : ∀ entry ∈ entries, engine.get? entry.1 = none
  short : ∀ entry ∈ entries, entry.1.length + entry.2.length ≤ 13
  distinct : (entries.map Prod.fst).Nodup

theorem ShortNews.rest {entry : Bytes × Bytes} {rest : List (Bytes × Bytes)}
    (h : engine.ShortNews (entry :: rest)) :
    (engine.compacted.logged (.put entry.1 entry.2)).ShortNews rest := by
  obtain ⟨hfresh, hdistinct⟩ := List.nodup_cons.mp h.distinct
  refine ⟨?_, fun other hmem => h.short other (List.mem_cons_of_mem _ hmem), hdistinct⟩
  intro other hmem
  have hne : other.1 ≠ entry.1 := fun hsame => hfresh (List.mem_map.mpr ⟨other, hmem, hsame⟩)
  have habsent : engine.get? other.1 = none := h.absent other (List.mem_cons_of_mem _ hmem)
  exact Table.get?_insert_eq_none_iff.mpr ⟨hne, habsent⟩

theorem Overrated.rewrittenByEach (h : engine.Overrated) {entries : List (Bytes × Bytes)}
    (hentries : engine.ShortNews entries) : engine.compacted.RewrittenByEach entries := by
  induction entries generalizing engine with
  | nil => trivial
  | cons entry rest ih =>
      obtain ⟨habsent, -⟩ := List.forall_mem_cons.mp hentries.absent
      obtain ⟨hshort, -⟩ := List.forall_mem_cons.mp hentries.short
      have hagain := h.again habsent hshort
      refine ⟨?_, ih hagain hentries.rest⟩
      obtain ⟨⟨_, hsync, -⟩, -⟩ := h
      change Except.ok (engine.compacted.commit (.put entry.1 entry.2)).2 = _
      rw [commit_of_calm hsync.compacted rfl, if_pos hagain.due]

/-- What holds of an engine whose log holds these records, when it sees whether a checkpoint
is due. -/
structure Weighed (engine : Engine) (records : List Operation) : Prop where
  synced : engine.Synced records
  /-- A checkpoint drops the history and keeps the records of the live entries. -/
  logSize_eq : engine.logSize = engine.compacted.logSize + historyBytes records .empty
  compacted_eq : engine.compacted.logSize =
    Table.bytesOf engine.table.toList + 13 * engine.length
  /-- There is no history as long as every record puts an entry under a key of its own. -/
  history_eq_zero_iff : historyBytes records .empty = 0 ↔
    (∀ operation ∈ records, ∃ key value, operation = .put key value) ∧
      (records.map Operation.key).Nodup
  due_iff : engine.checkpointDue = true ↔
    engine.settings.checkpointBytes ≤ engine.logSize ∧
      Table.bytesOf engine.table.toList < historyBytes records .empty + 13 * engine.length
  /-- Half of the log is left at most, apart from thirteen bytes for each live entry. -/
  nearly_halved : engine.checkpointDue = true →
    2 * engine.compacted.logSize < engine.logSize + 26 * engine.length
  halved : engine.checkpointDue = true →
    2 * engine.compacted.logSize < engine.settings.checkpointBytes →
    2 * engine.compacted.logSize < engine.logSize
  /-- If it had no history, then it is rewritten again for every short new entry. -/
  again : engine.checkpointDue = true → historyBytes records .empty = 0 →
    ∀ entries, engine.ShortNews entries → engine.compacted.RewrittenByEach entries

theorem Synced.weighed (hsync : engine.Synced records) : engine.Weighed records where
  synced := hsync
  logSize_eq := hsync.logSize_eq
  compacted_eq := engine.logSize_compacted
  history_eq_zero_iff := Operation.historyBytes_empty_eq_zero_iff
  due_iff := checkpointDue_iff_history hsync
  nearly_halved hdue := by
    have hlive := engine.logSize_compacted
    have hlong := ((checkpointDue_iff hsync).mp hdue).2
    omega
  halved hdue hsmall := by
    have hlong := ((checkpointDue_iff hsync).mp hdue).1
    omega
  again hdue hhistory _ hentries :=
    Overrated.rewrittenByEach ⟨⟨records, hsync, hhistory⟩, hdue⟩ hentries

/-- Whatever went before, a call that changes nothing leaves the log alone, and one that
changes an entry rewrites it exactly if the log is long and its history and thirteen bytes
for each live entry outweigh the keys and values of the live entries. -/
theorem automatic_checkpoints {settings : Settings} (hvalid : settings.validate = .ok ())
    {events : List Event} (hallowed : ∀ event ∈ events, event.Allowed) :
    ∃ engine, lifetime settings events = .ok engine ∧
      ∀ call : Call, call.Writes →
        (call.change? engine = none → engine.perform call = .ok engine) ∧
        ∀ operation, call.change? engine = some operation →
          ∃ records, (engine.logged operation).Weighed records ∧
            engine.perform call =
              .ok (if (engine.logged operation).checkpointDue
                then (engine.logged operation).compacted
                else engine.logged operation) := by
  obtain ⟨engine, hevents, ⟨⟨operations, hsync, -⟩, hcalm⟩⟩ := lifetime_sound hvalid hallowed
  refine ⟨engine, hevents, ?_⟩
  intro call hwrites
  refine ⟨perform_of_unchanged hwrites, ?_⟩
  intro operation hchange
  obtain ⟨-, hlogged, -⟩ := append_of_calm hsync hcalm operation
  refine ⟨_, hlogged.weighed, ?_⟩
  rw [perform_of_change? hchange, commit_of_calm hsync hcalm]

/-- The one entry is `[7]`, and a second record for it makes the log too long for its settings. -/
theorem due_twoCrashes :
    (lifetime .default twoCrashes).toOption.map
      (fun engine => ((engine.logged (.put [7] [3])).checkpointDue, engine.get? [8])) =
      some (true, none) := by decide +kernel

theorem automatic_checkpoints_twoCrashes :
    ∃ engine records, lifetime .default twoCrashes = .ok engine ∧
      (engine.logged (.put [7] [3])).Weighed records ∧
      engine.perform (.put [7] [3]) = .ok (engine.logged (.put [7] [3])).compacted ∧
      engine.perform (.delete [8]) = .ok engine := by
  have hvalid : Settings.default.validate = .ok () := rfl
  have hput : (Call.put [7] [3]).Writes := trivial
  have hdelete : (Call.delete [8]).Writes := trivial
  obtain ⟨engine, hevents, hcalls⟩ := automatic_checkpoints hvalid allowed_twoCrashes
  obtain ⟨records, hweighed, hperform⟩ := (hcalls (.put [7] [3]) hput).2 (.put [7] [3]) rfl
  have hheld := due_twoCrashes
  rw [hevents] at hheld
  obtain ⟨hdue, habsent⟩ := Prod.mk.inj (Option.some.inj hheld)
  rw [if_pos hdue] at hperform
  have hnone : (Call.delete [8]).change? engine = none := Option.map_eq_none_iff.mpr habsent
  exact ⟨engine, records, hevents, hweighed, hperform, (hcalls (.delete [8]) hdelete).1 hnone⟩

/-- Settings under which the log is rewritten from a length of thirty bytes on. -/
def thirtyBytes : Settings := ⟨1, 0, 30, false, false⟩

/-- A log of two records without any history is rewritten, and is not a byte shorter then. -/
theorem fresh_log_rewritten :
    ∃ engine records, lifetime thirtyBytes [.done (.put [98] [50])] = .ok engine ∧
      (engine.logged (.put [97] [49])).Synced records ∧ historyBytes records .empty = 0 ∧
      engine.perform (.put [97] [49]) = .ok (engine.logged (.put [97] [49])).compacted ∧
      ¬ 2 * (engine.logged (.put [97] [49])).compacted.logSize <
        (engine.logged (.put [97] [49])).logSize := by
  refine ⟨_, [.put [98] [50], .put [97] [49]], rfl, ⟨rfl, rfl, rfl, rfl⟩, rfl, rfl, ?_⟩
  decide

end Engine

end DocumentCache
