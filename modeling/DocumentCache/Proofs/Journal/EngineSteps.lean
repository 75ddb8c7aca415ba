import DocumentCache.Journal.Engine
import DocumentCache.Proofs.Journal.FileActions
import DocumentCache.Proofs.Outcomes

/-!
# Engine and log in step

An engine is in step with its log when the log is a run of whole records that make
the table, and the handle knows its length.  Every writing call of such an engine
ends in one of two ways.  Done, it leaves an engine in step whose table is the one
wanted.  Failed, it leaves a log that records the table before the call or the one
wanted, apart from a torn tail, and opening such a log gives that table again.
-/

namespace DocumentCache

/-- The log records this table, apart from a torn tail. -/
def Disk.Records (disk : Disk) (table : Table) : Prop :=
  ∃ operations tail, disk.HasLog (Log.encodeAll operations ++ tail) ∧
    Operation.AllShort operations ∧ Operation.Torn tail ∧
    table = Operation.applyAll operations .empty

theorem Disk.records_of_log_eq {disk other : Disk} {table : Table} (h : disk.Records table)
    (heq : other.log = disk.log) : other.Records table := by
  obtain ⟨operations, tail, hlog, hrest⟩ := h
  exact ⟨operations, tail, Disk.hasLog_of_log_eq hlog heq, hrest⟩

theorem Disk.records_of_whole {disk : Disk} {operations : List Operation}
    (hlog : disk.HasLog (Log.encodeAll operations)) (hshort : Operation.AllShort operations) :
    disk.Records (Operation.applyAll operations .empty) := by
  refine ⟨operations, [], ?_, hshort, Operation.torn_nil, rfl⟩
  rwa [List.append_nil]

namespace Engine

def fates (engine : Engine) : List Fate := engine.disk.fates

/-- The log holds these records, the handle holds that log, and the table is what the
records make. -/
structure Synced (engine : Engine) (operations : List Operation) : Prop where
  log_eq : engine.disk.log = .file (Log.encodeAll operations)
  size_eq : engine.logSize = (Log.encodeAll operations).length
  attached_eq : engine.log.attached = true
  table_eq : engine.table = Operation.applyAll operations .empty

namespace Synced

variable {engine : Engine} {operations : List Operation}

theorem counted (hsync : engine.Synced operations) : engine.table.Counted := by
  rw [hsync.table_eq]
  exact Operation.counted_applyAll operations Table.counted_empty

theorem shortEntries (hsync : engine.Synced operations)
    (hshort : Operation.AllShort operations) : Operation.ShortEntries engine.table := by
  rw [hsync.table_eq]
  exact Operation.shortEntries_applyAll hshort Operation.shortEntries_empty

theorem records (hsync : engine.Synced operations) (hshort : Operation.AllShort operations) :
    engine.disk.Records engine.table := by
  rw [hsync.table_eq]
  exact Disk.records_of_whole (.inl hsync.log_eq) hshort

end Synced

/-- A log of the live entries records the table they are the entries of. -/
theorem records_of_liveRecords {disk : Disk} {table : Table} (hcounted : table.Counted)
    (hentries : Operation.ShortEntries table)
    (hlog : disk.log = .file (Log.encodeAll (Log.liveRecords table))) : disk.Records table := by
  have hrecords := Disk.records_of_whole (.inl hlog) (Log.allShort_liveRecords hentries)
  rwa [Log.applyAll_liveRecords hcounted] at hrecords

/-! ## Writing calls -/

/-- The two endings of a call that is to turn the table of an engine into `target`.
What it leaves when it fails is told for records that are all short enough. -/
def Turns (engine : Engine) (operations : List Operation) (target : Table) (short : Prop)
    (result : Except Error Unit × Engine) : Prop :=
  Ends Engine.fates engine result
    (fun _ after => after.table = target ∧ after.settings = engine.settings ∧
      ∃ records, after.Synced records ∧
        (Operation.AllShort operations → short → Operation.AllShort records))
    (fun after => Operation.AllShort operations → short →
      after.disk.Records engine.table ∨ after.disk.Records target)

/-- A checkpoint does not touch the table. -/
theorem table_maybeCheckpoint (engine : Engine) :
    engine.maybeCheckpoint.2.table = engine.table := by
  unfold maybeCheckpoint
  split <;> rfl

/-- A commit makes its change, or fails before it. -/
theorem table_commit (engine : Engine) (operation : Operation) :
    (engine.commit operation).2.table = operation.apply engine.table ∨
      (engine.commit operation).2.table = engine.table ∧
        (engine.commit operation).1 ≠ .ok () := by
  unfold commit
  split
  · exact .inr ⟨rfl, nofun⟩
  · exact .inl (table_maybeCheckpoint _)

/-- A call that has nothing to do. -/
theorem turns_of_same {engine : Engine} {operations : List Operation}
    (hsync : engine.Synced operations) {short : Prop} :
    engine.Turns operations engine.table short (.ok (), engine) :=
  .done () engine rfl ⟨rfl, rfl, operations, hsync, fun hshort _ => hshort⟩ id

theorem checkpoint_turns {engine : Engine} {operations : List Operation}
    (hsync : engine.Synced operations) (short : Prop) :
    engine.Turns operations engine.table short engine.checkpoint := by
  unfold checkpoint
  cases Log.rewrite_ends (.inl hsync.log_eq) engine.table with
  | done value log heq hdone hcalm =>
      simp only [heq]
      have htable := (Log.applyAll_liveRecords hsync.counted).symm
      refine .done value _ rfl ⟨rfl, rfl, _, ⟨hdone.1, hdone.2.1, hdone.2.2, htable⟩, ?_⟩ hcalm
      intro hshort _
      exact Log.allShort_liveRecords (hsync.shortEntries hshort)
  | failed error log heq hleft hfated =>
      simp only [heq]
      refine .failed error _ rfl ?_ hfated
      intro hshort _
      left
      rcases hleft.2 with ⟨hsame, -⟩ | ⟨hlive, -⟩
      · exact Disk.records_of_log_eq (hsync.records hshort) hsame
      · exact records_of_liveRecords hsync.counted (hsync.shortEntries hshort) hlive

theorem maybeCheckpoint_turns {engine : Engine} {operations : List Operation}
    (hsync : engine.Synced operations) (short : Prop) :
    engine.Turns operations engine.table short engine.maybeCheckpoint := by
  unfold maybeCheckpoint
  split
  · exact checkpoint_turns hsync short
  · exact turns_of_same hsync

/-- A record that is on disk and not yet in the table brings engine and log in step
once the table has changed. -/
theorem synced_of_append {engine : Engine} {operations : List Operation}
    (hsync : engine.Synced operations) {operation : Operation} {log : Log}
    (hlog : log.disk.log = .file (Log.encodeAll operations ++ operation.encode))
    (hsize : log.size = engine.log.size + operation.encode.length)
    (hattached : log.attached = true) :
    Synced { engine with log, table := operation.apply engine.table }
      (operations ++ [operation]) where
  log_eq := by
    rw [Log.encodeAll_concat]
    exact hlog
  size_eq := by
    have hbefore : engine.log.size = (Log.encodeAll operations).length := hsync.size_eq
    rw [Log.encodeAll_concat, List.length_append, ← hbefore]
    exact hsize
  attached_eq := hattached
  table_eq := by
    rw [Operation.applyAll_append, ← hsync.table_eq]
    rfl

/-- A part of a record behind whole ones records the table before or after it. -/
theorem records_of_part {disk : Disk} {operations : List Operation} {operation : Operation}
    {table : Table} (hshort : Operation.AllShort operations) (hlast : operation.Short)
    (htable : table = Operation.applyAll operations .empty) {count : Nat}
    (hlog : disk.log = .file (Log.encodeAll operations ++ operation.encode.take count)) :
    disk.Records table ∨ disk.Records (operation.apply table) := by
  by_cases hcount : count < operation.encode.length
  · left
    exact ⟨operations, _, .inl hlog, hshort, Operation.torn_take_encode hlast hcount, htable⟩
  · right
    rw [List.take_of_length_le (Nat.le_of_not_lt hcount), ← Log.encodeAll_concat] at hlog
    have hrecords :=
      Disk.records_of_whole (.inl hlog) (Operation.allShort_concat hshort hlast)
    rwa [Operation.applyAll_append, ← htable] at hrecords

theorem commit_turns {engine : Engine} {operations : List Operation}
    (hsync : engine.Synced operations) (operation : Operation) :
    engine.Turns operations (operation.apply engine.table) operation.Short
      (engine.commit operation) := by
  unfold commit
  cases Log.append_ends hsync.log_eq hsync.attached_eq operation with
  | failed error log heq hleft hfated =>
      simp only [heq]
      obtain ⟨-, -, count, hlog⟩ := hleft
      refine .failed error _ rfl ?_ hfated
      intro hshort hlast
      exact records_of_part hshort hlast hsync.table_eq hlog
  | done value log heq hdone hcalm =>
      simp only [heq]
      have happended := synced_of_append hsync hdone.1 hdone.2.1 hdone.2.2
      refine (maybeCheckpoint_turns happended True).follow hcalm ?_ ?_
      · rintro _ after ⟨htable, hsettings, records, hafter, hrecords⟩
        refine ⟨htable, hsettings, records, hafter, ?_⟩
        intro hshort hlast
        exact hrecords (Operation.allShort_concat hshort hlast) trivial
      · intro after hleft hshort hlast
        have hrecords := hleft (Operation.allShort_concat hshort hlast) trivial
        right
        exact hrecords.elim id id

theorem put_turns {engine : Engine} {operations : List Operation}
    (hsync : engine.Synced operations) (key value : Bytes) :
    engine.Turns operations (engine.table.insert key value) (Operation.put key value).Short
      (engine.put key value) :=
  commit_turns hsync (.put key value)

/-- A key that is there to be deleted is short enough. -/
theorem short_delete_of_get? {table : Table} (hentries : Operation.ShortEntries table)
    {key value : Bytes} (hget : table.get? key = some value) : (Operation.delete key).Short := by
  have hkey := hentries (key, value) (OrderedMap.get?_eq_some_iff.mp hget)
  have hempty : ([] : Bytes).length < wordRange 4 := by decide
  exact ⟨hkey.1, hempty⟩

theorem delete_turns {engine : Engine} {operations : List Operation}
    (hsync : engine.Synced operations) (key : Bytes) :
    engine.Turns operations (engine.table.erase key) True (engine.delete key) := by
  unfold delete get?
  cases hget : engine.table.get? key with
  | none =>
      rw [Table.erase_of_get?_eq_none hget]
      exact turns_of_same hsync
  | some value =>
      have hkey : Operation.AllShort operations → (Operation.delete key).Short := by
        intro hshort
        exact short_delete_of_get? (hsync.shortEntries hshort) hget
      refine (commit_turns hsync (.delete key)).follow id ?_ ?_
      · rintro _ after ⟨htable, hsettings, records, hafter, hrecords⟩
        refine ⟨htable, hsettings, records, hafter, ?_⟩
        intro hshort _
        exact hrecords hshort (hkey hshort)
      · intro after hleft hshort _
        exact hleft hshort (hkey hshort)

/-! ## Opening -/

/-- A log that cannot be replayed is refused and stays as it is. -/
theorem openOn_of_recover_error {settings : Settings} (hvalid : settings.validate = .ok ())
    {disk : Disk} {error : Error} (hrecover : Log.recover disk = .error error) :
    openOn settings disk = .error (error, disk) := by
  simp only [openOn, hvalid, hrecover]

/-- Opening a log cuts it down to what was replayed of it and takes over the table. -/
theorem openOn_ends_of_replay {settings : Settings} (hvalid : settings.validate = .ok ())
    {disk : Disk} {content : Bytes} (hlog : disk.HasLog content) {replay : Replay}
    (hreplay : Replay.ofLog content = .ok replay) :
    (∃ engine, openOn settings disk = .ok engine ∧
        engine.disk.log = .file (content.take replay.validBytes) ∧
        engine.logSize = (content.take replay.validBytes).length ∧
        engine.log.attached = true ∧ engine.table = replay.table ∧ engine.settings = settings ∧
        (disk.fates = [] → engine.fates = [])) ∨
      ∃ error after, openOn settings disk = .error (error, after) ∧
        (after.log = disk.log ∨ after.HasLog (content.take replay.validBytes)) ∧
        disk.fates ≠ [] := by
  have hrecover := Log.recover_of_hasLog hlog
  rw [hreplay] at hrecover
  simp only [openOn, hvalid, hrecover, mapError_ok]
  cases Log.cutTornTail_ends hlog replay.validBytes with
  | failed error after heq hleft hfated =>
      simp only [heq]
      exact .inr ⟨error, after, rfl, hleft.imp_right .inl, hfated⟩
  | done value cut heq hcut hcalm =>
      simp only [heq, Log.openOn]
      cases Disk.openLog_ends hcut with
      | failed error after hopen hleft hfated =>
          simp only [hopen]
          exact .inr ⟨error, after, rfl, .inr (Disk.hasLog_of_log_eq hcut hleft),
            fun h => hfated (hcalm h)⟩
      | done size after hopen hafter hstill =>
          simp only [hopen]
          exact .inl ⟨_, rfl, hafter.1, hafter.2, rfl, rfl, rfl, fun h => hstill (hcalm h)⟩

/-- Opening a log cuts it down to its whole records and makes their table. -/
theorem openOn_ends {settings : Settings} (hvalid : settings.validate = .ok ()) {disk : Disk}
    {operations : List Operation} {tail : Bytes}
    (hlog : disk.HasLog (Log.encodeAll operations ++ tail))
    (hshort : Operation.AllShort operations) (htail : Operation.Torn tail) :
    (∃ engine, openOn settings disk = .ok engine ∧ engine.Synced operations ∧
        engine.settings = settings ∧ (disk.fates = [] → engine.fates = [])) ∨
      ∃ error after, openOn settings disk = .error (error, after) ∧
        after.Records (Operation.applyAll operations .empty) ∧ disk.fates ≠ [] := by
  have hbefore : disk.Records (Operation.applyAll operations .empty) :=
    ⟨operations, tail, hlog, hshort, htail, rfl⟩
  have hends := openOn_ends_of_replay hvalid hlog (Replay.ofLog_encodeAll_append hshort htail)
  simp only [List.take_left] at hends
  rcases hends with
    ⟨engine, hopen, hafter, hsize, hattached, htable, hsettings, hcalm⟩ |
    ⟨error, after, hopen, hleft, hfated⟩
  · exact .inl ⟨engine, hopen, ⟨hafter, hsize, hattached, htable⟩, hsettings, hcalm⟩
  · refine .inr ⟨error, after, hopen, ?_, hfated⟩
    rcases hleft with hsame | hcut
    · exact Disk.records_of_log_eq hbefore hsame
    · exact Disk.records_of_whole hcut hshort

end Engine

end DocumentCache
