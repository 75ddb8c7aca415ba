import DocumentCache.Proofs.Journal.EngineSteps

/-!
# Logs of arbitrary bytes

A replay succeeds exactly on bytes that are whole records up to a torn tail, and it
counts the bytes of these records.  So whatever stands in the log, opening it either
refuses it and leaves it as it is, or cuts it down to its whole records; these replay
alike when they are read again, and records appended to them are replayed on top.  The
engine that was opened holds the table of these records.
-/

namespace DocumentCache

namespace Replay

open Operation

/-- A replay that succeeds has read whole records up to a torn tail. -/
theorem exists_records_of_continueWith {replay after : Replay} {bytes : Bytes}
    (h : replay.continueWith bytes = .ok after) :
    ∃ whole tail operations, bytes = whole ++ tail ∧ WholeRecords whole operations ∧
      Torn tail ∧ after = replay.advanceOver whole.length operations := by
  -- The loop refuses a record, meets a torn tail, or goes on behind a whole record.
  induction replay, bytes using continueWith.induct with
  | case1 replay bytes fault hread =>
      rw [continueWith_fault replay hread] at h
      cases h
  | case2 replay bytes htorn =>
      rw [continueWith_torn replay htorn] at h
      obtain rfl := Except.ok.inj h
      exact ⟨[], bytes, [], rfl, .nil, htorn, rfl⟩
  | case3 replay bytes operation rest hread ih =>
      obtain ⟨record, hrecord, rfl⟩ := read?_eq_some_iff.mp hread
      have hlength : (record ++ rest).length - rest.length = record.length := by
        rw [List.length_append]
        omega
      rw [hlength] at ih
      rw [continueWith_record replay hrecord] at h
      obtain ⟨whole, tail, operations, rfl, hwhole, htail, rfl⟩ := ih h
      refine ⟨record ++ whole, tail, operation :: operations, ?_, .cons hrecord hwhole,
        htail, ?_⟩
      · rw [List.append_assoc]
      · rw [List.length_append, advanceOver_cons]

/-- A log is replayed exactly when it is whole records and a torn tail. -/
theorem ofLog_eq_ok_iff {bytes : Bytes} {replay : Replay} :
    ofLog bytes = .ok replay ↔
      ∃ whole tail operations, bytes = whole ++ tail ∧ WholeRecords whole operations ∧
        Torn tail ∧ replay = start.advanceOver whole.length operations := by
  constructor
  · exact exists_records_of_continueWith
  · rintro ⟨whole, tail, operations, rfl, hwhole, htail, rfl⟩
    rw [ofLog, continueWith_records _ hwhole, continueWith_torn _ htail]

/-- What was replayed of a log is whole records, as many as were counted. -/
theorem exists_wholeRecords {bytes : Bytes} {replay : Replay} (h : ofLog bytes = .ok replay) :
    ∃ operations, WholeRecords (bytes.take replay.validBytes) operations ∧
      operations.length = replay.records ∧ replay.table = applyAll operations .empty ∧
      (bytes.take replay.validBytes).length = replay.validBytes := by
  obtain ⟨whole, tail, operations, rfl, hwhole, -, rfl⟩ := ofLog_eq_ok_iff.mp h
  have hvalid : (start.advanceOver whole.length operations).validBytes = whole.length :=
    Nat.zero_add _
  rw [hvalid, List.take_left]
  exact ⟨operations, hwhole, (Nat.zero_add _).symm, rfl, rfl⟩

end Replay

/-- What was recovered in a directory is the replay of its log. -/
theorem Log.exists_replay_of_recover {disk : Disk} {replay : Replay}
    (h : recover disk = .ok replay) :
    ∃ content, disk.HasLog content ∧ Replay.ofLog content = .ok replay := by
  have hlog : ∃ content, disk.HasLog content := by
    cases hfile : disk.log with
    | missing => exact ⟨[], .inr ⟨hfile, rfl⟩⟩
    | file content => exact ⟨content, .inl hfile⟩
    | directory =>
        simp only [recover, Disk.readLog, hfile] at h
        cases h
  obtain ⟨content, hlog⟩ := hlog
  rw [recover_of_hasLog hlog] at h
  cases hreplay : Replay.ofLog content with
  | error fault =>
      rw [hreplay, mapError_error] at h
      cases h
  | ok found =>
      rw [hreplay, mapError_ok] at h
      obtain rfl := Except.ok.inj h
      exact ⟨content, hlog, hreplay⟩

namespace Engine

/-! ## Engines that were opened -/

theorem validate_of_openOn {engine : Engine} {settings : Settings} {disk : Disk}
    (h : openOn settings disk = .ok engine) : settings.validate = .ok () := by
  cases hcheck : settings.validate with
  | ok => rfl
  | error error =>
      simp only [openOn, hcheck] at h
      cases h

theorem exists_replay_of_openOn {engine : Engine} {settings : Settings} {disk : Disk}
    (h : openOn settings disk = .ok engine) :
    ∃ content replay, disk.HasLog content ∧ Replay.ofLog content = .ok replay ∧
      engine.table = replay.table ∧
      engine.disk.log = .file (content.take replay.validBytes) ∧
      engine.log.attached = true ∧ (disk.fates = [] → engine.fates = []) := by
  have hvalid := validate_of_openOn h
  cases hrecover : Log.recover disk with
  | error error =>
      rw [openOn_of_recover_error hvalid hrecover] at h
      cases h
  | ok replay =>
      obtain ⟨content, hlog, hreplay⟩ := Log.exists_replay_of_recover hrecover
      rcases openOn_ends_of_replay hvalid hlog hreplay with
        ⟨opened, hopen, hcut, -, hattached, htable, -, hcalm⟩ | ⟨_, _, hopen, -, -⟩
      · obtain rfl := Except.ok.inj (hopen.symm.trans h)
        exact ⟨content, replay, hlog, hreplay, htable, hcut, hattached, hcalm⟩
      · rw [hopen] at h
        cases h

/-- An engine that was opened has the table of whole records. -/
theorem exists_wholeRecords_of_openOn {engine : Engine} {settings : Settings} {disk : Disk}
    (h : openOn settings disk = .ok engine) :
    ∃ bytes operations, Operation.WholeRecords bytes operations ∧
      engine.table = Operation.applyAll operations .empty := by
  obtain ⟨_, _, -, hreplay, htable, -⟩ := exists_replay_of_openOn h
  obtain ⟨operations, hwhole, -, hmade, -⟩ := Replay.exists_wholeRecords hreplay
  exact ⟨_, operations, hwhole, htable.trans hmade⟩

/-! ## Opening any log -/

/-- A log of one record and the beginning of another. -/
def halfWrittenLog : Bytes := Log.encodeAll [.put [7] [1]] ++ [1, 9, 0]

theorem recover_halfWrittenLog :
    Log.recover ⟨.file halfWrittenLog, none, []⟩ =
      .ok ⟨Table.empty.insert [7] [1], (Log.encodeAll [.put [7] [1]]).length, 1⟩ := by
  have hshort : Operation.AllShort [.put [7] [1]] := by
    simp [Operation.AllShort, Operation.Short, Operation.key, Operation.value, wordRange]
  have htorn : Operation.Torn [1, 9, 0] := Operation.torn_of_split?_eq_none rfl
  rw [Log.recover_of_hasLog (.inl rfl), halfWrittenLog,
    Replay.ofLog_encodeAll_append hshort htorn]
  rfl

end Engine

end DocumentCache
