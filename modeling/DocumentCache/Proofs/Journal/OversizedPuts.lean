import DocumentCache.Proofs.Journal.ArbitraryLogs
import DocumentCache.Proofs.Journal.CanonicalLogs
import DocumentCache.Proofs.Journal.ChangedBytes

/-!
# Entries that are too long for a record

A record says the lengths of its key and of its value in four bytes each.  What is
written of a longer length is its residue, and nothing refuses the put: it succeeds,
it is made in the table and its record goes to the log.  A record that is read back
has the lengths it says, so an opened engine never holds such an entry, and a record
whose value is too long is cut in its middle: the bytes behind the cut are taken for
its checksum and, unless they happen to be right, the whole log is refused.
-/

namespace DocumentCache

/-- Writing a number keeps its residue and nothing else. -/
theorem littleEndian_mod (width n : Nat) :
    littleEndian width (n % wordRange width) = littleEndian width n := by
  have hagain := littleEndian_littleEndianValue (littleEndian width n)
  rwa [littleEndian_length, littleEndianValue_littleEndian] at hagain

namespace Operation

/-! ## What is read is short -/

theorem WholeRecord.short {record : Bytes} {operation : Operation}
    (h : WholeRecord record operation) : operation.Short := by
  cases h with
  | put hkey hvalue => exact ⟨hkey, hvalue⟩
  | delete hkey hvalue => exact ⟨hkey, Nat.zero_lt_of_lt hvalue⟩

theorem WholeRecords.allShort {bytes : Bytes} {operations : List Operation}
    (h : WholeRecords bytes operations) : AllShort operations := by
  induction h with
  | nil => exact List.forall_mem_nil _
  | cons hfirst _ ih => exact List.forall_mem_cons.mpr ⟨hfirst.short, ih⟩

/-! ## Where a record is cut -/

/-- The length that a record says its value has. -/
def saidLength (value : Bytes) : Nat := value.length % wordRange 4

theorem saidLength_lt (value : Bytes) : saidLength value < wordRange 4 :=
  Nat.mod_lt _ (by decide)

/-- Of a length that is too long a whole round is lost at least. -/
theorem saidLength_add_le {value : Bytes} (hvalue : wordRange 4 ≤ value.length) :
    saidLength value + wordRange 4 ≤ value.length := by
  have hwhole := Nat.mod_add_div value.length (wordRange 4)
  have hround : 1 ≤ value.length / wordRange 4 := Nat.div_pos hvalue (by decide)
  have hmany := Nat.mul_le_mul_left (wordRange 4) hround
  unfold saidLength
  omega

/-- The four bytes behind the value, as long as it is said to be, are no checksum of the
record up to there. -/
def CutWrong (key value : Bytes) : Prop :=
  Checksum.trailer (contentOf 1 key (value.take (saidLength value))) ≠
    (value.drop (saidLength value)).take 4

/-- Where the record says that the value is empty, the checksum is looked for at its beginning. -/
theorem cutWrong_iff_of_said_empty {key value : Bytes} (h : saidLength value = 0) :
    CutWrong key value ↔ Checksum.trailer (contentOf 1 key []) ≠ value.take 4 := by
  rw [CutWrong, h, List.take_zero, List.drop_zero]

/-- The frame that is found in the record of a put whose value is too long. -/
def cutFrame (key value rest : Bytes) : Frame where
  kind := 1
  key := key
  value := value.take (saidLength value)
  content := contentOf 1 key (value.take (saidLength value))
  checksum := (value.drop (saidLength value)).take 4
  rest := (value.drop (saidLength value)).drop 4 ++
    (Checksum.trailer (Operation.put key value).content ++ rest)

theorem split?_encode_of_long {key value : Bytes} (hkey : key.length < wordRange 4)
    (hvalue : wordRange 4 ≤ value.length) (rest : Bytes) :
    Frame.split? ((Operation.put key value).encode ++ rest) = some (cutFrame key value rest) := by
  have hbehind := saidLength_add_le hvalue
  have hfour : 4 ≤ wordRange 4 := by decide
  have htake : (value.take (saidLength value)).length = saidLength value :=
    List.length_take_of_le (by omega)
  -- The cut moves no byte: the value is what stands before it, four bytes and the rest.
  have hparts : value.take (saidLength value) ++ ((value.drop (saidLength value)).take 4 ++
      (value.drop (saidLength value)).drop 4) = value := by
    rw [List.take_append_drop, List.take_append_drop]
  have hlength : littleEndian 4 (saidLength value) = littleEndian 4 value.length :=
    littleEndian_mod 4 value.length
  rw [Frame.split?_eq_some_iff]
  refine ⟨hkey, ?_, rfl, ?_, ?_⟩
  · exact htake.symm ▸ saidLength_lt value
  · simp only [cutFrame, List.length_take, List.length_drop]
    omega
  · have hcontent : (Operation.put key value).content =
        contentOf 1 key (value.take (saidLength value)) ++
          ((value.drop (saidLength value)).take 4 ++ (value.drop (saidLength value)).drop 4) := by
      simp only [content, kind, Operation.key, Operation.value, contentOf, htake, hlength,
        List.cons_append, List.append_assoc, hparts]
    simp only [cutFrame, encode, List.append_assoc]
    rw [hcontent]
    simp only [List.append_assoc]

theorem badChecksum_encode_of_long {key value : Bytes} (hkey : key.length < wordRange 4)
    (hvalue : wordRange 4 ≤ value.length) (hcut : CutWrong key value) (rest : Bytes) :
    BadChecksum ((Operation.put key value).encode ++ rest) :=
  ⟨_, split?_encode_of_long hkey hvalue rest, hcut⟩

end Operation

namespace Log

/-- The records of a table with one more entry hold that of the entry behind records of
other entries of the table. -/
theorem exists_liveRecords_insert (table : Table) (key value : Bytes) :
    ∃ front back, liveRecords (table.insert key value) = front ++ .put key value :: back ∧
      ∀ operation ∈ front, operation ∈ liveRecords table := by
  have hhere : Operation.put key value ∈ liveRecords (table.insert key value) := by
    have hentry : (key, value) ∈ (table.insert key value).toList :=
      OrderedMap.get?_eq_some_iff.mp (OrderedMap.get?_insert_self ..)
    exact List.mem_map.mpr ⟨_, hentry, rfl⟩
  obtain ⟨front, back, hsplit, hfresh⟩ := List.eq_append_cons_of_mem hhere
  refine ⟨front, back, hsplit, ?_⟩
  intro operation hmem
  have hall : operation ∈ liveRecords (table.insert key value) := by
    rw [hsplit]
    exact List.mem_append_left _ hmem
  obtain ⟨entry, hentry, rfl⟩ := List.mem_map.mp hall
  rcases OrderedMap.mem_insertEntry hentry with rfl | hold
  · exact absurd hmem hfresh
  · exact List.mem_map.mpr ⟨entry, hold, rfl⟩

end Log

namespace Engine

variable {engine after : Engine} {content key value : Bytes}

/-! ## What an opened engine holds -/

/-- Whatever stands in a directory, an engine opened on it holds short entries only. -/
theorem shortEntries_of_openOn {settings : Settings} {disk : Disk}
    (h : openOn settings disk = .ok engine) : Operation.ShortEntries engine.table := by
  obtain ⟨_, operations, hwhole, hmade⟩ := exists_wholeRecords_of_openOn h
  rw [hmade]
  exact Operation.shortEntries_applyAll hwhole.allShort Operation.shortEntries_empty

theorem short_of_get?_openOn {settings : Settings} {disk : Disk}
    (h : openOn settings disk = .ok engine) (hget : engine.get? key = some value) :
    (Operation.put key value).Short :=
  shortEntries_of_openOn h _ (OrderedMap.get?_eq_some_iff.mp hget)

/-! ## Calls of any size -/

/-- The log is a file that the handle holds, and nothing is going to fail. -/
structure Quiet (engine : Engine) : Prop where
  filed : ∃ content, engine.disk.log = .file content
  attached : engine.log.attached = true
  calm : engine.fates = []

theorem Quiet.checkpoint_ok (h : engine.Quiet) :
    ∃ after, engine.checkpoint = (.ok (), after) ∧ after.table = engine.table ∧
      after.disk.log = .file (Log.encodeAll (Log.liveRecords engine.table)) ∧ after.Quiet := by
  obtain ⟨⟨content, hlog⟩, -, hcalm⟩ := h
  refine ⟨{ engine with log := engine.log.compacted engine.table }, ?_, rfl, rfl, ⟨_, rfl⟩,
    rfl, rfl⟩
  rw [checkpoint, Log.rewrite_of_calm hlog hcalm]

/-- A change is logged and made, whatever its size; a checkpoint may follow. -/
theorem Quiet.commit_ok (h : engine.Quiet) (hlog : engine.disk.log = .file content)
    (operation : Operation) :
    ∃ after, engine.commit operation = (.ok (), after) ∧
      after.table = operation.apply engine.table ∧
      (after.disk.log = .file (content ++ operation.encode) ∨
        after.disk.log = .file (Log.encodeAll (Log.liveRecords after.table))) ∧
      after.Quiet := by
  obtain ⟨_, log, happend, ⟨hgrown, -, hattached⟩, hstill⟩ :=
    (Log.append_ends hlog h.attached operation).of_calm h.calm
  simp only [commit, happend, maybeCheckpoint]
  have hquiet : Quiet { engine with log, table := operation.apply engine.table } :=
    ⟨⟨_, hgrown⟩, hattached, hstill⟩
  split
  · obtain ⟨after, hcheckpoint, htable, hlive, hafter⟩ := hquiet.checkpoint_ok
    refine ⟨after, hcheckpoint, htable, .inr ?_, hafter⟩
    rw [hlive, htable]
  · exact ⟨_, rfl, rfl, .inl hgrown, hquiet⟩

theorem Quiet.commit (h : engine.Quiet) (operation : Operation) :
    (engine.commit operation).2.Quiet := by
  obtain ⟨content, hlog⟩ := h.filed
  obtain ⟨after, hcommit, -, -, hafter⟩ := h.commit_ok hlog operation
  rwa [hcommit]

theorem quiet_of_openOn {settings : Settings} {disk : Disk}
    (h : openOn settings disk = .ok engine) (hcalm : disk.fates = []) : engine.Quiet := by
  obtain ⟨_, _, -, -, -, hcut, hattached, hstill⟩ := exists_replay_of_openOn h
  exact ⟨⟨_, hcut⟩, hattached, hstill hcalm⟩

theorem Quiet.perform (h : engine.Quiet) {call : Call} (hcall : engine.perform call = .ok after) :
    after.Quiet := by
  rcases perform_cases hcall with rfl | ⟨operation, rfl⟩ | rfl | ⟨settings, hopen⟩
  · exact h
  · exact h.commit operation
  · obtain ⟨after, hcheckpoint, -, -, hafter⟩ := h.checkpoint_ok
    rwa [hcheckpoint]
  · exact quiet_of_openOn hopen h.calm

theorem Quiet.performAll (h : engine.Quiet) {calls : List Call}
    (hcalls : engine.performAll calls = .ok after) : after.Quiet := by
  induction calls generalizing engine with
  | nil =>
      obtain rfl := Except.ok.inj hcalls
      exact h
  | cons call rest ih =>
      simp only [Engine.performAll] at hcalls
      cases hfirst : engine.perform call with
      | error failure =>
          rw [hfirst] at hcalls
          cases hcalls
      | ok middle =>
          rw [hfirst] at hcalls
          exact ih (h.perform hfirst) hcalls

theorem exists_openOn_of_history {settings : Settings} {calls : List Call}
    (h : history settings calls = .ok engine) :
    ∃ opened, openOn settings .empty = .ok opened ∧ opened.performAll calls = .ok engine := by
  unfold history at h
  cases hopen : openOn settings .empty with
  | error failure =>
      rw [hopen] at h
      cases h
  | ok opened =>
      rw [hopen] at h
      exact ⟨opened, rfl, h⟩

theorem quiet_history {settings : Settings} {calls : List Call}
    (h : history settings calls = .ok engine) : engine.Quiet := by
  obtain ⟨opened, hopen, hcalls⟩ := exists_openOn_of_history h
  exact (quiet_of_openOn hopen rfl).performAll hcalls

/-- After allowed calls the engine is in step with its log. -/
theorem sound_of_history {settings : Settings} {calls : List Call}
    (h : history settings calls = .ok engine) (hallowed : ∀ call ∈ calls, call.Allowed) :
    engine.Sound := by
  obtain ⟨opened, hopen, -⟩ := exists_openOn_of_history h
  obtain ⟨same, hsame, hsound, -⟩ := history_sound (validate_of_openOn hopen) hallowed
  obtain rfl := Except.ok.inj (hsame.symm.trans h)
  exact hsound

/-! ## Puts of any size -/

/-- What a put leaves of a log in step holds its record behind short ones. -/
theorem Sound.exists_record (hsound : engine.Sound) (hlog : engine.disk.log = .file content)
    (htable : after.table = engine.table.insert key value)
    (hlogged : after.disk.log = .file (content ++ (Operation.put key value).encode) ∨
      after.disk.log = .file (Log.encodeAll (Log.liveRecords after.table))) :
    ∃ operations rest, Operation.AllShort operations ∧ after.disk.log =
      .file (Log.encodeAll operations ++ ((Operation.put key value).encode ++ rest)) := by
  obtain ⟨⟨operations, hsync, hshort⟩, -⟩ := hsound
  rcases hlogged with hgrown | hlive
  · obtain rfl := LogFile.file.inj (hlog.symm.trans hsync.log_eq)
    refine ⟨operations, [], hshort, ?_⟩
    rw [List.append_nil]
    exact hgrown
  · obtain ⟨front, back, hsplit, hfront⟩ :=
      Log.exists_liveRecords_insert engine.table key value
    have hentries := Log.allShort_liveRecords (hsync.shortEntries hshort)
    refine ⟨front, Log.encodeAll back, fun operation hmem => hentries _ (hfront _ hmem), ?_⟩
    rw [hlive, htable, hsplit, Log.encodeAll_append, Log.encodeAll_cons]

/-- A put of any size and what becomes of it. -/
structure TakesPut (engine : Engine) (key value : Bytes) (after : Engine) : Prop where
  /-- The put is not refused, and it is made. -/
  put_eq : engine.put key value = (.ok (), after)
  table_eq : after.table = engine.table.insert key value
  /-- Its record goes to the log, which may be rewritten then. -/
  logged : ∃ content, engine.disk.log = .file content ∧
    (after.disk.log = .file (content ++ (Operation.put key value).encode) ∨
      after.disk.log = .file (Log.encodeAll (Log.liveRecords after.table)))
  /-- A put that is short enough is there for good: allowed calls that follow succeed, and
  so does opening the directory behind them, which shows what they made of the table. -/
  kept : engine.Sound → (Operation.put key value).Short →
    ∀ later : List Call, (∀ call ∈ later, call.Allowed) →
      ∀ next : Settings, next.validate = .ok () →
        ∃ last reopened, after.performAll later = .ok last ∧
          openOn next last.disk = .ok reopened ∧
          reopened.table = later.foldl (fun table call => call.effect table) after.table
  /-- No directory opens to an engine that shows a put which is too long. -/
  lost : ¬ (Operation.put key value).Short →
    ∀ (next : Settings) (disk : Disk) (reopened : Engine),
      openOn next disk = .ok reopened → reopened.get? key ≠ some value
  /-- A value that is too long refuses the log, unless the cut happens to be right. -/
  refused : engine.Sound → key.length < wordRange 4 → wordRange 4 ≤ value.length →
    Operation.CutWrong key value →
      ∀ next : Settings, next.validate = .ok () →
        openOn next after.disk = .error (.recoveryFailed .recordChecksum, after.disk)

theorem Quiet.takesPut (h : engine.Quiet) (key value : Bytes) :
    ∃ after, engine.TakesPut key value after ∧ after.Quiet := by
  obtain ⟨content, hlog⟩ := h.filed
  obtain ⟨after, hput, htable, hlogged, hafter⟩ := h.commit_ok hlog (.put key value)
  refine ⟨after, ⟨hput, htable, ⟨content, hlog, hlogged⟩, ?_, ?_, ?_⟩, hafter⟩
  · rintro ⟨⟨operations, hsync, hbefore⟩, hcalm⟩ hshort later hlater next hnext
    have hturn := (put_turns hsync key value).sound hbefore hshort hcalm
    rw [show engine.put key value = (.ok (), after) from hput] at hturn
    obtain ⟨last, _, reopened, hlast, -, -, hopen, hmade⟩ := hturn.2.1.goes_on hlater hnext
    exact ⟨last, reopened, hlast, hopen, hmade⟩
  · intro hlong next disk reopened hopen hget
    exact hlong (short_of_get?_openOn hopen hget)
  · intro hsound hkey hvalue hcut next hnext
    obtain ⟨operations, rest, hshort, hbytes⟩ := hsound.exists_record hlog htable hlogged
    have hbad := Operation.badChecksum_encode_of_long hkey hvalue hcut rest
    have hrecover : Log.recover after.disk = .error (.recoveryFailed .recordChecksum) := by
      rw [Log.recover_of_hasLog (.inl hbytes), Replay.ofLog_badChecksum hshort hbad]
      rfl
    exact openOn_of_recover_error hnext hrecover

/-- After every history a put of any size succeeds.  It is there when the directory is opened
again if it is short enough, as all calls before it were, and never if it is not. -/
theorem put_of_any_size {settings : Settings} {calls : List Call}
    (hreached : history settings calls = .ok engine) (key value : Bytes) :
    ((∀ call ∈ calls, call.Allowed) → engine.Sound) ∧
      ∃ after, engine.TakesPut key value after := by
  obtain ⟨after, htakes, -⟩ := (quiet_history hreached).takesPut key value
  exact ⟨sound_of_history hreached, after, htakes⟩

/-- One short put. -/
def onePut : List Call := [.put [7] [1]]

theorem allowed_onePut : ∀ call ∈ onePut, call.Allowed := by
  simp [onePut, Call.Allowed, Operation.Short, wordRange, Operation.key, Operation.value]

/-- A value of this many zeros. -/
def zeros (count : Nat) : Bytes := List.replicate count 0

theorem not_short_zeros : ¬ (Operation.put [] (zeros (wordRange 4))).Short := by
  rintro ⟨-, hvalue⟩
  rw [Operation.value, zeros, List.length_replicate] at hvalue
  exact Nat.lt_irrefl _ hvalue

/-- The record says that the value is empty; the zeros behind that are no checksum of it. -/
theorem cutWrong_zeros : Operation.CutWrong [] (zeros (wordRange 4)) := by
  have hsaid : Operation.saidLength (zeros (wordRange 4)) = 0 := by
    rw [Operation.saidLength, zeros, List.length_replicate, Nat.mod_self]
  have hbehind : (zeros (wordRange 4)).take 4 = [0, 0, 0, 0] := by
    rw [zeros, List.take_replicate]
    rfl
  rw [Operation.cutWrong_iff_of_said_empty hsaid, hbehind]
  decide +kernel

theorem put_of_any_size_zeros :
    ∃ engine long short reopened, history .default onePut = .ok engine ∧
      engine.put [] (zeros (wordRange 4)) = (.ok (), long) ∧
      long.get? [] = some (zeros (wordRange 4)) ∧
      (∀ next disk reopened, openOn next disk = .ok reopened →
        reopened.get? [] ≠ some (zeros (wordRange 4))) ∧
      engine.put [] [2] = (.ok (), short) ∧
      openOn .default short.disk = .ok reopened ∧ reopened.get? [] = some [2] := by
  have hvalid : Settings.default.validate = .ok () := rfl
  have hshort : (Operation.put [] [2]).Short := by
    simp [Operation.Short, wordRange, Operation.key, Operation.value]
  obtain ⟨engine, hreached, -, -⟩ := history_sound hvalid allowed_onePut
  obtain ⟨-, long, hlong⟩ := put_of_any_size hreached [] (zeros (wordRange 4))
  obtain ⟨hsound, short, hplain⟩ := put_of_any_size hreached [] [2]
  obtain ⟨last, reopened, hlast, hopen, htable⟩ :=
    hplain.kept (hsound allowed_onePut) hshort [] (List.forall_mem_nil _) .default hvalid
  obtain rfl := Except.ok.inj hlast
  refine ⟨engine, long, short, reopened, hreached, hlong.put_eq, ?_, hlong.lost not_short_zeros,
    hplain.put_eq, hopen, ?_⟩
  · rw [get?, hlong.table_eq, Table.get?_insert, if_pos rfl]
  · rw [get?, htable, List.foldl_nil, hplain.table_eq, Table.get?_insert, if_pos rfl]

/-- A put of a value that is one byte too long succeeds and changes table and log, and the
directory, which could be opened before, is refused from then on. -/
theorem long_put_refuses_log :
    ∃ engine after, history .default onePut = .ok engine ∧
      (zeros (wordRange 4)).length = wordRange 4 ∧
      engine.put [] (zeros (wordRange 4)) = (.ok (), after) ∧
      after.table ≠ engine.table ∧ after.disk.log ≠ engine.disk.log ∧
      (∃ reopened, openOn .default engine.disk = .ok reopened ∧ reopened.Alike engine) ∧
      openOn .default after.disk = .error (.recoveryFailed .recordChecksum, after.disk) := by
  have hvalid : Settings.default.validate = .ok () := rfl
  have hlength : (zeros (wordRange 4)).length = wordRange 4 := List.length_replicate
  obtain ⟨engine, hreached, hsound, htable⟩ := history_sound hvalid allowed_onePut
  obtain ⟨after, htakes, hquiet⟩ := (quiet_history hreached).takesPut [] (zeros (wordRange 4))
  have hrefused := htakes.refused hsound (by decide) (Nat.le_of_eq hlength.symm)
    cutWrong_zeros .default hvalid
  obtain ⟨⟨operations, hsync, hshort⟩, hcalm⟩ := hsound
  have hrecords := hsync.records hshort
  obtain ⟨reopened, hopen, -, hagain⟩ := openOn_sound hvalid hrecords hcalm
  refine ⟨engine, after, hreached, hlength, htakes.put_eq, ?_, ?_,
    ⟨reopened, hopen, alike_of_table_eq hagain⟩, hrefused⟩
  · intro hsame
    have hnone : engine.table.get? [] = none := by
      rw [htable]
      decide
    rw [← hsame, htakes.table_eq, Table.get?_insert, if_pos rfl] at hnone
    cases hnone
  · intro hsame
    obtain ⟨_, hopened, -, -⟩ :=
      openOn_sound hvalid (Disk.records_of_log_eq hrecords hsame) hquiet.calm
    rw [hrefused] at hopened
    cases hopened

end Engine

end DocumentCache
