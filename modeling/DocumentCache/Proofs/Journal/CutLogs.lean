import DocumentCache.Proofs.Journal.EngineSteps

/-!
# Logs cut short

What is left of a log that was cut at its end are whole records and a part of the next
one.  That part is torn, whatever bytes stand in it, since a record is not read before its
last byte is there.  So the changes that are made by replaying are those of the records
that are left whole, and no others.
-/

namespace DocumentCache

namespace Operation

/-- The bytes are nothing or the beginning of the first of these changes' records, without
its end. -/
inductive Beginning : Bytes → List Operation → Prop where
  | nothing {operations : List Operation} : Beginning [] operations
  | part {operation : Operation} {rest : List Operation} {count : Nat}
      (hcount : count < operation.encode.length) :
      Beginning (operation.encode.take count) (operation :: rest)

theorem Beginning.torn {tail : Bytes} {operations : List Operation} (h : Beginning tail operations)
    (hshort : AllShort operations) : Torn tail := by
  cases h with
  | nothing => exact torn_nil
  | part hcount => exact torn_take_encode (hshort _ (List.mem_cons_self ..)) hcount

theorem length_encode_pos (operation : Operation) : 0 < operation.encode.length := by
  rw [encode, List.length_append, Checksum.trailer_length]
  omega

/-- What is there of a record is shorter than the record, and so than any run of records. -/
theorem Beginning.length_lt {tail : Bytes} {operations : List Operation}
    (h : Beginning tail operations) {count : Nat} (hcount : 0 < count)
    (hle : count ≤ operations.length) :
    tail.length < (Log.encodeAll (operations.take count)).length := by
  cases operations with
  | nil => exact absurd hcount (Nat.not_lt.mpr hle)
  | cons first rest =>
      have hrun : (Log.encodeAll ((first :: rest).take count)).length =
          first.encode.length + (Log.encodeAll (rest.take (count - 1))).length := by
        rw [List.take_cons hcount, Log.encodeAll_cons, List.length_append]
      rw [hrun]
      cases h with
      | nothing => exact Nat.lt_add_right _ first.length_encode_pos
      | part hcut =>
          rw [List.length_take_of_le (Nat.le_of_lt hcut)]
          exact Nat.lt_add_right _ hcut

/-- A log that is cut short holds whole records and the beginning of the next one. -/
theorem exists_whole_of_prefix {content : Bytes} {operations : List Operation}
    (hfront : content <+: Log.encodeAll operations) :
    ∃ whole behind tail, operations = whole ++ behind ∧
      content = Log.encodeAll whole ++ tail ∧ Beginning tail behind := by
  induction operations generalizing content with
  | nil =>
      obtain rfl := List.prefix_nil.mp hfront
      exact ⟨[], [], [], rfl, rfl, .nothing⟩
  | cons operation rest ih =>
      have hwhole : operation.encode <+: Log.encodeAll (operation :: rest) :=
        List.prefix_append _ _
      -- Either the cut is within the first record or behind it.
      by_cases hcut : content.length < operation.encode.length
      · have hpart := List.prefix_of_prefix_length_le hfront hwhole (Nat.le_of_lt hcut)
        have hcontent := List.prefix_iff_eq_take.mp hpart
        exact ⟨[], operation :: rest, content, rfl, rfl, hcontent ▸ .part hcut⟩
      · have hbegins := List.prefix_of_prefix_length_le hwhole hfront (Nat.le_of_not_lt hcut)
        obtain ⟨left, rfl⟩ := hbegins
        have hleft : left <+: Log.encodeAll rest := (List.prefix_append_right_inj _).mp hfront
        obtain ⟨whole, behind, tail, rfl, rfl, htail⟩ := ih hleft
        refine ⟨operation :: whole, behind, tail, rfl, ?_, htail⟩
        rw [Log.encodeAll_cons, List.append_assoc]

end Operation

namespace Log

open Operation

/-- A log cut at any byte is replayed without a fault: the changes made are those of the records
that are left whole, as many as fit, and they are counted and measured as such. -/
theorem recover_cut_log {operations : List Operation} (hshort : AllShort operations)
    {content : Bytes} (hfront : content <+: encodeAll operations) {disk : Disk}
    (hlog : disk.log = .file content) :
    ∃ records ≤ operations.length,
      recover disk = .ok ⟨applyAll (operations.take records) .empty,
        (encodeAll (operations.take records)).length, records⟩ ∧
      (encodeAll (operations.take records)).length ≤ content.length ∧
      ∀ more ≤ operations.length, records < more →
        content.length < (encodeAll (operations.take more)).length := by
  obtain ⟨whole, behind, tail, rfl, rfl, htail⟩ := exists_whole_of_prefix hfront
  obtain ⟨hwhole, hbehind⟩ := List.forall_mem_append.mp hshort
  have htorn := htail.torn hbehind
  have hreplay := Replay.ofLog_encodeAll_append hwhole htorn
  refine ⟨whole.length, ?_, ?_, ?_, ?_⟩
  · rw [List.length_append]
    exact Nat.le_add_right ..
  · rw [recover_of_hasLog (.inl hlog), hreplay, mapError_ok, List.take_left]
  · rw [List.take_left, List.length_append]
    exact Nat.le_add_right ..
  · intro more hle hmore
    rw [List.length_append] at hle
    have hpositive : 0 < more - whole.length := Nat.sub_pos_of_lt hmore
    have hlonger := htail.length_lt hpositive (by omega)
    rw [List.take_append, List.take_of_length_le (Nat.le_of_lt hmore), encodeAll_append,
      List.length_append, List.length_append]
    omega

/-- A short entry, and one whose value is itself a record for its key. -/
def nestedLog : List Operation :=
  [.put [97] [1], .put [107] (Operation.encode (.put [107] [118]))]

/-- The log without the checksum of its last record ends in a record that was never written. -/
theorem recover_cut_log_nestedLog :
    let content := (encodeAll nestedLog).take 40
    Operation.encode (.put [107] [118]) <:+ content ∧
      ∃ replay, recover ⟨.file content, none, []⟩ = .ok replay ∧ replay.records = 1 ∧
        replay.validBytes = 15 ∧ replay.table.get? [97] = some [1] ∧
        replay.table.get? [107] = none := by
  intro content
  have hshort : AllShort nestedLog := by
    have hvalue : (Operation.encode (.put [107] [118])).length < wordRange 4 := by decide
    simpa [nestedLog, AllShort, Short, Operation.key, Operation.value, wordRange] using hvalue
  have hends : Operation.encode (.put [107] [118]) <:+ content := by decide +kernel
  have hlog : Disk.log ⟨.file content, none, []⟩ = .file content := rfl
  obtain ⟨records, hle, hrecover, hfits, hmost⟩ :=
    recover_cut_log hshort (List.take_prefix 40 (encodeAll nestedLog)) hlog
  -- The first record fits and both of them do not.
  have hpositive : ¬ records < 1 := fun hnone => absurd (hmost 1 (by decide) hnone) (by decide)
  have hsingle : records ≠ 2 := fun hboth => absurd (hboth ▸ hfits) (by decide)
  have hlength : nestedLog.length = 2 := rfl
  obtain rfl : records = 1 := by omega
  exact ⟨hends, _, hrecover, rfl, rfl, rfl, rfl⟩

end Log

end DocumentCache
