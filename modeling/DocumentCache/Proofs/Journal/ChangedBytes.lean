import DocumentCache.Proofs.Checksums
import DocumentCache.Proofs.Journal.EngineSteps

/-!
# Logs with a changed byte

A byte that is changed anywhere in a record but in its two lengths leaves the record
where it was, so the record fails its checksum and the log is refused.  The lengths are
believed before the checksum is tested: a changed one moves the end of the record.  The
log is refused then as well, as long as the record still ends within the log and what
stands there is not the checksum of what stands before it.  A length that points behind
the end of the log makes the record and all that follow it look like a torn tail.
-/

namespace DocumentCache

/-- A change in the middle part of some bytes. -/
theorem set_append_part (front part back : Bytes) {index : Nat} (byte : UInt8)
    (hindex : index < part.length) :
    (front ++ (part ++ back)).set (front.length + index) byte =
      front ++ (part.set index byte ++ back) := by
  rw [List.set_append_right _ _ (Nat.le_add_right ..), Nat.add_sub_cancel_left,
    List.set_append_left _ _ hindex]

namespace Operation

/-- The places in a record at which its two lengths stand. -/
def LengthByte (operation : Operation) (offset : Nat) : Prop :=
  1 ≤ offset ∧ offset < 5 ∨
    5 + operation.key.length ≤ offset ∧ offset < 9 + operation.key.length

/-- The bytes begin with a record that is all there, as its lengths say, and fails its
checksum. -/
def BadChecksum (bytes : Bytes) : Prop :=
  ∃ frame, Frame.split? bytes = some frame ∧ Checksum.trailer frame.content ≠ frame.checksum

/-- A change that spares the lengths changes the kind, the key or the value in place. -/
theorem exists_contentOf_set {operation : Operation} {offset : Nat}
    (hspared : ¬ operation.LengthByte offset) (hoffset : offset < operation.content.length)
    (byte : UInt8) :
    ∃ kind key value, operation.content.set offset byte = contentOf kind key value ∧
      key.length = operation.key.length ∧ value.length = operation.value.length := by
  let beforeKey := operation.kind :: littleEndian 4 operation.key.length
  let beforeValue := beforeKey ++ operation.key ++ littleEndian 4 operation.value.length
  have hbeforeKey : beforeKey.length = 5 := by simp [beforeKey]
  have hbeforeValue : beforeValue.length = 9 + operation.key.length := by
    simp only [beforeValue, List.length_append, hbeforeKey, littleEndian_length]
    omega
  have hlength : operation.content.length =
      9 + operation.key.length + operation.value.length := by
    simp only [content, List.length_cons, List.length_append, littleEndian_length]
    omega
  unfold LengthByte at hspared
  -- The byte is that of the kind, one of the key, or one of the value.
  by_cases hkind : offset = 0
  · subst hkind
    exact ⟨byte, operation.key, operation.value, rfl, rfl, rfl⟩
  · by_cases hkey : offset < 5 + operation.key.length
    · obtain ⟨index, rfl⟩ : ∃ index, offset = beforeKey.length + index :=
        ⟨offset - 5, by omega⟩
      have hindex : index < operation.key.length := by omega
      have hcontent : operation.content =
          beforeKey ++ (operation.key ++ (littleEndian 4 operation.value.length ++
            operation.value)) := by
        simp only [content, beforeKey, List.cons_append, List.append_assoc]
      refine ⟨operation.kind, operation.key.set index byte, operation.value, ?_,
        List.length_set, rfl⟩
      rw [hcontent, set_append_part _ _ _ _ hindex, contentOf, List.length_set]
      simp only [beforeKey, List.cons_append, List.append_assoc]
    · obtain ⟨index, rfl⟩ : ∃ index, offset = beforeValue.length + index :=
        ⟨offset - (9 + operation.key.length), by omega⟩
      have hindex : index < operation.value.length := by omega
      have hcontent : operation.content = beforeValue ++ (operation.value ++ []) := by
        simp only [content, beforeValue, beforeKey, List.cons_append, List.append_assoc,
          List.append_nil]
      refine ⟨operation.kind, operation.key, operation.value.set index byte, ?_, rfl,
        List.length_set⟩
      rw [hcontent, set_append_part _ _ _ _ hindex, contentOf, List.length_set]
      simp only [beforeValue, beforeKey, List.cons_append, List.append_assoc, List.append_nil]

/-- A record with a changed byte fails its checksum when its lengths are spared. -/
theorem badChecksum_set {operation : Operation} (hshort : operation.Short) {offset : Nat}
    {byte : UInt8} (hchanged : operation.encode.set offset byte ≠ operation.encode)
    (hspared : ¬ operation.LengthByte offset) (rest : Bytes) :
    BadChecksum (operation.encode.set offset byte ++ rest) := by
  -- Either the content changes and the checksum stays, or the other way round.
  by_cases hoffset : offset < operation.content.length
  · have hset : operation.encode.set offset byte =
        operation.content.set offset byte ++ Checksum.trailer operation.content := by
      rw [encode, List.set_append_left _ _ hoffset]
    have hcontent : operation.content.set offset byte ≠ operation.content := by
      intro hsame
      rw [hset, hsame] at hchanged
      exact hchanged rfl
    obtain ⟨kind, key, value, hparts, hkey, hvalue⟩ := exists_contentOf_set hspared hoffset byte
    refine ⟨⟨kind, key, value, operation.content.set offset byte,
      Checksum.trailer operation.content, rest⟩, ?_, Checksum.trailer_set_ne hcontent⟩
    rw [Frame.split?_eq_some_iff, hset, hkey, hvalue]
    exact ⟨hshort.1, hshort.2, hparts, Checksum.trailer_length _, List.append_assoc ..⟩
  · have hset : operation.encode.set offset byte = operation.content ++
        (Checksum.trailer operation.content).set (offset - operation.content.length) byte := by
      rw [encode, List.set_append_right _ _ (Nat.le_of_not_lt hoffset)]
    refine ⟨⟨operation.kind, operation.key, operation.value, operation.content,
      (Checksum.trailer operation.content).set (offset - operation.content.length) byte, rest⟩,
      ?_, ?_⟩
    · rw [Frame.split?_eq_some_iff, hset]
      refine ⟨hshort.1, hshort.2, rfl, ?_, List.append_assoc ..⟩
      rw [List.length_set, Checksum.trailer_length]
    · intro hsame
      refine hchanged (hset.trans ?_)
      exact congrArg (operation.content ++ ·) hsame.symm

end Operation

/-- A record that fails its checksum behind whole ones refuses the log. -/
theorem Replay.ofLog_badChecksum {operations : List Operation}
    (hshort : Operation.AllShort operations) {bytes : Bytes} (hbad : Operation.BadChecksum bytes) :
    ofLog (Log.encodeAll operations ++ bytes) = .error .recordChecksum := by
  obtain ⟨frame, hframe, hchecksum⟩ := hbad
  rw [ofLog, continueWith_encodeAll_append _ hshort]
  exact continueWith_fault _ (Operation.read?_of_checksum_ne hframe hchecksum)

namespace Engine

/-- A log of whole records with one changed byte is refused and stays as it is, if the
changed byte is no byte of a length, or if the record still ends within the log and fails
its checksum there. -/
theorem changed_byte_refused {before after : List Operation} {operation : Operation}
    (hshort : Operation.AllShort (before ++ operation :: after)) {offset : Nat} {byte : UInt8}
    (hchanged : operation.encode.set offset byte ≠ operation.encode)
    (hlength : operation.LengthByte offset →
      Operation.BadChecksum (operation.encode.set offset byte ++ Log.encodeAll after))
    {disk : Disk}
    (hlog : disk.log = .file ((Log.encodeAll (before ++ operation :: after)).set
      ((Log.encodeAll before).length + offset) byte)) :
    Log.recover disk = .error (.recoveryFailed .recordChecksum) ∧
      ∀ settings : Settings, settings.validate = .ok () →
        openOn settings disk = .error (.recoveryFailed .recordChecksum, disk) := by
  obtain ⟨hbefore, hrest⟩ := List.forall_mem_append.mp hshort
  have hoffset : offset < operation.encode.length :=
    Nat.lt_of_not_le fun hbehind => hchanged (List.set_eq_of_length_le hbehind)
  have hbad : Operation.BadChecksum
      (operation.encode.set offset byte ++ Log.encodeAll after) := by
    by_cases hspared : operation.LengthByte offset
    · exact hlength hspared
    · exact Operation.badChecksum_set (hrest operation (List.mem_cons_self ..)) hchanged hspared _
  have hbytes : Log.encodeAll (before ++ operation :: after) =
      Log.encodeAll before ++ (operation.encode ++ Log.encodeAll after) := by
    rw [Log.encodeAll_append]
    rfl
  rw [hbytes, set_append_part _ _ _ _ hoffset] at hlog
  have hrecover : Log.recover disk = .error (.recoveryFailed .recordChecksum) := by
    rw [Log.recover_of_hasLog (.inl hlog), Replay.ofLog_badChecksum hbefore hbad]
    rfl
  exact ⟨hrecover, fun settings hvalid => openOn_of_recover_error hvalid hrecover⟩

/-- Two puts. -/
def twoPuts : List Operation := [.put [97] [49], .put [98] [50]]

theorem allShort_twoPuts : Operation.AllShort twoPuts := by
  simp [twoPuts, Operation.AllShort, Operation.Short, Operation.key, Operation.value, wordRange]

/-- The key of the first record is changed, or the length of its value in such a way that the
record ends inside the second one. -/
theorem changed_byte_refused_twoPuts :
    Log.recover ⟨.file ((Log.encodeAll twoPuts).set 5 0), none, []⟩ =
        .error (.recoveryFailed .recordChecksum) ∧
      openOn .default ⟨.file ((Log.encodeAll twoPuts).set 6 2), none, []⟩ =
        .error (.recoveryFailed .recordChecksum,
          ⟨.file ((Log.encodeAll twoPuts).set 6 2), none, []⟩) := by
  have hshort : Operation.AllShort ([] ++ .put [97] [49] :: [.put [98] [50]]) := allShort_twoPuts
  constructor
  · have hchanged : (Operation.put [97] [49]).encode.set 5 0 ≠
        (Operation.put [97] [49]).encode := by
      decide +kernel
    have hspared : ¬ (Operation.put [97] [49]).LengthByte 5 := by
      simp [Operation.LengthByte, Operation.key]
    exact (changed_byte_refused hshort hchanged (fun hlength => absurd hlength hspared) rfl).1
  · have hchanged : (Operation.put [97] [49]).encode.set 6 2 ≠
        (Operation.put [97] [49]).encode := by
      decide +kernel
    have hbad : Operation.BadChecksum
        ((Operation.put [97] [49]).encode.set 6 2 ++ Log.encodeAll [.put [98] [50]]) :=
      ⟨_, rfl, by decide +kernel⟩
    exact (changed_byte_refused hshort hchanged (fun _ => hbad) rfl).2 .default rfl

/-- The log of the two puts with another top byte in the length of the first key. -/
def grownLog : Bytes := (Log.encodeAll twoPuts).set 4 1

/-- One changed byte in the first of two records, and the log opens, without either of them
and cut down to nothing. -/
theorem grown_length_drops_records :
    4 < (Operation.put [97] [49]).encode.length ∧ grownLog ≠ Log.encodeAll twoPuts ∧
      Log.recover ⟨.file grownLog, none, []⟩ = .ok .start ∧
      ∃ engine, openOn .default ⟨.file grownLog, none, []⟩ = .ok engine ∧
        engine.isEmpty = true ∧ engine.disk.log = .file [] := by
  have htorn : Operation.Torn grownLog := Operation.torn_of_split?_eq_none rfl
  have hreplay : Replay.ofLog grownLog = .ok .start := Replay.continueWith_torn _ htorn
  have hlog : Disk.HasLog ⟨.file grownLog, none, []⟩ grownLog := .inl rfl
  have hvalid : Settings.default.validate = .ok () := rfl
  refine ⟨by decide, by decide +kernel, ?_, ?_⟩
  · rw [Log.recover_of_hasLog hlog, hreplay]
    rfl
  · rcases openOn_ends_of_replay hvalid hlog hreplay with
      ⟨engine, hopen, hcut, -, -, htable, -, -⟩ | ⟨_, _, _, _, hfated⟩
    · refine ⟨engine, hopen, ?_, hcut⟩
      rw [isEmpty, htable]
      rfl
    · exact absurd rfl hfated

end Engine

end DocumentCache
