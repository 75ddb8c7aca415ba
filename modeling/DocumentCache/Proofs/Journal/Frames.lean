import DocumentCache.Journal.Replay

/-!
# Records taken apart

Bytes are taken apart into the parts that they are put together from: a record is
found at their front exactly when they begin with one.  So what is read at the front
of arbitrary bytes is a whole record, of a known kind and with the right checksum,
and a whole record is read whatever stands behind it.
-/

namespace DocumentCache

theorem splitExactly_append {count : Nat} {front : Bytes} (rest : Bytes)
    (hcount : front.length = count) : splitExactly count (front ++ rest) = some (front, rest) :=
  splitExactly_eq_some_iff.mpr ⟨rfl, hcount⟩

namespace Operation

/-! ## Parts -/

theorem splitCounted_eq_some_iff {bytes count counted rest : Bytes} :
    splitCounted bytes = some (count, counted, rest) ↔
      counted.length < wordRange 4 ∧ count = littleEndian 4 counted.length ∧
        bytes = count ++ (counted ++ rest) := by
  simp only [splitCounted, bind, Option.bind_eq_some_iff, pure, Option.some.injEq,
    Prod.mk.injEq, Prod.exists]
  constructor
  · rintro ⟨front, _, hfront, _, _, hcounted, rfl, rfl, rfl⟩
    obtain ⟨rfl, hwidth⟩ := splitExactly_eq_some_iff.mp hfront
    obtain ⟨rfl, hlength⟩ := splitExactly_eq_some_iff.mp hcounted
    have hrange := littleEndianValue_lt front
    have hbytes := littleEndian_littleEndianValue front
    rw [hwidth] at hrange hbytes
    rw [hlength]
    exact ⟨hrange, hbytes.symm, rfl⟩
  · rintro ⟨hrange, rfl, rfl⟩
    have hvalue : littleEndianValue (littleEndian 4 counted.length) = counted.length := by
      rw [littleEndianValue_littleEndian]
      exact Nat.mod_eq_of_lt hrange
    exact ⟨_, _, splitExactly_append _ (littleEndian_length 4 _), _, _,
      splitExactly_append rest hvalue.symm, rfl, rfl, rfl⟩

/-- What the checksum of a record with these parts covers. -/
def contentOf (kind : UInt8) (key value : Bytes) : Bytes :=
  kind :: (littleEndian 4 key.length ++ key ++ littleEndian 4 value.length ++ value)

/-- A record with these parts. -/
def recordOf (kind : UInt8) (key value : Bytes) : Bytes :=
  contentOf kind key value ++ Checksum.trailer (contentOf kind key value)

theorem Frame.split?_eq_some_iff {bytes : Bytes} {frame : Frame} :
    Frame.split? bytes = some frame ↔
      frame.key.length < wordRange 4 ∧ frame.value.length < wordRange 4 ∧
        frame.content = contentOf frame.kind frame.key frame.value ∧
        frame.checksum.length = 4 ∧ bytes = frame.content ++ (frame.checksum ++ frame.rest) := by
  cases bytes with
  | nil =>
      constructor
      · intro h
        cases h
      · rintro ⟨-, -, hcontent, -, hbytes⟩
        rw [hcontent] at hbytes
        cases hbytes
  | cons first bytes =>
      obtain ⟨kind, key, value, content, checksum, rest⟩ := frame
      simp only [Frame.split?, bind, Option.bind_eq_some_iff, pure, Option.some.injEq,
        Prod.exists, splitCounted_eq_some_iff, splitExactly_eq_some_iff]
      constructor
      · rintro ⟨_, _, _, ⟨hkey, rfl, rfl⟩, _, _, _, ⟨hvalue, rfl, rfl⟩, _, _,
          ⟨rfl, hchecksum⟩, hframe⟩
        obtain ⟨rfl, rfl, rfl, rfl, rfl, rfl⟩ := Frame.mk.inj hframe
        refine ⟨hkey, hvalue, rfl, hchecksum, ?_⟩
        simp only [List.cons_append, List.append_assoc]
      · rintro ⟨hkey, hvalue, rfl, hchecksum, hbytes⟩
        simp only [contentOf, List.cons_append, List.append_assoc, List.cons.injEq] at hbytes
        obtain ⟨rfl, rfl⟩ := hbytes
        exact ⟨_, _, _, ⟨hkey, rfl, rfl⟩, _, _, _, ⟨hvalue, rfl, rfl⟩, _, _,
          ⟨rfl, hchecksum⟩, rfl⟩

theorem Frame.split?_extend {bytes : Bytes} {frame : Frame}
    (h : Frame.split? bytes = some frame) (more : Bytes) :
    Frame.split? (bytes ++ more) = some { frame with rest := frame.rest ++ more } := by
  obtain ⟨hkey, hvalue, hcontent, hchecksum, rfl⟩ := Frame.split?_eq_some_iff.mp h
  rw [Frame.split?_eq_some_iff]
  refine ⟨hkey, hvalue, hcontent, hchecksum, ?_⟩
  simp only [List.append_assoc]

theorem split?_recordOf_append {kind : UInt8} {key value : Bytes}
    (hkey : key.length < wordRange 4) (hvalue : value.length < wordRange 4) (rest : Bytes) :
    Frame.split? (recordOf kind key value ++ rest) =
      some ⟨kind, key, value, contentOf kind key value,
        Checksum.trailer (contentOf kind key value), rest⟩ := by
  rw [Frame.split?_eq_some_iff]
  exact ⟨hkey, hvalue, rfl, Checksum.trailer_length _, List.append_assoc ..⟩

/-! ## Records -/

/-- These bytes are one whole record of a change: its kind is known, its lengths are those
of its key and value, and its checksum is right.  The value of a deletion does not count. -/
inductive WholeRecord : Bytes → Operation → Prop where
  | put {key value : Bytes} (hkey : key.length < wordRange 4)
      (hvalue : value.length < wordRange 4) :
      WholeRecord (recordOf 1 key value) (.put key value)
  | delete {key value : Bytes} (hkey : key.length < wordRange 4)
      (hvalue : value.length < wordRange 4) :
      WholeRecord (recordOf 2 key value) (.delete key)

/-- A frame of a known kind with the right checksum is a whole record. -/
theorem wholeRecord_of_ofKind {kind : UInt8} {key value : Bytes} {operation : Operation}
    (hkind : ofKind kind key value = .ok operation) (hkey : key.length < wordRange 4)
    (hvalue : value.length < wordRange 4) : WholeRecord (recordOf kind key value) operation := by
  unfold ofKind at hkind
  split at hkind
  · next hput =>
      obtain rfl := Except.ok.inj hkind
      rw [hput]
      exact .put hkey hvalue
  · split at hkind
    · next hdelete =>
        obtain rfl := Except.ok.inj hkind
        rw [hdelete]
        exact .delete hkey hvalue
    · cases hkind

theorem read?_record_append {record : Bytes} {operation : Operation}
    (h : WholeRecord record operation) (rest : Bytes) :
    read? (record ++ rest) = .ok (some (operation, rest)) := by
  cases h with
  | put hkey hvalue =>
      simp only [read?, split?_recordOf_append hkey hvalue, if_true]
      rfl
  | delete hkey hvalue =>
      simp only [read?, split?_recordOf_append hkey hvalue, if_true]
      rfl

theorem read?_eq_some_iff {bytes rest : Bytes} {operation : Operation} :
    read? bytes = .ok (some (operation, rest)) ↔
      ∃ record, WholeRecord record operation ∧ bytes = record ++ rest := by
  constructor
  · intro h
    unfold read? at h
    split at h
    · cases h
    · next frame hframe =>
        obtain ⟨hkey, hvalue, hcontent, -, hbytes⟩ := Frame.split?_eq_some_iff.mp hframe
        split at h
        · next hchecksum =>
            split at h
            · cases h
            · next hkind =>
                obtain ⟨rfl, rfl⟩ := Prod.mk.inj (Option.some.inj (Except.ok.inj h))
                refine ⟨_, wholeRecord_of_ofKind hkind hkey hvalue, ?_⟩
                rw [hbytes, ← hchecksum, hcontent, ← List.append_assoc, recordOf]
        · cases h
  · rintro ⟨record, hrecord, rfl⟩
    exact read?_record_append hrecord rest

/-- A frame that fails its checksum refuses everything behind it. -/
theorem read?_of_checksum_ne {bytes : Bytes} {frame : Frame}
    (hframe : Frame.split? bytes = some frame)
    (hchecksum : Checksum.trailer frame.content ≠ frame.checksum) :
    read? bytes = .error .recordChecksum := by
  simp only [read?, hframe, if_neg hchecksum]

end Operation

/-! ## Steps of a replay -/

namespace Replay

open Operation

theorem continueWith_fault (replay : Replay) {bytes : Bytes} {fault : RecoveryFault}
    (hread : read? bytes = .error fault) : replay.continueWith bytes = .error fault := by
  rw [continueWith]
  split
  · next hsame => exact congrArg Except.error (Except.error.inj (hsame.symm.trans hread))
  · next htorn => rw [hread] at htorn; cases htorn
  · next hsome => rw [hread] at hsome; cases hsome

theorem continueWith_record (replay : Replay) {record : Bytes} {operation : Operation}
    (hrecord : WholeRecord record operation) (rest : Bytes) :
    replay.continueWith (record ++ rest) =
      (replay.advance operation record.length).continueWith rest := by
  have hwhole := read?_record_append hrecord rest
  have hlength : (record ++ rest).length - rest.length = record.length := by
    rw [List.length_append]
    omega
  rw [continueWith]
  split
  · next hread => rw [hwhole] at hread; cases hread
  · next hread => rw [hwhole] at hread; cases hread
  · next other behind hread =>
      rw [hwhole] at hread
      obtain ⟨rfl, rfl⟩ := Prod.mk.inj (Option.some.inj (Except.ok.inj hread))
      rw [hlength]

end Replay

end DocumentCache
