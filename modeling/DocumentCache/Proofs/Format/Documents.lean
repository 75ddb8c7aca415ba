import DocumentCache.Cache.Write
import DocumentCache.Proofs.Format.Payloads
import DocumentCache.Proofs.RowReaders

/-!
# Reading documents back

A payload is read back as the document it was made of, without the time at which
that was read; the row around it adds the time under which the document was stored.
This holds for every known document whose row is not longer than a machine word can
say and whose key has no empty segment, since a key with one cannot be restored.
-/

namespace DocumentCache

/-! ## Read times -/

namespace ReadTime

theorem toNat_lt_seconds (seconds : UInt32) : seconds.toNat < 9223372036854775808 :=
  Nat.lt_trans seconds.toNat_lt (by decide)

/-- The time so many seconds after the epoch. -/
def ofSeconds (seconds : UInt32) : ReadTime :=
  ⟨seconds.toNat, 0, toNat_lt_seconds seconds, never.nanos_lt⟩

theorem ofPartsAfterEpoch_ofNat {time : ReadTime} (h : time ≠ .never) :
    ofPartsAfterEpoch (Int64.ofNat time.seconds) (Int32.ofNat time.nanos) = .ok time := by
  rw [ofPartsAfterEpoch, ofParts_ofNat]
  exact if_neg h

theorem ofPartsAfterEpoch_eq_ok_iff {seconds : Int64} {nanos : Int32} {time : ReadTime} :
    ofPartsAfterEpoch seconds nanos = .ok time ↔
      time ≠ .never ∧ seconds = Int64.ofNat time.seconds ∧ nanos = Int32.ofNat time.nanos := by
  constructor
  · intro h
    obtain ⟨parts, hparts, h⟩ := bind_eq_ok_iff.mp h
    split at h
    · cases h
    · next hreal =>
        obtain rfl := Except.ok.inj h
        exact ⟨hreal, ofParts_eq_ok_iff.mp hparts⟩
  · rintro ⟨hreal, rfl, rfl⟩
    exact ofPartsAfterEpoch_ofNat hreal

end ReadTime

/-! ## Rows -/

namespace Row

open Reader

theorem reads_encode {row : Row} (hrange : row.contents.length < wordRange 8) :
    Reads reader row.encode row := by
  have hblob : Reads blob (Wire.blob row.contents) row.contents := reads_blob hrange
  rw [encode, List.append_assoc]
  exact (reads_int64 row.seconds).bind ((reads_int32 row.nanos).bind (hblob.returning _))

/-- A row is read back from its bytes, whatever follows them. -/
theorem decode_encode_append {row : Row} (hrange : row.contents.length < wordRange 8)
    (rest : Bytes) : decode (row.encode ++ rest) = .ok row := by
  rw [decode, reads_encode hrange]

theorem decode_encode {row : Row} (hrange : row.contents.length < wordRange 8) :
    decode row.encode = .ok row := by
  have hdecode := decode_encode_append hrange []
  rwa [List.append_nil] at hdecode

theorem takes_reader : Takes reader encode (·.contents.length < wordRange 8) := by
  intro input rest row h
  obtain ⟨seconds, middle, -, rfl, hcolumns⟩ := takes_int64.exists_of_bind h
  obtain ⟨nanos, last, -, rfl, hcontents⟩ := takes_int32.exists_of_bind hcolumns
  obtain ⟨contents, rfl, hrange, rfl⟩ := takes_blob.exists_of_returning hcontents
  refine ⟨hrange, ?_⟩
  simp only [encode, List.append_assoc]

/-- A row is read exactly from the bytes that begin with its stored form. -/
theorem decode_eq_ok_iff {bytes : Bytes} {row : Row} :
    decode bytes = .ok row ↔ row.contents.length < wordRange 8 ∧ row.encode <+: bytes := by
  constructor
  · intro h
    unfold decode at h
    split at h
    · next found rest hread =>
        obtain rfl := Except.ok.inj h
        obtain ⟨hrange, rfl⟩ := takes_reader hread
        exact ⟨hrange, List.prefix_append _ _⟩
    · cases h
  · rintro ⟨hrange, rest, rfl⟩
    exact decode_encode_append hrange rest

/-- Nothing is read from a part of the stored form of a row that is not all of it. -/
theorem eq_of_decode_prefix {row other : Row} (hrange : row.contents.length < wordRange 8)
    {front : Bytes} (hfront : front <+: row.encode) (h : decode front = .ok other) :
    front = row.encode := by
  obtain ⟨hother, hbegins⟩ := decode_eq_ok_iff.mp h
  have hwhole : decode row.encode = .ok other :=
    decode_eq_ok_iff.mpr ⟨hother, hbegins.trans hfront⟩
  rw [decode_encode hrange] at hwhole
  obtain rfl := Except.ok.inj hwhole
  exact hfront.eq_of_length_le hbegins.length_le

theorem readTime_ofReadTime {readTime : ReadTime} (h : readTime ≠ .never) (contents : Bytes) :
    (ofReadTime readTime contents).readTime = .ok readTime := by
  rw [Row.readTime, ofReadTime, ReadTime.ofPartsAfterEpoch_ofNat h]
  rfl

/-- A row has a read time when its columns are those of one. -/
theorem readTime_eq_ok_iff {row : Row} {time : ReadTime} :
    row.readTime = .ok time ↔ time ≠ .never ∧ row = ofReadTime time row.contents := by
  obtain ⟨seconds, nanos, contents⟩ := row
  rw [readTime, mapError_eq_ok_iff, ReadTime.ofPartsAfterEpoch_eq_ok_iff]
  simp only [ofReadTime, mk.injEq, and_true]

/-- A row takes bytes of its own around its contents. -/
theorem length_contents_lt (row : Row) : row.contents.length < row.encode.length := by
  simp only [encode, Wire.blob, List.length_append, Wire.length_length]
  omega

end Row

namespace Cache

/-- What the engine holds for a row that can be read is the document in its payload. -/
theorem decodeRow_of_columns {codec : Codec} {bytes : Bytes} {row : Row} {readTime : ReadTime}
    (hrow : parseRow bytes = .ok row) (hread : rowReadTime row = .ok readTime)
    (expected : DocumentKey) :
    decodeRow codec bytes expected = decodeContents codec row.contents readTime expected := by
  rw [decodeRow, hrow]
  change (rowReadTime row >>= fun time => decodeContents codec row.contents time expected) = _
  rw [hread]
  rfl

theorem encodeRow_cases {document : Document} {readTime : ReadTime} {rowKey row : Bytes}
    (h : encodeRow Payload.codec document readTime = .ok (rowKey, row)) :
    readTime ≠ .never ∧ rowKey = RowKey.ofDocument document.key ∧
      ∃ contents, Payload.encode document = .ok contents ∧
        row = (Row.ofReadTime readTime contents).encode := by
  unfold encodeRow at h
  split at h
  · cases h
  · next hread =>
      split at h
      · cases h
      · next contents hcontents =>
          obtain ⟨rfl, rfl⟩ := Prod.mk.inj (Except.ok.inj h)
          refine ⟨hread, rfl, contents, ?_, rfl⟩
          unfold Codec.encodeKnown at hcontents
          split at hcontents
          · exact hcontents
          · cases hcontents

/-- What is stored for a document is read back as the document at its read time. -/
theorem decodeRow_encodeRow {document : Document} {readTime : ReadTime} {rowKey row : Bytes}
    (hnamed : document.key.Named)
    (h : encodeRow Payload.codec document readTime = .ok (rowKey, row))
    (hrange : row.length < wordRange 8) :
    decodeRow Payload.codec row document.key = .ok (document.withReadTime readTime) := by
  obtain ⟨hread, -, contents, hencode, rfl⟩ := encodeRow_cases h
  have hlength : contents.length < wordRange 8 :=
    Nat.lt_trans (Row.length_contents_lt (Row.ofReadTime readTime contents)) hrange
  have hrow : parseRow (Row.ofReadTime readTime contents).encode =
      .ok (Row.ofReadTime readTime contents) := by
    have hrange : (Row.ofReadTime readTime contents).contents.length < wordRange 8 := hlength
    rw [parseRow, Row.decode_encode hrange]
    rfl
  have htime : rowReadTime (Row.ofReadTime readTime contents) = .ok readTime := by
    rw [rowReadTime, Row.readTime_ofReadTime hread]
    rfl
  have hcontents : (Row.ofReadTime readTime contents).contents = contents := rfl
  have hfits := Payload.fits_of_encode hencode hlength
  rw [decodeRow_of_columns hrow htime, decodeContents, hcontents,
    Payload.decodeAt_encode hnamed hfits hencode readTime]
  simp only [Document.key_withReadTime, if_true]

/-- A known document that was read at some time is stored as the row of its payload. -/
theorem encodeRow_of_encode {codec : Codec} {document : Document} {readTime : ReadTime}
    {contents : Bytes} (hread : readTime ≠ .never) (hknown : document.isKnown = true)
    (hencode : codec.encode document = .ok contents) :
    encodeRow codec document readTime =
      .ok (RowKey.ofDocument document.key, (Row.ofReadTime readTime contents).encode) := by
  simp only [encodeRow, if_neg hread, Codec.encodeKnown, hknown, if_true, hencode]

/-- A known document that was read at some time is accepted for storage. -/
theorem encodeRow_of_known {document : Document} {readTime : ReadTime}
    (hknown : document.isKnown = true) (hread : readTime ≠ .never) :
    ∃ row, encodeRow Payload.codec document readTime =
      .ok (RowKey.ofDocument document.key, row) := by
  obtain ⟨contents, hencode⟩ := Payload.exists_encode_of_known hknown
  exact ⟨_, encodeRow_of_encode hread hknown hencode⟩

end Cache

end DocumentCache
