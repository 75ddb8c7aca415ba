import DocumentCache.Journal.SharedEngine
import DocumentCache.Proofs.Format.Documents

/-!
# What reads answer

Over an engine that answers from a table, a lookup says what the row of its key
says.  Reads change nothing of a cache but its counters, and what goes wrong when
they interpret a row is always reported as a corrupt record.
-/

namespace DocumentCache

/-- The engine answers every question from this table. -/
structure AnswersFrom {σ : Type} [KeyValueEngine σ] (engine : σ) (table : Table) : Prop where
  get : ∀ key, KeyValueEngine.get engine key = .ok (table.get? key)
  startingWith : ∀ front, KeyValueEngine.startingWith engine front = .ok (table.startingWith front)
  between : ∀ first last, KeyValueEngine.between engine first last = .ok (table.between first last)

/-- An engine that nobody poisoned answers from its table. -/
theorem SharedEngine.answersFrom {shared : SharedEngine} (hsound : shared.poisoned = false) :
    AnswersFrom shared shared.engine.table := by
  have hread : ∀ {α : Type} (question : Engine → α),
      shared.read question = .ok (question shared.engine) := by
    intro α question
    rw [SharedEngine.read, hsound]
    rfl
  exact ⟨fun _ => hread _, fun _ => hread _, fun _ _ => hread _⟩

namespace Cache

/-! ## Failures -/

theorem parseRow_failsCorrupt (bytes : Bytes) : FailsCorrupt (parseRow bytes) :=
  .mapError (Row.decode bytes) id

theorem rowReadTime_failsCorrupt (row : Row) : FailsCorrupt (rowReadTime row) :=
  .mapError row.readTime id

theorem keyOfRow_failsCorrupt (collection : Path) (rowKey : Bytes) :
    FailsCorrupt (keyOfRow collection rowKey) :=
  .bind (.mapError _ id) fun _ => .mapError _ .rowKey

theorem decodeAt_failsCorrupt (contents : Bytes) (readTime : ReadTime) :
    FailsCorrupt (Payload.codec.decodeAt contents readTime) := by
  have hpayload : FailsCorrupt (Payload.codec.decode contents) := .mapError _ id
  unfold Codec.decodeAt
  cases hdecode : Payload.codec.decode contents with
  | error error =>
      obtain ⟨fault, rfl⟩ := hpayload error hdecode
      exact .corrupt fault
  | ok document =>
      dsimp only
      split
      · exact .ok _
      · exact .corrupt _

theorem decodeContents_failsCorrupt (contents : Bytes) (readTime : ReadTime)
    (expected : DocumentKey) :
    FailsCorrupt (decodeContents Payload.codec contents readTime expected) := by
  unfold decodeContents
  cases hdecode : Payload.codec.decodeAt contents readTime with
  | error error =>
      obtain ⟨fault, rfl⟩ := decodeAt_failsCorrupt contents readTime error hdecode
      exact .corrupt fault
  | ok document =>
      dsimp only
      split
      · exact .ok _
      · exact .corrupt _

theorem decodeRow_failsCorrupt (bytes : Bytes) (expected : DocumentKey) :
    FailsCorrupt (decodeRow Payload.codec bytes expected) :=
  .bind (parseRow_failsCorrupt bytes) fun row =>
    .bind (rowReadTime_failsCorrupt row) fun readTime =>
      decodeContents_failsCorrupt row.contents readTime expected

/-! ## Rows -/

theorem parseRow_eq_ok_iff {bytes : Bytes} {row : Row} :
    parseRow bytes = .ok row ↔ Row.decode bytes = .ok row :=
  mapError_eq_ok_iff

theorem rowReadTime_eq_ok_iff {row : Row} {readTime : ReadTime} :
    rowReadTime row = .ok readTime ↔ row.readTime = .ok readTime :=
  mapError_eq_ok_iff

/-- The columns of a row say its read time as they stand, and it is a real one. -/
theorem columns_of_readTime {row : Row} {readTime : ReadTime} (h : row.readTime = .ok readTime) :
    row.seconds.toInt = readTime.seconds ∧ row.nanos.toInt = readTime.nanos ∧
      .never < readTime := by
  obtain ⟨hreal, hrow⟩ := Row.readTime_eq_ok_iff.mp h
  have hnanos := readTime.nanos_lt
  rw [hrow]
  refine ⟨Int64.toInt_ofNat_of_lt readTime.seconds_lt, Int32.toInt_ofNat_of_lt (by omega), ?_⟩
  exact Nat.lt_of_le_of_ne (ReadTime.never_le readTime) fun hsame =>
    hreal (ReadTime.total_injective hsame).symm

/-- The bytes of a row are read as that row whatever follows them, and cannot be read when some
are missing.  What is read as a row begins with the bytes of that row, and either its columns are
those of a read time or it counts as corrupt. -/
theorem rows_framed :
    (∀ row : Row, row.contents.length < wordRange 8 →
      (∀ rest, parseRow (row.encode ++ rest) = .ok row) ∧
        ∀ front, front <+: row.encode → front ≠ row.encode →
          ∃ fault, parseRow front = .error (.corruptRecord fault)) ∧
    ∀ bytes row, parseRow bytes = .ok row →
      row.encode <+: bytes ∧
        (∀ time, rowReadTime row = .ok time ↔
          (∃ seconds nanos, ReadTime.ofPartsAfterEpoch seconds nanos = .ok time) ∧
            row = .ofReadTime time row.contents) ∧
        ((∀ time, rowReadTime row ≠ .ok time) →
          ∃ fault, rowReadTime row = .error (.corruptRecord fault)) := by
  constructor
  · intro row hrange
    constructor
    · intro rest
      exact parseRow_eq_ok_iff.mpr (Row.decode_encode_append hrange rest)
    · intro front hfront hcut
      refine (parseRow_failsCorrupt front).exists_fault fun other h => hcut ?_
      exact Row.eq_of_decode_prefix hrange hfront (parseRow_eq_ok_iff.mp h)
  · intro bytes row h
    refine ⟨(Row.decode_eq_ok_iff.mp (parseRow_eq_ok_iff.mp h)).2, ?_,
      (rowReadTime_failsCorrupt row).exists_fault⟩
    intro time
    rw [rowReadTime_eq_ok_iff, Row.readTime_eq_ok_iff]
    refine and_congr_left fun _ => ⟨?_, ?_⟩
    · intro hreal
      exact ⟨_, _, ReadTime.ofPartsAfterEpoch_ofNat hreal⟩
    · rintro ⟨seconds, nanos, htime⟩
      exact (ReadTime.ofPartsAfterEpoch_eq_ok_iff.mp htime).1

/-- A row with columns that are no read time. -/
def timelessRow : Row := ⟨-1, -2147483648, [1, 2, 3]⟩

theorem rows_framed_timelessRow :
    parseRow (timelessRow.encode ++ [7, 7]) = .ok timelessRow ∧
      (∃ fault, parseRow (timelessRow.encode.take 22) = .error (.corruptRecord fault)) ∧
      ∃ fault, rowReadTime timelessRow = .error (.corruptRecord fault) := by
  obtain ⟨hwhole, hpart⟩ := rows_framed.1 timelessRow (by decide)
  have htime := (rows_framed.2 _ _ (hwhole [7, 7])).2.2
  refine ⟨hwhole [7, 7], hpart _ (List.take_prefix _ _) (by decide), htime ?_⟩
  intro time h
  cases h

/-- A payload is answered when it holds a known document of the key of its row. -/
theorem decodeContents_eq_ok_iff {codec : Codec} {contents : Bytes} {readTime : ReadTime}
    {expected : DocumentKey} {document : Document} :
    decodeContents codec contents readTime expected = .ok document ↔
      ∃ stored, codec.decode contents = .ok stored ∧ stored.isKnown = true ∧
        stored.key = expected ∧ document = stored.withReadTime readTime := by
  unfold decodeContents Codec.decodeAt
  cases codec.decode contents with
  | error error => simp
  | ok stored =>
      simp only [Except.ok.injEq, exists_eq_left']
      by_cases hknown : stored.isKnown = true
      · by_cases hkey : stored.key = expected
        · simp only [hknown, hkey, if_true, Document.key_withReadTime, Except.ok.injEq, true_and]
          exact eq_comm
        · simp only [hknown, hkey, if_true, Document.key_withReadTime, if_false, reduceCtorEq,
            false_and, and_false]
      · simp only [hknown, if_false, reduceCtorEq, false_and]

/-- A document is answered under its own key. -/
theorem key_of_decodeContents {codec : Codec} {contents : Bytes} {readTime : ReadTime}
    {expected : DocumentKey} {document : Document}
    (h : decodeContents codec contents readTime expected = .ok document) :
    document.key = expected := by
  obtain ⟨stored, _, _, hkey, rfl⟩ := decodeContents_eq_ok_iff.mp h
  rw [Document.key_withReadTime, hkey]

/-- A document that is decoded is one of its row's key, and carries its row's time. -/
theorem known_of_decodeContents {codec : Codec} {contents : Bytes} {readTime : ReadTime}
    {expected : DocumentKey} {document : Document}
    (h : decodeContents codec contents readTime expected = .ok document) :
    document.key = expected ∧ document.isKnown = true ∧ document.readTime = readTime := by
  have hkey := key_of_decodeContents h
  obtain ⟨stored, _, hknown, _, rfl⟩ := decodeContents_eq_ok_iff.mp h
  exact ⟨hkey, by rw [Document.isKnown_withReadTime, hknown],
    Document.readTime_withReadTime readTime hknown⟩

theorem decodeContents_payload_eq_ok_iff {contents : Bytes} {readTime : ReadTime}
    {expected : DocumentKey} {document : Document} :
    decodeContents Payload.codec contents readTime expected = .ok document ↔
      ∃ stored, Payload.decode contents = .ok stored ∧ stored.isKnown = true ∧
        stored.key = expected ∧ document = stored.withReadTime readTime := by
  simp only [decodeContents_eq_ok_iff, Payload.codec, mapError_eq_ok_iff]

/-- Only rows of keys without an empty segment are answered. -/
theorem named_of_decodeRow {bytes : Bytes} {key : DocumentKey} {document : Document}
    (h : decodeRow Payload.codec bytes key = .ok document) : key.Named := by
  obtain ⟨row, _, h⟩ := bind_eq_ok_iff.mp h
  obtain ⟨readTime, _, hcontents⟩ := bind_eq_ok_iff.mp h
  obtain ⟨stored, hstored, _, hkey, _⟩ := decodeContents_payload_eq_ok_iff.mp hcontents
  rw [← hkey]
  exact Payload.named_of_decode hstored

/-! ## Lookups -/

variable {σ ι : Type} [KeyValueEngine σ] {cache : Cache σ ι} {table : Table}

theorem get_eq (hanswers : AnswersFrom cache.engine table) (key : DocumentKey) :
    (cache.get key).1 =
      match table.get? (RowKey.ofDocument key) with
      | none => .ok (.unknown key)
      | some bytes => decodeRow cache.codec bytes key := by
  simp only [Cache.get, hanswers.get]
  cases table.get? (RowKey.ofDocument key) with
  | none => rfl
  | some bytes => exact (readDocument_gives cache.codec bytes key).answer _

theorem readSpan_congr {left right : σ} (hleft : AnswersFrom left table)
    (hright : AnswersFrom right table) (requested : OrderedSet Bytes) :
    readSpan left requested = readSpan right requested := by
  unfold readSpan
  split
  · rw [hleft.between, hright.between]
  · rfl

theorem collectGroups_congr {left right : σ} (hleft : AnswersFrom left table)
    (hright : AnswersFrom right table) (codec : Codec)
    (groups : List (Path × OrderedSet Bytes)) (progress : DocumentMap × Nat) :
    collectGroups left codec groups progress = collectGroups right codec groups progress := by
  induction groups generalizing progress with
  | nil => rfl
  | cons group rest ih => simp only [collectGroups, readSpan_congr hleft hright, ih]

/-- A batch lookup answers with what the requested rows give. -/
theorem getAll_fst (cache : Cache σ ι) (keys : List DocumentKey) :
    (cache.getAll keys).1 =
      Prod.fst <$> collectGroups cache.engine cache.codec (requestedRows keys).entries
        (keys.foldl (fun found key => found.insert key (.unknown key)) .empty, 0) := by
  rw [getAll, (readGroups_gives ..).apply]
  cases collectGroups cache.engine cache.codec (requestedRows keys).entries _ <;> rfl

/-- A batch lookup that succeeds counts the rows handed over, and nothing else. -/
theorem exists_collectGroups {keys : List DocumentKey} {found : DocumentMap}
    (h : (cache.getAll keys).1 = .ok found) :
    ∃ rowsRead,
      collectGroups cache.engine cache.codec (requestedRows keys).entries
        (keys.foldl (fun found key => found.insert key (.unknown key)) .empty, 0) =
          .ok (found, rowsRead) ∧
      (cache.getAll keys).2.counters =
        cache.counters.recordBatchGet (UInt64.ofNat rowsRead) := by
  rw [getAll_fst] at h
  have hgives := readGroups_gives cache.engine cache.codec (requestedRows keys).entries
    (keys.foldl (fun found key => found.insert key (.unknown key)) .empty, 0)
  cases hcollect : collectGroups cache.engine cache.codec (requestedRows keys).entries
      (keys.foldl (fun found key => found.insert key (.unknown key)) .empty, 0) with
  | error error =>
      rw [hcollect] at h
      cases h
  | ok progress =>
      rw [hcollect] at h hgives
      obtain rfl := Except.ok.inj h
      refine ⟨progress.2, rfl, ?_⟩
      rw [getAll, hgives.apply_ok]

theorem getAll_congr {other : Cache σ ι} (hanswers : AnswersFrom cache.engine table)
    (hother : AnswersFrom other.engine table) (hcodec : other.codec = cache.codec)
    (keys : List DocumentKey) : (other.getAll keys).1 = (cache.getAll keys).1 := by
  rw [getAll_fst, getAll_fst, hcodec, collectGroups_congr hother hanswers]

theorem latestReadTime_eq (hanswers : AnswersFrom cache.engine table) :
    cache.latestReadTime.1 = latestOf (table.startingWith RowKey.ofTable) .never := by
  simp only [latestReadTime, hanswers.startingWith]
  exact (readLatest_gives ..).answer _

/-! ## Reads change counters only -/

variable (cache)

theorem get_keeps (key : DocumentKey) :
    ∃ counters, (cache.get key).2 = { cache with counters } := by
  unfold get
  dsimp only
  split <;> exact ⟨_, rfl⟩

theorem getAll_keeps (keys : List DocumentKey) :
    ∃ counters, (cache.getAll keys).2 = { cache with counters } := by
  unfold getAll
  dsimp only
  split <;> exact ⟨_, rfl⟩

theorem query_keeps (query : Query) (since : ReadTime) (interrupted : Bool) :
    ∃ counters, (cache.query query since interrupted).2 = { cache with counters } := by
  unfold Cache.query
  split
  · exact ⟨_, rfl⟩
  · split
    · exact ⟨_, rfl⟩
    · dsimp only
      split <;> exact ⟨_, rfl⟩

theorem latestReadTime_keeps :
    ∃ counters, cache.latestReadTime.2 = { cache with counters } := by
  unfold latestReadTime
  split <;> exact ⟨_, rfl⟩

end Cache

end DocumentCache
