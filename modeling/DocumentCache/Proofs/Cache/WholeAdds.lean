import DocumentCache.Proofs.Cache.RacingAdds

/-!
# Adds are made whole or not at all

Over an engine whose failing writes change nothing, an add has three effects or none of
them: the row of its document stands in the engine, the write is counted, and the index is
told once of the collection.  It fails for nothing but a document that cannot be stored, a
stored row that the check refuses to replace, or a failure of the engine's own write; what
the index answers makes no difference.
-/

namespace DocumentCache

/-! ## Engines -/

section Engines

variable {σ : Type} [KeyValueEngine σ]

/-- What a write of one entry leaves behind: that entry and all others as they were, or, if it
failed, all of them as they were. -/
def Settles (held : σ → Bytes → Option Bytes) (engine after : σ) (key value : Bytes) :
    Except Error Unit → Prop
  | .ok () => ∀ other, held after other = if other = key then some value else held engine other
  | .error _ => ∀ other, held after other = held engine other

/-- The answers of a conditional put: it fails before the check is asked, or with what the check
says of the value that stands there, or it comes to the write. -/
inductive Judged (heldHere : Option Bytes) (check : Option Bytes → Except Error Unit) :
    ConditionalPut → Prop where
  | unasked (error : Error) : Judged heldHere check ⟨none, .error error⟩
  | refused {error : Error} (hcheck : check heldHere = .error error) :
      Judged heldHere check ⟨some heldHere, .error error⟩
  | accepted (hcheck : check heldHere = .ok ()) (result : Except Error Unit) :
      Judged heldHere check ⟨some heldHere, result⟩

/-- The puts of an engine in which `held` says what stands under each key: those that fail change
nothing. -/
structure WritesWhole (held : σ → Bytes → Option Bytes) (engine : σ) : Prop where
  put : ∀ key value,
    Settles held engine (KeyValueEngine.put engine key value).2 key value
      (KeyValueEngine.put engine key value).1
  putIf : ∀ key value check,
    Judged (held engine key) check (KeyValueEngine.putIf engine key value check).1 ∧
      Settles held engine (KeyValueEngine.putIf engine key value check).2 key value
        (KeyValueEngine.putIf engine key value check).1.result

end Engines

namespace SharedEngine

variable {shared : SharedEngine} {operations : List Operation}

/-- While nothing fails in its directory, every put of an engine succeeds. -/
theorem exists_put (husable : shared.poisoned = false) (hcalm : shared.engine.fates = [])
    (hsync : shared.engine.Synced operations) (key value : Bytes) :
    ∃ after : SharedEngine, KeyValueEngine.put shared key value = (.ok (), after) ∧
      ∀ other, after.engine.get? other =
        if other = key then some value else shared.engine.get? other := by
  obtain ⟨_, engine, hput, ⟨htable, -⟩, -⟩ := (Engine.put_turns hsync key value).of_calm hcalm
  refine ⟨⟨engine, false⟩, by rw [put_eq husable, hput], ?_⟩
  intro other
  rw [Engine.get?, htable]
  exact Table.get?_insert _ key value other

/-- While nothing fails in its directory, an engine writes whole. -/
theorem writesWhole (husable : shared.poisoned = false) (hcalm : shared.engine.fates = [])
    (hsync : shared.engine.Synced operations) :
    WritesWhole (fun shared key => shared.engine.get? key) shared where
  put key value := by
    obtain ⟨after, hput, hafter⟩ := exists_put husable hcalm hsync key value
    rw [hput]
    exact hafter
  putIf key value check := by
    cases hcheck : check (shared.engine.get? key) with
    | error error =>
        rw [putIf_of_refused husable hcheck]
        exact ⟨.refused hcheck, fun _ => rfl⟩
    | ok _ =>
        obtain ⟨after, hput, hafter⟩ := exists_put husable hcalm hsync key value
        rw [putIf_of_accepted husable hcheck, hput]
        exact ⟨.accepted hcheck _, hafter⟩

end SharedEngine

/-! ## Indexes -/

/-- An index and all that it was told, whatever it answered. -/
structure NotedIndex (ι : Type) where
  index : ι
  notified : List Path

instance {ι : Type} [CollectionIndex ι] : CollectionIndex (NotedIndex ι) where
  notify noted collection :=
    ((CollectionIndex.notify noted.index collection).1,
      ⟨(CollectionIndex.notify noted.index collection).2, noted.notified ++ [collection]⟩)

namespace Cache

variable {σ ι : Type}

/-- The same cache with an index of which no notes are taken. -/
def bare (cache : Cache σ (NotedIndex ι)) : Cache σ ι :=
  { cache with index := cache.index.index }

/-- One cache is another one in which nothing was added. -/
structure Untouched (held : σ → Bytes → Option Bytes) (cache after : Cache σ (NotedIndex ι)) :
    Prop where
  entries : ∀ key, held after.engine key = held cache.engine key
  adds : after.counters.adds = cache.counters.adds
  bytesWritten : after.counters.bytesWritten = cache.counters.bytesWritten
  notified : after.index.notified = cache.index.notified

/-- One cache is another one in which one row was added. -/
structure Added (held : σ → Bytes → Option Bytes) (cache after : Cache σ (NotedIndex ι))
    (key : DocumentKey) (row : Bytes) : Prop where
  entries : ∀ other, held after.engine other =
    if other = RowKey.ofDocument key then some row else held cache.engine other
  adds : after.counters.adds = cache.counters.adds + 1
  bytesWritten : after.counters.bytesWritten =
    cache.counters.bytesWritten + UInt64.ofNat ((RowKey.ofDocument key).length + row.length)
  notified : after.index.notified = cache.index.notified ++ [key.collection]

variable [KeyValueEngine σ] {held : σ → Bytes → Option Bytes}

/-! ## Why an add fails -/

/-- What keeps a document from being added, and the error that says so. -/
inductive Obstacle (held : σ → Bytes → Option Bytes) (cache : Cache σ ι) (document : Document)
    (readTime : ReadTime) : Error → Prop where
  | neverRead (htime : readTime = .never) :
      Obstacle held cache document readTime (.invalidArgument (.neverRead document.key))
  | unknown (hunknown : document.isKnown = false) :
      Obstacle held cache document readTime (.invalidArgument (.unknownDocument document.key))
  | unencodable {error : Error} (hencode : cache.codec.encode document = .error error) :
      Obstacle held cache document readTime error
  | corruptRow {bytes : Bytes} {fault : Corruption} (hstrict : cache.settings.rejectOlder = true)
      (hheld : held cache.engine (RowKey.ofDocument document.key) = some bytes)
      (hcorrupt : (parseRow bytes >>= rowReadTime) = .error (.corruptRecord fault)) :
      Obstacle held cache document readTime (.corruptRecord fault)
  | olderRead {bytes : Bytes} {stored : ReadTime} (hstrict : cache.settings.rejectOlder = true)
      (hheld : held cache.engine (RowKey.ofDocument document.key) = some bytes)
      (hstored : RowTime bytes stored) (holder : readTime < stored) :
      Obstacle held cache document readTime
        (.invalidArgument (.olderReadTime readTime document.key stored))
  | putFails {contents : Bytes} {error : Error} (hlenient : cache.settings.rejectOlder = false)
      (hencode : cache.codec.encode document = .ok contents)
      (hfails : (KeyValueEngine.put cache.engine (RowKey.ofDocument document.key)
        (Row.ofReadTime readTime contents).encode).1 = .error error) :
      Obstacle held cache document readTime error
  /-- The conditional put failed although its check refused nothing. -/
  | putIfFails {contents : Bytes} {error : Error} (hstrict : cache.settings.rejectOlder = true)
      (hencode : cache.codec.encode document = .ok contents)
      (hfails : (KeyValueEngine.putIf cache.engine (RowKey.ofDocument document.key)
        (Row.ofReadTime readTime contents).encode
        (checkNotOlder document.key readTime)).1.result = .error error)
      (haccepts : ∀ shown, (KeyValueEngine.putIf cache.engine (RowKey.ofDocument document.key)
        (Row.ofReadTime readTime contents).encode
        (checkNotOlder document.key readTime)).1.seen = some shown →
          checkNotOlder document.key readTime shown = .ok ()) :
      Obstacle held cache document readTime error

theorem rowTime_iff {bytes : Bytes} {stored : ReadTime} :
    RowTime bytes stored ↔ (parseRow bytes >>= rowReadTime) = .ok stored := by
  simp only [RowTime, bind_eq_ok_iff, parseRow_eq_ok_iff, rowReadTime_eq_ok_iff]

theorem checkNotOlder_of_unreadable {bytes : Bytes} {error : Error}
    (h : (parseRow bytes >>= rowReadTime) = .error error) (key : DocumentKey)
    (readTime : ReadTime) : checkNotOlder key readTime (some bytes) = .error error := by
  simp only [checkNotOlder, ← bind_assoc, h]
  rfl

/-- The check refuses a row that it cannot read, and one that was read later. -/
theorem checkNotOlder_eq_error_iff {key : DocumentKey} {readTime : ReadTime}
    {shown : Option Bytes} {error : Error} :
    checkNotOlder key readTime shown = .error error ↔
      ∃ bytes, shown = some bytes ∧
        ((∃ fault, (parseRow bytes >>= rowReadTime) = .error (.corruptRecord fault) ∧
            error = .corruptRecord fault) ∨
          ∃ stored, RowTime bytes stored ∧ readTime < stored ∧
            error = .invalidArgument (.olderReadTime readTime key stored)) := by
  constructor
  · intro h
    cases shown with
    | none => cases h
    | some bytes =>
        refine ⟨bytes, rfl, ?_⟩
        cases htime : (parseRow bytes >>= rowReadTime) with
        | error other =>
            obtain ⟨fault, rfl⟩ : ∃ fault, other = .corruptRecord fault :=
              FailsCorrupt.bind (parseRow_failsCorrupt bytes) rowReadTime_failsCorrupt other htime
            rw [checkNotOlder_of_unreadable htime] at h
            exact .inl ⟨fault, rfl, (Except.error.inj h).symm⟩
        | ok stored =>
            have hstored := rowTime_iff.mpr htime
            rw [checkNotOlder_some hstored] at h
            split at h
            · next holder => exact .inr ⟨stored, hstored, holder, (Except.error.inj h).symm⟩
            · cases h
  · rintro ⟨bytes, rfl, ⟨fault, hcorrupt, rfl⟩ | ⟨stored, hstored, holder, rfl⟩⟩
    · exact checkNotOlder_of_unreadable hcorrupt key readTime
    · rw [checkNotOlder_some hstored, if_pos holder]

/-! ## Rows that are written -/

section Rows

variable {cache : Cache σ ι} {document : Document} {readTime : ReadTime} {contents : Bytes}

/-- A document that cannot be encoded meets an obstacle; any other is the row of its payload. -/
theorem encodeRow_ends (held : σ → Bytes → Option Bytes) (cache : Cache σ ι) (document : Document)
    (readTime : ReadTime) :
    (∃ error, encodeRow cache.codec document readTime = .error error ∧
        Obstacle held cache document readTime error) ∨
      readTime ≠ .never ∧ document.isKnown = true ∧
        ∃ contents, cache.codec.encode document = .ok contents := by
  by_cases htime : readTime = .never
  · exact .inl ⟨_, by rw [encodeRow, if_pos htime], .neverRead htime⟩
  · cases hknown : document.isKnown with
    | false =>
        refine .inl ⟨_, ?_, .unknown hknown⟩
        simp only [encodeRow, if_neg htime, Codec.encodeKnown, hknown, Bool.false_eq_true, if_false]
    | true =>
        cases hencode : cache.codec.encode document with
        | error error =>
            refine .inl ⟨error, ?_, .unencodable hencode⟩
            simp only [encodeRow, if_neg htime, Codec.encodeKnown, hknown, if_true, hencode]
        | ok contents => exact .inr ⟨htime, rfl, contents, rfl⟩

@[simp]
theorem countCorrupt_adds {α : Type} (counters : Counters) (result : Except Error α) :
    (countCorrupt counters result).adds = counters.adds := by
  unfold countCorrupt
  split
  · split <;> rfl
  · rfl

@[simp]
theorem countCorrupt_bytesWritten {α : Type} (counters : Counters) (result : Except Error α) :
    (countCorrupt counters result).bytesWritten = counters.bytesWritten := by
  unfold countCorrupt
  split
  · split <;> rfl
  · rfl

/-- The write of a row is one put, counted nowhere yet. -/
theorem writeRow_settles (hwhole : WritesWhole held cache.engine) (document : Document)
    (readTime : ReadTime) (rowKey row : Bytes) :
    ∃ result engine counters,
      cache.writeRow document readTime rowKey row = (result, { cache with engine, counters }) ∧
        Settles held cache.engine engine rowKey row result ∧
        counters.adds = cache.counters.adds ∧
        counters.bytesWritten = cache.counters.bytesWritten := by
  unfold writeRow
  split
  · refine ⟨_, _, _, rfl, (hwhole.putIf rowKey row _).2, ?_⟩
    split <;> simp
  · exact ⟨_, _, _, rfl, hwhole.put rowKey row, rfl, rfl⟩

/-- What a write of the row fails with is an obstacle. -/
theorem obstacle_of_writeRow (hwhole : WritesWhole held cache.engine) (readTime : ReadTime)
    (hencode : cache.codec.encode document = .ok contents) (error : Error)
    (h : (cache.writeRow document readTime (RowKey.ofDocument document.key)
      (Row.ofReadTime readTime contents).encode).1 = .error error) :
    Obstacle held cache document readTime error := by
  unfold writeRow at h
  split at h
  · next hstrict =>
      have hjudged := (hwhole.putIf (RowKey.ofDocument document.key)
        (Row.ofReadTime readTime contents).encode (checkNotOlder document.key readTime)).1
      cases hput : KeyValueEngine.putIf cache.engine (RowKey.ofDocument document.key)
          (Row.ofReadTime readTime contents).encode (checkNotOlder document.key readTime) with
      | mk outcome engine =>
          rw [hput] at h hjudged
          -- The failure is the check's own only if the check refused what stands there.
          cases hjudged with
          | unasked cause =>
              refine .putIfFails hstrict hencode (by rw [hput]; exact h) ?_
              rw [hput]
              exact fun shown hshown => nomatch hshown
          | refused hcheck =>
              obtain rfl := Except.error.inj h
              obtain ⟨bytes, hheld, ⟨fault, hcorrupt, rfl⟩ | ⟨stored, hstored, holder, rfl⟩⟩ :=
                checkNotOlder_eq_error_iff.mp hcheck
              · exact .corruptRow hstrict hheld hcorrupt
              · exact .olderRead hstrict hheld hstored holder
          | accepted hcheck result =>
              refine .putIfFails hstrict hencode (by rw [hput]; exact h) ?_
              rw [hput]
              intro shown hshown
              rwa [← Option.some.inj hshown]
  · next hlenient => exact .putFails (eq_false_of_ne_true hlenient) hencode h

/-- A check that refuses what stands there makes the write fail. -/
theorem writeRow_fails_of_refused (hwhole : WritesWhole held cache.engine)
    (hstrict : cache.settings.rejectOlder = true) {rowKey : Bytes} (row : Bytes) {cause : Error}
    (hcheck : checkNotOlder document.key readTime (held cache.engine rowKey) = .error cause) :
    ∃ error, (cache.writeRow document readTime rowKey row).1 = .error error := by
  have hjudged := (hwhole.putIf rowKey row (checkNotOlder document.key readTime)).1
  rw [writeRow, if_pos hstrict]
  cases hput : KeyValueEngine.putIf cache.engine rowKey row
      (checkNotOlder document.key readTime) with
  | mk outcome engine =>
      rw [hput] at hjudged
      cases hjudged with
      | unasked error => exact ⟨error, rfl⟩
      | refused _ => exact ⟨_, rfl⟩
      | accepted haccepts _ =>
          rw [hcheck] at haccepts
          cases haccepts

/-- Over an obstacle no row is written. -/
theorem writeRow_fails_of_obstacle (hwhole : WritesWhole held cache.engine)
    (htime : readTime ≠ .never) (hknown : document.isKnown = true)
    (hencode : cache.codec.encode document = .ok contents)
    (h : ∃ cause, Obstacle held cache document readTime cause) :
    ∃ error, (cache.writeRow document readTime (RowKey.ofDocument document.key)
      (Row.ofReadTime readTime contents).encode).1 = .error error := by
  obtain ⟨cause, h⟩ := h
  cases h with
  | neverRead hnever => exact absurd hnever htime
  | unknown hunknown =>
      rw [hknown] at hunknown
      cases hunknown
  | unencodable hfails =>
      rw [hencode] at hfails
      cases hfails
  | corruptRow hstrict hheld hcorrupt =>
      exact writeRow_fails_of_refused hwhole hstrict _
        (checkNotOlder_eq_error_iff.mpr ⟨_, hheld, .inl ⟨_, hcorrupt, rfl⟩⟩)
  | olderRead hstrict hheld hstored holder =>
      exact writeRow_fails_of_refused hwhole hstrict _
        (checkNotOlder_eq_error_iff.mpr ⟨_, hheld, .inr ⟨_, hstored, holder, rfl⟩⟩)
  | putFails hlenient hother hfails =>
      obtain rfl := Except.ok.inj (hencode.symm.trans hother)
      refine ⟨cause, ?_⟩
      rw [writeRow, if_neg (by rw [hlenient]; exact Bool.false_ne_true)]
      exact hfails
  | putIfFails hstrict hother hfails _ =>
      obtain rfl := Except.ok.inj (hencode.symm.trans hother)
      refine ⟨cause, ?_⟩
      rw [writeRow, if_pos hstrict]
      exact hfails

end Rows

/-! ## Adds -/

theorem writeRow_bare (cache : Cache σ (NotedIndex ι)) (document : Document)
    (readTime : ReadTime) (rowKey row : Bytes) :
    cache.bare.writeRow document readTime rowKey row =
      ((cache.writeRow document readTime rowKey row).1,
        (cache.writeRow document readTime rowKey row).2.bare) := by
  unfold writeRow bare
  dsimp only
  by_cases hstrict : cache.settings.rejectOlder = true
  · rw [if_pos hstrict, if_pos hstrict]
  · rw [if_neg hstrict, if_neg hstrict]

section Adds

variable [CollectionIndex ι] {cache : Cache σ (NotedIndex ι)}

/-- Taking notes of the index makes no difference to an add. -/
theorem add_bare (cache : Cache σ (NotedIndex ι)) (document : Document) (readTime : ReadTime) :
    cache.bare.add document readTime =
      ((cache.add document readTime).1, (cache.add document readTime).2.bare) := by
  have hcodec : cache.bare.codec = cache.codec := rfl
  unfold add
  rw [hcodec]
  cases hencode : encodeRow cache.codec document readTime with
  | error error => rfl
  | ok encoded =>
      simp only [writeRow_bare]
      cases cache.writeRow document readTime encoded.1 encoded.2 with
      | mk result after => cases result <;> rfl

/-- An add is refused for an obstacle and then nothing was done, or every part of it is done,
whatever the index answers. -/
theorem add_whole (hwhole : WritesWhole held cache.engine) (document : Document)
    (readTime : ReadTime) :
    cache.bare.add document readTime =
        ((cache.add document readTime).1, (cache.add document readTime).2.bare) ∧
      (∀ error, (cache.add document readTime).1 = .error error →
        Obstacle held cache document readTime error ∧
          cache.Untouched held (cache.add document readTime).2) ∧
      ((∃ error, Obstacle held cache document readTime error) →
        ∃ error, (cache.add document readTime).1 = .error error) ∧
      ((cache.add document readTime).1 = .ok () →
        ∃ contents, cache.codec.encode document = .ok contents ∧
          cache.Added held (cache.add document readTime).2 document.key
            (Row.ofReadTime readTime contents).encode) := by
  refine ⟨add_bare cache document readTime, ?_⟩
  rcases encodeRow_ends held cache document readTime with
    ⟨error, hencode, hobstacle⟩ | ⟨htime, hknown, contents, hcontents⟩
  · rw [add_of_encodeRow_error hencode]
    refine ⟨?_, fun _ => ⟨error, rfl⟩, fun h => nomatch h⟩
    intro other h
    obtain rfl := Except.error.inj h
    exact ⟨hobstacle, fun _ => rfl, rfl, rfl, rfl⟩
  · have hencode := encodeRow_of_encode htime hknown hcontents
    have hobstacle := obstacle_of_writeRow hwhole readTime hcontents
    have hfails := writeRow_fails_of_obstacle hwhole htime hknown hcontents
    obtain ⟨result, engine, counters, hwrite, hsettles, hadds, hbytes⟩ :=
      writeRow_settles hwhole document readTime (RowKey.ofDocument document.key)
        (Row.ofReadTime readTime contents).encode
    rw [hwrite] at hobstacle hfails
    unfold add
    simp only [hencode, hwrite]
    cases result with
    | error error =>
        refine ⟨?_, hfails, fun h => nomatch h⟩
        intro other h
        exact ⟨hobstacle other h, hsettles, hadds, hbytes, rfl⟩
    | ok _ =>
        refine ⟨fun _ h => (nomatch h), hfails, fun _ => ?_⟩
        refine ⟨contents, hcontents, hsettles, congrArg (· + 1) hadds, ?_, rfl⟩
        rw [UInt64.ofNat_add, ← hbytes]
        rfl

end Adds

/-- An index that refuses whatever it is told. -/
structure DeafIndex where

instance : CollectionIndex DeafIndex where
  notify index _ := (.error (.storageUnavailable .poisoned), index)

/-- Bytes that are no row stand under one note, and under another one a row read at nine
seconds. -/
def spoiledOperations : List Operation :=
  [.put (RowKey.ofDocument (noteKey "odd")) [1, 2, 3],
    .put (RowKey.ofDocument (noteKey "new")) (Row.ofReadTime (.ofSeconds 9) []).encode]

/-- A cache over these rows that refuses older documents and has a deaf index. -/
def spoiledCache : Cache SharedEngine (NotedIndex DeafIndex) where
  engine := .ofEngine
    { settings := strictSettings
      table := Operation.applyAll spoiledOperations .empty
      log :=
        { disk := ⟨.file (Log.encodeAll spoiledOperations), none, []⟩
          syncWrites := false
          size := (Log.encodeAll spoiledOperations).length } }
  index := ⟨⟨⟩, []⟩
  codec := Payload.codec
  settings := strictSettings
  counters := .zero

/-- The spoiled row is not replaced, and neither is the other one by an older document; one
that is as new replaces it. -/
theorem add_whole_spoiledCache :
    let held := fun (shared : SharedEngine) key => shared.engine.get? key
    let noteAt := fun name seconds =>
      spoiledCache.add (.deleted (noteKey name) .never .never) (.ofSeconds seconds)
    WritesWhole held spoiledCache.engine ∧
      ((noteAt "odd" 9).1 = .error (.corruptRecord (.wire .endOfInput)) ∧
        spoiledCache.Untouched held (noteAt "odd" 9).2) ∧
      ((∃ error, (noteAt "new" 8).1 = .error error) ∧
        spoiledCache.Untouched held (noteAt "new" 8).2) ∧
      (noteAt "new" 9).1 = .ok () ∧
        ∃ row, spoiledCache.Added held (noteAt "new" 9).2 (noteKey "new") row := by
  intro held noteAt
  have hsync : spoiledCache.engine.engine.Synced spoiledOperations := ⟨rfl, rfl, rfl, rfl⟩
  have hwhole : WritesWhole held spoiledCache.engine := SharedEngine.writesWhole rfl rfl hsync
  have hspoiled : (noteAt "odd" 9).1 = .error (.corruptRecord (.wire .endOfInput)) := rfl
  have holder : (noteAt "new" 8).1 = .error (.invalidArgument
      (.olderReadTime (.ofSeconds 8) (noteKey "new") (.ofSeconds 9))) := rfl
  have hadded : (noteAt "new" 9).1 = .ok () := rfl
  obtain ⟨contents, -, hwritten⟩ := (add_whole hwhole _ _).2.2.2 hadded
  exact ⟨hwhole, ⟨hspoiled, ((add_whole hwhole _ _).2.1 _ hspoiled).2⟩,
    ⟨⟨_, holder⟩, ((add_whole hwhole _ _).2.1 _ holder).2⟩, hadded, _, hwritten⟩

end Cache

end DocumentCache
