import DocumentCache.Proofs.Cache.StoredDocuments
import DocumentCache.Proofs.Journal.Histories
import DocumentCache.Shell.Session

/-!
# Writes of a working cache

Whether or not older documents are refused, a write that is made is a put: a conditional
put whose check accepts what stands there puts the same entry, and one whose check
refuses it puts nothing.  So an add that succeeds has put the row of its document, and a
cache whose files do not fail makes every write that no check refuses.
-/

namespace DocumentCache

/-! ## Puts -/

namespace Engine

/-- A put that succeeds has put its entry. -/
theorem table_of_put {engine after : Engine} {key value : Bytes}
    (h : engine.put key value = (.ok (), after)) : after.table = engine.table.insert key value := by
  have hcommit := engine.table_commit (.put key value)
  rw [put] at h
  rw [h] at hcommit
  rcases hcommit with htable | ⟨-, hfailed⟩
  · exact htable
  · exact absurd rfl hfailed

end Engine

namespace SharedEngine

variable {shared after : SharedEngine} {key value : Bytes}

theorem put_eq (husable : shared.poisoned = false) :
    KeyValueEngine.put shared key value =
      ((shared.engine.put key value).1, ⟨(shared.engine.put key value).2, false⟩) := by
  change shared.write (·.put key value) = _
  obtain ⟨engine, poisoned⟩ := shared
  obtain rfl : poisoned = false := husable
  rfl

variable {check : Option Bytes → Except Error Unit}

/-- A check that refuses what stands there leaves the engine as it is. -/
theorem putIf_of_refused (husable : shared.poisoned = false) {error : Error}
    (hcheck : check (shared.engine.get? key) = .error error) :
    KeyValueEngine.putIf shared key value check =
      (⟨some (shared.engine.get? key), .error error⟩, shared) := by
  obtain ⟨engine, poisoned⟩ := shared
  obtain rfl : poisoned = false := husable
  simp only [KeyValueEngine.putIf, SharedEngine.putIf, Engine.putIf, verdict, hcheck,
    Bool.false_eq_true, if_false]

/-- A put that a check accepts is a put. -/
theorem putIf_of_accepted (husable : shared.poisoned = false)
    (hcheck : check (shared.engine.get? key) = .ok ()) :
    KeyValueEngine.putIf shared key value check =
      (⟨some (shared.engine.get? key), (KeyValueEngine.put shared key value).1⟩,
        (KeyValueEngine.put shared key value).2) := by
  rw [put_eq husable]
  obtain ⟨engine, poisoned⟩ := shared
  obtain rfl : poisoned = false := husable
  simp only [KeyValueEngine.putIf, SharedEngine.putIf, Engine.putIf, verdict, hcheck,
    Bool.false_eq_true, if_false]

end SharedEngine

namespace Cache

/-! ## Requests -/

/-- A document that is to be added, and the time at which it was read. -/
structure Request where
  document : Document
  readTime : ReadTime

namespace Request

def key (request : Request) : DocumentKey := request.document.key

/-- What is read back once the request was met. -/
def stored (request : Request) : Document := request.document.withReadTime request.readTime

/-- The key has no empty segment, and the row is not longer than a machine word can say. -/
def Fits (request : Request) : Prop :=
  request.key.Named ∧ ∀ rowKey row,
    encodeRow Payload.codec request.document request.readTime = .ok (rowKey, row) →
      row.length < wordRange 8

end Request

/-! ## Rows -/

section Rows

variable {ι : Type} {cache : Cache SharedEngine ι} {document : Document} {readTime : ReadTime}
  {rowKey row : Bytes}

/-- What an add checks before it writes, if it checks anything. -/
def checkAdd (cache : Cache SharedEngine ι) (key : DocumentKey) (readTime : ReadTime)
    (rowKey : Bytes) : Except Error Unit :=
  if cache.settings.rejectOlder then
    checkNotOlder key readTime (cache.engine.engine.get? rowKey)
  else .ok ()

/-- A refused write changes nothing but the counters. -/
theorem writeRow_of_refused (row : Bytes) (husable : cache.engine.poisoned = false) {error : Error}
    (hcheck : cache.checkAdd document.key readTime rowKey = .error error) :
    ∃ counters, cache.writeRow document readTime rowKey row =
      (.error error, { cache with counters }) := by
  unfold checkAdd at hcheck
  split at hcheck
  · next hstrict =>
      rw [writeRow, if_pos hstrict, SharedEngine.putIf_of_refused husable hcheck]
      exact ⟨_, rfl⟩
  · cases hcheck

/-- Any other write is a put. -/
theorem writeRow_of_accepted (row : Bytes) (husable : cache.engine.poisoned = false)
    (hcheck : cache.checkAdd document.key readTime rowKey = .ok ()) :
    ∃ counters, cache.writeRow document readTime rowKey row =
      ((KeyValueEngine.put cache.engine rowKey row).1,
        { cache with engine := (KeyValueEngine.put cache.engine rowKey row).2, counters }) := by
  unfold checkAdd at hcheck
  split at hcheck
  · next hstrict =>
      rw [writeRow, if_pos hstrict, SharedEngine.putIf_of_accepted husable hcheck]
      exact ⟨_, rfl⟩
  · next hlenient =>
      rw [writeRow, if_neg hlenient]
      exact ⟨_, rfl⟩

/-- Nothing is written to an engine that refuses every call. -/
theorem writeRow_of_poisoned (hpoisoned : cache.engine.poisoned = true) :
    (cache.writeRow document readTime rowKey row).1 = .error SharedEngine.refusal := by
  obtain ⟨⟨engine, poisoned⟩, index, codec, settings, counters⟩ := cache
  obtain rfl : poisoned = true := hpoisoned
  unfold writeRow
  split <;> rfl

/-- One cache is another one with a row written. -/
structure Wrote (cache after : Cache SharedEngine ι) (rowKey row : Bytes) : Prop where
  answered : AnswersFrom cache.engine cache.engine.engine.table
  answers : AnswersFrom after.engine (cache.engine.engine.table.insert rowKey row)
  table_eq : after.engine.engine.table = cache.engine.engine.table.insert rowKey row
  codec_eq : after.codec = cache.codec
  settings_eq : after.settings = cache.settings

/-- A write that succeeds has written its row. -/
theorem wrote_of_writeRow {after : Cache SharedEngine ι}
    (h : cache.writeRow document readTime rowKey row = (.ok (), after)) :
    cache.Wrote after rowKey row := by
  cases husable : cache.engine.poisoned with
  | true =>
      have hrefused : (cache.writeRow document readTime rowKey row).1 = .error _ :=
        writeRow_of_poisoned husable
      rw [h] at hrefused
      cases hrefused
  | false =>
      cases hcheck : cache.checkAdd document.key readTime rowKey with
      | error error =>
          obtain ⟨counters, hrefused⟩ := writeRow_of_refused row husable hcheck
          rw [h] at hrefused
          cases hrefused
      | ok _ =>
          obtain ⟨counters, hwrite⟩ := writeRow_of_accepted row husable hcheck
          rw [h, SharedEngine.put_eq husable] at hwrite
          obtain ⟨hput, rfl⟩ := Prod.mk.inj hwrite
          have htable : (cache.engine.engine.put rowKey row).2.table =
              cache.engine.engine.table.insert rowKey row :=
            Engine.table_of_put (Prod.ext hput.symm rfl)
          refine ⟨SharedEngine.answersFrom husable, ?_, htable, rfl, rfl⟩
          rw [← htable]
          exact SharedEngine.answersFrom rfl

variable [CollectionIndex ι]

/-- An add that succeeds has written the row of its document. -/
theorem wrote_of_add (hcodec : cache.codec = Payload.codec)
    (h : (cache.add document readTime).1 = .ok ()) :
    ∃ row, encodeRow Payload.codec document readTime =
        .ok (RowKey.ofDocument document.key, row) ∧
      cache.Wrote (cache.add document readTime).2 (RowKey.ofDocument document.key) row := by
  unfold add at h ⊢
  rw [hcodec] at h ⊢
  cases hencode : encodeRow Payload.codec document readTime with
  | error error =>
      rw [hencode] at h
      cases h
  | ok encoded =>
      obtain ⟨rowKey, row⟩ := encoded
      obtain ⟨_, rfl, _⟩ := encodeRow_cases hencode
      refine ⟨row, rfl, ?_⟩
      simp only [hencode] at h ⊢
      cases hwrite : cache.writeRow document readTime (RowKey.ofDocument document.key) row with
      | mk result after =>
          rw [hwrite] at h
          cases result with
          | error error => cases h
          | ok _ =>
              obtain ⟨hbefore, hafter, htable, hcodec, hsettings⟩ := wrote_of_writeRow hwrite
              exact ⟨hbefore, hafter, htable, hcodec, hsettings⟩

end Rows

/-! ## Caches whose files do not fail -/

open Shell (FileCache)

/-- A usable cache in a directory where nothing is going to fail.  Once `short` is known
all records of its log are short enough, and then it may be closed. -/
structure Works (cache : FileCache) (short : Prop) : Prop where
  usable : cache.engine.poisoned = false
  codec_eq : cache.codec = Payload.codec
  calm : cache.engine.engine.fates = []
  synced : ∃ operations, cache.engine.engine.Synced operations ∧
    (short → Operation.AllShort operations)

namespace Works

variable {cache : FileCache} {short : Prop}

theorem answersFrom (h : cache.Works short) :
    AnswersFrom cache.engine cache.engine.engine.table :=
  SharedEngine.answersFrom h.usable

theorem mono (h : cache.Works short) {weaker : Prop} (hshort : weaker → short) :
    cache.Works weaker := by
  obtain ⟨operations, hsync, hall⟩ := h.synced
  exact { h with synced := ⟨operations, hsync, fun hweaker => hall (hshort hweaker)⟩ }

/-- A cache with the same engine and codec works as well. -/
theorem of_engine_eq (h : cache.Works short) {other : FileCache}
    (hengine : other.engine = cache.engine) (hcodec : other.codec = cache.codec) :
    other.Works short := by
  refine ⟨?_, hcodec.trans h.codec_eq, ?_, ?_⟩
  · rw [hengine, h.usable]
  · rw [hengine, h.calm]
  · rw [hengine]
    exact h.synced

/-- A writing call of the engine succeeds. -/
theorem write (h : cache.Works short) (call : Engine → Except Error Unit × Engine)
    {target : Table} {last : Prop}
    (hturns : ∀ operations, cache.engine.engine.Synced operations →
      cache.engine.engine.Turns operations target last (call cache.engine.engine)) :
    ∃ engine, cache.engine.write call = (.ok (), engine) ∧ engine.engine.table = target ∧
      ∀ other : FileCache, other.engine = engine → other.codec = cache.codec →
        other.Works (short ∧ last) := by
  obtain ⟨operations, hsync, hall⟩ := h.synced
  obtain ⟨_, engine, hcall, ⟨htable, _, records, hafter, hrecords⟩, hcalm⟩ :=
    (hturns operations hsync).of_calm h.calm
  refine ⟨⟨engine, false⟩, ?_, htable, ?_⟩
  · simp only [SharedEngine.write, h.usable, hcall, Bool.false_eq_true, if_false]
  · intro other hengine hcodec
    refine ⟨?_, hcodec.trans h.codec_eq, ?_, records, ?_, ?_⟩
    · rw [hengine]
    · rw [hengine, hcalm]
    · rw [hengine]
      exact hafter
    · exact fun hshort => hrecords (hall hshort.1) hshort.2

/-- A row is written unless the check refuses it. -/
theorem writeRow (h : cache.Works short) {document : Document} {readTime : ReadTime}
    (rowKey row : Bytes) (hcheck : cache.checkAdd document.key readTime rowKey = .ok ()) :
    ∃ after, cache.writeRow document readTime rowKey row = (.ok (), after) ∧
      after.Works (short ∧ (Operation.put rowKey row).Short) := by
  obtain ⟨counters, hwrite⟩ := writeRow_of_accepted row h.usable hcheck
  obtain ⟨engine, hput, _, hworks⟩ := h.write (fun engine => engine.put rowKey row)
    fun operations hsync => Engine.put_turns hsync rowKey row
  have hput : KeyValueEngine.put cache.engine rowKey row = (.ok (), engine) := hput
  rw [hput] at hwrite
  exact ⟨_, hwrite, hworks _ rfl rfl⟩

/-- A document whose row can be made is added unless the check refuses it. -/
theorem add (h : cache.Works short) {document : Document} {readTime : ReadTime}
    {rowKey row : Bytes} (hencode : encodeRow cache.codec document readTime = .ok (rowKey, row))
    (hcheck : cache.checkAdd document.key readTime rowKey = .ok ()) :
    (cache.add document readTime).1 = .ok () ∧
      (cache.add document readTime).2.Works (short ∧ (Operation.put rowKey row).Short) := by
  obtain ⟨after, hwrite, hafter⟩ := h.writeRow rowKey row hcheck
  simp only [Cache.add, hencode, hwrite]
  exact ⟨trivial, hafter.of_engine_eq rfl rfl⟩

/-- What the write of a row does: the check refuses it and only counters change, or the row is
written. -/
theorem writeRow_cases (h : cache.Works short) (document : Document) (readTime : ReadTime)
    (rowKey row : Bytes) :
    (∃ error counters, cache.checkAdd document.key readTime rowKey = .error error ∧
        cache.writeRow document readTime rowKey row = (.error error, { cache with counters })) ∨
      cache.checkAdd document.key readTime rowKey = .ok () ∧
        ∃ after, cache.writeRow document readTime rowKey row = (.ok (), after) ∧
          cache.Wrote after rowKey row ∧
          after.Works (short ∧ (Operation.put rowKey row).Short) := by
  cases hcheck : cache.checkAdd document.key readTime rowKey with
  | error error =>
      obtain ⟨counters, hrefused⟩ := writeRow_of_refused row h.usable hcheck
      exact .inl ⟨error, counters, rfl, hrefused⟩
  | ok _ =>
      obtain ⟨after, hwrite, hafter⟩ := h.writeRow rowKey row hcheck
      exact .inr ⟨rfl, after, hwrite, wrote_of_writeRow hwrite, hafter⟩

/-- What an add does: it changes nothing but the counters, or it writes the row of its
document. -/
theorem add_cases (h : cache.Works short) (document : Document) (readTime : ReadTime) :
    (∃ error counters, cache.add document readTime = (.error error, { cache with counters })) ∨
      (cache.add document readTime).1 = .ok () ∧
        ∃ row, encodeRow Payload.codec document readTime =
            .ok (RowKey.ofDocument document.key, row) ∧
          cache.Wrote (cache.add document readTime).2 (RowKey.ofDocument document.key) row ∧
          (cache.add document readTime).2.Works
            (short ∧ (Operation.put (RowKey.ofDocument document.key) row).Short) := by
  cases hencode : encodeRow cache.codec document readTime with
  | error error => exact .inl ⟨error, cache.counters, add_of_encodeRow_error hencode⟩
  | ok encoded =>
      obtain ⟨rowKey, row⟩ := encoded
      rcases h.writeRow_cases document readTime rowKey row with
        ⟨error, counters, -, hrefused⟩ | ⟨hcheck, -⟩
      · refine .inl ⟨error, counters, ?_⟩
        simp only [Cache.add, hencode, hrefused]
      · obtain ⟨hok, hafter⟩ := h.add hencode hcheck
        obtain ⟨other, hother, hwrote⟩ := wrote_of_add h.codec_eq hok
        rw [h.codec_eq, hother] at hencode
        obtain ⟨rfl, rfl⟩ := Prod.mk.inj (Except.ok.inj hencode)
        exact .inr ⟨hok, other, hother, hwrote, hafter⟩

theorem remove (h : cache.Works short) (key : DocumentKey) :
    ∃ engine counters, cache.remove key = (.ok (), { cache with engine, counters }) ∧
      engine.engine.table = cache.engine.engine.table.erase (RowKey.ofDocument key) ∧
      Works { cache with engine, counters } short := by
  obtain ⟨engine, hdelete, htable, hworks⟩ :=
    h.write (fun engine => engine.delete (RowKey.ofDocument key))
      fun operations hsync => Engine.delete_turns hsync (RowKey.ofDocument key)
  have hwrite : KeyValueEngine.delete cache.engine (RowKey.ofDocument key) = (.ok (), engine) :=
    hdelete
  obtain ⟨counters, hremove⟩ := remove_of_delete hwrite
  have hafter := hworks { cache with engine, counters } rfl rfl
  exact ⟨engine, counters, hremove, htable, hafter.mono fun hshort => ⟨hshort, trivial⟩⟩

theorem checkpoint (h : cache.Works short) :
    cache.engine.checkpoint.2.engine.table = cache.engine.engine.table ∧
      Works { cache with engine := cache.engine.checkpoint.2 } short := by
  obtain ⟨engine, hcheckpoint, htable, hworks⟩ := h.write Engine.checkpoint
    fun operations hsync => Engine.checkpoint_turns hsync True
  have hafter := hworks { cache with engine } rfl rfl
  rw [SharedEngine.checkpoint, hcheckpoint]
  exact ⟨htable, hafter.mono fun hshort => ⟨hshort, trivial⟩⟩

end Works

end Cache

end DocumentCache
