import DocumentCache.Proofs.Cache.AddThreads
import DocumentCache.Proofs.Cache.ReadableAdds

/-!
# Racing adds keep the newest document

When older documents are refused, the order in which threads come to write does not
matter: the row of a key is never replaced by one that was read earlier.  A document is
refused exactly if the row that stands there when it comes to be written was read later,
and then nothing is changed.  Once all threads are done, the row is that of the last
document accepted, and no document that was to be added was read later than that one.
-/

namespace DocumentCache.Cache

open Shell (FileCache)

/-! ## Rows that stand -/

/-- The row of a key was read at this time. -/
def StoredAt (table : Table) (key : DocumentKey) (readTime : ReadTime) : Prop :=
  ∃ bytes, table.get? (RowKey.ofDocument key) = some bytes ∧ RowTime bytes readTime

theorem StoredAt.unique {table : Table} {key : DocumentKey} {first second : ReadTime}
    (hfirst : StoredAt table key first) (hsecond : StoredAt table key second) :
    first = second := by
  obtain ⟨bytes, hbytes, htime⟩ := hfirst
  obtain ⟨other, hother, hotherTime⟩ := hsecond
  obtain rfl := Option.some.inj (hbytes.symm.trans hother)
  exact htime.unique hotherTime

theorem StoredAt.exists_row {table : Table} {key : DocumentKey} {readTime : ReadTime}
    (h : StoredAt table key readTime) : table.get? (RowKey.ofDocument key) ≠ none := by
  obtain ⟨bytes, hbytes, -⟩ := h
  rw [hbytes]
  exact Option.some_ne_none bytes

/-- The document is known and was read at some time. -/
def Request.Storable (request : Request) : Prop :=
  request.document.isKnown = true ∧ request.readTime ≠ .never

/-- A document is refused exactly if it is older than the row that stands there, for that
reason, and then the engine stays as it is. -/
structure Attempt.Right (attempt : Attempt) : Prop where
  fails_iff : (∃ error, attempt.result = .error error) ↔
    ∃ stored, StoredAt attempt.before.engine.table attempt.request.key stored ∧
      attempt.request.readTime < stored
  error_eq : ∀ error, attempt.result = .error error →
    ∃ stored, StoredAt attempt.before.engine.table attempt.request.key stored ∧
      error = .invalidArgument
        (.olderReadTime attempt.request.readTime attempt.request.key stored)
  unchanged : ∀ error, attempt.result = .error error → attempt.after = attempt.before

namespace Attempt

variable {attempt : Attempt}

theorem right_of_older {stored : ReadTime}
    (hstored : StoredAt attempt.before.engine.table attempt.request.key stored)
    (holder : attempt.request.readTime < stored)
    (hresult : attempt.result = .error (.invalidArgument
      (.olderReadTime attempt.request.readTime attempt.request.key stored)))
    (hsame : attempt.after = attempt.before) : attempt.Right where
  fails_iff := iff_of_true ⟨_, hresult⟩ ⟨stored, hstored, holder⟩
  error_eq _ herror := ⟨stored, hstored, Except.error.inj (herror.symm.trans hresult)⟩
  unchanged _ _ := hsame

theorem right_of_newer
    (hnewer : ∀ stored, StoredAt attempt.before.engine.table attempt.request.key stored →
      stored ≤ attempt.request.readTime)
    (hok : attempt.result = .ok ()) : attempt.Right := by
  have hnot : ∀ error, attempt.result ≠ .error error := by
    intro error herror
    rw [hok] at herror
    cases herror
  refine ⟨iff_of_false ?_ ?_, fun error h => absurd h (hnot error),
    fun error h => absurd h (hnot error)⟩
  · rintro ⟨error, herror⟩
    exact hnot error herror
  · rintro ⟨stored, hstored, holder⟩
    exact Nat.not_le_of_lt holder (hnewer stored hstored)

end Attempt

/-- Of all rows of a key that were to be written this is the last one that was written. -/
def LastAccepted (key : DocumentKey) (attempts : List Attempt) (last : Attempt) : Prop :=
  last.request.key = key ∧ last.result = .ok () ∧
    ∃ earlier later, attempts = earlier ++ last :: later ∧
      ∀ other ∈ later, other.request.key = key → other.result ≠ .ok ()

namespace LastAccepted

variable {key : DocumentKey} {attempts : List Attempt} {last : Attempt}

theorem mem (h : LastAccepted key attempts last) : last ∈ attempts := by
  obtain ⟨-, -, earlier, later, rfl, -⟩ := h
  exact List.mem_append_right _ (List.mem_cons_self ..)

theorem concat_self (hkey : last.request.key = key) (hok : last.result = .ok ())
    (attempts : List Attempt) : LastAccepted key (attempts ++ [last]) last :=
  ⟨hkey, hok, attempts, [], rfl, List.forall_mem_nil _⟩

theorem concat (h : LastAccepted key attempts last) {other : Attempt}
    (hother : other.request.key = key → other.result ≠ .ok ()) :
    LastAccepted key (attempts ++ [other]) last := by
  obtain ⟨hkey, hok, earlier, later, rfl, hlater⟩ := h
  refine ⟨hkey, hok, earlier, later ++ [other], ?_, ?_⟩
  · rw [List.append_assoc, List.cons_append]
  · rw [List.forall_mem_append]
    exact ⟨hlater, List.forall_mem_singleton.mpr hother⟩

end LastAccepted

/-- The row of a key is that of the last document accepted, and none that was to be written was
read later; without a row there was nothing to be written. -/
inductive Stands (key : DocumentKey) (attempts : List Attempt) (table : Table) : Prop where
  | absent (hrow : table.get? (RowKey.ofDocument key) = none)
      (hnone : ∀ attempt ∈ attempts, attempt.request.key ≠ key)
  | present (last : Attempt) (bytes : Bytes) (row : Row) (hlast : LastAccepted key attempts last)
      (hrow : table.get? (RowKey.ofDocument key) = some bytes)
      (hback : ReadBack last.request.document last.request.readTime bytes row)
      (hnewest : ∀ attempt ∈ attempts, attempt.request.key = key →
        attempt.request.readTime ≤ last.request.readTime)

theorem checkNotOlder_some {bytes : Bytes} {stored : ReadTime} (h : RowTime bytes stored)
    (key : DocumentKey) (readTime : ReadTime) :
    checkNotOlder key readTime (some bytes) =
      if readTime < stored then .error (.invalidArgument (.olderReadTime readTime key stored))
      else .ok () := by
  obtain ⟨row, hrow, hread⟩ := h
  rw [← parseRow_eq_ok_iff] at hrow
  rw [← rowReadTime_eq_ok_iff] at hread
  simp only [checkNotOlder, hrow, hread, bind, Except.bind]
  split <;> rfl

namespace Stands

variable {key : DocumentKey} {attempts : List Attempt} {table : Table}

theorem of_row_eq {other : Table} (h : Stands key attempts table)
    (hrow : other.get? (RowKey.ofDocument key) = table.get? (RowKey.ofDocument key)) :
    Stands key attempts other := by
  cases h with
  | absent hnone hothers => exact .absent (hrow.trans hnone) hothers
  | present last bytes row hlast hheld hback hnewest =>
      exact .present last bytes row hlast (hrow.trans hheld) hback hnewest

/-- Writes under other keys do not matter. -/
theorem concat_other (h : Stands key attempts table) {attempt : Attempt}
    (hkey : attempt.request.key ≠ key) : Stands key (attempts ++ [attempt]) table := by
  cases h with
  | absent hrow hnone =>
      refine .absent hrow ?_
      rw [List.forall_mem_append]
      exact ⟨hnone, List.forall_mem_singleton.mpr hkey⟩
  | present last bytes row hlast hrow hback hnewest =>
      refine .present last bytes row (hlast.concat fun h => absurd h hkey) hrow hback ?_
      rw [List.forall_mem_append]
      exact ⟨hnewest, List.forall_mem_singleton.mpr fun h => absurd h hkey⟩

/-- A document that is refused is no newer than the row that stands. -/
theorem concat_refused (h : Stands key attempts table) {attempt : Attempt} {stored : ReadTime}
    (hrefused : attempt.result ≠ .ok ()) (hstored : StoredAt table key stored)
    (holder : attempt.request.readTime < stored) : Stands key (attempts ++ [attempt]) table := by
  cases h with
  | absent hrow hnone => exact absurd hrow hstored.exists_row
  | present last bytes row hlast hrow hback hnewest =>
      obtain rfl := hstored.unique ⟨bytes, hrow, hback.rowTime⟩
      refine .present last bytes row (hlast.concat fun _ => hrefused) hrow hback ?_
      rw [List.forall_mem_append]
      exact ⟨hnewest, List.forall_mem_singleton.mpr fun _ => Nat.le_of_lt holder⟩

/-- A document that is accepted replaces one that is no newer. -/
theorem concat_accepted (h : Stands key attempts table) {attempt : Attempt} {bytes : Bytes}
    {row : Row} (hkey : attempt.request.key = key) (hok : attempt.result = .ok ())
    (hnewer : ∀ stored, StoredAt table key stored → stored ≤ attempt.request.readTime)
    (hback : ReadBack attempt.request.document attempt.request.readTime bytes row) :
    Stands key (attempts ++ [attempt]) (table.insert (RowKey.ofDocument key) bytes) := by
  refine .present attempt bytes row (.concat_self hkey hok attempts)
    (Table.get?_insert_self _ _ _) hback ?_
  rw [List.forall_mem_append]
  refine ⟨?_, List.forall_mem_singleton.mpr fun _ => Nat.le_refl _⟩
  intro other hmem hother
  cases h with
  | absent hrow hnone => exact absurd hother (hnone other hmem)
  | present last held heldRow hlast hrow hheld hnewest =>
      exact Nat.le_trans (hnewest other hmem hother)
        (hnewer _ ⟨held, hrow, hheld.rowTime⟩)

/-- The check refuses what is older than the row that stands there, and nothing else. -/
theorem checkAdd_cases {cache : FileCache} (h : Stands key attempts cache.engine.engine.table)
    (hstrict : cache.settings.rejectOlder = true) (readTime : ReadTime) :
    (∃ stored, StoredAt cache.engine.engine.table key stored ∧ readTime < stored ∧
        cache.checkAdd key readTime (RowKey.ofDocument key) =
          .error (.invalidArgument (.olderReadTime readTime key stored))) ∨
      (∀ stored, StoredAt cache.engine.engine.table key stored → stored ≤ readTime) ∧
        cache.checkAdd key readTime (RowKey.ofDocument key) = .ok () := by
  simp only [checkAdd, hstrict, if_true, Engine.get?]
  cases h with
  | absent hrow hnone =>
      rw [hrow]
      exact .inr ⟨fun _ hstored => absurd hrow hstored.exists_row, rfl⟩
  | present last bytes row hlast hrow hback hnewest =>
      have hstored : StoredAt cache.engine.engine.table key last.request.readTime :=
        ⟨bytes, hrow, hback.rowTime⟩
      rw [hrow, checkNotOlder_some hback.rowTime]
      by_cases holder : readTime < last.request.readTime
      · rw [if_pos holder]
        exact .inl ⟨last.request.readTime, hstored, holder, rfl⟩
      · rw [if_neg holder]
        refine .inr ⟨?_, rfl⟩
        intro stored hother
        rw [hother.unique hstored]
        exact Nat.le_of_not_lt holder

end Stands

/-! ## What every turn keeps -/

/-- A working cache that refuses older documents, the writes that were made to it, and the row
that stands under a key. -/
structure Newest (key : DocumentKey) (cache : FileCache) (attempts : List Attempt) : Prop where
  works : cache.Works False
  strict : cache.settings.rejectOlder = true
  right : ∀ attempt ∈ attempts, attempt.request.key = key → attempt.Right
  stands : Stands key attempts cache.engine.engine.table

namespace Newest

variable {key : DocumentKey} {cache : FileCache} {attempts : List Attempt}

theorem of_row_eq (h : Newest key cache attempts) {other : FileCache} (hworks : other.Works False)
    (hsettings : other.settings = cache.settings)
    (hrow : other.engine.engine.table.get? (RowKey.ofDocument key) =
      cache.engine.engine.table.get? (RowKey.ofDocument key)) : Newest key other attempts where
  works := hworks
  strict := by rw [hsettings, h.strict]
  right := h.right
  stands := h.stands.of_row_eq hrow

theorem concat_other (h : Newest key cache attempts) {attempt : Attempt}
    (hkey : attempt.request.key ≠ key) : Newest key cache (attempts ++ [attempt]) where
  works := h.works
  strict := h.strict
  right := by
    rw [List.forall_mem_append]
    exact ⟨h.right, List.forall_mem_singleton.mpr fun h => absurd h hkey⟩
  stands := h.stands.concat_other hkey

/-- A write under another key leaves the row alone. -/
theorem write_other (h : Newest key cache attempts) {request : Request} {row : Bytes}
    (hkey : request.key ≠ key) :
    Newest key
      (cache.writeRow request.document request.readTime (RowKey.ofDocument request.key) row).2
      (attempts ++ [cache.attempt request (RowKey.ofDocument request.key) row]) := by
  refine concat_other ?_ hkey
  rcases h.works.writeRow_cases request.document request.readTime
    (RowKey.ofDocument request.key) row with
    ⟨error, counters, -, hrefused⟩ | ⟨-, after, hwrite, hwrote, hworks⟩
  · rw [hrefused]
    exact h.of_row_eq (h.works.of_engine_eq rfl rfl) rfl rfl
  · rw [hwrite]
    refine h.of_row_eq (hworks.mono False.elim) hwrote.settings_eq ?_
    rw [hwrote.table_eq]
    exact Table.get?_insert_of_ne _ _ (mt RowKey.ofDocument_injective (Ne.symm hkey))

theorem concat (h : Newest key cache attempts) {other : FileCache} {attempt : Attempt}
    (hworks : other.Works False) (hsettings : other.settings = cache.settings)
    (hright : attempt.Right)
    (hstands : Stands key (attempts ++ [attempt]) other.engine.engine.table) :
    Newest key other (attempts ++ [attempt]) where
  works := hworks
  strict := by rw [hsettings, h.strict]
  right := by
    rw [List.forall_mem_append]
    exact ⟨h.right, List.forall_mem_singleton.mpr fun _ => hright⟩
  stands := hstands

/-- A write under the key is refused if the row that stands there was read later, and replaces
it otherwise. -/
theorem write_same {request : Request} (h : Newest request.key cache attempts) {row : Bytes}
    (hfits : request.Fits)
    (hencode : encodeRow Payload.codec request.document request.readTime =
      .ok (RowKey.ofDocument request.key, row)) :
    Newest request.key
      (cache.writeRow request.document request.readTime (RowKey.ofDocument request.key) row).2
      (attempts ++ [cache.attempt request (RowKey.ofDocument request.key) row]) := by
  -- The check sees the row that stands, so it compares with the newest document so far.
  rcases h.stands.checkAdd_cases h.strict request.readTime with
    ⟨stored, hstored, holder, hcheck⟩ | ⟨hnewer, hcheck⟩
  · obtain ⟨counters, hrefused⟩ := writeRow_of_refused row h.works.usable hcheck
    have hresult : (cache.attempt request (RowKey.ofDocument request.key) row).result =
        .error (.invalidArgument (.olderReadTime request.readTime request.key stored)) := by
      simp only [attempt, hrefused]
    have hsame : (cache.attempt request (RowKey.ofDocument request.key) row).after =
        cache.engine := by
      simp only [attempt, hrefused]
    have hnot : (cache.attempt request (RowKey.ofDocument request.key) row).result ≠ .ok () := by
      rw [hresult]
      intro hok
      cases hok
    have hstands := h.stands.concat_refused hnot hstored holder
    rw [hrefused]
    exact h.concat (h.works.of_engine_eq rfl rfl) rfl
      (Attempt.right_of_older hstored holder hresult hsame) hstands
  · obtain ⟨after, hwrite, hworks⟩ := h.works.writeRow (RowKey.ofDocument request.key) row hcheck
    have hwrote := wrote_of_writeRow hwrite
    obtain ⟨stored, hback⟩ := exists_readBack hfits.1 hencode (hfits.2 _ row hencode)
    have hok : (cache.attempt request (RowKey.ofDocument request.key) row).result = .ok () := by
      simp only [attempt, hwrite]
    have hstands := h.stands.concat_accepted rfl hok hnewer hback
    rw [← hwrote.table_eq] at hstands
    rw [hwrite]
    exact h.concat (hworks.mono False.elim) hwrote.settings_eq
      (Attempt.right_of_newer hnewer hok) hstands

/-- Other writes to the engine leave the row alone. -/
theorem write_engine (h : Newest key cache attempts)
    (call : Engine → Except Error Unit × Engine) {target : Table} {last : Prop}
    (hturns : ∀ operations, cache.engine.engine.Synced operations →
      cache.engine.engine.Turns operations target last (call cache.engine.engine))
    (hrow : target.get? (RowKey.ofDocument key) =
      cache.engine.engine.table.get? (RowKey.ofDocument key)) :
    Newest key { cache with engine := (cache.engine.write call).2 } attempts := by
  obtain ⟨engine, hcall, htable, hworks⟩ := h.works.write call hturns
  have hafter := hworks { cache with engine } rfl rfl
  rw [hcall]
  rw [← htable] at hrow
  exact h.of_row_eq (hafter.mono False.elim) rfl hrow

end Newest

/-! ## What every turn keeps of the threads -/

/-- An add that came to a write is on record, and any other one cannot be encoded. -/
def Outcome.Recorded (attempts : List Attempt) : Outcome → Prop
  | .refused request error =>
      encodeRow Payload.codec request.document request.readTime = .error error
  | .tried attempt => attempt ∈ attempts

def Stage.Recorded (attempts : List Attempt) : Stage → Prop
  | .ready => True
  | .writing request rowKey row =>
      encodeRow Payload.codec request.document request.readTime = .ok (rowKey, row)
  | .wrote attempt _ _ => attempt ∈ attempts
  | .counted attempt => attempt ∈ attempts

structure Writer.Recorded (attempts : List Attempt) (writer : Writer) : Prop where
  stage : writer.stage.Recorded attempts
  outcomes : ∀ outcome ∈ writer.outcomes, outcome.Recorded attempts

theorem Outcome.Recorded.append {attempts : List Attempt} {outcome : Outcome}
    (h : outcome.Recorded attempts) (made : List Attempt) :
    outcome.Recorded (attempts ++ made) := by
  cases outcome with
  | refused _ _ => exact h
  | tried _ => exact List.mem_append_left _ h

theorem Stage.Recorded.append {attempts : List Attempt} {stage : Stage}
    (h : stage.Recorded attempts) (made : List Attempt) : stage.Recorded (attempts ++ made) := by
  cases stage with
  | ready => exact h
  | writing _ _ _ => exact h
  | wrote _ _ _ => exact List.mem_append_left _ h
  | counted _ => exact List.mem_append_left _ h

theorem Writer.Recorded.append {attempts : List Attempt} {writer : Writer}
    (h : writer.Recorded attempts) (made : List Attempt) : writer.Recorded (attempts ++ made) :=
  ⟨h.stage.append made, fun outcome hmem => (h.outcomes outcome hmem).append made⟩

/-- One more outcome is on record. -/
theorem Writer.Recorded.returned {attempts : List Attempt} {writer : Writer}
    (h : writer.Recorded attempts) {outcome : Outcome} (houtcome : outcome.Recorded attempts)
    (todo : List Request) :
    Writer.Recorded attempts ⟨.ready, todo, writer.outcomes ++ [outcome]⟩ := by
  refine ⟨trivial, ?_⟩
  rw [List.forall_mem_append]
  exact ⟨h.outcomes, List.forall_mem_singleton.mpr houtcome⟩

theorem Turn.recorded {cache next : FileCache} {writer moved : Writer}
    {attempts made : List Attempt} (h : Turn cache writer next moved made)
    (hcodec : cache.codec = Payload.codec) (hwriter : writer.Recorded attempts) :
    moved.Recorded (attempts ++ made) := by
  cases h with
  | @refuse request todo outcomes error hencode =>
      have houtcome : (Outcome.refused request error).Recorded attempts := by
        rw [hcodec] at hencode
        exact hencode
      exact (hwriter.returned houtcome todo).append []
  | @encode request todo outcomes rowKey row hencode =>
      have hstage : (Stage.writing request rowKey row).Recorded attempts := by
        rw [hcodec] at hencode
        exact hencode
      exact ⟨hstage.append [], (hwriter.append []).outcomes⟩
  | @write request rowKey row todo outcomes =>
      exact ⟨List.mem_append_right _ (List.mem_singleton_self _), (hwriter.append _).outcomes⟩
  | @fail attempt rowKey row todo outcomes error hresult =>
      have houtcome : (Outcome.tried attempt).Recorded attempts := hwriter.stage
      exact (hwriter.returned houtcome todo).append []
  | count hresult => exact ⟨(hwriter.append []).stage, (hwriter.append []).outcomes⟩
  | @notify attempt todo outcomes =>
      have houtcome : (Outcome.tried attempt).Recorded attempts := hwriter.stage
      exact (hwriter.returned houtcome todo).append []

theorem Turn.newest {key : DocumentKey} {cache next : FileCache} {writer moved : Writer}
    {attempts made : List Attempt} (h : Turn cache writer next moved made)
    (hnewest : Newest key cache attempts) (hwriter : writer.Recorded attempts)
    (hfits : ∀ request ∈ writer.plan, request.key = key → request.Fits) :
    Newest key next (attempts ++ made) := by
  cases h with
  | @write request rowKey row todo outcomes =>
      have hencode : encodeRow Payload.codec request.document request.readTime =
          .ok (rowKey, row) := hwriter.stage
      obtain ⟨-, rfl, -⟩ := encodeRow_cases hencode
      by_cases hkey : request.key = key
      · subst hkey
        have hmem : request ∈ Writer.plan ⟨.writing request (RowKey.ofDocument request.key) row,
            todo, outcomes⟩ := by
          simp [Writer.plan, Stage.requests]
        exact hnewest.write_same (hfits request hmem rfl) hencode
      · exact hnewest.write_other hkey
  | count | notify =>
      rw [List.append_nil]
      exact hnewest.of_row_eq (hnewest.works.of_engine_eq rfl rfl) rfl rfl
  | refuse | encode | fail =>
      rw [List.append_nil]
      exact hnewest

theorem Turn.planned {cache next : FileCache} {writer moved : Writer} {made : List Attempt}
    (h : Turn cache writer next moved made) : ∀ attempt ∈ made, attempt.request ∈ writer.plan := by
  cases h with
  | write =>
      rw [List.forall_mem_singleton]
      simp [Writer.plan, Stage.requests, attempt]
  | _ => exact List.forall_mem_nil _

/-! ## Runs -/

/-- What holds of the cache and of all threads after every turn. -/
structure Writers.Sound (key : DocumentKey) (plans : List (List Request)) (s : Writers) :
    Prop where
  newest : Newest key s.cache s.attempts
  recorded : ∀ writer ∈ s.writers, writer.Recorded s.attempts
  plans_eq : s.writers.map Writer.plan = plans
  planned : ∀ attempt ∈ s.attempts, attempt.request ∈ plans.flatten

section Runs

variable {key : DocumentKey} {plans : List (List Request)} {s t : Writers}

theorem Writers.Sound.mem_flatten (hs : s.Sound key plans) {writer : Writer}
    (hmem : writer ∈ s.writers) {request : Request} (hplan : request ∈ writer.plan) :
    request ∈ plans.flatten := by
  rw [← hs.plans_eq]
  exact List.mem_flatten.mpr ⟨writer.plan, List.mem_map_of_mem hmem, hplan⟩

theorem Writers.Sound.start {cache : FileCache} (hworks : cache.Works False)
    (hstrict : cache.settings.rejectOlder = true)
    (hnone : cache.engine.engine.table.get? (RowKey.ofDocument key) = none)
    (plans : List (List Request)) : (Writers.start cache plans).Sound key plans where
  newest := ⟨hworks, hstrict, List.forall_mem_nil _, .absent hnone (List.forall_mem_nil _)⟩
  recorded writer hmem := by
    obtain ⟨plan, -, rfl⟩ := List.mem_map.mp hmem
    exact ⟨trivial, List.forall_mem_nil _⟩
  plans_eq := plans_start cache plans
  planned := List.forall_mem_nil _

/-- Every turn of a thread and every call of somebody else keeps the invariant. -/
theorem Step.sound (h : Step key s t) (hs : s.Sound key plans)
    (hfits : ∀ request ∈ plans.flatten, request.key = key → request.Fits) :
    t.Sound key plans := by
  have hplans := h.plans_eq.trans hs.plans_eq
  cases h with
  | @turn cache before writer after attempts next moved made hturn =>
      have hmem : writer ∈ before ++ writer :: after :=
        List.mem_append_right _ (List.mem_cons_self ..)
      have hwriter := hs.recorded writer hmem
      refine ⟨?_, ?_, hplans, ?_⟩
      · apply hturn.newest hs.newest hwriter
        intro request hplan
        exact hfits request (hs.mem_flatten hmem hplan)
      · have hall : ∀ other ∈ before ++ writer :: after, other.Recorded attempts := hs.recorded
        simp only [List.forall_mem_append, List.forall_mem_cons] at hall ⊢
        obtain ⟨hbefore, -, hafter⟩ := hall
        exact ⟨fun other hother => (hbefore other hother).append made,
          hturn.recorded hs.newest.works.codec_eq hwriter,
          fun other hother => (hafter other hother).append made⟩
      · rw [List.forall_mem_append]
        exact ⟨hs.planned, fun attempt hmade =>
          hs.mem_flatten hmem (hturn.planned attempt hmade)⟩
  | put rowKey value hkey =>
      refine ⟨?_, hs.recorded, hplans, hs.planned⟩
      exact hs.newest.write_engine (fun engine => engine.put rowKey value)
        (fun operations hsync => Engine.put_turns hsync rowKey value)
        (Table.get?_insert_of_ne _ _ (Ne.symm hkey))
  | delete rowKey hkey =>
      refine ⟨?_, hs.recorded, hplans, hs.planned⟩
      exact hs.newest.write_engine (fun engine => engine.delete rowKey)
        (fun operations hsync => Engine.delete_turns hsync rowKey)
        (Table.get?_erase_of_ne _ (Ne.symm hkey))
  | checkpoint =>
      refine ⟨?_, hs.recorded, hplans, hs.planned⟩
      exact hs.newest.write_engine Engine.checkpoint
        (fun operations hsync => Engine.checkpoint_turns hsync True) rfl
  | note counters index =>
      refine ⟨?_, hs.recorded, hplans, hs.planned⟩
      exact hs.newest.of_row_eq (hs.newest.works.of_engine_eq rfl rfl) rfl rfl

theorem Reaches.sound (h : Reaches key s t) (hs : s.Sound key plans)
    (hfits : ∀ request ∈ plans.flatten, request.key = key → request.Fits) :
    t.Sound key plans := by
  induction h with
  | refl => exact hs
  | tail _ hstep ih => exact hstep.sound ih hfits

/-- The row of the key is not replaced by one that was read earlier. -/
theorem Reaches.stored_le (h : Reaches key s t) (hs : s.Sound key plans) (ht : t.Sound key plans)
    {time : ReadTime} (hstored : StoredAt s.cache.engine.engine.table key time) :
    ∃ later, StoredAt t.cache.engine.engine.table key later ∧ time ≤ later := by
  cases hs.newest.stands with
  | absent hrow hnone => exact absurd hrow hstored.exists_row
  | present first bytes row hfirst hrow hback hnewest =>
      obtain rfl := hstored.unique ⟨bytes, hrow, hback.rowTime⟩
      -- What was on record stays on record, and no row that stands is older than what is.
      have hmem : first ∈ t.attempts := h.attempts_prefix.subset hfirst.mem
      cases ht.newest.stands with
      | absent _ hnone => exact absurd hfirst.1 (hnone first hmem)
      | present last held heldRow hlast hheld hheldBack hlatest =>
          exact ⟨last.request.readTime, ⟨held, hheld, hheldBack.rowTime⟩,
            hlatest first hmem hfirst.1⟩

/-- An add of a document that can be stored comes to a write, which is on record. -/
theorem Outcome.Recorded.exists_attempt {attempts : List Attempt} {outcome : Outcome}
    (h : outcome.Recorded attempts) (hstorable : outcome.request.Storable) :
    ∃ attempt ∈ attempts, outcome = .tried attempt := by
  cases outcome with
  | refused request error =>
      obtain ⟨row, hrow⟩ := encodeRow_of_known hstorable.1 hstorable.2
      have herror : encodeRow Payload.codec request.document request.readTime = .error error := h
      rw [Outcome.request, herror] at hrow
      cases hrow
  | tried attempt => exact ⟨attempt, h, rfl⟩

/-- Once all adds have returned, those of documents that can be stored came to a write. -/
theorem Writers.Sound.exists_attempt (hs : s.Sound key plans) (hdone : s.Done)
    {request : Request} (hmem : request ∈ plans.flatten) (hstorable : request.Storable) :
    ∃ attempt ∈ s.attempts, attempt.request = request := by
  rw [← hs.plans_eq] at hmem
  obtain ⟨plan, hplan, hrequest⟩ := List.mem_flatten.mp hmem
  obtain ⟨writer, hwriter, rfl⟩ := List.mem_map.mp hplan
  obtain ⟨hstage, htodo⟩ := hdone writer hwriter
  rw [Writer.plan, hstage, htodo, Stage.requests, List.append_nil, List.append_nil] at hrequest
  obtain ⟨outcome, houtcome, rfl⟩ := List.mem_map.mp hrequest
  obtain ⟨attempt, hattempt, rfl⟩ :=
    ((hs.recorded writer hwriter).outcomes outcome houtcome).exists_attempt hstorable
  exact ⟨attempt, hattempt, rfl⟩

/-- The row of a key is that of the last document accepted for it, and that is the newest of
all that were to be added; without any there is no row. -/
def NewestStands (key : DocumentKey) (plans : List (List Request)) (s : Writers) : Prop :=
  (∀ request ∈ plans.flatten, request.key = key → ¬ request.Storable) ∧
      s.cache.engine.engine.table.get? (RowKey.ofDocument key) = none ∨
    ∃ last, LastAccepted key s.attempts last ∧ last.request ∈ plans.flatten ∧
      last.request.Storable ∧
      StoredAt s.cache.engine.engine.table key last.request.readTime ∧
      (s.cache.get key).1 = .ok last.request.stored ∧
      ∀ request ∈ plans.flatten, request.key = key → request.Storable →
        request.readTime ≤ last.request.readTime

theorem Writers.Sound.newestStands (hs : s.Sound key plans) (hdone : s.Done) :
    NewestStands key plans s := by
  cases hs.newest.stands with
  | absent hrow hnone =>
      refine .inl ⟨?_, hrow⟩
      intro request hmem hkey hstorable
      obtain ⟨attempt, hattempt, rfl⟩ := hs.exists_attempt hdone hmem hstorable
      exact hnone attempt hattempt hkey
  | present last bytes row hlast hrow hback hnewest =>
      obtain ⟨-, hknown, -⟩ := known_of_decodeContents hback.contents_eq
      obtain ⟨-, -, hread⟩ := columns_of_readTime hback.readTime_eq
      rw [Document.isKnown_withReadTime] at hknown
      have hstorable : last.request.Storable := by
        refine ⟨hknown, ?_⟩
        intro hnever
        rw [hnever] at hread
        exact Nat.lt_irrefl _ hread
      refine .inr ⟨last, hlast, hs.planned last hlast.mem, hstorable,
        ⟨bytes, hrow, hback.rowTime⟩, ?_, ?_⟩
      · obtain rfl := hlast.1
        rw [get_eq hs.newest.works.answersFrom, hrow, hs.newest.works.codec_eq]
        exact hback.decodeRow_eq
      · intro request hmem hkey hrequest
        obtain ⟨attempt, hattempt, rfl⟩ := hs.exists_attempt hdone hmem hrequest
        exact hnewest attempt hattempt hkey

/-- Where older documents are refused, the newest one stays, whatever the order in which threads
add documents under a key that had no row.  Every add that returned was right about the row that
stood when it came to write, the read time stored never goes back, all threads can get done,
and then the row is that of the newest document. -/
theorem racing_adds_keep_newest {cache : FileCache} (hworks : cache.Works False)
    (hstrict : cache.settings.rejectOlder = true)
    (hnone : cache.engine.engine.table.get? (RowKey.ofDocument key) = none)
    (hfits : ∀ request ∈ plans.flatten, request.key = key → request.Fits)
    (hs : Reaches key (.start cache plans) s) :
    (∀ writer ∈ s.writers, ∀ outcome ∈ writer.outcomes, outcome.request.key = key →
        outcome.request.Storable → ∃ attempt, outcome = .tried attempt ∧ attempt.Right) ∧
      (∀ t, Reaches key s t → ∀ time, StoredAt s.cache.engine.engine.table key time →
        ∃ later, StoredAt t.cache.engine.engine.table key later ∧ time ≤ later) ∧
      (∃ t, Reaches key s t ∧ t.Done) ∧
      (s.Done → NewestStands key plans s) := by
  have hsound := hs.sound (.start hworks hstrict hnone plans) hfits
  refine ⟨?_, ?_, s.exists_done, hsound.newestStands⟩
  · intro writer hwriter outcome houtcome hkey hstorable
    obtain ⟨attempt, hattempt, rfl⟩ :=
      ((hsound.recorded writer hwriter).outcomes outcome houtcome).exists_attempt hstorable
    exact ⟨attempt, rfl, hsound.newest.right attempt hattempt hkey⟩
  · intro t ht time hstored
    exact ht.stored_le hsound (ht.sound hsound hfits) hstored

end Runs

/-- Older documents are refused. -/
def strictSettings : Settings := { Settings.default with rejectOlder := true }

/-- Two threads that add the odd note and its tombstone, the one of them twice. -/
def oddPlans : List (List Request) := [[oddReading, oddReading], [oddTombstone]]

/-- Whoever comes first, in the end the odd note is deleted. -/
theorem racing_adds_keep_newest_oddNote :
    ∃ cache, openOn strictSettings .empty = .ok cache ∧
      ∃ s, Reaches (noteKey "odd") (.start cache oddPlans) s ∧ s.Done ∧
        (s.cache.get (noteKey "odd")).1 = .ok oddTombstone.stored := by
  have hvalid : strictSettings.validate = .ok () := rfl
  obtain ⟨cache, hopen, hsettings, htable, hworks⟩ := openOn_works hvalid Engine.records_empty rfl
  have hstrict : cache.settings.rejectOlder = true := by
    rw [hsettings]
    rfl
  have hnone : cache.engine.engine.table.get? (RowKey.ofDocument (noteKey "odd")) = none := by
    rw [htable]
    rfl
  have hplans : oddPlans.flatten = [oddReading, oddReading, oddTombstone] := rfl
  have hfits : ∀ request ∈ oddPlans.flatten, request.key = noteKey "odd" → request.Fits := by
    rw [hplans]
    simp only [List.forall_mem_cons]
    exact ⟨fun _ => oddReading_allowed_short.1, fun _ => oddReading_allowed_short.1,
      fun _ => oddTombstone_allowed_short.1, List.forall_mem_nil _⟩
  have htombstone : oddTombstone ∈ oddPlans.flatten := by simp [hplans]
  have hstorable : oddTombstone.Storable := ⟨rfl, by decide⟩
  obtain ⟨s, hreach, hdone⟩ := (Writers.start cache oddPlans).exists_done
  have hkept := racing_adds_keep_newest (hworks.mono False.elim) hstrict hnone hfits hreach
  refine ⟨cache, hopen, s, hreach, hdone, ?_⟩
  rcases hkept.2.2.2 hdone with ⟨hothers, -⟩ | ⟨last, -, hlast, -, -, hget, hnewest⟩
  · exact absurd hstorable (hothers oddTombstone htombstone rfl)
  · have hle := hnewest oddTombstone htombstone rfl hstorable
    rw [hplans] at hlast
    simp only [List.mem_cons, List.not_mem_nil, or_false, or_self_left] at hlast
    rcases hlast with hreading | hsame
    · rw [hreading] at hle
      exact absurd hle (by decide)
    · rw [hget, hsame]

end DocumentCache.Cache
