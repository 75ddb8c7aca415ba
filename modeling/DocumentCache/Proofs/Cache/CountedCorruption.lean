import DocumentCache.Proofs.Cache.RequestedSpans
import DocumentCache.Proofs.Cache.WholeAdds
import DocumentCache.Proofs.Journal.Failures

/-!
# Corrupt records are counted

A call that reports a corrupt record has counted it once, and no other call counts one,
wherever in the row the corruption shows: in the row itself, in its read time, in its row
key, in its payload, or in the key that the payload is for.  The jobs of a query count what
they find, so what the pool has counted is always what its first failure reports.  There is
one exception.  An add that compares read times counts a stored row that is no row at all,
but not one whose columns are no read time, although it is refused for either.
-/

namespace DocumentCache

/-- What a codec refuses to encode is never called a corrupt record. -/
def Codec.EncodesPlainly (codec : Codec) : Prop :=
  ∀ document error, codec.encode document = .error error → error.isCorruption = false

theorem Payload.codec_encodesPlainly : Payload.codec.EncodesPlainly := by
  intro document error h
  cases document with
  | unknown key =>
      obtain rfl := Except.error.inj h
      rfl
  | found key version readTime data => cases h
  | deleted key version readTime => cases h

namespace Cache

open SharedEngine (putIf_of_poisoned putIf_of_refused putIf_of_accepted)

/-! ## What is counted -/

section Counting

variable {α : Type}

/-- What a result should add to the count of corrupt records. -/
def reported : Except Error α → UInt64
  | .error error => if error.isCorruption then 1 else 0
  | .ok _ => 0

theorem reported_of_plain {error : Error} (h : error.isCorruption = false) :
    reported (.error error : Except Error α) = 0 := by
  simp only [reported, h, Bool.false_eq_true, if_false]

theorem corruptRecords_countCorrupt (counters : Counters) (result : Except Error α) :
    (countCorrupt counters result).corruptRecords =
      counters.corruptRecords + reported result := by
  cases result with
  | ok value => exact (UInt64.add_zero _).symm
  | error error =>
      simp only [countCorrupt, reported]
      split
      · rfl
      · exact (UInt64.add_zero _).symm

variable {σ ι : Type}

/-- The call counted what it reports, and nothing else. -/
def CountsReport (cache : Cache σ ι) (outcome : Except Error α × Cache σ ι) : Prop :=
  outcome.2.counters.corruptRecords = cache.counters.corruptRecords + reported outcome.1

/-- A call that counts nothing and reports no corrupt record. -/
theorem countsReport_of_plain {cache : Cache σ ι} {outcome : Except Error α × Cache σ ι}
    (hsame : outcome.2.counters.corruptRecords = cache.counters.corruptRecords)
    (hplain : ∀ error, outcome.1 = .error error → error.isCorruption = false) :
    cache.CountsReport outcome := by
  have hnone : reported outcome.1 = 0 := by
    cases hresult : outcome.1 with
    | ok value => rfl
    | error error => exact reported_of_plain (hplain error hresult)
  rw [CountsReport, hsame, hnone, UInt64.add_zero]

end Counting

/-! ## Jobs -/

section Jobs

variable (codec : Codec) (query : Query) {start : UInt64} {pool : DecodePool Matches}

/-- The jobs of a pool have counted what its failure reports. -/
def Tallied (start : UInt64) (pool : DecodePool Matches) : Prop :=
  pool.shared.counters.corruptRecords = start + reported (progress pool)

theorem matchJob_counts (pending : Pending) (shared : Matches) :
    ((matchJob codec query pending).run shared).2.counters.corruptRecords =
      shared.counters.corruptRecords + reported (keepMatch codec query shared.found pending) := by
  simp only [matchJob, keepMatch]
  cases decodeContents codec pending.contents pending.readTime pending.key with
  | error error => exact corruptRecords_countCorrupt shared.counters (.error error : Except _ Unit)
  | ok document =>
      dsimp only
      by_cases hfound : document.isFound = true
      · rw [if_pos hfound, if_pos hfound]
        cases query.matchesDocument document with
        | none => exact (UInt64.add_zero _).symm
        | some answer => cases answer <;> exact (UInt64.add_zero _).symm
      · rw [if_neg hfound, if_neg hfound]
        exact (UInt64.add_zero _).symm

theorem Tallied.runInline (h : Tallied start pool) (pending : Pending) :
    Tallied start (pool.runInline (matchJob codec query pending)) := by
  by_cases hskip : pool.shouldSkip = true
  · rw [DecodePool.runInline_of_skip hskip]
    exact h
  · rw [Tallied, progress_of_running hskip] at h
    have hbefore : pool.shared.counters.corruptRecords = start :=
      h.trans (UInt64.add_zero start)
    rw [DecodePool.runInline_of_running hskip, Tallied, progress, matchJob_run, ← hbefore]
    exact matchJob_counts codec query pending pool.shared

/-- A query that decodes all rows itself ends with the first failure counted. -/
theorem Tallied.runJobs (h : Tallied start pool) (pending : List Pending) :
    Tallied start (Cache.runJobs codec query false pending pool) := by
  induction pending generalizing pool with
  | nil => exact h
  | cons first rest ih => exact ih (h.runInline codec query first)

theorem Tallied.drain (h : Tallied start pool) (hcalm : pool.interrupted = false) :
    pool.drain.2.shared.counters.corruptRecords = start + reported (drained pool.drain) := by
  rw [DecodePool.shared_drain, drained_drain, hcalm]
  exact h

theorem tallied_create (workers : Nat) (counters : Counters) :
    Tallied counters.corruptRecords (DecodePool.create workers false ⟨.empty, counters⟩) :=
  (UInt64.add_zero _).symm

/-- The jobs of one scan have counted what it answers. -/
theorem drained_tallied (pending : List Pending) (workers : Nat) (counters : Counters) :
    let result := (Cache.runJobs codec query false pending
      (DecodePool.create workers false ⟨.empty, counters⟩)).drain
    result.2.shared.counters.corruptRecords =
      counters.corruptRecords + reported (drained result) := by
  have hjobs := (tallied_create workers counters).runJobs codec query pending
  have hleads := runJobs_leads codec query false pending
    (DecodePool.create workers false ⟨.empty, counters⟩)
  exact hjobs.drain hleads.interrupted_eq

end Jobs

/-! ## Reads -/

/-- The engine answers no read with a corrupt record. -/
theorem read_plain {shared : SharedEngine} {α : Type} {question : Engine → α} {error : Error}
    (h : shared.read question = .error error) : error.isCorruption = false :=
  (SharedEngine.read_error h).not_corrupt

theorem odd_collection (key : DocumentKey) : key.collection.length % 2 = 1 := by
  have hlength := length_child key.collection key.id
  have heven := key.even
  rw [key.child_collection_id] at hlength
  omega

theorem readsPlainly (shared : SharedEngine) (keys : List DocumentKey) :
    ReadsPlainly shared (requestedRows keys).entries := by
  intro group hgroup
  constructor
  · obtain ⟨key, -, hcollection⟩ :=
      mem_keys_requestedRows_iff.mp (List.mem_map.mpr ⟨group, hgroup, rfl⟩)
    rw [← hcollection]
    exact odd_collection key
  · intro error herror
    unfold readSpan at herror
    split at herror
    · exact read_plain herror
    · cases herror

section Reads

variable {ι : Type} (cache : Cache SharedEngine ι)

theorem get_countsReport (key : DocumentKey) : cache.CountsReport (cache.get key) := by
  unfold get
  dsimp only
  split
  · next hread =>
      refine countsReport_of_plain rfl ?_
      rintro _ ⟨⟩
      exact read_plain hread
  · exact (UInt64.add_zero _).symm
  · next bytes hread =>
      rw [(readDocument_gives cache.codec bytes key).apply_counted trivial]
      exact corruptRecords_countCorrupt cache.counters.recordGet _

theorem getAll_countsReport (keys : List DocumentKey) : cache.CountsReport (cache.getAll keys) := by
  unfold getAll
  dsimp only
  rw [(readGroups_gives ..).apply_counted (readsPlainly cache.engine keys)]
  cases collectGroups cache.engine cache.codec (requestedRows keys).entries _ with
  | error error => exact corruptRecords_countCorrupt cache.counters (.error error)
  | ok progress => exact (UInt64.add_zero _).symm

theorem latestReadTime_countsReport : cache.CountsReport cache.latestReadTime := by
  unfold latestReadTime
  split
  · next hread =>
      refine countsReport_of_plain rfl ?_
      rintro _ ⟨⟩
      exact read_plain hread
  · next rows hread =>
      rw [(readLatest_gives rows .never).apply_counted trivial]
      exact corruptRecords_countCorrupt cache.counters _

/-- The query decodes its rows itself: they are fewer than those for which it takes workers. -/
def DecodesItself (query : Query) (since : ReadTime) : Prop :=
  ∀ rows pending,
    KeyValueEngine.startingWith cache.engine (RowKey.ofCollection query.collection) = .ok rows →
      pendingRows query.collection since rows = .ok pending →
        pending.length < cache.settings.parallelThreshold

theorem query_countsReport {query : Query} {since : ReadTime}
    (hitself : cache.DecodesItself query since) :
    cache.CountsReport (cache.query query since false) := by
  unfold Cache.query
  split
  · next hread =>
      refine countsReport_of_plain rfl ?_
      rintro _ ⟨⟩
      exact read_plain hread
  · next rows hread =>
      have hgives := readAllPending_gives query.collection since rows
      cases hpending : pendingRows query.collection since rows with
      | error error =>
          rw [hgives.apply_counted query.odd, hpending]
          exact corruptRecords_countCorrupt cache.counters (.error error)
      | ok pending =>
          rw [hpending] at hgives
          rw [hgives.apply_ok]
          have hbackground :
              decide (cache.settings.parallelThreshold ≤ pending.length) = false :=
            decide_eq_false (Nat.not_le.mpr (hitself rows pending hread hpending))
          -- The counters after the query are those of the pool.
          have hdrained := drained_tallied cache.codec query pending
            cache.settings.decodeWorkers (cache.counters.recordScan (UInt64.ofNat pending.length))
          simp only [hbackground]
          revert hdrained
          generalize DecodePool.drain _ = result
          obtain ⟨outcome, pool⟩ := result
          cases outcome with
          | error error => exact id
          | ok _ => exact id

end Reads

/-! ## Adds -/

section Adds

variable {ι : Type} {cache : Cache SharedEngine ι} {document : Document} {readTime : ReadTime}
  {rowKey : Bytes}

/-- A row with columns that are no read time stands under this key. -/
def HoldsTimeless (cache : Cache SharedEngine ι) (rowKey : Bytes) (fault : Corruption) : Prop :=
  ∃ bytes row, cache.engine.engine.get? rowKey = some bytes ∧ parseRow bytes = .ok row ∧
    rowReadTime row = .error (.corruptRecord fault)

theorem put_plain {shared : SharedEngine} {key value : Bytes} :
    ∀ error, (KeyValueEngine.put shared key value).1 = .error error →
      error.isCorruption = false := by
  intro error h
  cases hput : KeyValueEngine.put shared key value with
  | mk result after =>
      rw [hput] at h
      obtain rfl : result = .error error := h
      exact (SharedEngine.put_error hput).not_corrupt

/-- Parsing the row that a check is shown reports what the check reports, unless the row is one
without a read time. -/
theorem reported_parseRow {bytes : Bytes}
    (hreadable : ∀ row fault, parseRow bytes = .ok row →
      rowReadTime row ≠ .error (.corruptRecord fault)) (key : DocumentKey) (readTime : ReadTime) :
    reported (parseRow bytes) = reported (checkNotOlder key readTime (some bytes)) := by
  cases hparse : parseRow bytes with
  | error error =>
      have hunreadable : (parseRow bytes >>= rowReadTime) = .error error := by
        rw [hparse]
        rfl
      rw [checkNotOlder_of_unreadable hunreadable]
      rfl
  | ok row =>
      -- What is left to be counted is a read time that is missing, which was ruled out.
      cases htime : rowReadTime row with
      | error error =>
          obtain ⟨fault, rfl⟩ := rowReadTime_failsCorrupt row error htime
          exact absurd htime (hreadable row fault hparse)
      | ok stored =>
          have hstored : RowTime bytes stored :=
            ⟨row, parseRow_eq_ok_iff.mp hparse, rowReadTime_eq_ok_iff.mp htime⟩
          rw [checkNotOlder_some hstored]
          split <;> rfl

theorem writeRow_countsReport (document : Document) (readTime : ReadTime) (row : Bytes)
    (hreadable : cache.engine.poisoned = false → cache.settings.rejectOlder = true →
      ∀ fault, ¬ cache.HoldsTimeless rowKey fault) :
    cache.CountsReport (cache.writeRow document readTime rowKey row) := by
  unfold writeRow
  split
  · next hstrict =>
      cases hpoisoned : cache.engine.poisoned with
      | true =>
          rw [putIf_of_poisoned hpoisoned]
          exact (UInt64.add_zero _).symm
      | false =>
          cases hheld : cache.engine.engine.get? rowKey with
          | none =>
              have haccepted : checkNotOlder document.key readTime
                  (cache.engine.engine.get? rowKey) = .ok () := by
                rw [hheld]
                rfl
              rw [putIf_of_accepted hpoisoned haccepted, hheld]
              exact countsReport_of_plain rfl put_plain
          | some bytes =>
              have hreport := reported_parseRow
                (fun parsed fault hparse htime => hreadable hpoisoned hstrict fault
                  ⟨bytes, parsed, hheld, hparse, htime⟩) document.key readTime
              have hcount := corruptRecords_countCorrupt cache.counters (parseRow bytes)
              rw [hreport, ← hheld] at hcount
              cases hcheck : checkNotOlder document.key readTime
                  (cache.engine.engine.get? rowKey) with
              | error error =>
                  rw [putIf_of_refused hpoisoned hcheck, hheld]
                  rw [hcheck] at hcount
                  exact hcount
              | ok _ =>
                  rw [putIf_of_accepted hpoisoned hcheck, hheld]
                  rw [hcheck] at hcount
                  exact countsReport_of_plain (hcount.trans (UInt64.add_zero _)) put_plain
  · exact countsReport_of_plain rfl put_plain

/-- A row with such columns makes the check fail, and nothing is changed or counted. -/
theorem writeRow_of_timeless (husable : cache.engine.poisoned = false)
    (hstrict : cache.settings.rejectOlder = true) {fault : Corruption}
    (htimeless : cache.HoldsTimeless rowKey fault) (document : Document) (readTime : ReadTime)
    (row : Bytes) :
    cache.writeRow document readTime rowKey row = (.error (.corruptRecord fault), cache) := by
  obtain ⟨bytes, parsed, hheld, hparse, htime⟩ := htimeless
  have hunreadable : (parseRow bytes >>= rowReadTime) = .error (.corruptRecord fault) := by
    rw [hparse]
    exact htime
  have hcheck : checkNotOlder document.key readTime (cache.engine.engine.get? rowKey) =
      .error (.corruptRecord fault) := by
    rw [hheld]
    exact checkNotOlder_of_unreadable hunreadable document.key readTime
  rw [writeRow, if_pos hstrict, putIf_of_refused husable hcheck]
  simp only [hheld, hparse]
  rfl

theorem encodeRow_plain {codec : Codec} (hcodec : codec.EncodesPlainly) {error : Error}
    (h : encodeRow codec document readTime = .error error) : error.isCorruption = false := by
  unfold encodeRow at h
  split at h
  · cases h
    rfl
  · split at h
    · next hencode =>
        cases h
        unfold Codec.encodeKnown at hencode
        split at hencode
        · exact hcodec document error hencode
        · cases hencode
          rfl
    · cases h

theorem rowKey_of_encodeRow {codec : Codec} {row : Bytes}
    (h : encodeRow codec document readTime = .ok (rowKey, row)) :
    rowKey = RowKey.ofDocument document.key := by
  unfold encodeRow at h
  split at h
  · cases h
  · split at h
    · cases h
    · exact (Prod.mk.inj (Except.ok.inj h)).1.symm

/-- The add comes to a check that is shown a row whose columns are no read time. -/
structure Overlooks (cache : Cache SharedEngine ι) (document : Document) (readTime : ReadTime)
    (fault : Corruption) : Prop where
  usable : cache.engine.poisoned = false
  strict : cache.settings.rejectOlder = true
  encodes : ∃ encoded, encodeRow cache.codec document readTime = .ok encoded
  timeless : cache.HoldsTimeless (RowKey.ofDocument document.key) fault

theorem remove_countsReport (cache : Cache SharedEngine ι) (key : DocumentKey) :
    cache.CountsReport (cache.remove key) := by
  unfold remove
  split
  next result engine hdelete =>
    refine countsReport_of_plain rfl ?_
    rintro error rfl
    exact (SharedEngine.delete_error hdelete).not_corrupt

variable [CollectionIndex ι]

theorem add_countsReport (hcodec : cache.codec.EncodesPlainly)
    (hreadable : ∀ fault, ¬ cache.Overlooks document readTime fault) :
    cache.CountsReport (cache.add document readTime) := by
  cases hencode : encodeRow cache.codec document readTime with
  | error error =>
      rw [add_of_encodeRow_error hencode]
      refine countsReport_of_plain rfl ?_
      rintro _ ⟨⟩
      exact encodeRow_plain hcodec hencode
  | ok encoded =>
      obtain ⟨rowKey, row⟩ := encoded
      obtain rfl := rowKey_of_encodeRow hencode
      have hwrite := writeRow_countsReport document readTime row
        fun husable hstrict fault htimeless =>
          hreadable fault ⟨husable, hstrict, ⟨_, hencode⟩, htimeless⟩
      unfold add
      simp only [hencode]
      revert hwrite
      generalize cache.writeRow document readTime (RowKey.ofDocument document.key) row = result
      obtain ⟨outcome, after⟩ := result
      cases outcome with
      | error error => exact id
      | ok _ => exact id

theorem add_of_overlooks {fault : Corruption} (h : cache.Overlooks document readTime fault) :
    cache.add document readTime = (.error (.corruptRecord fault), cache) := by
  obtain ⟨⟨rowKey, row⟩, hencode⟩ := h.encodes
  obtain rfl := rowKey_of_encodeRow hencode
  have hwrite := writeRow_of_timeless h.usable h.strict h.timeless document readTime row
  simp only [add, hencode, hwrite]

/-- Every call counts the corrupt record that it reports, once, and counts nothing else; but an
add whose check is shown a row without a read time reports it and does not count it. -/
theorem corruption_counted (cache : Cache SharedEngine ι)
    (hcodec : cache.codec.EncodesPlainly) :
    (∀ key, cache.CountsReport (cache.get key)) ∧
      (∀ keys, cache.CountsReport (cache.getAll keys)) ∧
      (∀ query since, cache.DecodesItself query since →
        cache.CountsReport (cache.query query since false)) ∧
      cache.CountsReport cache.latestReadTime ∧
      (∀ key, cache.CountsReport (cache.remove key)) ∧
      ∀ document readTime,
        ((∀ fault, ¬ cache.Overlooks document readTime fault) →
          cache.CountsReport (cache.add document readTime)) ∧
        ∀ fault, cache.Overlooks document readTime fault →
          cache.add document readTime = (.error (.corruptRecord fault), cache) := by
  refine ⟨cache.get_countsReport, cache.getAll_countsReport, ?_,
    cache.latestReadTime_countsReport, cache.remove_countsReport, ?_⟩
  · exact fun _ _ hitself => cache.query_countsReport hitself
  · exact fun _ _ => ⟨add_countsReport hcodec, fun _ h => add_of_overlooks h⟩

/-- A cache that compares read times, with a row that has none under a note and with two rooms,
one of which holds a broken payload. -/
def timelessCache : Cache SharedEngine ParentIndex :=
  let table := roomTable.insert (RowKey.ofDocument (noteKey "odd")) timelessRow.encode
  ⟨.ofEngine ⟨strictSettings, table, ⟨.empty, false, 0, true⟩⟩, .empty, Payload.codec, strictSettings,
    .zero⟩

theorem decodesItself_timelessCache : timelessCache.DecodesItself roomQuery .never := by
  intro rows pending hrows hpending
  obtain rfl := Except.ok.inj hrows
  have htwo : ∃ two, pendingRows roomQuery.collection .never
      (timelessCache.engine.engine.startingWith (RowKey.ofCollection roomQuery.collection)) =
        .ok two ∧ two.length = 2 := ⟨_, rfl, rfl⟩
  obtain ⟨two, hpendingTwo, hlength⟩ := htwo
  obtain rfl := Except.ok.inj (hpendingTwo.symm.trans hpending)
  rw [hlength]
  decide

theorem overlooks_timelessCache :
    ∃ fault,
      timelessCache.Overlooks (.deleted (noteKey "odd") .never .never) (.ofSeconds 9) fault :=
  ⟨_, rfl, rfl, ⟨_, rfl⟩, _, _, rfl, rfl, rfl⟩

theorem corruption_counted_timelessCache :
    Payload.codec.EncodesPlainly ∧
      timelessCache.CountsReport (timelessCache.query roomQuery .never false) ∧
      timelessCache.CountsReport
        (timelessCache.add (.deleted (noteKey "new") .never .never) (.ofSeconds 9)) ∧
      ∃ fault, timelessCache.add (.deleted (noteKey "odd") .never .never) (.ofSeconds 9) =
        (.error (.corruptRecord fault), timelessCache) := by
  obtain ⟨-, -, hquery, -, -, hadd⟩ := corruption_counted timelessCache Payload.codec_encodesPlainly
  have hnone : timelessCache.engine.engine.get? (RowKey.ofDocument (noteKey "new")) = none := rfl
  obtain ⟨fault, hoverlooks⟩ := overlooks_timelessCache
  refine ⟨Payload.codec_encodesPlainly, hquery _ _ decodesItself_timelessCache, ?_, fault, ?_⟩
  · refine (hadd _ _).1 ?_
    rintro fault ⟨-, -, -, bytes, row, hheld, -⟩
    exact nomatch hnone.symm.trans hheld
  · exact (hadd _ _).2 fault hoverlooks

/-- Refused for a row without a read time, an add counts nothing, although a lookup of the same
row counts it. -/
theorem timeless_row_not_counted :
    ∃ fault,
      timelessCache.add (.deleted (noteKey "odd") .never .never) (.ofSeconds 9) =
          (.error (.corruptRecord fault), timelessCache) ∧
        (timelessCache.get (noteKey "odd")).1 = .error (.corruptRecord fault) ∧
        (timelessCache.get (noteKey "odd")).2.counters.corruptRecords =
          timelessCache.counters.corruptRecords + 1 :=
  ⟨_, rfl, rfl, rfl⟩

end Adds

end Cache

end DocumentCache
