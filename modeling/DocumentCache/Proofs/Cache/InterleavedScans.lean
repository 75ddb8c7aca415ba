import DocumentCache.Proofs.Cache.QueryAnswers
import DocumentCache.Proofs.Cache.WorkerJobs

/-!
# Scans by many threads

The workers of a scan and its caller take their turns in any order, and the interrupt
may come at any time.  The scan returns all the same, and what it finds, if it does not
fail, is what the caller alone would have found: all documents of its rows that match.
If the interrupt does not come, it fails only with the error of one of its rows, and if
none of them has one, it succeeds.

All this holds of a scan that returns whether or not its workers start when they are to.
That it returns needs a worker: one that has none may wait for a row until the interrupt
comes.
-/

namespace DocumentCache.Cache

open DecodePool

variable {codec : Codec} {query : Query} {since : ReadTime} {table : Table}

/-! ## The threads of a scan -/

/-- Count a row that is handed to a worker. -/
def countBackground (shared : Matches) : Matches :=
  { shared with counters := shared.counters.recordBackgroundDecode }

/-- What the caller does with the pending rows: in the background it hands over all but
the last. -/
def scanCalls (background : Bool) : List Pending → List (Call Pending Matches)
  | [] => []
  | pending :: rest =>
      if background && !rest.isEmpty then
        .note countBackground :: .submit pending :: scanCalls background rest
      else .runInline pending :: scanCalls background rest

section Threads

variable {σ ι : Type} (cache : Cache σ ι) (interrupted : Bool) (pending : List Pending)

/-- The pool of a scan, before any job. -/
def scanPool : DecodePool Matches :=
  DecodePool.create cache.settings.decodeWorkers interrupted
    ⟨.empty, cache.counters.recordScan (UInt64.ofNat pending.length)⟩

/-- The threads of a scan, before any turn. -/
def scanThreads : Threads Pending Matches :=
  .start (cache.scanPool interrupted pending)
    (scanCalls (cache.settings.parallelThreshold ≤ pending.length) pending ++ [.drain])

end Threads

/-- The scan is over: the owner has closed the pool, and this is what its drain and the
shared result make of it. -/
def Returns (last : Threads Pending Matches) (result : Except Error DocumentMap) : Prop :=
  last.owner = .closed ∧ ∃ answer, last.answers = [answer] ∧ result = drained (answer, last.pool)

/-! ## The caller does not wait -/

/-- One order of the turns is that of a caller whose jobs are finished at once. -/
theorem reaches_runJobs (codec : Codec) (query : Query) (background : Bool)
    (pending : List Pending) (pool : DecodePool Matches) (hroom : 0 < pool.maxWorkers)
    (calls : List (Call Pending Matches)) (answers : List (Except Error Unit)) :
    Reaches (Move (matchJob codec query))
      (.resting pool (scanCalls background pending ++ calls) answers)
      (.resting (runJobs codec query background pending pool) calls answers) := by
  induction pending generalizing pool with
  | nil => exact .refl
  | cons first rest ih =>
      unfold scanCalls runJobs
      dsimp only
      split
      · refine (reaches_note _ pool _ answers countBackground).trans ?_
        refine (reaches_submit _ _ first _ answers ?_).trans (ih _ ?_)
        · exact hroom
        · rw [submit_maxWorkers]
          exact hroom
      · refine (reaches_runInline _ pool first _ answers).trans (ih _ ?_)
        rw [runInline_maxWorkers]
        exact hroom

section Scan

variable {σ ι : Type} (cache : Cache σ ι) (interrupted : Bool) (pending : List Pending)

theorem scanThreads_sound : (cache.scanThreads interrupted pending).Sound :=
  .start rfl rfl _

theorem scanPool_room : 0 < (cache.scanPool interrupted pending).maxWorkers :=
  Nat.lt_of_lt_of_le Nat.zero_lt_one (Nat.le_max_left 1 _)

/-- What a query answers whose jobs are finished at once is one of the answers that the
threads may come to. -/
theorem reaches_query [KeyValueEngine σ] {cache : Cache σ ι}
    (hanswers : AnswersFrom cache.engine table) {pending : List Pending}
    (hpending : pendingRows query.collection since
      (table.startingWith (RowKey.ofCollection query.collection)) = .ok pending) :
    ∃ last, Reaches (Move (matchJob cache.codec query))
        (cache.scanThreads interrupted pending) last ∧
      Returns last (cache.query query since interrupted).1 := by
  have hjobs := reaches_runJobs cache.codec query
    (cache.settings.parallelThreshold ≤ pending.length) pending
    (cache.scanPool interrupted pending)
    (cache.scanPool_room interrupted pending) [.drain] []
  have hleads := runJobs_leads cache.codec query
    (cache.settings.parallelThreshold ≤ pending.length) pending (cache.scanPool interrupted pending)
  have hdrain := reaches_drain (matchJob cache.codec query) _ [] [] hleads.outstanding_eq
  refine ⟨_, (hjobs.trans hdrain).trans (reaches_closed _ _ _), rfl, _, rfl, ?_⟩
  rw [query_eq hanswers, scanAnswer, hpending]
  exact (drained_runJobs _ _ _ _ _ _ _).symm

end Scan

/-! ## The order of the rows does not matter -/

theorem foldlM_keepMatch_perm {ran pending : List Pending} (hperm : ran.Perm pending)
    (hdistinct : pending.Pairwise fun first second => first.key ≠ second.key)
    {found : DocumentMap} (h : ran.foldlM (keepMatch codec query) .empty = .ok found) :
    pending.foldlM (keepMatch codec query) .empty = .ok found := by
  have hall : ∀ item ∈ pending, Succeeds codec query item := by
    intro item hmem
    exact (foldlM_keepMatch_ok_iff_succeeds .empty).mp ⟨found, h⟩ item (hperm.mem_iff.mpr hmem)
  obtain ⟨result, hresult⟩ := (foldlM_keepMatch_ok_iff_succeeds .empty).mpr hall
  have hran : ran.Pairwise fun first second => first.key ≠ second.key :=
    hperm.symm.pairwise hdistinct Ne.symm
  rw [hresult]
  congr 1
  apply OrderedMap.ext_get?
  intro key
  apply Option.ext
  intro document
  rw [get?_foldlM_keepMatch hdistinct (fun _ _ => rfl) hresult,
    get?_foldlM_keepMatch hran (fun _ _ => rfl) h]
  simp only [hperm.mem_iff]

/-! ## What the threads come to -/

/-- The error for which a row fails a scan. -/
inductive Fails (codec : Codec) (query : Query) (pending : Pending) : Error → Prop where
  | contents {error : Error}
      (h : decodeContents codec pending.contents pending.readTime pending.key = .error error) :
      Fails codec query pending error
  | condition {document : Document}
      (hdecode : decodeContents codec pending.contents pending.readTime pending.key = .ok document)
      (hfound : document.isFound = true) (hmatches : query.matchesDocument document = none) :
      Fails codec query pending (.interrupted .aborted)

theorem fails_of_keepMatch {pending : Pending} {held : DocumentMap} {error : Error}
    (h : keepMatch codec query held pending = .error error) : Fails codec query pending error := by
  unfold keepMatch at h
  cases hdecode : decodeContents codec pending.contents pending.readTime pending.key with
  | error cause =>
      simp only [hdecode, Except.error.injEq] at h
      exact .contents (h ▸ hdecode)
  | ok document =>
      simp only [hdecode] at h
      split at h
      · next hfound =>
          cases hmatches : query.matchesDocument document with
          | none =>
              simp only [hmatches, Except.error.injEq] at h
              exact h ▸ .condition hdecode hfound hmatches
          | some answer => cases answer <;> simp [hmatches] at h
      · cases h

theorem plain_scanCalls (background : Bool) (pending : List Pending) :
    ∀ call ∈ scanCalls background pending, call.Plain Matches.found := by
  induction pending with
  | nil => simp [scanCalls]
  | cons first rest ih =>
      unfold scanCalls
      split <;> simpa [Call.Plain, countBackground] using ih

theorem left_scanCalls (background : Bool) (pending : List Pending) :
    ((scanCalls background pending).map Call.left).sum = pending := by
  induction pending with
  | nil => rfl
  | cons first rest ih =>
      unfold scanCalls
      split <;> simp [Call.left, ih]

/-- A codec of one's own may fail for anything, the payload codec for corrupt records. -/
theorem Fails.corrupt_or_aborted {pending : Pending} {error : Error}
    (h : Fails Payload.codec query pending error) :
    (∃ fault, error = .corruptRecord fault) ∨ error = .interrupted .aborted := by
  cases h with
  | contents h => exact .inl (decodeContents_failsCorrupt _ _ _ error h)
  | condition => exact .inr rfl

theorem Fails.not_succeeds {item : Pending} {error : Error} (h : Fails codec query item error) :
    ¬ Succeeds codec query item := by
  rintro ⟨document, hok, hanswers⟩
  cases h with
  | contents h => cases h.symm.trans hok
  | condition hdecode hfound hmatches =>
      obtain rfl := Except.ok.inj (hdecode.symm.trans hok)
      exact hanswers hfound hmatches

section Answers

variable {σ ι : Type} {cache : Cache σ ι} {interrupted : Bool} {pending : List Pending}
  {last : Threads Pending Matches}

theorem settled_of_scan
    (hreach : Reaches (Turn (matchJob cache.codec query))
      (cache.scanThreads interrupted pending) last)
    (hclosed : last.owner = .closed) :
    ∃ answer, last.answers = [answer] ∧
      Settled (keepMatch cache.codec query) Matches.found .empty pending answer last := by
  have hsettled := settled_of_reaches (matchJob_run cache.codec query)
    (plain_scanCalls (cache.settings.parallelThreshold ≤ pending.length) pending) rfl
    (cache.scanThreads_sound interrupted pending) hreach hclosed
  rw [left_scanCalls] at hsettled
  exact hsettled

/-- An answer is what decoding the rows one after another finds. -/
theorem Returns.foldlM_eq {found : DocumentMap} (h : Returns last (.ok found))
    (hreach : Reaches (Turn (matchJob cache.codec query))
      (cache.scanThreads interrupted pending) last)
    (hdistinct : pending.Pairwise fun first second => first.key ≠ second.key) :
    pending.foldlM (keepMatch cache.codec query) .empty = .ok found := by
  obtain ⟨hclosed, answer, hanswer, hresult⟩ := h
  obtain ⟨_, hsame, hsettled⟩ := settled_of_scan hreach hclosed
  obtain rfl := List.singleton_inj.mp (hanswer.symm.trans hsame)
  cases hsettled with
  | complete _ ran hran hall =>
      obtain rfl := Except.ok.inj hresult
      exact foldlM_keepMatch_perm (Multiset.coe_eq_coe.mp hall) hdistinct hran
  | interrupted | failed => cases hresult

theorem Returns.fails {error : Error} (h : Returns last (.error error))
    (hreach : Reaches (Turn (matchJob cache.codec query))
      (cache.scanThreads interrupted pending) last)
    (hcalm : last.pool.interrupted = false) :
    ∃ item ∈ pending, Fails cache.codec query item error := by
  obtain ⟨hclosed, answer, hanswer, hresult⟩ := h
  obtain ⟨_, hsame, hsettled⟩ := settled_of_scan hreach hclosed
  obtain rfl := List.singleton_inj.mp (hanswer.symm.trans hsame)
  cases hsettled with
  | complete => cases hresult
  | interrupted _ hinterrupted =>
      rw [hcalm] at hinterrupted
      cases hinterrupted
  | failed item hmem held herror =>
      obtain rfl := Except.error.inj hresult
      exact ⟨item, hmem, fails_of_keepMatch herror⟩

theorem exists_returns
    (hreach : Reaches (Turn (matchJob cache.codec query))
      (cache.scanThreads interrupted pending) last)
    (hclosed : last.owner = .closed) : ∃ result, Returns last result := by
  obtain ⟨answer, hanswer, _⟩ := settled_of_scan hreach hclosed
  exact ⟨_, hclosed, answer, hanswer, rfl⟩

theorem scan_returns (cache : Cache σ ι) (query : Query) (interrupted : Bool)
    (pending : List Pending) :
    Inevitable (Move (matchJob cache.codec query)) (fun last => ∃ result, Returns last result)
      (cache.scanThreads interrupted pending) :=
  ((cache.scanThreads_sound interrupted pending).closes
    (cache.scanPool_room interrupted pending)).imp fun _ hreach => exists_returns hreach.of_moves

theorem scan_returns_or_strands (cache : Cache σ ι) (query : Query) (interrupted : Bool)
    (pending : List Pending) :
    Inevitable (Turn (matchJob cache.codec query))
      (fun last => (∃ result, Returns last result) ∨ last.Stranded)
      (cache.scanThreads interrupted pending) :=
  (cache.scanThreads_sound interrupted pending).closes_or_strands.imp
    fun _ hreach => Or.imp_left (exists_returns hreach)

/-- In whatever order the threads of a scan take their turns, and whenever the interrupt
comes, the scan returns, or it waits for workers of which none could be started.  What it
finds is what the caller alone would find, and the document of no row is missing.  Without
an interrupt it succeeds if every row does, and fails otherwise with the error of some
row. -/
theorem interleaved_query [KeyValueEngine σ] {cache : Cache σ ι}
    (hanswers : AnswersFrom cache.engine table) (query : Query)
    (hnamed : RowsNamed table query.collection) (htimed : RowsTimed table query.collection)
    (since : ReadTime) (interrupted : Bool) :
    ∃ pending, pendingRows query.collection since
        (table.startingWith (RowKey.ofCollection query.collection)) = .ok pending ∧
      Inevitable (Move (matchJob cache.codec query)) (fun last => ∃ result, Returns last result)
        (cache.scanThreads interrupted pending) ∧
      Inevitable (Turn (matchJob cache.codec query))
        (fun last => (∃ result, Returns last result) ∨ last.Stranded)
        (cache.scanThreads interrupted pending) ∧
      (∃ last, Reaches (Move (matchJob cache.codec query))
          (cache.scanThreads interrupted pending) last ∧
        Returns last (cache.query query since interrupted).1) ∧
      ∀ last result,
        Reaches (Turn (matchJob cache.codec query))
          (cache.scanThreads interrupted pending) last →
        Returns last result →
          (∀ found, result = .ok found →
            (∀ settings : Settings, pending.length < settings.parallelThreshold →
              (Cache.query { cache with settings } query since false).1 = .ok found) ∧
            ∀ key document, found.get? key = some document ↔
              ∃ item ∈ pending, item.key = key ∧ Yields cache.codec query item document) ∧
          (last.pool.interrupted = false →
            ((∃ found, result = .ok found) ↔ ∀ item ∈ pending, Succeeds cache.codec query item) ∧
            ∀ error, result = .error error →
              (∃ item ∈ pending, Fails cache.codec query item error) ∧
              (cache.codec = Payload.codec →
                (∃ fault, error = .corruptRecord fault) ∨ error = .interrupted .aborted)) := by
  obtain ⟨pending, hpending⟩ := hnamed.pendingRows_ok htimed since
  refine ⟨pending, hpending, scan_returns cache query interrupted pending,
    scan_returns_or_strands cache query interrupted pending,
    reaches_query interrupted hanswers hpending, ?_⟩
  intro last result hreach hreturns
  have hdistinct := hnamed.pairwise_pendingRows hpending
  constructor
  · rintro found rfl
    have hfold := hreturns.foldlM_eq hreach hdistinct
    constructor
    · intro settings _
      have hsame : AnswersFrom ({ cache with settings } : Cache σ ι).engine table := hanswers
      rw [query_eq hsame, scanAnswer, hpending]
      exact hfold
    · intro key document
      have hempty : (OrderedMap.empty : DocumentMap).get? key ≠ some document := by
        intro h
        cases h
      rw [get?_foldlM_keepMatch hdistinct (fun _ _ => rfl) hfold]
      exact or_iff_right hempty
  · intro hcalm
    refine ⟨⟨?_, ?_⟩, ?_⟩
    · rintro ⟨found, rfl⟩
      have hfold := hreturns.foldlM_eq hreach hdistinct
      exact (foldlM_keepMatch_ok_iff_succeeds .empty).mp ⟨found, hfold⟩
    · intro hall
      cases result with
      | ok found => exact ⟨found, rfl⟩
      | error error =>
          obtain ⟨item, hmem, hfails⟩ := hreturns.fails hreach hcalm
          exact absurd (hall item hmem) hfails.not_succeeds
    · rintro error rfl
      obtain ⟨item, hmem, hfails⟩ := hreturns.fails hreach hcalm
      refine ⟨⟨item, hmem, hfails⟩, ?_⟩
      intro hcodec
      rw [hcodec] at hfails
      exact hfails.corrupt_or_aborted

end Answers

/-! ## Two rooms, one of them broken, and a worker -/

/-- Every row but the last is handed to a worker. -/
def busyRoomCache : Cache SharedEngine ParentIndex :=
  { roomCache with settings := { Settings.default with parallelThreshold := 1 } }

theorem rowsTimed_roomTable : RowsTimed roomTable roomQuery.collection := by
  intro entry hmem
  obtain ⟨key, _, _, hheld⟩ := (mem_collection_iff keysNamed_roomTable).mp hmem
  rcases get?_roomTable hheld with ⟨_, hbytes⟩ | ⟨_, hbytes⟩
  · rw [hbytes]
    exact ⟨_, _, decode_soundRow, Row.readTime_ofReadTime (by decide) _⟩
  · rw [hbytes]
    exact ⟨_, _, decode_brokenRow, Row.readTime_ofReadTime (by decide) _⟩

theorem not_succeeds_brokenRow (readTime : ReadTime) :
    ¬ Succeeds Payload.codec roomQuery ⟨roomKey "b", brokenRow.contents, readTime⟩ := by
  rintro ⟨document, hdecode, _⟩
  obtain ⟨stored, hstored, _⟩ := decodeContents_payload_eq_ok_iff.mp hdecode
  cases hstored

/-- A worker decodes the sound room and the caller the broken one: in whatever order
they do, the scan returns, and unless it is interrupted, with a corrupt record.  So does
a scan whose worker does not start, if it returns. -/
theorem interleaved_query_roomTable :
    ∃ pending, pendingRows roomQuery.collection .never
        (roomTable.startingWith (RowKey.ofCollection roomQuery.collection)) = .ok pending ∧
      Inevitable (Move (matchJob Payload.codec roomQuery))
        (fun last => ∃ result, Returns last result) (busyRoomCache.scanThreads false pending) ∧
      ∀ last result,
        Reaches (Turn (matchJob Payload.codec roomQuery))
          (busyRoomCache.scanThreads false pending) last →
        Returns last result → last.pool.interrupted = false →
          ∃ fault, result = .error (.corruptRecord fault) := by
  have hanswers : AnswersFrom busyRoomCache.engine roomTable := SharedEngine.answersFrom rfl
  obtain ⟨pending, hpending, hreturns, _, _, hall⟩ := interleaved_query hanswers roomQuery
    (keysNamed_roomTable.rowsNamed _) rowsTimed_roomTable .never false
  refine ⟨pending, hpending, hreturns, ?_⟩
  intro last result hreach hreturned hcalm
  obtain ⟨hok, herror⟩ := (hall last result hreach hreturned).2 hcalm
  have hbroken : ⟨roomKey "b", brokenRow.contents, .ofSeconds 3⟩ ∈ pending :=
    (mem_pendingRows_collection_iff keysNamed_roomTable hpending).mpr
      ⟨rfl, .inl rfl, brokenRow, holdsRow_brokenRow, rfl⟩
  cases result with
  | ok found =>
      exact absurd (hok.mp ⟨found, rfl⟩ _ hbroken) (not_succeeds_brokenRow _)
  | error error =>
      obtain ⟨⟨item, _, hfails⟩, _⟩ := herror error rfl
      cases hfails with
      | contents h =>
          obtain ⟨fault, rfl⟩ := decodeContents_failsCorrupt _ _ _ error h
          exact ⟨fault, rfl⟩
      | @condition document _ _ hmatches =>
          have htotal : roomQuery.Total := fun _ hmem => by cases hmem
          exact absurd hmatches (htotal.matchesDocument_ne_none document)

end DocumentCache.Cache
