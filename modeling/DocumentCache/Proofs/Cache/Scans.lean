import DocumentCache.Proofs.Cache.Reading

/-!
# A scan is a fold

However many workers a pool has, and whichever rows are handed to them, the jobs of
one scan lead to what decoding its rows one after another leads to: the first
failure ends it, and without one it is the map of all documents that match.  The
counters a cache happens to hold do not matter either.
-/

namespace DocumentCache

/-- A job that is handed over and finished is a job done by the caller, but for the
workers. -/
theorem DecodePool.submit_eq {σ : Type} (pool : DecodePool σ) (job : Job σ) :
    pool.submit job = { pool.runInline job with workers := pool.growWorkers.workers } := by
  have hgrown : pool.growWorkers = { pool with workers := pool.growWorkers.workers } := by
    unfold growWorkers
    split <;> rfl
  rw [submit, hgrown]
  simp only [enqueue, execute, shouldSkip, runInline]
  by_cases hskip : (pool.interrupted || pool.failure.isSome) = true
  · simp only [hskip, if_true]
    rfl
  · simp only [hskip]
    rfl

namespace DecodePool

variable {σ : Type} {pool : DecodePool σ} {job : Job σ}

theorem runInline_of_skip (hskip : pool.shouldSkip = true) : pool.runInline job = pool := by
  simp only [runInline, execute, hskip, if_true, record, Option.or_none]

theorem failure_of_running (hrunning : ¬ pool.shouldSkip = true) : pool.failure = none := by
  cases hpool : pool.failure with
  | none => rfl
  | some error => simp [shouldSkip, hpool] at hrunning

/-- A job that is not skipped leaves its outcome and its work on the shared result. -/
theorem runInline_of_running (hrunning : ¬ pool.shouldSkip = true) :
    pool.runInline job =
      { pool with
        failure := (job.run pool.shared).1.failure?
        shared := (job.run pool.shared).2 } := by
  simp only [runInline, execute, hrunning, record, failure_of_running hrunning, Option.none_or,
    Bool.false_eq_true, if_false]

theorem shared_drain (pool : DecodePool σ) : pool.drain.2.shared = pool.shared := by
  unfold drain
  split
  · rfl
  · split <;> rfl

end DecodePool

namespace Cache

/-- Decode one more row and keep its document if it matches. -/
def keepMatch (codec : Codec) (query : Query) (found : DocumentMap) (pending : Pending) :
    Except Error DocumentMap :=
  match decodeContents codec pending.contents pending.readTime pending.key with
  | .error error => .error error
  | .ok document =>
      if document.isFound then
        match query.matchesDocument document with
        | none => .error (.interrupted .aborted)
        | some true => .ok (found.insert pending.key document)
        | some false => .ok found
      else .ok found

/-- What a query answers that reads these rows. -/
def scanAnswer (codec : Codec) (query : Query) (since : ReadTime) (interrupted : Bool)
    (rows : List (Bytes × Bytes)) : Except Error DocumentMap := do
  let pending ← pendingRows query.collection since rows
  if interrupted then .error (.interrupted (.outstanding 0))
  else pending.foldlM (keepMatch codec query) .empty

/-- How far the jobs of a pool have come. -/
def progress (pool : DecodePool Matches) : Except Error DocumentMap :=
  match pool.failure with
  | some error => .error error
  | none => .ok pool.shared.found

theorem progress_of_running {pool : DecodePool Matches} (hrunning : ¬ pool.shouldSkip = true) :
    progress pool = .ok pool.shared.found := by
  rw [progress, DecodePool.failure_of_running hrunning]

/-- From one pool to another the jobs came this far; an interrupt stops all of them. -/
structure Leads (before after : DecodePool Matches)
    (step : DocumentMap → Except Error DocumentMap) : Prop where
  interrupted_eq : after.interrupted = before.interrupted
  outstanding_eq : after.outstanding = before.outstanding
  progress_eq : before.interrupted = false → progress after = progress before >>= step

namespace Leads

variable {first second third : DecodePool Matches}
  {step next : DocumentMap → Except Error DocumentMap}

/-- Workers and counters do not show. -/
theorem of_same (hinterrupted : second.interrupted = first.interrupted)
    (houtstanding : second.outstanding = first.outstanding)
    (hfailure : second.failure = first.failure)
    (hfound : second.shared.found = first.shared.found) : Leads first second pure where
  interrupted_eq := hinterrupted
  outstanding_eq := houtstanding
  progress_eq _ := by
    rw [bind_pure, progress, progress, hfailure, hfound]

theorem trans {whole : DocumentMap → Except Error DocumentMap}
    (hfirst : Leads first second step) (hsecond : Leads second third next)
    (hwhole : ∀ found, whole found = step found >>= next) : Leads first third whole where
  interrupted_eq := hsecond.interrupted_eq.trans hfirst.interrupted_eq
  outstanding_eq := hsecond.outstanding_eq.trans hfirst.outstanding_eq
  progress_eq hcalm := by
    have hstill : second.interrupted = false := hfirst.interrupted_eq.trans hcalm
    rw [hsecond.progress_eq hstill, hfirst.progress_eq hcalm]
    cases progress first with
    | error error => rfl
    | ok found => exact (hwhole found).symm

end Leads

/-! ## Jobs -/

variable (codec : Codec) (query : Query)

/-- A job does to the shared result what decoding its row does. -/
theorem matchJob_run (pending : Pending) (shared : Matches) :
    (match ((matchJob codec query pending).run shared).1.failure? with
      | some error => .error error
      | none => .ok ((matchJob codec query pending).run shared).2.found) =
      keepMatch codec query shared.found pending := by
  simp only [matchJob, keepMatch]
  cases decodeContents codec pending.contents pending.readTime pending.key with
  | error error => rfl
  | ok document =>
      dsimp only
      by_cases hfound : document.isFound = true
      · rw [if_pos hfound, if_pos hfound]
        cases query.matchesDocument document with
        | none => rfl
        | some answer => cases answer <;> rfl
      · rw [if_neg hfound, if_neg hfound]
        rfl

theorem runInline_leads (pool : DecodePool Matches) (pending : Pending) :
    Leads pool (pool.runInline (matchJob codec query pending))
      fun found => keepMatch codec query found pending := by
  by_cases hskip : pool.shouldSkip = true
  · rw [DecodePool.runInline_of_skip hskip]
    refine ⟨rfl, rfl, ?_⟩
    intro hcalm
    rw [DecodePool.shouldSkip, hcalm, Bool.false_or] at hskip
    obtain ⟨error, herror⟩ := Option.isSome_iff_exists.mp hskip
    rw [progress, herror]
    rfl
  · rw [DecodePool.runInline_of_running hskip]
    refine ⟨rfl, rfl, ?_⟩
    intro _
    rw [progress_of_running hskip]
    exact matchJob_run codec query pending pool.shared

theorem submit_leads (pool : DecodePool Matches) (pending : Pending) :
    Leads pool (pool.submit (matchJob codec query pending))
      fun found => keepMatch codec query found pending := by
  rw [DecodePool.submit_eq]
  exact (runInline_leads codec query pool pending).trans (.of_same rfl rfl rfl rfl)
    fun _ => (bind_pure _).symm

theorem runJobs_leads (background : Bool) (pending : List Pending) (pool : DecodePool Matches) :
    Leads pool (runJobs codec query background pending pool)
      (pending.foldlM (keepMatch codec query)) := by
  induction pending generalizing pool with
  | nil => exact .of_same rfl rfl rfl rfl
  | cons first rest ih =>
      unfold runJobs
      dsimp only
      split
      · have hcounted : Leads pool { pool with shared := { pool.shared with
            counters := pool.shared.counters.recordBackgroundDecode } } pure :=
          .of_same rfl rfl rfl rfl
        have hfirst := hcounted.trans (submit_leads codec query _ first) fun _ => rfl
        exact hfirst.trans (ih _) fun _ => List.foldlM_cons
      · exact (runInline_leads codec query pool first).trans (ih _) fun _ => List.foldlM_cons

/-! ## Queries -/

/-- What a query makes of a pool that it has drained. -/
def drained : Except Error Unit × DecodePool Matches → Except Error DocumentMap
  | (.error error, _) => .error error
  | (.ok (), pool) => .ok pool.shared.found

theorem drained_drain (pool : DecodePool Matches) :
    drained pool.drain =
      if pool.interrupted then .error (.interrupted (.outstanding pool.outstanding))
      else progress pool := by
  unfold DecodePool.drain progress
  cases pool.interrupted with
  | true => rfl
  | false =>
      cases hfailure : pool.failure with
      | none => simp [drained]
      | some error => simp [drained]

/-- A new pool that runs all jobs of a scan answers as if they ran one after another. -/
theorem drained_runJobs (background interrupted : Bool) (pending : List Pending) (workers : Nat)
    (counters : Counters) :
    drained (runJobs codec query background pending
        (DecodePool.create workers interrupted ⟨.empty, counters⟩)).drain =
      if interrupted then .error (.interrupted (.outstanding 0))
      else pending.foldlM (keepMatch codec query) .empty := by
  have hjobs := runJobs_leads codec query background pending
    (DecodePool.create workers interrupted ⟨.empty, counters⟩)
  rw [drained_drain, hjobs.interrupted_eq, hjobs.outstanding_eq]
  cases interrupted with
  | true => rfl
  | false => exact hjobs.progress_eq rfl

/-- What a query answers depends on the rows of its collection only. -/
theorem query_eq {σ ι : Type} [KeyValueEngine σ] {cache : Cache σ ι} {table : Table}
    (hanswers : AnswersFrom cache.engine table) (query : Query) (since : ReadTime)
    (interrupted : Bool) :
    (cache.query query since interrupted).1 =
      scanAnswer cache.codec query since interrupted
        (table.startingWith (RowKey.ofCollection query.collection)) := by
  have hgives := readAllPending_gives query.collection since
    (table.startingWith (RowKey.ofCollection query.collection))
  simp only [Cache.query, hanswers.startingWith, scanAnswer]
  cases hpending : pendingRows query.collection since
      (table.startingWith (RowKey.ofCollection query.collection)) with
  | error error =>
      rw [hgives.apply, hpending]
      rfl
  | ok pending =>
      rw [hpending] at hgives
      rw [hgives.apply_ok]
      refine Eq.trans ?_ (drained_runJobs cache.codec query
        (cache.settings.parallelThreshold ≤ pending.length) interrupted pending
        cache.settings.decodeWorkers (cache.counters.recordScan (UInt64.ofNat pending.length)))
      dsimp only
      generalize DecodePool.drain _ = result
      obtain ⟨answer, pool⟩ := result
      cases answer <;> rfl

end Cache

end DocumentCache
