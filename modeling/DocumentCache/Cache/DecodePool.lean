import DocumentCache.Model.Fault

/-!
# Decode pools

A pool decodes the rows of one scan.  Jobs are handed to its workers or run by the
caller; all of them work on one shared result.  The first failure is kept until
the next drain, and from then on, as after an interrupt, jobs are skipped.
Draining waits for the workers and reports the interrupt or that failure.

Workers are started one per job handed over, up to a limit.  Here a job that is
handed over is finished at once; every other order in which workers may take jobs
goes through the same steps.
-/

namespace DocumentCache

/-- How a job ended. -/
inductive JobOutcome where
  | done
  | failed (error : Error)
  /-- The job ended without an outcome. -/
  | aborted

/-- The failure that an outcome amounts to. -/
def JobOutcome.failure? : JobOutcome → Option Error
  | .done => none
  | .failed error => some error
  | .aborted => some (.interrupted .aborted)

/-- A piece of work on the shared result. -/
structure Job (σ : Type) where
  run : σ → JobOutcome × σ

structure DecodePool (σ : Type) where
  maxWorkers : Nat
  /-- Workers started so far. -/
  workers : Nat
  /-- Jobs handed to workers and not finished. -/
  outstanding : Nat
  /-- The first failure since the last drain. -/
  failure : Option Error
  interrupted : Bool
  shared : σ

namespace DecodePool

variable {σ : Type}

/-- A pool of at most this many workers, and of one at least. -/
def create (maxWorkers : Nat) (interrupted : Bool) (shared : σ) : DecodePool σ :=
  ⟨max 1 maxWorkers, 0, 0, none, interrupted, shared⟩

def interrupt (pool : DecodePool σ) : DecodePool σ :=
  { pool with interrupted := true }

/-- Whether a job that is taken now is left undone. -/
def shouldSkip (pool : DecodePool σ) : Bool :=
  pool.interrupted || pool.failure.isSome

/-- Keep a failure unless there is one already. -/
def record (pool : DecodePool σ) (failure : Option Error) : DecodePool σ :=
  { pool with failure := pool.failure.or failure }

/-- Run a job unless it is to be skipped. -/
def execute (pool : DecodePool σ) (job : Job σ) : Option Error × DecodePool σ :=
  if pool.shouldSkip then (none, pool)
  else
    match job.run pool.shared with
    | (outcome, shared) => (outcome.failure?, { pool with shared })

/-- Run a job on the caller's side. -/
def runInline (pool : DecodePool σ) (job : Job σ) : DecodePool σ :=
  match pool.execute job with
  | (failure, pool) => pool.record failure

/-- Start one more worker if there may be one. -/
def growWorkers (pool : DecodePool σ) : DecodePool σ :=
  if pool.workers < pool.maxWorkers then { pool with workers := pool.workers + 1 } else pool

/-- Hand one job to the workers. -/
def enqueue (pool : DecodePool σ) : DecodePool σ :=
  { pool with outstanding := pool.outstanding + 1 }

/-- Take the outcome of a job handed to the workers. -/
def finishQueued (pool : DecodePool σ) (failure : Option Error) : DecodePool σ :=
  let pool := pool.record failure
  { pool with outstanding := pool.outstanding - 1 }

/-- Hand a job to the workers and let one of them finish it. -/
def submit (pool : DecodePool σ) (job : Job σ) : DecodePool σ :=
  match pool.growWorkers.enqueue.execute job with
  | (failure, pool) => pool.finishQueued failure

/-- Report how the jobs since the last drain went. -/
def drain (pool : DecodePool σ) : Except Error Unit × DecodePool σ :=
  if pool.interrupted then
    (.error (.interrupted (.outstanding pool.outstanding)), pool)
  else
    match pool.failure with
    | some error => (.error error, { pool with failure := none })
    | none => (.ok (), pool)

end DecodePool

end DocumentCache
