import DocumentCache.Cache.DecodePool
import Mathlib.Algebra.GroupWithZero.Nat
import Mathlib.Logic.Relation

/-!
# Threads of a decode pool

The thread that owns a pool starts a worker, counts a job, puts it into the queue and
goes on; the workers take jobs from the queue and finish them.  Each of these is a turn
of its own, the turns of different threads come in any order, and the interrupt may
come between any two of them.  A thread with a job looks at the interrupt flag, then at
the failure, then runs the job, then records how it ended.

A drain waits until no job is outstanding or the interrupt has come.  Closing the pool
lets each worker stop once the queue is empty, and waits for all of them.

However the turns come, the owner gets to close its pool: every turn brings the threads
nearer to that, and until then one of them can move.  A worker that cannot be started
makes one exception: without any worker the owner may wait for a job that nobody takes.
-/

namespace DocumentCache.DecodePool

variable {α σ : Type}

/-! ## Turns -/

/-- How far a thread has come with a job. -/
inductive Stage where
  | taken
  /-- The interrupt flag was not set. -/
  | calm
  /-- There was no failure either. -/
  | cleared
  /-- The job was run or skipped, and that is not recorded yet. -/
  | ended (failure : Option Error)

inductive Worker (α : Type) where
  | idle
  | busy (item : α) (stage : Stage)
  | stopped

/-- What the thread that owns the pool is at. -/
inductive Owner (α : Type) where
  | ready
  /-- About to count a job that is handed over. -/
  | counting (item : α)
  /-- About to put a counted job into the queue. -/
  | sending (item : α)
  | inline (item : α) (stage : Stage)
  /-- Waiting for the workers to stop. -/
  | closing
  | closed

/-- What the owner of a pool can do with it. -/
inductive Call (α σ : Type) where
  | submit (item : α)
  | runInline (item : α)
  /-- Change the shared result outside of any job. -/
  | note (change : σ → σ)
  | drain

structure Threads (α σ : Type) where
  pool : DecodePool σ
  queue : List α
  workers : List (Worker α)
  owner : Owner α
  /-- The calls that the owner has not begun. -/
  todo : List (Call α σ)
  /-- What the drains so far reported. -/
  answers : List (Except Error Unit)

/-- One turn of a thread with the job it has taken. -/
inductive Advances (job : Job σ) : DecodePool σ → Stage → DecodePool σ → Stage → Prop where
  | interrupted {pool : DecodePool σ} (h : pool.interrupted = true) :
      Advances job pool .taken pool (.ended none)
  | calm {pool : DecodePool σ} (h : pool.interrupted = false) :
      Advances job pool .taken pool .calm
  | failed {pool : DecodePool σ} (h : pool.failure ≠ none) :
      Advances job pool .calm pool (.ended none)
  | cleared {pool : DecodePool σ} (h : pool.failure = none) :
      Advances job pool .calm pool .cleared
  | run (pool : DecodePool σ) :
      Advances job pool .cleared { pool with shared := (job.run pool.shared).2 }
        (.ended (job.run pool.shared).1.failure?)

/-- One turn of some thread of a pool whose workers all start.  The first turns are those
of the owner, the last four those of one worker among the others. -/
inductive Move (job : α → Job σ) : Threads α σ → Threads α σ → Prop where
  | grow {pool : DecodePool σ} {queue workers item todo answers}
      (h : pool.workers < pool.maxWorkers) :
      Move job ⟨pool, queue, workers, .ready, .submit item :: todo, answers⟩
        ⟨pool.growWorkers, queue, workers ++ [.idle], .counting item, todo, answers⟩
  | reuse {pool : DecodePool σ} {queue workers item todo answers}
      (h : pool.maxWorkers ≤ pool.workers) :
      Move job ⟨pool, queue, workers, .ready, .submit item :: todo, answers⟩
        ⟨pool.growWorkers, queue, workers, .counting item, todo, answers⟩
  | count {pool : DecodePool σ} {queue workers item todo answers} :
      Move job ⟨pool, queue, workers, .counting item, todo, answers⟩
        ⟨pool.enqueue, queue, workers, .sending item, todo, answers⟩
  | send {pool : DecodePool σ} {queue workers item todo answers} :
      Move job ⟨pool, queue, workers, .sending item, todo, answers⟩
        ⟨pool, queue ++ [item], workers, .ready, todo, answers⟩
  | takeInline {pool : DecodePool σ} {queue workers item todo answers} :
      Move job ⟨pool, queue, workers, .ready, .runInline item :: todo, answers⟩
        ⟨pool, queue, workers, .inline item .taken, todo, answers⟩
  | advanceInline {pool next : DecodePool σ} {queue workers item stage later todo answers}
      (h : Advances (job item) pool stage next later) :
      Move job ⟨pool, queue, workers, .inline item stage, todo, answers⟩
        ⟨next, queue, workers, .inline item later, todo, answers⟩
  | recordInline {pool : DecodePool σ} {queue workers item failure todo answers} :
      Move job ⟨pool, queue, workers, .inline item (.ended failure), todo, answers⟩
        ⟨pool.record failure, queue, workers, .ready, todo, answers⟩
  | note {pool : DecodePool σ} {queue workers change todo answers} :
      Move job ⟨pool, queue, workers, .ready, .note change :: todo, answers⟩
        ⟨{ pool with shared := change pool.shared }, queue, workers, .ready, todo, answers⟩
  | drain {pool : DecodePool σ} {queue workers todo answers}
      (h : pool.outstanding = 0 ∨ pool.interrupted = true) :
      Move job ⟨pool, queue, workers, .ready, .drain :: todo, answers⟩
        ⟨pool.drain.2, queue, workers, .ready, todo, answers ++ [pool.drain.1]⟩
  | close {pool : DecodePool σ} {queue workers answers} :
      Move job ⟨pool, queue, workers, .ready, [], answers⟩
        ⟨pool, queue, workers, .closing, [], answers⟩
  | join {pool : DecodePool σ} {queue workers todo answers}
      (h : ∀ worker ∈ workers, worker = .stopped) :
      Move job ⟨pool, queue, workers, .closing, todo, answers⟩
        ⟨pool, queue, workers, .closed, todo, answers⟩
  | take {pool : DecodePool σ} {item queue before after owner todo answers} :
      Move job ⟨pool, item :: queue, before ++ .idle :: after, owner, todo, answers⟩
        ⟨pool, queue, before ++ .busy item .taken :: after, owner, todo, answers⟩
  | advance {pool next : DecodePool σ} {queue before item stage later after owner todo answers}
      (h : Advances (job item) pool stage next later) :
      Move job ⟨pool, queue, before ++ .busy item stage :: after, owner, todo, answers⟩
        ⟨next, queue, before ++ .busy item later :: after, owner, todo, answers⟩
  | finish {pool : DecodePool σ} {queue before item failure after owner todo answers} :
      Move job ⟨pool, queue, before ++ .busy item (.ended failure) :: after, owner, todo, answers⟩
        ⟨pool.finishQueued failure, queue, before ++ .idle :: after, owner, todo, answers⟩
  | stop {pool : DecodePool σ} {before after todo answers} :
      Move job ⟨pool, [], before ++ .idle :: after, .closing, todo, answers⟩
        ⟨pool, [], before ++ .stopped :: after, .closing, todo, answers⟩

/-- One of these turns, or one in which the owner fails to start a worker: then the pool
does not try again, and if it has no worker at all, the owner runs the job itself. -/
inductive Turn (job : α → Job σ) : Threads α σ → Threads α σ → Prop where
  | move {s t : Threads α σ} (h : Move job s t) : Turn job s t
  | unstarted {pool : DecodePool σ} {queue workers item todo answers}
      (h : pool.workers < pool.maxWorkers) (hsome : workers ≠ []) :
      Turn job ⟨pool, queue, workers, .ready, .submit item :: todo, answers⟩
        ⟨{ pool with maxWorkers := pool.workers }, queue, workers, .counting item, todo, answers⟩
  | unstaffed {pool : DecodePool σ} {queue item todo answers}
      (h : pool.workers < pool.maxWorkers) :
      Turn job ⟨pool, queue, [], .ready, .submit item :: todo, answers⟩
        ⟨{ pool with maxWorkers := pool.workers }, queue, [], .inline item .taken, todo, answers⟩

/-- One of these turns, or the interrupt. -/
inductive Step (turns : Threads α σ → Threads α σ → Prop) : Threads α σ → Threads α σ → Prop where
  | turn {s t : Threads α σ} (h : turns s t) : Step turns s t
  | interrupt {s : Threads α σ} (h : s.pool.interrupted = false) :
      Step turns s { s with pool := s.pool.interrupt }

/-- Some of these turns after another, and perhaps the interrupt. -/
abbrev Reaches (turns : Threads α σ → Threads α σ → Prop) : Threads α σ → Threads α σ → Prop :=
  Relation.ReflTransGen (Step turns)

/-- However the turns come, and whether or not the interrupt does, the goal is
reached: until then there is always a turn to take, without waiting for the interrupt. -/
inductive Inevitable (turns : Threads α σ → Threads α σ → Prop) (goal : Threads α σ → Prop) :
    Threads α σ → Prop where
  | now {s : Threads α σ} (h : goal s) : Inevitable turns goal s
  | later {s : Threads α σ}
      (hmoves : ∃ next, turns s next)
      (hnext : ∀ next, Step turns s next → Inevitable turns goal next) : Inevitable turns goal s

/-- A pool whose owner is about to make these calls. -/
def Threads.start (pool : DecodePool σ) (calls : List (Call α σ)) : Threads α σ :=
  ⟨pool, [], [], .ready, calls, []⟩

/-- The owner waits for jobs in the queue, and there is no worker to take them, nor will
there be one. -/
structure Threads.Stranded (s : Threads α σ) : Prop where
  unstaffed : s.workers = []
  capped : s.pool.maxWorkers = 0
  ready : s.owner = .ready
  draining : ∃ rest, s.todo = .drain :: rest
  unfinished : 0 < s.pool.outstanding
  calm : s.pool.interrupted = false

variable {job : α → Job σ} {turns : Threads α σ → Threads α σ → Prop} {s t : Threads α σ}

theorem Step.imp {more : Threads α σ → Threads α σ → Prop} (hmore : ∀ s t, turns s t → more s t)
    (h : Step turns s t) : Step more s t := by
  cases h with
  | turn h => exact .turn (hmore _ _ h)
  | interrupt h => exact .interrupt h

/-- What can happen when all workers start can happen when some do not have to. -/
theorem Reaches.of_moves (h : Reaches (Move job) s t) : Reaches (Turn job) s t :=
  Relation.ReflTransGen.mono (fun _ _ => Step.imp fun _ _ => .move) _ _ h

/-! ## What a turn does to the pool -/

theorem growWorkers_of_lt {pool : DecodePool σ} (h : pool.workers < pool.maxWorkers) :
    pool.growWorkers = { pool with workers := pool.workers + 1 } := if_pos h

theorem growWorkers_of_le {pool : DecodePool σ} (h : pool.maxWorkers ≤ pool.workers) :
    pool.growWorkers = pool := if_neg (Nat.not_lt.mpr h)

@[simp]
theorem growWorkers_interrupted (pool : DecodePool σ) :
    pool.growWorkers.interrupted = pool.interrupted := by
  unfold growWorkers
  split <;> rfl

theorem growWorkers_maxWorkers (pool : DecodePool σ) :
    pool.growWorkers.maxWorkers = pool.maxWorkers := by
  unfold growWorkers
  split <;> rfl

/-- A drain may only take the failure out of the pool. -/
theorem drain_eq (pool : DecodePool σ) : ∃ failure, pool.drain.2 = { pool with failure } := by
  unfold drain
  split
  · exact ⟨_, rfl⟩
  · split <;> exact ⟨_, rfl⟩

@[simp]
theorem drain_interrupted (pool : DecodePool σ) :
    pool.drain.2.interrupted = pool.interrupted := by
  obtain ⟨failure, h⟩ := drain_eq pool
  rw [h]

@[simp]
theorem drain_workers (pool : DecodePool σ) : pool.drain.2.workers = pool.workers := by
  obtain ⟨failure, h⟩ := drain_eq pool
  rw [h]

@[simp]
theorem drain_outstanding (pool : DecodePool σ) :
    pool.drain.2.outstanding = pool.outstanding := by
  obtain ⟨failure, h⟩ := drain_eq pool
  rw [h]

theorem drain_of_interrupted {pool : DecodePool σ} (h : pool.interrupted = true) :
    pool.drain.1 = .error (.interrupted (.outstanding pool.outstanding)) := by
  simp [DecodePool.drain, h]

theorem drain_of_calm {pool : DecodePool σ} (h : pool.interrupted = false) :
    pool.drain.1 = match pool.failure with
      | some error => .error error
      | none => .ok () := by
  rw [DecodePool.drain, if_neg (by simp [h])]
  cases pool.failure <;> rfl

/-- A drain that is not interrupted leaves no failure. -/
theorem drain_failure {pool : DecodePool σ} (hcalm : pool.interrupted = false) :
    pool.drain.2.failure = none := by
  rw [DecodePool.drain, if_neg (by simp [hcalm])]
  cases hfailure : pool.failure with
  | some error => rfl
  | none => exact hfailure

/-- A turn with a job may only change the shared result. -/
theorem Advances.pool_eq {job : Job σ} {pool next : DecodePool σ} {stage later : Stage}
    (h : Advances job pool stage next later) : ∃ shared, next = { pool with shared } := by
  cases h <;> exact ⟨_, rfl⟩

theorem Advances.interrupted_eq {job : Job σ} {pool next : DecodePool σ} {stage later : Stage}
    (h : Advances job pool stage next later) : next.interrupted = pool.interrupted := by
  obtain ⟨shared, rfl⟩ := h.pool_eq
  rfl

theorem Advances.failure_eq {job : Job σ} {pool next : DecodePool σ} {stage later : Stage}
    (h : Advances job pool stage next later) : next.failure = pool.failure := by
  obtain ⟨shared, rfl⟩ := h.pool_eq
  rfl

theorem Move.maxWorkers_eq (h : Move job s t) : t.pool.maxWorkers = s.pool.maxWorkers := by
  cases h with
  | grow | reuse => exact growWorkers_maxWorkers _
  | advanceInline h | advance h =>
      obtain ⟨shared, rfl⟩ := h.pool_eq
      rfl
  | @drain pool _ _ _ _ h =>
      obtain ⟨failure, h⟩ := drain_eq pool
      rw [h]
  | _ => rfl

/-! ## Every run ends -/

/-- The turns that a stage is away from having been recorded. -/
def Stage.weight : Stage → Nat
  | .taken => 4
  | .calm => 3
  | .cleared => 2
  | .ended _ => 1

theorem Advances.weight_lt {job : Job σ} {pool next : DecodePool σ} {stage later : Stage}
    (h : Advances job pool stage next later) : later.weight < stage.weight := by
  cases h <;> simp [Stage.weight]

def Worker.weight : Worker α → Nat
  | .idle => 1
  | .busy _ stage => stage.weight + 1
  | .stopped => 0

def Owner.weight : Owner α → Nat
  | .ready => 2
  | .counting _ => 9
  | .sending _ => 8
  | .inline _ stage => stage.weight + 2
  | .closing => 1
  | .closed => 0

def Call.weight : Call α σ → Nat
  | .submit _ => 9
  | .runInline _ => 5
  | .note _ => 1
  | .drain => 1

/-- A bound on the turns that can still come.  A job pays for all turns up to its end
when it is handed over, and for those of a worker when it is put into the queue. -/
def Threads.weight (s : Threads α σ) : Nat :=
  (s.todo.map Call.weight).sum + s.owner.weight + 5 * s.queue.length +
    (s.workers.map Worker.weight).sum + (!s.pool.interrupted).toNat

theorem Move.weight_lt (h : Move job s t) : t.weight < s.weight := by
  unfold Threads.weight
  cases h with
  | note | drain | close | join => simp [Owner.weight, Call.weight]
  | count | recordInline => simp [Owner.weight, Stage.weight, enqueue, record]
  | finish | stop => simp [Worker.weight, Stage.weight, finishQueued, record]
  | grow | reuse | takeInline | send | take =>
      simp [Owner.weight, Worker.weight, Call.weight, Stage.weight]
      omega
  | advanceInline h | advance h =>
      have hlt := h.weight_lt
      obtain ⟨shared, rfl⟩ := h.pool_eq
      simp [Owner.weight, Worker.weight]
      omega

theorem Turn.weight_lt (h : Turn job s t) : t.weight < s.weight := by
  cases h with
  | move h => exact h.weight_lt
  | unstarted | unstaffed =>
      simp [Threads.weight, Owner.weight, Call.weight, Stage.weight]
      omega

theorem Step.weight_lt (hturns : ∀ s t, turns s t → t.weight < s.weight) (h : Step turns s t) :
    t.weight < s.weight := by
  cases h with
  | turn h => exact hturns _ _ h
  | interrupt h => simp [Threads.weight, DecodePool.interrupt, h]

/-- A goal is inevitable if every turn keeps what makes another one possible until then. -/
theorem Inevitable.of_kept {goal : Threads α σ → Prop} (kept : Threads α σ → Prop)
    (hless : ∀ s t, turns s t → t.weight < s.weight)
    (hstep : ∀ s t, kept s → Step turns s t → kept t)
    (hmoves : ∀ s, kept s → goal s ∨ ∃ next, turns s next) (hs : kept s) :
    Inevitable turns goal s := by
  induction hweight : s.weight using Nat.strongRecOn generalizing s with
  | ind weight ih =>
      rcases hmoves s hs with hgoal | hmove
      · exact .now hgoal
      · apply Inevitable.later hmove
        intro next hnext
        exact ih next.weight (hweight ▸ hnext.weight_lt hless) (hstep s next hs hnext) rfl

/-! ## What holds after every turn -/

/-- One for a worker that has taken a job. -/
def Worker.load : Worker α → Nat
  | .busy _ _ => 1
  | _ => 0

/-- One for a job that is counted and not in the queue yet. -/
def Owner.load : Owner α → Nat
  | .sending _ => 1
  | _ => 0

/-- The owner is about to put a job into the queue. -/
def Owner.handsOver : Owner α → Bool
  | .counting _ | .sending _ => true
  | _ => false

def Owner.leaves : Owner α → Bool
  | .closing | .closed => true
  | _ => false

/-- Every job handed over is counted until it is finished, there is a worker to take it
unless there can be none, and workers stop only when no more jobs come: this holds after
every turn. -/
structure Threads.Sound (s : Threads α σ) : Prop where
  started : s.workers.length = s.pool.workers
  counted : s.pool.outstanding =
    s.queue.length + s.owner.load + (s.workers.map Worker.load).sum
  staffed : 0 < s.pool.maxWorkers → s.workers = [] → s.queue = [] ∧ s.owner.handsOver = false
  stopped : .stopped ∈ s.workers → s.queue = [] ∧ s.owner.leaves = true
  finished : s.owner.leaves = true → s.todo = []

theorem Threads.Sound.start {pool : DecodePool σ} (hworkers : pool.workers = 0)
    (houtstanding : pool.outstanding = 0) (calls : List (Call α σ)) :
    (start pool calls).Sound where
  started := hworkers.symm
  counted := houtstanding
  staffed _ _ := ⟨rfl, rfl⟩
  stopped h := by cases h
  finished h := by cases h

theorem Move.started (h : Move job s t) (hs : s.workers.length = s.pool.workers) :
    t.workers.length = t.pool.workers := by
  cases h with
  | grow h => simpa [growWorkers_of_lt h] using hs
  | reuse h => simpa [growWorkers_of_le h] using hs
  | advanceInline h | advance h =>
      obtain ⟨shared, rfl⟩ := h.pool_eq
      simpa using hs
  | take | finish | stop => simpa [finishQueued, DecodePool.record] using hs
  | drain h => exact hs.trans (drain_workers _).symm
  | _ => exact hs

theorem Move.counted (h : Move job s t)
    (hs : s.pool.outstanding = s.queue.length + s.owner.load + (s.workers.map Worker.load).sum) :
    t.pool.outstanding = t.queue.length + t.owner.load + (t.workers.map Worker.load).sum := by
  cases h with
  | grow h => simpa [growWorkers_of_lt h, Owner.load, Worker.load] using hs
  | reuse h => simpa [growWorkers_of_le h, Owner.load] using hs
  | advanceInline h | advance h =>
      obtain ⟨shared, rfl⟩ := h.pool_eq
      simpa [Owner.load, Worker.load] using hs
  | drain h => exact (drain_outstanding _).trans hs
  | count | send | take | finish | stop =>
      simp [enqueue, finishQueued, DecodePool.record, Owner.load, Worker.load] at hs ⊢
      omega
  | _ => exact hs

theorem Move.staffed (h : Move job s t) (hs : s.Sound) :
    0 < t.pool.maxWorkers → t.workers = [] → t.queue = [] ∧ t.owner.handsOver = false := by
  rw [h.maxWorkers_eq]
  intro hroom hnone
  have hstaffed := hs.staffed hroom
  cases h with
  | reuse h =>
      -- No worker is started if there are as many as there may be, and there may be one.
      have hlength := hs.started
      dsimp only at hnone hlength hroom
      rw [hnone, List.length_nil] at hlength
      omega
  | grow | take | advance | finish | stop => simp at hnone
  | send => cases (hstaffed hnone).2
  | _ => exact hstaffed hnone

theorem Move.stopped (h : Move job s t) (hs : s.Sound) :
    .stopped ∈ t.workers → t.queue = [] ∧ t.owner.leaves = true := by
  have hstopped := hs.stopped
  intro hmem
  cases h with
  | send | close => cases (hstopped hmem).2
  | take => cases (hstopped (by simpa using hmem)).1
  | stop => exact ⟨rfl, rfl⟩
  | _ => exact hstopped (by simpa using hmem)

theorem Move.finished (h : Move job s t) (hs : s.Sound) :
    t.owner.leaves = true → t.todo = [] := by
  have hfinished := hs.finished
  intro hleaves
  cases h with
  | close => rfl
  | grow | reuse | takeInline | note | drain => cases hleaves
  | _ => exact hfinished hleaves

theorem Move.sound (h : Move job s t) (hs : s.Sound) : t.Sound where
  started := h.started hs.started
  counted := h.counted hs.counted
  staffed := h.staffed hs
  stopped := h.stopped hs
  finished := h.finished hs

theorem Turn.sound (h : Turn job s t) (hs : s.Sound) : t.Sound := by
  cases h with
  | move h => exact h.sound hs
  | unstarted h hsome =>
      refine ⟨hs.started, hs.counted, fun _ hnone => absurd hnone hsome, ?_, ?_⟩
      · exact fun hmem => nomatch (hs.stopped hmem).2
      · exact fun hleaves => nomatch hleaves
  | unstaffed h =>
      refine ⟨hs.started, hs.counted, ?_, nofun, fun hleaves => nomatch hleaves⟩
      exact fun _ _ => ⟨(hs.staffed (Nat.zero_lt_of_lt h) rfl).1, rfl⟩

theorem Threads.Sound.interrupt (hs : s.Sound) :
    Sound { s with pool := s.pool.interrupt } :=
  ⟨hs.started, hs.counted, hs.staffed, hs.stopped, hs.finished⟩

theorem Step.sound (h : Step (Turn job) s t) (hs : s.Sound) : t.Sound := by
  cases h with
  | turn h => exact h.sound hs
  | interrupt => exact hs.interrupt

/-! ## Some thread can always move -/

theorem Advances.exists_or_ended (job : Job σ) (pool : DecodePool σ) (stage : Stage) :
    (∃ failure, stage = .ended failure) ∨ ∃ next later, Advances job pool stage next later := by
  cases stage with
  | taken =>
      right
      cases h : pool.interrupted with
      | true => exact ⟨_, _, .interrupted h⟩
      | false => exact ⟨_, _, .calm h⟩
  | calm =>
      right
      by_cases h : pool.failure = none
      · exact ⟨_, _, .cleared h⟩
      · exact ⟨_, _, .failed h⟩
  | cleared => exact .inr ⟨_, _, .run pool⟩
  | ended failure => exact .inl ⟨failure, rfl⟩

/-- A worker that has taken a job can go on with it. -/
theorem exists_move_of_busy {item : α} {stage : Stage} (h : .busy item stage ∈ s.workers) :
    ∃ next, Move job s next := by
  obtain ⟨pool, queue, workers, owner, todo, answers⟩ := s
  obtain ⟨before, after, rfl⟩ := List.append_of_mem h
  rcases Advances.exists_or_ended (job item) pool stage with
    ⟨failure, rfl⟩ | ⟨next, later, hadvance⟩
  · exact ⟨_, .finish⟩
  · exact ⟨_, .advance hadvance⟩

/-- While jobs handed over are unfinished, a worker can go on with one of them. -/
theorem Threads.Sound.exists_move_of_queue (hs : s.Sound) (hworkers : s.workers ≠ [])
    (h : s.queue ≠ [] ∨ 0 < (s.workers.map Worker.load).sum) : ∃ next, Move job s next := by
  rcases h with hqueue | hload
  · obtain ⟨worker, hmem⟩ := List.exists_mem_of_ne_nil _ hworkers
    cases worker with
    | idle =>
        obtain ⟨pool, queue, workers, owner, todo, answers⟩ := s
        obtain ⟨before, after, rfl⟩ := List.append_of_mem hmem
        obtain ⟨item, rest, rfl⟩ := List.exists_cons_of_ne_nil hqueue
        exact ⟨_, .take⟩
    | busy item stage => exact exists_move_of_busy hmem
    | stopped => exact absurd (hs.stopped hmem).1 hqueue
  · obtain ⟨load, hmem, hpos⟩ := List.sum_pos_iff_exists_pos_nat.mp hload
    obtain ⟨worker, hworker, rfl⟩ := List.mem_map.mp hmem
    cases worker with
    | busy item stage => exact exists_move_of_busy hworker
    | idle | stopped => exact absurd hpos (Nat.lt_irrefl 0)

/-- An owner that waits for outstanding jobs waits for a worker that can go on with one,
or there is no worker for them. -/
theorem Threads.Sound.exists_move_of_outstanding (hs : s.Sound) (hready : s.owner = .ready)
    (hdraining : ∃ rest, s.todo = .drain :: rest) (hcalm : s.pool.interrupted = false)
    (hpos : 0 < s.pool.outstanding) : (∃ next, Move job s next) ∨ s.Stranded := by
  have hcounted := hs.counted
  rw [hready] at hcounted
  simp only [Owner.load] at hcounted
  by_cases hworkers : s.workers = []
  · right
    refine ⟨hworkers, ?_, hready, hdraining, hpos, hcalm⟩
    apply Nat.eq_zero_of_not_pos
    intro hroom
    have hqueue := (hs.staffed hroom hworkers).1
    rw [hqueue, hworkers] at hcounted
    exact Nat.ne_of_gt hpos hcounted
  · left
    apply hs.exists_move_of_queue hworkers
    by_cases hqueue : s.queue = []
    · right
      rw [hqueue, List.length_nil] at hcounted
      omega
    · exact .inl hqueue

/-- An owner that is ready can go on with its calls, or waits. -/
theorem Threads.Sound.exists_move_of_ready (hs : s.Sound) (hready : s.owner = .ready) :
    (∃ next, Move job s next) ∨ s.Stranded := by
  have hwaits : (∃ rest, s.todo = .drain :: rest) → s.pool.interrupted = false →
      0 < s.pool.outstanding → (∃ next, Move job s next) ∨ s.Stranded :=
    hs.exists_move_of_outstanding hready
  obtain ⟨pool, queue, workers, owner, todo, answers⟩ := s
  obtain rfl : owner = .ready := hready
  cases todo with
  | nil => exact .inl ⟨_, .close⟩
  | cons call rest =>
      cases call with
      | submit item =>
          by_cases hroom : pool.workers < pool.maxWorkers
          · exact .inl ⟨_, .grow hroom⟩
          · exact .inl ⟨_, .reuse (Nat.not_lt.mp hroom)⟩
      | runInline item => exact .inl ⟨_, .takeInline⟩
      | note change => exact .inl ⟨_, .note⟩
      | drain =>
          by_cases hdone : pool.outstanding = 0 ∨ pool.interrupted = true
          · exact .inl ⟨_, .drain hdone⟩
          · obtain ⟨hpos, hcalm⟩ := not_or.mp hdone
            exact hwaits ⟨rest, rfl⟩ (eq_false_of_ne_true hcalm) (Nat.pos_of_ne_zero hpos)

/-- An owner that closes its pool waits for a worker that can go on or stop. -/
theorem Threads.Sound.exists_move_of_closing (hs : s.Sound) (howner : s.owner = .closing) :
    ∃ next, Move job s next := by
  by_cases hstopped : ∀ worker ∈ s.workers, worker = .stopped
  · obtain ⟨pool, queue, workers, owner, todo, answers⟩ := s
    obtain rfl : owner = .closing := howner
    exact ⟨_, .join hstopped⟩
  · obtain ⟨worker, hworker⟩ := Classical.not_forall.mp hstopped
    obtain ⟨hmem, hruns⟩ := Classical.not_imp.mp hworker
    cases worker with
    | idle =>
        by_cases hqueue : s.queue = []
        · have hend : s.todo = [] := hs.finished (by rw [howner]; rfl)
          obtain ⟨pool, queue, workers, owner, todo, answers⟩ := s
          obtain ⟨before, after, rfl⟩ := List.append_of_mem hmem
          obtain rfl : owner = .closing := howner
          obtain rfl : queue = [] := hqueue
          exact ⟨_, .stop⟩
        · exact hs.exists_move_of_queue (List.ne_nil_of_mem hmem) (.inl hqueue)
    | busy item stage => exact exists_move_of_busy hmem
    | stopped => exact absurd rfl hruns

/-- Until the owner has closed the pool there is a thread that can move, or nobody ever
will be able to. -/
theorem Threads.Sound.exists_move (hs : s.Sound) (hopen : s.owner ≠ .closed) :
    (∃ next, Move job s next) ∨ s.Stranded := by
  obtain ⟨pool, queue, workers, owner, todo, answers⟩ := s
  cases owner with
  | ready => exact hs.exists_move_of_ready rfl
  | counting item => exact .inl ⟨_, .count⟩
  | sending item => exact .inl ⟨_, .send⟩
  | inline item stage =>
      left
      rcases Advances.exists_or_ended (job item) pool stage with
        ⟨failure, rfl⟩ | ⟨next, later, hadvance⟩
      · exact ⟨_, .recordInline⟩
      · exact ⟨_, .advanceInline hadvance⟩
  | closing => exact .inl (hs.exists_move_of_closing rfl)
  | closed => exact absurd rfl hopen

/-- Whatever the order of the turns, the owner of a pool that starts its workers closes it. -/
theorem Threads.Sound.closes (hs : s.Sound) (hroom : 0 < s.pool.maxWorkers) :
    Inevitable (Move job) (fun last => last.owner = .closed) s := by
  refine .of_kept (fun s => s.Sound ∧ 0 < s.pool.maxWorkers) (fun _ _ => Move.weight_lt)
    ?_ ?_ ⟨hs, hroom⟩
  · rintro s t ⟨hs, hroom⟩ (h | h)
    · exact ⟨h.sound hs, h.maxWorkers_eq ▸ hroom⟩
    · exact ⟨hs.interrupt, hroom⟩
  · rintro s ⟨hs, hroom⟩
    by_cases hclosed : s.owner = .closed
    · exact .inl hclosed
    · exact .inr ((hs.exists_move hclosed).resolve_right fun h => Nat.ne_of_gt hroom h.capped)

/-- If some workers cannot be started, the owner closes the pool or waits without end. -/
theorem Threads.Sound.closes_or_strands (hs : s.Sound) :
    Inevitable (Turn job) (fun last => last.owner = .closed ∨ last.Stranded) s := by
  refine .of_kept Sound (fun _ _ => Turn.weight_lt) (fun _ _ hs h => h.sound hs) ?_ hs
  intro s hs
  by_cases hclosed : s.owner = .closed
  · exact .inl (.inl hclosed)
  · rcases hs.exists_move hclosed with ⟨next, hmove⟩ | hstranded
    · exact .inr ⟨next, .move hmove⟩
    · exact .inl (.inr hstranded)

theorem Inevitable.imp {goal wider : Threads α σ → Prop} (h : Inevitable turns goal s)
    (hwider : ∀ last, Reaches turns s last → goal last → wider last) :
    Inevitable turns wider s := by
  induction h with
  | now h => exact .now (hwider _ .refl h)
  | later hmoves hnext ih =>
      exact .later hmoves fun next hstep =>
        ih next hstep fun last hreach => hwider last (.head hstep hreach)

/-! ## Calls that are finished at once -/

/-- The workers started so far wait and the owner is about to make these calls. -/
def Threads.resting (pool : DecodePool σ) (calls : List (Call α σ))
    (answers : List (Except Error Unit)) : Threads α σ :=
  ⟨pool, [], List.replicate pool.workers .idle, .ready, calls, answers⟩

theorem execute_of_skip {pool : DecodePool σ} (h : pool.shouldSkip = true) (job : Job σ) :
    pool.execute job = (none, pool) := if_pos h

theorem execute_of_run {pool : DecodePool σ} (h : pool.shouldSkip = false) (job : Job σ) :
    pool.execute job = ((job.run pool.shared).1.failure?,
      { pool with shared := (job.run pool.shared).2 }) := by
  rw [execute, if_neg (by simp [h])]

theorem execute_workers (pool : DecodePool σ) (job : Job σ) :
    (pool.execute job).2.workers = pool.workers := by
  unfold execute
  split <;> rfl

theorem execute_maxWorkers (pool : DecodePool σ) (job : Job σ) :
    (pool.execute job).2.maxWorkers = pool.maxWorkers := by
  unfold execute
  split <;> rfl

theorem runInline_maxWorkers (pool : DecodePool σ) (job : Job σ) :
    (pool.runInline job).maxWorkers = pool.maxWorkers :=
  execute_maxWorkers pool job

theorem submit_maxWorkers (pool : DecodePool σ) (job : Job σ) :
    (pool.submit job).maxWorkers = pool.maxWorkers :=
  (execute_maxWorkers pool.growWorkers.enqueue job).trans (growWorkers_maxWorkers pool)

variable (job : α → Job σ) (pool : DecodePool σ) (item : α) (calls : List (Call α σ))
  (answers : List (Except Error Unit))

/-- A job that no other thread comes between is executed as a whole. -/
theorem reaches_execute (place : DecodePool σ → Stage → Threads α σ)
    (hstep : ∀ {pool stage next later}, Advances (job item) pool stage next later →
      Move job (place pool stage) (place next later)) :
    Reaches (Move job) (place pool .taken)
      (place (pool.execute (job item)).2 (.ended (pool.execute (job item)).1)) := by
  cases hinterrupted : pool.interrupted with
  | true =>
      rw [execute_of_skip (by simp [shouldSkip, hinterrupted])]
      exact .single (.turn (hstep (.interrupted hinterrupted)))
  | false =>
      apply Relation.ReflTransGen.head (.turn (hstep (.calm hinterrupted)))
      cases hfailure : pool.failure with
      | some error =>
          rw [execute_of_skip (by simp [shouldSkip, hfailure])]
          exact .single (.turn (hstep (.failed (by simp [hfailure]))))
      | none =>
          rw [execute_of_run (by simp [shouldSkip, hinterrupted, hfailure])]
          exact .head (.turn (hstep (.cleared hfailure))) (.single (.turn (hstep (.run pool))))

/-- The owner gets its own job done, whatever waits in the queue and whoever there is. -/
theorem reaches_inlined (queue : List α) (workers : List (Worker α)) :
    Reaches (Move job) ⟨pool, queue, workers, .inline item .taken, calls, answers⟩
      ⟨pool.runInline (job item), queue, workers, .ready, calls, answers⟩ :=
  .tail (reaches_execute job pool item
    (fun next stage => ⟨next, queue, workers, .inline item stage, calls, answers⟩)
    (fun h => .advanceInline h)) (.turn .recordInline)

theorem reaches_runInline : Reaches (Move job) (.resting pool (.runInline item :: calls) answers)
    (.resting (pool.runInline (job item)) calls answers) := by
  have hworkers : (pool.runInline (job item)).workers = pool.workers :=
    execute_workers pool (job item)
  unfold Threads.resting
  rw [hworkers]
  exact .head (.turn .takeInline) (reaches_inlined job pool item calls answers [] _)

theorem reaches_growWorkers :
    Reaches (Move job) (.resting pool (.submit item :: calls) answers)
      ⟨pool.growWorkers, [], List.replicate pool.growWorkers.workers .idle, .counting item, calls,
        answers⟩ := by
  by_cases h : pool.workers < pool.maxWorkers
  · apply Relation.ReflTransGen.single
    have hworkers : pool.growWorkers.workers = pool.workers + 1 := by rw [growWorkers_of_lt h]
    rw [hworkers, List.replicate_succ']
    exact .turn (.grow h)
  · apply Relation.ReflTransGen.single
    have hworkers : pool.growWorkers.workers = pool.workers := by
      rw [growWorkers_of_le (Nat.not_lt.mp h)]
    rw [hworkers]
    exact .turn (.reuse (Nat.not_lt.mp h))

theorem growWorkers_pos (hroom : 0 < pool.maxWorkers) : 0 < pool.growWorkers.workers := by
  unfold growWorkers
  split
  · exact Nat.succ_pos _
  · omega

theorem reaches_submit (hroom : 0 < pool.maxWorkers) :
    Reaches (Move job) (.resting pool (.submit item :: calls) answers)
      (.resting (pool.submit (job item)) calls answers) := by
  have hworkers : (pool.submit (job item)).workers = pool.growWorkers.workers :=
    execute_workers pool.growWorkers.enqueue (job item)
  refine (reaches_growWorkers job pool item calls answers).trans ?_
  unfold Threads.resting
  rw [hworkers]
  obtain ⟨others, hothers⟩ := Nat.exists_eq_add_one.mpr (growWorkers_pos pool hroom)
  rw [hothers, List.replicate_succ]
  have htake : Move job ⟨pool.growWorkers.enqueue, [item],
      [] ++ .idle :: List.replicate others .idle, .ready, calls, answers⟩ _ := .take
  have hexecute := reaches_execute job pool.growWorkers.enqueue item
    (fun next stage => ⟨next, [], [] ++ .busy item stage :: List.replicate others .idle, .ready,
      calls, answers⟩) (fun h => .advance h)
  exact .head (.turn .count) (.head (.turn .send)
    (.head (.turn htake) (.tail hexecute (.turn .finish))))

theorem reaches_note (change : σ → σ) :
    Reaches (Move job) (.resting pool (.note change :: calls) answers)
      (.resting { pool with shared := change pool.shared } calls answers) :=
  .single (.turn .note)

theorem reaches_drain (hdone : pool.outstanding = 0) :
    Reaches (Move job) (.resting pool (.drain :: calls) answers)
      (.resting pool.drain.2 calls (answers ++ [pool.drain.1])) := by
  unfold Threads.resting
  rw [drain_workers]
  exact .single (.turn (.drain (.inl hdone)))

/-- Workers that wait can all be stopped, one after another. -/
theorem reaches_stopped (before : List (Worker α)) (waiting : Nat) :
    Reaches (Move job) ⟨pool, [], before ++ List.replicate waiting .idle, .closing, [], answers⟩
      ⟨pool, [], before ++ List.replicate waiting .stopped, .closing, [], answers⟩ := by
  induction waiting generalizing before with
  | zero => exact .refl
  | succ waiting ih =>
      have hrest := ih (before ++ [.stopped])
      rw [List.append_assoc, List.append_assoc] at hrest
      exact .head (.turn .stop) hrest

theorem reaches_closed : Reaches (Move job) (.resting pool [] answers)
    ⟨pool, [], List.replicate pool.workers .stopped, .closed, [], answers⟩ := by
  refine .head (.turn .close)
    (.tail (reaches_stopped job pool answers [] pool.workers) (.turn (.join ?_)))
  intro worker hmem
  exact List.eq_of_mem_replicate hmem

end DocumentCache.DecodePool
