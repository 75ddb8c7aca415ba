import DocumentCache.Proofs.Cache.WorkerJobs
import Mathlib.Data.List.DropRight

/-!
# Events of a decode pool

What is to be seen of a run of a pool from outside: which jobs were run or skipped, which
failures were recorded, what the drains answered and when the interrupt came.  A turn of a
thread makes one such event or none, and the interrupt is an event of its own.  Each event moves
a job or a failure on: a job from the threads to the jobs run or skipped, a failure from the
thread that met with it into the pool.
-/

namespace DocumentCache.DecodePool

variable {α σ : Type}

/-! ## Turns and their events -/

inductive Event (α : Type) where
  /-- A job was run, and this is how it failed if it did. -/
  | ran (item : α) (failure : Option Error)
  | skipped (item : α)
  /-- A thread recorded how its job ended. -/
  | recorded (failure : Option Error)
  | drained (answer : Except Error Unit)
  | interrupted

/-- A job ends by being run or, if the thread has not got past the interrupt and the failure, by
being skipped. -/
def Stage.event? (item : α) : Stage → Stage → Option (Event α)
  | .cleared, .ended failure => some (.ran item failure)
  | .taken, .ended _ => some (.skipped item)
  | .calm, .ended _ => some (.skipped item)
  | _, _ => none

def Worker.event? : Worker α → Worker α → Option (Event α)
  | .busy item stage, .busy _ later => stage.event? item later
  | .busy _ (.ended failure), .idle => some (.recorded failure)
  | _, _ => none

def Owner.event? : Owner α → Owner α → Option (Event α)
  | .inline item stage, .inline _ later => stage.event? item later
  | .inline _ (.ended failure), .ready => some (.recorded failure)
  | _, _ => none

/-- The events of all workers; one that was not there before has none. -/
def workerEvents : List (Worker α) → List (Worker α) → List (Event α)
  | worker :: workers, next :: nexts => (worker.event? next).toList ++ workerEvents workers nexts
  | _, _ => []

/-- The events of a thread that takes a turn from one of these states to the other. -/
def Threads.events (s t : Threads α σ) : List (Event α) :=
  workerEvents s.workers t.workers ++ (s.owner.event? t.owner).toList ++
    (t.answers.drop s.answers.length).map .drained

/-- A turn of some thread with its events, or the interrupt. -/
inductive Acts (job : α → Job σ) (s : Threads α σ) : List (Event α) → Threads α σ → Prop where
  | turn {t : Threads α σ} (h : Turn job s t) : Acts job s (s.events t) t
  | interrupt (h : s.pool.interrupted = false) :
      Acts job s [.interrupted] { s with pool := s.pool.interrupt }

/-- A run of some threads and all of its events, the first one first. -/
inductive Runs (job : α → Job σ) (start : Threads α σ) :
    List (Event α) → Threads α σ → Prop where
  | start : Runs job start [] start
  | act {log events s t} (h : Runs job start log s) (hact : Acts job s events t) :
      Runs job start (log ++ events) t

variable {job : α → Job σ} {s t : Threads α σ}

@[simp]
theorem Stage.event?_self (item : α) (stage : Stage) : stage.event? item stage = none := by
  cases stage <;> rfl

@[simp]
theorem Worker.event?_self (worker : Worker α) : worker.event? worker = none := by
  cases worker with
  | busy item stage => exact stage.event?_self item
  | _ => rfl

@[simp]
theorem Owner.event?_self (owner : Owner α) : owner.event? owner = none := by
  cases owner with
  | inline item stage => exact stage.event?_self item
  | _ => rfl

@[simp]
theorem workerEvents_append (workers more : List (Worker α)) :
    workerEvents workers (workers ++ more) = [] := by
  induction workers with
  | nil => rfl
  | cons worker workers ih => simp [workerEvents, ih]

@[simp]
theorem workerEvents_self (workers : List (Worker α)) : workerEvents workers workers = [] := by
  simpa using workerEvents_append workers []

/-- The event of one worker, while the others do nothing. -/
@[simp]
theorem workerEvents_replace (before after : List (Worker α)) (worker next : Worker α) :
    workerEvents (before ++ worker :: after) (before ++ next :: after) =
      (worker.event? next).toList := by
  induction before with
  | nil => simp [workerEvents]
  | cons other before ih => simp [workerEvents, ih]

/-! ## What an event does -/

def Call.item? : Call α σ → Option α
  | .submit item | .runInline item => some item
  | _ => none

/-- The failure that a job ended with and that is not recorded yet. -/
def Stage.pending (stage : Stage) : Multiset Error := stage.failure?.toList

def Worker.pending (worker : Worker α) : Multiset Error := worker.failure?.toList

def Owner.pending (owner : Owner α) : Multiset Error := owner.failure?.toList

/-- What the events move: the jobs given and neither run nor skipped, the failures that are not
recorded, and what threads see of the pool. -/
structure Account (α σ : Type) where
  held : Multiset α
  pending : Multiset Error
  failure : Option Error
  interrupted : Bool
  shared : σ
  todo : List (Call α σ)

def Threads.account (s : Threads α σ) : Account α σ where
  held := s.owner.left + (s.queue.map singleton).sum + (s.workers.map Worker.left).sum
  pending := s.owner.pending + (s.workers.map Worker.pending).sum
  failure := s.pool.failure
  interrupted := s.pool.interrupted
  shared := s.pool.shared
  todo := s.todo

/-- The account with one more thread in it. -/
def Account.join (rest : Account α σ) (held : Multiset α) (pending : Multiset Error) :
    Account α σ :=
  { rest with held := held + rest.held, pending := pending + rest.pending }

/-- The turns and the events they make. -/
inductive Tells (job : α → Job σ) (s t : Threads α σ) : List (Event α) → Prop where
  | quiet (h : t.account = s.account) : Tells job s t []
  | gives (item : α) (call : Call α σ) (hitem : call.item? = some item)
      (htodo : s.todo = call :: t.todo)
      (h : t.account = { s.account with held := {item} + s.account.held, todo := t.todo }) :
      Tells job s t []
  | notes (change : σ → σ) (htodo : s.todo = .note change :: t.todo)
      (h : t.account = { s.account with shared := change s.pool.shared, todo := t.todo }) :
      Tells job s t []
  | runs (item : α) (hheld : s.account.held = {item} + t.account.held)
      (h : t.account = { s.account with
        held := t.account.held
        pending := ((job item).run s.pool.shared).1.failure?.toList + s.account.pending
        shared := ((job item).run s.pool.shared).2 }) :
      Tells job s t [.ran item ((job item).run s.pool.shared).1.failure?]
  | skips (item : α) (hheld : s.account.held = {item} + t.account.held)
      (hexcuse : s.pool.interrupted = true ∨ s.pool.failure ≠ none)
      (h : t.account = { s.account with held := t.account.held }) : Tells job s t [.skipped item]
  | records (failure : Option Error)
      (hpending : s.account.pending = failure.toList + t.account.pending)
      (h : t.account = { s.account with
        pending := t.account.pending
        failure := s.pool.failure.or failure }) : Tells job s t [.recorded failure]
  | drains (hdrains : Drains s t)
      (h : t.account = { s.account with failure := t.pool.failure, todo := t.todo }) :
      Tells job s t [.drained s.pool.drain.1]
  | interrupts (h : t.account = { s.account with interrupted := true }) :
      Tells job s t [.interrupted]

/-- A turn of a thread with its job, whatever the others are at. -/
theorem Advances.tells {item : α} {pool next : DecodePool σ} {stage later : Stage}
    {rest : Account α σ} (h : Advances (job item) pool stage next later) (hpool : s.pool = pool)
    (hs : s.account = rest.join (stage.left item) stage.pending)
    (ht : t.account = { rest.join (later.left item) later.pending with shared := next.shared })
    (hevents : s.events t = (stage.event? item later).toList) : Tells job s t (s.events t) := by
  subst hpool
  have hshared : s.pool.shared = rest.shared := congrArg Account.shared hs
  rw [hevents]
  cases h with
  | interrupted h =>
      refine .skips item ?_ (.inl h) ?_
      · simp [hs, ht, Account.join, Stage.left]
      · simp [hs, ht, hshared, Account.join, Stage.pending, Stage.failure?]
  | failed h =>
      refine .skips item ?_ (.inr h) ?_
      · simp [hs, ht, Account.join, Stage.left]
      · simp [hs, ht, hshared, Account.join, Stage.pending, Stage.failure?]
  | calm | cleared =>
      refine .quiet ?_
      simp [hs, ht, hshared, Account.join, Stage.left, Stage.pending, Stage.failure?]
  | run =>
      refine .runs item ?_ ?_
      · simp [hs, ht, Account.join, Stage.left]
      · simp [hs, ht, Account.join, Stage.pending, Stage.failure?]

/-! The thread that takes a turn, and the others that do not. -/

section Frames

variable {pool : DecodePool σ} {queue : List α} {workers before after : List (Worker α)}
  {worker : Worker α} {owner : Owner α} {item : α} {stage : Stage} {todo : List (Call α σ)}
  {answers : List (Except Error Unit)}

theorem account_worker :
    (Threads.mk pool queue (before ++ worker :: after) owner todo answers).account =
      (Threads.mk pool queue (before ++ after) owner todo answers).account.join
        worker.left worker.pending := by
  simp only [Threads.account, Account.join, List.map_append, List.map_cons, List.sum_append,
    List.sum_cons, Account.mk.injEq, and_true]
  constructor <;> abel

theorem account_inline :
    (Threads.mk pool queue workers (.inline item stage) todo answers).account =
      (Threads.mk pool queue workers .ready todo answers).account.join
        (stage.left item) stage.pending := by
  simp only [Threads.account, Account.join, Owner.left, Owner.pending, Owner.failure?,
    Account.mk.injEq, and_true, Stage.pending]
  constructor <;> simp [add_assoc]

end Frames

theorem Tells.of_events {events : List (Event α)} (hevents : s.events t = events)
    (h : Tells job s t events) : Tells job s t (s.events t) := by
  rw [hevents]
  exact h

theorem Move.tells (h : Move job s t) : Tells job s t (s.events t) := by
  cases h with
  | @grow pool queue workers item todo answers h =>
      -- The job comes into the hands of the owner, and the new worker has none.
      refine .of_events ?_ (.gives item (.submit item) rfl rfl ?_)
      · simp [Threads.events, Owner.event?]
      · rw [growWorkers_of_lt h, account_worker, List.append_nil]
        simp [Threads.account, Account.join, Worker.left, Worker.pending, Worker.failure?,
          Owner.left, Owner.pending, Owner.failure?]
  | @reuse pool queue workers item todo answers h =>
      refine .of_events ?_ (.gives item (.submit item) rfl rfl ?_)
      · simp [Threads.events, Owner.event?]
      · rw [growWorkers_of_le h]
        simp [Threads.account, Owner.left, Owner.pending, Owner.failure?]
  | count =>
      refine .of_events ?_ (.quiet rfl)
      simp [Threads.events, Owner.event?]
  | send =>
      refine .of_events ?_ (.quiet ?_)
      · simp [Threads.events, Owner.event?]
      · simp only [Threads.account, Owner.left, Owner.pending, Owner.failure?, List.map_append,
          List.sum_append, List.map_cons, List.map_nil, List.sum_cons, List.sum_nil,
          Account.mk.injEq, and_true]
        abel
  | @takeInline pool queue workers item todo answers =>
      refine .of_events ?_ (.gives item (.runInline item) rfl rfl ?_)
      · simp [Threads.events, Owner.event?]
      · rw [account_inline]
        simp [Threads.account, Account.join, Stage.left, Stage.pending, Stage.failure?]
  | advanceInline h =>
      obtain ⟨shared, rfl⟩ := h.pool_eq
      refine h.tells rfl account_inline account_inline ?_
      simp [Threads.events, Owner.event?]
  | @recordInline pool queue workers item failure todo answers =>
      refine .of_events ?_ (.records failure ?_ ?_)
      · simp [Threads.events, Owner.event?]
      · rw [account_inline]
        rfl
      · rw [account_inline]
        simp [Threads.account, Account.join, Stage.left, DecodePool.record]
  | note =>
      refine .of_events ?_ (.notes _ rfl rfl)
      simp [Threads.events]
  | @drain pool queue workers todo answers h =>
      refine .of_events ?_ (.drains ⟨rfl, h, _, rfl, rfl⟩ ?_)
      · simp [Threads.events]
      · obtain ⟨failure, hpool⟩ := drain_eq pool
        rw [hpool]
        rfl
  | close =>
      refine .of_events ?_ (.quiet rfl)
      simp [Threads.events, Owner.event?]
  | join h =>
      refine .of_events ?_ (.quiet rfl)
      simp [Threads.events, Owner.event?]
  | take =>
      refine .of_events ?_ (.quiet ?_)
      · simp [Threads.events, Worker.event?]
      · rw [account_worker, account_worker]
        simp only [Threads.account, Account.join, Worker.left, Stage.left, Worker.pending,
          Worker.failure?, Stage.failure?, List.map_cons, List.sum_cons, Account.mk.injEq, and_true]
        abel
  | advance h =>
      obtain ⟨shared, rfl⟩ := h.pool_eq
      refine h.tells rfl account_worker account_worker ?_
      simp [Threads.events, Worker.event?]
  | @finish pool queue before item failure after owner todo answers =>
      refine .of_events ?_ (.records failure ?_ ?_)
      · simp [Threads.events, Worker.event?]
      · rw [account_worker, account_worker]
        simp [Threads.account, Account.join, Worker.pending, Worker.failure?, Stage.failure?]
      · rw [account_worker, account_worker]
        simp [Threads.account, Account.join, Worker.left, Stage.left, finishQueued,
          DecodePool.record]
  | stop =>
      refine .of_events ?_ (.quiet ?_)
      · simp [Threads.events, Worker.event?]
      · rw [account_worker, account_worker]
        rfl

theorem Turn.tells (h : Turn job s t) : Tells job s t (s.events t) := by
  cases h with
  | move h => exact h.tells
  | @unstarted pool queue workers item todo answers h hsome =>
      refine .of_events ?_ (.gives item (.submit item) rfl rfl ?_)
      · simp [Threads.events, Owner.event?]
      · simp [Threads.account, Owner.left, Owner.pending, Owner.failure?]
  | @unstaffed pool queue item todo answers h =>
      refine .of_events ?_ (.gives item (.submit item) rfl rfl ?_)
      · simp [Threads.events, Owner.event?]
      · rw [account_inline]
        simp [Threads.account, Account.join, Stage.left, Stage.pending, Stage.failure?]

theorem Acts.tells {events : List (Event α)} (h : Acts job s events t) : Tells job s t events := by
  cases h with
  | turn h => exact h.tells
  | interrupt => exact .interrupts rfl

end DocumentCache.DecodePool
