import DocumentCache.Proofs.Cache.WorkingCaches
import Mathlib.Algebra.GroupWithZero.Nat
import Mathlib.Logic.Relation

/-!
# Threads that add documents

Any number of threads add documents to one cache, each one after another.  A thread
encodes a document, writes its row, counts the write and tells the index; each of these
is a turn of its own, and the turns of different threads come in any order.  Between any
two of them others may write to the engine, make a checkpoint, or read, as long as they
leave the row of one key alone.

What the turns of a single add come to is an add of the cache, and whatever has happened,
all threads can get done.
-/

namespace DocumentCache.Cache

open Shell (FileCache)

/-! ## Turns -/

/-- A row that was to be written, and the engine before and after that. -/
structure Attempt where
  request : Request
  before : SharedEngine
  result : Except Error Unit
  after : SharedEngine

/-- Write the row of a document. -/
def attempt (cache : FileCache) (request : Request) (rowKey row : Bytes) : Attempt where
  request := request
  before := cache.engine
  result := (cache.writeRow request.document request.readTime rowKey row).1
  after := (cache.writeRow request.document request.readTime rowKey row).2.engine

/-- How an add ended. -/
inductive Outcome where
  /-- The document cannot be encoded. -/
  | refused (request : Request) (error : Error)
  | tried (attempt : Attempt)

namespace Outcome

def request : Outcome → Request
  | .refused request _ => request
  | .tried attempt => attempt.request

/-- What the add returned. -/
def result : Outcome → Except Error Unit
  | .refused _ error => .error error
  | .tried attempt => attempt.result

end Outcome

/-- How far a thread has come with an add. -/
inductive Stage where
  | ready
  /-- The row is not written yet. -/
  | writing (request : Request) (rowKey row : Bytes)
  /-- The row was written or refused, and nothing else was done about it. -/
  | wrote (attempt : Attempt) (rowKey row : Bytes)
  /-- The write was counted, and the index is not told yet. -/
  | counted (attempt : Attempt)

structure Writer where
  stage : Stage
  /-- The adds that the thread has not begun. -/
  todo : List Request
  outcomes : List Outcome

structure Writers where
  cache : FileCache
  writers : List Writer
  /-- The writes of all threads so far, in the order in which they were made. -/
  attempts : List Attempt

/-- One turn of a thread, and the attempts that it makes. -/
inductive Turn : FileCache → Writer → FileCache → Writer → List Attempt → Prop where
  | refuse {cache request todo outcomes error}
      (h : encodeRow cache.codec request.document request.readTime = .error error) :
      Turn cache ⟨.ready, request :: todo, outcomes⟩
        cache ⟨.ready, todo, outcomes ++ [.refused request error]⟩ []
  | encode {cache request todo outcomes rowKey row}
      (h : encodeRow cache.codec request.document request.readTime = .ok (rowKey, row)) :
      Turn cache ⟨.ready, request :: todo, outcomes⟩
        cache ⟨.writing request rowKey row, todo, outcomes⟩ []
  | write {cache request rowKey row todo outcomes} :
      Turn cache ⟨.writing request rowKey row, todo, outcomes⟩
        (cache.writeRow request.document request.readTime rowKey row).2
        ⟨.wrote (cache.attempt request rowKey row) rowKey row, todo, outcomes⟩
        [cache.attempt request rowKey row]
  | fail {cache attempt rowKey row todo outcomes error} (h : attempt.result = .error error) :
      Turn cache ⟨.wrote attempt rowKey row, todo, outcomes⟩
        cache ⟨.ready, todo, outcomes ++ [.tried attempt]⟩ []
  | count {cache attempt rowKey row todo outcomes} (h : attempt.result = .ok ()) :
      Turn cache ⟨.wrote attempt rowKey row, todo, outcomes⟩
        { cache with
          counters := cache.counters.recordAdd
            (UInt64.ofNat rowKey.length) (UInt64.ofNat row.length) }
        ⟨.counted attempt, todo, outcomes⟩ []
  | notify {cache attempt todo outcomes} :
      Turn cache ⟨.counted attempt, todo, outcomes⟩
        { cache with
          index := (CollectionIndex.notify cache.index attempt.request.key.collection).2 }
        ⟨.ready, todo, outcomes ++ [.tried attempt]⟩ []

/-- One turn of some thread among the others, or a call of somebody else, who does not write
under the row key of one key.  What is read, or removed under other keys, shows in the
counters. -/
inductive Step (key : DocumentKey) : Writers → Writers → Prop where
  | turn {cache before writer after attempts next moved made}
      (h : Turn cache writer next moved made) :
      Step key ⟨cache, before ++ writer :: after, attempts⟩
        ⟨next, before ++ moved :: after, attempts ++ made⟩
  | put {cache writers attempts} (rowKey value : Bytes) (h : rowKey ≠ RowKey.ofDocument key) :
      Step key ⟨cache, writers, attempts⟩
        ⟨{ cache with engine := (KeyValueEngine.put cache.engine rowKey value).2 },
          writers, attempts⟩
  | delete {cache writers attempts} (rowKey : Bytes) (h : rowKey ≠ RowKey.ofDocument key) :
      Step key ⟨cache, writers, attempts⟩
        ⟨{ cache with engine := (KeyValueEngine.delete cache.engine rowKey).2 },
          writers, attempts⟩
  | checkpoint {cache writers attempts} :
      Step key ⟨cache, writers, attempts⟩
        ⟨{ cache with engine := cache.engine.checkpoint.2 }, writers, attempts⟩
  | note {cache writers attempts} (counters : Counters) (index : ParentIndex) :
      Step key ⟨cache, writers, attempts⟩
        ⟨{ cache with counters, index }, writers, attempts⟩

/-- Some turns and calls after another. -/
abbrev Reaches (key : DocumentKey) : Writers → Writers → Prop :=
  Relation.ReflTransGen (Step key)

/-- One thread for each of some lists of adds. -/
def Writers.start (cache : FileCache) (plans : List (List Request)) : Writers :=
  ⟨cache, plans.map fun plan => ⟨.ready, plan, []⟩, []⟩

/-- All adds have returned. -/
def Writers.Done (s : Writers) : Prop :=
  ∀ writer ∈ s.writers, writer.stage = .ready ∧ writer.todo = []

variable {key : DocumentKey} {s t : Writers}

/-! ## A single add -/

/-- A turn in which nothing is written. -/
theorem reaches_quiet {cache next : FileCache} {writer moved : Writer}
    (h : Turn cache writer next moved []) (before after : List Writer) (attempts : List Attempt) :
    Reaches key ⟨cache, before ++ writer :: after, attempts⟩
      ⟨next, before ++ moved :: after, attempts⟩ := by
  have hstep : Step key ⟨cache, before ++ writer :: after, attempts⟩
      ⟨next, before ++ moved :: after, attempts ++ []⟩ := .turn h
  rw [List.append_nil] at hstep
  exact .single hstep

/-- A thread that is not disturbed does what an add of the cache does. -/
theorem reaches_add (cache : FileCache) (request : Request) (todo : List Request)
    (outcomes : List Outcome) (before after : List Writer) (attempts : List Attempt) :
    ∃ outcome made, outcome.request = request ∧
      outcome.result = (cache.add request.document request.readTime).1 ∧
      Reaches key ⟨cache, before ++ ⟨.ready, request :: todo, outcomes⟩ :: after, attempts⟩
        ⟨(cache.add request.document request.readTime).2,
          before ++ ⟨.ready, todo, outcomes ++ [outcome]⟩ :: after, attempts ++ made⟩ := by
  unfold add
  cases hencode : encodeRow cache.codec request.document request.readTime with
  | error error =>
      refine ⟨.refused request error, [], rfl, rfl, ?_⟩
      rw [List.append_nil]
      exact reaches_quiet (.refuse hencode) before after attempts
  | ok encoded =>
      obtain ⟨rowKey, row⟩ := encoded
      have hresult : (cache.attempt request rowKey row).result =
          (cache.writeRow request.document request.readTime rowKey row).1 := rfl
      refine ⟨.tried (cache.attempt request rowKey row), [cache.attempt request rowKey row], rfl,
        ?_, (reaches_quiet (.encode hencode) before after attempts).trans
          (.head (.turn .write) ?_)⟩
      · rw [Outcome.result, hresult]
        dsimp only
        cases cache.writeRow request.document request.readTime rowKey row with
        | mk result next => cases result <;> rfl
      · dsimp only
        cases hwrite : cache.writeRow request.document request.readTime rowKey row with
        | mk result next =>
            rw [hwrite] at hresult
            cases result with
            | error error => exact reaches_quiet (.fail hresult) before after _
            | ok _ =>
                exact (reaches_quiet (.count hresult) before after _).trans
                  (reaches_quiet .notify before after _)

/-! ## Every thread gets done -/

/-- The turns that a stage is away from having returned. -/
def Stage.weight : Stage → Nat
  | .ready => 0
  | .writing _ _ _ => 3
  | .wrote _ _ _ => 2
  | .counted _ => 1

/-- A bound on the turns that the thread can still take. -/
def Writer.weight (writer : Writer) : Nat := 4 * writer.todo.length + writer.stage.weight

def Writers.weight (s : Writers) : Nat := (s.writers.map Writer.weight).sum

theorem Turn.weight_lt {cache next : FileCache} {writer moved : Writer} {made : List Attempt}
    (h : Turn cache writer next moved made) : moved.weight < writer.weight := by
  cases h with
  | encode =>
      simp [Writer.weight, Stage.weight]
      omega
  | _ => simp [Writer.weight, Stage.weight]

/-- A thread that has not returned from all of its adds can take a turn. -/
theorem Turn.exists_of_busy (cache : FileCache) {writer : Writer}
    (hbusy : ¬ (writer.stage = .ready ∧ writer.todo = [])) :
    ∃ next moved made, Turn cache writer next moved made := by
  obtain ⟨stage, todo, outcomes⟩ := writer
  cases stage with
  | ready =>
      cases todo with
      | nil => exact absurd ⟨rfl, rfl⟩ hbusy
      | cons request todo =>
          cases hencode : encodeRow cache.codec request.document request.readTime with
          | error error => exact ⟨_, _, _, .refuse hencode⟩
          | ok encoded => exact ⟨_, _, _, .encode hencode⟩
  | writing request rowKey row => exact ⟨_, _, _, .write⟩
  | wrote attempt rowKey row =>
      cases hresult : attempt.result with
      | error error => exact ⟨_, _, _, .fail hresult⟩
      | ok _ => exact ⟨_, _, _, .count hresult⟩
  | counted attempt => exact ⟨_, _, _, .notify⟩

theorem Writers.exists_step (key : DocumentKey) (hbusy : ¬ s.Done) :
    ∃ t, Step key s t ∧ t.weight < s.weight := by
  obtain ⟨cache, writers, attempts⟩ := s
  simp only [Done, Classical.not_forall] at hbusy
  obtain ⟨writer, hmem, hbusy⟩ := hbusy
  obtain ⟨before, after, rfl⟩ := List.append_of_mem hmem
  obtain ⟨next, moved, made, hturn⟩ := Turn.exists_of_busy cache hbusy
  refine ⟨_, .turn hturn, ?_⟩
  have hlt := hturn.weight_lt
  simp only [weight, List.map_append, List.map_cons, List.sum_append, List.sum_cons]
  omega

/-- Whatever has happened, all threads can get done. -/
theorem Writers.exists_done (s : Writers) : ∃ t, Reaches key s t ∧ t.Done := by
  induction hweight : s.weight using Nat.strongRecOn generalizing s with
  | _ bound ih =>
      by_cases hdone : s.Done
      · exact ⟨s, .refl, hdone⟩
      · obtain ⟨next, hstep, hlt⟩ := exists_step key hdone
        rw [hweight] at hlt
        obtain ⟨last, hreach, hlast⟩ := ih next.weight hlt next rfl
        exact ⟨last, .head hstep hreach, hlast⟩

/-! ## Plans -/

/-- The adds that a thread has begun and not returned from. -/
def Stage.requests : Stage → List Request
  | .ready => []
  | .writing request _ _ => [request]
  | .wrote attempt _ _ => [attempt.request]
  | .counted attempt => [attempt.request]

/-- All adds of a thread, returned from or not. -/
def Writer.plan (writer : Writer) : List Request :=
  writer.outcomes.map Outcome.request ++ (writer.stage.requests ++ writer.todo)

theorem Turn.plan_eq {cache next : FileCache} {writer moved : Writer} {made : List Attempt}
    (h : Turn cache writer next moved made) : moved.plan = writer.plan := by
  cases h <;> simp [Writer.plan, Stage.requests, Outcome.request, attempt]

theorem Step.plans_eq (h : Step key s t) :
    t.writers.map Writer.plan = s.writers.map Writer.plan := by
  cases h with
  | turn hturn => simp only [List.map_append, List.map_cons, hturn.plan_eq]
  | _ => rfl

/-- Threads are started with the adds they are to do. -/
theorem Writers.plans_start (cache : FileCache) (plans : List (List Request)) :
    (start cache plans).writers.map Writer.plan = plans := by
  simp only [start, List.map_map]
  exact List.map_id plans

theorem Step.attempts_prefix (h : Step key s t) : s.attempts <+: t.attempts := by
  cases h with
  | turn hturn => exact List.prefix_append _ _
  | _ => exact List.prefix_rfl

theorem Reaches.attempts_prefix (h : Reaches key s t) : s.attempts <+: t.attempts := by
  induction h with
  | refl => exact List.prefix_rfl
  | tail _ hstep ih => exact ih.trans hstep.attempts_prefix

end DocumentCache.Cache
