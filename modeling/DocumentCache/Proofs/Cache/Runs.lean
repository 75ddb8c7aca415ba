import DocumentCache.Cache.Lookup
import DocumentCache.Cache.Scan
import DocumentCache.Cache.Write
import DocumentCache.Journal.SharedEngine

/-!
# Runs of a cache

A cache over any engine and any index is used in any order: documents are added, removed
and read, and between its calls other users of the engine may do what they like.  A run
tells for each action whether it succeeded, and goes on after those that did not.
-/

namespace DocumentCache.Cache

/-- What is done with a cache. -/
inductive Action (σ : Type) where
  | add (document : Document) (readTime : ReadTime)
  | remove (key : DocumentKey)
  | get (key : DocumentKey)
  | getAll (keys : List DocumentKey)
  | query (query : Query) (since : ReadTime) (interrupted : Bool)
  | latestReadTime
  /-- Someone else changes the engine. -/
  | meanwhile (change : σ → σ)

variable {σ ι : Type}

/-- Whether a call succeeded, without its answer. -/
def settle {α : Type} (outcome : Except Error α × Cache σ ι) : Except Error Unit × Cache σ ι :=
  (outcome.1.map fun _ => (), outcome.2)

theorem settle_eq_ok_iff {α : Type} {outcome : Except Error α × Cache σ ι} :
    (settle outcome).1 = .ok () ↔ ∃ answer, outcome.1 = .ok answer := by
  obtain ⟨result, after⟩ := outcome
  cases result with
  | error error => exact iff_of_false (fun h => nomatch h) fun ⟨_, h⟩ => nomatch h
  | ok answer => exact iff_of_true rfl ⟨answer, rfl⟩

theorem eq_ok_of_toBool {result : Except Error Unit} (h : result.toBool = true) :
    result = .ok () := by
  cases result with
  | error error => cases h
  | ok _ => rfl

theorem eq_ok_of_toOption {α : Type} {result : Except Error α} {value : α}
    (h : result.toOption = some value) : result = .ok value := by
  cases result with
  | error error => cases h
  | ok _ => exact congrArg _ (Option.some.inj h)

variable [KeyValueEngine σ] [CollectionIndex ι]

def act (cache : Cache σ ι) : Action σ → Except Error Unit × Cache σ ι
  | .add document readTime => cache.add document readTime
  | .remove key => cache.remove key
  | .get key => settle (cache.get key)
  | .getAll keys => settle (cache.getAll keys)
  | .query query since interrupted => settle (cache.query query since interrupted)
  | .latestReadTime => settle cache.latestReadTime
  | .meanwhile change => (.ok (), { cache with engine := change cache.engine })

/-- What each of some actions came to, one after another, and the cache after them. -/
def run (cache : Cache σ ι) : List (Action σ) → List (Action σ × Except Error Unit) × Cache σ ι
  | [] => ([], cache)
  | action :: rest =>
      let outcome := cache.act action
      let later := outcome.2.run rest
      ((action, outcome.1) :: later.1, later.2)

/-- A cache over an engine that was just opened on an empty directory. -/
def freshCache : Cache SharedEngine ParentIndex where
  engine := .ofEngine
    ⟨.default, .empty, { disk := ⟨.file [], none, []⟩, syncWrites := false, size := 0 }⟩
  index := .empty
  codec := Payload.codec
  settings := .default
  counters := .zero

end DocumentCache.Cache
