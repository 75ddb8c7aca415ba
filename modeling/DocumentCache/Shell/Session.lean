import DocumentCache.Cache.Lookup
import DocumentCache.Cache.Scan
import DocumentCache.Cache.Write
import DocumentCache.Journal.SharedEngine
import DocumentCache.Shell.Command
import DocumentCache.Shell.Display

/-!
# Sessions

A session greets, then asks for one line after another, answers each and ends with
the command to leave, with the end of its input, or with a line that is no text.
-/

namespace DocumentCache.Shell

/-- A cache over the files of a directory. -/
abbrev FileCache : Type := Cache SharedEngine ParentIndex

def banner : String :=
  "\n"
    ++ "  ╔═══════════════════════════════════════════╗\n"
    ++ "  ║          REMNANT Document Store           ║\n"
    ++ "  ║     Versioned Remote Document Cache       ║\n"
    ++ "  ╚═══════════════════════════════════════════╝\n"
    ++ "\n"
    ++ "  Commands:\n"
    ++ "    add <path> <secs> [nanos] [field=value ...]  - Cache a found document\n"
    ++ "    tomb <path> <secs> [nanos]                   - Cache a deletion\n"
    ++ "    get <path>                                   - Look up one document\n"
    ++ "    getall <path> [path ...]                     - Batched lookup\n"
    ++ "    del <path>                                   - Drop a cached document\n"
    ++ "    query <collection> [secs [nanos]]            - Scan a collection\n"
    ++ "    latest                                       - Latest read time\n"
    ++ "    stats                                        - Show store metrics\n"
    ++ "    exit                                         - Shutdown\n"
    ++ "\n"

def prompt : String := "remnant> "

/-- Open the cache of a directory; on failure the directory is all that is left. -/
def openCache (disk : Disk) : Except (Error × Disk) FileCache :=
  match SharedEngine.openOn .default disk with
  | .error failure => .error failure
  | .ok shared =>
      match Cache.create shared ParentIndex.empty Payload.codec .default with
      | .error error => .error (error, shared.engine.disk)
      | .ok cache => .ok cache

/-- The directory of a cache. -/
def diskOf (cache : FileCache) : Disk := cache.engine.engine.disk

/-- What is said when the cache cannot be opened. -/
def openFailure (error : Error) : String :=
  s!"[ERROR] Failed to open store: {error.message}\n"

def showError (error : Error) : String := s!"  ERROR: {error.message}\n"

/-- The text of a result. -/
def answer {α : Type} (result : Except Error α) (text : α → String) : String :=
  match result with
  | .ok value => text value
  | .error error => showError error

/-- Carry out a command; `uptime` is what a report says of the time passed. -/
def run (uptime : String) (cache : FileCache) : Command → String × FileCache
  | .add document readTime =>
      let (result, cache) := cache.add document readTime
      (answer result fun _ => "  OK\n", cache)
  | .addDeleted document readTime =>
      let (result, cache) := cache.add document readTime
      (answer result fun _ => "  OK (tombstone)\n", cache)
  | .get key =>
      let (result, cache) := cache.get key
      (answer result showDocument, cache)
  | .getAll keys =>
      let (result, cache) := cache.getAll keys
      (answer result showDocuments, cache)
  | .remove key =>
      let (result, cache) := cache.remove key
      (answer result fun _ => "  OK (removed)\n", cache)
  | .query query since =>
      let (result, cache) := cache.query query since false
      (answer result showDocuments, cache)
  | .latest =>
      let (result, cache) := cache.latestReadTime
      (answer result fun time => s!"  {time.display}\n", cache)
  | .report => (cache.counters.report uptime ++ "\n", cache)
  | .usage text => (s!"  Usage: {text}\n", cache)
  | .unrecognised name =>
      (s!"  Unknown command: '{name}'. Type 'exit' to quit.\n", cache)
  | .leave => ("  Shutting down REMNANT...\n", cache)

/-- What a line leads to. -/
structure Reply where
  text : String
  cache : FileCache
  /-- Whether the session is over. -/
  ended : Bool

/-- Answer one line. -/
def reply (uptime : String) (cache : FileCache) (line : String) : Reply :=
  match parseLine line with
  | none => ⟨"", cache, false⟩
  | some (.error error) => ⟨showError error, cache, false⟩
  | some (.ok .leave) =>
      let (text, cache) := run uptime cache .leave
      ⟨text, cache, true⟩
  | some (.ok command) =>
      let (text, cache) := run uptime cache command
      ⟨text, cache, false⟩

/-- The first line of some input, its end of line included, and the input behind
it. -/
def splitLine : Bytes → Bytes × Bytes
  | [] => ([], [])
  | byte :: rest =>
      if byte = 0x0A then ([byte], rest)
      else
        let (line, behind) := splitLine rest
        (byte :: line, behind)

theorem splitLine_length (input : Bytes) :
    (splitLine input).1.length + (splitLine input).2.length = input.length := by
  induction input with
  | nil => rfl
  | cons byte rest ih =>
      unfold splitLine
      split
      · simp only [List.length_cons, List.length_nil]; omega
      · simp only [List.length_cons]; omega

theorem splitLine_rest_lt (byte : UInt8) (rest : Bytes) :
    (splitLine (byte :: rest)).2.length < (byte :: rest).length := by
  have hlength := splitLine_length rest
  unfold splitLine
  split
  · simp
  · simp only [List.length_cons]; omega

/-- Ask and answer until the session is over: everything that is printed, and the
cache at the end. -/
def converse (uptime : String) (cache : FileCache) : Bytes → String × FileCache
  | [] => (prompt, cache)
  | byte :: rest =>
      match Utf8.decode? (splitLine (byte :: rest)).1 with
      | none => (prompt, cache)
      | some line =>
          let answered := reply uptime cache line
          if answered.ended then (prompt ++ answered.text, answered.cache)
          else
            let (text, cache) := converse uptime answered.cache (splitLine (byte :: rest)).2
            (prompt ++ answered.text ++ text, cache)
  termination_by input => input.length
  decreasing_by exact splitLine_rest_lt byte rest

end DocumentCache.Shell
