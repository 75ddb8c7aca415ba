import DocumentCache.Journal.Log
import DocumentCache.Model.Settings

/-!
# The engine

An engine keeps a table in memory and its log on disk.  A change is appended to
the log before the table is changed; when the log has grown to the checkpoint
length and is more than twice as long as the live data, it is replaced by the
live entries.  Opening an engine replays the log and cuts off a torn tail.

A call answers with its result and with the engine after it, since a call that
fails may still have left something behind.
-/

namespace DocumentCache

structure Engine where
  settings : Settings
  table : Table
  log : Log

/-- What a check says about the value that is to be replaced. -/
inductive Verdict where
  | accept
  | refuse (error : Error)
  /-- The check ended without an answer. -/
  | abort

namespace Engine

/-- Open the engine of a directory; on failure the directory is all that is left. -/
def openOn (settings : Settings) (disk : Disk) : Except (Error × Disk) Engine :=
  match settings.validate with
  | .error error => .error (error, disk)
  | .ok () =>
      match Log.recover disk with
      | .error error => .error (error, disk)
      | .ok replay =>
          match Log.cutTornTail disk replay.validBytes with
          | (.error error, disk) => .error (error, disk)
          | (.ok (), disk) =>
              match Log.openOn disk settings.syncWrites with
              | .error failure => .error failure
              | .ok log => .ok ⟨settings, replay.table, log⟩

def disk (engine : Engine) : Disk := engine.log.disk

/-- The engine on the same files after someone else changed them. -/
def withDisk (engine : Engine) (disk : Disk) : Engine :=
  { engine with log := { engine.log with disk } }

/-! ## Reading -/

def get? (engine : Engine) (key : Bytes) : Option Bytes := engine.table.get? key

def startingWith (engine : Engine) (front : Bytes) : List (Bytes × Bytes) :=
  engine.table.startingWith front

def between (engine : Engine) (first last : Bytes) : List (Bytes × Bytes) :=
  engine.table.between first last

def length (engine : Engine) : Nat := engine.table.length

def isEmpty (engine : Engine) : Bool := engine.table.isEmpty

def logSize (engine : Engine) : Nat := engine.log.size

/-! ## Writing -/

/-- Replace the log by the live entries. -/
def checkpoint (engine : Engine) : Except Error Unit × Engine :=
  match engine.log.rewrite engine.table with
  | (result, log) => (result, { engine with log })

/-- Whether the log is due for a checkpoint: it is long, and most of it is
history. -/
def checkpointDue (engine : Engine) : Bool :=
  engine.settings.checkpointBytes ≤ engine.log.size && 2 * engine.table.size < engine.log.size

def maybeCheckpoint (engine : Engine) : Except Error Unit × Engine :=
  if engine.checkpointDue then engine.checkpoint else (.ok (), engine)

/-- Log a change, make it, and see whether a checkpoint is due. -/
def commit (engine : Engine) (operation : Operation) : Except Error Unit × Engine :=
  match engine.log.append operation with
  | (.error error, log) => (.error error, { engine with log })
  | (.ok (), log) =>
      maybeCheckpoint { engine with log, table := operation.apply engine.table }

def put (engine : Engine) (key value : Bytes) : Except Error Unit × Engine :=
  engine.commit (.put key value)

/-- Delete a key.  Nothing is logged when it is absent. -/
def delete (engine : Engine) (key : Bytes) : Except Error Unit × Engine :=
  match engine.get? key with
  | none => (.ok (), engine)
  | some _ => engine.commit (.delete key)

/-- Put a value if the check accepts the value that stands there; no result when
the check ends without an answer. -/
def putIf (engine : Engine) (key value : Bytes) (check : Option Bytes → Verdict) :
    Option (Except Error Unit) × Engine :=
  match check (engine.get? key) with
  | .abort => (none, engine)
  | .refuse error => (some (.error error), engine)
  | .accept =>
      match engine.put key value with
      | (result, engine) => (some result, engine)

end Engine

end DocumentCache
