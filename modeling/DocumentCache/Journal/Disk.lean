import DocumentCache.Model.Fault

/-!
# The data directory

The directory holds the log and, while a log is being replaced, a scratch file.
A file action either is done or fails; a write that fails may leave some of its
bytes behind.  A disk carries the fates of the file actions still to come, in
their order; once they are used up every action is done.  A process that dies in
the middle of an action leaves the directory as a failed action leaves it.
-/

namespace DocumentCache

/-- What becomes of a file action. -/
inductive Fate where
  | done
  /-- It fails when this many of its bytes are written. -/
  | failed (written : Nat)
  deriving DecidableEq

/-- What stands under the log's name. -/
inductive LogFile where
  | missing
  | directory
  | file (content : Bytes)
  deriving DecidableEq

structure Disk where
  log : LogFile
  scratch : Option Bytes
  fates : List Fate
  deriving DecidableEq

namespace Disk

def logName : String := "remnant.wal"

def scratchName : String := "remnant.wal.tmp"

/-- An empty directory in which nothing fails. -/
def empty : Disk := ⟨.missing, none, []⟩

instance : Inhabited Disk := ⟨empty⟩

/-- The names in the directory, in order. -/
def names (disk : Disk) : List String :=
  (if disk.log = .missing then [] else [logName]) ++
    (if disk.scratch.isSome then [scratchName] else [])

/-- The failure of a file action. -/
def failure : Error := .storageUnavailable .device

/-- The fate of the next file action, and the disk after it is known. -/
def draw (disk : Disk) : Fate × Disk :=
  match disk.fates with
  | [] => (.done, disk)
  | fate :: rest => (fate, { disk with fates := rest })

/-- A file action without bytes of its own. -/
def act (disk : Disk) (change : Disk → Disk) : Except Error Unit × Disk :=
  match disk.draw with
  | (.done, disk) => (.ok (), change disk)
  | (.failed _, disk) => (.error failure, disk)

/-- Force what is written to the device. -/
def sync (disk : Disk) : Except Error Unit × Disk := disk.act id

/-- Force what is written to the device, if that is wanted. -/
def syncWhen (disk : Disk) (wanted : Bool) : Except Error Unit × Disk :=
  if wanted then disk.sync else (.ok (), disk)

/-! ## The log -/

/-- The content of the log; nothing if there is none. -/
def readLog (disk : Disk) : Except Error (Option Bytes) :=
  match disk.log with
  | .missing => .ok none
  | .directory => .error failure
  | .file content => .ok (some content)

/-- Open the log for appending, creating it if it is missing, and tell its length. -/
def openLog (disk : Disk) : Except Error Nat × Disk :=
  match disk.draw with
  | (.failed _, disk) => (.error failure, disk)
  | (.done, disk) =>
      match disk.log with
      | .missing => (.ok 0, { disk with log := .file [] })
      | .directory => (.error failure, disk)
      | .file content => (.ok content.length, disk)

/-- Write bytes at the end of the log. -/
def appendLog (disk : Disk) (bytes : Bytes) : Except Error Unit × Disk :=
  match disk.log with
  | .file content =>
      match disk.draw with
      | (.done, disk) => (.ok (), { disk with log := .file (content ++ bytes) })
      | (.failed written, disk) =>
          (.error failure, { disk with log := .file (content ++ bytes.take written) })
  | _ => (.error failure, disk)

/-- Cut the log down to a length. -/
def truncateLog (disk : Disk) (length : Nat) : Except Error Unit × Disk :=
  disk.act fun disk =>
    match disk.log with
    | .file content => { disk with log := .file (content.take length) }
    | _ => disk

/-! ## The scratch file -/

/-- Start an empty scratch file in place of any old one. -/
def createScratch (disk : Disk) : Except Error Unit × Disk :=
  disk.act fun disk => { disk with scratch := some [] }

/-- Write bytes at the end of the scratch file. -/
def appendScratch (disk : Disk) (bytes : Bytes) : Except Error Unit × Disk :=
  match disk.draw with
  | (.done, disk) => (.ok (), { disk with scratch := disk.scratch.map (· ++ bytes) })
  | (.failed written, disk) =>
      (.error failure, { disk with scratch := disk.scratch.map (· ++ bytes.take written) })

/-- Give the scratch file the log's name, in place of the old log. -/
def renameScratch (disk : Disk) : Except Error Unit × Disk :=
  match disk.draw with
  | (.failed _, disk) => (.error failure, disk)
  | (.done, disk) =>
      match disk.log, disk.scratch with
      | .directory, _ => (.error failure, disk)
      | _, none => (.error failure, disk)
      | _, some content => (.ok (), { disk with log := .file content, scratch := none })

end Disk

end DocumentCache
