import DocumentCache.Journal.Disk
import DocumentCache.Journal.Replay

/-!
# The log

An open log appends records to its file and counts the bytes it has seen.  It is
replaced by a shorter one in two steps: the live entries are written to a scratch
file, which then takes the log's name.  So at every moment the log's name stands
for the old log or for the whole new one.  An open log goes on with the new file
once it has opened that; until then it holds on to the old one, which has no name.
-/

namespace DocumentCache

structure Log where
  disk : Disk
  /-- Whether every append is forced to the device. -/
  syncWrites : Bool
  /-- The length of the log as far as this handle knows. -/
  size : Nat
  /-- Whether the file that this handle appends to is the one with the log's name. -/
  attached : Bool := true

namespace Log

/-- Replay the log in a directory. -/
def recover (disk : Disk) : Except Error Replay :=
  match disk.readLog with
  | .error error => .error error
  | .ok none => .ok .start
  | .ok (some content) => (Replay.ofLog content).mapError .recoveryFailed

/-- Cut a log that goes on behind its whole records down to them. -/
def cutTornTail (disk : Disk) (validBytes : Nat) : Except Error Unit × Disk :=
  match disk.log with
  | .file content =>
      if validBytes < content.length then
        match disk.truncateLog validBytes with
        | (.error error, disk) => (.error error, disk)
        | (.ok (), disk) => disk.sync
      else (.ok (), disk)
  | _ => (.ok (), disk)

/-- Open the log of a directory; on failure the directory is all that is left. -/
def openOn (disk : Disk) (syncWrites : Bool) : Except (Error × Disk) Log :=
  match disk.openLog with
  | (.error error, disk) => .error (error, disk)
  | (.ok size, disk) => .ok { disk, syncWrites, size }

/-- Write bytes at the end of the file that the handle holds.  What goes to a file that
has lost its name is not seen in the directory. -/
def write (log : Log) (bytes : Bytes) : Except Error Unit × Disk :=
  if log.attached then log.disk.appendLog bytes else log.disk.act id

/-- Append one record. -/
def append (log : Log) (operation : Operation) : Except Error Unit × Log :=
  let record := operation.encode
  match log.write record with
  | (.error error, disk) => (.error error, { log with disk })
  | (.ok (), disk) =>
      match disk.syncWhen log.syncWrites with
      | (.error error, disk) => (.error error, { log with disk })
      | (.ok (), disk) => (.ok (), { log with disk, size := log.size + record.length })

/-- Write one record after another to the scratch file. -/
def writeScratch (disk : Disk) : List Operation → Except Error Unit × Disk
  | [] => (.ok (), disk)
  | operation :: rest =>
      match disk.appendScratch operation.encode with
      | (.error error, disk) => (.error error, disk)
      | (.ok (), disk) => writeScratch disk rest

/-- The records of a table's live entries, in key order. -/
def liveRecords (table : Table) : List Operation :=
  table.toList.map fun entry => .put entry.1 entry.2

/-- The bytes of a run of records. -/
def encodeAll (operations : List Operation) : Bytes :=
  operations.flatMap Operation.encode

/-- Write the live entries to a scratch file that is safely on the device. -/
def prepareScratch (disk : Disk) (table : Table) : Except Error Unit × Disk :=
  match disk.createScratch with
  | (.error error, disk) => (.error error, disk)
  | (.ok (), disk) =>
      match writeScratch disk (liveRecords table) with
      | (.error error, disk) => (.error error, disk)
      | (.ok (), disk) => disk.sync

/-- Replace the log by the records of a table's live entries. -/
def rewrite (log : Log) (table : Table) : Except Error Unit × Log :=
  match prepareScratch log.disk table with
  | (.error error, disk) => (.error error, { log with disk })
  | (.ok (), disk) =>
      match disk.renameScratch with
      | (.error error, disk) => (.error error, { log with disk })
      | (.ok (), disk) =>
          match disk.openLog with
          | (.error error, disk) => (.error error, { log with disk, attached := false })
          | (.ok _, disk) =>
              (.ok (), { log with
                disk, attached := true, size := (encodeAll (liveRecords table)).length })

end Log

end DocumentCache
