import DocumentCache.Shell.Session

/-!
# The shell

Runs one session on the directory `data`.  Everything a session does to its
directory is worked out first; this layer reads the directory at the start, takes
each line from standard input, and brings the files up to date after every answer.
-/

namespace DocumentCache.Main

def directory : String := "data"

def logPath : String := s!"{directory}/{Disk.logName}"

def scratchPath : String := s!"{directory}/{Disk.scratchName}"

/-- The directory as it stands. -/
def readDisk : IO Disk := do
  IO.FS.createDirAll directory
  let log ←
    try pure (LogFile.file (← IO.FS.readBinFile logPath).toList)
    catch
      | .noFileOrDirectory .. => pure .missing
      | _ => pure .directory
  return { log, scratch := none, fates := [] }

/-- Bring the log up to date: append what is new, or replace the whole. -/
def writeDisk (old new : Disk) : IO Unit := do
  match old.log, new.log with
  | .file before, .file after =>
      if before.length ≤ after.length && after.take before.length == before then
        if before.length < after.length then
          let handle ← IO.FS.Handle.mk logPath .append
          handle.write ⟨(after.drop before.length).toArray⟩
          handle.flush
      else
        IO.FS.writeBinFile scratchPath ⟨after.toArray⟩
        IO.FS.rename scratchPath logPath
  | _, .file after => IO.FS.writeBinFile logPath ⟨after.toArray⟩
  | _, _ => return ()

/-- Seconds with two places. -/
def showSeconds (milliseconds : Nat) : String :=
  let hundredths := milliseconds / 10
  let places := hundredths % 100
  let padding := if places < 10 then "0" else ""
  s!"{hundredths / 100}.{padding}{places}s"

partial def converse (started : Nat) (cache : Shell.FileCache) : IO Unit := do
  let output ← IO.getStdout
  output.putStr Shell.prompt
  output.flush
  let line ← try (← IO.getStdin).getLine catch _ => pure ""
  if line.isEmpty then return ()
  let uptime := showSeconds ((← IO.monoMsNow) - started)
  let answered := Shell.reply uptime cache line
  writeDisk (Shell.diskOf cache) (Shell.diskOf answered.cache)
  output.putStr answered.text
  output.flush
  if answered.ended then return ()
  converse started answered.cache

end DocumentCache.Main

def main : IO UInt32 := do
  let output ← IO.getStdout
  output.putStr DocumentCache.Shell.banner
  let failed (error : DocumentCache.Error) : IO UInt32 := do
    (← IO.getStderr).putStr (DocumentCache.Shell.openFailure error)
    return 1
  let disk ← try pure (some (← DocumentCache.Main.readDisk)) catch _ => pure none
  match disk with
  | none => failed DocumentCache.Disk.failure
  | some disk =>
      match DocumentCache.Shell.openCache disk with
      | .error (error, left) =>
          DocumentCache.Main.writeDisk disk left
          failed error
      | .ok cache =>
          DocumentCache.Main.writeDisk disk (DocumentCache.Shell.diskOf cache)
          DocumentCache.Main.converse (← IO.monoMsNow) cache
          return 0
