import DocumentCache.Model.Fault

/-!
# Settings

What the owner of a cache can choose.
-/

namespace DocumentCache

structure Settings where
  /-- Workers that decode the rows of one scan. -/
  decodeWorkers : Nat
  /-- Scans of fewer rows are decoded by the caller. -/
  parallelThreshold : Nat
  /-- The length from which on the log may be replaced by its live entries. -/
  checkpointBytes : Nat
  /-- Refuse to add a document read earlier than the stored one. -/
  rejectOlder : Bool
  /-- Force every record to the device. -/
  syncWrites : Bool
  deriving DecidableEq

namespace Settings

/-- Four workers, background decoding from 32 rows on, a log of 16 MiB, and every
record on the device before its call returns. -/
def default : Settings where
  decodeWorkers := 4
  parallelThreshold := 32
  checkpointBytes := 16777216
  rejectOlder := false
  syncWrites := true

instance : Inhabited Settings := ⟨default⟩

def validate (settings : Settings) : Except Error Unit :=
  if settings.decodeWorkers = 0 then .error (.configuration .noWorkers)
  else if settings.checkpointBytes = 0 then .error (.configuration .noCheckpointBytes)
  else .ok ()

end Settings

end DocumentCache
