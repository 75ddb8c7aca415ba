import DocumentCache.Journal.Record

/-!
# Replay

Replaying a log applies its records in order.  A torn record at the end is left
out: replay reports how many bytes the records before it take.  A corrupt record
anywhere refuses the whole log.
-/

namespace DocumentCache

structure Replay where
  table : Table
  /-- The length of the records replayed. -/
  validBytes : Nat
  /-- The number of records replayed. -/
  records : Nat

namespace Replay

def start : Replay := ⟨.empty, 0, 0⟩

/-- The replay after one more record of the given length. -/
def advance (replay : Replay) (operation : Operation) (length : Nat) : Replay where
  table := operation.apply replay.table
  validBytes := replay.validBytes + length
  records := replay.records + 1

/-- Replay the records at the front of some bytes after those replayed already. -/
def continueWith (replay : Replay) (bytes : Bytes) : Except RecoveryFault Replay :=
  match _hread : Operation.read? bytes with
  | .error fault => .error fault
  | .ok none => .ok replay
  | .ok (some (operation, rest)) =>
      continueWith (replay.advance operation (bytes.length - rest.length)) rest
  termination_by bytes.length
  decreasing_by exact Operation.read?_rest_lt _hread

/-- Replay a whole log. -/
def ofLog (bytes : Bytes) : Except RecoveryFault Replay :=
  start.continueWith bytes

end Replay

end DocumentCache
