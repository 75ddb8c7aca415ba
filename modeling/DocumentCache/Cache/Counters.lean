/-!
# Counters

What a cache has done since it was opened.  The counters are 64-bit words.
-/

namespace DocumentCache

structure Counters where
  adds : UInt64
  removes : UInt64
  gets : UInt64
  batchGets : UInt64
  scans : UInt64
  /-- Rows read for batch lookups and scans. -/
  rowsScanned : UInt64
  /-- Rows handed to a worker for decoding. -/
  backgroundDecodes : UInt64
  corruptRecords : UInt64
  /-- Bytes of the row keys and rows added. -/
  bytesWritten : UInt64
  deriving DecidableEq, Repr

namespace Counters

def zero : Counters := ⟨0, 0, 0, 0, 0, 0, 0, 0, 0⟩

instance : Inhabited Counters := ⟨zero⟩

def recordAdd (counters : Counters) (keySize rowSize : UInt64) : Counters :=
  { counters with
    adds := counters.adds + 1
    bytesWritten := counters.bytesWritten + (keySize + rowSize) }

def recordRemove (counters : Counters) : Counters :=
  { counters with removes := counters.removes + 1 }

def recordGet (counters : Counters) : Counters :=
  { counters with gets := counters.gets + 1 }

def recordBatchGet (counters : Counters) (rows : UInt64) : Counters :=
  { counters with
    batchGets := counters.batchGets + 1
    rowsScanned := counters.rowsScanned + rows }

def recordScan (counters : Counters) (rows : UInt64) : Counters :=
  { counters with
    scans := counters.scans + 1
    rowsScanned := counters.rowsScanned + rows }

def recordBackgroundDecode (counters : Counters) : Counters :=
  { counters with backgroundDecodes := counters.backgroundDecodes + 1 }

def recordCorrupt (counters : Counters) : Counters :=
  { counters with corruptRecords := counters.corruptRecords + 1 }

/-- All calls of the cache. -/
def operations (counters : Counters) : UInt64 :=
  counters.adds + counters.removes + counters.gets + counters.batchGets + counters.scans

/-- The counters for people to read, closed by the given time since opening. -/
def report (counters : Counters) (uptime : String) : String :=
  "\n═══ REMNANT Store Metrics ═══\n"
    ++ "Operations:\n"
    ++ s!"adds:        {counters.adds.toNat}\n"
    ++ s!"removes:     {counters.removes.toNat}\n"
    ++ s!"gets:        {counters.gets.toNat}\n"
    ++ s!"batch gets:  {counters.batchGets.toNat}\n"
    ++ s!"scans:       {counters.scans.toNat}\n"
    ++ "Decoding:\n"
    ++ s!"rows read:   {counters.rowsScanned.toNat}\n"
    ++ s!"background:  {counters.backgroundDecodes.toNat}\n"
    ++ s!"corrupt:     {counters.corruptRecords.toNat}\n"
    ++ "I/O:\n"
    ++ s!"written:     {counters.bytesWritten.toNat} bytes\n"
    ++ s!"Uptime: {uptime}"

end Counters

end DocumentCache
