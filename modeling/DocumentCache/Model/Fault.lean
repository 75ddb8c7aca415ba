import DocumentCache.Model.Document

/-!
# Faults

Everything that can go wrong, as causes.  An error is of one of six kinds; each
kind has its own causes, and the wording of all of them is here.  Callers that
supply a collaborator of their own (a check, a decode job, an engine) may state a
fault in their own words.
-/

namespace DocumentCache

/-- The caller broke a precondition. -/
inductive ArgumentFault where
  | path (fault : PathFault)
  | readTime (fault : ReadTimeFault)
  /-- Only documents that the cache knows have a stored form. -/
  | unknownDocument (key : DocumentKey)
  /-- A document that was never read cannot be added. -/
  | neverRead (key : DocumentKey)
  /-- The stored row was read later than the document offered. -/
  | olderReadTime (offered : ReadTime) (key : DocumentKey) (stored : ReadTime)
  | rootCollection
  | expectedField (word : String)
  | badSeconds (word : String)
  | badNanos (word : String)
  | stated (text : String)

def ArgumentFault.message : ArgumentFault → String
  | .path fault => fault.message
  | .readTime fault => fault.message
  | .unknownDocument key => s!"cannot encode invalid document {key.display}"
  | .neverRead key => s!"cannot add {key.display} with a read time of NONE"
  | .olderReadTime offered key stored =>
      s!"read time {offered.display} for {key.display} is older than stored {stored.display}"
  | .rootCollection => "the root path is not a collection"
  | .expectedField word => s!"expected field=value, got '{word}'"
  | .badSeconds word => s!"bad seconds '{word}'"
  | .badNanos word => s!"bad nanos '{word}'"
  | .stated text => text

/-- Why bytes do not begin with the stored form of a value. -/
inductive WireFault where
  /-- The bytes end inside a number, a tag, a count or a byte string. -/
  | endOfInput
  /-- The bytes end inside a text whose length they do give. -/
  | endOfText
  /-- A tag outside the `count` known ones. -/
  | unknownTag (tag count : Nat)
  | badFlag (byte : UInt8)
  | badText (fault : Utf8.Fault)
  deriving DecidableEq

def WireFault.message : WireFault → String
  | .endOfInput => "io error: unexpected end of file"
  | .endOfText => "io error: "
  | .unknownTag tag count =>
      s!"invalid value: integer `{tag}`, expected variant index 0 <= i < {count}"
  | .badFlag byte =>
      s!"invalid u8 while decoding bool, expected 0 or 1, found {byte.toNat}"
  | .badText fault => s!"string is not valid utf8: {fault.message}"

/-- Why stored bytes hold no path, row or document. -/
inductive Corruption where
  | cutEscape
  | badSegment
  | badEscape (byte : UInt8)
  | unterminatedPath
  | emptySegment
  | foreignRowKey
  | idSegments (count : Nat)
  | wire (fault : WireFault)
  | shortPayload (length : Nat)
  | badMagic (byte : UInt8)
  | unknownFormat (byte : UInt8)
  | payloadChecksum
  | payloadEmptySegment
  | payloadPath (fault : PathFault)
  | payloadVersion (fault : ReadTimeFault)
  | unknownPayload (key : DocumentKey)
  | rowReadTime (fault : ReadTimeFault)
  | rowKey (fault : PathFault)
  | foreignPayload (row payload : DocumentKey)
  | stated (text : String)

/-- The heading under which broken preconditions are reported. -/
def argumentHeading : String := "Invalid argument: "

def Corruption.message : Corruption → String
  | .cutEscape => "encoded path ends inside an escape"
  | .badSegment => "encoded path segment is not UTF-8"
  | .badEscape byte => s!"invalid escape 0x{hexByte byte} in encoded path"
  | .unterminatedPath => "encoded path is missing its final terminator"
  | .emptySegment => "encoded path has an empty segment"
  | .foreignRowKey => "row key is outside the scanned collection"
  | .idSegments count => s!"row key holds {count} id segments, expected 1"
  | .wire fault => fault.message
  | .shortPayload length => s!"payload too short: {length} bytes"
  | .badMagic byte => s!"bad payload magic 0x{hexByte byte}"
  | .unknownFormat byte => s!"unsupported payload format {byte.toNat}"
  | .payloadChecksum => "payload checksum mismatch"
  | .payloadEmptySegment => "payload path has an empty segment"
  | .payloadPath fault => s!"{argumentHeading}{fault.message}"
  | .payloadVersion fault => s!"payload version: {argumentHeading}{fault.message}"
  | .unknownPayload key => s!"payload for {key.display} decoded to an invalid document"
  | .rowReadTime fault => s!"row read time: {argumentHeading}{fault.message}"
  | .rowKey fault => s!"row key: {argumentHeading}{fault.message}"
  | .foreignPayload row payload => s!"row {row.display} holds a payload for {payload.display}"
  | .stated text => text

/-- Why the log or the engine cannot be used. -/
inductive StorageFault where
  /-- A file action failed. -/
  | device
  /-- An earlier write ended in the middle of its check. -/
  | poisoned
  | stated (text : String)

def StorageFault.message : StorageFault → String
  | .device => "input/output error"
  | .poisoned => "engine lock poisoned"
  | .stated text => text

/-- Why decoding stopped early. -/
inductive Interruption where
  | outstanding (tasks : Nat)
  /-- A decode task ended without an outcome. -/
  | aborted
  | stated (text : String)

def Interruption.message : Interruption → String
  | .outstanding tasks => s!"interrupted while decoding ({tasks} tasks outstanding)"
  | .aborted => "decode task panicked"
  | .stated text => text

/-- Why a log cannot be replayed. -/
inductive RecoveryFault where
  | recordChecksum
  | unknownOperation (byte : UInt8)
  | stated (text : String)

def RecoveryFault.message : RecoveryFault → String
  | .recordChecksum => "WAL record checksum mismatch"
  | .unknownOperation byte => s!"unknown WAL op type {byte.toNat}"
  | .stated text => text

/-- Why settings are refused. -/
inductive SettingsFault where
  | noWorkers
  | noCheckpointBytes
  | stated (text : String)

def SettingsFault.message : SettingsFault → String
  | .noWorkers => "decode_workers must be at least 1"
  | .noCheckpointBytes => "wal_checkpoint_bytes must be non-zero"
  | .stated text => text

inductive Error where
  | invalidArgument (fault : ArgumentFault)
  | corruptRecord (fault : Corruption)
  | storageUnavailable (fault : StorageFault)
  | interrupted (fault : Interruption)
  | recoveryFailed (fault : RecoveryFault)
  | configuration (fault : SettingsFault)

namespace Error

def message : Error → String
  | .invalidArgument fault => argumentHeading ++ fault.message
  | .corruptRecord fault => "Corrupt record: " ++ fault.message
  | .storageUnavailable fault => "Storage unavailable: " ++ fault.message
  | .interrupted fault => "Interrupted: " ++ fault.message
  | .recoveryFailed fault => "WAL recovery failed: " ++ fault.message
  | .configuration fault => "Configuration error: " ++ fault.message

def isCorruption : Error → Bool
  | .corruptRecord _ => true
  | _ => false

/-- A path that breaks a precondition of the caller. -/
def ofPath (fault : PathFault) : Error := .invalidArgument (.path fault)

/-- A read time that breaks a precondition of the caller. -/
def ofReadTime (fault : ReadTimeFault) : Error := .invalidArgument (.readTime fault)

end Error

end DocumentCache
