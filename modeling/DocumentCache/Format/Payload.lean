import DocumentCache.Checksum
import DocumentCache.Format.StoredValue

/-!
# Document payloads

A payload is a mark byte, a format byte, the stored document and the checksum of
all bytes before it.  The time at which the document was read is no part of it:
that stands in the row, and reading a payload attaches it.

A codec is a pair of an encoder and a decoder.  The cache works with any codec;
the one of this module is what it uses unless told otherwise.
-/

namespace DocumentCache

structure Codec where
  /-- The payload of a known document; its read time does not matter. -/
  encode : Document → Except Error Bytes
  /-- The document in a payload, without a read time. -/
  decode : Bytes → Except Error Document

namespace Codec

/-- Encode a document that the cache knows something about. -/
def encodeKnown (codec : Codec) (document : Document) : Except Error Bytes :=
  if document.isKnown then codec.encode document
  else .error (.invalidArgument (.unknownDocument document.key))

/-- Decode a payload and attach the time it was read. -/
def decodeAt (codec : Codec) (payload : Bytes) (readTime : ReadTime) :
    Except Error Document :=
  match codec.decode payload with
  | .error error => .error error
  | .ok document =>
      if document.isKnown then .ok (document.withReadTime readTime)
      else .error (.corruptRecord (.unknownPayload document.key))

end Codec

namespace Payload

def mark : UInt8 := 0xD7

def format : UInt8 := 1

/-! ## The stored document -/

/-- A document as it is stored: neither its key nor its version is checked yet. -/
inductive Body where
  | found (path : Path) (seconds : Int64) (nanos : Int32) (data : Fields)
  | deleted (path : Path) (seconds : Int64) (nanos : Int32)

def foundBody (key : DocumentKey) (version : ReadTime) (data : Fields) : Bytes :=
  Wire.tag 0 ++ Wire.path key.path ++ Wire.readTime version ++ Wire.fields data

def deletedBody (key : DocumentKey) (version : ReadTime) : Bytes :=
  Wire.tag 1 ++ Wire.path key.path ++ Wire.readTime version

def readPath : Reader Path := do
  return ⟨← Reader.sequence Reader.text⟩

def readBody : Reader Body := do
  match ← Reader.choice 2 with
  | 0 =>
      let path ← readPath
      let seconds ← Reader.int64
      let nanos ← Reader.int32
      return .found path seconds nanos (← Reader.fields)
  | _ =>
      let path ← readPath
      let seconds ← Reader.int64
      let nanos ← Reader.int32
      return .deleted path seconds nanos

/-- The key that a stored path names. -/
def restoreKey (path : Path) : Except Corruption DocumentKey :=
  match Path.ofSegments path.segments with
  | .error _ => .error .payloadEmptySegment
  | .ok path => (DocumentKey.ofPath path).mapError .payloadPath

def restoreVersion (seconds : Int64) (nanos : Int32) : Except Corruption ReadTime :=
  (ReadTime.ofParts seconds nanos).mapError .payloadVersion

def Body.restore : Body → Except Corruption Document
  | .found path seconds nanos data => do
      let key ← restoreKey path
      let version ← restoreVersion seconds nanos
      return .found key version data .never
  | .deleted path seconds nanos => do
      let key ← restoreKey path
      let version ← restoreVersion seconds nanos
      return .deleted key version .never

/-! ## The frame around it -/

/-- A body between its mark and format bytes and its checksum. -/
def frame (body : Bytes) : Bytes :=
  let framed := mark :: format :: body
  framed ++ Checksum.trailer framed

/-- The body of a payload with the right mark, format and checksum. -/
def unframe (payload : Bytes) : Except Corruption Bytes :=
  let framed := payload.take (payload.length - 4)
  let stored := payload.drop (payload.length - 4)
  match framed with
  | first :: second :: body =>
      if first ≠ mark then .error (.badMagic first)
      else if second ≠ format then .error (.unknownFormat second)
      else if Checksum.trailer framed ≠ stored then .error .payloadChecksum
      else .ok body
  | _ => .error (.shortPayload payload.length)

def encode : Document → Except Error Bytes
  | .found key version data _ => .ok (frame (foundBody key version data))
  | .deleted key version _ => .ok (frame (deletedBody key version))
  | .unknown key => .error (.invalidArgument (.unknownDocument key))

/-- The document in a payload; bytes behind it, before the checksum, do not
count. -/
def decode (payload : Bytes) : Except Corruption Document := do
  let body ← unframe payload
  let (stored, _) ← (readBody body).mapError Corruption.wire
  stored.restore

/-- The codec with this module's payloads. -/
def codec : Codec where
  encode := encode
  decode payload := (decode payload).mapError .corruptRecord

end Payload

end DocumentCache
