import DocumentCache.Checksum
import DocumentCache.Journal.Table
import DocumentCache.Model.Fault

/-!
# Log records

The log is a run of records, one for each change of the table.  A record is the
kind of the change, the key and the value, each behind its length in four bytes,
and the checksum of all that.  A deletion has the empty value.

Bytes that end inside a record are a torn record; a record that is all there but
fails its checksum, or is of no known kind, is corrupt.  The checksum is tested
before the kind.
-/

namespace DocumentCache

inductive Operation where
  | put (key value : Bytes)
  | delete (key : Bytes)
  deriving DecidableEq

namespace Operation

def kind : Operation → UInt8
  | .put _ _ => 1
  | .delete _ => 2

def key : Operation → Bytes
  | .put key _ => key
  | .delete key => key

def value : Operation → Bytes
  | .put _ value => value
  | .delete _ => []

def apply (operation : Operation) (table : Table) : Table :=
  match operation with
  | .put key value => table.insert key value
  | .delete key => table.erase key

/-- Everything that the checksum of a record covers. -/
def content (operation : Operation) : Bytes :=
  operation.kind ::
    (littleEndian 4 operation.key.length ++ operation.key ++
      littleEndian 4 operation.value.length ++ operation.value)

def encode (operation : Operation) : Bytes :=
  operation.content ++ Checksum.trailer operation.content

/-- The change of a known kind. -/
def ofKind (kind : UInt8) (key value : Bytes) : Except RecoveryFault Operation :=
  if kind = 1 then .ok (.put key value)
  else if kind = 2 then .ok (.delete key)
  else .error (.unknownOperation kind)

/-- The bytes of a number that gives the length of what follows, and that. -/
def splitCounted (bytes : Bytes) : Option (Bytes × Bytes × Bytes) := do
  let (count, rest) ← splitExactly 4 bytes
  let (counted, rest) ← splitExactly (littleEndianValue count) rest
  return (count, counted, rest)

/-- The parts of the record at the front of some bytes, and the bytes behind it. -/
structure Frame where
  kind : UInt8
  key : Bytes
  value : Bytes
  content : Bytes
  checksum : Bytes
  rest : Bytes

/-- Take a record apart; nothing when the bytes end inside it. -/
def Frame.split? : Bytes → Option Frame
  | [] => none
  | kind :: bytes => do
      let (keyLength, key, afterKey) ← splitCounted bytes
      let (valueLength, value, afterValue) ← splitCounted afterKey
      let (checksum, rest) ← splitExactly 4 afterValue
      return {
        kind, key, value, checksum, rest
        content := kind :: (keyLength ++ key ++ valueLength ++ value) }

/-- The change recorded at the front of some bytes and the bytes behind the record;
nothing when the bytes end inside it. -/
def read? (bytes : Bytes) : Except RecoveryFault (Option (Operation × Bytes)) :=
  match Frame.split? bytes with
  | none => .ok none
  | some frame =>
      if Checksum.trailer frame.content = frame.checksum then
        match ofKind frame.kind frame.key frame.value with
        | .error fault => .error fault
        | .ok operation => .ok (some (operation, frame.rest))
      else .error .recordChecksum

theorem splitCounted_length {bytes count counted rest : Bytes}
    (h : splitCounted bytes = some (count, counted, rest)) :
    count.length + counted.length + rest.length = bytes.length := by
  simp only [splitCounted, bind, Option.bind_eq_some_iff, pure, Option.some.injEq,
    Prod.mk.injEq, Prod.exists] at h
  obtain ⟨count', middle, hcount, counted', rest', hcounted, rfl, rfl, rfl⟩ := h
  obtain ⟨rfl, -⟩ := splitExactly_eq_some_iff.mp hcount
  obtain ⟨rfl, -⟩ := splitExactly_eq_some_iff.mp hcounted
  simp only [List.length_append]
  omega

theorem Frame.split?_length {bytes : Bytes} {frame : Frame}
    (h : Frame.split? bytes = some frame) :
    frame.content.length + frame.checksum.length + frame.rest.length = bytes.length := by
  cases bytes with
  | nil => cases h
  | cons kind bytes =>
      simp only [Frame.split?, bind, Option.bind_eq_some_iff, pure, Option.some.injEq,
        Prod.exists] at h
      obtain ⟨keyLength, key, afterKey, hkey, valueLength, value, afterValue, hvalue,
        checksum, rest, hrest, rfl⟩ := h
      have hkeyLength := splitCounted_length hkey
      have hvalueLength := splitCounted_length hvalue
      obtain ⟨rfl, hchecksum⟩ := splitExactly_eq_some_iff.mp hrest
      simp only [List.length_append, List.length_cons] at *
      omega

theorem read?_rest_lt {bytes rest : Bytes} {operation : Operation}
    (h : read? bytes = .ok (some (operation, rest))) : rest.length < bytes.length := by
  unfold read? at h
  split at h
  · simp at h
  · next frame hframe =>
      have hlength := Frame.split?_length hframe
      have hcontent : 0 < frame.content.length := by
        cases bytes with
        | nil => cases hframe
        | cons kind bytes =>
            simp only [Frame.split?, bind, Option.bind_eq_some_iff, pure, Option.some.injEq,
              Prod.exists] at hframe
            obtain ⟨_, _, _, _, _, _, _, _, _, _, _, rfl⟩ := hframe
            simp
      split at h
      · split at h
        · cases h
        · obtain ⟨rfl, rfl⟩ := Prod.mk.inj (Option.some.inj (Except.ok.inj h))
          omega
      · cases h

end Operation

end DocumentCache
