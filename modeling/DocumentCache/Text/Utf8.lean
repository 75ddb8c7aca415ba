import DocumentCache.Bytes

/-!
# UTF-8

Text is stored as its UTF-8 bytes and ordered by them.  Reading bytes back gives
text exactly for the byte strings that some text is written as; any other byte
string has a first fault, described by where it starts and, unless the bytes just
end too early, by how many bytes cannot begin or continue a character.
-/

namespace DocumentCache.Utf8

/-- The UTF-8 bytes of a text. -/
def encode (text : String) : Bytes :=
  text.toByteArray.data.toList

/-- The text with these UTF-8 bytes, if there is one. -/
def decode? (bytes : Bytes) : Option String :=
  String.fromUTF8? ⟨bytes.toArray⟩

@[simp]
theorem decode?_encode (text : String) : decode? (encode text) = some text := by
  simp [decode?, encode, String.fromUTF8?, text.isValidUTF8]
  rfl

theorem encode_of_decode? {bytes : Bytes} {text : String}
    (h : decode? bytes = some text) : encode text = bytes := by
  unfold decode? String.fromUTF8? at h
  split at h
  · obtain rfl := Option.some.inj h
    simp [encode, String.fromUTF8]
  · contradiction

theorem encode_injective {left right : String}
    (h : encode left = encode right) : left = right := by
  have hread := congrArg decode? h
  simpa using hread

@[simp]
theorem encode_empty : encode "" = [] := rfl

theorem encode_append (left right : String) :
    encode (left ++ right) = encode left ++ encode right := by
  simp [encode]

/-- Why a byte string is no text. -/
inductive Fault where
  /-- `length` bytes from `index` on belong to no character. -/
  | invalid (length index : Nat)
  /-- The bytes end inside the character that starts at `index`. -/
  | incomplete (index : Nat)
  deriving DecidableEq, Repr

def Fault.message : Fault → String
  | .invalid length index =>
      s!"invalid utf-8 sequence of {length} bytes from index {index}"
  | .incomplete index => s!"incomplete utf-8 byte sequence from index {index}"

/-- A byte that continues a character. -/
def isContinuation (byte : UInt8) : Bool :=
  0x80 ≤ byte && byte ≤ 0xBF

/-- The second bytes that may follow a given first byte: this excludes overlong
forms, surrogates and code points past the last one. -/
def isSecond (first second : UInt8) : Bool :=
  if first = 0xE0 then 0xA0 ≤ second && second ≤ 0xBF
  else if first = 0xED then 0x80 ≤ second && second ≤ 0x9F
  else if first = 0xF0 then 0x90 ≤ second && second ≤ 0xBF
  else if first = 0xF4 then 0x80 ≤ second && second ≤ 0x8F
  else isContinuation second

/-- The number of bytes of the characters that start with this byte; zero when
none does. -/
def width (first : UInt8) : Nat :=
  if first < 0x80 then 1
  else if 0xC2 ≤ first && first ≤ 0xDF then 2
  else if 0xE0 ≤ first && first ≤ 0xEF then 3
  else if 0xF0 ≤ first && first ≤ 0xF4 then 4
  else 0

/-- The first fault of a byte string whose first byte stands at `index`. -/
def faultFrom (index : Nat) : Bytes → Option Fault
  | [] => none
  | first :: rest =>
      match width first with
      | 0 => some (.invalid 1 index)
      | 1 => faultFrom (index + 1) rest
      | 2 =>
          match rest with
          | [] => some (.incomplete index)
          | second :: tail =>
              if isSecond first second then faultFrom (index + 2) tail
              else some (.invalid 1 index)
      | 3 =>
          match rest with
          | [] => some (.incomplete index)
          | second :: tail =>
              if isSecond first second then
                match tail with
                | [] => some (.incomplete index)
                | third :: tail =>
                    if isContinuation third then faultFrom (index + 3) tail
                    else some (.invalid 2 index)
              else some (.invalid 1 index)
      | _ =>
          match rest with
          | [] => some (.incomplete index)
          | second :: tail =>
              if isSecond first second then
                match tail with
                | [] => some (.incomplete index)
                | third :: tail =>
                    if isContinuation third then
                      match tail with
                      | [] => some (.incomplete index)
                      | fourth :: tail =>
                          if isContinuation fourth then faultFrom (index + 4) tail
                          else some (.invalid 3 index)
                    else some (.invalid 2 index)
              else some (.invalid 1 index)

/-- The first fault of a byte string that is no text. -/
def fault (bytes : Bytes) : Fault :=
  (faultFrom 0 bytes).getD (.incomplete bytes.length)

end DocumentCache.Utf8
