/-!
# Byte strings and little-endian words

Keys, rows, payloads and the log are lists of bytes.  A number is written as a
fixed count of bytes, least significant byte first; writing keeps the residue
modulo the range of that count, and reading gives that residue back.
-/

namespace DocumentCache

abbrev Bytes := List UInt8

/-- The `width` low bytes of `n`, least significant first. -/
def littleEndian : Nat → Nat → Bytes
  | 0, _ => []
  | width + 1, n => UInt8.ofNat (n % 256) :: littleEndian width (n / 256)

/-- The number that a run of bytes stands for, least significant byte first. -/
def littleEndianValue : Bytes → Nat
  | [] => 0
  | byte :: rest => byte.toNat + 256 * littleEndianValue rest

/-- How many numbers `width` bytes can tell apart. -/
def wordRange : Nat → Nat
  | 0 => 1
  | width + 1 => 256 * wordRange width

@[simp]
theorem littleEndian_length (width n : Nat) :
    (littleEndian width n).length = width := by
  induction width generalizing n with
  | zero => rfl
  | succ width ih => simp [littleEndian, ih]

theorem littleEndianValue_littleEndian (width n : Nat) :
    littleEndianValue (littleEndian width n) = n % wordRange width := by
  induction width generalizing n with
  | zero => simp [littleEndian, littleEndianValue, wordRange, Nat.mod_one]
  | succ width ih =>
      have hbyte : (UInt8.ofNat (n % 256)).toNat = n % 256 := by
        simp
      rw [littleEndian, littleEndianValue, ih, hbyte, wordRange, Nat.mod_mul]

theorem littleEndianValue_lt (bytes : Bytes) :
    littleEndianValue bytes < wordRange bytes.length := by
  induction bytes with
  | nil => simp [littleEndianValue, wordRange]
  | cons byte rest ih =>
      have hbyte := byte.toNat_lt
      rw [littleEndianValue, List.length_cons, wordRange]
      omega

theorem wordRange_mono {narrow wide : Nat} (h : narrow ≤ wide) :
    wordRange narrow ≤ wordRange wide := by
  induction h with
  | refl => exact Nat.le_refl _
  | step _ ih =>
      rw [wordRange]
      omega

theorem littleEndian_littleEndianValue (bytes : Bytes) :
    littleEndian bytes.length (littleEndianValue bytes) = bytes := by
  induction bytes with
  | nil => rfl
  | cons byte rest ih =>
      have hbyte := byte.toNat_lt
      have hlow : (littleEndianValue (byte :: rest)) % 256 = byte.toNat := by
        rw [littleEndianValue]; omega
      have hhigh : (littleEndianValue (byte :: rest)) / 256 = littleEndianValue rest := by
        rw [littleEndianValue]; omega
      rw [List.length_cons, littleEndian, hlow, hhigh, ih, UInt8.ofNat_toNat]

/-- A byte in two hexadecimal digits. -/
def hexByte (byte : UInt8) : String :=
  String.ofList [Nat.digitChar (byte.toNat / 16), Nat.digitChar (byte.toNat % 16)]

/-- The first `count` bytes and what follows them, if there are that many. -/
def splitExactly (count : Nat) (bytes : Bytes) : Option (Bytes × Bytes) :=
  if count ≤ bytes.length then some (bytes.take count, bytes.drop count) else none

theorem splitExactly_eq_some_iff {count : Nat} {bytes front rest : Bytes} :
    splitExactly count bytes = some (front, rest) ↔
      bytes = front ++ rest ∧ front.length = count := by
  unfold splitExactly
  constructor
  · intro h
    split at h
    · next hle =>
        obtain ⟨rfl, rfl⟩ := Prod.mk.inj (Option.some.inj h)
        exact ⟨(List.take_append_drop count bytes).symm, List.length_take_of_le hle⟩
    · contradiction
  · rintro ⟨rfl, rfl⟩
    simp

end DocumentCache
