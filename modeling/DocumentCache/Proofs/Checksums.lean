import DocumentCache.Checksum

/-!
# Checksums of changed bytes

Shifting a bit out of the register loses nothing: the polynomial has its top bit set,
so the bit that was shifted out stands at the top afterwards.  Hence a byte changes
registers that differ into registers that differ.  Shifting is linear as well, so up to
four bytes are taken in as one word is, and a register takes in different words of one
length differently.  Bytes that are changed within four in a row therefore always change
the checksum.

The checksum behind its bytes leaves the same register, whatever the bytes are, since the
register takes in its own inverse.  So a change within four bytes in a row is found
wherever it falls, in the bytes, in their checksum or across the two.
-/

namespace DocumentCache.Checksum

/-! ## The register -/

/-- The register after a bit is shifted out, as bits. -/
theorem toBitVec_shiftBit (register : UInt32) :
    (shiftBit register).toBitVec =
      if register.toBitVec.getLsbD 0 then register.toBitVec >>> 1 ^^^ polynomial.toBitVec
      else register.toBitVec >>> 1 := by
  have hlow : register &&& 1 = 1 ↔ register.toBitVec.getLsbD 0 = true := by
    have hone : (1 : UInt32).toBitVec = 1#32 := rfl
    rw [← UInt32.toBitVec_inj, UInt32.toBitVec_and, hone,
      BitVec.and_one_eq_setWidth_ofBool_getLsbD]
    cases register.toBitVec.getLsbD 0 <;> decide
  unfold shiftBit
  by_cases hbit : register &&& 1 = 1
  · rw [if_pos hbit, if_pos (hlow.mp hbit)]
    simp
  · rw [if_neg hbit, if_neg (mt hlow.mpr hbit)]
    simp

/-- The bit that is shifted out is the top bit afterwards. -/
theorem getLsbD_shiftBit_top (register : UInt32) :
    (shiftBit register).toBitVec.getLsbD 31 = register.toBitVec.getLsbD 0 := by
  have hshifted : (register.toBitVec >>> 1).getLsbD 31 = false := by
    rw [BitVec.getLsbD_ushiftRight]
    exact BitVec.getLsbD_of_ge _ _ (Nat.le_refl 32)
  rw [toBitVec_shiftBit]
  cases register.toBitVec.getLsbD 0 with
  | false => exact hshifted
  | true =>
      rw [if_pos rfl, BitVec.getLsbD_xor, hshifted]
      decide

theorem shiftBit_injective {left right : UInt32} (h : shiftBit left = shiftBit right) :
    left = right := by
  have hlow : left.toBitVec.getLsbD 0 = right.toBitVec.getLsbD 0 := by
    rw [← getLsbD_shiftBit_top, h, getLsbD_shiftBit_top]
  have hhigh : left.toBitVec >>> 1 = right.toBitVec >>> 1 := by
    have hbits := congrArg UInt32.toBitVec h
    rw [toBitVec_shiftBit, toBitVec_shiftBit, hlow] at hbits
    split at hbits
    · exact (BitVec.xor_left_inj _).mp hbits
    · exact hbits
  rw [← UInt32.toBitVec_inj]
  apply BitVec.eq_of_getLsbD_eq
  intro index _
  cases index with
  | zero => exact hlow
  | succ index =>
      have hbit := congrArg (fun bits => bits.getLsbD index) hhigh
      simp only [BitVec.getLsbD_ushiftRight] at hbit
      rwa [Nat.add_comm] at hbit

theorem shiftBits_injective (count : Nat) {left right : UInt32}
    (h : shiftBits count left = shiftBits count right) : left = right := by
  induction count generalizing left right with
  | zero => exact h
  | succ count ih => exact shiftBit_injective (ih h)

theorem shiftBit_xor (left right : UInt32) :
    shiftBit (left ^^^ right) = shiftBit left ^^^ shiftBit right := by
  rw [← UInt32.toBitVec_inj, UInt32.toBitVec_xor]
  simp only [toBitVec_shiftBit, UInt32.toBitVec_xor, BitVec.getLsbD_xor,
    BitVec.ushiftRight_xor_distrib]
  cases left.toBitVec.getLsbD 0 <;> cases right.toBitVec.getLsbD 0 <;>
    simp only [Bool.xor_false, Bool.false_xor, Bool.xor_self, Bool.false_eq_true, if_false, if_true]
  · ac_rfl
  · ac_rfl
  · -- The polynomial comes in twice and cancels out.
    have hcancel : polynomial.toBitVec ^^^ polynomial.toBitVec = 0#32 := BitVec.xor_self
    calc left.toBitVec >>> 1 ^^^ right.toBitVec >>> 1
        = left.toBitVec >>> 1 ^^^ right.toBitVec >>> 1 ^^^
            (polynomial.toBitVec ^^^ polynomial.toBitVec) := by rw [hcancel, BitVec.xor_zero]
      _ = _ := by ac_rfl

theorem shiftBits_xor (count : Nat) (left right : UInt32) :
    shiftBits count (left ^^^ right) = shiftBits count left ^^^ shiftBits count right := by
  induction count generalizing left right with
  | zero => rfl
  | succ count ih => rw [shiftBits, shiftBit_xor, ih, shiftBits, shiftBits]

theorem shiftBits_add (first second : Nat) (register : UInt32) :
    shiftBits (first + second) register = shiftBits second (shiftBits first register) := by
  induction first generalizing register with
  | zero => rw [Nat.zero_add, shiftBits]
  | succ first ih => rw [Nat.succ_add, shiftBits, ih, shiftBits]

/-- An even register is halved. -/
theorem shiftBit_double {n : Nat} (h : 2 * n < wordRange 4) :
    shiftBit (UInt32.ofNat (2 * n)) = UInt32.ofNat n := by
  have hdouble : (UInt32.ofNat (2 * n)).toNat = 2 * n := UInt32.toNat_ofNat_of_lt' h
  have hhalf : (UInt32.ofNat n).toNat = n :=
    UInt32.toNat_ofNat_of_lt' (Nat.lt_of_le_of_lt (by omega) h)
  have heven : ¬ UInt32.ofNat (2 * n) &&& 1 = 1 := by
    rw [← UInt32.toNat_inj, UInt32.toNat_and, hdouble]
    simp
  rw [shiftBit, if_neg heven, ← UInt32.toNat_inj, UInt32.toNat_shiftRight, hdouble, hhalf]
  simp [Nat.shiftRight_eq_div_pow]

/-- Zeros at the bottom of the register are shifted out and nothing else happens. -/
theorem shiftBits_shiftLeft (count : Nat) {n : Nat} (h : n <<< count < wordRange 4) :
    shiftBits count (UInt32.ofNat (n <<< count)) = UInt32.ofNat n := by
  induction count with
  | zero => rw [shiftBits, Nat.shiftLeft_zero]
  | succ count ih =>
      rw [Nat.shiftLeft_succ] at h ⊢
      rw [shiftBits, shiftBit_double h, ih (by omega)]

/-- A byte keeps registers apart that differ. -/
theorem feed_injective_register {left right : UInt32} (byte : UInt8)
    (h : feed left byte = feed right byte) : left = right :=
  (UInt32.xor_left_inj _).mp (shiftBits_injective 8 h)

theorem foldl_feed_injective (bytes : Bytes) {left right : UInt32}
    (h : bytes.foldl feed left = bytes.foldl feed right) : left = right := by
  induction bytes generalizing left right with
  | nil => exact h
  | cons byte rest ih => exact feed_injective_register byte (ih h)

/-! ## Words -/

/-- The register in which these bytes stand, if they are four at most. -/
def word (bytes : Bytes) : UInt32 := UInt32.ofNat (littleEndianValue bytes)

theorem toNat_word {bytes : Bytes} (h : bytes.length ≤ 4) :
    (word bytes).toNat = littleEndianValue bytes :=
  UInt32.toNat_ofNat_of_lt' (Nat.lt_of_lt_of_le (littleEndianValue_lt bytes) (wordRange_mono h))

theorem word_injective {left right : Bytes} (hlength : left.length = right.length)
    (hshort : left.length ≤ 4) (h : word left = word right) : left = right := by
  have hvalue := congrArg UInt32.toNat h
  rw [toNat_word hshort, toNat_word (hlength ▸ hshort)] at hvalue
  rw [← littleEndian_littleEndianValue left, ← littleEndian_littleEndianValue right, hlength,
    hvalue]

/-- A byte and what stands above it have no bit in common. -/
theorem add_eq_xor_of_lt {low : Nat} (h : low < 256) (high : Nat) :
    low + 256 * high = low ^^^ high <<< 8 := by
  apply Nat.eq_of_testBit_eq
  intro index
  have hbyte : low < 2 ^ 8 := h
  have hsum : (256 * high + low).testBit index =
      if index < 8 then low.testBit index else high.testBit (index - 8) :=
    Nat.testBit_two_pow_mul_add high hbyte index
  rw [Nat.add_comm, hsum, Nat.testBit_xor, Nat.testBit_shiftLeft]
  split
  · next hlow => simp [Nat.not_le.mpr hlow]
  · next hhigh =>
      have hpow : 256 ≤ 2 ^ index :=
        Nat.pow_le_pow_right Nat.zero_lt_two (Nat.not_lt.mp hhigh)
      rw [Nat.testBit_lt_two_pow (Nat.lt_of_lt_of_le h hpow)]
      simp [Nat.not_lt.mp hhigh]

/-- Above a byte there is room for three more. -/
theorem shiftLeft_littleEndianValue_lt {bytes : Bytes} (h : bytes.length ≤ 3) :
    littleEndianValue bytes <<< 8 < wordRange 4 := by
  have hvalue := Nat.lt_of_lt_of_le (littleEndianValue_lt bytes) (wordRange_mono h)
  rw [Nat.shiftLeft_eq, Nat.mul_comm]
  exact Nat.mul_lt_mul_of_pos_left hvalue (by decide)

theorem word_cons {byte : UInt8} {rest : Bytes} (h : rest.length ≤ 3) :
    word (byte :: rest) = byte.toUInt32 ^^^ UInt32.ofNat (littleEndianValue rest <<< 8) := by
  have hshort : (byte :: rest).length ≤ 4 := Nat.succ_le_succ h
  rw [← UInt32.toNat_inj, toNat_word hshort, UInt32.toNat_xor, UInt8.toNat_toUInt32,
    UInt32.toNat_ofNat_of_lt' (shiftLeft_littleEndianValue_lt h)]
  exact add_eq_xor_of_lt byte.toNat_lt _

/-- Up to four bytes are taken in as one word. -/
theorem foldl_feed_eq {bytes : Bytes} (h : bytes.length ≤ 4) (register : UInt32) :
    bytes.foldl feed register = shiftBits (8 * bytes.length) (register ^^^ word bytes) := by
  induction bytes generalizing register with
  | nil => exact UInt32.xor_zero.symm
  | cons byte rest ih =>
      have hrest : rest.length ≤ 3 := Nat.le_of_succ_le_succ h
      have habove : shiftBits 8 (UInt32.ofNat (littleEndianValue rest <<< 8)) = word rest :=
        shiftBits_shiftLeft 8 (shiftLeft_littleEndianValue_lt hrest)
      calc (byte :: rest).foldl feed register
          = shiftBits (8 * rest.length) (feed register byte ^^^ word rest) :=
            ih (by omega) (feed register byte)
        _ = shiftBits (8 * rest.length) (shiftBits 8 (register ^^^ word (byte :: rest))) := by
            rw [feed, ← habove, ← shiftBits_xor, word_cons hrest, UInt32.xor_assoc]
        _ = shiftBits (8 * (byte :: rest).length) (register ^^^ word (byte :: rest)) := by
            rw [← shiftBits_add, List.length_cons, Nat.mul_succ, Nat.add_comm]

/-- A register takes in different bytes differently, if they are four at most. -/
theorem foldl_feed_injective_bytes {left right : Bytes} (hlength : left.length = right.length)
    (hshort : left.length ≤ 4) {register : UInt32}
    (h : left.foldl feed register = right.foldl feed register) : left = right := by
  rw [foldl_feed_eq hshort, foldl_feed_eq (hlength ▸ hshort), hlength] at h
  exact word_injective hlength hshort
    ((UInt32.xor_right_inj _).mp (shiftBits_injective _ h))

/-! ## Byte strings -/

/-- Two byte strings of one length that differ, within four bytes in a row. -/
structure Burst (original damaged : Bytes) : Prop where
  length : damaged.length = original.length
  changed : damaged ≠ original
  within : ∃ start, ∀ index, index < start ∨ start + 4 ≤ index →
    damaged[index]? = original[index]?

/-- A burst changes up to four bytes and leaves those in front of them and behind them. -/
theorem burst_iff {original damaged : Bytes} :
    Burst original damaged ↔
      ∃ front left right back, original = front ++ (left ++ back) ∧
        damaged = front ++ (right ++ back) ∧ left.length = right.length ∧ left.length ≤ 4 ∧
        left ≠ right := by
  constructor
  · rintro ⟨hlength, hchanged, start, hwithin⟩
    have hsplit (bytes : Bytes) :
        bytes = bytes.take start ++ ((bytes.drop start).take 4 ++ bytes.drop (start + 4)) := by
      rw [← List.drop_drop, List.take_append_drop, List.take_append_drop]
    have hfront : damaged.take start = original.take start := by
      apply List.ext_getElem?
      intro index
      rw [List.getElem?_take, List.getElem?_take]
      split
      · next hlt => exact hwithin index (.inl hlt)
      · rfl
    have hback : damaged.drop (start + 4) = original.drop (start + 4) := by
      apply List.ext_getElem?
      intro index
      rw [List.getElem?_drop, List.getElem?_drop]
      exact hwithin _ (.inr (Nat.le_add_right ..))
    have hdamaged := hsplit damaged
    rw [hfront, hback] at hdamaged
    refine ⟨_, _, _, _, hsplit original, hdamaged, ?_, List.length_take_le .., fun hsame => ?_⟩
    · rw [List.length_take, List.length_take, List.length_drop, List.length_drop, hlength]
    · rw [← hsame, ← hsplit original] at hdamaged
      exact hchanged hdamaged
  · rintro ⟨front, left, right, back, rfl, rfl, hlength, hshort, hne⟩
    refine ⟨by simp only [List.length_append, hlength], fun hsame => hne ?_, front.length, ?_⟩
    · exact (List.append_inj_left (List.append_cancel_left hsame) hlength.symm).symm
    · rintro index (hlt | hge)
      · rw [List.getElem?_append_left hlt, List.getElem?_append_left hlt]
      · rw [List.getElem?_append_right (by omega), List.getElem?_append_right (by omega),
          List.getElem?_append_right (by omega), List.getElem?_append_right (by omega), hlength]

/-- A burst changes the register after all bytes. -/
theorem Burst.foldl_feed_ne {original damaged : Bytes} (h : Burst original damaged)
    (register : UInt32) : damaged.foldl feed register ≠ original.foldl feed register := by
  obtain ⟨front, left, right, back, rfl, rfl, hlength, hshort, hne⟩ := burst_iff.mp h
  intro hsame
  simp only [List.foldl_append] at hsame
  exact hne (foldl_feed_injective_bytes hlength hshort (foldl_feed_injective back hsame).symm)

/-- The stored checksum determines the checksum. -/
theorem crc32_eq_of_trailer_eq {left right : Bytes} (h : trailer left = trailer right) :
    crc32 left = crc32 right := by
  have hrange (bytes : Bytes) : (crc32 bytes).toNat < wordRange 4 := (crc32 bytes).toNat_lt
  have hvalue := congrArg littleEndianValue h
  rw [trailer, trailer, littleEndianValue_littleEndian, littleEndianValue_littleEndian,
    Nat.mod_eq_of_lt (hrange left), Nat.mod_eq_of_lt (hrange right)] at hvalue
  exact UInt32.toNat_inj.mp hvalue

/-- Changing one byte changes the stored checksum. -/
theorem trailer_set_ne {bytes : Bytes} {offset : Nat} {byte : UInt8}
    (hchanged : bytes.set offset byte ≠ bytes) :
    trailer (bytes.set offset byte) ≠ trailer bytes := by
  have hburst : Burst bytes (bytes.set offset byte) := by
    refine ⟨List.length_set, hchanged, offset, fun index hother => ?_⟩
    exact List.getElem?_set_ne (by omega)
  intro h
  exact hburst.foldl_feed_ne _ ((UInt32.xor_left_inj _).mp (crc32_eq_of_trailer_eq h))

/-! ## Bytes with their checksum behind them -/

/-- These bytes end in the checksum of all before it. -/
def Checked (bytes : Bytes) : Prop := ∃ content, bytes = content ++ trailer content

theorem word_trailer (bytes : Bytes) : word (trailer bytes) = crc32 bytes := by
  have hrange : (crc32 bytes).toNat < wordRange 4 := (crc32 bytes).toNat_lt
  rw [word, trailer, littleEndianValue_littleEndian, Nat.mod_eq_of_lt hrange, UInt32.ofNat_toNat]

/-- The register after bytes and their checksum is always the same. -/
theorem Checked.foldl_feed {bytes : Bytes} (h : Checked bytes) :
    bytes.foldl feed 0xFFFFFFFF = shiftBits 32 0xFFFFFFFF := by
  obtain ⟨content, rfl⟩ := h
  have hshort : (trailer content).length ≤ 4 := Nat.le_of_eq (trailer_length content)
  rw [List.foldl_append, foldl_feed_eq hshort, word_trailer, trailer_length, crc32,
    ← UInt32.xor_assoc, UInt32.xor_self, UInt32.zero_xor]

/-- A burst in bytes with their checksum leaves no bytes with their checksum. -/
theorem Checked.not_of_burst {original damaged : Bytes} (h : Checked original)
    (hburst : Burst original damaged) : ¬ Checked damaged := fun hdamaged =>
  hburst.foldl_feed_ne _ (hdamaged.foldl_feed.trans h.foldl_feed.symm)

end DocumentCache.Checksum
