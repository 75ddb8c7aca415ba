import DocumentCache.Format.Reader
import DocumentCache.Proofs.Journal.WholeRecords

/-!
# Reading back what was written

A reader reads a value off some bytes when it takes exactly these bytes off the
front of everything that begins with them.  Readers put one behind the other read
what stands one behind the other.  Every number, text and byte string that fits its
width, and every sequence of things that can be read, is read off its stored form.
-/

namespace DocumentCache.Reader

variable {α β : Type}

/-- The reader takes these bytes off the front, whatever follows, for this value. -/
def Reads (reader : Reader α) (bytes : Bytes) (value : α) : Prop :=
  ∀ rest, reader (bytes ++ rest) = .ok (value, rest)

/-! ## Composition -/

theorem reads_pure (value : α) : Reads (pure value) [] value := fun _ => rfl

theorem Reads.bind {reader : Reader α} {next : α → Reader β} {front back : Bytes} {value : α}
    {result : β} (h : Reads reader front value) (hnext : Reads (next value) back result) :
    Reads (reader >>= next) (front ++ back) result := by
  intro rest
  have hfront := h (back ++ rest)
  have hback := hnext rest
  rw [List.append_assoc]
  change (reader (front ++ (back ++ rest)) >>= fun step => next step.1 step.2) = _
  rw [hfront]
  exact hback

/-- What is made of a value once it is read. -/
theorem Reads.returning {reader : Reader α} {bytes : Bytes} {value : α}
    (h : Reads reader bytes value) (f : α → β) :
    Reads (do return f (← reader)) bytes (f value) := by
  have hboth : Reads (do return f (← reader)) (bytes ++ []) (f value) :=
    h.bind (reads_pure (f value))
  rwa [List.append_nil] at hboth

/-! ## Numbers -/

theorem reads_bytes {count : Nat} {content : Bytes} (hcount : content.length = count) :
    Reads (bytes count) content content := by
  intro rest
  rw [bytes, splitExactly_append rest hcount]

theorem reads_word {width n : Nat} (h : n < wordRange width) :
    Reads (word width) (littleEndian width n) n := by
  have hword := (reads_bytes (littleEndian_length width n)).returning littleEndianValue
  rwa [littleEndianValue_littleEndian, Nat.mod_eq_of_lt h] at hword

theorem reads_int64 (number : Int64) : Reads int64 (Wire.int64 number) number := by
  have hrange : number.toUInt64.toNat < wordRange 8 := number.toUInt64.toNat_lt
  have hword := (reads_word hrange).returning fun n => (UInt64.ofNat n).toInt64
  rwa [UInt64.ofNat_toNat, Int64.toInt64_toUInt64] at hword

theorem reads_int32 (number : Int32) : Reads int32 (Wire.int32 number) number := by
  have hrange : number.toUInt32.toNat < wordRange 4 := number.toUInt32.toNat_lt
  have hword := (reads_word hrange).returning fun n => (UInt32.ofNat n).toInt32
  rwa [UInt32.ofNat_toNat, Int32.toInt32_toUInt32] at hword

theorem reads_double (bits : UInt64) : Reads double (littleEndian 8 bits.toNat) bits := by
  have hrange : bits.toNat < wordRange 8 := bits.toNat_lt
  have hword := (reads_word hrange).returning UInt64.ofNat
  rwa [UInt64.ofNat_toNat] at hword

theorem reads_flag (value : Bool) : Reads flag [if value then 1 else 0] value := by
  cases value <;> exact fun _ => rfl

theorem reads_choice {count tag : Nat} (htag : tag < count) (hcount : count ≤ wordRange 4) :
    Reads (choice count) (Wire.tag tag) tag := by
  have hword : Reads (word 4) (Wire.tag tag) tag := reads_word (Nat.lt_of_lt_of_le htag hcount)
  have hboth : Reads (choice count) (Wire.tag tag ++ []) tag := by
    refine hword.bind ?_
    rw [if_pos htag]
    exact reads_pure tag
  rwa [List.append_nil] at hboth

/-! ## Texts, byte strings and sequences -/

theorem reads_length {count : Nat} (h : count < wordRange 8) :
    Reads (word 8) (Wire.length count) count :=
  reads_word h

theorem reads_blob {content : Bytes} (h : content.length < wordRange 8) :
    Reads blob (Wire.blob content) content :=
  (reads_length h).bind (reads_bytes rfl)

theorem reads_text {string : String} (h : (Utf8.encode string).length < wordRange 8) :
    Reads text (Wire.text string) string := by
  refine (reads_length h).bind fun rest => ?_
  simp only [textOfLength, splitExactly_append rest rfl, Utf8.decode?_encode]

theorem reads_pair {first : Reader α} {second : Reader β} {front back : Bytes} {left : α}
    {right : β} (hleft : Reads first front left) (hright : Reads second back right) :
    Reads (pair first second) (front ++ back) (left, right) :=
  hleft.bind (hright.returning (left, ·))

theorem reads_replicate_cons {item : Reader α} {front back : Bytes} {head : α} {rest : List α}
    (hhead : Reads item front head) (hrest : Reads (replicate item rest.length) back rest) :
    Reads (replicate item (head :: rest).length) (front ++ back) (head :: rest) :=
  hhead.bind (hrest.returning (head :: ·))

theorem reads_replicate {item : Reader α} {write : α → Bytes} {items : List α}
    (hitems : ∀ value ∈ items, Reads item (write value) value) :
    Reads (replicate item items.length) (items.flatMap write) items := by
  induction items with
  | nil => exact reads_pure []
  | cons head rest ih =>
      rw [List.flatMap_cons]
      exact reads_replicate_cons (hitems head (List.mem_cons_self ..))
        (ih fun value hmem => hitems value (List.mem_cons_of_mem _ hmem))

theorem reads_sequence {item : Reader α} {bytes : Bytes} {items : List α}
    (hlength : items.length < wordRange 8)
    (hitems : Reads (replicate item items.length) bytes items) :
    Reads (sequence item) (Wire.length items.length ++ bytes) items :=
  (reads_length hlength).bind hitems

end DocumentCache.Reader
