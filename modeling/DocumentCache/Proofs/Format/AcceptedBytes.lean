import DocumentCache.Proofs.Format.StoredValues
import DocumentCache.Proofs.Outcomes

/-!
# Bytes that readers accept

A reader takes values in their stored form when every success of it took exactly the
stored form of its value off the front, and that value fits its stored lengths.  So
for all but maps nothing else than what is written is read.  The data of a document
stand behind their entries in some order, from which they are put in order.
-/

namespace DocumentCache

namespace Reader

variable {α β : Type}

/-- Whatever the reader gives fits, and stood in its stored form at the front. -/
def Takes (reader : Reader α) (write : α → Bytes) (fits : α → Prop) : Prop :=
  ∀ ⦃input rest : Bytes⦄ ⦃value : α⦄,
    reader input = .ok (value, rest) → fits value ∧ input = write value ++ rest

/-! ## Composition -/

theorem exists_of_bind {reader : Reader α} {next : α → Reader β} {input rest : Bytes} {result : β}
    (h : (reader >>= next) input = .ok (result, rest)) :
    ∃ value middle, reader input = .ok (value, middle) ∧
      next value middle = .ok (result, rest) := by
  obtain ⟨⟨value, middle⟩, hfirst, hnext⟩ := bind_eq_ok_iff.mp h
  exact ⟨value, middle, hfirst, hnext⟩

section

variable {reader : Reader α} {write : α → Bytes} {fits : α → Prop}

/-- The first of two readers took a value, and the second one went on behind it. -/
theorem Takes.exists_of_bind {next : α → Reader β} {input rest : Bytes} {result : β}
    (h : Takes reader write fits) (hread : (reader >>= next) input = .ok (result, rest)) :
    ∃ value middle, fits value ∧ input = write value ++ middle ∧
      next value middle = .ok (result, rest) := by
  obtain ⟨value, middle, hfirst, hnext⟩ := Reader.exists_of_bind hread
  obtain ⟨hfits, rfl⟩ := h hfirst
  exact ⟨value, middle, hfits, rfl, hnext⟩

/-- What is made of a value was made of one that the reader took. -/
theorem Takes.exists_of_returning {f : α → β} {input rest : Bytes} {result : β}
    (h : Takes reader write fits) (hread : (do return f (← reader)) input = .ok (result, rest)) :
    ∃ value, result = f value ∧ fits value ∧ input = write value ++ rest := by
  obtain ⟨value, middle, hfits, rfl, hnext⟩ := h.exists_of_bind hread
  obtain ⟨rfl, rfl⟩ := Prod.mk.inj (Except.ok.inj hnext)
  exact ⟨value, rfl, hfits, rfl⟩

end

/-! ## Numbers -/

theorem takes_bytes (count : Nat) : Takes (bytes count) id (·.length = count) := by
  intro input rest content h
  unfold bytes at h
  split at h
  · next hsplit =>
      obtain ⟨rfl, rfl⟩ := Prod.mk.inj (Except.ok.inj h)
      obtain ⟨rfl, hlength⟩ := splitExactly_eq_some_iff.mp hsplit
      exact ⟨hlength, rfl⟩
  · cases h

theorem takes_word (width : Nat) :
    Takes (word width) (littleEndian width) (· < wordRange width) := by
  intro input rest n h
  obtain ⟨content, rfl, rfl, rfl⟩ := (takes_bytes width).exists_of_returning h
  exact ⟨littleEndianValue_lt content, by rw [littleEndian_littleEndianValue]; rfl⟩

theorem takes_int64 : Takes int64 Wire.int64 fun _ => True := by
  intro input rest number h
  obtain ⟨n, rfl, hrange, rfl⟩ := (takes_word 8).exists_of_returning h
  have hword : (UInt64.ofNat n).toNat = n := UInt64.toNat_ofNat_of_lt' hrange
  exact ⟨trivial, by rw [Wire.int64, UInt64.toUInt64_toInt64, hword]⟩

theorem takes_int32 : Takes int32 Wire.int32 fun _ => True := by
  intro input rest number h
  obtain ⟨n, rfl, hrange, rfl⟩ := (takes_word 4).exists_of_returning h
  have hword : (UInt32.ofNat n).toNat = n := UInt32.toNat_ofNat_of_lt' hrange
  exact ⟨trivial, by rw [Wire.int32, UInt32.toUInt32_toInt32, hword]⟩

theorem takes_double : Takes double (fun bits => littleEndian 8 bits.toNat) fun _ => True := by
  intro input rest bits h
  obtain ⟨n, rfl, hrange, rfl⟩ := (takes_word 8).exists_of_returning h
  have hword : (UInt64.ofNat n).toNat = n := UInt64.toNat_ofNat_of_lt' hrange
  exact ⟨trivial, by simp only [hword]⟩

theorem takes_flag : Takes flag (fun value => [if value then 1 else 0]) fun _ => True := by
  intro input rest value h
  obtain ⟨content, middle, hlength, rfl, hnext⟩ := (takes_bytes 1).exists_of_bind h
  obtain ⟨byte, rfl⟩ := List.length_eq_one_iff.mp hlength
  dsimp only at hnext
  split at hnext
  · next hzero =>
      obtain ⟨rfl, rfl⟩ := Prod.mk.inj (Except.ok.inj hnext)
      exact ⟨trivial, by rw [hzero]; rfl⟩
  · split at hnext
    · next hone =>
        obtain ⟨rfl, rfl⟩ := Prod.mk.inj (Except.ok.inj hnext)
        exact ⟨trivial, by rw [hone]; rfl⟩
    · cases hnext

theorem takes_choice (count : Nat) : Takes (choice count) Wire.tag (· < count) := by
  intro input rest tag h
  obtain ⟨value, middle, -, rfl, hnext⟩ := (takes_word 4).exists_of_bind h
  split at hnext
  · next hlt =>
      obtain ⟨rfl, rfl⟩ := Prod.mk.inj (Except.ok.inj hnext)
      exact ⟨hlt, rfl⟩
  · cases hnext

/-! ## Texts, byte strings and sequences -/

theorem takes_blob : Takes blob Wire.blob (·.length < wordRange 8) := by
  intro input rest content h
  obtain ⟨count, middle, hrange, rfl, hnext⟩ := (takes_word 8).exists_of_bind h
  obtain ⟨rfl, rfl⟩ := takes_bytes count hnext
  exact ⟨hrange, (List.append_assoc ..).symm⟩

theorem takes_textOfLength (count : Nat) :
    Takes (textOfLength count) Utf8.encode fun string => (Utf8.encode string).length = count := by
  intro input rest string h
  unfold textOfLength at h
  split at h
  · cases h
  · next hsplit =>
      obtain ⟨rfl, hlength⟩ := splitExactly_eq_some_iff.mp hsplit
      split at h
      · next hdecode =>
          obtain ⟨rfl, rfl⟩ := Prod.mk.inj (Except.ok.inj h)
          obtain rfl := Utf8.encode_of_decode? hdecode
          exact ⟨hlength, rfl⟩
      · cases h

theorem takes_text :
    Takes text Wire.text fun string => (Utf8.encode string).length < wordRange 8 := by
  intro input rest string h
  obtain ⟨count, middle, hrange, rfl, hnext⟩ := (takes_word 8).exists_of_bind h
  obtain ⟨rfl, rfl⟩ := takes_textOfLength count hnext
  exact ⟨hrange, (List.append_assoc ..).symm⟩

theorem takes_pair {first : Reader α} {second : Reader β} {writeFirst : α → Bytes}
    {writeSecond : β → Bytes} {fitsFirst : α → Prop} {fitsSecond : β → Prop}
    (hfirst : Takes first writeFirst fitsFirst) (hsecond : Takes second writeSecond fitsSecond) :
    Takes (pair first second) (fun both => writeFirst both.1 ++ writeSecond both.2)
      fun both => fitsFirst both.1 ∧ fitsSecond both.2 := by
  intro input rest both h
  obtain ⟨left, middle, hleft, rfl, hnext⟩ := hfirst.exists_of_bind h
  obtain ⟨right, rfl, hright, rfl⟩ := hsecond.exists_of_returning hnext
  exact ⟨⟨hleft, hright⟩, (List.append_assoc ..).symm⟩

section

variable {item : Reader α} {write : α → Bytes} {fits : α → Prop}

theorem takes_replicate (h : Takes item write fits) (count : Nat) :
    Takes (replicate item count) (·.flatMap write)
      fun items => items.length = count ∧ ∀ value ∈ items, fits value := by
  induction count with
  | zero =>
      intro input rest items hread
      obtain ⟨rfl, rfl⟩ := Prod.mk.inj (Except.ok.inj hread)
      exact ⟨⟨rfl, fun value hmem => absurd hmem List.not_mem_nil⟩, rfl⟩
  | succ count ih =>
      intro input rest items hread
      obtain ⟨head, middle, hhead, rfl, hnext⟩ := h.exists_of_bind hread
      obtain ⟨tail, rfl, ⟨rfl, htail⟩, rfl⟩ := ih.exists_of_returning hnext
      refine ⟨⟨rfl, List.forall_mem_cons.mpr ⟨hhead, htail⟩⟩, ?_⟩
      simp only [List.flatMap_cons, List.append_assoc]

theorem takes_sequence (h : Takes item write fits) :
    Takes (sequence item) (fun items => Wire.length items.length ++ items.flatMap write)
      fun items => items.length < wordRange 8 ∧ ∀ value ∈ items, fits value := by
  intro input rest items hread
  obtain ⟨count, middle, hrange, rfl, hnext⟩ := (takes_word 8).exists_of_bind hread
  obtain ⟨⟨rfl, hitems⟩, rfl⟩ := takes_replicate h count hnext
  exact ⟨⟨hrange, hitems⟩, (List.append_assoc ..).symm⟩

end

end Reader

/-! ## Values -/

theorem Wire.valueItems_eq_flatMap (items : List Value) :
    valueItems items = items.flatMap value := by
  induction items with
  | nil => rfl
  | cons item rest ih => rw [valueItems, List.flatMap_cons, ih]

theorem Wire.valueEntries_eq_flatMap (entries : List (String × Value)) :
    valueEntries entries = entries.flatMap fun entry => text entry.1 ++ value entry.2 := by
  induction entries with
  | nil => rfl
  | cons entry rest ih => rw [valueEntries, List.flatMap_cons, ih, List.append_assoc]

theorem Value.itemsFit_iff {items : List Value} : ItemsFit items ↔ ∀ item ∈ items, item.Fits := by
  induction items with
  | nil => exact iff_of_true trivial fun item hmem => absurd hmem List.not_mem_nil
  | cons item rest ih => rw [ItemsFit, List.forall_mem_cons, ih]

theorem Value.entriesFit_iff {entries : List (String × Value)} :
    EntriesFit entries ↔
      ∀ entry ∈ entries, (Utf8.encode entry.1).length < wordRange 8 ∧ entry.2.Fits := by
  induction entries with
  | nil => exact iff_of_true trivial fun entry hmem => absurd hmem List.not_mem_nil
  | cons entry rest ih => rw [EntriesFit, List.forall_mem_cons, ih]

namespace Reader

section

variable {item : Reader Value}

theorem takes_items (h : Takes item Wire.value Value.Fits) :
    Takes (sequence item) (fun items => Wire.length items.length ++ Wire.valueItems items)
      fun items => (Value.array items).Fits := by
  intro input rest items hread
  obtain ⟨⟨hrange, hitems⟩, rfl⟩ := takes_sequence h hread
  exact ⟨⟨hrange, Value.itemsFit_iff.mpr hitems⟩, by simp only [Wire.valueItems_eq_flatMap]⟩

theorem takes_entries (h : Takes item Wire.value Value.Fits) :
    Takes (sequence (pair text item)) Wire.entries fun entries => (Value.map entries).Fits := by
  intro input rest entries hread
  obtain ⟨⟨hrange, hentries⟩, rfl⟩ := takes_sequence (takes_pair takes_text h) hread
  refine ⟨⟨hrange, Value.entriesFit_iff.mpr hentries⟩, ?_⟩
  rw [Wire.entries, Wire.valueEntries_eq_flatMap]

end

/-- A value is read from nothing but its stored form. -/
theorem takes_value (depth : Nat) : Takes (value depth) Wire.value Value.Fits := by
  induction depth with
  | zero =>
      intro input rest item h
      cases h
  | succ depth ih =>
      intro input rest item h
      rw [value] at h
      obtain ⟨kind, middle, hkind, rfl, hnext⟩ := (takes_choice 8).exists_of_bind h
      have hkind : kind < 8 := hkind
      split at hnext
      · obtain ⟨rfl, rfl⟩ := Prod.mk.inj (Except.ok.inj hnext)
        exact ⟨trivial, rfl⟩
      · obtain ⟨held, rfl, -, rfl⟩ := takes_flag.exists_of_returning hnext
        exact ⟨trivial, rfl⟩
      · obtain ⟨number, rfl, -, rfl⟩ := takes_int64.exists_of_returning hnext
        exact ⟨trivial, (List.append_assoc ..).symm⟩
      · obtain ⟨bits, rfl, -, rfl⟩ := takes_double.exists_of_returning hnext
        exact ⟨trivial, (List.append_assoc ..).symm⟩
      · obtain ⟨string, rfl, hfits, rfl⟩ := takes_text.exists_of_returning hnext
        exact ⟨hfits, (List.append_assoc ..).symm⟩
      · obtain ⟨content, rfl, hfits, rfl⟩ := takes_blob.exists_of_returning hnext
        exact ⟨hfits, (List.append_assoc ..).symm⟩
      · obtain ⟨items, rfl, hfits, rfl⟩ := (takes_items ih).exists_of_returning hnext
        exact ⟨hfits, (List.append_assoc ..).symm⟩
      · obtain ⟨entries, rfl, hfits, rfl⟩ := (takes_entries ih).exists_of_returning hnext
        -- The last kind is that of a map, as every other one is read before it.
        obtain rfl : kind = 7 := by grind
        exact ⟨hfits, (List.append_assoc ..).symm⟩

/-- Data are read from nothing but entries that give them once they are put in order. -/
theorem exists_entries_of_fields {input rest : Bytes} {data : Fields}
    (h : fields input = .ok (data, rest)) :
    ∃ entries, data = Fields.ofEntries entries ∧ (Value.map entries).Fits ∧
      input = Wire.entries entries ++ rest :=
  (takes_entries (takes_value (input.length + 1))).exists_of_returning h

end Reader

end DocumentCache
