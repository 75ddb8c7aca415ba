import DocumentCache.Proofs.Format.Payloads

/-!
# Canonical payloads

Putting the entries of a map in order keeps, of the entries with one name, the last.
Nothing gets longer by it, so a document that was read from any payload is stored in
one that is not longer, and from that it is read again.
-/

namespace DocumentCache

namespace Value

/-! ## Entries in order -/

/-- The value of the last entry with this name. -/
def last? (name : String) (entries : List (String × Value)) : Option Value :=
  (entries.reverse.find? fun entry => entry.1 = name).map Prod.snd

/-- A lookup that finds nothing goes the way of the insertion, so nothing is replaced. -/
theorem insertEntry_perm {name : String} {value : Value} {entries : List (String × Value)}
    (h : OrderedMap.lookup? name entries = none) :
    (OrderedMap.insertEntry name value entries).Perm ((name, value) :: entries) := by
  induction entries with
  | nil => exact .refl _
  | cons head rest ih =>
      obtain ⟨other, held⟩ := head
      rw [OrderedMap.lookup?] at h
      rw [OrderedMap.insertEntry]
      cases horder : compare name other with
      | lt => exact .refl _
      | eq => simp only [horder, reduceCtorEq] at h
      | gt =>
          simp only [horder] at h
          exact ((ih h).cons _).trans (.swap ..)

/-- A new entry is listed besides the others, one with a name that is there is not listed. -/
theorem insertNew_cases (name : String) (value : Value) (entries : List (String × Value)) :
    insertNew name value entries = entries ∨
      (insertNew name value entries).Perm ((name, value) :: entries) := by
  unfold insertNew
  split
  · exact .inl rfl
  · next hnone => exact .inr (insertEntry_perm hnone)

theorem lookup?_insertNew {entries : List (String × Value)} (h : Ascending entries)
    (name other : String) (value : Value) :
    OrderedMap.lookup? other (insertNew name value entries) =
      (OrderedMap.lookup? other entries).or (if name = other then some value else none) := by
  unfold insertNew
  split
  · next held hheld =>
      by_cases hname : name = other
      · rw [← hname, hheld, Option.some_or]
      · rw [if_neg hname, Option.or_none]
  · next hnone =>
      by_cases hname : name = other
      · rw [← hname, hnone, Option.none_or, if_pos rfl]
        exact OrderedMap.get?_insert_self ⟨entries, h⟩ name value
      · rw [if_neg hname, Option.or_none]
        exact OrderedMap.get?_insert_of_ne ⟨entries, h⟩ value (Ne.symm hname)

theorem last?_cons (name other : String) (value : Value) (entries : List (String × Value)) :
    last? name ((other, value) :: entries) =
      (last? name entries).or (if other = name then some value else none) := by
  simp only [last?, List.reverse_cons, List.find?_append, Option.map_or]
  by_cases hname : other = name <;> simp [hname]

/-- Of the entries with one name the last stays. -/
theorem lookup?_orderEntries (name : String) (entries : List (String × Value)) :
    OrderedMap.lookup? name (orderEntries entries) = (last? name entries).map order := by
  induction entries with
  | nil => rfl
  | cons head rest ih =>
      obtain ⟨other, value⟩ := head
      rw [orderEntries, lookup?_insertNew (orderedEntries_orderEntries rest).1, ih, last?_cons,
        Option.map_or]
      by_cases hname : other = name <;> simp only [hname, if_true, if_false, Option.map]

/-! ## Lengths -/

theorem length_insertNew_le (name : String) (value : Value) (entries : List (String × Value)) :
    (insertNew name value entries).length ≤ entries.length + 1 := by
  rcases insertNew_cases name value entries with hsame | hperm
  · rw [hsame]
    exact Nat.le_succ _
  · exact Nat.le_of_eq hperm.length_eq

theorem length_orderItems (items : List Value) : (orderItems items).length = items.length := by
  induction items with
  | nil => rfl
  | cons item rest ih => rw [orderItems, List.length_cons, List.length_cons, ih]

theorem length_orderEntries_le (entries : List (String × Value)) :
    (orderEntries entries).length ≤ entries.length := by
  induction entries with
  | nil => exact Nat.le_refl _
  | cons head rest ih =>
      have hnew := length_insertNew_le head.1 head.2.order (orderEntries rest)
      rw [orderEntries, List.length_cons]
      omega

theorem length_valueEntries_insertNew_le (name : String) (value : Value)
    (entries : List (String × Value)) :
    (Wire.valueEntries (insertNew name value entries)).length ≤
      (Wire.valueEntries ((name, value) :: entries)).length := by
  rcases insertNew_cases name value entries with hsame | hperm
  · rw [hsame, Wire.valueEntries, List.length_append, List.length_append]
    omega
  · rw [Wire.valueEntries_eq_flatMap, Wire.valueEntries_eq_flatMap]
    exact Nat.le_of_eq (hperm.flatMap_right _).length_eq

mutual

/-- No value is stored in more bytes once it is in order. -/
theorem length_order_le : (item : Value) →
    (Wire.value item.order).length ≤ (Wire.value item).length
  | .null => Nat.le_refl _
  | .boolean _ => Nat.le_refl _
  | .integer _ => Nat.le_refl _
  | .double _ => Nat.le_refl _
  | .text _ => Nat.le_refl _
  | .blob _ => Nat.le_refl _
  | .array items => by
      have hitems := length_valueItems_orderItems_le items
      simp only [order, Wire.value, List.length_append, Wire.length_length]
      omega
  | .map entries => by
      have hentries := length_valueEntries_orderEntries_le entries
      simp only [order, Wire.value, List.length_append, Wire.length_length]
      omega

theorem length_valueItems_orderItems_le : (items : List Value) →
    (Wire.valueItems (orderItems items)).length ≤ (Wire.valueItems items).length
  | [] => Nat.le_refl _
  | item :: rest => by
      have hitem := length_order_le item
      have hrest := length_valueItems_orderItems_le rest
      simp only [orderItems, Wire.valueItems, List.length_append]
      omega

theorem length_valueEntries_orderEntries_le : (entries : List (String × Value)) →
    (Wire.valueEntries (orderEntries entries)).length ≤ (Wire.valueEntries entries).length
  | [] => Nat.le_refl _
  | (name, item) :: rest => by
      have hitem := length_order_le item
      have hrest := length_valueEntries_orderEntries_le rest
      have hnew := length_valueEntries_insertNew_le name item.order (orderEntries rest)
      simp only [orderEntries, Wire.valueEntries, List.length_append] at hnew ⊢
      omega

end

theorem entriesFit_insertNew {name : String} {value : Value} {entries : List (String × Value)}
    (h : EntriesFit ((name, value) :: entries)) : EntriesFit (insertNew name value entries) := by
  rcases insertNew_cases name value entries with hsame | hperm
  · rw [hsame]
    exact h.2
  · exact entriesFit_iff.mpr fun entry hmem => entriesFit_iff.mp h entry (hperm.mem_iff.mp hmem)

mutual

theorem fits_order : (item : Value) → item.Fits → item.order.Fits
  | .null, _ => trivial
  | .boolean _, _ => trivial
  | .integer _, _ => trivial
  | .double _, _ => trivial
  | .text _, h => h
  | .blob _, h => h
  | .array items, h =>
      ⟨Nat.lt_of_le_of_lt (Nat.le_of_eq (length_orderItems items)) h.1,
        itemsFit_orderItems items h.2⟩
  | .map entries, h =>
      ⟨Nat.lt_of_le_of_lt (length_orderEntries_le entries) h.1,
        entriesFit_orderEntries entries h.2⟩

theorem itemsFit_orderItems : (items : List Value) → ItemsFit items → ItemsFit (orderItems items)
  | [], _ => trivial
  | item :: rest, h => ⟨fits_order item h.1, itemsFit_orderItems rest h.2⟩

theorem entriesFit_orderEntries : (entries : List (String × Value)) → EntriesFit entries →
    EntriesFit (orderEntries entries)
  | [], _ => trivial
  | (_, item) :: rest, h =>
      entriesFit_insertNew ⟨⟨h.1.1, fits_order item h.1.2⟩, entriesFit_orderEntries rest h.2⟩

end

end Value

/-- A map is put in order as the data of a document are, at every level. -/
theorem Value.order_map (entries : List (String × Value)) :
    (Value.map entries).order = .map (Fields.ofEntries entries).entries := rfl

theorem Fields.get?_ofEntries (entries : List (String × Value)) (name : String) :
    (ofEntries entries).get? name = (Value.last? name entries).map Value.order :=
  Value.lookup?_orderEntries name entries

namespace Payload

/-! ## Documents read from a payload -/

/-- What is checked of a document before it is read from a payload. -/
structure Restored (document : Document) : Prop where
  kind : document.isFound = true ∨ document.isDeleted = true
  unread : document.readTime = .never
  nonempty : document.key.path.segments ≠ []
  even : document.key.path.length % 2 = 0
  named : ∀ segment ∈ document.key.path.segments, segment ≠ ""
  seconds : document.version.seconds < 9223372036854775808
  nanos : document.version.nanos < 1000000000

namespace Holds

variable {payload : Bytes} {document : Document}

theorem named (h : Holds payload document) : document.key.Named :=
  named_of_decode (decode_eq_ok_iff.mpr h)

theorem readTime (h : Holds payload document) : document.readTime = .never := by
  cases h <;> rfl

theorem restored (h : Holds payload document) : Restored document where
  kind := by
    cases h with
    | found version behind hnamed hpath hentries => exact .inl rfl
    | deleted version behind hnamed hpath => exact .inr rfl
  unread := h.readTime
  nonempty := document.key.nonempty
  even := document.key.even
  named := h.named
  seconds := document.version.seconds_lt
  nanos := document.version.nanos_lt

theorem fits (h : Holds payload document) : document.Fits := by
  cases h with
  | found version behind hnamed hpath hentries =>
      refine ⟨hpath, fun data hdata => ?_⟩
      obtain rfl := Option.some.inj hdata
      exact Value.fits_order (.map _) hentries
  | deleted version behind hnamed hpath => exact ⟨hpath, fun data hdata => by cases hdata⟩

/-- A document that a payload holds is stored in one that is not longer. -/
theorem exists_encode (h : Holds payload document) :
    ∃ contents, encode document = .ok contents ∧ contents.length ≤ payload.length := by
  cases h with
  | @found key entries version behind hnamed hpath hentries =>
      refine ⟨_, rfl, ?_⟩
      have hdata := Value.length_valueEntries_orderEntries_le entries
      simp only [length_frame, foundBody, Wire.fields, Wire.entries, Fields.ofEntries,
        List.length_append, Wire.length_length]
      omega
  | deleted version behind hnamed hpath =>
      refine ⟨_, rfl, ?_⟩
      simp only [length_frame, deletedBody, List.length_append]
      omega

/-- Stored again, a document that a payload holds is read as it is. -/
theorem decode_of_encode {contents : Bytes} (h : Holds payload document)
    (hencode : encode document = .ok contents) : decode contents = .ok document := by
  have hsame : document.withReadTime .never = document := by
    cases h <;> rfl
  exact hsame ▸ decode_encode h.named h.fits hencode

end Holds

/-- A payload is refused as a corrupt record, or it holds a document that passes every check,
and storing that gives a payload which is not longer and from which it is read again, every
floating-point number with the same bits.  What a payload holds does not depend on bytes behind
the document; its maps are in order, and of entries with one name the last stays. -/
theorem decode_canonical (payload : Bytes) :
    ((∃ fault, codec.decode payload = .error (.corruptRecord fault)) ∨
      ∃ document contents, codec.decode payload = .ok document ∧ Restored document ∧
        codec.encode document = .ok contents ∧ contents.length ≤ payload.length ∧
        codec.decode contents = .ok document) ∧
    (∀ document, codec.decode payload = .ok document ↔ Holds payload document) ∧
    ∀ entries : List (String × Value),
      (Value.map entries).order = .map (Fields.ofEntries entries).entries ∧
        ∀ name,
          (Fields.ofEntries entries).get? name = (Value.last? name entries).map Value.order := by
  have hholds : ∀ document, codec.decode payload = .ok document ↔ Holds payload document :=
    fun document => mapError_eq_ok_iff.trans decode_eq_ok_iff
  refine ⟨?_, hholds, fun entries => ⟨Value.order_map entries, Fields.get?_ofEntries entries⟩⟩
  have hcorrupt : FailsCorrupt (codec.decode payload) :=
    FailsCorrupt.mapError (decode payload) id
  cases hread : codec.decode payload with
  | error error =>
      obtain ⟨fault, rfl⟩ := hcorrupt error hread
      exact .inl ⟨fault, rfl⟩
  | ok document =>
      have hheld := (hholds document).mp hread
      obtain ⟨contents, hencode, hlength⟩ := hheld.exists_encode
      have hagain : codec.decode contents = .ok document :=
        mapError_eq_ok_iff.mpr (hheld.decode_of_encode hencode)
      exact .inr ⟨document, contents, rfl, hheld.restored, hencode, hlength, hagain⟩

end Payload

end DocumentCache
