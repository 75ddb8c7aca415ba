import DocumentCache.Format.StoredValue
import DocumentCache.Proofs.Format.Readers

/-!
# Reading values back

The depth up to which a value is read needs to exceed the length of its stored form
only, since each level of nesting takes bytes of its own.  Data whose names are in
order are what they are put in order to, so they are read back as they were stored.
-/

namespace DocumentCache

/-! ## Data that are in order -/

namespace Value

theorem insertNew_of_ascending {name : String} {value : Value} {entries : List (String × Value)}
    (h : Ascending ((name, value) :: entries)) :
    insertNew name value entries = (name, value) :: entries := by
  obtain ⟨hhead, _⟩ := List.pairwise_cons.mp h
  cases entries with
  | nil => rfl
  | cons next rest =>
      have hlt : compare name next.1 = .lt := hhead next (List.mem_cons_self ..)
      simp only [insertNew, OrderedMap.lookup?, OrderedMap.insertEntry, hlt]

mutual

theorem order_of_ordered : (value : Value) → value.Ordered → value.order = value
  | .null, _ => rfl
  | .boolean _, _ => rfl
  | .integer _, _ => rfl
  | .double _, _ => rfl
  | .text _, _ => rfl
  | .blob _, _ => rfl
  | .array items, h => congrArg Value.array (orderItems_of_ordered items h)
  | .map entries, h => congrArg Value.map (orderEntries_of_ordered entries h.1 h.2)

theorem orderItems_of_ordered : (items : List Value) → OrderedItems items →
    orderItems items = items
  | [], _ => rfl
  | item :: rest, h => by
      rw [orderItems, order_of_ordered item h.1, orderItems_of_ordered rest h.2]

theorem orderEntries_of_ordered : (entries : List (String × Value)) → Ascending entries →
    OrderedEntries entries → orderEntries entries = entries
  | [], _, _ => rfl
  | (name, value) :: rest, hascending, h => by
      have hrest := orderEntries_of_ordered rest (List.pairwise_cons.mp hascending).2 h.2
      rw [orderEntries, order_of_ordered value h.1, hrest, insertNew_of_ascending hascending]

end

end Value

theorem Fields.ofEntries_entries (data : Fields) : Fields.ofEntries data.entries = data :=
  Fields.ext_entries (Value.orderEntries_of_ordered data.entries data.ordered.1 data.ordered.2)

/-! ## Lengths -/

namespace Wire

@[simp]
theorem length_length (count : Nat) : (length count).length = 8 := littleEndian_length 8 count

@[simp]
theorem tag_length (choice : Nat) : (tag choice).length = 4 := littleEndian_length 4 choice

theorem length_value_pos (item : Value) : 0 < (value item).length := by
  cases item <;> simp only [value, List.length_append, tag_length] <;> omega

/-- Every item of an array takes bytes of its own. -/
theorem length_le_valueItems (items : List Value) :
    items.length ≤ (valueItems items).length := by
  induction items with
  | nil => exact Nat.le_refl _
  | cons item rest ih =>
      have hitem := length_value_pos item
      simp only [valueItems, List.length_cons, List.length_append]
      omega

/-- Every entry of a map takes bytes of its own. -/
theorem length_le_valueEntries (entries : List (String × Value)) :
    entries.length ≤ (valueEntries entries).length := by
  induction entries with
  | nil => exact Nat.le_refl _
  | cons entry rest ih =>
      have hitem := length_value_pos entry.2
      simp only [valueEntries, List.length_cons, List.length_append]
      omega

/-- Named values as they are stored, in whatever order they stand. -/
def entries (entries : List (String × Value)) : Bytes :=
  length entries.length ++ valueEntries entries

end Wire

namespace Value

mutual

/-- The length of every text, byte string, array and map in the value can be stored. -/
def Fits : Value → Prop
  | .text string => (Utf8.encode string).length < wordRange 8
  | .blob content => content.length < wordRange 8
  | .array items => items.length < wordRange 8 ∧ ItemsFit items
  | .map entries => entries.length < wordRange 8 ∧ EntriesFit entries
  | _ => True

def ItemsFit : List Value → Prop
  | [] => True
  | item :: rest => item.Fits ∧ ItemsFit rest

def EntriesFit : List (String × Value) → Prop
  | [] => True
  | (name, value) :: rest =>
      ((Utf8.encode name).length < wordRange 8 ∧ value.Fits) ∧ EntriesFit rest

end

mutual

/-- What is stored in so many bytes holds nothing longer. -/
theorem fits_of_length : (item : Value) → (Wire.value item).length < wordRange 8 → item.Fits
  | .null, _ => trivial
  | .boolean _, _ => trivial
  | .integer _, _ => trivial
  | .double _, _ => trivial
  | .text string, hrange => by
      simp only [Wire.value, Wire.text, List.length_append] at hrange
      exact Nat.lt_of_le_of_lt (by omega) hrange
  | .blob content, hrange => by
      simp only [Wire.value, Wire.blob, List.length_append] at hrange
      exact Nat.lt_of_le_of_lt (by omega) hrange
  | .array items, hrange => by
      simp only [Wire.value, List.length_append] at hrange
      have hitems : (Wire.valueItems items).length < wordRange 8 := by omega
      have hcount := Wire.length_le_valueItems items
      exact ⟨Nat.lt_of_le_of_lt hcount hitems, itemsFit_of_length items hitems⟩
  | .map entries, hrange => by
      simp only [Wire.value, List.length_append] at hrange
      have hentries : (Wire.valueEntries entries).length < wordRange 8 := by omega
      have hcount := Wire.length_le_valueEntries entries
      exact ⟨Nat.lt_of_le_of_lt hcount hentries, entriesFit_of_length entries hentries⟩

theorem itemsFit_of_length : (items : List Value) →
    (Wire.valueItems items).length < wordRange 8 → ItemsFit items
  | [], _ => trivial
  | item :: rest, hrange => by
      simp only [Wire.valueItems, List.length_append] at hrange
      exact ⟨fits_of_length item (by omega), itemsFit_of_length rest (by omega)⟩

theorem entriesFit_of_length : (entries : List (String × Value)) →
    (Wire.valueEntries entries).length < wordRange 8 → EntriesFit entries
  | [], _ => trivial
  | (name, item) :: rest, hrange => by
      simp only [Wire.valueEntries, Wire.text, List.length_append] at hrange
      have hname : (Utf8.encode name).length < wordRange 8 := by omega
      have hitem : item.Fits := fits_of_length item (by omega)
      exact ⟨⟨hname, hitem⟩, entriesFit_of_length rest (by omega)⟩

end

end Value

/-- The data of a document fit as a map of them does. -/
def Fields.Fits (data : Fields) : Prop := (Value.map data.entries).Fits

theorem Fields.fits_of_length {data : Fields} (h : (Wire.fields data).length < wordRange 8) :
    data.Fits := by
  simp only [Wire.fields, List.length_append] at h
  have hentries : (Wire.valueEntries data.entries).length < wordRange 8 := by omega
  have hcount := Wire.length_le_valueEntries data.entries
  exact ⟨Nat.lt_of_le_of_lt hcount hentries, Value.entriesFit_of_length data.entries hentries⟩

/-! ## Values -/

namespace Reader

/-- The choices among kinds of value fit a tag. -/
theorem reads_kind {kind : Nat} (h : kind < 8) : Reads (choice 8) (Wire.tag kind) kind :=
  reads_choice h (by decide)

mutual

theorem reads_value : (item : Value) → (depth : Nat) → (Wire.value item).length < depth →
    item.Fits → Reads (value depth) (Wire.value item) item
  | item, 0, hdepth, _ => absurd hdepth (Nat.not_lt_zero _)
  | .null, depth + 1, _, _ => by
      have hkind : Reads (value (depth + 1)) (Wire.tag 0 ++ []) .null :=
        (reads_kind (by decide)).bind (reads_pure Value.null)
      rwa [List.append_nil] at hkind
  | .boolean held, depth + 1, _, _ =>
      (reads_kind (by decide)).bind ((reads_flag held).returning Value.boolean)
  | .integer number, depth + 1, _, _ =>
      (reads_kind (by decide)).bind ((reads_int64 number).returning Value.integer)
  | .double bits, depth + 1, _, _ =>
      (reads_kind (by decide)).bind ((reads_double bits).returning Value.double)
  | .text string, depth + 1, _, hfits =>
      (reads_kind (by decide)).bind ((reads_text hfits).returning Value.text)
  | .blob content, depth + 1, _, hfits =>
      (reads_kind (by decide)).bind ((reads_blob hfits).returning Value.blob)
  | .array items, depth + 1, hdepth, hfits => by
      simp only [Wire.value, List.length_append, Wire.tag_length, Wire.length_length] at hdepth
      have hitems := reads_items items depth (by omega) hfits.2
      have hsequence := reads_sequence hfits.1 hitems
      exact (reads_kind (by decide)).bind (hsequence.returning Value.array)
  | .map entries, depth + 1, hdepth, hfits => by
      simp only [Wire.value, List.length_append, Wire.tag_length, Wire.length_length] at hdepth
      have hentries := reads_entries entries depth (by omega) hfits.2
      have hsequence := reads_sequence hfits.1 hentries
      exact (reads_kind (by decide)).bind (hsequence.returning Value.map)

theorem reads_items : (items : List Value) → (depth : Nat) →
    (Wire.valueItems items).length < depth → Value.ItemsFit items →
    Reads (replicate (value depth) items.length) (Wire.valueItems items) items
  | [], _, _, _ => reads_pure []
  | item :: rest, depth, hdepth, hfits => by
      simp only [Wire.valueItems, List.length_append] at hdepth
      have hitem := reads_value item depth (by omega) hfits.1
      have hrest := reads_items rest depth (by omega) hfits.2
      exact reads_replicate_cons hitem hrest

theorem reads_entries : (entries : List (String × Value)) → (depth : Nat) →
    (Wire.valueEntries entries).length < depth → Value.EntriesFit entries →
    Reads (replicate (pair text (value depth)) entries.length) (Wire.valueEntries entries) entries
  | [], _, _, _ => reads_pure []
  | (name, item) :: rest, depth, hdepth, hfits => by
      simp only [Wire.valueEntries, List.length_append] at hdepth
      have hname : Reads text (Wire.text name) name := reads_text hfits.1.1
      have hitem := reads_value item depth (by omega) hfits.1.2
      have hrest := reads_entries rest depth (by omega) hfits.2
      rw [Wire.valueEntries, ← List.append_assoc]
      exact reads_replicate_cons (reads_pair hname hitem) hrest

end

/-- Data are read off their entries in any order. -/
theorem reads_fields {entries : List (String × Value)} (hfits : (Value.map entries).Fits) :
    Reads fields (Wire.entries entries) (Fields.ofEntries entries) := by
  intro rest
  have hdepth : (Wire.valueEntries entries).length <
      (Wire.entries entries ++ rest).length + 1 := by
    simp only [Wire.entries, List.length_append]
    omega
  have hentries := reads_sequence hfits.1 (reads_entries entries _ hdepth hfits.2)
  exact hentries.returning Fields.ofEntries rest

end Reader

end DocumentCache
