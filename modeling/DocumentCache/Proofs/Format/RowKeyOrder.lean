import DocumentCache.Proofs.Format.RowKeys
import DocumentCache.Proofs.Journal.TableContents

/-!
# Row keys sort as documents do

Stored paths are compared as the paths are, and one begins with another exactly if
the path begins with the other path.  The end of a segment lies below everything that
can stand inside one, and the mark behind a collection below everything that can
stand inside a path, so two row keys differ in their collections before they differ
in their names.  The rows of a collection are therefore neighbours: no key between
two of them belongs to anything else.
-/

namespace DocumentCache

namespace RowKey

/-! ## First differences -/

/-- What two byte strings have in common in front does not decide between them. -/
theorem compare_append_left (front left right : Bytes) :
    compare (front ++ left) (front ++ right) = compare left right := by
  induction front with
  | nil => rfl
  | cons byte rest ih =>
      rw [List.cons_append, List.cons_append, List.compare_cons_cons, Std.ReflOrd.compare_self, ih]
      rfl

theorem compare_cons_of_lt {low high : UInt8} (h : low < high) (left right : Bytes) :
    compare (low :: left) (high :: right) = .lt := by
  rw [List.compare_cons_cons, Std.compare_eq_lt.mpr h]
  rfl

/-! ## Bytes within a segment -/

theorem escape_lt_of_ne {byte : UInt8} (hnul : byte ≠ 0x00) (hescape : byte ≠ escape) :
    escape < byte := by
  rw [Ne, ← UInt8.toNat_inj] at hnul hescape
  rw [UInt8.lt_iff_toNat_lt]
  simp only [escape, UInt8.toNat_ofNat] at hnul hescape ⊢
  omega

/-- A byte that needs no escape stands above all escapes. -/
theorem escapeByte_cases (byte : UInt8) :
    byte = 0x00 ∧ escapeByte byte = [escape, nulCode] ∨
      byte = escape ∧ escapeByte byte = [escape, escapeCode] ∨
      escape < byte ∧ escapeByte byte = [byte] := by
  unfold escapeByte
  split
  · next hnul => exact .inl ⟨hnul, rfl⟩
  · split
    · next hescape => exact .inr (.inl ⟨hescape, rfl⟩)
    · next hnul hescape => exact .inr (.inr ⟨escape_lt_of_ne hnul hescape, rfl⟩)

/-- The smaller of two bytes is the smaller one in its stored form too. -/
theorem compare_escapeByte_of_lt {low high : UInt8} (h : low < high) (left right : Bytes) :
    compare (escapeByte low ++ left) (escapeByte high ++ right) = .lt := by
  rcases escapeByte_cases high with ⟨rfl, _⟩ | ⟨rfl, hhigh⟩ | ⟨hplain, hhigh⟩
  · exact absurd h UInt8.not_lt_zero
  · obtain rfl : low = 0x00 := by
      apply Classical.byContradiction
      intro hnul
      exact UInt8.lt_asymm h (escape_lt_of_ne hnul (UInt8.ne_of_lt h))
    exact (compare_append_left [escape] _ _).trans (compare_cons_of_lt (by decide) _ _)
  · rw [hhigh]
    rcases escapeByte_cases low with ⟨_, hlow⟩ | ⟨_, hlow⟩ | ⟨_, hlow⟩ <;> rw [hlow]
    · exact compare_cons_of_lt hplain _ _
    · exact compare_cons_of_lt hplain _ _
    · exact compare_cons_of_lt h _ _

theorem compare_escapeByte_append (low high : UInt8) (left right : Bytes) :
    compare (escapeByte low ++ left) (escapeByte high ++ right) =
      (compare low high).then (compare left right) := by
  cases hbytes : compare low high with
  | lt => exact compare_escapeByte_of_lt (Std.compare_eq_lt.mp hbytes) left right
  | eq =>
      obtain rfl := Std.LawfulEqCmp.eq_of_compare hbytes
      exact compare_append_left _ left right
  | gt =>
      have hlt : high < low := Std.compare_eq_gt.mp hbytes
      exact Std.OrientedCmp.gt_of_lt (compare_escapeByte_of_lt hlt right left)

/-- The end of a segment stands below every byte that continues one. -/
theorem compare_terminator_escapeByte (byte : UInt8) (left right : Bytes) :
    compare ([escape, separatorCode] ++ left) (escapeByte byte ++ right) = .lt := by
  rcases escapeByte_cases byte with ⟨_, hbyte⟩ | ⟨_, hbyte⟩ | ⟨hplain, hbyte⟩ <;> rw [hbyte]
  · exact (compare_append_left [escape] _ _).trans (compare_cons_of_lt (by decide) _ _)
  · exact (compare_append_left [escape] _ _).trans (compare_cons_of_lt (by decide) _ _)
  · exact compare_cons_of_lt hplain _ _

/-! ## Segments and paths -/

theorem compare_escaped_append (low high left right : Bytes) :
    compare (low.flatMap escapeByte ++ ([escape, separatorCode] ++ left))
        (high.flatMap escapeByte ++ ([escape, separatorCode] ++ right)) =
      (compare low high).then (compare left right) := by
  induction low generalizing high with
  | nil =>
      cases high with
      | nil => exact compare_append_left _ left right
      | cons byte rest =>
          rw [List.flatMap_cons, List.append_assoc]
          exact compare_terminator_escapeByte byte left _
  | cons byte rest ih =>
      cases high with
      | nil =>
          rw [List.flatMap_cons, List.append_assoc]
          exact Std.OrientedCmp.gt_of_lt (compare_terminator_escapeByte byte right _)
      | cons other others =>
          rw [List.flatMap_cons, List.flatMap_cons, List.append_assoc, List.append_assoc,
            compare_escapeByte_append, ih, List.compare_cons_cons, Ordering.then_assoc]

theorem compare_encodeSegment_append (low high : String) (left right : Bytes) :
    compare (encodeSegment low ++ left) (encodeSegment high ++ right) =
      (compare (Utf8.encode low) (Utf8.encode high)).then (compare left right) := by
  rw [encodeSegment, encodeSegment, List.append_assoc, List.append_assoc]
  exact compare_escaped_append _ _ left right

/-- These bytes stand below whatever begins with a stored segment. -/
def BelowSegments (bytes : Bytes) : Prop :=
  ∀ segment rest, compare bytes (encodeSegment segment ++ rest) = .lt

/-- The mark behind a collection stands below every byte of a segment. -/
theorem belowSegments_mark (rest : Bytes) : BelowSegments (partitionMark :: rest) := by
  intro segment after
  rw [encodeSegment, List.append_assoc]
  cases Utf8.encode segment with
  | nil => exact compare_cons_of_lt (by decide) _ _
  | cons byte others =>
      rw [List.flatMap_cons, List.append_assoc]
      rcases escapeByte_cases byte with ⟨_, hbyte⟩ | ⟨_, hbyte⟩ | ⟨hplain, hbyte⟩ <;> rw [hbyte]
      · exact compare_cons_of_lt (by decide) _ _
      · exact compare_cons_of_lt (by decide) _ _
      · exact compare_cons_of_lt (UInt8.lt_trans (by decide) hplain) _ _

theorem belowSegments_nil : BelowSegments [] := by
  intro segment rest
  cases hbytes : encodeSegment segment ++ rest with
  | nil => simp [encodeSegment] at hbytes
  | cons byte others => exact List.compare_nil_cons

theorem compare_encodePath_append (low high : Path) {left right : Bytes}
    (hleft : BelowSegments left) (hright : BelowSegments right) :
    compare (encodePath low ++ left) (encodePath high ++ right) =
      (compare low high).then (compare left right) := by
  obtain ⟨lows⟩ := low
  obtain ⟨highs⟩ := high
  simp only [encodePath, Path.compare_eq, Path.rank]
  induction lows generalizing highs with
  | nil =>
      cases highs with
      | nil => rfl
      | cons segment rest =>
          rw [List.flatMap_cons, List.append_assoc]
          exact hleft segment _
  | cons segment rest ih =>
      cases highs with
      | nil =>
          rw [List.flatMap_cons, List.append_assoc]
          exact Std.OrientedCmp.gt_of_lt (hright segment _)
      | cons other others =>
          rw [List.flatMap_cons, List.flatMap_cons, List.append_assoc, List.append_assoc,
            compare_encodeSegment_append, ih, List.map_cons, List.map_cons, List.compare_cons_cons,
            Ordering.then_assoc]

theorem readSegments_encodePath_append (path : Path) (rest : Bytes) :
    readSegments [] (encodePath path ++ rest) =
      (path.segments ++ ·) <$> readSegments [] rest := by
  obtain ⟨segments⟩ := path
  induction segments with
  | nil => exact (id_map _).symm
  | cons segment others ih =>
      rw [encodePath, List.flatMap_cons, List.append_assoc, readSegments_encodeSegment]
      change _ <$> readSegments [] (encodePath ⟨others⟩ ++ rest) = _
      rw [ih, ← comp_map]
      rfl

/-- One stored path begins with another exactly if the path begins with the other. -/
theorem encodePath_prefix_iff {front path : Path} :
    encodePath front <+: encodePath path ↔ front.segments <+: path.segments := by
  constructor
  · rintro ⟨rest, hrest⟩
    have hread := readSegments_encodePath path
    rw [← hrest, readSegments_encodePath_append] at hread
    cases hbehind : readSegments [] rest with
    | error fault =>
        rw [hbehind] at hread
        cases hread
    | ok segments =>
        rw [hbehind] at hread
        exact ⟨segments, Except.ok.inj hread⟩
  · rintro ⟨segments, hsegments⟩
    refine ⟨segments.flatMap encodeSegment, ?_⟩
    rw [encodePath, encodePath, ← hsegments, List.flatMap_append]

/-- Storing paths keeps their order and their prefixes, and leaves one byte free. -/
theorem encodePath_order_embedding (left right : Path) :
    compare (encodePath left) (encodePath right) = compare left right ∧
      (encodePath left = encodePath right ↔ left = right) ∧
      (encodePath left <+: encodePath right ↔ left.segments <+: right.segments) ∧
      0x00 ∉ encodePath left := by
  refine ⟨?_, ⟨encodePath_injective, congrArg encodePath⟩, encodePath_prefix_iff,
    partitionMark_notMem_encodePath left⟩
  have hcompare := compare_encodePath_append left right belowSegments_nil belowSegments_nil
  rw [List.append_nil, List.append_nil] at hcompare
  rw [hcompare]
  exact Ordering.then_eq

/-! ## Row keys -/

theorem ofCollection_append_eq (collection : Path) (rest : Bytes) :
    ofCollection collection ++ rest =
      [table] ++ (encodePath collection ++ (partitionMark :: rest)) := by
  simp [ofCollection]

/-- Row keys are compared by their collections and then by their names. -/
theorem compare_ofDocument (left right : DocumentKey) :
    compare (ofDocument left) (ofDocument right) =
      (compare left.collection right.collection).then
        (compare (Utf8.encode left.id) (Utf8.encode right.id)) := by
  have hnames := compare_encodeSegment_append left.id right.id [] []
  rw [List.append_nil, List.append_nil] at hnames
  rw [ofDocument, ofDocument, ofCollection_append_eq, ofCollection_append_eq, compare_append_left,
    compare_encodePath_append _ _ (belowSegments_mark _) (belowSegments_mark _),
    List.compare_cons_cons, Std.ReflOrd.compare_self, hnames]
  exact congrArg _ Ordering.then_eq

/-- What stands between two row keys of a collection begins as they do. -/
theorem ofCollection_prefix_of_between {collection : Path} {left right : DocumentKey}
    {middle : Bytes} (hleft : left.collection = collection)
    (hright : right.collection = collection)
    (hfirst : (compare (ofDocument left) middle).isLE = true)
    (hlast : (compare middle (ofDocument right)).isLE = true) :
    ofCollection collection <+: middle := by
  have hbeginsLeft := ofCollection_isPrefixOf_ofDocument.mpr hleft
  have hbeginsRight := ofCollection_isPrefixOf_ofDocument.mpr hright
  rw [← List.isPrefixOf_iff_prefix]
  cases hcompare : compare middle (ofDocument right) with
  | lt =>
      refine isPrefixOf_of_between ?_ hcompare hbeginsRight
      intro hbelow
      exact compare_ne_lt_of_isPrefixOf hbeginsLeft (Std.TransCmp.lt_of_isLE_of_lt hfirst hbelow)
  | eq =>
      rw [Std.LawfulEqCmp.eq_of_compare hcompare]
      exact hbeginsRight
  | gt =>
      rw [hcompare] at hlast
      cases hlast

/-- Row keys are compared by collections and then by names, and a collection is one
contiguous range of them: its prefix begins the row keys of its own documents only, and
whatever stands between two of them begins with it and belongs to it. -/
theorem rowKeys_partition (left right : DocumentKey) (collection : Path) :
    compare (ofDocument left) (ofDocument right) =
        (compare left.collection right.collection).then
          (compare (Utf8.encode left.id) (Utf8.encode right.id)) ∧
      (ofDocument left = ofDocument right ↔ left = right) ∧
      (ofCollection collection <+: ofDocument left ↔ left.collection = collection) ∧
      (left.collection = collection → right.collection = collection →
        (∀ middle, (compare (ofDocument left) middle).isLE = true →
          (compare middle (ofDocument right)).isLE = true →
            ofCollection collection <+: middle) ∧
        ∀ other : DocumentKey, (compare (ofDocument left) (ofDocument other)).isLE = true →
          (compare (ofDocument other) (ofDocument right)).isLE = true →
            other.collection = collection) := by
  refine ⟨compare_ofDocument left right, ⟨ofDocument_injective, congrArg ofDocument⟩, ?_, ?_⟩
  · rw [← List.isPrefixOf_iff_prefix]
    exact ofCollection_isPrefixOf_ofDocument
  · intro hleft hright
    refine ⟨fun _ => ofCollection_prefix_of_between hleft hright, ?_⟩
    intro other hfirst hlast
    apply ofCollection_isPrefixOf_ofDocument.mp
    exact List.isPrefixOf_iff_prefix.mpr (ofCollection_prefix_of_between hleft hright hfirst hlast)

/-- A key that no document has, between the row keys of the rooms `1` and `2`, begins as
the row keys of all rooms do. -/
theorem rowKeys_partition_rooms :
    let first : DocumentKey := .topLevel "rooms" "1"
    let last : DocumentKey := .topLevel "rooms" "2"
    let middle : Bytes := ofDocument first ++ [0xFF]
    (compare (ofDocument first) middle).isLE = true ∧
      (compare middle (ofDocument last)).isLE = true ∧ ofCollection ⟨["rooms"]⟩ <+: middle := by
  intro first last middle
  have hfirst : (compare (ofDocument first) middle).isLE = true := by decide +kernel
  have hlast : (compare middle (ofDocument last)).isLE = true := by decide +kernel
  have hpartition := (rowKeys_partition first last ⟨["rooms"]⟩).2.2.2 rfl rfl
  exact ⟨hfirst, hlast, hpartition.1 middle hfirst hlast⟩

end RowKey

end DocumentCache
