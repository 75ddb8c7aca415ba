import DocumentCache.Proofs.RowReaders

/-!
# Row keys name documents

Reading a stored path gives its segments back, so different paths and different
documents are stored under different bytes.  No stored path holds a `0x00`: the
first one of a row key ends its collection, and the rows of a collection are those
whose keys begin with it, down to the last byte.
-/

namespace DocumentCache

namespace RowKey

/-! ## Reading what was written -/

theorem readSegments_escapeByte (current : Bytes) (byte : UInt8) (rest : Bytes) :
    readSegments current (escapeByte byte ++ rest) = readSegments (current ++ [byte]) rest := by
  unfold escapeByte
  split
  · next hnul =>
      subst hnul
      simp [readSegments, escape, nulCode, separatorCode]
  · split
    · next hescape =>
        subst hescape
        simp [readSegments, escape, nulCode, separatorCode, escapeCode]
    · next hescape =>
        rw [List.singleton_append, readSegments.eq_def]
        simp [hescape]

theorem readSegments_escaped (current bytes rest : Bytes) :
    readSegments current (bytes.flatMap escapeByte ++ rest) =
      readSegments (current ++ bytes) rest := by
  induction bytes generalizing current with
  | nil => rw [List.flatMap_nil, List.nil_append, List.append_nil]
  | cons byte bytes ih =>
      rw [List.flatMap_cons, List.append_assoc, readSegments_escapeByte, ih, List.append_assoc,
        List.singleton_append]

theorem readSegments_encodeSegment (segment : String) (rest : Bytes) :
    readSegments [] (encodeSegment segment ++ rest) =
      (segment :: ·) <$> readSegments [] rest := by
  rw [encodeSegment, List.append_assoc, readSegments_escaped, List.nil_append]
  simp [readSegments, escape, separatorCode]

theorem readSegments_encodePath (path : Path) :
    readSegments [] (encodePath path) = .ok path.segments := by
  obtain ⟨segments⟩ := path
  induction segments with
  | nil => rfl
  | cons segment rest ih =>
      have hrest : readSegments [] (rest.flatMap encodeSegment) = .ok rest := ih
      rw [encodePath, List.flatMap_cons, readSegments_encodeSegment, hrest]
      rfl

theorem encodePath_injective {left right : Path} (h : encodePath left = encodePath right) :
    left = right := by
  have hread := readSegments_encodePath left
  rw [h, readSegments_encodePath] at hread
  cases left
  cases right
  exact congrArg Path.mk (Except.ok.inj hread).symm

theorem encodePath_singleton (segment : String) : encodePath ⟨[segment]⟩ = encodeSegment segment :=
  List.append_nil _

/-! ## The byte that no path holds -/

theorem partitionMark_notMem_escapeByte (byte : UInt8) : partitionMark ∉ escapeByte byte := by
  unfold escapeByte
  split
  · decide
  · split
    · decide
    · next hnul _ => exact fun hmem => hnul (List.mem_singleton.mp hmem).symm

theorem partitionMark_notMem_encodePath (path : Path) : partitionMark ∉ encodePath path := by
  intro hmem
  obtain ⟨segment, _, hsegment⟩ := List.mem_flatMap.mp hmem
  rcases List.mem_append.mp hsegment with hescaped | hend
  · obtain ⟨byte, _, hbyte⟩ := List.mem_flatMap.mp hescaped
    exact partitionMark_notMem_escapeByte byte hbyte
  · revert hend
    decide

/-- What stands before the first mark and what stands behind it can be told apart. -/
theorem append_mark_inj {α : Type} {mark : α} {left right leftRest rightRest : List α}
    (hleft : mark ∉ left) (hright : mark ∉ right)
    (h : left ++ mark :: leftRest = right ++ mark :: rightRest) :
    left = right ∧ leftRest = rightRest := by
  induction left generalizing right with
  | nil =>
      cases right with
      | nil => exact ⟨rfl, (List.cons.inj h).2⟩
      | cons head rest =>
          obtain ⟨rfl, -⟩ := List.cons.inj h
          exact absurd (List.mem_cons_self ..) hright
  | cons head rest ih =>
      cases right with
      | nil =>
          obtain ⟨rfl, -⟩ := List.cons.inj h
          exact absurd (List.mem_cons_self ..) hleft
      | cons other others =>
          obtain ⟨rfl, htail⟩ := List.cons.inj h
          obtain ⟨rfl, hrest⟩ := ih (fun hmem => hleft (List.mem_cons_of_mem _ hmem))
            (fun hmem => hright (List.mem_cons_of_mem _ hmem)) htail
          exact ⟨rfl, hrest⟩

/-- The collection of a row key and what stands behind it can be told apart. -/
theorem ofCollection_append_inj {left right : Path} {leftRest rightRest : Bytes}
    (h : ofCollection left ++ leftRest = ofCollection right ++ rightRest) :
    left = right ∧ leftRest = rightRest := by
  simp only [ofCollection, List.cons_append, List.append_assoc, List.nil_append] at h
  obtain ⟨hpath, hrest⟩ := append_mark_inj (partitionMark_notMem_encodePath left)
    (partitionMark_notMem_encodePath right) (List.cons.inj h).2
  exact ⟨encodePath_injective hpath, hrest⟩

/-- The rows of a collection are those whose keys begin with it. -/
theorem ofCollection_isPrefixOf_ofDocument {collection : Path} {key : DocumentKey} :
    (ofCollection collection).isPrefixOf (ofDocument key) = true ↔
      key.collection = collection := by
  rw [List.isPrefixOf_iff_prefix]
  constructor
  · rintro ⟨rest, hrest⟩
    exact (ofCollection_append_inj hrest).1.symm
  · rintro rfl
    exact List.prefix_append _ _

theorem encodeSegment_injective {left right : String}
    (h : encodeSegment left = encodeSegment right) : left = right := by
  rw [← encodePath_singleton, ← encodePath_singleton] at h
  exact List.singleton_inj.mp (congrArg Path.segments (encodePath_injective h))

theorem ofDocument_injective {left right : DocumentKey} (h : ofDocument left = ofDocument right) :
    left = right := by
  obtain ⟨hcollection, hsegment⟩ := ofCollection_append_inj h
  have hid := encodeSegment_injective hsegment
  apply DocumentKey.path_injective
  rw [← left.child_collection_id, ← right.child_collection_id, hcollection, hid]

/-! ## Paths and names that are read back -/

/-- A stored path is read back, unless one of its segments is empty. -/
theorem decodePath_encodePath_eq (path : Path) :
    decodePath (encodePath path) =
      if "" ∈ path.segments then .error .emptySegment else .ok path := by
  have hany : path.segments.any (· = "") = true ↔ "" ∈ path.segments := by
    simp
  rw [decodePath, readSegments_encodePath]
  dsimp only
  rw [Path.ofSegments]
  by_cases hempty : "" ∈ path.segments
  · rw [if_pos hempty, if_pos (hany.mpr hempty)]
    rfl
  · rw [if_neg hempty, if_neg (mt hany.mp hempty)]
    rfl

/-- The name is read back out of a row key, unless it is empty. -/
theorem documentId_ofDocument (key : DocumentKey) :
    documentId (ofDocument key) (ofCollection key.collection) =
      if key.id = "" then .error .emptySegment else .ok key.id := by
  have hbegins : (ofCollection key.collection).isPrefixOf (ofDocument key) = true :=
    ofCollection_isPrefixOf_ofDocument.mpr rfl
  have hname : (ofDocument key).drop (ofCollection key.collection).length =
      encodePath ⟨[key.id]⟩ := by
    rw [encodePath_singleton]
    exact List.drop_left
  rw [documentId, if_pos hbegins, hname, decodePath_encodePath_eq]
  by_cases hid : key.id = ""
  · rw [if_pos hid, if_pos (by rw [hid]; exact List.mem_singleton_self _)]
  · rw [if_neg hid, if_neg (mt List.mem_singleton.mp (Ne.symm hid))]

/-- Paths are read back from their stored forms and names from row keys, whatever characters
stand in them.  What cannot be read back is a path with an empty segment and an empty name. -/
theorem stored_forms_read_back :
    (∀ path : Path, decodePath (encodePath path) =
      if "" ∈ path.segments then .error .emptySegment else .ok path) ∧
    ∀ key : DocumentKey, documentId (ofDocument key) (ofCollection key.collection) =
      if key.id = "" then .error .emptySegment else .ok key.id :=
  ⟨decodePath_encodePath_eq, documentId_ofDocument⟩

/-- Escapes, bytes that look like them, and a character of four bytes. -/
example : decodePath (encodePath ⟨["\x01\x10", "a\x00", "😀\x01"]⟩) =
    .ok ⟨["\x01\x10", "a\x00", "😀\x01"]⟩ := by
  rfl

end RowKey

theorem Path.ofSegments_eq_ok_iff {segments : List String} {path : Path} :
    ofSegments segments = .ok path ↔
      path = ⟨segments⟩ ∧ ∀ segment ∈ segments, segment ≠ "" := by
  have hany : segments.any (· = "") = true ↔ ¬ ∀ segment ∈ segments, segment ≠ "" := by
    simp
  unfold ofSegments
  by_cases hnamed : ∀ segment ∈ segments, segment ≠ ""
  · rw [if_neg (mt hany.mp (not_not_intro hnamed)), Except.ok.injEq, eq_comm]
    exact (and_iff_left hnamed).symm
  · rw [if_pos (hany.mpr hnamed)]
    exact iff_of_false (fun h => by cases h) fun h => hnamed h.2

namespace DocumentKey

/-- No segment of the key's path is empty. -/
def Named (key : DocumentKey) : Prop := ∀ segment ∈ key.path.segments, segment ≠ ""

theorem Named.id_ne {key : DocumentKey} (h : key.Named) : key.id ≠ "" :=
  h _ (List.getLast_mem key.nonempty)

theorem ofPath_path (key : DocumentKey) : ofPath key.path = .ok key := by
  rw [ofPath, dif_pos ⟨key.nonempty, key.even⟩]

theorem ofPath_eq_ok_iff {path : Path} {key : DocumentKey} :
    ofPath path = .ok key ↔ path = key.path := by
  refine ⟨fun h => ?_, fun h => h ▸ ofPath_path key⟩
  unfold ofPath at h
  split at h
  · obtain rfl := Except.ok.inj h
    rfl
  · cases h

/-- The document with this name in a collection at the top. -/
def topLevel (collection name : String) : DocumentKey :=
  ⟨⟨[collection, name]⟩, by simp, by simp [Path.length]⟩

theorem named_topLevel {collection name : String} (hcollection : collection ≠ "")
    (hname : name ≠ "") : (topLevel collection name).Named := by
  intro segment hmem
  simp only [topLevel, List.mem_cons, List.not_mem_nil, or_false] at hmem
  rcases hmem with rfl | rfl
  · exact hcollection
  · exact hname

end DocumentKey

namespace Cache

theorem childKey_id (key : DocumentKey) : childKey key.collection key.id = .ok key := by
  rw [childKey, key.child_collection_id, key.ofPath_path]
  rfl

/-- The document that a scan finds under a row key is at the child of its collection whose name
is read out of the key. -/
theorem exists_id_of_keyOfRow {collection : Path} {rowKey : Bytes} {key : DocumentKey}
    (h : keyOfRow collection rowKey = .ok key) :
    ∃ id, RowKey.documentId rowKey (RowKey.ofCollection collection) = .ok id ∧
      key.path = collection.child id := by
  obtain ⟨id, hid, hchild⟩ := bind_eq_ok_iff.mp h
  refine ⟨id, mapError_eq_ok_iff.mp hid, ?_⟩
  exact (DocumentKey.ofPath_eq_ok_iff.mp (mapError_eq_ok_iff.mp hchild)).symm

/-- A scan of a collection finds the document under the row key it was stored under,
unless its name is empty. -/
theorem keyOfRow_ofDocument_eq_ok_iff {key other : DocumentKey} :
    keyOfRow key.collection (RowKey.ofDocument key) = .ok other ↔ key.id ≠ "" ∧ other = key := by
  rw [keyOfRow, RowKey.documentId_ofDocument]
  by_cases hid : key.id = ""
  · rw [if_pos hid]
    refine iff_of_false ?_ fun h => h.1 hid
    intro h
    cases h
  · rw [if_neg hid]
    change childKey key.collection key.id = .ok other ↔ _
    rw [childKey_id, Except.ok.injEq, eq_comm]
    exact (and_iff_right hid).symm

theorem keyOfRow_ofDocument {key : DocumentKey} (h : key.Named) :
    keyOfRow key.collection (RowKey.ofDocument key) = .ok key :=
  keyOfRow_ofDocument_eq_ok_iff.mpr ⟨h.id_ne, rfl⟩

end Cache

end DocumentCache
