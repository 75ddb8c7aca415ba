import DocumentCache.Proofs.Format.RowKeys

/-!
# Row keys that are accepted

Whatever is read as a stored path is the stored form of that path, but for one thing: a
`0x00` that stands where it should have been escaped is taken for itself.  So a path has
one stored form among the bytes without `0x00`, and a row key that a scan takes for that
of a document is the document's own row key, unless a `0x00` stands in its name.
-/

namespace DocumentCache.RowKey

/-! ## Stored paths -/

/-- The bytes with every `0x00` in them escaped. -/
def escapeMarks (bytes : Bytes) : Bytes :=
  bytes.flatMap fun byte => if byte = partitionMark then [escape, nulCode] else [byte]

theorem escapeMarks_cons_of_ne {byte : UInt8} (h : byte ≠ partitionMark) (rest : Bytes) :
    escapeMarks (byte :: rest) = byte :: escapeMarks rest := by
  rw [escapeMarks, List.flatMap_cons, if_neg h]
  rfl

/-- Behind a byte that is taken for itself, reading goes on as behind its stored form. -/
theorem escapeMarks_cons_of_ne_escape {byte : UInt8} (h : byte ≠ escape) (rest : Bytes) :
    escapeMarks (byte :: rest) = escapeByte byte ++ escapeMarks rest := by
  rw [escapeMarks, List.flatMap_cons, escapeByte, if_neg h]
  rfl

theorem partitionMark_notMem_escapeMarks (bytes : Bytes) :
    partitionMark ∉ escapeMarks bytes := by
  intro hmem
  obtain ⟨byte, -, hbyte⟩ := List.mem_flatMap.mp hmem
  split at hbyte
  · revert hbyte
    decide
  · next hne => exact hne (List.mem_singleton.mp hbyte).symm

theorem escapeMarks_eq_self_iff {bytes : Bytes} :
    escapeMarks bytes = bytes ↔ partitionMark ∉ bytes := by
  constructor
  · intro h
    rw [← h]
    exact partitionMark_notMem_escapeMarks bytes
  · intro h
    induction bytes with
    | nil => rfl
    | cons byte rest ih =>
        obtain ⟨hbyte, hrest⟩ := not_or.mp (mt List.mem_cons.mpr h)
        rw [escapeMarks_cons_of_ne (Ne.symm hbyte), ih hrest]

/-- Segments that are read are stored as what was read, once every `0x00` is escaped. -/
theorem flatMap_encodeSegment_of_readSegments {current bytes : Bytes} {segments : List String}
    (h : readSegments current bytes = .ok segments) :
    segments.flatMap encodeSegment = current.flatMap escapeByte ++ escapeMarks bytes := by
  -- The cases are the end of the bytes, a bad escape, an end of a segment, the two escaped bytes,
  -- and a byte that is taken for itself.
  fun_induction readSegments current bytes generalizing segments with
  | case1 current hend =>
      obtain rfl := Except.ok.inj h
      rw [List.isEmpty_iff.mp hend]
      rfl
  | case2 current hopen => cases h
  | case3 current => cases h
  | case4 current rest hdecode => cases h
  | case5 current rest segment hdecode ih =>
      cases hread : readSegments [] rest with
      | error fault =>
          rw [hread] at h
          cases h
      | ok others =>
          rw [hread] at h
          obtain rfl := Except.ok.inj h
          rw [List.flatMap_cons, ih hread, encodeSegment, Utf8.encode_of_decode? hdecode,
            List.append_assoc]
          rfl
  | case6 current rest _ ih =>
      rw [ih h, List.flatMap_append, List.append_assoc]
      rfl
  | case7 current rest _ _ ih =>
      rw [ih h, List.flatMap_append, List.append_assoc]
      rfl
  | case8 current code rest hseparator hnul hescape => cases h
  | case9 current byte rest hplain ih =>
      rw [ih h, List.flatMap_append, List.append_assoc, escapeMarks_cons_of_ne_escape hplain,
        List.flatMap_singleton]

theorem encodePath_of_decodePath {bytes : Bytes} {path : Path} (h : decodePath bytes = .ok path) :
    encodePath path = escapeMarks bytes := by
  unfold decodePath at h
  split at h
  · cases h
  · next segments hread =>
      obtain ⟨rfl, -⟩ := Path.ofSegments_eq_ok_iff.mp (mapError_eq_ok_iff.mp h)
      exact flatMap_encodeSegment_of_readSegments hread

theorem decodePath_encodePath {path : Path} (h : ∀ segment ∈ path.segments, segment ≠ "") :
    decodePath (encodePath path) = .ok path := by
  rw [decodePath_encodePath_eq, if_neg fun hempty => h _ hempty rfl]

/-- Bytes that are read as a path are its stored form unless a `0x00` stands in them. -/
theorem encodePath_eq_iff_of_decodePath {bytes : Bytes} {path : Path}
    (h : decodePath bytes = .ok path) : encodePath path = bytes ↔ partitionMark ∉ bytes := by
  rw [encodePath_of_decodePath h]
  exact escapeMarks_eq_self_iff

/-! ## Row keys -/

/-- The name in a row key is the single segment that is read behind the front of the key. -/
theorem documentId_append_eq_ok_iff {front name : Bytes} {id : String} :
    documentId (front ++ name) front = .ok id ↔ decodePath name = .ok ⟨[id]⟩ := by
  have hfront : front.isPrefixOf (front ++ name) = true :=
    List.isPrefixOf_iff_prefix.mpr (List.prefix_append _ _)
  rw [documentId, if_pos hfront, List.drop_left]
  constructor
  · intro h
    split at h
    · cases h
    · next hread => rw [hread, Except.ok.inj h]
    · cases h
  · intro h
    rw [h]

/-- Behind the front of a row key in which a name is found, that name is stored. -/
theorem exists_name_of_documentId {key front : Bytes} {id : String}
    (h : documentId key front = .ok id) :
    ∃ name, key = front ++ name ∧ encodeSegment id = escapeMarks name := by
  by_cases hfront : front.isPrefixOf key = true
  · obtain ⟨name, rfl⟩ := List.isPrefixOf_iff_prefix.mp hfront
    have hname := encodePath_of_decodePath (documentId_append_eq_ok_iff.mp h)
    exact ⟨name, rfl, encodePath_singleton id ▸ hname⟩
  · rw [documentId, if_neg hfront] at h
    cases h

/-- The row key of a document ends in its name within its collection. -/
theorem ofDocument_of_path {document : DocumentKey} {collection : Path} {id : String}
    (h : document.path = collection.child id) :
    ofDocument document = ofCollection collection ++ encodeSegment id := by
  rw [← document.child_collection_id] at h
  obtain ⟨hcollection, hid⟩ := Path.child_inj h
  rw [ofDocument, hcollection, hid]

/-- A key with a name in it is the row key of the document so named, unless a `0x00` stands
unescaped in the name. -/
theorem append_name_eq_iff {collection : Path} {name : Bytes} {id : String}
    (h : encodeSegment id = escapeMarks name) :
    ofCollection collection ++ name = ofCollection collection ++ encodeSegment id ↔
      partitionMark ∉ name := by
  rw [List.append_right_inj, h, eq_comm]
  exact escapeMarks_eq_self_iff

/-- Bytes that are read as a path, as a row key with a name behind a collection, or as the row
key of a document are the stored form of that with some `0x00` unescaped, and are exactly the
stored form when they hold no `0x00` there. -/
theorem accepted_spelling (bytes : Bytes) :
    (∀ path, decodePath bytes = .ok path →
      encodePath path = escapeMarks bytes ∧ (encodePath path = bytes ↔ 0x00 ∉ bytes) ∧
        ∀ other, decodePath other = .ok path → 0x00 ∉ bytes → 0x00 ∉ other → other = bytes) ∧
    (∀ collection id, documentId bytes (ofCollection collection) = .ok id →
      ∃ name, bytes = ofCollection collection ++ name ∧ encodeSegment id = escapeMarks name ∧
        ∀ document : DocumentKey, document.path = collection.child id →
          (bytes = ofDocument document ↔ 0x00 ∉ name)) ∧
    ∀ collection document, Cache.keyOfRow collection bytes = .ok document →
      ∃ name, bytes = ofCollection collection ++ name ∧
        ofDocument document = ofCollection collection ++ escapeMarks name ∧
        (bytes = ofDocument document ↔ 0x00 ∉ name) := by
  refine ⟨?_, ?_, ?_⟩
  · intro path h
    refine ⟨encodePath_of_decodePath h, encodePath_eq_iff_of_decodePath h, ?_⟩
    intro other hother hplain hotherPlain
    rw [← (encodePath_eq_iff_of_decodePath h).mpr hplain,
      (encodePath_eq_iff_of_decodePath hother).mpr hotherPlain]
  · intro collection id h
    obtain ⟨name, rfl, hname⟩ := exists_name_of_documentId h
    refine ⟨name, rfl, hname, fun document hdocument => ?_⟩
    rw [ofDocument_of_path hdocument]
    exact append_name_eq_iff hname
  · intro collection document h
    obtain ⟨id, hid, hdocument⟩ := Cache.exists_id_of_keyOfRow h
    obtain ⟨name, rfl, hname⟩ := exists_name_of_documentId hid
    rw [ofDocument_of_path hdocument]
    exact ⟨name, rfl, congrArg _ hname, append_name_eq_iff hname⟩

/-! ## Names with an unescaped `0x00` -/

/-- Bytes without an escape are taken as they are. -/
theorem readSegments_bare (current rest : Bytes) {bytes : Bytes} (hplain : escape ∉ bytes) :
    readSegments current (bytes ++ rest) = readSegments (current ++ bytes) rest := by
  induction bytes generalizing current with
  | nil => rw [List.nil_append, List.append_nil]
  | cons byte others ih =>
      obtain ⟨hbyte, hothers⟩ := not_or.mp (mt List.mem_cons.mpr hplain)
      rw [List.cons_append, readSegments.eq_def]
      simp only [if_neg (Ne.symm hbyte)]
      rw [ih _ hothers, List.append_assoc, List.singleton_append]

/-- A name is read from its own bytes and a terminator, whether or not it holds a `0x00`. -/
theorem decodePath_bare {name : String} (hnamed : name ≠ "")
    (hplain : escape ∉ Utf8.encode name) :
    decodePath (Utf8.encode name ++ [escape, separatorCode]) = .ok ⟨[name]⟩ := by
  have hread : readSegments [] (Utf8.encode name ++ [escape, separatorCode]) = .ok [name] := by
    rw [readSegments_bare [] _ hplain]
    simp only [readSegments, if_true, List.nil_append, Utf8.decode?_encode]
    rfl
  rw [decodePath, hread]
  simp [Path.ofSegments, hnamed]

/-- The name that is a single `0x00`, unescaped. -/
def bareName : Bytes := [0x00, 0x01, 0x01]

theorem decodePath_bareName : decodePath bareName = .ok ⟨["\x00"]⟩ := by
  have hbytes : bareName = Utf8.encode "\x00" ++ [escape, separatorCode] := by decide
  rw [hbytes]
  exact decodePath_bare (by decide) (by decide)

/-- The row key of the room with that name, as it is not stored. -/
def bareKey : Bytes := ofCollection ⟨["rooms"]⟩ ++ bareName

theorem documentId_bareKey : documentId bareKey (ofCollection ⟨["rooms"]⟩) = .ok "\x00" :=
  documentId_append_eq_ok_iff.mpr decodePath_bareName

theorem keyOfRow_bareKey :
    Cache.keyOfRow ⟨["rooms"]⟩ bareKey = .ok (.topLevel "rooms" "\x00") := by
  rw [Cache.keyOfRow, documentId_bareKey]
  rfl

/-- The room with the name and the rooms with a plain one, by their stored forms. -/
theorem accepted_spelling_bareKey :
    encodePath ⟨["\x00"]⟩ = escapeMarks bareName ∧ encodePath ⟨["\x00"]⟩ ≠ bareName ∧
      [97, 0x01, 0x01] = encodePath ⟨["a"]⟩ ∧
      bareKey ≠ ofDocument (.topLevel "rooms" "\x00") ∧
      ofDocument (.topLevel "rooms" "\x00") = ofCollection ⟨["rooms"]⟩ ++ escapeMarks bareName := by
  have hbare : 0x00 ∈ bareName := List.mem_cons_self ..
  have hplain : decodePath [97, 0x01, 0x01] = .ok ⟨["a"]⟩ :=
    have hbytes : Utf8.encode "a" ++ [escape, separatorCode] = [97, 0x01, 0x01] := by decide
    hbytes ▸ decodePath_bare (by decide) (by decide)
  have hstored : decodePath (encodePath ⟨["a"]⟩) = .ok ⟨["a"]⟩ :=
    decodePath_encodePath (by decide)
  obtain ⟨hescaped, hcanonical, -⟩ := (accepted_spelling bareName).1 _ decodePath_bareName
  obtain ⟨-, -, hsame⟩ := (accepted_spelling (encodePath ⟨["a"]⟩)).1 _ hstored
  obtain ⟨-, hname, hrow⟩ := accepted_spelling bareKey
  obtain ⟨name, hkey, -, hdocument⟩ := hname _ _ documentId_bareKey
  obtain rfl := List.append_cancel_left hkey
  obtain ⟨other, hother, hform, -⟩ := hrow _ _ keyOfRow_bareKey
  obtain rfl := List.append_cancel_left hother
  refine ⟨hescaped, fun h => hcanonical.mp h hbare, ?_, ?_, hform⟩
  · exact hsame _ hplain (partitionMark_notMem_encodePath _) (by decide)
  · exact fun h => (hdocument (.topLevel "rooms" "\x00") rfl).mp h hbare

/-- Two byte strings are read as the same path, and a scan finds a document under a row key that
is not its own. -/
theorem bare_mark_accepted :
    decodePath [0x00, 0x01, 0x01] = .ok ⟨["\x00"]⟩ ∧
      encodePath ⟨["\x00"]⟩ ≠ [0x00, 0x01, 0x01] ∧
      decodePath (encodePath ⟨["\x00"]⟩) = .ok ⟨["\x00"]⟩ ∧
      Cache.keyOfRow ⟨["rooms"]⟩ bareKey = .ok (.topLevel "rooms" "\x00") ∧
      bareKey ≠ ofDocument (.topLevel "rooms" "\x00") := by
  have hstored : decodePath (encodePath ⟨["\x00"]⟩) = .ok ⟨["\x00"]⟩ :=
    decodePath_encodePath (by decide)
  exact ⟨decodePath_bareName, by decide, hstored, keyOfRow_bareKey, by decide⟩

end DocumentCache.RowKey
