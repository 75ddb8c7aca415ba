import DocumentCache.Proofs.Cache.WorkingCaches
import DocumentCache.Proofs.Journal.OversizedPuts

/-!
# Rows that are too long

Nothing bounds the row of a document.  One that is longer than a log record can say is
added like any other and can be looked up, but its record is cut where the length that is
written ends: unless the bytes there happen to be the right checksum, the directory can
never be opened again.  There are documents with rows of every length from some length on.
-/

namespace DocumentCache

/-- A text of one letter, over and over. -/
def lettersX (count : Nat) : String := String.ofList (List.replicate count 'x')

theorem Utf8.encode_lettersX (count : Nat) :
    encode (lettersX count) = List.replicate count 0x78 := by
  induction count with
  | zero => rfl
  | succ count ih =>
      have hsplit : lettersX (count + 1) = "x" ++ lettersX count := by
        change String.ofList (['x'] ++ List.replicate count 'x') = _
        exact String.ofList_append
      rw [hsplit, encode_append, ih]
      rfl

namespace Cache

open Shell (FileCache)

/-! ## Adds -/

section Adds

variable {cache : FileCache} {short : Prop}

theorem Works.quiet (h : cache.Works short) : cache.engine.engine.Quiet := by
  obtain ⟨operations, hsync, -⟩ := h.synced
  exact ⟨⟨_, hsync.log_eq⟩, hsync.attached_eq, h.calm⟩

theorem Works.sound (h : cache.Works short) (hshort : short) : cache.engine.engine.Sound := by
  obtain ⟨operations, hsync, hall⟩ := h.synced
  exact ⟨⟨operations, hsync, hall hshort⟩, h.calm⟩

/-- A document whose row is too long and cut at the wrong place is added, and its directory is
refused from then on. -/
theorem Works.add_refuses (h : cache.Works short) (hshort : short) {document : Document}
    {readTime : ReadTime} {rowKey row : Bytes}
    (hencode : encodeRow cache.codec document readTime = .ok (rowKey, row))
    (hcheck : cache.checkAdd document.key readTime rowKey = .ok ())
    (hkey : rowKey.length < wordRange 4) (hrow : wordRange 4 ≤ row.length)
    (hcut : Operation.CutWrong rowKey row) {next : Settings} (hnext : next.validate = .ok ()) :
    let after := (cache.add document readTime).2
    (cache.add document readTime).1 = .ok () ∧
      Engine.openOn next (Shell.diskOf after) =
        .error (.recoveryFailed .recordChecksum, Shell.diskOf after) := by
  obtain ⟨engine, htakes, -⟩ := h.quiet.takesPut rowKey row
  obtain ⟨counters, hwrite⟩ := writeRow_of_accepted row h.usable hcheck
  rw [SharedEngine.put_eq h.usable, htakes.put_eq] at hwrite
  simp only [Cache.add, hencode, hwrite]
  exact ⟨trivial, htakes.refused (h.sound hshort) hkey hrow hcut next hnext⟩

end Adds

/-! ## Documents with long rows -/

/-- The document `name` of the collection `notes`. -/
def noteKey (name : String) : DocumentKey := .topLevel "notes" name

/-- A note with one field, whose name has this many letters. -/
def wordyNote (letters : Nat) : Document :=
  .found (noteKey "wordy") (.ofSeconds 6) (.ofEntries [(lettersX letters, .integer 1)])
    (.ofSeconds 6)

/-- The row of a wordy note read at its own time. -/
def wordyRow (letters : Nat) : Bytes :=
  (Row.ofReadTime (.ofSeconds 6) (Payload.frame (Payload.foundBody (noteKey "wordy") (.ofSeconds 6)
    (.ofEntries [(lettersX letters, .integer 1)])))).encode

theorem encodeRow_wordyNote (letters : Nat) :
    encodeRow Payload.codec (wordyNote letters) (.ofSeconds 6) =
      .ok (RowKey.ofDocument (noteKey "wordy"), wordyRow letters) :=
  encodeRow_of_encode (by decide) rfl rfl

theorem length_wordyRow (letters : Nat) : (wordyRow letters).length = letters + 104 := by
  have hentries : (Fields.ofEntries [(lettersX letters, .integer 1)]).entries =
      [(lettersX letters, .integer 1)] := rfl
  have hpath : (Wire.path (noteKey "wordy").path).length = 34 := by decide
  simp only [wordyRow, Row.encode, Row.ofReadTime, Wire.blob, Wire.int64, Wire.int32,
    Payload.foundBody, Wire.readTime, Wire.fields, hentries, Wire.valueEntries, Wire.text,
    Wire.value, Wire.length, Wire.tag, List.length_append, littleEndian_length,
    Payload.length_frame, hpath, Utf8.encode_lettersX, List.length_replicate, List.length_nil]
  omega

/-- What stands at the beginning of the row is no checksum of the record without a value. -/
theorem cutWrong_wordyRow {letters : Nat} (h : (wordyRow letters).length = wordRange 4) :
    Operation.CutWrong (RowKey.ofDocument (noteKey "wordy")) (wordyRow letters) := by
  have hsaid : Operation.saidLength (wordyRow letters) = 0 := by
    rw [Operation.saidLength, h, Nat.mod_self]
  have hfront : (wordyRow letters).take 4 = [6, 0, 0, 0] := by
    have hseconds : Wire.int64 (Int64.ofNat 6) = [6, 0, 0, 0, 0, 0, 0, 0] := by decide
    rw [wordyRow, Row.encode, List.append_assoc]
    change (Wire.int64 (Int64.ofNat 6) ++ _).take 4 = _
    rw [hseconds]
    rfl
  rw [Operation.cutWrong_iff_of_said_empty hsaid, hfront]
  decide +kernel

end Cache

end DocumentCache
