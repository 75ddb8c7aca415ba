import DocumentCache.Format.Payload
import DocumentCache.Proofs.Format.AcceptedBytes
import DocumentCache.Proofs.Format.RowKeys

/-!
# Documents in payloads

A payload holds a document when its body is the stored form of the document, with the
entries of its data in any order and any bytes behind it.  Exactly the payloads that
hold a document are read.  A known document is stored in a payload that holds it,
unless its key has an empty segment or something in it is too long for its stored
length.
-/

namespace DocumentCache

/-! ## Read times -/

namespace ReadTime

theorem ofParts_ofNat (time : ReadTime) :
    ofParts (Int64.ofNat time.seconds) (Int32.ofNat time.nanos) = .ok time := by
  have hnanos := time.nanos_lt
  have hseconds : (Int64.ofNat time.seconds).toInt = time.seconds :=
    Int64.toInt_ofNat_of_lt time.seconds_lt
  have hparts : (Int32.ofNat time.nanos).toInt = time.nanos :=
    Int32.toInt_ofNat_of_lt (by omega)
  simp only [ofParts, hseconds, hparts]
  rw [dif_pos (by omega), dif_pos (by omega)]
  simp

theorem ofParts_eq_ok_iff {seconds : Int64} {nanos : Int32} {time : ReadTime} :
    ofParts seconds nanos = .ok time ↔
      seconds = Int64.ofNat time.seconds ∧ nanos = Int32.ofNat time.nanos := by
  refine ⟨fun h => ?_, fun h => h.1 ▸ h.2 ▸ ofParts_ofNat time⟩
  unfold ofParts at h
  split at h
  · next hnanos =>
      split at h
      · next hseconds =>
          obtain rfl := Except.ok.inj h
          have hlt := seconds.toInt_lt
          constructor
          · refine Int64.toInt_inj.mp ?_
            rw [Int64.toInt_ofNat_of_lt (by dsimp only; omega)]
            exact (Int.toNat_of_nonneg hseconds).symm
          · refine Int32.toInt_inj.mp ?_
            rw [Int32.toInt_ofNat_of_lt (by dsimp only; omega)]
            exact (Int.toNat_of_nonneg hnanos.1).symm
      · cases h
  · cases h

end ReadTime

/-- The two columns of a read time are stored as signed numbers. -/
theorem Wire.readTime_eq (time : ReadTime) :
    readTime time = int64 (Int64.ofNat time.seconds) ++ int32 (Int32.ofNat time.nanos) := by
  have hseconds : (UInt64.ofNat time.seconds).toNat = time.seconds :=
    UInt64.toNat_ofNat_of_lt' (Nat.lt_trans time.seconds_lt (by decide))
  have hnanos : (UInt32.ofNat time.nanos).toNat = time.nanos :=
    UInt32.toNat_ofNat_of_lt' (Nat.lt_trans time.nanos_lt (by decide))
  rw [readTime, int64, int32, Int64.toUInt64_ofNat', Int32.toUInt32_ofNat', hseconds, hnanos]

/-! ## Paths -/

/-- The number of segments and the length of each can be stored. -/
def Path.Fits (path : Path) : Prop :=
  path.segments.length < wordRange 8 ∧
    ∀ segment ∈ path.segments, (Utf8.encode segment).length < wordRange 8

theorem Wire.length_encode_le {segments : List String} {segment : String}
    (hmem : segment ∈ segments) :
    (Utf8.encode segment).length ≤ (segments.flatMap text).length := by
  induction segments with
  | nil => cases hmem
  | cons head rest ih =>
      rw [List.flatMap_cons, List.length_append]
      rcases List.mem_cons.mp hmem with rfl | hrest
      · simp only [text, List.length_append]
        omega
      · have hle := ih hrest
        omega

/-- Every segment takes bytes of its own. -/
theorem Wire.length_le_flatMap_text (segments : List String) :
    segments.length ≤ (segments.flatMap text).length := by
  induction segments with
  | nil => exact Nat.le_refl _
  | cons head rest ih =>
      simp only [List.flatMap_cons, List.length_cons, text, List.length_append, length_length]
      omega

theorem Path.fits_of_length {path : Path} (h : (Wire.path path).length < wordRange 8) :
    path.Fits := by
  simp only [Wire.path, List.length_append] at h
  have hsegments : (path.segments.flatMap Wire.text).length < wordRange 8 := by omega
  have hcount := Wire.length_le_flatMap_text path.segments
  refine ⟨Nat.lt_of_le_of_lt hcount hsegments, fun segment hmem => ?_⟩
  exact Nat.lt_of_le_of_lt (Wire.length_encode_le hmem) hsegments

namespace Payload

open Reader

theorem reads_path {path : Path} (hfits : path.Fits) : Reads readPath (Wire.path path) path := by
  have hitems : ∀ segment ∈ path.segments, Reads text (Wire.text segment) segment :=
    fun segment hmem => reads_text (hfits.2 segment hmem)
  exact (reads_sequence hfits.1 (reads_replicate hitems)).returning Path.mk

theorem takes_path : Takes readPath Wire.path Path.Fits := by
  intro input rest path h
  obtain ⟨segments, rfl, hfits, rfl⟩ := (takes_sequence takes_text).exists_of_returning h
  exact ⟨hfits, rfl⟩

/-! ## Bodies -/

/-- These bytes are the stored form of a body, with the entries of its data in any order. -/
inductive Written : Body → Bytes → Prop where
  | found {path : Path} {entries : List (String × Value)} (seconds : Int64) (nanos : Int32)
      (hpath : path.Fits) (hentries : (Value.map entries).Fits) :
      Written (.found path seconds nanos (Fields.ofEntries entries))
        (Wire.tag 0 ++ (Wire.path path ++ (Wire.int64 seconds ++
          (Wire.int32 nanos ++ Wire.entries entries))))
  | deleted {path : Path} (seconds : Int64) (nanos : Int32) (hpath : path.Fits) :
      Written (.deleted path seconds nanos)
        (Wire.tag 1 ++ (Wire.path path ++ (Wire.int64 seconds ++ Wire.int32 nanos)))

theorem Written.reads {stored : Body} {bytes : Bytes} (h : Written stored bytes) :
    Reads readBody bytes stored := by
  have hkind : ∀ {kind : Nat}, kind < 2 → Reads (choice 2) (Wire.tag kind) kind :=
    fun hlt => reads_choice hlt (by decide)
  cases h with
  | found seconds nanos hpath hentries =>
      refine (hkind (by decide)).bind ((reads_path hpath).bind ?_)
      refine (reads_int64 seconds).bind ((reads_int32 nanos).bind ?_)
      exact (reads_fields hentries).returning _
  | deleted seconds nanos hpath =>
      refine (hkind (by decide)).bind ((reads_path hpath).bind ?_)
      exact (reads_int64 seconds).bind ((reads_int32 nanos).returning _)

/-- A body is read from nothing but a stored form of it. -/
theorem exists_written {input rest : Bytes} {stored : Body}
    (h : readBody input = .ok (stored, rest)) :
    ∃ bytes, Written stored bytes ∧ input = bytes ++ rest := by
  obtain ⟨kind, afterKind, hkind, rfl, hbody⟩ := (takes_choice 2).exists_of_bind h
  have hkind : kind < 2 := hkind
  split at hbody
  · obtain ⟨path, afterPath, hpath, rfl, hversion⟩ := takes_path.exists_of_bind hbody
    obtain ⟨seconds, afterSeconds, -, rfl, hnanos⟩ := takes_int64.exists_of_bind hversion
    obtain ⟨nanos, afterNanos, -, rfl, hdata⟩ := takes_int32.exists_of_bind hnanos
    obtain ⟨data, middle, hfields, hlast⟩ := exists_of_bind hdata
    obtain ⟨entries, rfl, hentries, rfl⟩ := exists_entries_of_fields hfields
    obtain ⟨rfl, rfl⟩ := Prod.mk.inj (Except.ok.inj hlast)
    exact ⟨_, .found seconds nanos hpath hentries, by simp only [List.append_assoc]⟩
  · -- Of the two tags only that of a deleted document is left.
    obtain rfl : kind = 1 := by grind
    obtain ⟨path, afterPath, hpath, rfl, hversion⟩ := takes_path.exists_of_bind hbody
    obtain ⟨seconds, afterSeconds, -, rfl, hnanos⟩ := takes_int64.exists_of_bind hversion
    obtain ⟨nanos, rfl, -, rfl⟩ := takes_int32.exists_of_returning hnanos
    exact ⟨_, .deleted seconds nanos hpath, by simp only [List.append_assoc]⟩

theorem restoreKey_eq_ok_iff {path : Path} {key : DocumentKey} :
    restoreKey path = .ok key ↔ path = key.path ∧ key.Named := by
  unfold restoreKey
  constructor
  · intro h
    split at h
    · cases h
    · next checked hchecked =>
        obtain ⟨rfl, hnamed⟩ := Path.ofSegments_eq_ok_iff.mp hchecked
        obtain rfl : path = key.path :=
          DocumentKey.ofPath_eq_ok_iff.mp (mapError_eq_ok_iff.mp h)
        exact ⟨rfl, hnamed⟩
  · rintro ⟨rfl, hnamed⟩
    rw [Path.ofSegments_eq_ok_iff.mpr ⟨rfl, hnamed⟩]
    exact mapError_eq_ok_iff.mpr key.ofPath_path

theorem restoreVersion_eq_ok_iff {seconds : Int64} {nanos : Int32} {version : ReadTime} :
    restoreVersion seconds nanos = .ok version ↔
      seconds = Int64.ofNat version.seconds ∧ nanos = Int32.ofNat version.nanos :=
  mapError_eq_ok_iff.trans ReadTime.ofParts_eq_ok_iff

/-- What is made of a stored key and version is made of those that they are checked to be. -/
theorem restored_eq_ok_iff {path : Path} {seconds : Int64} {nanos : Int32}
    {make : DocumentKey → ReadTime → Document} {document : Document} :
    (do return make (← restoreKey path) (← restoreVersion seconds nanos)) = .ok document ↔
      ∃ key version, (path = key.path ∧ key.Named) ∧
        (seconds = Int64.ofNat version.seconds ∧ nanos = Int32.ofNat version.nanos) ∧
        document = make key version := by
  rw [bind_eq_ok_iff]
  refine exists_congr fun key => ?_
  rw [restoreKey_eq_ok_iff, bind_eq_ok_iff, ← exists_and_left]
  refine exists_congr fun version => and_congr_right fun _ => ?_
  rw [restoreVersion_eq_ok_iff]
  exact and_congr_right fun _ => ⟨fun h => (Except.ok.inj h).symm, fun h => h ▸ rfl⟩

/-! ## Frames -/

theorem unframe_frame (body : Bytes) : unframe (frame body) = .ok body := by
  have hlength : (frame body).length - 4 = (mark :: format :: body).length := by
    rw [frame, List.length_append, Checksum.trailer_length]
    omega
  have hframed : (frame body).take ((frame body).length - 4) = mark :: format :: body := by
    rw [hlength]
    exact List.take_left
  have hstored : (frame body).drop ((frame body).length - 4) =
      Checksum.trailer (mark :: format :: body) := by
    rw [hlength]
    exact List.drop_left
  simp only [unframe, hframed, hstored, ne_eq, not_true_eq_false, if_false]

theorem unframe_eq_ok_iff {payload body : Bytes} :
    unframe payload = .ok body ↔ payload = frame body := by
  refine ⟨fun h => ?_, fun h => h ▸ unframe_frame body⟩
  have hpayload := List.take_append_drop (payload.length - 4) payload
  simp only [unframe] at h
  split at h
  · next first second rest hframed =>
      simp only [ne_eq, ite_not] at h
      split at h
      · split at h
        · split at h
          · next hmark hformat hchecksum =>
              obtain rfl := Except.ok.inj h
              rw [← hpayload, ← hchecksum, hframed, hmark, hformat]
              rfl
          · cases h
        · cases h
      · cases h
  · cases h

/-- A frame puts six bytes around its body. -/
theorem length_frame (body : Bytes) : (frame body).length = body.length + 6 := by
  simp only [frame, List.length_append, List.length_cons, Checksum.trailer_length]

/-! ## Payloads -/

/-- The payload holds the document: its body is a stored form of it, with the entries of
the data in any order, and bytes that do not count. -/
inductive Holds : Bytes → Document → Prop where
  | found {key : DocumentKey} {entries : List (String × Value)} (version : ReadTime)
      (behind : Bytes) (hnamed : key.Named) (hpath : key.path.Fits)
      (hentries : (Value.map entries).Fits) :
      Holds
        (frame (Wire.tag 0 ++ Wire.path key.path ++ Wire.readTime version ++
          Wire.entries entries ++ behind))
        (.found key version (Fields.ofEntries entries) .never)
  | deleted {key : DocumentKey} (version : ReadTime) (behind : Bytes) (hnamed : key.Named)
      (hpath : key.path.Fits) :
      Holds (frame (Wire.tag 1 ++ Wire.path key.path ++ Wire.readTime version ++ behind))
        (.deleted key version .never)

/-- A payload is read when its body is a stored form of one that can be restored. -/
theorem decode_eq_ok_iff_written {payload : Bytes} {document : Document} :
    decode payload = .ok document ↔
      ∃ stored bytes behind, Written stored bytes ∧ stored.restore = .ok document ∧
        payload = frame (bytes ++ behind) := by
  rw [decode, bind_eq_ok_iff]
  constructor
  · rintro ⟨body, hframe, h⟩
    obtain ⟨⟨stored, behind⟩, hread, hrestore⟩ := bind_eq_ok_iff.mp h
    obtain ⟨bytes, hwritten, rfl⟩ := exists_written (mapError_eq_ok_iff.mp hread)
    exact ⟨stored, bytes, behind, hwritten, hrestore, unframe_eq_ok_iff.mp hframe⟩
  · rintro ⟨stored, bytes, behind, hwritten, hrestore, rfl⟩
    refine ⟨bytes ++ behind, unframe_frame _, bind_eq_ok_iff.mpr ⟨(stored, behind), ?_, hrestore⟩⟩
    exact mapError_eq_ok_iff.mpr (hwritten.reads behind)

/-- Exactly the payloads that hold a document are read. -/
theorem decode_eq_ok_iff {payload : Bytes} {document : Document} :
    decode payload = .ok document ↔ Holds payload document := by
  rw [decode_eq_ok_iff_written]
  constructor
  · rintro ⟨stored, bytes, behind, hwritten, hrestore, rfl⟩
    cases hwritten with
    | found seconds nanos hpath hentries =>
        obtain ⟨key, version, ⟨rfl, hnamed⟩, ⟨rfl, rfl⟩, rfl⟩ := restored_eq_ok_iff.mp hrestore
        have hholds := Holds.found version behind hnamed hpath hentries
        simpa only [Wire.readTime_eq, List.append_assoc] using hholds
    | deleted seconds nanos hpath =>
        obtain ⟨key, version, ⟨rfl, hnamed⟩, ⟨rfl, rfl⟩, rfl⟩ := restored_eq_ok_iff.mp hrestore
        have hholds := Holds.deleted version behind hnamed hpath
        simpa only [Wire.readTime_eq, List.append_assoc] using hholds
  · intro h
    cases h with
    | found version behind hnamed hpath hentries =>
        refine ⟨_, _, behind, .found _ _ hpath hentries, restored_eq_ok_iff.mpr
          ⟨_, version, ⟨rfl, hnamed⟩, ⟨rfl, rfl⟩, rfl⟩, ?_⟩
        simp only [Wire.readTime_eq, List.append_assoc]
    | deleted version behind hnamed hpath =>
        refine ⟨_, _, behind, .deleted _ _ hpath, restored_eq_ok_iff.mpr
          ⟨_, version, ⟨rfl, hnamed⟩, ⟨rfl, rfl⟩, rfl⟩, ?_⟩
        simp only [Wire.readTime_eq, List.append_assoc]

/-- A payload never holds a document whose key has an empty segment. -/
theorem named_of_decode {contents : Bytes} {document : Document}
    (h : decode contents = .ok document) : document.key.Named := by
  cases decode_eq_ok_iff.mp h with
  | found version behind hnamed hpath hentries => exact hnamed
  | deleted version behind hnamed hpath => exact hnamed

end Payload

/-! ## Payloads that were written -/

/-- Every length in the key and in the data of the document can be stored. -/
def Document.Fits (document : Document) : Prop :=
  document.key.path.Fits ∧ ∀ data, document.data? = some data → data.Fits

namespace Payload

theorem isKnown_of_encode {document : Document} {contents : Bytes}
    (hencode : encode document = .ok contents) : document.isKnown = true := by
  cases document with
  | found _ _ _ _ => rfl
  | deleted _ _ _ => rfl
  | unknown _ => cases hencode

/-- A known document is accepted for storage. -/
theorem exists_encode_of_known {document : Document} (hknown : document.isKnown = true) :
    ∃ contents, encode document = .ok contents := by
  cases document with
  | found _ _ _ _ => exact ⟨_, rfl⟩
  | deleted _ _ _ => exact ⟨_, rfl⟩
  | unknown _ => cases hknown

theorem fits_of_encode {document : Document} {contents : Bytes}
    (hencode : encode document = .ok contents) (hrange : contents.length < wordRange 8) :
    document.Fits := by
  cases document with
  | found key version data readTime =>
      obtain rfl := Except.ok.inj hencode
      simp only [length_frame, foundBody, List.length_append] at hrange
      have hpath : key.path.Fits := Path.fits_of_length (by omega)
      have hdata : data.Fits := Fields.fits_of_length (by omega)
      exact ⟨hpath, fun held hheld => Option.some.inj hheld ▸ hdata⟩
  | deleted key version readTime =>
      obtain rfl := Except.ok.inj hencode
      simp only [length_frame, deletedBody, List.length_append] at hrange
      have hpath : key.path.Fits := Path.fits_of_length (by omega)
      exact ⟨hpath, fun held hheld => by cases hheld⟩
  | unknown key => cases hencode

/-- What a known document is stored in holds it. -/
theorem holds_of_encode {document : Document} {contents : Bytes} (hnamed : document.key.Named)
    (hfits : document.Fits) (hencode : encode document = .ok contents) :
    Holds contents (document.withReadTime .never) := by
  cases document with
  | found key version data readTime =>
      obtain rfl := Except.ok.inj hencode
      have hholds := Holds.found version [] hnamed hfits.1 (hfits.2 data rfl)
      rwa [Fields.ofEntries_entries, List.append_nil] at hholds
  | deleted key version readTime =>
      obtain rfl := Except.ok.inj hencode
      have hholds := Holds.deleted version [] hnamed hfits.1
      rwa [List.append_nil] at hholds
  | unknown key => cases hencode

/-- The payload of a known document is read back as the document, read at no time. -/
theorem decode_encode {document : Document} {contents : Bytes} (hnamed : document.key.Named)
    (hfits : document.Fits) (hencode : encode document = .ok contents) :
    decode contents = .ok (document.withReadTime .never) :=
  decode_eq_ok_iff.mpr (holds_of_encode hnamed hfits hencode)

theorem decodeAt_encode {document : Document} {contents : Bytes} (hnamed : document.key.Named)
    (hfits : document.Fits) (hencode : encode document = .ok contents) (readTime : ReadTime) :
    codec.decodeAt contents readTime = .ok (document.withReadTime readTime) := by
  have hdecode := decode_encode hnamed hfits hencode
  have hknown := isKnown_of_encode hencode
  simp only [Codec.decodeAt, codec, hdecode, mapError_ok, Document.isKnown_withReadTime, hknown,
    if_true, Document.withReadTime_withReadTime]

/-- A known document whose key has no empty segment is stored and read back the same, whatever
its data and the time at which it is read; no codec stores an unknown one. -/
theorem decodeAt_encodeKnown :
    (∀ document : Document, document.isKnown = true → document.key.Named → document.Fits →
      ∃ contents, codec.encodeKnown document = .ok contents ∧
        ∀ readTime, codec.decodeAt contents readTime = .ok (document.withReadTime readTime)) ∧
    ∀ (codec : Codec) (key : DocumentKey),
      codec.encodeKnown (.unknown key) = .error (.invalidArgument (.unknownDocument key)) := by
  refine ⟨fun document hknown hnamed hfits => ?_, fun codec key => rfl⟩
  obtain ⟨contents, hencode⟩ := exists_encode_of_known hknown
  refine ⟨contents, ?_, decodeAt_encode hnamed hfits hencode⟩
  rw [Codec.encodeKnown, if_pos hknown]
  exact hencode

/-- A document with values of every kind, one without a name and others three levels deep. -/
def everyKind : Document :=
  .found (.topLevel "rooms" "1") .never
    (.ofEntries
      [("", .double 0x7FF8000000000001), ("blob", .blob [0, 255]), ("flag", .boolean true),
        ("list", .array [.null, .map [("", .array []), ("x", .integer (-1))]]),
        ("text", .text "é")])
    .never

theorem fits_everyKind : everyKind.Fits := by
  have hpath : (Wire.path everyKind.key.path).length < wordRange 8 := by decide
  refine ⟨Path.fits_of_length hpath, fun data hdata => ?_⟩
  obtain rfl := Option.some.inj hdata
  exact Fields.fits_of_length (by decide +kernel)

theorem decodeAt_encodeKnown_everyKind :
    everyKind.isKnown = true ∧ everyKind.key.Named ∧ everyKind.Fits ∧
      ∃ contents, codec.encodeKnown everyKind = .ok contents ∧
        ∀ readTime, codec.decodeAt contents readTime = .ok (everyKind.withReadTime readTime) := by
  have hnamed : everyKind.key.Named := DocumentKey.named_topLevel (by decide) (by decide)
  exact ⟨rfl, hnamed, fits_everyKind, decodeAt_encodeKnown.1 everyKind rfl hnamed fits_everyKind⟩

end Payload

end DocumentCache
