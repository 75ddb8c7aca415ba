import DocumentCache.Proofs.Checksums
import DocumentCache.Proofs.Format.Payloads

/-!
# Damaged payloads

A payload ends in the checksum of all before it, so it is no payload any more when it is
changed within four bytes in a row.  A payload that was cut short may end, by chance, in
the checksum of what is left before these bytes.  It is refused all the same: no stored
body is the beginning of another one, so that what is left of the body ends too early.
-/

namespace DocumentCache.Payload

open Reader

/-! ## Changed bytes -/

theorem checked_frame (body : Bytes) : Checksum.Checked (frame body) :=
  ⟨mark :: format :: body, rfl⟩

theorem exists_frame_of_encode {document : Document} {contents : Bytes}
    (hencode : encode document = .ok contents) : ∃ body, contents = frame body := by
  cases document with
  | found key version data readTime => exact ⟨_, (Except.ok.inj hencode).symm⟩
  | deleted key version readTime => exact ⟨_, (Except.ok.inj hencode).symm⟩
  | unknown key => cases hencode

/-- What is not framed is refused as a corrupt record. -/
theorem exists_fault_of_not_frame {payload : Bytes} (hframe : ∀ body, payload ≠ frame body) :
    ∃ fault, codec.decode payload = .error (.corruptRecord fault) := by
  have hcorrupt : FailsCorrupt (codec.decode payload) :=
    FailsCorrupt.mapError (decode payload) id
  refine hcorrupt.exists_fault fun document hread => ?_
  obtain ⟨body, hbody, -⟩ := bind_eq_ok_iff.mp (mapError_eq_ok_iff.mp hread)
  exact hframe body (unframe_eq_ok_iff.mp hbody)

/-- A payload that is changed within four bytes in a row is refused, wherever these stand. -/
theorem burst_refused {document : Document} {contents damaged : Bytes}
    (hencode : codec.encode document = .ok contents)
    (hburst : Checksum.Burst contents damaged) :
    ∃ fault, codec.decode damaged = .error (.corruptRecord fault) := by
  obtain ⟨body, rfl⟩ := exists_frame_of_encode hencode
  refine exists_fault_of_not_frame fun other hframe => ?_
  have hchecked : Checksum.Checked damaged := hframe ▸ checked_frame other
  exact (checked_frame body).not_of_burst hburst hchecked

/-- The deletion of a document in a collection at the top, at no version. -/
def tombstone : Document := .deleted (.topLevel "a" "b") .never .never

/-- The last two bytes of a body and the first two of its checksum are changed. -/
theorem burst_refused_tombstone :
    ∃ contents fault, codec.encode tombstone = .ok contents ∧
      Checksum.Burst contents (contents.take 42 ++ ([1, 0, 255, 81] ++ contents.drop 46)) ∧
      codec.decode (contents.take 42 ++ ([1, 0, 255, 81] ++ contents.drop 46)) =
        .error (.corruptRecord fault) := by
  let contents := frame (deletedBody (.topLevel "a" "b") .never)
  have hencode : codec.encode tombstone = .ok contents := rfl
  have hburst : Checksum.Burst contents
      (contents.take 42 ++ ([1, 0, 255, 81] ++ contents.drop 46)) := by
    refine Checksum.burst_iff.mpr
      ⟨contents.take 42, (contents.drop 42).take 4, _, contents.drop 46, ?_, rfl, ?_, ?_, ?_⟩
    all_goals decide +kernel
  obtain ⟨fault, hfault⟩ := burst_refused hencode hburst
  exact ⟨contents, fault, hencode, hburst, hfault⟩

/-! ## Missing bytes -/

/-- No stored body is the beginning of another one. -/
theorem Written.eq_of_prefix {stored other : Body} {bytes front : Bytes}
    (h : Written stored bytes) (hfront : Written other front) (hbegins : front <+: bytes) :
    front = bytes := by
  obtain ⟨more, rfl⟩ := hbegins
  have hwhole := h.reads []
  rw [List.append_nil, hfront.reads more] at hwhole
  obtain ⟨-, rfl⟩ := Prod.mk.inj (Except.ok.inj hwhole)
  exact (List.append_nil front).symm

/-- A known document is stored as a frame around its stored form. -/
theorem exists_written_of_encode {document : Document} {contents : Bytes}
    (hfits : document.Fits) (hencode : encode document = .ok contents) :
    ∃ stored bytes, Written stored bytes ∧ contents = frame bytes := by
  cases document with
  | found key version data readTime =>
      obtain rfl := Except.ok.inj hencode
      have hdata : (Value.map data.entries).Fits := hfits.2 data rfl
      refine ⟨_, _, .found (Int64.ofNat version.seconds) (Int32.ofNat version.nanos) hfits.1
        hdata, ?_⟩
      simp only [foundBody, Document.key, Wire.readTime_eq, Wire.fields, Wire.entries,
        List.append_assoc]
  | deleted key version readTime =>
      obtain rfl := Except.ok.inj hencode
      refine ⟨_, _, .deleted (Int64.ofNat version.seconds) (Int32.ofNat version.nanos) hfits.1,
        ?_⟩
      simp only [deletedBody, Document.key, Wire.readTime_eq, List.append_assoc]
  | unknown key => cases hencode

/-- The bodies of frames are cut as the frames are. -/
theorem prefix_of_prefix_frame {front body : Bytes} (h : frame front <+: frame body) :
    front <+: body := by
  have hlength := h.length_le
  rw [length_frame, length_frame] at hlength
  have hframed : mark :: format :: front <+: frame body := (List.prefix_append _ _).trans h
  have hwhole : mark :: format :: body <+: frame body := List.prefix_append _ _
  have hshorter : (mark :: format :: front).length ≤ (mark :: format :: body).length := by
    simp only [List.length_cons]
    omega
  have hboth := List.prefix_of_prefix_length_le hframed hwhole hshorter
  exact (List.cons_prefix_cons.mp (List.cons_prefix_cons.mp hboth).2).2

/-- A body that ends too early cannot be read, even if its frame is right. -/
theorem decode_frame_of_prefix {stored : Body} {bytes front : Bytes} (h : Written stored bytes)
    (hbegins : front <+: bytes) (hcut : front ≠ bytes) :
    ∃ cause, decode (frame front) = .error (.wire cause) := by
  cases hread : readBody front with
  | error cause =>
      refine ⟨cause, ?_⟩
      rw [decode, unframe_frame]
      change ((readBody front).mapError Corruption.wire >>= _) = _
      rw [hread]
      rfl
  | ok result =>
      obtain ⟨other, rest⟩ := result
      obtain ⟨taken, htaken, rfl⟩ := exists_written hread
      have hwhole := h.eq_of_prefix htaken ((List.prefix_append taken rest).trans hbegins)
      subst hwhole
      exact absurd (hbegins.eq_of_length_le (by rw [List.length_append]; omega)) hcut

/-- A payload of which bytes are missing at the end is refused.  If it ends in the checksum of
what is left before, the reason is that the document in it cannot be read. -/
theorem truncated_payload_refused {document : Document} {contents front : Bytes}
    (hfits : document.Fits) (hencode : codec.encode document = .ok contents)
    (hbegins : front <+: contents) (hcut : front ≠ contents) :
    ∃ fault, codec.decode front = .error (.corruptRecord fault) ∧
      ((∃ body, front = frame body) → ∃ cause, fault = .wire cause) := by
  by_cases hframe : ∃ body, front = frame body
  · obtain ⟨body, rfl⟩ := hframe
    obtain ⟨stored, bytes, hwritten, rfl⟩ := exists_written_of_encode hfits hencode
    have hbody : body ≠ bytes := fun hsame => hcut (congrArg frame hsame)
    obtain ⟨cause, hread⟩ :=
      decode_frame_of_prefix hwritten (prefix_of_prefix_frame hbegins) hbody
    refine ⟨.wire cause, ?_, fun _ => ⟨cause, rfl⟩⟩
    change (decode (frame body)).mapError Error.corruptRecord = _
    rw [hread]
    rfl
  · obtain ⟨fault, hfault⟩ := exists_fault_of_not_frame (not_exists.mp hframe)
    exact ⟨fault, hfault, fun hframed => absurd hframed hframe⟩

/-- A body that ends in the checksum due before that end has a frame within its frame. -/
theorem frame_prefix_frame (body : Bytes) :
    frame body <+: frame (body ++ Checksum.trailer (mark :: format :: body)) := by
  refine ⟨Checksum.trailer (mark :: format :: body ++
    Checksum.trailer (mark :: format :: body)), ?_⟩
  simp only [frame, List.cons_append, List.append_assoc]

/-- What is stored of a document before the content of its only value. -/
def luckyBody : Bytes :=
  Wire.tag 0 ++ Wire.path ⟨["a", "b"]⟩ ++ Wire.readTime .never ++
    (Wire.length 1 ++ (Wire.text "" ++ (Wire.tag 5 ++ Wire.length 4)))

/-- A document whose only value is the checksum due for what is stored before that. -/
def luckyNote : Document :=
  .found (.topLevel "a" "b") .never
    (.ofEntries [("", .blob (Checksum.trailer (mark :: format :: luckyBody)))]) .never

theorem fits_luckyNote : luckyNote.Fits := by
  have hpath : (Wire.path luckyNote.key.path).length < wordRange 8 := by decide
  refine ⟨Path.fits_of_length hpath, fun data hdata => ?_⟩
  obtain rfl := Option.some.inj hdata
  exact Fields.fits_of_length (by decide +kernel)

theorem encode_luckyNote :
    codec.encode luckyNote =
      .ok (frame (luckyBody ++ Checksum.trailer (mark :: format :: luckyBody))) := by
  have hdata (content : Bytes) : Wire.fields (.ofEntries [("", .blob content)]) =
      Wire.length 1 ++ (Wire.text "" ++ (Wire.tag 5 ++ Wire.blob content ++ [])) := rfl
  change Except.ok (frame (Wire.tag 0 ++ Wire.path ⟨["a", "b"]⟩ ++ Wire.readTime .never ++
    Wire.fields _)) = _
  rw [hdata, Wire.blob, Checksum.trailer_length, luckyBody]
  simp only [List.append_assoc, List.append_nil]

/-- Cut behind its only value, the payload ends in the checksum of what is before it. -/
theorem truncated_payload_refused_luckyNote :
    ∃ contents cause, luckyNote.Fits ∧ codec.encode luckyNote = .ok contents ∧
      frame luckyBody <+: contents ∧ frame luckyBody ≠ contents ∧
      codec.decode (frame luckyBody) = .error (.corruptRecord (.wire cause)) := by
  have hbegins := frame_prefix_frame luckyBody
  have hcut : frame luckyBody ≠
      frame (luckyBody ++ Checksum.trailer (mark :: format :: luckyBody)) := by
    intro hsame
    have hlength := congrArg List.length hsame
    simp only [length_frame, List.length_append, Checksum.trailer_length] at hlength
    omega
  obtain ⟨fault, hfault, hwire⟩ :=
    truncated_payload_refused fits_luckyNote encode_luckyNote hbegins hcut
  obtain ⟨cause, rfl⟩ := hwire ⟨luckyBody, rfl⟩
  exact ⟨_, cause, fits_luckyNote, encode_luckyNote, hbegins, hcut, hfault⟩

end DocumentCache.Payload
