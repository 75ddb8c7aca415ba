import DocumentCache.Proofs.Format.RowKeys

/-!
# Written paths

A text names a path if it has no two slashes in a row once the slashes at its two ends
are taken off; what is left of it then is the path as it is written.  A path can be
written if its segments are neither empty nor hold a slash, and such a path is read back
from its written form.
-/

namespace DocumentCache

/-! ## Texts and their pieces -/

namespace Text

variable {separator letter : Char} {text : List Char}

theorem split_eq_splitOn (separator : Char) (text : List Char) :
    split separator text = text.splitOn separator := by
  induction text with
  | nil => rfl
  | cons letter rest ih =>
      rw [split, List.splitOn_cons_eq_if_modifyHead, ih]
      by_cases hletter : letter = separator
      · rw [if_pos hletter, if_pos (beq_iff_eq.mpr hletter)]
      · rw [if_neg hletter, if_neg (mt beq_iff_eq.mp hletter)]
        cases hrest : rest.splitOn separator with
        | nil => exact absurd hrest (List.splitOn_ne_nil separator rest)
        | cons piece pieces => rfl

/-- The pieces of a text make the text again. -/
theorem intercalate_split (separator : Char) (text : List Char) :
    [separator].intercalate (split separator text) = text := by
  rw [split_eq_splitOn, List.intercalate_splitOn]

/-- Pieces without a separator are found again. -/
theorem split_intercalate {pieces : List (List Char)} (hpieces : ∀ piece ∈ pieces, separator ∉ piece)
    (hsome : pieces ≠ []) : split separator ([separator].intercalate pieces) = pieces := by
  rw [split_eq_splitOn, List.splitOn_intercalate separator hpieces hsome]

theorem split_cons_self (separator : Char) (rest : List Char) :
    split separator (separator :: rest) = [] :: split separator rest := by
  rw [split, if_pos rfl]

/-- A letter that is no separator goes to the first piece of the rest. -/
theorem exists_split_cons (hletter : letter ≠ separator) (rest : List Char) :
    ∃ piece pieces, split separator rest = piece :: pieces ∧
      split separator (letter :: rest) = (letter :: piece) :: pieces := by
  rw [split, if_neg hletter]
  cases hrest : split separator rest with
  | nil => exact absurd hrest (split_ne_nil separator rest)
  | cons piece pieces => exact ⟨piece, pieces, rfl, rfl⟩

theorem separator_notMem_of_mem_split {piece : List Char} (hmem : piece ∈ split separator text) :
    separator ∉ piece := by
  induction text generalizing piece with
  | nil =>
      rw [List.mem_singleton.mp hmem]
      exact List.not_mem_nil
  | cons letter rest ih =>
      by_cases hletter : letter = separator
      · subst hletter
        rw [split_cons_self] at hmem
        rcases List.mem_cons.mp hmem with rfl | hmem
        · exact List.not_mem_nil
        · exact ih hmem
      · obtain ⟨first, pieces, hrest, hsplit⟩ := exists_split_cons hletter rest
        rw [hsplit] at hmem
        rw [hrest] at ih
        rcases List.mem_cons.mp hmem with rfl | hmem
        · rw [List.mem_cons, not_or]
          exact ⟨Ne.symm hletter, ih (List.mem_cons_self ..)⟩
        · exact ih (List.mem_cons_of_mem _ hmem)

/-! ## Empty pieces -/

/-- The first piece is empty if the text begins with a separator or is over at once. -/
theorem head?_split_eq_nil_iff :
    (split separator text).head? = some [] ↔ text = [] ∨ text.head? = some separator := by
  cases text with
  | nil => simp [split]
  | cons letter rest =>
      by_cases hletter : letter = separator
      · subst hletter
        simp [split_cons_self]
      · obtain ⟨piece, pieces, _, hsplit⟩ := exists_split_cons hletter rest
        simp [hsplit, hletter]

theorem twice_infix_cons_iff {rest : List Char} :
    [separator, separator] <:+: letter :: rest ↔
      letter = separator ∧ rest.head? = some separator ∨ [separator, separator] <:+: rest := by
  rw [List.infix_cons_iff]
  refine or_congr_left ?_
  cases rest with
  | nil => simp
  | cons other others => simp [List.cons_prefix_cons, eq_comm]

/-- A later piece is empty if two separators stand side by side or one at the end. -/
theorem nil_mem_tail_split_iff :
    [] ∈ (split separator text).tail ↔
      text.getLast? = some separator ∨ [separator, separator] <:+: text := by
  induction text with
  | nil => simp [split]
  | cons letter rest ih =>
      rw [twice_infix_cons_iff]
      by_cases hletter : letter = separator
      · subst hletter
        have hsplit : [] ∈ split letter rest ↔
            (split letter rest).head? = some [] ∨ [] ∈ (split letter rest).tail := by
          cases hpieces : split letter rest with
          | nil => exact absurd hpieces (split_ne_nil letter rest)
          | cons piece pieces => simp [eq_comm]
        rw [split_cons_self, List.tail_cons, hsplit, head?_split_eq_nil_iff, ih]
        cases rest with
        | nil => simp
        | cons other others =>
            rw [List.getLast?_cons_cons]
            simp only [reduceCtorEq, false_or, true_and]
            exact or_left_comm
      · obtain ⟨piece, pieces, hrest, hsplit⟩ := exists_split_cons hletter rest
        rw [hsplit, List.tail_cons]
        rw [hrest, List.tail_cons] at ih
        rw [ih]
        cases rest with
        | nil => simp [hletter]
        | cons other others => simp [hletter]

/-- Within a text with a letter at its two ends that is no separator, pieces are empty only
between two separators side by side. -/
theorem nil_mem_split_iff (hsome : text ≠ []) (hhead : text.head? ≠ some separator)
    (hlast : text.getLast? ≠ some separator) :
    [] ∈ split separator text ↔ [separator, separator] <:+: text := by
  have htail : [] ∈ (split separator text).tail ↔ _ := nil_mem_tail_split_iff
  have hfirst : (split separator text).head? = some [] ↔ _ := head?_split_eq_nil_iff
  rw [or_iff_right hlast] at htail
  rw [← htail]
  cases hpieces : split separator text with
  | nil => exact absurd hpieces (split_ne_nil separator text)
  | cons piece pieces =>
      rw [hpieces, List.head?_cons, Option.some.injEq] at hfirst
      rw [List.mem_cons, List.tail_cons, eq_comm, hfirst]
      exact or_iff_right fun h => h.elim hsome hhead

/-! ## Trimmed texts -/

/-- The text is the body between two runs of a letter, and the body neither begins nor ends
with it. -/
structure TrimsTo (letter : Char) (text body : List Char) : Prop where
  exists_runs : ∃ before after,
    text = List.replicate before letter ++ body ++ List.replicate after letter
  head_ne : body.head? ≠ some letter
  last_ne : body.getLast? ≠ some letter

theorem dropWhile_replicate_append (count : Nat) (letter : Char) (rest : List Char) :
    (List.replicate count letter ++ rest).dropWhile (· = letter) =
      rest.dropWhile (· = letter) := by
  apply List.dropWhile_append_of_pos
  intro other hmem
  exact decide_eq_true (List.eq_of_mem_replicate hmem)

theorem dropWhile_of_head?_ne (h : text.head? ≠ some letter) :
    text.dropWhile (· = letter) = text := by
  cases text with
  | nil => rfl
  | cons first rest =>
      apply List.dropWhile_cons_of_neg
      intro hfirst
      exact h (congrArg some (of_decide_eq_true hfirst))

/-- A run of a letter is all that is dropped in front. -/
theorem exists_dropWhile (letter : Char) (text : List Char) :
    ∃ count, text = List.replicate count letter ++ text.dropWhile (· = letter) ∧
      (text.dropWhile (· = letter)).head? ≠ some letter := by
  induction text with
  | nil => exact ⟨0, rfl, nofun⟩
  | cons first rest ih =>
      by_cases hfirst : first = letter
      · subst hfirst
        obtain ⟨count, hrest, hhead⟩ := ih
        have hdrop : (first :: rest).dropWhile (· = first) = rest.dropWhile (· = first) :=
          List.dropWhile_cons_of_pos (decide_eq_true rfl)
        rw [hdrop]
        exact ⟨count + 1, congrArg (first :: ·) hrest, hhead⟩
      · rw [List.dropWhile_cons_of_neg (by simpa using hfirst)]
        exact ⟨0, rfl, fun h => hfirst (Option.some.inj h)⟩

theorem trimsTo_trim (letter : Char) (text : List Char) : TrimsTo letter text (trim letter text) := by
  obtain ⟨before, hbefore, hhead⟩ := exists_dropWhile letter text
  obtain ⟨after, hafter, hlast⟩ :=
    exists_dropWhile letter (text.dropWhile (· = letter)).reverse
  have hmiddle : text.dropWhile (· = letter) = trim letter text ++ List.replicate after letter := by
    rw [← List.reverse_inj, List.reverse_append, List.reverse_replicate, trim, List.reverse_reverse]
    exact hafter
  refine ⟨⟨before, after, ?_⟩, ?_, ?_⟩
  · rw [List.append_assoc, ← hmiddle]
    exact hbefore
  · cases hbody : trim letter text with
    | nil => nofun
    | cons first rest =>
        rw [hmiddle, hbody] at hhead
        exact hhead
  · rw [trim, List.getLast?_reverse]
    exact hlast

/-- A text trims to one body only. -/
theorem TrimsTo.eq_trim {body : List Char} (h : TrimsTo letter text body) :
    body = trim letter text := by
  obtain ⟨⟨before, after, rfl⟩, hhead, hlast⟩ := h
  rw [trim, List.append_assoc, dropWhile_replicate_append]
  cases body with
  | nil =>
      have hnone := dropWhile_replicate_append after letter []
      rw [List.append_nil] at hnone
      rw [List.nil_append, hnone]
      rfl
  | cons first rest =>
      have hfront : (first :: rest ++ List.replicate after letter).head? ≠ some letter := hhead
      rw [dropWhile_of_head?_ne hfront, List.reverse_append, List.reverse_replicate,
        dropWhile_replicate_append, dropWhile_of_head?_ne, List.reverse_reverse]
      rwa [List.head?_reverse]

end Text

/-! ## Paths -/

namespace Path

/-- No segment is empty or holds a slash. -/
def Writable (path : Path) : Prop :=
  ∀ segment ∈ path.segments, segment ≠ "" ∧ '/' ∉ segment.toList

theorem toList_display (path : Path) :
    path.display.toList = ['/'].intercalate (path.segments.map String.toList) :=
  String.toList_intercalate

theorem slash_notMem_of_writable {path : Path} (h : path.Writable) :
    ∀ piece ∈ path.segments.map String.toList, '/' ∉ piece := by
  intro piece hmem
  obtain ⟨segment, hsegment, rfl⟩ := List.mem_map.mp hmem
  exact (h segment hsegment).2

theorem writable_root : root.Writable := List.forall_mem_nil _

theorem display_root : root.display = "" := String.intercalate_nil

theorem map_ofList_toList (segments : List String) :
    (segments.map String.toList).map String.ofList = segments := by
  rw [List.map_map]
  exact List.map_id'' (fun _ => String.ofList_toList) segments

/-- The pieces of a text are the segments of the path that it writes. -/
theorem ofSegments_split_eq_ok_iff {body : List Char} (hsome : body ≠ []) {path : Path} :
    ofSegments ((Text.split '/' body).map String.ofList) = .ok path ↔
      path.Writable ∧ path.display.toList = body := by
  rw [ofSegments_eq_ok_iff]
  constructor
  · rintro ⟨rfl, hnamed⟩
    constructor
    · intro segment hmem
      refine ⟨hnamed segment hmem, ?_⟩
      obtain ⟨piece, hpiece, rfl⟩ := List.mem_map.mp hmem
      rw [String.toList_ofList]
      exact Text.separator_notMem_of_mem_split hpiece
    · have hpieces : ((Text.split '/' body).map String.ofList).map String.toList =
          Text.split '/' body := by
        rw [List.map_map]
        exact List.map_id'' (fun _ => String.toList_ofList) _
      rw [toList_display, hpieces, Text.intercalate_split]
  · rintro ⟨hwritable, rfl⟩
    have hsegments : path.segments.map String.toList ≠ [] := by
      intro hnone
      rw [toList_display, hnone] at hsome
      exact hsome rfl
    rw [toList_display, Text.split_intercalate (slash_notMem_of_writable hwritable) hsegments,
      map_ofList_toList]
    exact ⟨rfl, fun segment hmem => (hwritable segment hmem).1⟩

/-- A path that is written as nothing is the root. -/
theorem eq_root_of_toList_display {path : Path} (hwritable : path.Writable)
    (h : path.display.toList = []) : path = root := by
  obtain ⟨segments⟩ := path
  cases segments with
  | nil => rfl
  | cons segment rest =>
      have hsplit := Text.split_intercalate (slash_notMem_of_writable hwritable)
        (List.cons_ne_nil segment.toList (rest.map String.toList))
      rw [← toList_display, h] at hsplit
      have hsegment : segment = "" := String.toList_eq_nil_iff.mp (List.cons.inj hsplit).1.symm
      exact absurd hsegment (hwritable segment (List.mem_cons_self ..)).1

/-- A text names the path that is written as the text once it is trimmed. -/
theorem parse_eq_ok_iff {text : String} {path : Path} :
    parse text = .ok path ↔ path.Writable ∧ path.display.toList = Text.trim '/' text.toList := by
  unfold parse
  by_cases hnone : Text.trim '/' text.toList = []
  · simp only [hnone, List.isEmpty_nil, if_true, Except.ok.injEq]
    constructor
    · rintro rfl
      rw [display_root]
      exact ⟨writable_root, rfl⟩
    · rintro ⟨hwritable, hdisplay⟩
      exact (eq_root_of_toList_display hwritable hdisplay).symm
  · rw [if_neg (mt List.isEmpty_iff.mp hnone)]
    exact ofSegments_split_eq_ok_iff hnone

/-- The only thing that can be wrong with a text is an empty segment. -/
theorem parse_eq_error {text : String} {fault : PathFault} (h : parse text = .error fault) :
    fault = .emptySegment := by
  unfold parse at h
  dsimp only at h
  split at h
  · cases h
  · unfold ofSegments at h
    split at h
    · exact (Except.error.inj h).symm
    · cases h

theorem exists_parse_iff {text : String} :
    (∃ path, parse text = .ok path) ↔ ¬ ['/', '/'] <:+: Text.trim '/' text.toList := by
  have htrim := Text.trimsTo_trim '/' text.toList
  unfold parse
  by_cases hnone : Text.trim '/' text.toList = []
  · simp only [hnone, List.isEmpty_nil, if_true]
    exact iff_of_true ⟨root, rfl⟩ (by simp)
  · rw [if_neg (mt List.isEmpty_iff.mp hnone),
      ← Text.nil_mem_split_iff hnone htrim.head_ne htrim.last_ne]
    simp only [ofSegments_eq_ok_iff, exists_eq_left, List.forall_mem_map]
    constructor
    · intro hnamed hempty
      exact hnamed [] hempty rfl
    · intro hempty piece hmem hpiece
      obtain rfl : piece = [] := String.ofList_eq_empty_iff.mp hpiece
      exact hempty hmem

/-- No slash stands at an end of a written path. -/
theorem trimsTo_display {path : Path} (hwritable : path.Writable) :
    Text.TrimsTo '/' path.display.toList path.display.toList := by
  by_cases hroot : path.segments.map String.toList = []
  · rw [toList_display, hroot]
    exact ⟨⟨0, 0, rfl⟩, nofun, nofun⟩
  · have hsplit : Text.split '/' path.display.toList = path.segments.map String.toList := by
      rw [toList_display, Text.split_intercalate (slash_notMem_of_writable hwritable) hroot]
    have hnamed : [] ∉ Text.split '/' path.display.toList := by
      rw [hsplit]
      intro hempty
      obtain ⟨segment, hmem, hsegment⟩ := List.mem_map.mp hempty
      exact (hwritable segment hmem).1 (String.toList_eq_nil_iff.mp hsegment)
    refine ⟨⟨0, 0, by simp⟩, ?_, ?_⟩
    · intro hhead
      exact hnamed (List.mem_of_head? (Text.head?_split_eq_nil_iff.mpr (.inr hhead)))
    · intro hlast
      exact hnamed (List.mem_of_mem_tail (Text.nil_mem_tail_split_iff.mpr (.inl hlast)))

/-- A path that can be written is read back from its written form. -/
theorem parse_display {path : Path} (hwritable : path.Writable) :
    parse path.display = .ok path :=
  parse_eq_ok_iff.mpr ⟨hwritable, (trimsTo_display hwritable).eq_trim⟩

end Path

/-! ## Document keys -/

namespace DocumentKey

/-- A text names a document if it names the path of one. -/
theorem parse_eq_ok_iff {text : String} {key : DocumentKey} :
    parse text = .ok key ↔ Path.parse text = .ok key.path := by
  unfold parse
  rw [bind_eq_ok_iff]
  constructor
  · rintro ⟨path, hpath, hkey⟩
    rw [hpath, ofPath_eq_ok_iff.mp hkey]
  · intro hpath
    exact ⟨key.path, hpath, key.ofPath_path⟩

theorem exists_parse_iff {text : String} :
    (∃ key, parse text = .ok key) ↔
      ∃ path, Path.parse text = .ok path ∧ path.length ≠ 0 ∧ path.length % 2 = 0 := by
  simp only [parse_eq_ok_iff]
  constructor
  · rintro ⟨key, hpath⟩
    exact ⟨key.path, hpath, mt List.length_eq_zero_iff.mp key.nonempty, key.even⟩
  · rintro ⟨path, hpath, hsome, heven⟩
    exact ⟨⟨path, mt List.length_eq_zero_iff.mpr hsome, heven⟩, hpath⟩

/-- What is wrong with the text as a path comes before what is wrong with its length. -/
theorem parse_of_path_error {text : String} {fault : PathFault}
    (h : Path.parse text = .error fault) : parse text = .error fault := by
  rw [parse, h]
  rfl

theorem parse_of_path_ok {text : String} {path : Path} (h : Path.parse text = .ok path) :
    parse text = ofPath path := by
  rw [parse, h]
  rfl

end DocumentKey

/-- Every text, without the slashes at its ends, names a path exactly if no two slashes stand
side by side in it; then its segments can be written, it is what they are joined to, and the
written path names the path again, as every path that can be written is named by its written
form.  It names a document exactly if it names a path with an even, positive number of
segments, and then the document's name below its collection is that path. -/
theorem Path.parse_grammar :
    (∀ text : String, ∃ body, Text.TrimsTo '/' text.toList body ∧
      (∀ other, Text.TrimsTo '/' text.toList other → other = body) ∧
      ((∃ path, Path.parse text = .ok path) ↔ ¬ ['/', '/'] <:+: body) ∧
      (∀ fault, Path.parse text = .error fault → fault = .emptySegment) ∧
      (∀ path, Path.parse text = .ok path →
        path.Writable ∧ "/".intercalate path.segments = String.ofList body ∧
          (path = .root ↔ body = []) ∧ Path.parse path.display = .ok path) ∧
      ((∃ key, DocumentKey.parse text = .ok key) ↔
        ∃ path, Path.parse text = .ok path ∧ path.length ≠ 0 ∧ path.length % 2 = 0) ∧
      (∀ key, DocumentKey.parse text = .ok key →
        Path.parse text = .ok (key.collection.child key.id)) ∧
      (∀ fault, Path.parse text = .error fault → DocumentKey.parse text = .error fault) ∧
      ∀ path, Path.parse text = .ok path → path.length = 0 ∨ path.length % 2 ≠ 0 →
        DocumentKey.parse text = .error (.notDocument path)) ∧
    ∀ path : Path, path.Writable → Path.parse path.display = .ok path := by
  refine ⟨fun text => ⟨_, Text.trimsTo_trim '/' text.toList, ?_⟩, fun _ => parse_display⟩
  refine ⟨fun _ => Text.TrimsTo.eq_trim, exists_parse_iff, fun _ => parse_eq_error, ?_,
    DocumentKey.exists_parse_iff, ?_, fun _ => DocumentKey.parse_of_path_error, ?_⟩
  · intro path hpath
    obtain ⟨hwritable, hdisplay⟩ := parse_eq_ok_iff.mp hpath
    refine ⟨hwritable, ?_, ?_, parse_display hwritable⟩
    · rw [← hdisplay, String.ofList_toList, display]
    · rw [← hdisplay]
      constructor
      · rintro rfl
        rw [display_root]
        rfl
      · exact eq_root_of_toList_display hwritable
  · intro key hkey
    rw [key.child_collection_id]
    exact DocumentKey.parse_eq_ok_iff.mp hkey
  · intro path hpath hlength
    rw [DocumentKey.parse_of_path_ok hpath, DocumentKey.ofPath, dif_neg]
    rintro ⟨hsome, heven⟩
    rcases hlength with hnone | hodd
    · exact hsome (List.length_eq_zero_iff.mp hnone)
    · exact hodd heven

/-- Slashes at the ends do not count, slashes side by side do, and the fault of the path comes
before the number of its segments. -/
example :
    DocumentKey.parse "//rooms/1/" = .ok (.topLevel "rooms" "1") ∧
      Path.parse "///" = .ok .root ∧ DocumentKey.parse "rooms//1/x" = .error .emptySegment := by
  exact ⟨rfl, rfl, rfl⟩

end DocumentCache
