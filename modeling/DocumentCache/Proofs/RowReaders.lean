import DocumentCache.Cache.Lookup
import DocumentCache.Cache.Scan
import DocumentCache.Proofs.Outcomes

/-!
# What readers of rows give

The steps that interpret rows count what they find corrupt, each for itself.  What they
give does not depend on the counters, so it is told here without them.  A reader that gets
through has counted nothing, and one that fails has counted its failure, once if that is a
corrupt record: the steps whose failures are not noted either cannot fail or fail for
something else.
-/

namespace DocumentCache.Cache

variable {α β σ : Type}

/-! ## Results without counters -/

/-- The document in a row. -/
def decodeRow (codec : Codec) (bytes : Bytes) (expected : DocumentKey) :
    Except Error Document := do
  let row ← parseRow bytes
  let readTime ← rowReadTime row
  decodeContents codec row.contents readTime expected

/-- The key of the document whose row key was found in a collection. -/
def keyOfRow (collection : Path) (rowKey : Bytes) : Except Error DocumentKey := do
  let id ← (RowKey.documentId rowKey (RowKey.ofCollection collection)).mapError .corruptRecord
  childKey collection id

/-- The requested rows among those handed over, put into the answer. -/
def collectRows (codec : Codec) (collection : Path) (requested : OrderedSet Bytes) :
    List (Bytes × Bytes) → DocumentMap → Except Error DocumentMap
  | [], found => .ok found
  | (rowKey, bytes) :: rest, found =>
      if requested.contains rowKey then do
        let key ← keyOfRow collection rowKey
        let document ← decodeRow codec bytes key
        collectRows codec collection requested rest (found.insert key document)
      else collectRows codec collection requested rest found

/-- The requested rows of one collection after another, and how many rows the engine handed
over. -/
def collectGroups [KeyValueEngine σ] (engine : σ) (codec : Codec) :
    List (Path × OrderedSet Bytes) → DocumentMap × Nat → Except Error (DocumentMap × Nat)
  | [], progress => .ok progress
  | (collection, requested) :: rest, (found, rowsRead) => do
      let rows ← readSpan engine requested
      let found ← collectRows codec collection requested rows found
      collectGroups engine codec rest (found, rowsRead + rows.length)

/-- The pending row of one row, unless that was not read after `since`. -/
def pendingRow (collection : Path) (since : ReadTime) (rowKey bytes : Bytes) :
    Except Error (Option Pending) := do
  let row ← parseRow bytes
  let readTime ← rowReadTime row
  if since ≠ .never ∧ readTime ≤ since then return none
  let key ← keyOfRow collection rowKey
  return some ⟨key, row.contents, readTime⟩

/-- The rows that are to be decoded, in the order handed over. -/
def pendingRows (collection : Path) (since : ReadTime) :
    List (Bytes × Bytes) → Except Error (List Pending)
  | [] => .ok []
  | (rowKey, bytes) :: rest => do
      match ← pendingRow collection since rowKey bytes with
      | none => pendingRows collection since rest
      | some pending => return pending :: (← pendingRows collection since rest)

/-- The latest read time of some rows, not before the given one. -/
def latestOf : List (Bytes × Bytes) → ReadTime → Except Error ReadTime
  | [], latest => .ok latest
  | (_, bytes) :: rest, latest => do
      let row ← parseRow bytes
      let readTime ← rowReadTime row
      latestOf rest (latest.later readTime)

/-! ## Readers -/

/-- The reader gives this result.  If it gets through it has counted nothing; otherwise, if
`counted` holds, it has counted its failure as a single step would. -/
structure Gives (counted : Prop) (reader : RowReader α) (result : Except Error α) : Prop where
  answer : ∀ counters, (reader counters).1 = result
  quiet : ∀ value, result = .ok value → ∀ counters, (reader counters).2 = counters
  counts : counted → ∀ counters, (reader counters).2 = countCorrupt counters result

/-- A reader goes on if the one before it gets through. -/
theorem bind_apply (reader : RowReader α) (next : α → RowReader β) (counters : Counters) :
    (reader >>= next) counters =
      match reader counters with
      | (.error error, counters) => (.error error, counters)
      | (.ok value, counters) => next value counters := by
  change (match reader counters with
    | (result, counters) => ExceptT.bindCont next result counters) = _
  obtain ⟨result, after⟩ := reader counters
  cases result <;> rfl

namespace Gives

variable {counted : Prop}

theorem mono {other : Prop} {reader : RowReader α} {result : Except Error α}
    (h : Gives counted reader result) (himp : other → counted) : Gives other reader result :=
  ⟨h.answer, h.quiet, h.counts ∘ himp⟩

theorem apply {reader : RowReader α} {result : Except Error α} (h : Gives counted reader result)
    (counters : Counters) : reader counters = (result, (reader counters).2) :=
  Prod.ext (h.answer counters) rfl

theorem apply_ok {reader : RowReader α} {value : α} (h : Gives counted reader (.ok value))
    (counters : Counters) : reader counters = (.ok value, counters) :=
  Prod.ext (h.answer counters) (h.quiet value rfl counters)

theorem apply_counted {reader : RowReader α} {result : Except Error α}
    (h : Gives counted reader result) (hcounted : counted) (counters : Counters) :
    reader counters = (result, countCorrupt counters result) :=
  Prod.ext (h.answer counters) (h.counts hcounted counters)

theorem pure (value : α) : Gives counted (Pure.pure value) (.ok value) :=
  ⟨fun _ => rfl, fun _ _ _ => rfl, fun _ _ => rfl⟩

theorem noteCorrupt (result : Except Error α) : Gives counted (noteCorrupt result) result := by
  refine ⟨fun _ => rfl, ?_, fun _ _ => rfl⟩
  rintro value rfl counters
  rfl

/-- A failure need not be noted if it is no corrupt record. -/
theorem unnoted {result : Except Error α}
    (hplain : counted → ∀ error, result = .error error → error.isCorruption = false) :
    Gives counted (unnoted result) result := by
  refine ⟨fun _ => rfl, fun _ _ _ => rfl, fun hcounted counters => ?_⟩
  cases result with
  | ok value => rfl
  | error error =>
      have herror := hplain hcounted error rfl
      simp only [countCorrupt, herror, Bool.false_eq_true, if_false]
      rfl

theorem bind {reader : RowReader α} {next : α → RowReader β} {result : Except Error α}
    {after : α → Except Error β} (h : Gives counted reader result)
    (hnext : ∀ value, Gives counted (next value) (after value)) :
    Gives counted (reader >>= next) (result >>= after) := by
  cases result with
  | error error =>
      have hstop : ∀ counters, (reader >>= next) counters =
          (.error error, (reader counters).2) := fun counters => by
        rw [bind_apply, h.apply]
      exact ⟨fun counters => by rw [hstop]; rfl, nofun,
        fun hcounted counters => by rw [hstop]; exact h.counts hcounted counters⟩
  | ok value =>
      have hgo : ∀ counters, (reader >>= next) counters = next value counters := fun counters => by
        rw [bind_apply, h.apply_ok]
      obtain ⟨hanswer, hquiet, hcounts⟩ := hnext value
      exact ⟨fun counters => by rw [hgo]; exact hanswer counters,
        fun found hfound counters => by rw [hgo]; exact hquiet found hfound counters,
        fun hcounted counters => by rw [hgo]; exact hcounts hcounted counters⟩

end Gives

/-! ## Rows -/

theorem readDocument_gives (codec : Codec) (bytes : Bytes) (expected : DocumentKey) :
    Gives True (readDocument codec bytes expected) (decodeRow codec bytes expected) :=
  .bind (.noteCorrupt _) fun _ => .bind (.noteCorrupt _) fun _ => .noteCorrupt _

theorem length_child (path : Path) (segment : String) :
    (path.child segment).length = path.length + 1 := by
  simp [Path.child, Path.length]

/-- Every name in a collection is that of a document, so what is wrong with the row key of a row
shows when the name is read from it. -/
theorem exists_childKey {collection : Path} (hodd : collection.length % 2 = 1) (id : String) :
    ∃ key, childKey collection id = .ok key := by
  have hpath : (collection.child id).segments ≠ [] ∧ (collection.child id).length % 2 = 0 := by
    refine ⟨by simp [Path.child], ?_⟩
    rw [length_child]
    omega
  rw [childKey, DocumentKey.ofPath, dif_pos hpath]
  exact ⟨_, rfl⟩

theorem readKey_gives (collection : Path) (rowKey : Bytes) :
    Gives (collection.length % 2 = 1) (readKey collection rowKey) (keyOfRow collection rowKey) := by
  refine .bind (.noteCorrupt _) fun id => .unnoted fun hodd error herror => ?_
  obtain ⟨key, hkey⟩ := exists_childKey hodd id
  rw [hkey] at herror
  cases herror

/-! ## Lookups -/

theorem readRows_gives (codec : Codec) (collection : Path) (requested : OrderedSet Bytes)
    (rows : List (Bytes × Bytes)) (found : DocumentMap) :
    Gives (collection.length % 2 = 1) (readRows codec collection requested rows found)
      (collectRows codec collection requested rows found) := by
  induction rows generalizing found with
  | nil => exact .pure found
  | cons entry rest ih =>
      rw [readRows, collectRows]
      split
      · exact .bind (readKey_gives collection entry.1) fun key =>
          .bind ((readDocument_gives codec entry.2 key).mono fun _ => trivial) fun document => ih _
      · exact ih found

/-- No failure of these reads is a corrupt record. -/
def ReadsPlainly [KeyValueEngine σ] (engine : σ) (groups : List (Path × OrderedSet Bytes)) :
    Prop :=
  ∀ group ∈ groups, group.1.length % 2 = 1 ∧
    ∀ error, readSpan engine group.2 = .error error → error.isCorruption = false

theorem readGroups_gives [KeyValueEngine σ] (engine : σ) (codec : Codec)
    (groups : List (Path × OrderedSet Bytes)) (progress : DocumentMap × Nat) :
    Gives (ReadsPlainly engine groups) (readGroups engine codec groups progress)
      (collectGroups engine codec groups progress) := by
  induction groups generalizing progress with
  | nil => exact .pure progress
  | cons group rest ih =>
      rw [readGroups, collectGroups]
      refine .bind (.unnoted fun hplain => (hplain group List.mem_cons_self).2) fun rows => ?_
      refine .bind ((readRows_gives ..).mono fun hplain =>
        (hplain group List.mem_cons_self).1) fun found => ?_
      exact (ih _).mono fun hplain other hmem => hplain other (List.mem_cons_of_mem _ hmem)

/-! ## Scans -/

theorem readPending_gives (collection : Path) (since : ReadTime) (rowKey bytes : Bytes) :
    Gives (collection.length % 2 = 1) (readPending collection since rowKey bytes)
      (pendingRow collection since rowKey bytes) := by
  refine .bind (.noteCorrupt _) fun row => .bind (.noteCorrupt _) fun readTime => ?_
  split
  · exact .pure none
  · exact .bind (readKey_gives collection rowKey) fun key => .pure _

theorem readAllPending_gives (collection : Path) (since : ReadTime) (rows : List (Bytes × Bytes)) :
    Gives (collection.length % 2 = 1) (readAllPending collection since rows)
      (pendingRows collection since rows) := by
  induction rows with
  | nil => exact .pure []
  | cons entry rest ih =>
      refine .bind (readPending_gives collection since entry.1 entry.2) fun pending => ?_
      cases pending with
      | none => exact ih
      | some pending => exact .bind ih fun others => .pure _

theorem readLatest_gives (rows : List (Bytes × Bytes)) (latest : ReadTime) :
    Gives True (readLatest rows latest) (latestOf rows latest) := by
  induction rows generalizing latest with
  | nil => exact .pure latest
  | cons entry rest ih =>
      exact .bind (.noteCorrupt _) fun row => .bind (.noteCorrupt _) fun readTime => ih _

end DocumentCache.Cache
