import DocumentCache.Proofs.Cache.RequestedSpans
import DocumentCache.Proofs.Cache.Runs

/-!
# The counter of rows

Over any engine, a batch lookup that succeeds counts all rows that the engine hands over to
it, before it leaves out those that were not requested.  A query counts the rows that it is
going to decode: those that it passes over because of their read times are not counted.  So
after a run the counter lacks these rows of its queries, and no others; it is exact when no
query names a time.
-/

namespace DocumentCache.Cache

variable {σ ι : Type} [KeyValueEngine σ]

/-! ## What an engine hands over -/

/-- A query passes over a row whose columns hold a read time that is not after the one it
names. -/
def passedOver (since : ReadTime) (bytes : Bytes) : Bool :=
  match parseRow bytes >>= rowReadTime with
  | .ok readTime => decide (since ≠ .never ∧ readTime ≤ since)
  | .error _ => false

/-- The action is a batch lookup or a query. -/
def Action.ReadsRows : Action σ → Prop
  | .getAll _ => True
  | .query _ _ _ => True
  | _ => False

/-- How many rows the engine hands over to an action, and how many of them are passed over. -/
inductive Hands (engine : σ) : Action σ → Nat → Nat → Prop where
  /-- For each collection, the rows from the smallest to the largest one requested. -/
  | getAll {keys : List DocumentKey} (rows : Path → List (Bytes × Bytes))
      (hrows : ∀ collection ∈ keys.map DocumentKey.collection, ∃ first last,
        SpanEnds keys collection first last ∧
          KeyValueEngine.between engine (RowKey.ofDocument first) (RowKey.ofDocument last) =
            .ok (rows collection)) :
      Hands engine (.getAll keys)
        ((keys.map DocumentKey.collection).dedup.map fun collection =>
          (rows collection).length).sum 0
  /-- The rows of the collection. -/
  | query {query : Query} {since : ReadTime} {interrupted : Bool} (rows : List (Bytes × Bytes))
      (hrows : KeyValueEngine.startingWith engine (RowKey.ofCollection query.collection) =
        .ok rows) :
      Hands engine (.query query since interrupted) rows.length
        (rows.countP fun entry => passedOver since entry.2)
  /-- To other actions none that counts. -/
  | other {action : Action σ} (hother : ¬ action.ReadsRows) : Hands engine action 0 0

/-- How many rows are handed over during a run, and how many of them are passed over. -/
inductive HandsAll [CollectionIndex ι] : Cache σ ι → List (Action σ) → Nat → Nat → Prop where
  | nil {cache : Cache σ ι} : HandsAll cache [] 0 0
  | cons {cache : Cache σ ι} {action : Action σ} {rest : List (Action σ)}
      {handed passed laterHanded laterPassed : Nat}
      (hfirst : Hands cache.engine action handed passed)
      (hlater : HandsAll (cache.act action).2 rest laterHanded laterPassed) :
      HandsAll cache (action :: rest) (handed + laterHanded) (passed + laterPassed)

/-- An engine that hands over the same rows again hands over as many. -/
theorem Hands.unique {engine : σ} {action : Action σ} {handed passed others skipped : Nat}
    (h : Hands engine action handed passed) (hother : Hands engine action others skipped) :
    handed = others ∧ passed = skipped := by
  cases h with
  | getAll rows hrows =>
      cases hother with
      | getAll more hmore =>
          refine ⟨congrArg List.sum (List.map_congr_left fun collection hmem => ?_), rfl⟩
          have hrequested := List.mem_dedup.mp hmem
          obtain ⟨first, last, hends, hread⟩ := hrows collection hrequested
          obtain ⟨low, high, hbounds, hagain⟩ := hmore collection hrequested
          obtain ⟨hfirst, hlast⟩ := hends.rowKey_eq hbounds
          rw [hfirst, hlast, hagain] at hread
          rw [Except.ok.inj hread]
      | other hnone => exact absurd trivial hnone
  | query rows hrows =>
      cases hother with
      | query more hmore =>
          obtain rfl := Except.ok.inj (hrows.symm.trans hmore)
          exact ⟨rfl, rfl⟩
      | other hnone => exact absurd trivial hnone
  | other hnone =>
      cases hother with
      | getAll | query => exact absurd trivial hnone
      | other => exact ⟨rfl, rfl⟩

/-- What is handed over during a run is determined. -/
theorem HandsAll.unique [CollectionIndex ι] {cache : Cache σ ι} {actions : List (Action σ)}
    {handed passed others skipped : Nat} (h : HandsAll cache actions handed passed)
    (hother : HandsAll cache actions others skipped) : handed = others ∧ passed = skipped := by
  induction h generalizing others skipped with
  | nil =>
      cases hother
      exact ⟨rfl, rfl⟩
  | cons hfirst _ ih =>
      cases hother with
      | cons hagain hmore =>
          obtain ⟨rfl, rfl⟩ := hfirst.unique hagain
          obtain ⟨rfl, rfl⟩ := ih hmore
          exact ⟨rfl, rfl⟩

/-! ## Batch lookups -/

section Batches

variable {engine : σ} {codec : Codec} {keys : List DocumentKey}

/-- The rows of a group of requested row keys; none if the engine does not hand them over. -/
def groupRows (engine : σ) (requested : OrderedSet Bytes) : List (Bytes × Bytes) :=
  (readSpan engine requested).toOption.getD []

/-- A lookup that gets through has read the rows of every group, and counted them. -/
theorem counted_of_collectGroups {groups : List (Path × OrderedSet Bytes)}
    {progress result : DocumentMap × Nat}
    (h : collectGroups engine codec groups progress = .ok result) :
    (∀ group ∈ groups, readSpan engine group.2 = .ok (groupRows engine group.2)) ∧
      result.2 = progress.2 + (groups.map fun group => (groupRows engine group.2).length).sum := by
  induction groups generalizing progress with
  | nil =>
      obtain rfl := Except.ok.inj h
      exact ⟨List.forall_mem_nil _, rfl⟩
  | cons group rest ih =>
      simp only [collectGroups, bind_eq_ok_iff] at h
      obtain ⟨rows, hrows, found, -, hrest⟩ := h
      have hgroup : groupRows engine group.2 = rows := by
        rw [groupRows, hrows]
        rfl
      obtain ⟨hreads, hcount⟩ := ih hrest
      refine ⟨List.forall_mem_cons.mpr ⟨?_, hreads⟩, ?_⟩
      · rw [hgroup]
        exact hrows
      · rw [hcount, List.map_cons, List.sum_cons, hgroup, Nat.add_assoc]

/-- The group of a requested collection is read from the smallest to the largest key requested
in it. -/
theorem between_of_readSpan {collection : Path}
    (hrequested : collection ∈ keys.map DocumentKey.collection) {rows : List (Bytes × Bytes)}
    (hread : readSpan engine (requestedOf (requestedRows keys) collection) = .ok rows) :
    ∃ first last, SpanEnds keys collection first last ∧
      KeyValueEngine.between engine (RowKey.ofDocument first) (RowKey.ofDocument last) =
        .ok rows := by
  obtain ⟨key, hkey, hcollection⟩ := List.mem_map.mp hrequested
  have hcontains := contains_requestedRows_iff.mpr ⟨key, hkey, hcollection, rfl⟩
  have hgroup := mem_of_contains_requestedOf hcontains
  have hsome := List.ne_nil_of_mem (OrderedMap.contains_iff_mem_keys.mp hcontains)
  have hfirst := List.head?_eq_some_head hsome
  have hlast := List.getLast?_eq_some_getLast hsome
  obtain ⟨low, high, hends, hlow, hhigh⟩ := exists_ends hgroup hfirst hlast
  refine ⟨low, high, hends, ?_⟩
  simp only [readSpan, hfirst, hlast] at hread
  rw [← hlow, ← hhigh]
  exact hread

/-- A batch lookup that succeeds counts the rows that the engine hands over to it. -/
theorem getAll_hands {cache : Cache σ ι} {found : DocumentMap}
    (h : (cache.getAll keys).1 = .ok found) :
    ∃ handed, Hands cache.engine (.getAll keys) handed 0 ∧
      (cache.getAll keys).2.counters.rowsScanned =
        cache.counters.rowsScanned + UInt64.ofNat handed := by
  obtain ⟨rowsRead, hcollect, hcounters⟩ := exists_collectGroups h
  obtain ⟨hreads, hcount⟩ := counted_of_collectGroups hcollect
  let rows collection := groupRows cache.engine (requestedOf (requestedRows keys) collection)
  have hsum := sum_requestedRows keys
    (fun requested => (groupRows cache.engine requested).length)
    (fun collection => (rows collection).length) fun group hgroup => by
      simp only [rows, requestedOf_of_mem hgroup]
  refine ⟨_, .getAll rows ?_, ?_⟩
  · intro collection hmem
    obtain ⟨key, hkey, hcollection⟩ := List.mem_map.mp hmem
    have hcontains := contains_requestedRows_iff.mpr ⟨key, hkey, hcollection, rfl⟩
    exact between_of_readSpan hmem (hreads _ (mem_of_contains_requestedOf hcontains))
  · have hrowsRead := (hcount.trans (Nat.zero_add _)).trans hsum
    dsimp only at hrowsRead
    rw [hcounters, hrowsRead]
    rfl

end Batches

/-! ## Queries -/

section Queries

variable {codec : Codec} {query : Query} {collection : Path} {since : ReadTime}

/-- A row is to be decoded unless it is passed over. -/
theorem passedOver_of_pendingRow {rowKey bytes : Bytes} {pending? : Option Pending}
    (h : pendingRow collection since rowKey bytes = .ok pending?) :
    passedOver since bytes = pending?.isNone := by
  simp only [pendingRow, bind_eq_ok_iff] at h
  obtain ⟨row, hrow, readTime, hread, h⟩ := h
  have htime : (parseRow bytes >>= rowReadTime) = .ok readTime :=
    bind_eq_ok_iff.mpr ⟨row, hrow, hread⟩
  rw [passedOver, htime]
  split at h
  · next hold =>
      obtain rfl := Except.ok.inj h
      exact decide_eq_true hold
  · next hrecent =>
      obtain ⟨key, -, h⟩ := bind_eq_ok_iff.mp h
      obtain rfl := Except.ok.inj h
      exact decide_eq_false hrecent

/-- A query that names no time passes over nothing. -/
theorem passedOver_never (bytes : Bytes) : passedOver .never bytes = false := by
  unfold passedOver
  split
  · exact decide_eq_false fun hold => hold.1 rfl
  · rfl

/-- Every row is either to be decoded or passed over. -/
theorem length_pendingRows_add {rows : List (Bytes × Bytes)} {pending : List Pending}
    (h : pendingRows collection since rows = .ok pending) :
    pending.length + rows.countP (fun entry => passedOver since entry.2) = rows.length := by
  induction rows generalizing pending with
  | nil =>
      obtain rfl := Except.ok.inj h
      rfl
  | cons entry rest ih =>
      rw [pendingRows_cons] at h
      obtain ⟨first, hfirst, h⟩ := bind_eq_ok_iff.mp h
      obtain ⟨others, hothers, h⟩ := bind_eq_ok_iff.mp h
      obtain rfl := Except.ok.inj h
      have hlater := ih hothers
      have hpassed := passedOver_of_pendingRow hfirst
      rw [List.countP_cons, hpassed, List.length_append, List.length_cons, ← hlater]
      cases first with
      | none => simp; omega
      | some item => simp; omega

theorem rowsScanned_countCorrupt {α : Type} (counters : Counters) (result : Except Error α) :
    (countCorrupt counters result).rowsScanned = counters.rowsScanned := by
  unfold countCorrupt
  split
  · split <;> rfl
  · rfl

variable (codec query)

/-- Jobs count no rows. -/
theorem rowsScanned_matchJob (pending : Pending) (shared : Matches) :
    ((matchJob codec query pending).run shared).2.counters.rowsScanned =
      shared.counters.rowsScanned := by
  simp only [matchJob]
  split
  · exact rowsScanned_countCorrupt _ _
  · split
    · split <;> rfl
    · rfl

theorem rowsScanned_runInline (pool : DecodePool Matches) (pending : Pending) :
    (pool.runInline (matchJob codec query pending)).shared.counters.rowsScanned =
      pool.shared.counters.rowsScanned := by
  by_cases hskip : pool.shouldSkip = true
  · rw [DecodePool.runInline_of_skip hskip]
  · rw [DecodePool.runInline_of_running hskip]
    exact rowsScanned_matchJob codec query pending pool.shared

theorem rowsScanned_runJobs (background : Bool) (pending : List Pending)
    (pool : DecodePool Matches) :
    (runJobs codec query background pending pool).shared.counters.rowsScanned =
      pool.shared.counters.rowsScanned := by
  induction pending generalizing pool with
  | nil => rfl
  | cons first rest ih =>
      unfold runJobs
      dsimp only
      split
      · rw [ih, DecodePool.submit_eq]
        exact rowsScanned_runInline codec query _ first
      · rw [ih]
        exact rowsScanned_runInline codec query pool first

variable {codec query}

/-- A query that succeeds counts the rows that it does not pass over. -/
theorem query_hands {cache : Cache σ ι} {interrupted : Bool} {found : DocumentMap}
    (h : (cache.query query since interrupted).1 = .ok found) :
    ∃ handed passed, Hands cache.engine (.query query since interrupted) handed passed ∧
      (cache.query query since interrupted).2.counters.rowsScanned + UInt64.ofNat passed =
        cache.counters.rowsScanned + UInt64.ofNat handed ∧ (since = .never → passed = 0) := by
  unfold Cache.query at h ⊢
  split at h
  · cases h
  · next rows hrows =>
      have hgives := readAllPending_gives query.collection since rows
      cases hpending : pendingRows query.collection since rows with
      | error error =>
          rw [hgives.apply, hpending] at h
          cases h
      | ok pending =>
          rw [hpending] at hgives
          rw [hgives.apply_ok] at h ⊢
          have hlength := length_pendingRows_add hpending
          have hjobs := rowsScanned_runJobs cache.codec query
            (cache.settings.parallelThreshold ≤ pending.length) pending
            (DecodePool.create cache.settings.decodeWorkers interrupted
              ⟨.empty, cache.counters.recordScan (UInt64.ofNat pending.length)⟩)
          rw [← DecodePool.shared_drain] at hjobs
          refine ⟨_, _, .query rows hrows, ?_, ?_⟩
          · dsimp only at h ⊢
            generalize DecodePool.drain _ = result at h hjobs ⊢
            obtain ⟨answer, pool⟩ := result
            cases answer with
            | error error => cases h
            | ok _ =>
                dsimp only at hjobs ⊢
                rw [hjobs, ← hlength, UInt64.ofNat_add, ← UInt64.add_assoc]
                rfl
          · rintro rfl
            exact List.countP_eq_zero.mpr fun entry _ hpassed => by
              rw [passedOver_never] at hpassed
              cases hpassed

end Queries

/-! ## Runs -/

section Runs

variable [CollectionIndex ι]

theorem rowsScanned_add (cache : Cache σ ι) (document : Document) (readTime : ReadTime) :
    (cache.add document readTime).2.counters.rowsScanned = cache.counters.rowsScanned := by
  have hwrite : ∀ rowKey row, (cache.writeRow document readTime rowKey row).2.counters.rowsScanned =
      cache.counters.rowsScanned := by
    intro rowKey row
    unfold writeRow
    split
    · dsimp only
      split
      · exact rowsScanned_countCorrupt _ _
      · rfl
    · rfl
  unfold add
  cases encodeRow cache.codec document readTime with
  | error error => rfl
  | ok encoded =>
      have hrow := hwrite encoded.1 encoded.2
      dsimp only
      generalize cache.writeRow document readTime encoded.1 encoded.2 = outcome at hrow
      obtain ⟨result, after⟩ := outcome
      cases result with
      | error error => exact hrow
      | ok _ => exact hrow

/-- Other actions count no rows. -/
theorem rowsScanned_act (cache : Cache σ ι) {action : Action σ} (hother : ¬ action.ReadsRows) :
    (cache.act action).2.counters.rowsScanned = cache.counters.rowsScanned := by
  cases action with
  | add document readTime => exact cache.rowsScanned_add document readTime
  | remove key => rfl
  | get key =>
      simp only [act, settle, get]
      split
      · rfl
      · rfl
      · next bytes hread =>
          rw [(readDocument_gives cache.codec bytes key).apply_counted trivial]
          exact rowsScanned_countCorrupt _ _
  | getAll keys => exact absurd trivial hother
  | query query since interrupted => exact absurd trivial hother
  | latestReadTime =>
      simp only [act, settle, Cache.latestReadTime]
      split
      · rfl
      · next rows hread =>
          rw [(readLatest_gives rows .never).apply_counted trivial]
          exact rowsScanned_countCorrupt _ _
  | meanwhile change => rfl

/-- An action counts the rows that are handed over to it and not passed over. -/
theorem act_hands (cache : Cache σ ι) {action : Action σ}
    (hok : action.ReadsRows → (cache.act action).1 = .ok ()) :
    ∃ handed passed, Hands cache.engine action handed passed ∧
      (cache.act action).2.counters.rowsScanned + UInt64.ofNat passed =
        cache.counters.rowsScanned + UInt64.ofNat handed ∧
      ((∀ query since interrupted, action = .query query since interrupted → since = .never) →
        passed = 0) := by
  by_cases hreads : action.ReadsRows
  · cases action with
    | getAll keys =>
        obtain ⟨found, hfound⟩ := settle_eq_ok_iff.mp (hok trivial)
        obtain ⟨handed, hhands, hcount⟩ := getAll_hands hfound
        exact ⟨handed, 0, hhands, (UInt64.add_zero _).trans hcount, fun _ => rfl⟩
    | query query since interrupted =>
        obtain ⟨found, hfound⟩ := settle_eq_ok_iff.mp (hok trivial)
        obtain ⟨handed, passed, hhands, hcount, hnone⟩ := query_hands hfound
        exact ⟨handed, passed, hhands, hcount, fun hnever => hnone (hnever _ _ _ rfl)⟩
    | _ => exact hreads.elim
  · refine ⟨0, 0, .other hreads, ?_, fun _ => rfl⟩
    rw [cache.rowsScanned_act hreads]

/-- After a run in which every batch lookup and every query succeeded, the counter of rows has
grown by the rows that the engine handed over to them, without those that queries passed over
because of their read times; if no query named a time, by all of them. -/
theorem run_counts_rows (cache : Cache σ ι) {actions : List (Action σ)}
    (hok : ∀ entry ∈ (cache.run actions).1, entry.1.ReadsRows → entry.2 = .ok ()) :
    ∃ handed passed, HandsAll cache actions handed passed ∧
      (cache.run actions).2.counters.rowsScanned + UInt64.ofNat passed =
        cache.counters.rowsScanned + UInt64.ofNat handed ∧
      ((∀ query since interrupted, .query query since interrupted ∈ actions → since = .never) →
        passed = 0) := by
  induction actions generalizing cache with
  | nil => exact ⟨0, 0, .nil, rfl, fun _ => rfl⟩
  | cons action rest ih =>
      obtain ⟨hfirst, hlater⟩ := List.forall_mem_cons.mp hok
      obtain ⟨handed, passed, hhands, hcount, hnone⟩ := cache.act_hands hfirst
      obtain ⟨laterHanded, laterPassed, hrest, hrestCount, hrestNone⟩ := ih _ hlater
      refine ⟨_, _, .cons hhands hrest, ?_, ?_⟩
      · calc
          (cache.run (action :: rest)).2.counters.rowsScanned +
              UInt64.ofNat (passed + laterPassed)
            = ((cache.act action).2.run rest).2.counters.rowsScanned + UInt64.ofNat laterPassed +
                UInt64.ofNat passed := by
              rw [UInt64.ofNat_add, UInt64.add_comm (UInt64.ofNat passed), ← UInt64.add_assoc]
              rfl
          _ = (cache.act action).2.counters.rowsScanned + UInt64.ofNat passed +
                UInt64.ofNat laterHanded := by
              rw [hrestCount, UInt64.add_assoc, UInt64.add_comm (UInt64.ofNat laterHanded),
                ← UInt64.add_assoc]
          _ = cache.counters.rowsScanned + UInt64.ofNat (handed + laterHanded) := by
              rw [hcount, UInt64.add_assoc, ← UInt64.ofNat_add]
      · intro hnever
        have hzero := hnone fun query since interrupted heq =>
          hnever query since interrupted (heq ▸ List.mem_cons_self)
        have hrestZero := hrestNone fun query since interrupted hmem =>
          hnever query since interrupted (List.mem_cons_of_mem _ hmem)
        rw [hzero, hrestZero]

end Runs

/-- Two rooms, one read at ten seconds and one at twenty. -/
def twoRooms : List (Action SharedEngine) :=
  [.add (.deleted (roomKey "a") .never .never) (.ofSeconds 10),
    .add (.deleted (roomKey "b") .never .never) (.ofSeconds 20)]

/-- Two rooms are added, looked up and queried for what was read after ten seconds. -/
def mixedReads : List (Action SharedEngine) :=
  twoRooms ++ [.getAll [roomKey "a", roomKey "c"], .get (roomKey "b"),
    .query roomQuery (.ofSeconds 10) false]

/-- A lookup in one collection is handed over one span of rows. -/
theorem Hands.of_between {engine : σ} {keys : List DocumentKey} {collection : Path}
    {first last : DocumentKey} {handed : Nat}
    (hkeys : (keys.map DocumentKey.collection).dedup = [collection])
    (hends : SpanEnds keys collection first last)
    (hrows : (KeyValueEngine.between engine (RowKey.ofDocument first)
      (RowKey.ofDocument last)).toOption.map List.length = some handed) :
    Hands engine (.getAll keys) handed 0 := by
  obtain ⟨rows, hread, rfl⟩ := Option.map_eq_some_iff.mp hrows
  have hspan : ∀ other ∈ keys.map DocumentKey.collection, ∃ first last,
      SpanEnds keys other first last ∧
        KeyValueEngine.between engine (RowKey.ofDocument first) (RowKey.ofDocument last) =
          .ok rows := by
    intro other hmem
    obtain rfl : other = collection := by simpa [hkeys] using List.mem_dedup.mpr hmem
    exact ⟨first, last, hends, eq_ok_of_toOption hread⟩
  simpa [hkeys] using Hands.getAll (fun _ => rows) hspan

theorem Hands.of_startingWith {engine : σ} {query : Query} {since : ReadTime}
    {interrupted : Bool} {handed passed : Nat}
    (hrows : (KeyValueEngine.startingWith engine
      (RowKey.ofCollection query.collection)).toOption.map
        (fun rows => (rows.length, rows.countP fun entry => passedOver since entry.2)) =
      some (handed, passed)) : Hands engine (.query query since interrupted) handed passed := by
  obtain ⟨rows, hread, hcounts⟩ := Option.map_eq_some_iff.mp hrows
  obtain ⟨rfl, rfl⟩ := Prod.mk.inj hcounts
  exact .query rows (eq_ok_of_toOption hread)

/-- Two rooms are handed over to the lookup and two to the query, which passes over one. -/
theorem handsAll_mixedReads : HandsAll freshCache mixedReads 4 1 := by
  have hends : SpanEnds [roomKey "a", roomKey "c"] roomQuery.collection (roomKey "a")
      (roomKey "c") :=
    ⟨by decide, by decide, rfl, rfl, by decide, by decide⟩
  have hall : HandsAll freshCache mixedReads (0 + (0 + (2 + (0 + (2 + 0)))))
      (0 + (0 + (0 + (0 + (1 + 0))))) := by
    refine .cons (.other id) (.cons (.other id) (.cons ?_ (.cons (.other id) (.cons ?_ .nil))))
    · exact .of_between (by decide) hends (by decide +kernel)
    · exact .of_startingWith (by decide +kernel)
  exact hall

theorem run_counts_rows_mixedReads :
    HandsAll freshCache mixedReads 4 1 ∧
      (freshCache.run mixedReads).2.counters.rowsScanned = 3 := by
  have hall : ((freshCache.run mixedReads).1.all fun entry => entry.2.toBool) = true := by
    decide +kernel
  have hok : ∀ entry ∈ (freshCache.run mixedReads).1, entry.1.ReadsRows → entry.2 = .ok () :=
    fun entry hmem _ => eq_ok_of_toBool (List.all_eq_true.mp hall entry hmem)
  obtain ⟨handed, passed, hhands, hcount, -⟩ := run_counts_rows freshCache hok
  obtain ⟨rfl, rfl⟩ := hhands.unique handsAll_mixedReads
  exact ⟨hhands, (UInt64.add_left_inj 1).mp hcount⟩

/-- The engine hands over two rows to a query that succeeds, and one is counted. -/
theorem older_row_not_counted :
    ((freshCache.run twoRooms).2.query roomQuery (.ofSeconds 10) false).1.toBool = true ∧
      (∃ rows, KeyValueEngine.startingWith (freshCache.run twoRooms).2.engine
          (RowKey.ofCollection roomQuery.collection) = .ok rows ∧ rows.length = 2) ∧
      (freshCache.run twoRooms).2.counters.rowsScanned = 0 ∧
      ((freshCache.run twoRooms).2.query roomQuery (.ofSeconds 10)
        false).2.counters.rowsScanned = 1 := by
  refine ⟨by decide +kernel, ⟨_, rfl, by decide +kernel⟩, by decide +kernel, by decide +kernel⟩

end DocumentCache.Cache
