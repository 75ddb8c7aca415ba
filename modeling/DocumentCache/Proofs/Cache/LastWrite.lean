import DocumentCache.Proofs.Cache.LongRows
import DocumentCache.Proofs.Cache.Scans

/-!
# The last write wins

A cache is opened on an empty directory and then called in any order; closing it and
opening its directory again is a call like the others.  It remembers a finite map:
adding a known document puts it there at its new read time, removing a key takes it
out, and nothing else changes anything.  After every history a lookup answers with
what is remembered, down to the last bit.

Rows that are longer than the lengths in a log record can say are remembered too, but
only until the cache is closed.
-/

namespace DocumentCache

namespace Cache

open Shell (FileCache)

/-! ## Calls -/

/-- A call by the user of a cache. -/
inductive Call where
  | add (document : Document) (readTime : ReadTime)
  | remove (key : DocumentKey)
  | get (key : DocumentKey)
  | getAll (keys : List DocumentKey)
  | query (query : Query) (since : ReadTime) (interrupted : Bool)
  | latestReadTime
  | checkpoint
  /-- Close the cache and open its directory with these settings. -/
  | reopen (settings : Settings)

/-- Open the cache of a directory with these settings. -/
def openOn (settings : Settings) (disk : Disk) : Except (Error × Disk) FileCache :=
  match SharedEngine.openOn settings disk with
  | .error failure => .error failure
  | .ok shared =>
      match Cache.create shared ParentIndex.empty Payload.codec settings with
      | .error error => .error (error, shared.engine.disk)
      | .ok cache => .ok cache

/-- The cache after a call, whatever the call answered; when the directory cannot be
opened again, it is all that is left. -/
def perform (cache : FileCache) : Call → Except (Error × Disk) FileCache
  | .add document readTime => .ok (cache.add document readTime).2
  | .remove key => .ok (cache.remove key).2
  | .get key => .ok (cache.get key).2
  | .getAll keys => .ok (cache.getAll keys).2
  | .query query since interrupted => .ok (cache.query query since interrupted).2
  | .latestReadTime => .ok cache.latestReadTime.2
  | .checkpoint => .ok { cache with engine := cache.engine.checkpoint.2 }
  | .reopen settings => openOn settings (Shell.diskOf cache)

/-- The cache after calls that began on an empty directory. -/
def history (settings : Settings) (calls : List Call) : Except (Error × Disk) FileCache := do
  let cache ← openOn settings .empty
  calls.foldlM perform cache

theorem history_append (settings : Settings) (calls more : List Call) :
    history settings (calls ++ more) =
      history settings calls >>= fun cache => more.foldlM perform cache := by
  simp only [history, List.foldlM_append, bind_assoc]

namespace Call

/-- Keys of documents added have no empty segment, their rows are not longer than a
machine word can say, and settings are usable and do not refuse older documents. -/
def Allowed : Call → Prop
  | .add document readTime => document.key.Named ∧ ∀ rowKey row,
      encodeRow Payload.codec document readTime = .ok (rowKey, row) → row.length < wordRange 8
  | .reopen settings => settings.validate = .ok () ∧ settings.rejectOlder = false
  | _ => True

/-- What is written fits the lengths of a log record. -/
def Short : Call → Prop
  | .add document readTime => ∀ rowKey row,
      encodeRow Payload.codec document readTime = .ok (rowKey, row) →
        (Operation.put rowKey row).Short
  | _ => True

/-- The call only asks. -/
def Asks : Call → Prop
  | .get _ => True
  | .getAll _ => True
  | .query _ _ _ => True
  | .latestReadTime => True
  | _ => False

/-- What is remembered after a call. -/
def effect (call : Call) (documents : DocumentMap) : DocumentMap :=
  match call with
  | .add document readTime =>
      if document.isKnown = true ∧ readTime ≠ .never then
        documents.insert document.key (document.withReadTime readTime)
      else documents
  | .remove key => documents.erase key
  | _ => documents

end Call

/-- What is remembered after calls that began with nothing. -/
def remembered (calls : List Call) : DocumentMap :=
  calls.foldl (fun documents call => call.effect documents) .empty

/-! ## Steps -/

/-- A usable cache that remembers these documents and may be closed once `short` is
known: then all records of its log are short enough. -/
structure Holds (cache : FileCache) (documents : DocumentMap) (short : Prop) : Prop where
  usable : cache.engine.poisoned = false
  codec_eq : cache.codec = Payload.codec
  lenient : cache.settings.rejectOlder = false
  calm : cache.engine.engine.fates = []
  synced : ∃ operations, cache.engine.engine.Synced operations ∧
    (short → Operation.AllShort operations)
  stored : Stores cache.engine.engine.table documents

theorem Works.holds {cache : FileCache} {documents : DocumentMap} {short : Prop}
    (h : cache.Works short) (hlenient : cache.settings.rejectOlder = false)
    (hstored : Stores cache.engine.engine.table documents) : cache.Holds documents short :=
  ⟨h.usable, h.codec_eq, hlenient, h.calm, h.synced, hstored⟩

namespace Holds

variable {cache : FileCache} {documents : DocumentMap} {short : Prop}

theorem works (h : cache.Holds documents short) : cache.Works short :=
  ⟨h.usable, h.codec_eq, h.calm, h.synced⟩

theorem answersFrom (h : cache.Holds documents short) :
    AnswersFrom cache.engine cache.engine.engine.table :=
  h.works.answersFrom

theorem get_eq (h : cache.Holds documents short) (key : DocumentKey) :
    (cache.get key).1 = .ok ((documents.get? key).getD (.unknown key)) :=
  h.stored.get_eq h.answersFrom h.codec_eq key

theorem mono (h : cache.Holds documents short) {weaker : Prop} (hshort : weaker → short) :
    cache.Holds documents weaker :=
  (h.works.mono hshort).holds h.lenient h.stored

/-- Counters do not matter. -/
theorem counters (h : cache.Holds documents short) (counters : Counters) :
    Holds { cache with counters } documents short :=
  ⟨h.usable, h.codec_eq, h.lenient, h.calm, h.synced, h.stored⟩

/-- Adding a document succeeds exactly if it is known and was read at some time. -/
theorem add (h : cache.Holds documents short) {document : Document} {readTime : ReadTime}
    (hallowed : (Call.add document readTime).Allowed) :
    ((cache.add document readTime).1 = .ok () ↔ document.isKnown = true ∧ readTime ≠ .never) ∧
      (cache.add document readTime).2.Holds ((Call.add document readTime).effect documents)
        (short ∧ (Call.add document readTime).Short) := by
  obtain ⟨hnamed, hrange⟩ := hallowed
  cases hencode : encodeRow Payload.codec document readTime with
  | error error =>
      have hrefused : ¬ (document.isKnown = true ∧ readTime ≠ .never) := by
        rintro ⟨hknown, hread⟩
        obtain ⟨row, hrow⟩ := encodeRow_of_known hknown hread
        rw [hencode] at hrow
        cases hrow
      rw [← h.codec_eq] at hencode
      rw [add_of_encodeRow_error hencode]
      constructor
      · refine iff_of_false ?_ hrefused
        intro hok
        cases hok
      · simp only [Call.effect, if_neg hrefused]
        exact h.mono And.left
  | ok encoded =>
      obtain ⟨rowKey, row⟩ := encoded
      obtain ⟨hread, rfl, contents, hcontents, _⟩ := encodeRow_cases hencode
      have haccepted : document.isKnown = true ∧ readTime ≠ .never :=
        ⟨Payload.isKnown_of_encode hcontents, hread⟩
      have hcheck : cache.checkAdd document.key readTime (RowKey.ofDocument document.key) =
          .ok () := by
        simp only [checkAdd, h.lenient, Bool.false_eq_true, if_false]
      have hcodec : encodeRow cache.codec document readTime =
          .ok (RowKey.ofDocument document.key, row) := by
        rw [h.codec_eq, hencode]
      obtain ⟨hok, hworks⟩ := h.works.add hcodec hcheck
      obtain ⟨other, hother, hwrote⟩ := wrote_of_add h.codec_eq hok
      obtain ⟨-, rfl⟩ := Prod.mk.inj (Except.ok.inj (hencode.symm.trans hother))
      have hstored := h.stored.insert hnamed hencode (hrange _ row hencode)
      rw [← hwrote.table_eq] at hstored
      refine ⟨iff_of_true hok haccepted, ?_⟩
      simp only [Call.effect, if_pos haccepted]
      refine Holds.mono (hworks.holds ?_ hstored) ?_
      · rw [hwrote.settings_eq, h.lenient]
      · rintro ⟨hshort, hrow⟩
        exact ⟨hshort, hrow _ row hencode⟩

theorem remove (h : cache.Holds documents short) (key : DocumentKey) :
    (cache.remove key).1 = .ok () ∧
      (cache.remove key).2.Holds (documents.erase key) short := by
  obtain ⟨engine, counters, hremove, htable, hworks⟩ := h.works.remove key
  have hstored := h.stored.erase key
  rw [← htable] at hstored
  rw [hremove]
  exact ⟨rfl, hworks.holds h.lenient hstored⟩

/-- Removing a key that is not there leaves everything but the counters alone. -/
theorem remove_absent (h : cache.Holds documents short) {key : DocumentKey}
    (hnone : documents.get? key = none) : (cache.remove key).2.engine = cache.engine := by
  have hrow := h.stored.get?_eq_none hnone
  have hdelete : cache.engine.engine.delete (RowKey.ofDocument key) =
      (.ok (), cache.engine.engine) := by
    simp only [Engine.delete, Engine.get?, hrow]
  have hwrite : KeyValueEngine.delete cache.engine (RowKey.ofDocument key) =
      (.ok (), cache.engine) := by
    have husable : ¬ cache.engine.poisoned = true := by simp [h.usable]
    change cache.engine.write (·.delete (RowKey.ofDocument key)) = _
    rw [SharedEngine.write, if_neg husable, hdelete]
  obtain ⟨counters, hremove⟩ := remove_of_delete hwrite
  rw [hremove]

theorem checkpoint (h : cache.Holds documents short) :
    Holds { cache with engine := cache.engine.checkpoint.2 } documents short := by
  obtain ⟨htable, hworks⟩ := h.works.checkpoint
  have hstored := h.stored
  rw [← htable] at hstored
  exact hworks.holds h.lenient hstored

end Holds

/-- Opening a directory whose log records a table gives a working cache of that table. -/
theorem openOn_works {settings : Settings} (hvalid : settings.validate = .ok ()) {disk : Disk}
    {table : Table} (hrecords : disk.Records table) (hcalm : disk.fates = []) :
    ∃ cache, openOn settings disk = .ok cache ∧ cache.settings = settings ∧
      cache.engine.engine.table = table ∧ cache.Works True := by
  obtain ⟨engine, hopen, ⟨⟨operations, hsync, hshort⟩, hstill⟩, rfl⟩ :=
    Engine.openOn_sound hvalid hrecords hcalm
  refine ⟨⟨.ofEngine engine, .empty, Payload.codec, settings, .zero⟩, ?_, rfl, rfl, ?_⟩
  · simp only [openOn, SharedEngine.openOn, hopen, Except.map, Cache.create, hvalid]
  · exact ⟨rfl, rfl, hstill, ⟨operations, hsync, fun _ => hshort⟩⟩

/-- Where all records are short enough, a cache can be closed and opened again. -/
theorem Works.reopen {cache : FileCache} {short : Prop} (h : cache.Works short) (hshort : short)
    {settings : Settings} (hvalid : settings.validate = .ok ()) :
    ∃ reopened, openOn settings (Shell.diskOf cache) = .ok reopened ∧
      reopened.settings = settings ∧
      reopened.engine.engine.table = cache.engine.engine.table ∧ reopened.Works True := by
  obtain ⟨operations, hsync, hall⟩ := h.synced
  exact openOn_works hvalid (hsync.records (hall hshort)) h.calm

/-- A directory whose log cannot be replayed gives no cache. -/
theorem openOn_of_engine_error {settings : Settings} {disk : Disk} {failure : Error × Disk}
    (h : Engine.openOn settings disk = .error failure) : openOn settings disk = .error failure := by
  simp only [openOn, SharedEngine.openOn, h, Except.map]

theorem openOn_holds {settings : Settings} (hvalid : settings.validate = .ok ())
    (hlenient : settings.rejectOlder = false) {disk : Disk} {table : Table}
    {documents : DocumentMap} (hrecords : disk.Records table) (hcalm : disk.fates = [])
    (hstored : Stores table documents) :
    ∃ cache, openOn settings disk = .ok cache ∧ cache.engine.engine.table = table ∧
      cache.Holds documents True := by
  obtain ⟨cache, hopen, rfl, rfl, hworks⟩ := openOn_works hvalid hrecords hcalm
  exact ⟨cache, hopen, rfl, hworks.holds hlenient hstored⟩

theorem Holds.reopen {cache : FileCache} {documents : DocumentMap} {short : Prop}
    (h : cache.Holds documents short) (hshort : short) {settings : Settings}
    (hvalid : settings.validate = .ok ()) (hlenient : settings.rejectOlder = false) :
    ∃ reopened, openOn settings (Shell.diskOf cache) = .ok reopened ∧
      reopened.engine.engine.table = cache.engine.engine.table ∧
      reopened.Holds documents True := by
  obtain ⟨reopened, hopen, rfl, htable, hworks⟩ := h.works.reopen hshort hvalid
  have hstored := h.stored
  rw [← htable] at hstored
  exact ⟨reopened, hopen, htable, hworks.holds hlenient hstored⟩

theorem perform_asks (cache : FileCache) {call : Call} (hasks : call.Asks) :
    ∃ counters, cache.perform call = .ok { cache with counters } := by
  cases call with
  | get key =>
      obtain ⟨counters, hget⟩ := cache.get_keeps key
      exact ⟨counters, congrArg Except.ok hget⟩
  | getAll keys =>
      obtain ⟨counters, hget⟩ := cache.getAll_keeps keys
      exact ⟨counters, congrArg Except.ok hget⟩
  | query query since interrupted =>
      obtain ⟨counters, hquery⟩ := cache.query_keeps query since interrupted
      exact ⟨counters, congrArg Except.ok hquery⟩
  | latestReadTime =>
      obtain ⟨counters, hlatest⟩ := cache.latestReadTime_keeps
      exact ⟨counters, congrArg Except.ok hlatest⟩
  | add _ _ => exact hasks.elim
  | remove _ => exact hasks.elim
  | checkpoint => exact hasks.elim
  | reopen _ => exact hasks.elim

theorem effect_of_asks {call : Call} (hasks : call.Asks) (documents : DocumentMap) :
    call.effect documents = documents := by
  cases call <;> first | rfl | exact hasks.elim

theorem perform_holds {cache : FileCache} {documents : DocumentMap} {short : Prop}
    (h : cache.Holds documents short) {call : Call} (hallowed : call.Allowed)
    (hreopen : ∀ settings, call = .reopen settings → short) :
    ∃ after, cache.perform call = .ok after ∧
      after.Holds (call.effect documents) (short ∧ call.Short) := by
  by_cases hasks : call.Asks
  · obtain ⟨counters, hperform⟩ := cache.perform_asks hasks
    rw [hperform, effect_of_asks hasks]
    exact ⟨_, rfl, (h.counters counters).mono And.left⟩
  · cases call with
    | add document readTime => exact ⟨_, rfl, (h.add hallowed).2⟩
    | remove key => exact ⟨_, rfl, (h.remove key).2.mono And.left⟩
    | checkpoint => exact ⟨_, rfl, h.checkpoint.mono And.left⟩
    | reopen settings =>
        obtain ⟨after, hopen, _, hafter⟩ :=
          h.reopen (hreopen settings rfl) hallowed.1 hallowed.2
        exact ⟨after, hopen, hafter.mono fun _ => trivial⟩
    | get _ => exact absurd trivial hasks
    | getAll _ => exact absurd trivial hasks
    | query _ _ _ => exact absurd trivial hasks
    | latestReadTime => exact absurd trivial hasks

/-! ## Runs -/

/-- Every row written before the cache is closed fits the lengths of a log record. -/
def ShortWhenClosed (calls : List Call) : Prop :=
  ∀ before settings after, calls = before ++ .reopen settings :: after →
    ∀ call ∈ before, call.Short

theorem shortWhenClosed_of_short {calls : List Call} (h : ∀ call ∈ calls, call.Short) :
    ShortWhenClosed calls := by
  intro before settings after hsplit call hmem
  exact h call (hsplit ▸ List.mem_append_left _ hmem)

/-- What is kept by every call of a history holds after all of them: `Inv` tells of the
calls made so far and of the cache after them. -/
theorem performAll_keeps {Fits : Call → Prop} {Inv : List Call → FileCache → Prop}
    (hstep : ∀ earlier cache call, Inv earlier cache → Fits call →
      (∀ settings, call = .reopen settings → ∀ other ∈ earlier, other.Short) →
        ∃ after, cache.perform call = .ok after ∧ Inv (earlier ++ [call]) after)
    {cache : FileCache} {earlier calls : List Call} (h : Inv earlier cache)
    (hfits : ∀ call ∈ calls, Fits call) (hshort : ShortWhenClosed (earlier ++ calls)) :
    ∃ after, calls.foldlM perform cache = .ok after ∧ Inv (earlier ++ calls) after := by
  induction calls generalizing cache earlier with
  | nil =>
      refine ⟨cache, rfl, ?_⟩
      rw [List.append_nil]
      exact h
  | cons call rest ih =>
      obtain ⟨hcall, hrest⟩ := List.forall_mem_cons.mp hfits
      have hreopen : ∀ settings, call = .reopen settings → ∀ other ∈ earlier, other.Short := by
        rintro settings rfl
        exact hshort earlier settings rest rfl
      obtain ⟨middle, hperform, hmiddle⟩ := hstep earlier cache call h hcall hreopen
      have hsplit : earlier ++ call :: rest = earlier ++ [call] ++ rest := by simp
      rw [hsplit] at hshort ⊢
      obtain ⟨after, hafter, hinv⟩ := ih hmiddle hrest hshort
      refine ⟨after, ?_, hinv⟩
      rw [List.foldlM_cons, hperform]
      exact hafter

/-- What the cache of an empty directory is known for and every call keeps holds after every
history. -/
theorem history_invariant {Fits : Call → Prop} {Inv : List Call → FileCache → Prop}
    {settings : Settings}
    (hstart : ∃ cache, openOn settings .empty = .ok cache ∧ Inv [] cache)
    (hstep : ∀ earlier cache call, Inv earlier cache → Fits call →
      (∀ settings, call = .reopen settings → ∀ other ∈ earlier, other.Short) →
        ∃ after, cache.perform call = .ok after ∧ Inv (earlier ++ [call]) after)
    {calls : List Call} (hfits : ∀ call ∈ calls, Fits call) (hshort : ShortWhenClosed calls) :
    ∃ cache, history settings calls = .ok cache ∧ Inv calls cache := by
  obtain ⟨opened, hopen, hopened⟩ := hstart
  obtain ⟨cache, hcalls, hcache⟩ := performAll_keeps hstep hopened hfits hshort
  refine ⟨cache, ?_, hcache⟩
  rw [history, hopen]
  exact hcalls

theorem forall_short_concat {earlier : List Call} {call : Call}
    (h : ∀ other ∈ earlier ++ [call], other.Short) :
    (∀ other ∈ earlier, other.Short) ∧ call.Short := by
  obtain ⟨hearlier, hlast⟩ := List.forall_mem_append.mp h
  exact ⟨hearlier, hlast call (List.mem_singleton_self call)⟩

theorem remembered_concat (earlier : List Call) (call : Call) :
    remembered (earlier ++ [call]) = call.effect (remembered earlier) := by
  simp only [remembered, List.foldl_append, List.foldl_cons, List.foldl_nil]

theorem history_holds {settings : Settings} (hvalid : settings.validate = .ok ())
    (hlenient : settings.rejectOlder = false) {calls : List Call}
    (hallowed : ∀ call ∈ calls, call.Allowed) (hshort : ShortWhenClosed calls) :
    ∃ cache, history settings calls = .ok cache ∧
      cache.Holds (remembered calls) (∀ call ∈ calls, call.Short) := by
  obtain ⟨opened, hopen, _, hopened⟩ :=
    openOn_holds hvalid hlenient Engine.records_empty rfl stores_empty
  have hstart : opened.Holds (remembered []) (∀ call ∈ ([] : List Call), call.Short) :=
    hopened.mono fun _ => trivial
  apply history_invariant ⟨opened, hopen, hstart⟩ ?_ hallowed hshort
  intro earlier cache call hcache hcall hreopen
  obtain ⟨after, hperform, hafter⟩ := perform_holds hcache hcall hreopen
  rw [← remembered_concat] at hafter
  exact ⟨after, hperform, hafter.mono forall_short_concat⟩

/-! ## What is remembered -/

/-- Two caches that answer every question alike. -/
structure AnswersAlike (left right : FileCache) : Prop where
  get : ∀ key, (left.get key).1 = (right.get key).1
  getAll : ∀ keys, (left.getAll keys).1 = (right.getAll keys).1
  query : ∀ query since interrupted,
    (left.query query since interrupted).1 = (right.query query since interrupted).1
  latestReadTime : left.latestReadTime.1 = right.latestReadTime.1

theorem answersAlike_of_table {left right : FileCache} {table : Table}
    (hleft : AnswersFrom left.engine table) (hright : AnswersFrom right.engine table)
    (hcodec : left.codec = right.codec) : AnswersAlike left right where
  get key := by rw [get_eq hleft, get_eq hright, hcodec]
  getAll keys := getAll_congr hright hleft hcodec keys
  query query since interrupted := by rw [query_eq hleft, query_eq hright, hcodec]
  latestReadTime := by rw [latestReadTime_eq hleft, latestReadTime_eq hright]

/-- A cache is a finite map: lookups answer with it, a known document is put in at its
new read time, a key is taken out, and nothing else shows. -/
structure Remembers (cache : FileCache) (documents : DocumentMap) : Prop where
  get : ∀ key, (cache.get key).1 = .ok ((documents.get? key).getD (.unknown key))
  add : ∀ document readTime, (Call.add document readTime).Allowed →
    ((cache.add document readTime).1 = .ok () ↔ document.isKnown = true ∧ readTime ≠ .never)
  add_other : ∀ document readTime key, (Call.add document readTime).Allowed →
    key ≠ document.key → ((cache.add document readTime).2.get key).1 = (cache.get key).1
  remove : ∀ key, (cache.remove key).1 = .ok ()
  remove_other : ∀ key other, other ≠ key →
    ((cache.remove key).2.get other).1 = (cache.get other).1
  remove_absent : ∀ key, documents.get? key = none → (cache.remove key).2.engine = cache.engine
  asks : ∀ call : Call, call.Asks → ∃ counters, cache.perform call = .ok { cache with counters }

theorem get?_effect_add_of_ne (documents : DocumentMap) (document : Document) (readTime : ReadTime)
    {key : DocumentKey} (hkey : key ≠ document.key) :
    ((Call.add document readTime).effect documents).get? key = documents.get? key := by
  simp only [Call.effect]
  split
  · exact OrderedMap.get?_insert_of_ne _ _ hkey
  · rfl

theorem Holds.remembers {cache : FileCache} {documents : DocumentMap} {short : Prop}
    (h : cache.Holds documents short) : cache.Remembers documents where
  get := h.get_eq
  add _ _ hallowed := (h.add hallowed).1
  add_other document readTime key hallowed hkey := by
    rw [(h.add hallowed).2.get_eq, h.get_eq, get?_effect_add_of_ne _ _ _ hkey]
  remove key := (h.remove key).1
  remove_other key other hother := by
    rw [(h.remove key).2.get_eq, h.get_eq, OrderedMap.get?_erase_of_ne _ hother]
  remove_absent _ hnone := h.remove_absent hnone
  asks _ hasks := cache.perform_asks hasks

/-- After every history a cache is the finite map of the last documents added and not
removed since, and opening its directory again changes no answer. -/
theorem history_remembers {settings : Settings} (hvalid : settings.validate = .ok ())
    (hlenient : settings.rejectOlder = false) {calls : List Call}
    (hallowed : ∀ call ∈ calls, call.Allowed) (hshort : ShortWhenClosed calls) :
    ∃ cache, history settings calls = .ok cache ∧ cache.Remembers (remembered calls) ∧
      ((∀ call ∈ calls, call.Short) → ∀ next : Settings, next.validate = .ok () →
        next.rejectOlder = false → ∃ reopened, openOn next (Shell.diskOf cache) = .ok reopened ∧
          reopened.AnswersAlike cache) := by
  obtain ⟨cache, hhistory, hcache⟩ := history_holds hvalid hlenient hallowed hshort
  refine ⟨cache, hhistory, hcache.remembers, ?_⟩
  intro hall next hnext hagain
  obtain ⟨reopened, hopen, htable, hreopened⟩ := hcache.reopen hall hnext hagain
  have hanswers := hreopened.answersFrom
  rw [htable] at hanswers
  exact ⟨reopened, hopen, answersAlike_of_table hanswers hcache.answersFrom
    (hreopened.codec_eq.trans hcache.codec_eq.symm)⟩

/-- A note that holds a NaN, as it was read before it came into the cache. -/
def oddNote : Document :=
  .found (noteKey "odd") .never (.ofEntries [("x", .double 0x7FF8000000000001)])
    (.ofSeconds 9)

/-- Calls that store the odd note, close the cache, and delete another note. -/
def noteCalls : List Call :=
  [.add oddNote (.ofSeconds 5), .reopen .default,
    .add (.deleted (noteKey "old") .never .never) (.ofSeconds 2),
    .remove (noteKey "old"), .latestReadTime]

/-- A row whose length is known answers for all that the document may be stored as. -/
theorem add_allowed_short {document : Document} {readTime : ReadTime} {rowKey row : Bytes}
    (hnamed : document.key.Named)
    (hencode : encodeRow Payload.codec document readTime = .ok (rowKey, row))
    (hshort : (Operation.put rowKey row).Short) :
    (Call.add document readTime).Allowed ∧ (Call.add document readTime).Short := by
  have honly : ∀ otherKey other, encodeRow Payload.codec document readTime =
      .ok (otherKey, other) → rowKey = otherKey ∧ row = other := by
    intro otherKey other hother
    exact Prod.mk.inj (Except.ok.inj (hencode.symm.trans hother))
  refine ⟨⟨hnamed, ?_⟩, ?_⟩
  · intro otherKey other hother
    obtain ⟨rfl, rfl⟩ := honly otherKey other hother
    exact Nat.lt_trans hshort.2 (by decide)
  · intro otherKey other hother
    obtain ⟨rfl, rfl⟩ := honly otherKey other hother
    exact hshort

theorem noteCalls_allowed_short : ∀ call ∈ noteCalls, call.Allowed ∧ call.Short := by
  have hodd : (noteKey "odd").Named := DocumentKey.named_topLevel (by decide) (by decide)
  have hold : (noteKey "old").Named := DocumentKey.named_topLevel (by decide) (by decide)
  simp only [noteCalls, List.forall_mem_cons]
  refine ⟨add_allowed_short hodd rfl (by decide +kernel), ⟨⟨rfl, rfl⟩, trivial⟩,
    add_allowed_short hold rfl (by decide +kernel), ⟨trivial, trivial⟩, ⟨trivial, trivial⟩,
    List.forall_mem_nil _⟩

theorem history_remembers_noteCalls :
    ∃ cache reopened, history .default noteCalls = .ok cache ∧
      (cache.get (noteKey "odd")).1 = .ok (oddNote.withReadTime (.ofSeconds 5)) ∧
      (cache.get (noteKey "old")).1 = .ok (.unknown (noteKey "old")) ∧
      openOn .default (Shell.diskOf cache) = .ok reopened ∧
      ∀ key, (reopened.get key).1 = (cache.get key).1 := by
  have hvalid : Settings.default.validate = .ok () := rfl
  have hallowed : ∀ call ∈ noteCalls, call.Allowed := fun call hmem =>
    (noteCalls_allowed_short call hmem).1
  have hshort : ∀ call ∈ noteCalls, call.Short := fun call hmem =>
    (noteCalls_allowed_short call hmem).2
  obtain ⟨cache, hhistory, hremembers, hreopen⟩ :=
    history_remembers hvalid rfl hallowed (shortWhenClosed_of_short hshort)
  obtain ⟨reopened, hopen, halike⟩ := hreopen hshort .default rfl rfl
  refine ⟨cache, reopened, hhistory, ?_, ?_, hopen, halike.get⟩
  · rw [hremembers.get]
    rfl
  · rw [hremembers.get]
    rfl

/-! ## A row that is too long -/

/-- With so many letters in the name of its field a note has a row of exactly one byte more than
the lengths of a log record can say. -/
def tooManyLetters : Nat := wordRange 4 - 104

theorem length_wordyRow_tooManyLetters : (wordyRow tooManyLetters).length = wordRange 4 := by
  rw [length_wordyRow, tooManyLetters, Nat.sub_add_cancel (by decide)]

theorem allowed_wordyNote : (Call.add (wordyNote tooManyLetters) (.ofSeconds 6)).Allowed := by
  refine ⟨DocumentKey.named_topLevel (by decide) (by decide), ?_⟩
  intro rowKey row hrow
  obtain ⟨-, rfl⟩ := Prod.mk.inj (Except.ok.inj ((encodeRow_wordyNote _).symm.trans hrow))
  rw [length_wordyRow_tooManyLetters]
  decide

/-- The note is remembered, but only until the cache is closed. -/
theorem Holds.add_wordyNote {cache : FileCache} {documents : DocumentMap} {short : Prop}
    (h : cache.Holds documents short) (hshort : short) {next : Settings}
    (hnext : next.validate = .ok ()) :
    let after := (cache.add (wordyNote tooManyLetters) (.ofSeconds 6)).2
    (cache.add (wordyNote tooManyLetters) (.ofSeconds 6)).1 = .ok () ∧
      after.Holds (documents.insert (noteKey "wordy") (wordyNote tooManyLetters)) False ∧
      openOn next (Shell.diskOf after) =
        .error (.recoveryFailed .recordChecksum, Shell.diskOf after) := by
  obtain ⟨-, hafter⟩ := h.add allowed_wordyNote
  have hencode := encodeRow_wordyNote tooManyLetters
  rw [← h.codec_eq] at hencode
  have hcheck : cache.checkAdd (noteKey "wordy") (.ofSeconds 6)
      (RowKey.ofDocument (noteKey "wordy")) = .ok () := by
    simp only [checkAdd, h.lenient, Bool.false_eq_true, if_false]
  obtain ⟨hok, hrefused⟩ := h.works.add_refuses hshort hencode hcheck (by decide)
    (Nat.le_of_eq length_wordyRow_tooManyLetters.symm)
    (cutWrong_wordyRow length_wordyRow_tooManyLetters) hnext
  exact ⟨hok, hafter.mono False.elim, openOn_of_engine_error hrefused⟩

/-- Such a note is added and can be looked up, like the one that was added before it; but then
the cache cannot be opened again, as it could before, and both are lost. -/
theorem reopen_refused_of_wordyNote :
    ∃ first last disk,
      (∀ call ∈ [Call.add oddNote (.ofSeconds 5), .add (wordyNote tooManyLetters) (.ofSeconds 6),
        .reopen .default], call.Allowed) ∧
      history .default [.add oddNote (.ofSeconds 5)] = .ok first ∧
      (∃ reopened, openOn .default (Shell.diskOf first) = .ok reopened ∧
        (reopened.get (noteKey "odd")).1 = .ok (oddNote.withReadTime (.ofSeconds 5))) ∧
      first.add (wordyNote tooManyLetters) (.ofSeconds 6) = (.ok (), last) ∧
      (last.get (noteKey "odd")).1 = .ok (oddNote.withReadTime (.ofSeconds 5)) ∧
      (last.get (noteKey "wordy")).1 = .ok (wordyNote tooManyLetters) ∧
      openOn .default (Shell.diskOf last) = .error (.recoveryFailed .recordChecksum, disk) ∧
      history .default [.add oddNote (.ofSeconds 5), .add (wordyNote tooManyLetters) (.ofSeconds 6),
        .reopen .default] = .error (.recoveryFailed .recordChecksum, disk) := by
  have hvalid : Settings.default.validate = .ok () := rfl
  obtain ⟨hodd, hfits⟩ := noteCalls_allowed_short _ List.mem_cons_self
  have hshort := List.forall_mem_singleton.mpr hfits
  obtain ⟨first, hfirst, hholds⟩ := history_holds hvalid rfl
    (List.forall_mem_singleton.mpr hodd) (shortWhenClosed_of_short hshort)
  obtain ⟨reopened, hopen, -, hreopened⟩ := hholds.reopen hshort hvalid rfl
  obtain ⟨hok, hafter, hrefused⟩ := hholds.add_wordyNote hshort hvalid
  refine ⟨first, _, _, ?_, hfirst, ⟨reopened, hopen, ?_⟩, Prod.ext hok rfl, ?_, ?_, hrefused, ?_⟩
  · simp only [List.forall_mem_cons]
    exact ⟨hodd, allowed_wordyNote, ⟨rfl, rfl⟩, List.forall_mem_nil _⟩
  · rw [hreopened.get_eq]
    rfl
  · rw [hafter.get_eq, OrderedMap.get?_insert_of_ne _ _ (by decide)]
    rfl
  · rw [hafter.get_eq, OrderedMap.get?_insert_self]
    rfl
  · have hsplit : history .default ([.add oddNote (.ofSeconds 5)] ++
        [.add (wordyNote tooManyLetters) (.ofSeconds 6), .reopen .default]) = _ :=
      history_append _ _ _
    rw [hfirst] at hsplit
    exact hsplit.trans ((bind_pure _).trans hrefused)

end Cache

end DocumentCache
