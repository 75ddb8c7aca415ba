import DocumentCache.Proofs.Cache.KeptRows
import DocumentCache.Proofs.Cache.ReadableAdds

/-!
# Catching up

Who knows what a query found, and the latest read time when it did, need not ask for
everything again.  As long as documents are only added, and only as read later than
that, the query from then on tells what changed: with what was found before under
keys that were not added since, it makes up all that the query finds now.
-/

namespace DocumentCache.Cache

open Shell (FileCache)

/-! ## Runs of adds -/

/-- The cache after an add that succeeds. -/
def addNext (cache : FileCache) (request : Request) : Except Error FileCache :=
  match cache.add request.document request.readTime with
  | (.error error, _) => .error error
  | (.ok (), after) => .ok after

/-- The cache after adds that all succeed. -/
def addAll (cache : FileCache) (requests : List Request) : Except Error FileCache :=
  requests.foldlM addNext cache

/-- The documents that are there after adds that all succeed. -/
def addedTo (documents : DocumentMap) (requests : List Request) : DocumentMap :=
  requests.foldl (fun documents request => documents.insert request.key request.stored) documents

theorem addNext_eq_ok_iff {cache after : FileCache} {request : Request} :
    cache.addNext request = .ok after ↔
      (cache.add request.document request.readTime).1 = .ok () ∧
        (cache.add request.document request.readTime).2 = after := by
  unfold addNext
  cases cache.add request.document request.readTime with
  | mk result next => cases result <;> simp

theorem addAll_cons_of_ok {cache : FileCache} {request : Request}
    (h : (cache.add request.document request.readTime).1 = .ok ()) (rest : List Request) :
    cache.addAll (request :: rest) =
      (cache.add request.document request.readTime).2.addAll rest := by
  rw [addAll, List.foldlM_cons, addNext_eq_ok_iff.mpr ⟨h, rfl⟩]
  rfl

/-- After one more add its document is there, read at the time it was added with. -/
theorem Shows.addNext {cache after : FileCache} {documents : DocumentMap}
    (h : cache.Shows documents) {request : Request} (hfits : request.Fits)
    (hadd : cache.addNext request = .ok after) :
    after.Shows (documents.insert request.key request.stored) ∧
      request.stored.readTime = request.readTime := by
  obtain ⟨hok, rfl⟩ := addNext_eq_ok_iff.mp hadd
  obtain ⟨row, hencode, hwrote⟩ := wrote_of_add h.codec_eq hok
  obtain ⟨-, -, contents, hcontents, -⟩ := encodeRow_cases hencode
  have hkept := h.kept.insert hfits.1 hencode (hfits.2 _ row hencode)
  have hanswers := hwrote.answers
  rw [← hwrote.table_eq] at hkept hanswers
  exact ⟨⟨hanswers, hwrote.codec_eq.trans h.codec_eq, hkept⟩,
    Document.readTime_withReadTime _ (Payload.isKnown_of_encode hcontents)⟩

theorem Shows.addAll {cache after : FileCache} {documents : DocumentMap}
    (h : cache.Shows documents) {requests : List Request}
    (hfits : ∀ request ∈ requests, request.Fits) (hadd : cache.addAll requests = .ok after) :
    after.Shows (addedTo documents requests) ∧
      ∀ request ∈ requests, request.stored.readTime = request.readTime := by
  induction requests generalizing cache documents with
  | nil =>
      obtain rfl := Except.ok.inj hadd
      exact ⟨h, List.forall_mem_nil _⟩
  | cons request rest ih =>
      obtain ⟨hfirst, hrest⟩ := List.forall_mem_cons.mp hfits
      obtain ⟨middle, hmiddle, hafter⟩ := bind_eq_ok_iff.mp (List.foldlM_cons.symm.trans hadd)
      obtain ⟨hshows, htime⟩ := h.addNext hfirst hmiddle
      obtain ⟨hall, htimes⟩ := ih hshows hrest hafter
      exact ⟨hall, List.forall_mem_cons.mpr ⟨htime, htimes⟩⟩

/-! ## What was added -/

theorem get?_addedTo_of_forall_ne {documents : DocumentMap} {requests : List Request}
    {key : DocumentKey} (h : ∀ request ∈ requests, request.key ≠ key) :
    (addedTo documents requests).get? key = documents.get? key := by
  induction requests generalizing documents with
  | nil => rfl
  | cons request rest ih =>
      obtain ⟨hfirst, hrest⟩ := List.forall_mem_cons.mp h
      rw [addedTo, List.foldl_cons]
      exact (ih hrest).trans (OrderedMap.get?_insert_of_ne _ _ (Ne.symm hfirst))

/-- Under a key that was added lies one of the documents added. -/
theorem exists_get?_addedTo (documents : DocumentMap) {requests : List Request}
    {key : DocumentKey} (h : ∃ request ∈ requests, request.key = key) :
    ∃ request ∈ requests, (addedTo documents requests).get? key = some request.stored := by
  induction requests generalizing documents with
  | nil =>
      obtain ⟨_, hmem, _⟩ := h
      cases hmem
  | cons request rest ih =>
      rw [addedTo, List.foldl_cons]
      by_cases hlater : ∃ other ∈ rest, other.key = key
      · obtain ⟨other, hmem, hget⟩ := ih (documents.insert request.key request.stored) hlater
        exact ⟨other, List.mem_cons_of_mem _ hmem, hget⟩
      · have hrest : ∀ other ∈ rest, other.key ≠ key := fun other hmem hother =>
          hlater ⟨other, hmem, hother⟩
        obtain ⟨first, hmem, hfirst⟩ := h
        rcases List.mem_cons.mp hmem with rfl | hmem
        · refine ⟨first, List.mem_cons_self .., ?_⟩
          refine (get?_addedTo_of_forall_ne hrest).trans ?_
          rw [hfirst, OrderedMap.get?_insert_self]
        · exact absurd hfirst (hrest first hmem)

/-- What lies under a key that was added was read after the given time, if everything was. -/
theorem recent_of_get?_addedTo {documents : DocumentMap} {requests : List Request}
    {since : ReadTime} (htimes : ∀ request ∈ requests, since < request.stored.readTime)
    {key : DocumentKey} (hadded : ∃ request ∈ requests, request.key = key) {document : Document}
    (h : (addedTo documents requests).get? key = some document) :
    Recent since document.readTime := by
  obtain ⟨request, hmem, hget⟩ := exists_get?_addedTo documents hadded
  obtain rfl := Option.some.inj (hget.symm.trans h)
  exact .inr (htimes request hmem)

/-! ## Queries before and after -/

/-- What a query finds from the latest read time on changes what it found before into what it
finds now. -/
structure CatchesUp (before after : FileCache) (latest : ReadTime) (requests : List Request)
    (query : Query) (old new all : DocumentMap) : Prop where
  old_eq : (before.query query .never false).1 = .ok old
  new_eq : (after.query query latest false).1 = .ok new
  all_eq : (after.query query .never false).1 = .ok all
  all_iff : ∀ key document, all.get? key = some document ↔
    ((∀ request ∈ requests, request.key ≠ key) ∧ old.get? key = some document) ∨
      new.get? key = some document

theorem Shows.catchesUp {cache after : FileCache} {documents : DocumentMap}
    (h : cache.Shows documents) {latest : ReadTime} {requests : List Request}
    (hfits : ∀ request ∈ requests, request.Fits)
    (hlater : ∀ request ∈ requests, latest < request.readTime)
    (hadd : cache.addAll requests = .ok after) {query : Query} (htotal : query.Total) :
    ∃ old new all, CatchesUp cache after latest requests query old new all := by
  obtain ⟨hafter, htimes⟩ := h.addAll hfits hadd
  obtain ⟨old, hold, hget⟩ := h.query_eq htotal .never
  obtain ⟨new, hnew, hgetNew⟩ := hafter.query_eq htotal latest
  obtain ⟨all, hall, hgetAll⟩ := hafter.query_eq htotal .never
  have hrecent : ∀ request ∈ requests, latest < request.stored.readTime := by
    intro request hmem
    rw [htimes request hmem]
    exact hlater request hmem
  refine ⟨old, new, all, hold, hnew, hall, ?_⟩
  intro key document
  have halways : Recent .never document.readTime := .inl rfl
  rw [hget, hgetNew, hgetAll]
  constructor
  · rintro ⟨hcollection, ⟨hheld, -⟩, hwants⟩
    -- A key that was added holds a later document now; under any other one nothing changed.
    by_cases hadded : ∃ request ∈ requests, request.key = key
    · have hlate := recent_of_get?_addedTo hrecent hadded hheld
      exact .inr ⟨hcollection, ⟨hheld, hlate⟩, hwants⟩
    · have hother : ∀ request ∈ requests, request.key ≠ key := fun request hmem hkey =>
        hadded ⟨request, hmem, hkey⟩
      rw [get?_addedTo_of_forall_ne hother] at hheld
      exact .inl ⟨hother, hcollection, ⟨hheld, halways⟩, hwants⟩
  · rintro (⟨hother, hcollection, ⟨hheld, -⟩, hwants⟩ | ⟨hcollection, ⟨hheld, -⟩, hwants⟩)
    · rw [← get?_addedTo_of_forall_ne hother] at hheld
      exact ⟨hcollection, ⟨hheld, halways⟩, hwants⟩
    · exact ⟨hcollection, ⟨hheld, halways⟩, hwants⟩

/-- Nothing was read after the latest read time. -/
theorem Shows.query_latest {cache : FileCache} {documents : DocumentMap}
    (h : cache.Shows documents) {latest : ReadTime}
    (hlatest : LatestIn cache.engine.engine.table latest) (hne : latest ≠ .never)
    {query : Query} (htotal : query.Total) :
    (cache.query query latest false).1 = .ok .empty := by
  obtain ⟨found, hfound, hget⟩ := h.query_eq htotal latest
  have hnone : found = .empty := by
    apply OrderedMap.ext_get?
    intro key
    cases hheld : found.get? key with
    | none => rfl
    | some document =>
        obtain ⟨-, ⟨hdocument, hrecent⟩, -⟩ := (hget key document).mp hheld
        rcases hrecent with hnever | hlate
        · exact absurd hnever hne
        · exact absurd (h.kept.le_latest hlatest hdocument) (Nat.not_le_of_lt hlate)
  rw [hfound, hnone]

/-- After every history the latest read time is the maximum over all rows, and a query from
then on finds nothing yet.  After any run of adds as read later it finds all that changed. -/
theorem history_catches_up {settings : Settings} (hvalid : settings.validate = .ok ())
    {calls : List Call} (hpermitted : ∀ call ∈ calls, call.Permitted)
    (hshort : ShortWhenClosed calls) :
    ∃ cache latest, history settings calls = .ok cache ∧ cache.latestReadTime.1 = .ok latest ∧
      LatestIn cache.engine.engine.table latest ∧
      ∀ query : Query, query.Total →
        (latest ≠ .never → (cache.query query latest false).1 = .ok .empty) ∧
        ∀ requests after, (∀ request ∈ requests, request.Fits ∧ latest < request.readTime) →
          cache.addAll requests = .ok after →
            ∃ old new all, CatchesUp cache after latest requests query old new all := by
  obtain ⟨cache, hhistory, documents, hkeeps⟩ := history_keeps hvalid hpermitted hshort
  obtain ⟨latest, heq, hlatest⟩ := hkeeps.shows.latest_eq
  refine ⟨cache, latest, hhistory, heq, hlatest, ?_⟩
  intro query htotal
  refine ⟨fun hne => hkeeps.shows.query_latest hlatest hne htotal, ?_⟩
  intro requests after hrequests hadd
  exact hkeeps.shows.catchesUp (fun request hmem => (hrequests request hmem).1)
    (fun request hmem => (hrequests request hmem).2) hadd htotal

/-- A cache that holds nothing but the odd note has its read time as the latest one. -/
theorem latest_of_shows_oddNote {cache : FileCache}
    (h : cache.Shows (OrderedMap.empty.insert oddReading.key oddReading.stored))
    {latest : ReadTime} (hlatest : LatestIn cache.engine.engine.table latest) :
    latest = .ofSeconds 5 := by
  have hle : oddReading.stored.readTime ≤ latest :=
    h.kept.le_latest hlatest (OrderedMap.get?_insert_self _ _ _)
  have hne : latest ≠ .never := by
    rintro rfl
    exact absurd hle (by decide)
  obtain ⟨key, document, hheld, rfl⟩ := h.kept.exists_latest hlatest hne
  rcases (get?_insert_iff rfl).mp hheld with hnone | ⟨-, rfl⟩
  · cases hnone
  · rfl

/-- A query for all notes finds the only one that is there, if that is recent. -/
theorem Shows.noteQuery_eq {cache : FileCache} {documents : DocumentMap}
    (h : cache.Shows documents) {since : ReadTime} {found : DocumentMap}
    (hquery : (cache.query noteQuery since false).1 = .ok found) {request : Request}
    (hcollection : request.key.collection = noteQuery.collection)
    (hheld : documents.get? request.key = some request.stored)
    (hrecent : Recent since request.stored.readTime) (hfound : request.stored.isFound = true)
    (honly : ∀ key document, documents.get? key = some document → document.isFound = true →
      key = request.key) :
    found = OrderedMap.empty.insert request.key request.stored := by
  apply OrderedMap.ext_get?
  intro key
  apply Option.ext
  intro document
  rw [h.get?_query_iff (fun _ hmem => by cases hmem) hquery, get?_insert_iff rfl]
  constructor
  · rintro ⟨-, ⟨hdocument, -⟩, hwanted, -⟩
    obtain rfl := honly key document hdocument hwanted
    exact .inr ⟨rfl, Option.some.inj (hheld.symm.trans hdocument)⟩
  · rintro (hnone | ⟨rfl, rfl⟩)
    · cases hnone
    · exact ⟨hcollection, ⟨hheld, hrecent⟩, hfound, fun _ hmem => by cases hmem⟩

/-- The odd note is deleted and the even one is there: no other one is found. -/
theorem key_eq_of_isFound {key : DocumentKey} {document : Document}
    (hheld : (addedTo (OrderedMap.empty.insert oddReading.key oddReading.stored)
      [oddTombstone, evenReading]).get? key = some document)
    (hfound : document.isFound = true) : key = evenReading.key := by
  by_cases heven : key = evenReading.key
  · exact heven
  · have hother := (OrderedMap.get?_insert_of_ne _ _ heven).symm.trans hheld
    by_cases hodd : key = oddTombstone.key
    · rw [hodd, OrderedMap.get?_insert_self] at hother
      obtain rfl := Option.some.inj hother
      cases hfound
    · have hreading : key ≠ oddReading.key := hodd
      rw [OrderedMap.get?_insert_of_ne _ _ hodd, OrderedMap.get?_insert_of_ne _ _ hreading] at hother
      cases hother

/-- The latest read time is that of the odd note, which is all that a query finds.  Once the odd
note is deleted and the even one is there, a query from then on finds the even note, and with the
odd one out that is all there is to find. -/
theorem history_catches_up_oddNote :
    ∃ cache after old new all, history .default [.add oddNote (.ofSeconds 5)] = .ok cache ∧
      cache.latestReadTime.1 = .ok (.ofSeconds 5) ∧
      (cache.query noteQuery (.ofSeconds 5) false).1 = .ok .empty ∧
      cache.addAll [oddTombstone, evenReading] = .ok after ∧
      CatchesUp cache after (.ofSeconds 5) [oddTombstone, evenReading] noteQuery old new all ∧
      old = OrderedMap.empty.insert oddReading.key oddReading.stored ∧
      new = OrderedMap.empty.insert evenReading.key evenReading.stored ∧
      all = OrderedMap.empty.insert evenReading.key evenReading.stored := by
  have hvalid : Settings.default.validate = .ok () := rfl
  have hodd := oddReading_allowed_short
  have htombstone := oddTombstone_allowed_short
  have heven := evenReading_allowed_short
  obtain ⟨opened, hopen, htable, hholds⟩ :=
    openOn_holds hvalid rfl Engine.records_empty rfl stores_empty
  have hopened : opened.Shows .empty := by
    refine ⟨hholds.answersFrom, hholds.codec_eq, ?_⟩
    rw [htable]
    exact kept_empty
  obtain ⟨hadd, hadded⟩ := hholds.add hodd.1
  have hok := hadd.mpr ⟨rfl, by decide⟩
  have hshows := (hopened.addNext hodd.1 (addNext_eq_ok_iff.mpr ⟨hok, rfl⟩)).1
  obtain ⟨hdelete, hdeleted⟩ := hadded.add htombstone.1
  have hagain := hdelete.mpr ⟨rfl, by decide⟩
  have hlast := (hdeleted.add heven.1).1.mpr ⟨rfl, by decide⟩
  obtain ⟨cache, latest, hhistory, heq, hlatest, hquery⟩ := history_catches_up hvalid
    (List.forall_mem_singleton.mpr hodd.1.permitted)
    (shortWhenClosed_of_short (List.forall_mem_singleton.mpr hodd.2))
  have hsame : history .default [.add oddNote (.ofSeconds 5)] =
      .ok (opened.add oddNote (.ofSeconds 5)).2 := by
    rw [history, hopen]
    rfl
  obtain rfl := Except.ok.inj (hsame.symm.trans hhistory)
  obtain rfl := latest_of_shows_oddNote hshows hlatest
  obtain ⟨hnothing, hcatches⟩ := hquery noteQuery fun _ hmem => by cases hmem
  have hfits : ∀ request ∈ [oddTombstone, evenReading],
      request.Fits ∧ ReadTime.ofSeconds 5 < request.readTime := by
    rw [List.forall_mem_cons, List.forall_mem_singleton]
    exact ⟨⟨htombstone.1, by decide⟩, heven.1, by decide⟩
  have hafter := (addAll_cons_of_ok hagain [evenReading]).trans (addAll_cons_of_ok hlast [])
  obtain ⟨old, new, all, hall⟩ := hcatches _ _ hfits hafter
  have hnow := (hshows.addAll (fun request hmem => (hfits request hmem).1) hafter).1
  refine ⟨_, _, old, new, all, hhistory, heq, hnothing (by decide), hafter, hall, ?_, ?_, ?_⟩
  · refine hshows.noteQuery_eq hall.old_eq rfl (OrderedMap.get?_insert_self _ _ _) (.inl rfl) rfl ?_
    intro key document hheld _
    rcases (get?_insert_iff rfl).mp hheld with hnone | ⟨rfl, -⟩
    · cases hnone
    · rfl
  · exact hnow.noteQuery_eq hall.new_eq rfl rfl (.inr (by decide)) rfl fun _ _ =>
      key_eq_of_isFound
  · exact hnow.noteQuery_eq hall.all_eq rfl rfl (.inl rfl) rfl fun _ _ => key_eq_of_isFound

end DocumentCache.Cache
