import DocumentCache.Proofs.Cache.Runs
import DocumentCache.Proofs.Cache.Scans
import DocumentCache.Proofs.Cache.WholeAdds

/-!
# The parents of collections

The index is told of the collection of every document that an add stored, and of nothing
else.  What it is told is the path of a collection, never the root, so it accepts all of
it.  For each name it lists, in order and once each, the paths under which a collection of
that name has received a document since the cache was made.
-/

namespace DocumentCache

/-! ## Indexes -/

/-- Every path but the root lies below another one. -/
theorem Path.root_or_child (path : Path) :
    path = .root ∨ ∃ parent name, path = Path.child parent name := by
  obtain ⟨segments⟩ := path
  rcases List.eq_nil_or_concat segments with rfl | ⟨front, last, rfl⟩
  · exact .inl rfl
  · refine .inr ⟨⟨front⟩, last, ?_⟩
    rw [List.concat_eq_append]
    rfl

/-- The collection of a document is never the root. -/
theorem DocumentKey.exists_collection_child (key : DocumentKey) :
    ∃ parent name, key.collection = Path.child parent name := by
  rcases key.collection.root_or_child with hroot | hchild
  · have hpath := key.child_collection_id
    have heven := key.even
    rw [← hpath, hroot] at heven
    exact absurd heven (Nat.one_ne_zero ·)
  · exact hchild

namespace ParentIndex

variable {index : ParentIndex}

/-- The parents of a name go up, so none is there twice. -/
theorem pairwise_parentsOf (index : ParentIndex) (name : String) :
    (index.parentsOf name).Pairwise fun first second => compare first second = .lt :=
  (index.parentSet name).pairwise_keys

/-- A path below another one is accepted as that of a collection. -/
theorem add_child (index : ParentIndex) (parent : Path) (name : String) :
    index.add (parent.child name) =
      .ok ⟨index.parents.insert name ((index.parentSet name).insert parent ())⟩ := by
  have hlast : (parent.child name).last? = some name := List.getLast?_concat
  rw [add, hlast, Path.parent_child]

/-- What a collection adds to the lists of parents. -/
theorem mem_parentsOf_child (index : ParentIndex) (parent : Path) (name : String) {other : Path}
    {otherName : String} :
    other ∈ parentsOf ⟨index.parents.insert name ((index.parentSet name).insert parent ())⟩
        otherName ↔
      other ∈ index.parentsOf otherName ∨ parent.child name = other.child otherName := by
  simp only [parentsOf, ← OrderedMap.contains_iff_mem_keys]
  by_cases hname : otherName = name
  · subst hname
    have hset : parentSet ⟨index.parents.insert otherName
        ((index.parentSet otherName).insert parent ())⟩ otherName =
        (index.parentSet otherName).insert parent () := by
      rw [parentSet, OrderedMap.get?_insert_self, Option.getD_some]
    rw [hset, OrderedMap.contains_insert_iff, or_comm]
    refine or_congr_right ⟨?_, ?_⟩
    · rintro rfl
      rfl
    · exact fun heq => (Path.child_inj heq).1.symm
  · have hset : parentSet ⟨index.parents.insert name
        ((index.parentSet name).insert parent ())⟩ otherName = index.parentSet otherName := by
      rw [parentSet, OrderedMap.get?_insert_of_ne _ _ hname, parentSet]
    rw [hset]
    refine (or_iff_left ?_).symm
    exact fun heq => hname (Path.child_inj heq).2.symm

/-- The index lists the parent of every path that it is told of, unless that is the root. -/
theorem mem_parentsOf_notify (index : ParentIndex) (collection : Path) {parent : Path}
    {name : String} :
    parent ∈ (CollectionIndex.notify index collection).2.parentsOf name ↔
      parent ∈ index.parentsOf name ∨ collection = parent.child name := by
  rcases collection.root_or_child with hroot | ⟨above, last, hchild⟩
  · subst hroot
    refine (or_iff_left ?_).symm
    intro hroot
    have hsegments := congrArg Path.segments hroot
    simp [Path.root, Path.child] at hsegments
  · subst hchild
    simp only [CollectionIndex.notify, add_child]
    exact index.mem_parentsOf_child above last

end ParentIndex

namespace Cache

variable {σ ι : Type}

/-! ## What the index is told -/

/-- The collection of the document that was stored, if one was. -/
def stored? : Action σ × Except Error Unit → Option Path
  | (.add document _, .ok _) => some document.key.collection
  | _ => none

theorem mem_filterMap_stored?_iff {entries : List (Action σ × Except Error Unit)}
    {collection : Path} :
    collection ∈ entries.filterMap stored? ↔
      ∃ document readTime, (.add document readTime, .ok ()) ∈ entries ∧
        document.key.collection = collection := by
  rw [List.mem_filterMap]
  constructor
  · rintro ⟨⟨action, result⟩, hmem, hstored⟩
    cases action with
    | add document readTime =>
        cases result with
        | error error => cases hstored
        | ok _ => exact ⟨document, readTime, hmem, Option.some.inj hstored⟩
    | _ => cases hstored
  · rintro ⟨document, readTime, hmem, rfl⟩
    exact ⟨_, hmem, rfl⟩

variable [KeyValueEngine σ]

theorem index_writeRow (cache : Cache σ ι) (document : Document) (readTime : ReadTime)
    (rowKey row : Bytes) : (cache.writeRow document readTime rowKey row).2.index = cache.index := by
  unfold writeRow
  split <;> rfl

variable [CollectionIndex ι]

/-- The index after it was told of some collections. -/
def tell (index : ι) (collections : List Path) : ι :=
  collections.foldl (fun index collection => (CollectionIndex.notify index collection).2) index

theorem index_add (cache : Cache σ ι) (document : Document) (readTime : ReadTime) :
    (cache.add document readTime).2.index =
      match (cache.add document readTime).1 with
      | .ok _ => (CollectionIndex.notify cache.index document.key.collection).2
      | .error _ => cache.index := by
  unfold add
  cases encodeRow cache.codec document readTime with
  | error error => rfl
  | ok encoded =>
      have hindex := cache.index_writeRow document readTime encoded.1 encoded.2
      dsimp only
      generalize cache.writeRow document readTime encoded.1 encoded.2 = outcome at hindex
      obtain ⟨result, after⟩ := outcome
      cases result with
      | error error => exact hindex
      | ok _ => exact congrArg (fun index => (CollectionIndex.notify index _).2) hindex

/-- An action tells the index of the document it stored, if it did. -/
theorem index_act (cache : Cache σ ι) (action : Action σ) :
    (cache.act action).2.index =
      tell cache.index (stored? (action, (cache.act action).1)).toList := by
  cases action with
  | add document readTime =>
      refine (cache.index_add document readTime).trans ?_
      simp only [act]
      cases (cache.add document readTime).1 with
      | error error => rfl
      | ok _ => rfl
  | remove key => rfl
  | get key =>
      obtain ⟨counters, hkeeps⟩ := cache.get_keeps key
      simp only [act, settle, hkeeps]
      rfl
  | getAll keys =>
      obtain ⟨counters, hkeeps⟩ := cache.getAll_keeps keys
      simp only [act, settle, hkeeps]
      rfl
  | query query since interrupted =>
      obtain ⟨counters, hkeeps⟩ := cache.query_keeps query since interrupted
      simp only [act, settle, hkeeps]
      rfl
  | latestReadTime =>
      obtain ⟨counters, hkeeps⟩ := cache.latestReadTime_keeps
      simp only [act, settle, hkeeps]
      rfl
  | meanwhile change => rfl

/-- A run tells the index of the documents it stored, in their order. -/
theorem index_run (cache : Cache σ ι) (actions : List (Action σ)) :
    (cache.run actions).2.index =
      tell cache.index ((cache.run actions).1.filterMap stored?) := by
  induction actions generalizing cache with
  | nil => rfl
  | cons action rest ih =>
      simp only [run, ih, index_act, List.filterMap_cons]
      cases stored? (action, (cache.act action).1) with
      | none => rfl
      | some collection => rfl

/-! ## Taking notes -/

omit [CollectionIndex ι] in
theorem query_bare (cache : Cache σ (NotedIndex ι)) (query : Query) (since : ReadTime)
    (interrupted : Bool) :
    cache.bare.query query since interrupted =
      ((cache.query query since interrupted).1, (cache.query query since interrupted).2.bare) := by
  have hengine : cache.bare.engine = cache.engine := rfl
  have hcodec : cache.bare.codec = cache.codec := rfl
  have hsettings : cache.bare.settings = cache.settings := rfl
  have hcounters : cache.bare.counters = cache.counters := rfl
  unfold Cache.query
  rw [hengine, hcodec, hsettings, hcounters]
  split
  · rfl
  · split
    · rfl
    · dsimp only
      generalize DecodePool.drain _ = result
      obtain ⟨answer, pool⟩ := result
      cases answer <;> rfl

/-- The same cache with notes taken of what its index is told from now on. -/
def noted (cache : Cache σ ι) : Cache σ (NotedIndex ι) :=
  { cache with index := ⟨cache.index, []⟩ }

theorem notified_tell (index : NotedIndex ι) (collections : List Path) :
    (tell index collections).notified = index.notified ++ collections := by
  induction collections generalizing index with
  | nil => exact (List.append_nil _).symm
  | cons collection rest ih =>
      refine (ih _).trans ?_
      exact List.append_assoc index.notified [collection] rest

/-- Taking notes makes no difference to what an action does. -/
theorem act_bare (cache : Cache σ (NotedIndex ι)) (action : Action σ) :
    cache.bare.act action = ((cache.act action).1, (cache.act action).2.bare) := by
  cases action with
  | add document readTime => exact cache.add_bare document readTime
  | remove key => rfl
  | get key =>
      simp only [act, settle, get, bare]
      split <;> rfl
  | getAll keys =>
      simp only [act, settle, getAll, bare]
      split <;> rfl
  | query query since interrupted =>
      have hquery := cache.query_bare query since interrupted
      simp only [act, hquery]
      rfl
  | latestReadTime =>
      simp only [act, settle, Cache.latestReadTime, bare]
      split <;> rfl
  | meanwhile change => rfl

theorem run_bare (cache : Cache σ (NotedIndex ι)) (actions : List (Action σ)) :
    cache.bare.run actions = ((cache.run actions).1, (cache.run actions).2.bare) := by
  induction actions generalizing cache with
  | nil => rfl
  | cons action rest ih => simp only [run, act_bare, ih]

/-! ## Parents -/

/-- What the index lists after it was told of some collections. -/
theorem mem_parentsOf_tell (index : ParentIndex) {collections : List Path} {parent : Path}
    {name : String} :
    parent ∈ (tell index collections).parentsOf name ↔
      parent ∈ index.parentsOf name ∨ parent.child name ∈ collections := by
  induction collections generalizing index with
  | nil => simp [tell]
  | cons collection rest ih =>
      refine (ih _).trans ?_
      rw [index.mem_parentsOf_notify, or_assoc, List.mem_cons, eq_comm]

/-- Over any engine, after every run of a new cache, the parents listed for a name are in
order and without repetition those under which a collection of that name has had a document
stored.  Only the collections of these documents are told, and each is accepted. -/
theorem parents_exact {engine : σ} {codec : Codec} {settings : Settings}
    {cache : Cache σ ParentIndex} (hcreate : create engine .empty codec settings = .ok cache)
    (actions : List (Action σ)) :
    (∀ name, ((cache.run actions).2.index.parentsOf name).Pairwise
        fun first second => compare first second = .lt) ∧
      (∀ name parent, parent ∈ (cache.run actions).2.index.parentsOf name ↔
        ∃ document readTime, (.add document readTime, .ok ()) ∈ (cache.run actions).1 ∧
          document.key.collection = parent.child name) ∧
      (cache.run actions) =
        ((cache.noted.run actions).1, (cache.noted.run actions).2.bare) ∧
      ∀ collection ∈ (cache.noted.run actions).2.index.notified,
        (∃ document readTime, (.add document readTime, .ok ()) ∈ (cache.run actions).1 ∧
          document.key.collection = collection) ∧
        ∀ index : ParentIndex, ∃ after, index.add collection = .ok after := by
  have hempty : cache.index = .empty := by
    unfold create at hcreate
    split at hcreate
    · cases hcreate
    · obtain rfl := Except.ok.inj hcreate
      rfl
  have hbare := cache.noted.run_bare actions
  refine ⟨fun name => ParentIndex.pairwise_parentsOf _ name, ?_, hbare, ?_⟩
  · intro name parent
    rw [index_run, mem_parentsOf_tell, hempty, mem_filterMap_stored?_iff]
    exact or_iff_right List.not_mem_nil
  · intro collection hnotified
    rw [index_run, notified_tell] at hnotified
    have hentries : (cache.noted.run actions).1 = (cache.run actions).1 :=
      (congrArg Prod.fst hbare).symm
    rw [hentries] at hnotified
    have hstored := mem_filterMap_stored?_iff.mp hnotified
    refine ⟨hstored, ?_⟩
    intro index
    obtain ⟨document, _, _, rfl⟩ := hstored
    obtain ⟨parent, name, hchild⟩ := document.key.exists_collection_child
    rw [hchild]
    exact ⟨_, index.add_child parent name⟩

/-- The message `x` of the room `b`. -/
def nestedMessage : DocumentKey := ⟨⟨["rooms", "b", "messages", "x"]⟩, by simp, rfl⟩

/-- An add that stores a message, one that fails, and the removal of the message. -/
def nestedAdds : List (Action SharedEngine) :=
  [.add (.deleted nestedMessage .never .never) (.ofSeconds 2),
    .add (.deleted (roomKey "b") .never .never) .never, .remove nestedMessage]

theorem parents_exact_nestedAdds :
    create freshCache.engine ParentIndex.empty Payload.codec .default = .ok freshCache ∧
      ⟨["rooms", "b"]⟩ ∈ (freshCache.run nestedAdds).2.index.parentsOf "messages" := by
  have hcreate :
      create freshCache.engine ParentIndex.empty Payload.codec .default = .ok freshCache := rfl
  have hcollection : nestedMessage.collection = Path.child ⟨["rooms", "b"]⟩ "messages" := by
    decide
  have hadded : (freshCache.act (.add (.deleted nestedMessage .never .never)
      (.ofSeconds 2))).1 = .ok () := eq_ok_of_toBool (by decide +kernel)
  refine ⟨hcreate, ((parents_exact hcreate nestedAdds).2.1 "messages" _).mpr ?_⟩
  refine ⟨.deleted nestedMessage .never .never, .ofSeconds 2, ?_, hcollection⟩
  rw [nestedAdds, run, hadded]
  exact List.mem_cons_self

end Cache

end DocumentCache
