import DocumentCache.OrderedMap

/-!
# Lookups in ordered maps

A lookup finds a value exactly when the entry is listed.  So each change can be told
by what lookups find after it, and two maps in which every lookup finds the same are
equal.  The keys of a map are those that a lookup finds, and lie between its first and
its last key.
-/

namespace DocumentCache.OrderedMap

variable {κ ν : Type} [Ord κ] [Std.LawfulEqOrd κ]

/-! ## Entries -/

theorem ne_of_compare {left right : κ} (h : compare left right ≠ .eq) : left ≠ right := by
  rintro rfl
  exact h Std.ReflOrd.compare_self

/-- The first key of a map stands nowhere else in it. -/
theorem head_ne_of_ascending {head : κ × ν} {rest : List (κ × ν)}
    (h : Ascending (head :: rest)) : ∀ entry ∈ rest, entry.1 ≠ head.1 := by
  intro entry hmem
  have hlt := (List.pairwise_cons.mp h).1 entry hmem
  refine (ne_of_compare ?_).symm
  rw [hlt]
  decide

/-- A map has no entry twice. -/
theorem nodup_of_ascending {entries : List (κ × ν)} (h : Ascending entries) :
    entries.Nodup := by
  refine h.imp fun {left right} hlt => ?_
  rintro rfl
  rw [Std.ReflOrd.compare_self] at hlt
  cases hlt

variable [Std.TransOrd κ]

/-- A key below the first one stands nowhere in a map. -/
theorem ne_of_lt_head {key : κ} {head : κ × ν} {rest : List (κ × ν)}
    (h : Ascending (head :: rest)) (hlt : compare key head.1 = .lt) :
    ∀ entry ∈ head :: rest, entry.1 ≠ key := by
  have hlater : ∀ entry ∈ head :: rest, compare key entry.1 = .lt := by
    intro entry hmem
    rcases List.mem_cons.mp hmem with rfl | hmem
    · exact hlt
    · exact Std.TransCmp.lt_trans hlt ((List.pairwise_cons.mp h).1 entry hmem)
  intro entry hmem
  refine (ne_of_compare ?_).symm
  rw [hlater entry hmem]
  decide

theorem mem_insertEntry_iff {key : κ} {value : ν} {entries : List (κ × ν)} {entry : κ × ν}
    (h : Ascending entries) :
    entry ∈ insertEntry key value entries ↔
      entry = (key, value) ∨ entry.1 ≠ key ∧ entry ∈ entries := by
  induction entries with
  | nil => simp [insertEntry]
  | cons head rest ih =>
      obtain ⟨other, held⟩ := head
      have hrest := (List.pairwise_cons.mp h).2
      unfold insertEntry
      split
      · next hlt =>
          have hne := ne_of_lt_head h hlt
          rw [List.mem_cons]
          exact or_congr_right ⟨fun hmem => ⟨hne entry hmem, hmem⟩, And.right⟩
      · next heq =>
          obtain rfl := Std.LawfulEqCmp.eq_of_compare heq
          have hne := head_ne_of_ascending h
          simp only [List.mem_cons]
          constructor
          · rintro (rfl | hmem)
            · exact .inl rfl
            · exact .inr ⟨hne entry hmem, .inr hmem⟩
          · rintro (rfl | ⟨hkey, rfl | hmem⟩)
            · exact .inl rfl
            · exact absurd rfl hkey
            · exact .inr hmem
      · next hgt =>
          have hother : other ≠ key := by
            refine (ne_of_compare ?_).symm
            rw [hgt]
            decide
          simp only [List.mem_cons, ih hrest]
          constructor
          · rintro (rfl | rfl | ⟨hkey, hmem⟩)
            · exact .inr ⟨hother, .inl rfl⟩
            · exact .inl rfl
            · exact .inr ⟨hkey, .inr hmem⟩
          · rintro (rfl | ⟨hkey, rfl | hmem⟩)
            · exact .inr (.inl rfl)
            · exact .inl rfl
            · exact .inr (.inr ⟨hkey, hmem⟩)

theorem mem_eraseEntry_iff {key : κ} {entries : List (κ × ν)} {entry : κ × ν}
    (h : Ascending entries) :
    entry ∈ eraseEntry key entries ↔ entry.1 ≠ key ∧ entry ∈ entries := by
  induction entries with
  | nil => simp [eraseEntry]
  | cons head rest ih =>
      obtain ⟨other, held⟩ := head
      have hrest := (List.pairwise_cons.mp h).2
      unfold eraseEntry
      split
      · next hlt =>
          have hne := ne_of_lt_head h hlt
          exact ⟨fun hmem => ⟨hne entry hmem, hmem⟩, And.right⟩
      · next heq =>
          obtain rfl := Std.LawfulEqCmp.eq_of_compare heq
          have hne := head_ne_of_ascending h
          rw [List.mem_cons]
          constructor
          · exact fun hmem => ⟨hne entry hmem, .inr hmem⟩
          · rintro ⟨hkey, rfl | hmem⟩
            · exact absurd rfl hkey
            · exact hmem
      · next hgt =>
          have hother : other ≠ key := by
            refine (ne_of_compare ?_).symm
            rw [hgt]
            decide
          simp only [List.mem_cons, ih hrest]
          constructor
          · rintro (rfl | ⟨hkey, hmem⟩)
            · exact ⟨hother, .inl rfl⟩
            · exact ⟨hkey, .inr hmem⟩
          · rintro ⟨hkey, rfl | hmem⟩
            · exact .inl rfl
            · exact .inr ⟨hkey, hmem⟩

theorem lookup?_eq_some_iff {key : κ} {value : ν} {entries : List (κ × ν)}
    (h : Ascending entries) : lookup? key entries = some value ↔ (key, value) ∈ entries := by
  induction entries with
  | nil => simp [lookup?]
  | cons head rest ih =>
      obtain ⟨other, held⟩ := head
      have hrest := (List.pairwise_cons.mp h).2
      unfold lookup?
      split
      · next hlt =>
          have hne := ne_of_lt_head h hlt
          constructor
          · intro hnone
            cases hnone
          · exact fun hmem => absurd rfl (hne (key, value) hmem)
      · next heq =>
          obtain rfl := Std.LawfulEqCmp.eq_of_compare heq
          have hne := head_ne_of_ascending h
          rw [List.mem_cons]
          constructor
          · intro hheld
            exact .inl (congrArg (Prod.mk key) (Option.some.inj hheld).symm)
          · rintro (hsame | hmem)
            · exact congrArg some (Prod.mk.inj hsame).2.symm
            · exact absurd rfl (hne (key, value) hmem)
      · next hgt =>
          have hother : key ≠ other := by
            refine ne_of_compare ?_
            rw [hgt]
            decide
          rw [ih hrest, List.mem_cons]
          constructor
          · exact .inr
          · rintro (hsame | hmem)
            · exact absurd (Prod.mk.inj hsame).1 hother
            · exact hmem

/-! ## Maps -/

theorem get?_eq_some_iff {map : OrderedMap κ ν} {key : κ} {value : ν} :
    map.get? key = some value ↔ (key, value) ∈ map.entries :=
  lookup?_eq_some_iff map.ascending

@[simp]
theorem get?_insert_self (map : OrderedMap κ ν) (key : κ) (value : ν) :
    (map.insert key value).get? key = some value :=
  get?_eq_some_iff.mpr ((mem_insertEntry_iff map.ascending).mpr (.inl rfl))

theorem get?_insert_of_ne (map : OrderedMap κ ν) {key other : κ} (value : ν)
    (hne : other ≠ key) : (map.insert key value).get? other = map.get? other := by
  refine Option.ext fun held => ?_
  rw [get?_eq_some_iff, get?_eq_some_iff]
  refine (mem_insertEntry_iff map.ascending).trans ?_
  constructor
  · rintro (hsame | ⟨-, hmem⟩)
    · exact absurd (Prod.mk.inj hsame).1 hne
    · exact hmem
  · exact fun hmem => .inr ⟨hne, hmem⟩

@[simp]
theorem get?_erase_self (map : OrderedMap κ ν) (key : κ) : (map.erase key).get? key = none := by
  refine Option.eq_none_iff_forall_not_mem.mpr fun held hheld => ?_
  have hmem := get?_eq_some_iff.mp hheld
  exact ((mem_eraseEntry_iff map.ascending).mp hmem).1 rfl

theorem get?_erase_of_ne (map : OrderedMap κ ν) {key other : κ} (hne : other ≠ key) :
    (map.erase key).get? other = map.get? other := by
  refine Option.ext fun held => ?_
  rw [get?_eq_some_iff, get?_eq_some_iff]
  refine (mem_eraseEntry_iff map.ascending).trans ?_
  exact ⟨And.right, fun hmem => ⟨hne, hmem⟩⟩

/-- A map is determined by what lookups find in it. -/
theorem ext_get? {left right : OrderedMap κ ν}
    (h : ∀ key, left.get? key = right.get? key) : left = right := by
  refine ext_entries ?_
  have hmem : ∀ entry, entry ∈ left.entries ↔ entry ∈ right.entries := by
    rintro ⟨key, value⟩
    rw [← get?_eq_some_iff, ← get?_eq_some_iff, h key]
  have hperm : left.entries.Perm right.entries :=
    (List.perm_ext_iff_of_nodup (nodup_of_ascending left.ascending)
      (nodup_of_ascending right.ascending)).mpr hmem
  refine hperm.eq_of_pairwise (fun first second _ _ hlt hgt => ?_) left.ascending right.ascending
  rw [Std.OrientedCmp.gt_of_lt hlt] at hgt
  cases hgt

/-! ## Keys -/

omit [Std.LawfulEqOrd κ] [Std.TransOrd κ] in
theorem pairwise_keys (map : OrderedMap κ ν) :
    map.keys.Pairwise fun first second => compare first second = .lt :=
  List.pairwise_map.mpr map.ascending

omit [Std.TransOrd κ] in
/-- A map has no key twice. -/
theorem nodup_keys (map : OrderedMap κ ν) : map.keys.Nodup := by
  refine map.pairwise_keys.imp fun hlt => ne_of_compare ?_
  rw [hlt]
  decide

theorem contains_insert_iff {map : OrderedMap κ ν} {key other : κ} {value : ν} :
    (map.insert key value).contains other = true ↔ other = key ∨ map.contains other = true := by
  unfold contains
  by_cases hother : other = key
  · subst hother
    rw [get?_insert_self]
    exact iff_of_true rfl (.inl rfl)
  · rw [get?_insert_of_ne _ _ hother]
    exact (or_iff_right hother).symm

theorem contains_iff_mem_keys {map : OrderedMap κ ν} {key : κ} :
    map.contains key = true ↔ key ∈ map.keys := by
  rw [contains, Option.isSome_iff_exists, keys, List.mem_map]
  constructor
  · rintro ⟨value, hheld⟩
    exact ⟨(key, value), get?_eq_some_iff.mp hheld, rfl⟩
  · rintro ⟨⟨other, value⟩, hmem, rfl⟩
    exact ⟨value, get?_eq_some_iff.mpr hmem⟩

omit [Std.LawfulEqOrd κ] in
theorem head_le_of_mem_keys {map : OrderedMap κ ν} {first key : κ}
    (hfirst : map.keys.head? = some first) (hmem : key ∈ map.keys) :
    (compare first key).isLE = true := by
  obtain ⟨rest, hkeys⟩ := List.head?_eq_some_iff.mp hfirst
  have hpairwise := map.pairwise_keys
  rw [hkeys] at hmem hpairwise
  rcases List.mem_cons.mp hmem with rfl | hrest
  · exact Std.ReflCmp.isLE_rfl
  · exact Ordering.isLE_of_eq_lt ((List.pairwise_cons.mp hpairwise).1 key hrest)

omit [Std.LawfulEqOrd κ] in
theorem le_last_of_mem_keys {map : OrderedMap κ ν} {last key : κ}
    (hlast : map.keys.getLast? = some last) (hmem : key ∈ map.keys) :
    (compare key last).isLE = true := by
  obtain ⟨front, hkeys⟩ := List.getLast?_eq_some_iff.mp hlast
  have hpairwise := map.pairwise_keys
  rw [hkeys] at hmem hpairwise
  rcases List.mem_append.mp hmem with hfront | hend
  · exact Ordering.isLE_of_eq_lt
      ((List.pairwise_append.mp hpairwise).2.2 key hfront last (List.mem_singleton_self last))
  · rw [List.mem_singleton.mp hend]
    exact Std.ReflCmp.isLE_rfl

end DocumentCache.OrderedMap
