import DocumentCache.Proofs.Format.CanonicalPayloads
import DocumentCache.Proofs.Format.Documents
import DocumentCache.Shell.Command
import Mathlib.Data.List.Forall2

/-!
# How arguments are spelled

A read time is spelled in one word or two, since a word with an equals sign can only be a
field.  A field is a name and a text around the first equals sign of its word, and of the
words with one name the last counts.  Both are told here without the order in which words
are read, and reading gives what is spelled, and fails where nothing is.
-/

namespace DocumentCache

/-! ## Numbers, fields and words -/

/-- A step for each item succeeds if every one of them does. -/
theorem mapM_eq_ok_iff {ε α β : Type} {step : α → Except ε β} {items : List α}
    {values : List β} :
    items.mapM step = .ok values ↔
      List.Forall₂ (fun item value => step item = .ok value) items values := by
  induction items generalizing values with
  | nil =>
      rw [List.mapM_nil, List.forall₂_nil_left_iff]
      exact ⟨fun h => (Except.ok.inj h).symm, fun h => h ▸ rfl⟩
  | cons item rest ih =>
      rw [List.mapM_cons, bind_eq_ok_iff, List.forall₂_cons_left_iff]
      constructor
      · rintro ⟨value, hvalue, h⟩
        obtain ⟨others, hothers, h⟩ := bind_eq_ok_iff.mp h
        exact ⟨value, others, hvalue, ih.mp hothers, (Except.ok.inj h).symm⟩
      · rintro ⟨value, others, hvalue, hothers, rfl⟩
        refine ⟨value, hvalue, ?_⟩
        rw [ih.mpr hothers]
        rfl

namespace Decimal

theorem readBetween?_eq_some_iff {lowest highest number : Int} {word : String} :
    readBetween? lowest highest word = some number ↔
      readInt? word = some number ∧ lowest ≤ number ∧ number ≤ highest := by
  unfold readBetween?
  cases readInt? word with
  | none => simp
  | some other =>
      by_cases hrange : lowest ≤ other ∧ other ≤ highest
      · simp only [if_pos hrange, Option.some.injEq]
        exact ⟨fun h => ⟨h, h ▸ hrange⟩, And.left⟩
      · simp only [if_neg hrange, reduceCtorEq, false_iff, Option.some.injEq]
        rintro ⟨rfl, h⟩
        exact hrange h

/-- Where no two numbers between the bounds are made into the same, a word that is made into
what a number between them is made into is that number. -/
theorem map_readBetween?_eq_some_iff {γ : Type} {lowest highest number : Int} {word : String}
    {make : Int → γ} (hmake : ∀ other, lowest ≤ other → other ≤ highest →
      make other = make number → other = number)
    (hlow : lowest ≤ number) (hhigh : number ≤ highest) :
    (readBetween? lowest highest word).map make = some (make number) ↔
      readInt? word = some number := by
  simp only [Option.map_eq_some_iff, readBetween?_eq_some_iff]
  constructor
  · rintro ⟨other, ⟨hread, hother⟩, hsame⟩
    rw [hread, hmake other hother.1 hother.2 hsame]
  · exact fun hread => ⟨number, ⟨hread, hlow, hhigh⟩, rfl⟩

theorem readInt64?_eq_ofNat_iff {word : String} {number : Nat}
    (hrange : number < 9223372036854775808) :
    readInt64? word = some (Int64.ofNat number) ↔ readInt? word = some (number : Int) := by
  rw [← Int64.ofInt_eq_ofNat]
  refine map_readBetween?_eq_some_iff (fun other hlow hhigh hsame => ?_) (by omega) (by omega)
  have hnumber := congrArg Int64.toInt hsame
  rwa [Int64.toInt_ofInt_of_le (by omega) (by omega),
    Int64.toInt_ofInt_of_le (by omega) (by omega)] at hnumber

theorem readInt32?_eq_ofNat_iff {word : String} {number : Nat} (hrange : number < 2147483648) :
    readInt32? word = some (Int32.ofNat number) ↔ readInt? word = some (number : Int) := by
  rw [← Int32.ofInt_eq_ofNat]
  refine map_readBetween?_eq_some_iff (fun other hlow hhigh hsame => ?_) (by omega) (by omega)
  have hnumber := congrArg Int32.toInt hsame
  rwa [Int32.toInt_ofInt_of_le (by omega) (by omega),
    Int32.toInt_ofInt_of_le (by omega) (by omega)] at hnumber

end Decimal

/-- The data of a document are determined by what is found under each name. -/
theorem Fields.ext_get? {left right : Fields} (h : ∀ name, left.get? name = right.get? name) :
    left = right := by
  have hsame : (⟨left.entries, left.ordered.1⟩ : OrderedMap String Value) =
      ⟨right.entries, right.ordered.1⟩ := OrderedMap.ext_get? h
  exact Fields.ext_entries (congrArg OrderedMap.entries hsame)

/-- A text is cut at the first separator. -/
theorem Text.splitFirst?_eq_some_iff {separator : Char} {text before after : List Char} :
    splitFirst? separator text = some (before, after) ↔
      text = before ++ separator :: after ∧ separator ∉ before := by
  induction text generalizing before with
  | nil => simp [splitFirst?]
  | cons letter rest ih =>
      unfold splitFirst?
      by_cases hletter : letter = separator
      · subst hletter
        rw [if_pos rfl]
        cases before with
        | nil => simp [eq_comm]
        | cons first others =>
            constructor
            · exact fun h => nomatch h
            · rintro ⟨htext, hbefore⟩
              exact absurd ((List.cons.inj htext).1 ▸ List.mem_cons_self) hbefore
      · rw [if_neg hletter, Option.map_eq_some_iff]
        constructor
        · rintro ⟨⟨other, behind⟩, hcut, hsame⟩
          obtain ⟨rfl, rfl⟩ := Prod.mk.inj hsame
          obtain ⟨rfl, hother⟩ := ih.mp hcut
          exact ⟨rfl, by simp [Ne.symm hletter, hother]⟩
        · rintro ⟨htext, hbefore⟩
          cases before with
          | nil => exact absurd (List.cons.inj htext).1 hletter
          | cons first others =>
              obtain ⟨rfl, rfl⟩ := List.cons.inj htext
              exact ⟨(others, after), ih.mpr ⟨rfl, fun h => hbefore (.tail _ h)⟩, rfl⟩

namespace Shell

/-! ## Read times -/

/-- A word with whole seconds and, unless there is none behind it or the next one has an
equals sign, a word with nanoseconds spell a read time after the epoch; the words behind
them are left over. -/
inductive Dated (secondsWord : String) : List String → ReadTime → List String → Prop
  | seconds {time : ReadTime} {rest : List String} (hread : time ≠ .never)
      (hseconds : Decimal.readInt? secondsWord = some (time.seconds : Int))
      (hnanos : time.nanos = 0)
      (hnext : ∀ next ∈ rest.head?, '=' ∈ next.toList) : Dated secondsWord rest time rest
  | nanos {time : ReadTime} {word : String} {rest : List String} (hread : time ≠ .never)
      (hseconds : Decimal.readInt? secondsWord = some (time.seconds : Int))
      (hnanos : Decimal.readInt? word = some (time.nanos : Int)) (hword : '=' ∉ word.toList) :
      Dated secondsWord (word :: rest) time rest

theorem Dated.ne_never {secondsWord : String} {words rest : List String} {time : ReadTime}
    (h : Dated secondsWord words time rest) : time ≠ .never := by
  cases h <;> assumption

theorem hasEquals_iff {word : String} : hasEquals word = true ↔ '=' ∈ word.toList :=
  List.contains_iff_mem

theorem parseSeconds_eq_ok_iff {word : String} {seconds : Int64} :
    parseSeconds word = .ok seconds ↔ Decimal.readInt64? word = some seconds := by
  unfold parseSeconds
  split <;> simp_all

theorem parseNanos_eq_ok_iff {word : String} {nanos : Int32} :
    parseNanos word = .ok nanos ↔ Decimal.readInt32? word = some nanos := by
  unfold parseNanos
  split <;> simp_all

/-- Seconds and nanoseconds, however these were come by, and the words behind them. -/
theorem readTime_eq_ok_iff {secondsWord : String} {nanosRead : Except Error Int32}
    {behind rest : List String} {time : ReadTime} :
    (do
      let seconds ← parseSeconds secondsWord
      let nanos ← nanosRead
      let made ← (ReadTime.ofPartsAfterEpoch seconds nanos).mapError Error.ofReadTime
      return (made, behind)) = .ok (time, rest) ↔
    (time ≠ .never ∧ Decimal.readInt? secondsWord = some (time.seconds : Int) ∧
      nanosRead = .ok (Int32.ofNat time.nanos)) ∧ behind = rest := by
  constructor
  · intro h
    obtain ⟨seconds, hseconds, h⟩ := bind_eq_ok_iff.mp h
    obtain ⟨nanos, hnanos, h⟩ := bind_eq_ok_iff.mp h
    obtain ⟨made, hmade, h⟩ := bind_eq_ok_iff.mp h
    obtain ⟨rfl, rfl⟩ := Prod.mk.inj (Except.ok.inj h)
    obtain ⟨hread, rfl, rfl⟩ :=
      ReadTime.ofPartsAfterEpoch_eq_ok_iff.mp (mapError_eq_ok_iff.mp hmade)
    rw [parseSeconds_eq_ok_iff, Decimal.readInt64?_eq_ofNat_iff made.seconds_lt] at hseconds
    exact ⟨⟨hread, hseconds, hnanos⟩, rfl⟩
  · rintro ⟨⟨hread, hseconds, rfl⟩, rfl⟩
    rw [← Decimal.readInt64?_eq_ofNat_iff time.seconds_lt, ← parseSeconds_eq_ok_iff] at hseconds
    have hmade := ReadTime.ofPartsAfterEpoch_ofNat hread
    refine bind_eq_ok_iff.mpr ⟨_, hseconds, ?_⟩
    refine bind_eq_ok_iff.mpr ⟨_, rfl, ?_⟩
    exact bind_eq_ok_iff.mpr ⟨time, mapError_eq_ok_iff.mpr hmade, rfl⟩

theorem parseReadTime_of_next {secondsWord : String} {words rest : List String} {time : ReadTime}
    (hnext : ∀ next ∈ words.head?, '=' ∈ next.toList) :
    parseReadTime secondsWord words = .ok (time, rest) ↔
      (time ≠ .never ∧ Decimal.readInt? secondsWord = some (time.seconds : Int) ∧ time.nanos = 0) ∧
        words = rest := by
  have hparse : parseReadTime secondsWord words = (do
      let seconds ← parseSeconds secondsWord
      let nanos ← Except.ok 0
      let made ← (ReadTime.ofPartsAfterEpoch seconds nanos).mapError Error.ofReadTime
      return (made, words)) := by
    cases words with
    | nil => rfl
    | cons word tail =>
        have hword : hasEquals word = true := hasEquals_iff.mpr (hnext word rfl)
        simp only [parseReadTime, hword, if_true]
        rfl
  have hzero : Except.ok 0 = (Except.ok (Int32.ofNat time.nanos) : Except Error Int32) ↔
      time.nanos = 0 := by
    constructor
    · intro h
      have hnanos := congrArg Int32.toInt (Except.ok.inj h)
      rw [Int32.toInt_ofNat_of_lt (Nat.lt_trans time.nanos_lt (by decide))] at hnanos
      exact Int.natCast_eq_zero.mp hnanos.symm
    · intro h
      rw [h]
      rfl
  rw [hparse, readTime_eq_ok_iff, hzero]

theorem parseReadTime_of_nanos {secondsWord word : String} {tail rest : List String}
    {time : ReadTime} (hword : '=' ∉ word.toList) :
    parseReadTime secondsWord (word :: tail) = .ok (time, rest) ↔
      (time ≠ .never ∧ Decimal.readInt? secondsWord = some (time.seconds : Int) ∧
        Decimal.readInt? word = some (time.nanos : Int)) ∧ tail = rest := by
  have hfield : ¬ hasEquals word = true := mt hasEquals_iff.mp hword
  have hparse : parseReadTime secondsWord (word :: tail) = (do
      let seconds ← parseSeconds secondsWord
      let nanos ← parseNanos word
      let made ← (ReadTime.ofPartsAfterEpoch seconds nanos).mapError Error.ofReadTime
      return (made, tail)) := by
    simp only [parseReadTime, hfield]
    rfl
  rw [hparse, readTime_eq_ok_iff, parseNanos_eq_ok_iff,
    Decimal.readInt32?_eq_ofNat_iff (Nat.lt_trans time.nanos_lt (by decide))]

theorem parseReadTime_eq_ok_iff {secondsWord : String} {words rest : List String}
    {time : ReadTime} :
    parseReadTime secondsWord words = .ok (time, rest) ↔ Dated secondsWord words time rest := by
  constructor
  · intro h
    -- The next word decides: without one, or if it is a field, no nanoseconds are given.
    by_cases hnext : ∀ next ∈ words.head?, '=' ∈ next.toList
    · obtain ⟨⟨hread, hseconds, hnanos⟩, rfl⟩ := (parseReadTime_of_next hnext).mp h
      exact .seconds hread hseconds hnanos hnext
    · cases words with
      | nil => exact absurd (fun _ hnone => nomatch hnone) hnext
      | cons word tail =>
          have hword : '=' ∉ word.toList := by
            intro hmem
            apply hnext
            rintro next ⟨⟩
            exact hmem
          obtain ⟨⟨hread, hseconds, hnanos⟩, rfl⟩ := (parseReadTime_of_nanos hword).mp h
          exact .nanos hread hseconds hnanos hword
  · intro h
    cases h with
    | seconds hread hseconds hnanos hnext =>
        exact (parseReadTime_of_next hnext).mpr ⟨⟨hread, hseconds, hnanos⟩, rfl⟩
    | nanos hread hseconds hnanos hword =>
        exact (parseReadTime_of_nanos hword).mpr ⟨⟨hread, hseconds, hnanos⟩, rfl⟩

/-! ## Fields -/

/-- A word is a name, the first equals sign and a text. -/
def Assigns (word name text : String) : Prop :=
  word = name ++ "=" ++ text ∧ '=' ∉ name.toList

/-- The value of a name in some words: that of the last word that assigns one to it. -/
inductive LastGives (name : String) : List String → Value → Prop
  | here {word text : String} {rest : List String} (hword : Assigns word name text)
      (hlast : ∀ later ∈ rest, ∀ other, ¬ Assigns later name other) :
      LastGives name (word :: rest) (parseValue text)
  | later {word : String} {rest : List String} {value : Value}
      (h : LastGives name rest value) : LastGives name (word :: rest) value

/-- Every word assigns a text to a name, and the data have the values so given. -/
structure Spells (words : List String) (data : Fields) : Prop where
  assigns : ∀ word ∈ words, ∃ name text, Assigns word name text
  get?_iff : ∀ name value, data.get? name = some value ↔ LastGives name words value

theorem splitFirst?_eq_some_iff_assigns {word name text : String} :
    Text.splitFirst? '=' word.toList = some (name.toList, text.toList) ↔
      Assigns word name text := by
  rw [Text.splitFirst?_eq_some_iff, Assigns, ← String.toList_inj]
  simp

theorem Assigns.unique {word name text otherName otherText : String}
    (h : Assigns word name text) (hother : Assigns word otherName otherText) :
    name = otherName ∧ text = otherText := by
  rw [← splitFirst?_eq_some_iff_assigns] at h hother
  rw [h] at hother
  obtain ⟨hname, htext⟩ := Prod.mk.inj (Option.some.inj hother)
  exact ⟨String.toList_inj.mp hname, String.toList_inj.mp htext⟩

theorem parseField_eq_ok_iff {word : String} {entry : String × Value} :
    parseField word = .ok entry ↔
      ∃ text, Assigns word entry.1 text ∧ entry.2 = parseValue text := by
  obtain ⟨name, value⟩ := entry
  unfold parseField
  constructor
  · intro h
    split at h
    · next before after hcut =>
        obtain ⟨rfl, rfl⟩ := Prod.mk.inj (Except.ok.inj h)
        refine ⟨String.ofList after, splitFirst?_eq_some_iff_assigns.mp ?_, rfl⟩
        rw [String.toList_ofList, String.toList_ofList, hcut]
    · cases h
  · rintro ⟨text, hassigns, hvalue⟩
    obtain rfl : value = parseValue text := hvalue
    simp only [splitFirst?_eq_some_iff_assigns.mpr hassigns, String.ofList_toList]

/-- An entry for each word: the name it assigns to and the value of its text. -/
def Entries (words : List String) (entries : List (String × Value)) : Prop :=
  List.Forall₂ (fun word entry => ∃ text, Assigns word entry.1 text ∧ entry.2 = parseValue text)
    words entries

theorem mapM_parseField_eq_ok_iff {words : List String} {entries : List (String × Value)} :
    words.mapM parseField = .ok entries ↔ Entries words entries := by
  simp only [mapM_eq_ok_iff, parseField_eq_ok_iff, Entries]

theorem exists_entries {words : List String}
    (h : ∀ word ∈ words, ∃ name text, Assigns word name text) :
    ∃ entries, Entries words entries := by
  induction words with
  | nil => exact ⟨[], .nil⟩
  | cons word rest ih =>
      obtain ⟨⟨name, text, hassigns⟩, hrest⟩ := List.forall_mem_cons.mp h
      obtain ⟨entries, hentries⟩ := ih hrest
      exact ⟨(name, parseValue text) :: entries, .cons ⟨text, hassigns, rfl⟩ hentries⟩

theorem Entries.assigns {words : List String} {entries : List (String × Value)}
    (h : Entries words entries) : ∀ word ∈ words, ∃ name text, Assigns word name text := by
  induction h with
  | nil => exact List.forall_mem_nil _
  | cons hword _ ih =>
      obtain ⟨text, hassigns, _⟩ := hword
      exact List.forall_mem_cons.mpr ⟨⟨_, text, hassigns⟩, ih⟩

/-- No entry has a name to which no word assigns. -/
theorem Entries.last?_eq_none_iff {words : List String} {entries : List (String × Value)}
    (h : Entries words entries) (name : String) :
    Value.last? name entries = none ↔ ∀ word ∈ words, ∀ text, ¬ Assigns word name text := by
  induction h with
  | nil => exact iff_of_true rfl (List.forall_mem_nil _)
  | @cons word entry rest others hword _ ih =>
      obtain ⟨other, value⟩ := entry
      obtain ⟨text, hassigns, _⟩ := hword
      have hhead : (if other = name then some value else none) = none ↔
          ∀ text, ¬ Assigns word name text := by
        rw [ite_eq_right_iff]
        constructor
        · intro hne another hanother
          exact nomatch hne (hassigns.unique hanother).1
        · rintro hnone rfl
          exact absurd hassigns (hnone text)
      rw [Value.last?_cons, Option.or_eq_none_iff, ih, hhead, List.forall_mem_cons, and_comm]

theorem Entries.last?_eq_some_iff {words : List String} {entries : List (String × Value)}
    (h : Entries words entries) (name : String) (value : Value) :
    Value.last? name entries = some value ↔ LastGives name words value := by
  induction h with
  | nil => exact iff_of_false (fun h => nomatch h) (fun h => nomatch h)
  | @cons word entry rest others hword hrest ih =>
      obtain ⟨other, given⟩ := entry
      obtain ⟨text, hassigns, hgiven⟩ := hword
      obtain rfl : given = parseValue text := hgiven
      rw [Value.last?_cons, Option.or_eq_some_iff, ih, Entries.last?_eq_none_iff hrest,
        Option.ite_none_right_eq_some, Option.some.injEq]
      constructor
      · rintro (hlater | ⟨hnone, rfl, rfl⟩)
        · exact .later hlater
        · exact .here hassigns hnone
      · intro hgives
        cases hgives with
        | here hhere hlast =>
            obtain ⟨rfl, rfl⟩ := hassigns.unique hhere
            exact .inr ⟨hlast, rfl, rfl⟩
        | later hlater => exact .inl hlater

/-- A value spelled in one word holds no map. -/
theorem order_parseValue (word : String) : (parseValue word).order = parseValue word := by
  unfold parseValue
  repeat' split
  all_goals rfl

theorem LastGives.exists_text {name : String} {words : List String} {value : Value}
    (h : LastGives name words value) : ∃ text, value = parseValue text := by
  induction h with
  | here => exact ⟨_, rfl⟩
  | later _ ih => exact ih

theorem Entries.get?_ofEntries_iff {words : List String} {entries : List (String × Value)}
    (h : Entries words entries) (name : String) (value : Value) :
    (Fields.ofEntries entries).get? name = some value ↔ LastGives name words value := by
  rw [Fields.get?_ofEntries, Option.map_eq_some_iff]
  simp only [h.last?_eq_some_iff]
  have horder : ∀ given, LastGives name words given → given.order = given := by
    intro given hgiven
    obtain ⟨text, rfl⟩ := hgiven.exists_text
    exact order_parseValue text
  constructor
  · rintro ⟨given, hgiven, rfl⟩
    rwa [horder given hgiven]
  · intro hvalue
    exact ⟨value, hvalue, horder value hvalue⟩

/-- The words spell the data of their entries and no other. -/
theorem spells_iff {words : List String} {data : Fields} :
    Spells words data ↔ ∃ entries, Entries words entries ∧ data = .ofEntries entries := by
  constructor
  · intro h
    obtain ⟨entries, hentries⟩ := exists_entries h.assigns
    refine ⟨entries, hentries, Fields.ext_get? fun name => Option.ext fun value => ?_⟩
    exact (h.get?_iff name value).trans (hentries.get?_ofEntries_iff name value).symm
  · rintro ⟨entries, hentries, rfl⟩
    exact ⟨hentries.assigns, hentries.get?_ofEntries_iff⟩

end Shell

end DocumentCache
