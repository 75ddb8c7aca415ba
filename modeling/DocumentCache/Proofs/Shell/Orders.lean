import DocumentCache.Proofs.Format.WrittenPaths
import DocumentCache.Proofs.Shell.Spellings
import DocumentCache.Shell.Session

/-!
# What lines order

A line orders a change if its first word is the name of a command that changes documents
and the words behind it are spelled as that command wants them: a path, then a read time,
then fields.  Reading a line gives the change that it orders, and no line orders two.
-/

namespace DocumentCache.Shell

/-! ## Changes -/

/-- What can happen to the stored documents. -/
inductive Change where
  | store (document : Document)
  | drop (key : DocumentKey)

namespace Change

def apply : Change → DocumentMap → DocumentMap
  | .store document, documents => documents.insert document.key document
  | .drop key, documents => documents.erase key

/-- A document to be stored is known, was read at some time and has no empty segment in its
key. -/
def Storable : Change → Prop
  | .store document =>
      document.isKnown = true ∧ document.readTime ≠ .never ∧ document.key.Named
  | .drop _ => True

end Change

/-- Words behind `add`: the document at the path is found, its version and its read time are
the one spelled, and its data are those that the remaining words spell. -/
inductive OrdersFound : List String → Change → Prop
  | intro {path seconds : String} {rest fields : List String} {key : DocumentKey}
      {time : ReadTime} {data : Fields} (hkey : DocumentKey.parse path = .ok key)
      (htime : Dated seconds rest time fields) (hdata : Spells fields data) :
      OrdersFound (path :: seconds :: rest) (.store (.found key time data time))

/-- Words behind `tomb`: the document at the path is deleted; what stands behind the read time
does not count. -/
inductive OrdersDeleted : List String → Change → Prop
  | intro {path seconds : String} {rest behind : List String} {key : DocumentKey}
      {time : ReadTime} (hkey : DocumentKey.parse path = .ok key)
      (htime : Dated seconds rest time behind) :
      OrdersDeleted (path :: seconds :: rest) (.store (.deleted key time time))

/-- Words behind `del`: one path. -/
inductive OrdersDrop : List String → Change → Prop
  | intro {path : String} {key : DocumentKey} (hkey : DocumentKey.parse path = .ok key) :
      OrdersDrop [path] (.drop key)

/-- The names of commands that change documents, in lower case. -/
def changing : List String := ["add", "set", "tomb", "del", "delete"]

/-- A command by its name in lower case and the words behind it orders a change. -/
inductive CommandOrders (name : String) (words : List String) (change : Change) : Prop
  | found (hname : name = "add" ∨ name = "set") (h : OrdersFound words change)
  | deleted (hname : name = "tomb") (h : OrdersDeleted words change)
  | drop (hname : name = "del" ∨ name = "delete") (h : OrdersDrop words change)

/-- The first word of a line, in any case, and the words behind it order a change. -/
def Orders (line : String) (change : Change) : Prop :=
  ∃ name words, Text.words line = name :: words ∧
    CommandOrders (Text.toLowerCase name) words change

theorem CommandOrders.changing {name : String} {words : List String} {change : Change}
    (h : CommandOrders name words change) : name ∈ changing := by
  cases h with
  | found hname _ => rcases hname with rfl | rfl <;> decide
  | deleted hname _ => subst hname; decide
  | drop hname _ => rcases hname with rfl | rfl <;> decide

/-- A key that a text names has no empty segment. -/
theorem named_of_parse {path : String} {key : DocumentKey}
    (h : DocumentKey.parse path = .ok key) : key.Named := by
  have hpath := DocumentKey.parse_eq_ok_iff.mp h
  intro segment hmem
  exact ((Path.parse_eq_ok_iff.mp hpath).1 segment hmem).1

theorem Orders.storable {line : String} {change : Change} (h : Orders line change) :
    change.Storable := by
  obtain ⟨name, words, _, hcommand⟩ := h
  cases hcommand with
  | found _ h =>
      obtain ⟨hkey, htime, _⟩ := h
      exact ⟨rfl, htime.ne_never, named_of_parse hkey⟩
  | deleted _ h =>
      obtain ⟨hkey, htime⟩ := h
      exact ⟨rfl, htime.ne_never, named_of_parse hkey⟩
  | drop _ h =>
      obtain ⟨_⟩ := h
      trivial

/-! ## Reading a line -/

/-- The change that a command makes when it succeeds. -/
def Command.change? : Command → Option Change
  | .add document readTime => some (.store (document.withReadTime readTime))
  | .addDeleted document readTime => some (.store (document.withReadTime readTime))
  | .remove key => some (.drop key)
  | _ => none

/-- The change in what a line was read as. -/
def changeIn? : Except Error Command → Option Change
  | .ok command => command.change?
  | .error _ => none

theorem changeIn?_eq_some_iff {read : Except Error Command} {change : Change} :
    changeIn? read = some change ↔
      ∃ command, read = .ok command ∧ command.change? = some change := by
  cases read with
  | error error => simp [changeIn?]
  | ok command => simp [changeIn?]

theorem parseKey_eq_ok_iff {word : String} {key : DocumentKey} :
    parseKey word = .ok key ↔ DocumentKey.parse word = .ok key := mapError_eq_ok_iff

/-- Words are read as a command that makes the change they order, or refused: by an error, or
by a hint at how the command is called. -/
structure ReadsOrders (parse : List String → Except Error Command)
    (orders : List String → Change → Prop) : Prop where
  sound : ∀ words command, parse words = .ok command →
    (∃ change, orders words change ∧ command.change? = some change) ∨
      ∃ text, command = .usage text
  complete : ∀ words change, orders words change → changeIn? (parse words) = some change

theorem ReadsOrders.iff {parse : List String → Except Error Command}
    {orders : List String → Change → Prop} (h : ReadsOrders parse orders) {words : List String}
    {change : Change} : changeIn? (parse words) = some change ↔ orders words change := by
  refine ⟨fun hread => ?_, h.complete words change⟩
  obtain ⟨command, hcommand, hchange⟩ := changeIn?_eq_some_iff.mp hread
  obtain ⟨other, hother, hsame⟩ | ⟨text, rfl⟩ := h.sound words command hcommand
  · obtain rfl : other = change := Option.some.inj (hsame.symm.trans hchange)
    exact hother
  · cases hchange

theorem parseAdd_reads : ReadsOrders parseAdd OrdersFound where
  sound words command hread := by
    unfold parseAdd at hread
    split at hread
    · obtain ⟨⟨time, fields⟩, htime, hread⟩ := bind_eq_ok_iff.mp hread
      obtain ⟨entries, hentries, hread⟩ := bind_eq_ok_iff.mp hread
      obtain ⟨key, hkey, hread⟩ := bind_eq_ok_iff.mp hread
      obtain rfl := Except.ok.inj hread
      have hdata := spells_iff.mpr ⟨entries, mapM_parseField_eq_ok_iff.mp hentries, rfl⟩
      exact .inl ⟨_, ⟨parseKey_eq_ok_iff.mp hkey, parseReadTime_eq_ok_iff.mp htime, hdata⟩, rfl⟩
    · exact .inr ⟨_, (Except.ok.inj hread).symm⟩
  complete words change h := by
    obtain ⟨hkey, htime, hdata⟩ := h
    obtain ⟨entries, hentries, rfl⟩ := spells_iff.mp hdata
    refine changeIn?_eq_some_iff.mpr ⟨.add (.found _ _ (.ofEntries entries) .never) _, ?_, rfl⟩
    refine bind_eq_ok_iff.mpr ⟨_, parseReadTime_eq_ok_iff.mpr htime, ?_⟩
    refine bind_eq_ok_iff.mpr ⟨_, mapM_parseField_eq_ok_iff.mpr hentries, ?_⟩
    exact bind_eq_ok_iff.mpr ⟨_, parseKey_eq_ok_iff.mpr hkey, rfl⟩

theorem parseAddDeleted_reads : ReadsOrders parseAddDeleted OrdersDeleted where
  sound words command hread := by
    unfold parseAddDeleted at hread
    split at hread
    · obtain ⟨⟨time, behind⟩, htime, hread⟩ := bind_eq_ok_iff.mp hread
      obtain ⟨key, hkey, hread⟩ := bind_eq_ok_iff.mp hread
      obtain rfl := Except.ok.inj hread
      exact .inl ⟨_, ⟨parseKey_eq_ok_iff.mp hkey, parseReadTime_eq_ok_iff.mp htime⟩, rfl⟩
    · exact .inr ⟨_, (Except.ok.inj hread).symm⟩
  complete words change h := by
    obtain ⟨hkey, htime⟩ := h
    refine changeIn?_eq_some_iff.mpr ⟨.addDeleted (.deleted _ _ .never) _, ?_, rfl⟩
    refine bind_eq_ok_iff.mpr ⟨_, parseReadTime_eq_ok_iff.mpr htime, ?_⟩
    exact bind_eq_ok_iff.mpr ⟨_, parseKey_eq_ok_iff.mpr hkey, rfl⟩

theorem parseRemove_reads : ReadsOrders parseRemove OrdersDrop where
  sound words command hread := by
    unfold parseRemove at hread
    split at hread
    · obtain ⟨key, hkey, hread⟩ := bind_eq_ok_iff.mp hread
      obtain rfl := Except.ok.inj hread
      exact .inl ⟨_, ⟨parseKey_eq_ok_iff.mp hkey⟩, rfl⟩
    · exact .inr ⟨_, (Except.ok.inj hread).symm⟩
  complete words change h := by
    obtain ⟨hkey⟩ := h
    exact changeIn?_eq_some_iff.mpr
      ⟨_, bind_eq_ok_iff.mpr ⟨_, parseKey_eq_ok_iff.mpr hkey, rfl⟩, rfl⟩

/-- Commands that only ask, and hints. -/
def Command.asks : Command → Bool
  | .get _ => true
  | .getAll _ => true
  | .query _ _ => true
  | .usage _ => true
  | _ => false

theorem parseGet_asks {words : List String} {command : Command}
    (h : parseGet words = .ok command) : command.asks = true := by
  unfold parseGet at h
  split at h
  · obtain ⟨key, _, h⟩ := bind_eq_ok_iff.mp h
    obtain rfl := Except.ok.inj h
    rfl
  · obtain rfl := Except.ok.inj h
    rfl

theorem parseGetAll_asks {words : List String} {command : Command}
    (h : parseGetAll words = .ok command) : command.asks = true := by
  unfold parseGetAll at h
  split at h
  · obtain rfl := Except.ok.inj h
    rfl
  · obtain ⟨keys, _, h⟩ := bind_eq_ok_iff.mp h
    obtain rfl := Except.ok.inj h
    rfl

theorem parseScan_asks {words : List String} {command : Command}
    (h : parseScan words = .ok command) : command.asks = true := by
  unfold parseScan at h
  split at h
  · obtain rfl := Except.ok.inj h
    rfl
  · obtain ⟨query, _, h⟩ := bind_eq_ok_iff.mp h
    obtain rfl := Except.ok.inj h
    rfl
  · obtain ⟨since, _, h⟩ := bind_eq_ok_iff.mp h
    obtain ⟨query, _, h⟩ := bind_eq_ok_iff.mp h
    obtain rfl := Except.ok.inj h
    rfl

theorem change?_of_asks {command : Command} (h : command.asks = true) :
    command.change? = none := by
  cases command <;> first | rfl | cases h

theorem changeIn?_of_asks {read : Except Error Command}
    (h : ∀ command, read = .ok command → command.asks = true) : changeIn? read = none := by
  cases read with
  | error error => rfl
  | ok command => exact change?_of_asks (h command rfl)

theorem changeIn?_parseCommand {name : String} {words : List String} {change : Change} :
    changeIn? (parseCommand name words) = some change ↔ CommandOrders name words change := by
  constructor
  · intro h
    unfold parseCommand at h
    split at h
    · cases h
    · cases h
    · cases h
    · exact .found (.inl rfl) (parseAdd_reads.iff.mp h)
    · exact .found (.inr rfl) (parseAdd_reads.iff.mp h)
    · exact .deleted rfl (parseAddDeleted_reads.iff.mp h)
    · rw [changeIn?_of_asks fun _ => parseGet_asks] at h
      cases h
    · rw [changeIn?_of_asks fun _ => parseGetAll_asks] at h
      cases h
    · exact .drop (.inl rfl) (parseRemove_reads.iff.mp h)
    · exact .drop (.inr rfl) (parseRemove_reads.iff.mp h)
    · rw [changeIn?_of_asks fun _ => parseScan_asks] at h
      cases h
    · rw [changeIn?_of_asks fun _ => parseScan_asks] at h
      cases h
    · cases h
    · cases h
    · cases h
    · cases h
  · intro h
    cases h with
    | found hname h =>
        rcases hname with rfl | rfl
        · exact parseAdd_reads.iff.mpr h
        · exact parseAdd_reads.iff.mpr h
    | deleted hname h =>
        subst hname
        exact parseAddDeleted_reads.iff.mpr h
    | drop hname h =>
        rcases hname with rfl | rfl
        · exact parseRemove_reads.iff.mpr h
        · exact parseRemove_reads.iff.mpr h

/-- The change that the command in a line makes. -/
def ordered? (line : String) : Option Change := (parseLine line).bind changeIn?

theorem orders_iff {line : String} {change : Change} :
    Orders line change ↔ ordered? line = some change := by
  unfold Orders ordered? parseLine
  cases Text.words line with
  | nil => simp
  | cons name words =>
      rw [Option.bind_some, changeIn?_parseCommand]
      constructor
      · rintro ⟨_, _, ⟨⟩, horders⟩
        exact horders
      · exact fun horders => ⟨name, words, rfl, horders⟩

theorem Orders.unique {line : String} {change other : Change} (h : Orders line change)
    (hother : Orders line other) : change = other :=
  Option.some.inj ((orders_iff.mp h).symm.trans (orders_iff.mp hother))

/-- A command with the name of one that changes documents orders a change or is refused. -/
theorem parseCommand_of_changing {name : String} {words : List String} {command : Command}
    (hname : name ∈ changing) (h : parseCommand name words = .ok command) :
    (∃ change, command.change? = some change) ∨ ∃ text, command = .usage text := by
  have hreads : ∀ {parse orders}, ReadsOrders parse orders → parse words = .ok command →
      (∃ change, command.change? = some change) ∨ ∃ text, command = .usage text :=
    fun hparse hread => (hparse.sound words command hread).imp_left
      fun ⟨change, _, hchange⟩ => ⟨change, hchange⟩
  simp only [changing, List.mem_cons, List.not_mem_nil, or_false] at hname
  rcases hname with rfl | rfl | rfl | rfl | rfl
  · exact hreads parseAdd_reads h
  · exact hreads parseAdd_reads h
  · exact hreads parseAddDeleted_reads h
  · exact hreads parseRemove_reads h
  · exact hreads parseRemove_reads h

/-! ## Leaving -/

/-- The names of the command to leave, in lower case. -/
def leaving : List String := ["exit", "quit", "q"]

/-- Whether a line has the name of the command to leave as its first word. -/
def leaves (line : String) : Bool :=
  match Text.words line with
  | [] => false
  | name :: _ => leaving.contains (Text.toLowerCase name)

theorem ReadsOrders.ne_leave {parse : List String → Except Error Command}
    {orders : List String → Change → Prop} (h : ReadsOrders parse orders) {words : List String} :
    parse words ≠ .ok .leave := by
  intro hleave
  obtain ⟨change, _, hchange⟩ | ⟨text, husage⟩ := h.sound words .leave hleave
  · cases hchange
  · cases husage

theorem ne_leave_of_asks {read : Except Error Command}
    (h : ∀ command, read = .ok command → command.asks = true) : read ≠ .ok .leave := by
  rintro rfl
  cases h .leave rfl

theorem parseCommand_eq_leave_iff {name : String} {words : List String} :
    parseCommand name words = .ok .leave ↔ name ∈ leaving := by
  constructor
  · intro h
    unfold parseCommand at h
    split at h
    · decide
    · decide
    · decide
    · exact absurd h parseAdd_reads.ne_leave
    · exact absurd h parseAdd_reads.ne_leave
    · exact absurd h parseAddDeleted_reads.ne_leave
    · exact absurd h (ne_leave_of_asks fun _ => parseGet_asks)
    · exact absurd h (ne_leave_of_asks fun _ => parseGetAll_asks)
    · exact absurd h parseRemove_reads.ne_leave
    · exact absurd h parseRemove_reads.ne_leave
    · exact absurd h (ne_leave_of_asks fun _ => parseScan_asks)
    · exact absurd h (ne_leave_of_asks fun _ => parseScan_asks)
    · cases h
    · cases h
    · cases h
    · cases h
  · intro hname
    simp only [leaving, List.mem_cons, List.not_mem_nil, or_false] at hname
    rcases hname with rfl | rfl | rfl <;> rfl

theorem parseLine_eq_leave_iff {line : String} :
    parseLine line = some (.ok .leave) ↔ leaves line = true := by
  unfold parseLine leaves
  cases Text.words line with
  | nil => simp
  | cons name words =>
      rw [Option.some.injEq, parseCommand_eq_leave_iff, List.contains_iff_mem]

end DocumentCache.Shell
