import DocumentCache.Proofs.Cache.LastWrite
import DocumentCache.Proofs.Shell.Dialogues

/-!
# Sessions on one directory

A line whose command changes documents and that is answered with OK has changed them as
it orders; any other line has changed none.  So after any number of sessions, one after
another on one directory, the directory holds what all their accepted lines made of
nothing, in order.

Of a document only the length matters: its row must fit the lengths of a log record.
-/

namespace DocumentCache.Shell

open Cache (Call Holds noteKey openOn tooManyLetters wordyNote)

/-! ## What lines make of the documents -/

/-- The row of a document to be stored fits the lengths of a log record. -/
def Change.Fits : Change → Prop
  | .store document => (Call.add document document.readTime).Short
  | .drop _ => True

/-- What an exchange makes of the documents: an accepted line has changed them as it orders,
any other has not. -/
inductive Effect (documents : DocumentMap) (exchange : Exchange) : DocumentMap → Prop
  | accepted {change : Change} (h : exchange.Accepted) (horders : Orders exchange.line change) :
      Effect documents exchange (change.apply documents)
  | other (h : ¬ exchange.Accepted) : Effect documents exchange documents

/-- What exchanges, one after another, make of the documents. -/
inductive Leads : DocumentMap → List Exchange → DocumentMap → Prop
  | done {documents : DocumentMap} : Leads documents [] documents
  | next {documents middle after : DocumentMap} {exchange : Exchange} {rest : List Exchange}
      (heffect : Effect documents exchange middle) (hrest : Leads middle rest after) :
      Leads documents (exchange :: rest) after

theorem Effect.unique {documents after other : DocumentMap} {exchange : Exchange}
    (h : Effect documents exchange after) (hother : Effect documents exchange other) :
    after = other := by
  cases h with
  | accepted haccepted horders =>
      cases hother with
      | accepted _ hagain => rw [horders.unique hagain]
      | other hnot => exact absurd haccepted hnot
  | other hnot =>
      cases hother with
      | accepted haccepted _ => exact absurd haccepted hnot
      | other _ => rfl

theorem Leads.unique {documents after other : DocumentMap} {exchanges : List Exchange}
    (h : Leads documents exchanges after) (hother : Leads documents exchanges other) :
    after = other := by
  induction h with
  | done =>
      cases hother
      rfl
  | next heffect _ ih =>
      obtain _ | ⟨hagain, hrest⟩ := hother
      obtain rfl := heffect.unique hagain
      exact ih hrest

theorem Leads.append {documents middle after : DocumentMap} {first second : List Exchange}
    (h : Leads documents first middle) (hsecond : Leads middle second after) :
    Leads documents (first ++ second) after := by
  induction h with
  | done => exact hsecond
  | next heffect _ ih => exact .next heffect (ih hsecond)

/-! ## Commands -/

/-- The time that a document carries is not written into its row. -/
theorem encodeRow_withReadTime (document : Document) (carried readTime : ReadTime) :
    Cache.encodeRow Payload.codec (document.withReadTime carried) readTime =
      Cache.encodeRow Payload.codec document readTime := by
  cases document <;> rfl

/-- The time that a document carries does not matter when it is added. -/
theorem add_withReadTime {cache : FileCache} (hcodec : cache.codec = Payload.codec)
    (document : Document) (carried readTime : ReadTime) :
    cache.add (document.withReadTime carried) readTime = cache.add document readTime := by
  simp only [Cache.add, hcodec, encodeRow_withReadTime, Cache.writeRow, Document.key_withReadTime]

/-- A known document that fits is stored at its new read time. -/
theorem add_stores {cache : FileCache} {documents : DocumentMap} (h : cache.Holds documents True)
    {document : Document} {readTime : ReadTime}
    (hstorable : (Change.store (document.withReadTime readTime)).Storable)
    (hfits : (Change.store (document.withReadTime readTime)).Fits) :
    (cache.add document readTime).1 = .ok () ∧
      (cache.add document readTime).2.Holds
        ((Change.store (document.withReadTime readTime)).apply documents) True := by
  obtain ⟨hknown, hread, hnamed⟩ := hstorable
  rw [Document.isKnown_withReadTime] at hknown
  rw [Document.readTime_withReadTime readTime hknown] at hread
  rw [Document.key_withReadTime] at hnamed
  have hshort : (Call.add document readTime).Short := by
    intro rowKey row hencode
    apply hfits rowKey row
    rw [Document.readTime_withReadTime readTime hknown, encodeRow_withReadTime, hencode]
  have hallowed : (Call.add document readTime).Allowed := by
    refine ⟨hnamed, fun rowKey row hencode => ?_⟩
    exact Nat.lt_trans (hshort rowKey row hencode).2 (by decide)
  obtain ⟨hok, hholds⟩ := h.add hallowed
  refine ⟨hok.mpr ⟨hknown, hread⟩, ?_⟩
  simp only [Call.effect, hknown, hread, ne_eq, not_false_eq_true, and_self, if_true] at hholds
  rw [Change.apply, Document.key_withReadTime]
  exact hholds.mono fun _ => ⟨trivial, hshort⟩

/-- A command that stores a document adds it and says what came of it. -/
theorem run_of_store {command : Command} {document : Document}
    (h : command.change? = some (.store document)) (uptime : String) (cache : FileCache) :
    ∃ given readTime, given.withReadTime readTime = document ∧ ∃ confirmation ∈ confirmations,
      run uptime cache command =
        (answer (cache.add given readTime).1 fun _ => confirmation, (cache.add given readTime).2) := by
  cases command with
  | add given readTime =>
      exact ⟨given, readTime, Change.store.inj (Option.some.inj h), "  OK\n", by decide, rfl⟩
  | addDeleted given readTime =>
      exact ⟨given, readTime, Change.store.inj (Option.some.inj h), "  OK (tombstone)\n",
        by decide, rfl⟩
  | _ => cases h

theorem eq_remove_of_drop {command : Command} {key : DocumentKey}
    (h : command.change? = some (.drop key)) : command = .remove key := by
  cases command with
  | remove other => rw [Change.drop.inj (Option.some.inj h)]
  | _ => cases h

/-- A command that orders a change makes it and confirms it. -/
theorem run_change {cache : FileCache} {documents : DocumentMap} (h : cache.Holds documents True)
    {command : Command} {change : Change} (hchange : command.change? = some change)
    (hstorable : change.Storable) (hfits : change.Fits) (uptime : String) :
    (run uptime cache command).1 ∈ confirmations ∧
      (run uptime cache command).2.Holds (change.apply documents) True := by
  cases change with
  | store document =>
      obtain ⟨given, readTime, rfl, confirmation, hconfirms, hrun⟩ :=
        run_of_store hchange uptime cache
      obtain ⟨hok, hholds⟩ := add_stores h hstorable hfits
      rw [hrun, hok]
      exact ⟨hconfirms, hholds⟩
  | drop key =>
      obtain rfl := eq_remove_of_drop hchange
      obtain ⟨hok, hholds⟩ := h.remove key
      have htext : (run uptime cache (.remove key)).1 =
          answer (cache.remove key).1 fun _ => "  OK (removed)\n" := rfl
      refine ⟨?_, hholds⟩
      rw [htext, hok]
      decide

/-- A command that orders no change leaves everything but the counters alone. -/
theorem run_other (uptime : String) (cache : FileCache) {command : Command}
    (hchange : command.change? = none) :
    ∃ counters, (run uptime cache command).2 = { cache with counters } := by
  cases command with
  | add _ _ => cases hchange
  | addDeleted _ _ => cases hchange
  | remove _ => cases hchange
  | get key => exact cache.get_keeps key
  | getAll keys => exact cache.getAll_keeps keys
  | query query since => exact cache.query_keeps query since false
  | latest => exact cache.latestReadTime_keeps
  | _ => exact ⟨cache.counters, rfl⟩

/-! ## One line -/

section Line

variable {cache : FileCache} {documents : DocumentMap} {line : String}

theorem reply_of_orders (h : cache.Holds documents True) {change : Change}
    (horders : Orders line change) (hfits : change.Fits) (uptime : String) :
    (⟨line, (reply uptime cache line).text⟩ : Exchange).Accepted ∧
      (reply uptime cache line).cache.Holds (change.apply documents) True := by
  obtain ⟨read, hread, hchange⟩ := Option.bind_eq_some_iff.mp (orders_iff.mp horders)
  obtain ⟨command, rfl, hchange⟩ := changeIn?_eq_some_iff.mp hchange
  obtain ⟨hconfirmed, hholds⟩ := run_change h hchange horders.storable hfits uptime
  obtain ⟨name, words, hwords, hcommand⟩ := horders
  rw [reply_of_command hread]
  exact ⟨⟨⟨name, words, hwords, hcommand.changing⟩, hconfirmed⟩, hholds⟩

/-- A line that orders a document to be stored adds it, and is accepted if it could be added. -/
theorem reply_of_orders_store {cache : FileCache} (hcodec : cache.codec = Payload.codec)
    {line : String} {document : Document} (horders : Orders line (.store document))
    (uptime : String) :
    (reply uptime cache line).cache = (cache.add document document.readTime).2 ∧
      ((cache.add document document.readTime).1 = .ok () →
        (⟨line, (reply uptime cache line).text⟩ : Exchange).Accepted) := by
  obtain ⟨hknown, -, -⟩ := horders.storable
  obtain ⟨read, hread, hchange⟩ := Option.bind_eq_some_iff.mp (orders_iff.mp horders)
  obtain ⟨command, rfl, hchange⟩ := changeIn?_eq_some_iff.mp hchange
  obtain ⟨given, readTime, rfl, confirmation, hconfirms, hrun⟩ := run_of_store hchange uptime cache
  obtain ⟨name, words, hwords, hcommand⟩ := horders
  rw [Document.isKnown_withReadTime] at hknown
  rw [reply_of_command hread, hrun, Document.readTime_withReadTime readTime hknown,
    add_withReadTime hcodec]
  refine ⟨rfl, fun hok => ⟨⟨name, words, hwords, hcommand.changing⟩, ?_⟩⟩
  rw [hok]
  exact hconfirms

/-- A line that orders nothing is not accepted, and leaves everything but the counters alone. -/
theorem reply_of_not_orders (hnone : ∀ change, ¬ Orders line change) (uptime : String)
    (cache : FileCache) :
    ¬ (⟨line, (reply uptime cache line).text⟩ : Exchange).Accepted ∧
      ∃ counters, (reply uptime cache line).cache = { cache with counters } := by
  cases hread : parseLine line with
  | none =>
      have hreply : reply uptime cache line = ⟨"", cache, false⟩ := by rw [reply, hread]
      have hsilent : "" ∉ confirmations := by decide
      rw [hreply]
      exact ⟨fun haccepted => hsilent haccepted.2, cache.counters, rfl⟩
  | some read =>
      cases read with
      | error error =>
          have hreply : reply uptime cache line = ⟨showError error, cache, false⟩ := by
            rw [reply, hread]
          rw [hreply]
          exact ⟨fun haccepted => showError_notMem_confirmations error haccepted.2,
            cache.counters, rfl⟩
      | ok command =>
          have hchange : command.change? = none := by
            refine Option.eq_none_iff_forall_not_mem.mpr fun change hchange => ?_
            apply hnone change
            rw [orders_iff, ordered?, hread]
            exact hchange
          rw [reply_of_command hread]
          refine ⟨?_, run_other uptime cache hchange⟩
          -- With the name of a command that changes documents, only a hint can come of it.
          rintro ⟨⟨name, words, hwords, hname⟩, hconfirmed⟩
          simp only [parseLine, hwords, Option.some.injEq] at hread
          obtain ⟨change, hsome⟩ | ⟨text, rfl⟩ := parseCommand_of_changing hname hread
          · rw [hchange] at hsome
            cases hsome
          · exact usage_notMem_confirmations uptime cache text hconfirmed

/-- Exactly the lines that order a change are accepted, and the cache then holds what the
answer says. -/
theorem reply_effect (h : cache.Holds documents True)
    (hfits : ∀ change, Orders line change → change.Fits) (uptime : String) :
    let exchange : Exchange := ⟨line, (reply uptime cache line).text⟩
    (exchange.Accepted ↔ ∃ change, Orders line change) ∧
      ∃ after, Effect documents exchange after ∧
        (reply uptime cache line).cache.Holds after True := by
  by_cases hsome : ∃ change, Orders line change
  · obtain ⟨change, horders⟩ := hsome
    obtain ⟨haccepted, hholds⟩ := reply_of_orders h horders (hfits change horders) uptime
    exact ⟨iff_of_true haccepted ⟨change, horders⟩, _, .accepted haccepted horders, hholds⟩
  · obtain ⟨hrefused, counters, hkeeps⟩ :=
      reply_of_not_orders (not_exists.mp hsome) uptime cache
    refine ⟨iff_of_false hrefused hsome, documents, .other hrefused, ?_⟩
    rw [hkeeps]
    exact h.counters counters

end Line

/-! ## Sessions -/

/-- Changes ordered by the lines that are heard fit. -/
def LinesFit (lines : List String) : Prop :=
  ∀ line ∈ heard lines, ∀ change, Orders line change → change.Fits

/-- Exactly the lines that order a change were accepted. -/
def AcceptsOrders (exchanges : List Exchange) : Prop :=
  ∀ exchange ∈ exchanges, exchange.Accepted ↔ ∃ change, Orders exchange.line change

theorem dialogue_leads {cache : FileCache} {documents : DocumentMap}
    (h : cache.Holds documents True) {lines : List String} (hfits : LinesFit lines)
    (uptime : String) :
    AcceptsOrders (dialogue uptime cache lines).1 ∧
      ∃ after, Leads documents (dialogue uptime cache lines).1 after ∧
        (dialogue uptime cache lines).2.Holds after True := by
  induction lines generalizing cache documents with
  | nil => exact ⟨List.forall_mem_nil _, documents, .done, h⟩
  | cons line rest ih =>
      rw [LinesFit, heard] at hfits
      rw [dialogue, ended_reply]
      by_cases hleaves : leaves line = true
      · rw [if_pos hleaves, List.forall_mem_singleton] at hfits
        simp only [if_pos hleaves]
        obtain ⟨haccepted, after, heffect, hafter⟩ := reply_effect h hfits uptime
        exact ⟨List.forall_mem_singleton.mpr haccepted, after, .next heffect .done, hafter⟩
      · rw [if_neg hleaves, List.forall_mem_cons] at hfits
        simp only [if_neg hleaves]
        obtain ⟨haccepted, middle, heffect, hmiddle⟩ := reply_effect h hfits.1 uptime
        obtain ⟨hrest, after, hleads, hafter⟩ := ih hmiddle hfits.2
        exact ⟨List.forall_mem_cons.mpr ⟨haccepted, hrest⟩, after, .next heffect hleads, hafter⟩

/-- What comes in during a session, and what a report says of the time passed. -/
structure Session where
  uptime : String
  input : Bytes

/-- What was said in a session and what was printed. -/
structure Visit where
  exchanges : List Exchange
  printed : String

/-- Hold sessions on a directory, each after the one before it is over. -/
def hold (disk : Disk) : List Session → Except (Error × Disk) (List Visit × Disk)
  | [] => .ok ([], disk)
  | session :: rest => do
      let cache ← openCache disk
      let (exchanges, _) := dialogue session.uptime cache (textLines session.input)
      let (printed, last) := converse session.uptime cache session.input
      let (visits, left) ← hold (diskOf last) rest
      return (⟨exchanges, printed⟩ :: visits, left)

/-- A session on a directory that can be opened comes before the others. -/
theorem hold_of_opens {disk : Disk} {session : Session} {cache last : FileCache}
    {exchanges : List Exchange} (hopen : openCache disk = .ok cache)
    (hsaid : dialogue session.uptime cache (textLines session.input) = (exchanges, last))
    (rest : List Session) :
    hold disk (session :: rest) =
      (hold (diskOf last) rest).map fun held =>
        (⟨exchanges, transcript exchanges⟩ :: held.1, held.2) := by
  obtain ⟨rfl, rfl⟩ := Prod.mk.inj hsaid
  simp only [hold, hopen, converse_eq]
  change (hold _ rest >>= _) = _
  cases hold (diskOf (dialogue session.uptime cache (textLines session.input)).2) rest <;> rfl

/-- No session is held on a directory that cannot be opened. -/
theorem hold_of_refused {disk : Disk} {failure : Error × Disk}
    (h : openCache disk = .error failure) (session : Session) (rest : List Session) :
    hold disk (session :: rest) = .error failure := by
  rw [hold, h]
  rfl

/-- A directory whose log records these documents, and in which nothing will fail. -/
def StoredOn (disk : Disk) (documents : DocumentMap) : Prop :=
  ∃ table, disk.Records table ∧ disk.fates = [] ∧ Cache.Stores table documents

theorem storedOn_empty : StoredOn .empty .empty :=
  ⟨.empty, Engine.records_empty, rfl, Cache.stores_empty⟩

theorem StoredOn.opens {disk : Disk} {documents : DocumentMap} (h : StoredOn disk documents) :
    ∃ cache, openCache disk = .ok cache ∧ cache.Holds documents True := by
  obtain ⟨table, hrecords, hcalm, hstored⟩ := h
  have hvalid : Settings.default.validate = .ok () := rfl
  obtain ⟨cache, hopen, _, hholds⟩ := Cache.openOn_holds hvalid rfl hrecords hcalm hstored
  exact ⟨cache, hopen, hholds⟩

theorem storedOn_diskOf {cache : FileCache} {documents : DocumentMap}
    (h : cache.Holds documents True) : StoredOn (diskOf cache) documents := by
  obtain ⟨operations, hsync, hshort⟩ := h.synced
  exact ⟨_, hsync.records (hshort trivial), h.calm, h.stored⟩

/-- What is told of a session: its lines were heard up to the one that leaves, all that was
printed are the answers, and exactly the lines that order a change were accepted. -/
structure Tells (session : Session) (visit : Visit) : Prop where
  lines : visit.exchanges.map Exchange.line = heard (textLines session.input)
  printed : visit.printed = transcript visit.exchanges
  accepts : AcceptsOrders visit.exchanges

theorem hold_leads {disk : Disk} {documents : DocumentMap} (h : StoredOn disk documents)
    {sessions : List Session}
    (hfits : ∀ session ∈ sessions, LinesFit (textLines session.input)) :
    ∃ visits left after, hold disk sessions = .ok (visits, left) ∧
      List.Forall₂ Tells sessions visits ∧
      Leads documents (visits.flatMap Visit.exchanges) after ∧ StoredOn left after := by
  induction sessions generalizing disk documents with
  | nil => exact ⟨[], disk, documents, rfl, .nil, .done, h⟩
  | cons session rest ih =>
      obtain ⟨hsession, hrest⟩ := List.forall_mem_cons.mp hfits
      obtain ⟨cache, hopen, hcache⟩ := h.opens
      obtain ⟨haccepts, middle, hleads, hmiddle⟩ := dialogue_leads hcache hsession session.uptime
      obtain ⟨visits, left, after, hhold, htells, hlater, hleft⟩ :=
        ih (storedOn_diskOf hmiddle) hrest
      refine ⟨⟨_, transcript _⟩ :: visits, left, after, ?_,
        .cons ⟨?_, rfl, haccepts⟩ htells, ?_, hleft⟩
      · simp only [hold, hopen, converse_eq, bind_eq_ok_iff]
        exact ⟨_, rfl, _, hhold, rfl⟩
      · exact lines_dialogue _ _ _
      · rw [List.flatMap_cons]
        exact hleads.append hlater

/-- What lines make of the documents if exactly those that order a change are accepted. -/
def lineEffect (documents : DocumentMap) (line : String) : DocumentMap :=
  match ordered? line with
  | some change => change.apply documents
  | none => documents

theorem leads_lineEffect {exchanges : List Exchange} (h : AcceptsOrders exchanges)
    (documents : DocumentMap) :
    Leads documents exchanges ((exchanges.map Exchange.line).foldl lineEffect documents) := by
  induction exchanges generalizing documents with
  | nil => exact .done
  | cons exchange rest ih =>
      obtain ⟨haccepted, hrest⟩ := List.forall_mem_cons.mp h
      refine .next ?_ (ih hrest _)
      cases hordered : ordered? exchange.line with
      | none =>
          have hrefused : ¬ exchange.Accepted := by
            rw [haccepted]
            rintro ⟨change, horders⟩
            rw [orders_iff, hordered] at horders
            cases horders
          simp only [lineEffect, hordered]
          exact .other hrefused
      | some change =>
          have horders : Orders exchange.line change := orders_iff.mpr hordered
          simp only [lineEffect, hordered]
          exact .accepted (haccepted.mpr ⟨change, horders⟩) horders

theorem lines_of_tells {sessions : List Session} {visits : List Visit}
    (h : List.Forall₂ Tells sessions visits) :
    AcceptsOrders (visits.flatMap Visit.exchanges) ∧
      (visits.flatMap Visit.exchanges).map Exchange.line =
        sessions.flatMap fun session => heard (textLines session.input) := by
  induction h with
  | nil => exact ⟨List.forall_mem_nil _, rfl⟩
  | cons htells _ ih =>
      obtain ⟨haccepts, hlines⟩ := ih
      simp only [List.flatMap_cons, List.map_append, htells.lines, hlines, and_true]
      exact List.forall_mem_append.mpr ⟨htells.accepts, haccepts⟩

/-- After any sessions on one directory, beginning with an empty one, the directory holds what
the lines answered with OK made of nothing, in order, and nothing else: a lookup of a key
finds the document stored for it last and not dropped since. -/
theorem hold_applies_accepted {sessions : List Session}
    (hfits : ∀ session ∈ sessions, LinesFit (textLines session.input)) :
    ∃ visits left documents cache,
      hold .empty sessions = .ok (visits, left) ∧ List.Forall₂ Tells sessions visits ∧
      (∀ after, Leads .empty (visits.flatMap Visit.exchanges) after ↔ after = documents) ∧
      openCache left = .ok cache ∧
      ∀ key, (cache.get key).1 = .ok ((documents.get? key).getD (.unknown key)) := by
  obtain ⟨visits, left, documents, hhold, htells, hleads, hleft⟩ := hold_leads storedOn_empty hfits
  obtain ⟨cache, hopen, hcache⟩ := hleft.opens
  refine ⟨visits, left, documents, cache, hhold, htells, fun after => ?_, hopen, hcache.get_eq⟩
  exact ⟨fun hafter => hafter.unique hleads, fun hsame => hsame ▸ hleads⟩

def roomKey (name : String) : DocumentKey := .topLevel "rooms" name

/-- The first room, found with one field. -/
def foundRoom : Document :=
  .found (roomKey "1") ⟨5, 7, by decide, by decide⟩ (.ofEntries [("n", .text "a=b")])
    ⟨5, 7, by decide, by decide⟩

def deletedRoom : Document := .deleted (roomKey "2") (.ofSeconds 3) (.ofSeconds 3)

/-- A room is added with one field named twice, then the session is left. -/
def addingSession : Session :=
  ⟨"1s", Utf8.encode "ADD rooms/1 5 7 n=1 n=a=b\nq\nadd rooms/1 6\n"⟩

/-- Another room is deleted; the last line is refused. -/
def deletingSession : Session :=
  ⟨"2s", Utf8.encode "tomb rooms/2 3\nadd rooms/1 9 x\n"⟩

theorem ordered?_of_words {line name lower : String} {words : List String}
    (hwords : Text.words line = name :: words) (hname : Text.toLowerCase name = lower) :
    ordered? line = changeIn? (parseCommand lower words) := by
  rw [ordered?, parseLine, hwords, ← hname]
  rfl

theorem ordered?_roomLines :
    ordered? "ADD rooms/1 5 7 n=1 n=a=b\n" = some (.store foundRoom) ∧
      ordered? "q\n" = none ∧
      ordered? "tomb rooms/2 3\n" = some (.store deletedRoom) ∧
      ordered? "add rooms/1 9 x\n" = none := by
  have hadd : Text.words "ADD rooms/1 5 7 n=1 n=a=b\n" =
      ["ADD", "rooms/1", "5", "7", "n=1", "n=a=b"] := by decide +kernel
  have hleave : Text.words "q\n" = ["q"] := by decide +kernel
  have htomb : Text.words "tomb rooms/2 3\n" = ["tomb", "rooms/2", "3"] := by decide +kernel
  have hrefused : Text.words "add rooms/1 9 x\n" = ["add", "rooms/1", "9", "x"] := by
    decide +kernel
  have hlowered : Text.toLowerCase "ADD" = "add" ∧ Text.toLowerCase "q" = "q" ∧
      Text.toLowerCase "tomb" = "tomb" ∧ Text.toLowerCase "add" = "add" := by decide +kernel
  obtain ⟨haddName, hleaveName, htombName, hrefusedName⟩ := hlowered
  rw [ordered?_of_words hadd haddName, ordered?_of_words hleave hleaveName,
    ordered?_of_words htomb htombName, ordered?_of_words hrefused hrefusedName]
  exact ⟨rfl, rfl, rfl, rfl⟩

theorem heard_addingSession : heard (textLines addingSession.input) =
    ["ADD rooms/1 5 7 n=1 n=a=b\n", "q\n"] := by decide +kernel

theorem heard_deletingSession : heard (textLines deletingSession.input) =
    ["tomb rooms/2 3\n", "add rooms/1 9 x\n"] := by decide +kernel

theorem roomSessions_fit :
    ∀ session ∈ [addingSession, deletingSession], LinesFit (textLines session.input) := by
  obtain ⟨hadd, hleave, htomb, hrefused⟩ := ordered?_roomLines
  have hfirst : foundRoom.key.Named := DocumentKey.named_topLevel (by decide) (by decide)
  have hsecond : deletedRoom.key.Named := DocumentKey.named_topLevel (by decide) (by decide)
  have hfound : (Change.store foundRoom).Fits :=
    (Cache.add_allowed_short hfirst rfl (by decide +kernel)).2
  have hdeleted : (Change.store deletedRoom).Fits :=
    (Cache.add_allowed_short hsecond rfl (by decide +kernel)).2
  simp only [List.forall_mem_cons, LinesFit, heard_addingSession, heard_deletingSession,
    orders_iff, hadd, hleave, htomb, hrefused, Option.some.injEq, forall_eq', hfound, hdeleted,
    reduceCtorEq, false_imp_iff, List.not_mem_nil, and_self, implies_true]

theorem hold_applies_accepted_roomSessions :
    ∃ visits left cache,
      hold .empty [addingSession, deletingSession] = .ok (visits, left) ∧
      openCache left = .ok cache ∧
      (cache.get (roomKey "1")).1 = .ok foundRoom ∧
      (cache.get (roomKey "2")).1 = .ok deletedRoom := by
  obtain ⟨visits, left, documents, cache, hhold, htells, hleads, hopen, hget⟩ :=
    hold_applies_accepted roomSessions_fit
  obtain ⟨haccepts, hlines⟩ := lines_of_tells htells
  obtain ⟨hadd, hleave, htomb, hrefused⟩ := ordered?_roomLines
  have hdocuments := (hleads _).mp (leads_lineEffect haccepts .empty)
  simp only [hlines, List.flatMap_cons, List.flatMap_nil, List.append_nil, heard_addingSession,
    heard_deletingSession, List.cons_append, List.nil_append, List.foldl_cons, List.foldl_nil,
    lineEffect, hadd, hleave, htomb, hrefused] at hdocuments
  subst hdocuments
  refine ⟨visits, left, cache, hhold, hopen, ?_, ?_⟩
  · rw [hget]
    rfl
  · rw [hget]
    rfl

/-! ## A line that is too long -/

/-- A field with a name of this many letters. -/
def wordyField (letters : Nat) : String := lettersX letters ++ "=" ++ "1"

/-- What a line says that adds a note with such a field. -/
def wordyText (letters : Nat) : String := "add notes/wordy 6" ++ (" " ++ wordyField letters)

theorem toList_lettersX (letters : Nat) :
    (lettersX letters).toList = List.replicate letters 'x' := String.toList_ofList

theorem toList_wordyField (letters : Nat) :
    (wordyField letters).toList = List.replicate letters 'x' ++ ['=', '1'] := by
  rw [wordyField, String.toList_append, String.toList_append, toList_lettersX,
    List.append_assoc]
  rfl

theorem words_wordyText (letters : Nat) :
    Text.words (wordyText letters ++ "\n") = ["add", "notes/wordy", "6", wordyField letters] := by
  have hfront : Text.words "add notes/wordy 6" = ["add", "notes/wordy", "6"] := by decide +kernel
  have hplain : ∀ letter ∈ (wordyField letters).toList, Text.isBlank letter = false := by
    simp only [toList_wordyField, List.forall_mem_append, List.mem_replicate]
    exact ⟨fun letter h => h.2 ▸ rfl,
      List.forall_mem_cons.mpr ⟨rfl, List.forall_mem_singleton.mpr rfl⟩⟩
  have hsome : wordyField letters ≠ "" := by
    intro hnone
    have hnil : List.replicate letters 'x' ++ ['=', '1'] = [] := by
      rw [← toList_wordyField, hnone]
      rfl
    exact List.cons_ne_nil _ _ (List.append_eq_nil_iff.mp hnil).2
  have hend : wordyText letters ++ "\n" = wordyText letters ++ ("\n" ++ "") := rfl
  have hspace : wordyText letters = "add notes/wordy 6" ++ (" " ++ wordyField letters) := rfl
  rw [hend, Text.words_append_blank _ (by rfl : "\n".toList = ['\n']) rfl, hspace,
    Text.words_append_blank _ (by rfl : " ".toList = [' ']) rfl, hfront,
    Text.words_of_letters hsome hplain]
  rfl

theorem parseValue_one : parseValue "1" = .integer 1 := by
  have hread : Decimal.readInt64? "1" = some 1 := by decide +kernel
  simp [parseValue, hread]

theorem orders_wordyText (letters : Nat) :
    Orders (wordyText letters ++ "\n") (.store (wordyNote letters)) := by
  have hname : Text.toLowerCase "add" = "add" := by decide +kernel
  have hkey : DocumentKey.parse "notes/wordy" = .ok (noteKey "wordy") := rfl
  have hseconds : Decimal.readInt? "6" = some 6 := by decide +kernel
  have hnext : ∀ next ∈ [wordyField letters].head?, '=' ∈ next.toList := by
    rintro next ⟨⟩
    rw [toList_wordyField]
    exact List.mem_append_right _ List.mem_cons_self
  have hassigns : Assigns (wordyField letters) (lettersX letters) "1" := by
    refine ⟨by rw [wordyField], ?_⟩
    rw [toList_lettersX]
    exact fun h => absurd (List.eq_of_mem_replicate h) (by decide)
  have hword : ∃ text, Assigns (wordyField letters) (lettersX letters) text ∧
      .integer 1 = parseValue text := ⟨"1", hassigns, parseValue_one.symm⟩
  have hentries : Entries [wordyField letters] [(lettersX letters, .integer 1)] :=
    List.Forall₂.cons hword .nil
  have hspells := spells_iff.mpr ⟨_, hentries, rfl⟩
  exact ⟨"add", _, words_wordyText letters, .found (.inl hname)
    (.intro hkey (.seconds (by decide) hseconds rfl hnext) hspells)⟩

theorem textLines_wordyText (letters : Nat) :
    textLines (Utf8.encode (wordyText letters ++ "\n")) = [wordyText letters ++ "\n"] := by
  apply textLines_of_line
  change 0x0A ∉ Utf8.encode ("add notes/wordy 6" ++ (" " ++ (lettersX letters ++ "=" ++ "1")))
  rw [Utf8.encode_append _ (" " ++ _), Utf8.encode_append " ", Utf8.encode_append _ "1",
    Utf8.encode_append _ "=", Utf8.encode_lettersX]
  simp only [List.mem_append, not_or]
  refine ⟨by decide, by decide, ⟨?_, by decide⟩, by decide⟩
  exact fun h => absurd (List.eq_of_mem_replicate h) (by decide)

/-- A session with one line, whose document is added but makes the directory be refused, is the
last one on it. -/
theorem hold_last {uptime line : String} {input : Bytes} (hinput : textLines input = [line])
    {document : Document} (horders : Orders line (.store document)) {error : Error}
    (hadd : ∀ cache : FileCache, cache.Holds .empty True →
      (cache.add document document.readTime).1 = .ok () ∧
        openCache (diskOf (cache.add document document.readTime).2) =
          .error (error, diskOf (cache.add document document.readTime).2)) :
    ∃ exchange printed left, exchange.line = line ∧ exchange.Accepted ∧
      hold .empty [⟨uptime, input⟩] = .ok ([⟨[exchange], printed⟩], left) ∧
      openCache left = .error (error, left) ∧
      ∀ session, hold .empty [⟨uptime, input⟩, session] = .error (error, left) := by
  obtain ⟨cache, hopen, hholds⟩ := storedOn_empty.opens
  obtain ⟨hcache, haccepted⟩ := reply_of_orders_store hholds.codec_eq horders uptime
  obtain ⟨hok, hrefused⟩ := hadd cache hholds
  rw [← hcache] at hrefused
  have hsaid := dialogue_singleton uptime cache line
  rw [← hinput] at hsaid
  have hfirst : ∀ rest, hold .empty (⟨uptime, input⟩ :: rest) = _ := hold_of_opens hopen hsaid
  refine ⟨_, _, _, rfl, haccepted hok, hfirst [], hrefused, fun session => ?_⟩
  rw [hfirst, hold_of_refused hrefused]
  rfl

/-- A line may order a document with such a row: it is accepted, but then no session can be held
on the directory any more. -/
theorem next_session_refused_of_wordyText :
    ∃ exchange printed left,
      exchange.line = wordyText tooManyLetters ++ "\n" ∧
      Orders exchange.line (.store (wordyNote tooManyLetters)) ∧ exchange.Accepted ∧
      hold .empty [⟨"1s", Utf8.encode exchange.line⟩] = .ok ([⟨[exchange], printed⟩], left) ∧
      openCache left = .error (.recoveryFailed .recordChecksum, left) ∧
      ∀ session, hold .empty [⟨"1s", Utf8.encode exchange.line⟩, session] =
        .error (.recoveryFailed .recordChecksum, left) := by
  have hvalid : Settings.default.validate = .ok () := rfl
  have horders := orders_wordyText tooManyLetters
  have hinput := textLines_wordyText tooManyLetters
  generalize wordyText tooManyLetters ++ "\n" = line at *
  have hadd : ∀ cache : FileCache, cache.Holds .empty True → _ := fun cache hholds => by
    obtain ⟨hok, -, hrefused⟩ := hholds.add_wordyNote trivial hvalid
    exact And.intro hok hrefused
  obtain ⟨exchange, printed, left, rfl, haccepted, hhold, hopen, hnext⟩ :=
    hold_last hinput horders hadd
  exact ⟨exchange, printed, left, rfl, horders, haccepted, hhold, hopen, hnext⟩

end DocumentCache.Shell
