import DocumentCache.Proofs.Journal.Crashes
import DocumentCache.Proofs.Journal.Failures
import DocumentCache.Proofs.Journal.LogLengths

/-!
# Failed writes

A writing call may fail at each of its file actions: while its record is written or
forced to the device, and at each action of the checkpoint that may follow.  What it
leaves depends on the action.  Only a call that is refused by its check, or that fails
before the first byte of its record, is without effect.  A part of a record hides the
records that are appended behind it; a whole record that could not be forced to the
device is found again by the next opening; a checkpoint that fails leaves its call done,
and one that fails after the new log has taken its name leaves a handle on a file
without one.  The table goes on as it should in all cases, and the next checkpoint that
succeeds brings engine and log in step.
-/

namespace DocumentCache

namespace Log

variable {log : Log} {content : Bytes}

/-- What is seen in the directory of the records that a handle appends. -/
def told (attached : Bool) (changes : List Operation) : Bytes :=
  if attached then encodeAll changes else []

@[simp]
theorem told_nil (attached : Bool) : told attached [] = [] := by
  cases attached with
  | false => rfl
  | true => rfl

theorem told_concat (attached : Bool) (changes : List Operation) (operation : Operation) :
    told attached (changes ++ [operation]) =
      told attached changes ++ told attached [operation] := by
  cases attached with
  | false => rfl
  | true => exact encodeAll_append changes [operation]

/-- What a handle appends that has lost its log is not seen in the directory. -/
theorem append_of_detached (hdetached : log.attached = false) (hcalm : log.fates = [])
    (operation : Operation) :
    ∃ after, log.append operation = (.ok (), after) ∧ after.disk = log.disk ∧
      after.attached = false := by
  obtain ⟨⟨file, scratch, fates⟩, syncWrites, size, attached⟩ := log
  obtain rfl : attached = false := hdetached
  obtain rfl : fates = [] := hcalm
  cases syncWrites with
  | false => exact ⟨_, rfl, rfl, rfl⟩
  | true => exact ⟨_, rfl, rfl, rfl⟩

/-- Where nothing fails, a handle tells its directory what it can. -/
theorem append_tells (hlog : log.disk.log = .file content) (hcalm : log.fates = [])
    (operation : Operation) :
    ∃ after, log.append operation = (.ok (), after) ∧
      after.disk.log = .file (content ++ told log.attached [operation]) ∧
      after.attached = log.attached ∧ after.fates = [] := by
  cases hattached : log.attached with
  | false =>
      obtain ⟨after, happend, hdisk, hafter⟩ := append_of_detached hattached hcalm operation
      have hstill : after.fates = [] := by
        rw [fates, hdisk]
        exact hcalm
      refine ⟨after, happend, ?_, hafter, hstill⟩
      rw [hdisk, hlog, told, if_neg Bool.false_ne_true, List.append_nil]
  | true =>
      obtain ⟨_, after, happend, ⟨hgrown, -, hafter⟩, hstill⟩ :=
        (append_ends hlog hattached operation).of_calm hcalm
      refine ⟨after, happend, ?_, hafter, hstill⟩
      rw [hgrown, told, if_pos rfl, encodeAll_cons, encodeAll, List.flatMap_nil,
        List.append_nil]

end Log

namespace Engine

variable {engine before after : Engine} {operation : Operation} {content : Bytes}

/-! ## Calls that fail -/

/-- The writing call answers with this error and leaves this engine. -/
inductive Fails (engine : Engine) : Call → Error → Engine → Prop where
  | put {key value : Bytes} {error : Error} {after : Engine}
      (hput : engine.put key value = (.error error, after)) :
      engine.Fails (.put key value) error after
  | putIf {key value : Bytes} {check : Option Bytes → Verdict} {error : Error} {after : Engine}
      (hput : engine.putIf key value check = (some (.error error), after)) :
      engine.Fails (.putIf key value check) error after
  | delete {key : Bytes} {error : Error} {after : Engine}
      (hdelete : engine.delete key = (.error error, after)) :
      engine.Fails (.delete key) error after

/-- A call fails because its check refuses, or because its change cannot be committed. -/
theorem Fails.refused_or_uncommitted {call : Call} {error : Error}
    (h : engine.Fails call error after) :
    (call.change? engine = none ∧ after = engine) ∨
      ∃ operation, call.change? engine = some operation ∧
        engine.commit operation = (.error error, after) := by
  cases h with
  | @put key value _ _ hput => exact .inr ⟨.put key value, rfl, hput⟩
  | @putIf key value check _ _ hput =>
      simp only [Engine.putIf] at hput
      simp only [Call.change?]
      cases hverdict : check (engine.get? key) with
      | accept =>
          rw [hverdict] at hput
          obtain ⟨hresult, rfl⟩ := Prod.mk.inj hput
          exact .inr ⟨_, rfl, Prod.ext (Option.some.inj hresult) rfl⟩
      | refuse reason =>
          rw [hverdict] at hput
          exact .inl ⟨rfl, (Prod.mk.inj hput).2.symm⟩
      | abort =>
          rw [hverdict] at hput
          cases hput
  | @delete key _ _ hdelete =>
      simp only [Engine.delete] at hdelete
      simp only [Call.change?]
      cases hheld : engine.get? key with
      | none =>
          rw [hheld] at hdelete
          cases hdelete
      | some value =>
          rw [hheld] at hdelete
          exact .inr ⟨_, rfl, hdelete⟩

/-- The actions at which a commit stops, with what they leave. -/
inductive Stop (before : Engine) (operation : Operation) (content : Bytes)
    (after : Engine) : Prop where
  /-- Writing the record or forcing it to the device. -/
  | recording (count : Nat) (htable : after.table = before.table)
      (hlog : after.disk.log = .file (content ++ operation.encode.take count))
      (hsize : after.logSize = before.logSize) (hattached : after.log.attached = true)
  /-- Preparing the log that is to replace the old one. -/
  | preparing (htable : after.table = operation.apply before.table)
      (hlog : after.disk.log = .file (content ++ operation.encode))
      (hsize : after.logSize = before.logSize + operation.encode.length)
      (hattached : after.log.attached = true)
  /-- Opening the new log, which has its name by then. -/
  | reopening (htable : after.table = operation.apply before.table)
      (hlog : after.disk.log = .file (Log.encodeAll (Log.liveRecords after.table)))
      (hdetached : after.log.attached = false)

theorem commit_stops (hlog : engine.disk.log = .file content)
    (hattached : engine.log.attached = true) {fates : List Fate} {error : Error}
    (h : (engine.facing fates).commit operation = (.error error, after)) :
    engine.Stop operation content after := by
  have hfacing : (engine.facing fates).log.disk.log = .file content := hlog
  unfold commit at h
  cases Log.append_ends hfacing hattached operation with
  | failed failure log heq hleft hfated =>
      rw [heq] at h
      obtain ⟨-, rfl⟩ := Prod.mk.inj h
      obtain ⟨hsize, hstill, count, hpart⟩ := hleft
      exact .recording count rfl hpart hsize hstill
  | done value log heq hdone hcalm =>
      rw [heq] at h
      obtain ⟨hgrown, hsize, hstill⟩ := hdone
      simp only [maybeCheckpoint] at h
      split at h
      · unfold checkpoint at h
        cases Log.rewrite_ends (.inl hgrown) (operation.apply (engine.facing fates).table) with
        | done value rewritten hrewrite hafter hquiet =>
            simp only [hrewrite] at h
            cases h
        | failed failure rewritten hrewrite hleft hfated =>
            simp only [hrewrite] at h
            obtain ⟨-, rfl⟩ := Prod.mk.inj h
            obtain ⟨hsame, ⟨hold, hkept⟩ | ⟨hnew, hlost⟩⟩ := hleft
            · exact .preparing rfl (hold.trans hgrown) (hsame.trans hsize) (hkept.trans hstill)
            · exact .reopening rfl hnew hlost
      · cases h

/-! ## Engines that went astray -/

/-- What opening the directory gives, with any settings. -/
def Opens (engine : Engine) (table : Table) : Prop :=
  ∀ settings : Settings, settings.validate = .ok () →
    ∃ reopened, openOn settings engine.disk = .ok reopened ∧ reopened.table = table

theorem opens_of_records {table : Table} (hrecords : engine.disk.Records table)
    (hcalm : engine.fates = []) : engine.Opens table := by
  intro settings hvalid
  obtain ⟨reopened, hopen, -, htable⟩ := openOn_sound hvalid hrecords hcalm
  exact ⟨reopened, hopen, htable⟩

/-- An engine that made these changes of a table since its log holds `base`, and that told
the log of them or not.  The log need not be one that makes the table. -/
structure Astray (base : Bytes) (attached : Bool) (start : Table) (engine : Engine)
    (changes : List Operation) : Prop where
  log_eq : engine.disk.log = .file (base ++ Log.told attached changes)
  attached_eq : engine.log.attached = attached
  table_eq : engine.table = Operation.applyAll changes start
  calm : engine.fates = []
  counted : engine.table.Counted
  entries : Operation.ShortEntries engine.table
  short : Operation.AllShort changes

/-- An engine that made no changes yet since its log holds what it holds. -/
theorem astray_facing {base : Bytes} (hlog : engine.disk.log = .file base)
    (hcounted : engine.table.Counted) (hentries : Operation.ShortEntries engine.table) :
    (engine.facing []).Astray base engine.log.attached engine.table [] where
  log_eq := by
    rw [Log.told_nil, List.append_nil]
    exact hlog
  attached_eq := rfl
  table_eq := rfl
  calm := rfl
  counted := hcounted
  entries := hentries
  short := List.forall_mem_nil _

/-- A checkpoint brings engine and log in step, whatever the log held before. -/
theorem sound_compacted (hcounted : engine.table.Counted)
    (hentries : Operation.ShortEntries engine.table) : engine.compacted.Sound where
  synced := by
    have htable := (Log.applyAll_liveRecords hcounted).symm
    exact ⟨_, ⟨rfl, rfl, rfl, htable⟩, Log.allShort_liveRecords hentries⟩
  calm := rfl

/-- The change that a call logs fits the lengths of a record. -/
theorem Call.short_of_change? {call : Call} (hallowed : call.Allowed)
    (hentries : Operation.ShortEntries engine.table)
    (hchange : call.change? engine = some operation) : operation.Short := by
  cases call with
  | put key value =>
      obtain rfl := Option.some.inj hchange
      exact hallowed
  | putIf key value check =>
      simp only [change?] at hchange
      split at hchange
      · obtain rfl := Option.some.inj hchange
        exact hallowed
      · cases hchange
  | delete key =>
      obtain ⟨value, hheld, rfl⟩ := Option.map_eq_some_iff.mp hchange
      exact short_delete_of_get? hentries hheld
  | checkpoint => cases hchange
  | reopen settings => cases hchange

theorem Call.effect_of_change? {call : Call} (hchange : call.change? engine = some operation) :
    call.effect engine.table = operation.apply engine.table := by
  cases call with
  | put key value =>
      obtain rfl := Option.some.inj hchange
      rfl
  | putIf key value check =>
      simp only [change?, get?] at hchange
      simp only [effect]
      cases hverdict : check (engine.table.get? key) with
      | accept =>
          rw [hverdict] at hchange
          obtain rfl := Option.some.inj hchange
          rfl
      | refuse error => rw [hverdict] at hchange; cases hchange
      | abort => rw [hverdict] at hchange; cases hchange
  | delete key =>
      obtain ⟨value, hheld, rfl⟩ := Option.map_eq_some_iff.mp hchange
      rfl
  | checkpoint => cases hchange
  | reopen settings => cases hchange

theorem Call.effect_of_unchanged {call : Call} (hchange : call.change? engine = none) :
    call.effect engine.table = engine.table := by
  cases call with
  | put key value => cases hchange
  | putIf key value check =>
      simp only [change?, get?] at hchange
      simp only [effect]
      cases hverdict : check (engine.table.get? key) with
      | accept => rw [hverdict] at hchange; cases hchange
      | refuse error => rfl
      | abort => rfl
  | delete key => exact Table.erase_of_get?_eq_none (Option.map_eq_none_iff.mp hchange)
  | checkpoint => rfl
  | reopen settings => rfl

namespace Astray

variable {base : Bytes} {attached : Bool} {start : Table} {changes : List Operation}

theorem checkpoint_eq (h : engine.Astray base attached start changes) :
    engine.checkpoint = (.ok (), engine.compacted) := by
  rw [checkpoint, Log.rewrite_of_calm h.log_eq h.calm]
  rfl

/-- A change is made as it should; a checkpoint that is due then brings the log in step. -/
theorem commit (h : engine.Astray base attached start changes) (hshort : operation.Short) :
    (engine.commit operation).2.table = operation.apply engine.table ∧
      ((engine.commit operation).2.Sound ∨
        (engine.commit operation).2.Astray base attached start (changes ++ [operation])) := by
  obtain ⟨log, happend, hgrown, hattached, hcalm⟩ :=
    Log.append_tells h.log_eq h.calm operation
  have hnext : Astray base attached start
      { engine with log, table := operation.apply engine.table } (changes ++ [operation]) := {
    log_eq := by
      rw [Log.told_concat, ← List.append_assoc, ← h.attached_eq]
      rw [← h.attached_eq] at hgrown
      exact hgrown
    attached_eq := hattached.trans h.attached_eq
    table_eq := by
      rw [Operation.applyAll_append, ← h.table_eq]
      rfl
    calm := hcalm
    counted := Operation.counted_apply operation h.counted
    entries := Operation.shortEntries_apply hshort h.entries
    short := Operation.allShort_concat h.short hshort }
  simp only [Engine.commit, happend, maybeCheckpoint]
  split
  · rw [hnext.checkpoint_eq]
    exact ⟨rfl, .inl (sound_compacted hnext.counted hnext.entries)⟩
  · exact ⟨rfl, .inr hnext⟩

/-- A call does to the table what it should, and a checkpoint brings the log in step. -/
theorem perform (h : engine.Astray base attached start changes) {call : Call}
    (hallowed : call.Allowed) (hstays : ∀ settings, call ≠ .reopen settings) :
    ∃ after, engine.perform call = .ok after ∧ after.table = call.effect engine.table ∧
      (after.Sound ∨
        call ≠ .checkpoint ∧ ∃ changes, after.Astray base attached start changes) := by
  have hwriting (hwrites : call.Writes) (hkind : call ≠ .checkpoint) :
      ∃ after, engine.perform call = .ok after ∧ after.table = call.effect engine.table ∧
        (after.Sound ∨
          call ≠ .checkpoint ∧ ∃ changes, after.Astray base attached start changes) := by
    cases hchange : call.change? engine with
    | none =>
        exact ⟨engine, perform_of_unchanged hwrites hchange,
          (Call.effect_of_unchanged hchange).symm, .inr ⟨hkind, changes, h⟩⟩
    | some operation =>
        have hshort := Call.short_of_change? hallowed h.entries hchange
        obtain ⟨htable, hafter⟩ := h.commit hshort
        refine ⟨_, perform_of_change? hchange, ?_, hafter.imp_right fun hnext => ⟨hkind, _, hnext⟩⟩
        rw [htable, Call.effect_of_change? hchange]
  cases call with
  | put key value => exact hwriting trivial (by simp)
  | putIf key value check => exact hwriting trivial (by simp)
  | delete key => exact hwriting trivial (by simp)
  | checkpoint =>
      refine ⟨_, rfl, ?_⟩
      rw [h.checkpoint_eq]
      exact ⟨rfl, .inl (sound_compacted h.counted h.entries)⟩
  | reopen settings => exact absurd rfl (hstays settings)

/-- Later calls do to the table what they should; until a checkpoint the log is told of
their changes as before. -/
theorem performAll (h : engine.Astray base attached start changes) {calls : List Call}
    (hallowed : ∀ call ∈ calls, call.Allowed) (hstays : ∀ settings, .reopen settings ∉ calls) :
    ∃ last, engine.performAll calls = .ok last ∧
      last.table = calls.foldl (fun table call => call.effect table) engine.table ∧
      (last.Sound ∨
        .checkpoint ∉ calls ∧ ∃ changes, last.Astray base attached start changes) := by
  induction calls generalizing engine changes with
  | nil => exact ⟨engine, rfl, rfl, .inr ⟨List.not_mem_nil, changes, h⟩⟩
  | cons call rest ih =>
      obtain ⟨hfirst, hlater⟩ := List.forall_mem_cons.mp hallowed
      have hstay : ∀ settings, call ≠ .reopen settings := by
        rintro settings rfl
        exact hstays settings List.mem_cons_self
      have hstaying : ∀ settings, .reopen settings ∉ rest := fun settings hmem =>
        hstays settings (List.mem_cons_of_mem _ hmem)
      obtain ⟨middle, hcall, hmade, hmiddle⟩ := h.perform hfirst hstay
      simp only [Engine.performAll, hcall, List.foldl_cons, ← hmade]
      rcases hmiddle with hsound | ⟨hkind, _, hastray⟩
      · obtain ⟨last, hrest, hlast, htable⟩ := performAll_sound hsound hlater
        exact ⟨last, hrest, htable, .inl hlast⟩
      · obtain ⟨last, hrest, htable, hlast⟩ := ih hastray hlater hstaying
        refine ⟨last, hrest, htable, hlast.imp_right ?_⟩
        rintro ⟨hnone, hmore⟩
        refine ⟨?_, hmore⟩
        intro hmem
        rcases List.mem_cons.mp hmem with heq | hmem
        · exact hkind heq.symm
        · exact hnone hmem

end Astray

/-! ## What a failed call leaves -/

/-- From here on the engine shows what calls make of this table, and so does every engine
that opens its directory after them. -/
structure GoesOnFrom (engine : Engine) (table : Table) : Prop where
  table_eq : engine.table = table
  goes_on : ∀ calls : List Call, (∀ call ∈ calls, call.Allowed) →
    ∃ last, engine.performAll calls = .ok last ∧
      last.table = calls.foldl (fun table call => call.effect table) table ∧
      ∀ settings : Settings, settings.validate = .ok () →
        ∃ reopened, openOn settings last.disk = .ok reopened ∧ reopened.Alike last

theorem Sound.goesOnFrom (hsound : engine.Sound) : engine.GoesOnFrom engine.table where
  table_eq := rfl
  goes_on calls hallowed := by
    obtain ⟨last, hcalls, ⟨⟨operations, hsync, hshort⟩, hcalm⟩, htable⟩ :=
      performAll_sound hsound hallowed
    refine ⟨last, hcalls, htable, ?_⟩
    intro settings hvalid
    obtain ⟨reopened, hopen, -, hagain⟩ := openOn_sound hvalid (hsync.records hshort) hcalm
    exact ⟨reopened, hopen, alike_of_table_eq hagain⟩

/-- A call that left this engine had no effect: every question is answered as before, and
later calls and openings go on as if it had not been made. -/
def WithoutEffect (before after : Engine) : Prop :=
  after.Alike before ∧ (after.facing []).GoesOnFrom before.table

/-- Later calls do to the table what they should.  Once a checkpoint is made the engine is
in step; until then the changes since and the engine are as told. -/
def Strays (engine : Engine) (meanwhile : List Operation → Engine → Prop) : Prop :=
  ∀ calls : List Call, (∀ call ∈ calls, call.Allowed) → (∀ settings, .reopen settings ∉ calls) →
    ∃ last, engine.performAll calls = .ok last ∧
      last.table = calls.foldl (fun table call => call.effect table) engine.table ∧
      (last.Sound ∨
        .checkpoint ∉ calls ∧ ∃ changes, last.table = Operation.applyAll changes engine.table ∧
          meanwhile changes last)

theorem Astray.strays {base : Bytes} {attached : Bool}
    (h : engine.Astray base attached engine.table [])
    {meanwhile : List Operation → Engine → Prop}
    (hmeanwhile : ∀ changes last, last.Astray base attached engine.table changes →
      meanwhile changes last) : engine.Strays meanwhile := by
  intro calls hallowed hstays
  obtain ⟨last, hcalls, htable, hlast⟩ := h.performAll hallowed hstays
  refine ⟨last, hcalls, htable, hlast.imp_right ?_⟩
  rintro ⟨hnone, changes, hastray⟩
  exact ⟨hnone, changes, hastray.table_eq, hmeanwhile changes last hastray⟩

/-- What is left of a change that could not be committed. -/
inductive Aftermath (before : Engine) (operation : Operation) (after : Engine) : Prop where
  /-- It failed before the first byte of the record. -/
  | unwritten (hwithout : WithoutEffect before after)
  /-- It failed inside the record, and later records go behind the part of it. -/
  | torn (content part : Bytes) (hlog : before.disk.log = .file content)
      (hpart : part <+: operation.encode) (hsome : part ≠ []) (hnotall : part ≠ operation.encode)
      (halike : after.Alike before) (hopens : (after.facing []).Opens before.table)
      (hstrays : (after.facing []).Strays fun changes last =>
        last.disk.log = .file (content ++ part ++ Log.encodeAll changes))
  /-- The record is there and the change is not made: the next opening makes it. -/
  | unsynced (halike : after.Alike before)
      (hopens : (after.facing []).Opens (operation.apply before.table))
      (hstrays : (after.facing []).Strays fun changes last =>
        last.Opens (Operation.applyAll (operation :: changes) before.table))
  /-- The change is made and logged, and only the checkpoint is missing. -/
  | uncompacted (hgoes : (after.facing []).GoesOnFrom (operation.apply before.table))
  /-- The change is made and the log replaced, and no opening knows of later changes. -/
  | detached (htable : after.table = operation.apply before.table)
      (hopens : (after.facing []).Opens (operation.apply before.table))
      (hstrays : (after.facing []).Strays fun _ last =>
        last.Opens (operation.apply before.table))

section

variable {operations : List Operation}

/-- An engine whose table is that of one in step, whatever its log holds. -/
theorem Synced.astray_of_log (hsync : before.Synced operations)
    (hshort : Operation.AllShort operations) (htable : after.table = before.table)
    {content : Bytes} (hlog : after.disk.log = .file content)
    (hattached : after.log.attached = true) :
    (after.facing []).Astray content true after.table [] := by
  have hcounted : after.table.Counted := htable ▸ hsync.counted
  have hentries : Operation.ShortEntries after.table := htable ▸ hsync.shortEntries hshort
  have hastray := astray_facing hlog hcounted hentries
  rwa [hattached] at hastray

/-- No byte of the record was written. -/
theorem Synced.aftermath_unwritten (hsync : before.Synced operations)
    (hshort : Operation.AllShort operations) (htable : after.table = before.table)
    (hlog : after.disk.log = .file (Log.encodeAll operations))
    (hsize : after.logSize = before.logSize) (hattached : after.log.attached = true) :
    before.Aftermath operation after := by
  have hagain : (after.facing []).Synced operations :=
    ⟨hlog, hsize.trans hsync.size_eq, hattached, htable.trans hsync.table_eq⟩
  have hsound : (after.facing []).Sound := ⟨⟨operations, hagain, hshort⟩, rfl⟩
  have hgoes := hsound.goesOnFrom
  exact .unwritten ⟨alike_of_table_eq htable, htable ▸ hgoes⟩

/-- The whole record was written, and is not known to be on the device. -/
theorem Synced.aftermath_unsynced (hsync : before.Synced operations)
    (hshort : Operation.AllShort operations) (hlast : operation.Short)
    (htable : after.table = before.table)
    (hlog : after.disk.log = .file (Log.encodeAll operations ++ operation.encode))
    (hattached : after.log.attached = true) : before.Aftermath operation after := by
  have hastray := hsync.astray_of_log hshort htable hlog hattached
  have hboth := Operation.allShort_concat hshort hlast
  have hwhole (changes : List Operation) :
      Operation.applyAll (operations ++ [operation] ++ changes) .empty =
        Operation.applyAll (operation :: changes) before.table := by
    rw [List.append_assoc, Operation.applyAll_append, ← hsync.table_eq]
    rfl
  refine .unsynced (alike_of_table_eq htable) ?_ (hastray.strays ?_)
  · rw [← Log.encodeAll_concat] at hlog
    have hfile : (after.facing []).disk.HasLog (Log.encodeAll (operations ++ [operation])) :=
      .inl hlog
    have hrecords := Disk.records_of_whole hfile hboth
    rw [← List.append_nil (operations ++ [operation]), hwhole []] at hrecords
    exact opens_of_records hrecords rfl
  · intro changes last hlastAstray
    have hlater := hlastAstray.log_eq
    rw [Log.told, if_pos rfl, ← Log.encodeAll_concat, ← Log.encodeAll_append] at hlater
    have hrecords := Disk.records_of_whole (.inl hlater)
      (List.forall_mem_append.mpr ⟨hboth, hlastAstray.short⟩)
    rw [hwhole changes] at hrecords
    exact opens_of_records hrecords hlastAstray.calm

/-- A part of the record was written: an opening cuts it off. -/
theorem Synced.aftermath_torn (hsync : before.Synced operations)
    (hshort : Operation.AllShort operations) (hlast : operation.Short) {count : Nat}
    (htable : after.table = before.table)
    (hlog : after.disk.log = .file (Log.encodeAll operations ++ operation.encode.take count))
    (hattached : after.log.attached = true) (hsome : operation.encode.take count ≠ [])
    (hnotall : operation.encode.take count ≠ operation.encode) :
    before.Aftermath operation after := by
  have hastray := hsync.astray_of_log hshort htable hlog hattached
  have hpart : count < operation.encode.length := by
    apply Nat.lt_of_not_le
    intro hlong
    exact hnotall (List.take_of_length_le hlong)
  have hrecords : (after.facing []).disk.Records before.table :=
    ⟨operations, _, .inl hlog, hshort, Operation.torn_take_encode hlast hpart, hsync.table_eq⟩
  refine .torn _ _ hsync.log_eq (List.take_prefix count _) hsome hnotall (alike_of_table_eq htable)
    (opens_of_records hrecords rfl) (hastray.strays ?_)
  intro changes last hlastAstray
  have hlater := hlastAstray.log_eq
  rwa [Log.told, if_pos rfl] at hlater

/-- A record that could not be written or forced to the device. -/
theorem Synced.aftermath_recording (hsync : before.Synced operations)
    (hshort : Operation.AllShort operations) (hlast : operation.Short) {count : Nat}
    (htable : after.table = before.table)
    (hlog : after.disk.log = .file (Log.encodeAll operations ++ operation.encode.take count))
    (hsize : after.logSize = before.logSize) (hattached : after.log.attached = true) :
    before.Aftermath operation after := by
  by_cases hnone : operation.encode.take count = []
  · rw [hnone, List.append_nil] at hlog
    exact hsync.aftermath_unwritten hshort htable hlog hsize hattached
  by_cases hall : operation.encode.take count = operation.encode
  · rw [hall] at hlog
    exact hsync.aftermath_unsynced hshort hlast htable hlog hattached
  · exact hsync.aftermath_torn hshort hlast htable hlog hattached hnone hall

/-- A failed commit of an engine in step, whatever the fates were. -/
theorem Synced.aftermath (hsync : before.Synced operations)
    (hshort : Operation.AllShort operations) (hlast : operation.Short)
    (hstop : before.Stop operation (Log.encodeAll operations) after) :
    before.Aftermath operation after := by
  have hcounted := Operation.counted_apply operation hsync.counted
  have hentries := Operation.shortEntries_apply hlast (hsync.shortEntries hshort)
  cases hstop with
  | recording count htable hlog hsize hattached =>
      exact hsync.aftermath_recording hshort hlast htable hlog hsize hattached
  | preparing htable hlog hsize hattached =>
      have hlogged := synced_of_append hsync hlog hsize hattached
      have hafter : (after.facing []).Synced (operations ++ [operation]) :=
        ⟨hlogged.log_eq, hlogged.size_eq, hattached, htable.trans hlogged.table_eq⟩
      have hsound : (after.facing []).Sound :=
        ⟨⟨_, hafter, Operation.allShort_concat hshort hlast⟩, rfl⟩
      have hgoes := hsound.goesOnFrom
      exact .uncompacted (htable ▸ hgoes)
  | reopening htable hlog hdetached =>
      rw [← htable] at hcounted hentries
      have hrecords {disk : Disk}
          (hlive : disk.log = .file (Log.encodeAll (Log.liveRecords after.table))) :
          disk.Records (operation.apply before.table) := by
        rw [← htable]
        exact records_of_liveRecords hcounted hentries hlive
      have hastray := astray_facing hlog hcounted hentries
      rw [hdetached] at hastray
      refine .detached htable (opens_of_records (hrecords hlog) rfl) (hastray.strays ?_)
      intro changes last hlastAstray
      have hlater := hlastAstray.log_eq
      rw [Log.told, if_neg Bool.false_ne_true, List.append_nil] at hlater
      exact opens_of_records (hrecords hlater) hlastAstray.calm

end

/-- At whichever file action a writing call fails, what it leaves is one of five things, and
only a call that is refused, or fails before the first byte, is sure to have no effect. -/
theorem failed_writes {settings : Settings} (hvalid : settings.validate = .ok ())
    {events : List Event} (hallowed : ∀ event ∈ events, event.Allowed) :
    ∃ engine, lifetime settings events = .ok engine ∧
      ∀ call : Call, call.Allowed → ∀ (fates : List Fate) (error : Error) (after : Engine),
        (engine.facing fates).Fails call error after →
          (call.change? engine = none ∧ WithoutEffect engine after) ∨
          ∃ operation, call.change? engine = some operation ∧ error = Disk.failure ∧
            engine.Aftermath operation after := by
  obtain ⟨engine, hevents, ⟨⟨operations, hsync, hshort⟩, hcalm⟩⟩ :=
    lifetime_sound hvalid hallowed
  refine ⟨engine, hevents, ?_⟩
  intro call hcall fates error after hfails
  rcases hfails.refused_or_uncommitted with ⟨hnone, rfl⟩ | ⟨operation, hsome, hcommit⟩
  · have hsound : ((engine.facing fates).facing []).Sound :=
      ⟨⟨operations, hsync.facing [], hshort⟩, rfl⟩
    exact .inl ⟨hnone, alike_of_table_eq rfl, hsound.goesOnFrom⟩
  · have hlast : operation.Short :=
      Call.short_of_change? hcall (hsync.shortEntries hshort) hsome
    have hstop := commit_stops hsync.log_eq hsync.attached_eq hcommit
    exact .inr ⟨operation, hsome, commit_error hcommit, hsync.aftermath hshort hlast hstop⟩

/-- A second put makes a checkpoint due, and no scratch file can be created for it. -/
theorem failed_writes_uncompactedPut :
    ∃ engine after, lifetime smallLog [.done (.put [7] [1])] = .ok engine ∧
      (engine.facing [.done, .failed 0]).Fails (.put [7] [2]) Disk.failure after ∧
      engine.Aftermath (.put [7] [2]) after := by
  have hvalid : smallLog.validate = .ok () := rfl
  have hshort (value : UInt8) : (Operation.put [7] [value]).Short := by
    simp [Operation.Short, wordRange, Operation.key, Operation.value]
  have hallowed : ∀ event ∈ [Event.done (.put [7] [1])], event.Allowed :=
    List.forall_mem_singleton.mpr (hshort 1)
  obtain ⟨engine, hevents, hfails⟩ := failed_writes hvalid hallowed
  obtain rfl := Except.ok.inj hevents
  refine ⟨_, _, rfl, .put rfl, ?_⟩
  obtain ⟨hnone, -⟩ | ⟨operation, hsome, -, hafter⟩ :=
    hfails (.put [7] [2]) (hshort 2) [.done, .failed 0] Disk.failure _ (.put rfl)
  · cases hnone
  · obtain rfl := Option.some.inj hsome
    exact hafter

/-- What stands behind the first record when three bytes of a second one are followed by a
third one. -/
def tornBefore : Bytes := (Operation.put [8] [2]).encode.take 3 ++ (Operation.put [9] [3]).encode

/-- A put that answers with an error is shown all the same, as only the checkpoint behind it
failed; and a put that succeeds behind a torn record is lost when the directory is opened. -/
theorem failed_puts_have_effect :
    (∃ engine after, lifetime smallLog [.done (.put [7] [1])] = .ok engine ∧
      (engine.facing [.done, .failed 0]).Fails (.put [7] [2]) Disk.failure after ∧
      engine.get? [7] = some [1] ∧ after.get? [7] = some [2] ∧ ¬ WithoutEffect engine after) ∧
    ∃ engine after last reopened, lifetime .default [.done (.put [7] [1])] = .ok engine ∧
      (engine.facing [.failed 3]).Fails (.put [8] [2]) Disk.failure after ∧
      (after.facing []).perform (.put [9] [3]) = .ok last ∧ last.get? [9] = some [3] ∧
      openOn .default last.disk = .ok reopened ∧ reopened.get? [9] = none ∧
      ¬ WithoutEffect engine after := by
  refine ⟨⟨_, _, rfl, .put rfl, rfl, rfl, ?_⟩, ?_⟩
  · rintro ⟨halike, -⟩
    exact absurd (halike.get? [7]) (by decide)
  · have hvalid : Settings.default.validate = .ok () := rfl
    have hlog : Disk.HasLog ⟨.file (Log.encodeAll [.put [7] [1]] ++ tornBefore), none, []⟩
        (Log.encodeAll [.put [7] [1]] ++ tornBefore) := .inl rfl
    have hshort : Operation.AllShort [.put [7] [1]] := by
      simp [Operation.AllShort, Operation.Short, wordRange, Operation.key, Operation.value]
    have htorn : Operation.Torn tornBefore := Operation.torn_of_split?_eq_none rfl
    rcases openOn_ends hvalid hlog hshort htorn with
      ⟨reopened, hopen, hsync, -, -⟩ | ⟨_, _, _, _, hfated⟩
    · have hlost : reopened.get? [9] = none := by
        rw [Engine.get?, hsync.table_eq]
        rfl
      refine ⟨_, _, _, reopened, rfl, .put rfl, rfl, rfl, hopen, hlost, ?_⟩
      rintro ⟨-, hgoes⟩
      have hnext : (Operation.put [9] [3]).Short := by
        simp [Operation.Short, wordRange, Operation.key, Operation.value]
      obtain ⟨last, hlast, -, hopens⟩ :=
        hgoes.goes_on [.put [9] [3]] (List.forall_mem_singleton.mpr hnext)
      obtain rfl := Except.ok.inj hlast
      obtain ⟨again, hagain, halike⟩ := hopens .default hvalid
      obtain rfl := Except.ok.inj (hopen.symm.trans hagain)
      exact absurd (hlost.symm.trans (halike.get? [9])) (by decide)
    · exact absurd rfl hfated

end Engine

end DocumentCache
