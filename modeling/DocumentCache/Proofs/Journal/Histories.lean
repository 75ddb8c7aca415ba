import DocumentCache.Proofs.Journal.EngineSteps

/-!
# Histories of an engine

An engine is opened on an empty directory and then called in any order; dropping it
and opening its directory again is a call like the others.  After every history the
log is a run of whole records whose replay is the table, the table is what the calls
made, and opening the directory again answers every question alike.
-/

namespace DocumentCache.Engine

/-- A call by the owner of an engine. -/
inductive Call where
  | put (key value : Bytes)
  | putIf (key value : Bytes) (check : Option Bytes → Verdict)
  | delete (key : Bytes)
  | checkpoint
  /-- Drop the engine and open its directory with these settings. -/
  | reopen (settings : Settings)

namespace Call

/-- What is written fits the lengths of a record, and settings are usable. -/
def Allowed : Call → Prop
  | .put key value => (Operation.put key value).Short
  | .putIf key value _ => (Operation.put key value).Short
  | .delete _ => True
  | .checkpoint => True
  | .reopen settings => settings.validate = .ok ()

/-- The table that a call makes of a table. -/
def effect (call : Call) (table : Table) : Table :=
  match call with
  | .put key value => table.insert key value
  | .putIf key value check =>
      match check (table.get? key) with
      | .accept => table.insert key value
      | _ => table
  | .delete key => table.erase key
  | .checkpoint => table
  | .reopen _ => table

end Call

/-- The engine after a call, whatever the call answered; when the directory cannot be
opened again, it is all that is left. -/
def perform (engine : Engine) : Call → Except (Error × Disk) Engine
  | .put key value => .ok (engine.put key value).2
  | .putIf key value check => .ok (engine.putIf key value check).2
  | .delete key => .ok (engine.delete key).2
  | .checkpoint => .ok engine.checkpoint.2
  | .reopen settings => openOn settings engine.disk

/-- The engine after calls, one after another. -/
def performAll (engine : Engine) : List Call → Except (Error × Disk) Engine
  | [] => .ok engine
  | call :: rest =>
      match engine.perform call with
      | .error failure => .error failure
      | .ok engine => engine.performAll rest

/-- The engine after calls that began on an empty directory. -/
def history (settings : Settings) (calls : List Call) : Except (Error × Disk) Engine :=
  match openOn settings .empty with
  | .error failure => .error failure
  | .ok engine => engine.performAll calls

/-- An engine in step with a log of records that are short enough, in a directory
where nothing is going to fail. -/
structure Sound (engine : Engine) : Prop where
  synced : ∃ operations, engine.Synced operations ∧ Operation.AllShort operations
  calm : engine.fates = []

/-- Two engines that answer every question alike. -/
structure Alike (left right : Engine) : Prop where
  get? : ∀ key, left.get? key = right.get? key
  startingWith : ∀ front, left.startingWith front = right.startingWith front
  between : ∀ first last, left.between first last = right.between first last
  length : left.length = right.length

theorem alike_of_table_eq {left right : Engine} (h : left.table = right.table) :
    left.Alike right := by
  constructor
  · intro key
    rw [Engine.get?, h, Engine.get?]
  · intro front
    rw [Engine.startingWith, h, Engine.startingWith]
  · intro first last
    rw [Engine.between, h, Engine.between]
  · rw [Engine.length, h, Engine.length]

/-! ## Steps -/

/-- Where nothing fails, a writing call succeeds. -/
theorem Turns.sound {engine : Engine} {operations : List Operation} {target : Table}
    {short : Prop} {result : Except Error Unit × Engine}
    (h : engine.Turns operations target short result)
    (hshort : Operation.AllShort operations) (hlast : short) (hcalm : engine.fates = []) :
    result.1 = .ok () ∧ result.2.Sound ∧ result.2.table = target := by
  obtain ⟨_, after, rfl, ⟨htable, _, records, hafter, hrecords⟩, hstill⟩ := h.of_calm hcalm
  exact ⟨rfl, ⟨⟨records, hafter, hrecords hshort hlast⟩, hstill⟩, htable⟩

theorem openOn_sound {settings : Settings} (hvalid : settings.validate = .ok ()) {disk : Disk}
    {table : Table} (hrecords : disk.Records table) (hcalm : disk.fates = []) :
    ∃ engine, openOn settings disk = .ok engine ∧ engine.Sound ∧ engine.table = table := by
  obtain ⟨operations, tail, hlog, hshort, htail, rfl⟩ := hrecords
  rcases openOn_ends hvalid hlog hshort htail with
    ⟨engine, hopen, hsync, -, hstill⟩ | ⟨_, _, _, _, hfated⟩
  · exact ⟨engine, hopen, ⟨⟨operations, hsync, hshort⟩, hstill hcalm⟩, hsync.table_eq⟩
  · exact absurd hcalm hfated

theorem perform_sound {engine : Engine} (hsound : engine.Sound) {call : Call}
    (hallowed : call.Allowed) :
    ∃ after, engine.perform call = .ok after ∧ after.Sound ∧
      after.table = call.effect engine.table := by
  obtain ⟨⟨operations, hsync, hshort⟩, hcalm⟩ := hsound
  cases call with
  | put key value =>
      exact ⟨_, rfl, ((put_turns hsync key value).sound hshort hallowed hcalm).2⟩
  | putIf key value check =>
      refine ⟨_, rfl, ?_⟩
      simp only [putIf, Call.effect, get?]
      cases check (engine.table.get? key) with
      | accept => exact ((put_turns hsync key value).sound hshort hallowed hcalm).2
      | refuse error => exact ⟨⟨⟨operations, hsync, hshort⟩, hcalm⟩, rfl⟩
      | abort => exact ⟨⟨⟨operations, hsync, hshort⟩, hcalm⟩, rfl⟩
  | delete key => exact ⟨_, rfl, ((delete_turns hsync key).sound hshort trivial hcalm).2⟩
  | checkpoint => exact ⟨_, rfl, ((checkpoint_turns hsync True).sound hshort trivial hcalm).2⟩
  | reopen settings => exact openOn_sound hallowed (hsync.records hshort) hcalm

/-! ## Runs -/

theorem performAll_sound {engine : Engine} (hsound : engine.Sound) {calls : List Call}
    (hallowed : ∀ call ∈ calls, call.Allowed) :
    ∃ after, engine.performAll calls = .ok after ∧ after.Sound ∧
      after.table = calls.foldl (fun table call => call.effect table) engine.table := by
  induction calls generalizing engine with
  | nil => exact ⟨engine, rfl, hsound, rfl⟩
  | cons call rest ih =>
      obtain ⟨hfirst, hlater⟩ := List.forall_mem_cons.mp hallowed
      obtain ⟨middle, hcall, hmiddle, htable⟩ := perform_sound hsound hfirst
      obtain ⟨after, hrest, hafter, hcontents⟩ := ih hmiddle hlater
      refine ⟨after, ?_, hafter, ?_⟩
      · simp only [performAll, hcall]
        exact hrest
      · rw [hcontents, htable, List.foldl_cons]

theorem records_empty : Disk.empty.Records .empty := by
  have hlog : Disk.empty.HasLog (Log.encodeAll []) := .inr ⟨rfl, rfl⟩
  exact Disk.records_of_whole hlog (List.forall_mem_nil _)

theorem history_sound {settings : Settings} (hvalid : settings.validate = .ok ())
    {calls : List Call} (hallowed : ∀ call ∈ calls, call.Allowed) :
    ∃ engine, history settings calls = .ok engine ∧ engine.Sound ∧
      engine.table = calls.foldl (fun table call => call.effect table) .empty := by
  obtain ⟨opened, hopen, hsound, htable⟩ := openOn_sound hvalid records_empty rfl
  obtain ⟨engine, hcalls, hengine, hcontents⟩ := performAll_sound hsound hallowed
  refine ⟨engine, ?_, hengine, ?_⟩
  · simp only [history, hopen]
    exact hcalls
  · rw [hcontents, htable]

/-- After every history the log is a run of whole records whose replay is the table,
and opening the directory again answers alike and leaves the log as it is. -/
theorem history_log_replays {settings : Settings} (hvalid : settings.validate = .ok ())
    {calls : List Call} (hallowed : ∀ call ∈ calls, call.Allowed) :
    ∃ engine operations, history settings calls = .ok engine ∧
      engine.disk.log = .file (Log.encodeAll operations) ∧
      Operation.AllShort operations ∧
      Replay.ofLog (Log.encodeAll operations) =
        .ok ⟨engine.table, (Log.encodeAll operations).length, operations.length⟩ ∧
      engine.logSize = (Log.encodeAll operations).length ∧
      engine.table = calls.foldl (fun table call => call.effect table) .empty ∧
      ∀ next : Settings, next.validate = .ok () →
        ∃ reopened, openOn next engine.disk = .ok reopened ∧ reopened.Alike engine ∧
          reopened.disk.log = engine.disk.log := by
  obtain ⟨engine, hhistory, ⟨⟨operations, hsync, hshort⟩, hcalm⟩, hcontents⟩ :=
    history_sound hvalid hallowed
  refine ⟨engine, operations, hhistory, hsync.log_eq, hshort, ?_, hsync.size_eq, hcontents, ?_⟩
  · rw [Replay.ofLog_encodeAll hshort, hsync.table_eq]
  · intro next hnext
    have hlog : engine.disk.HasLog (Log.encodeAll operations ++ []) := by
      rw [List.append_nil]
      exact .inl hsync.log_eq
    rcases openOn_ends hnext hlog hshort Operation.torn_nil with
      ⟨reopened, hopen, hagain, -, -⟩ | ⟨_, _, _, _, hfated⟩
    · refine ⟨reopened, hopen, alike_of_table_eq ?_, ?_⟩
      · rw [hagain.table_eq, hsync.table_eq]
      · rw [hagain.log_eq, hsync.log_eq]
    · exact absurd hcalm hfated

/-- Settings under which the log is rewritten from a length of twenty bytes on. -/
def smallLog : Settings := ⟨1, 0, 20, false, false⟩

/-- Calls that make a checkpoint on the way, among them a check without an answer and
the deletion of an absent key. -/
def mixedCalls : List Call :=
  [.put [7] [1], .put [7] [2], .put [7] [3], .putIf [7] [4] fun _ => .abort, .delete [8],
    .reopen .default, .putIf [0] [] fun _ => .accept]

theorem allowed_mixedCalls : ∀ call ∈ mixedCalls, call.Allowed := by
  simp [mixedCalls, Call.Allowed, Operation.Short, wordRange, Operation.key, Operation.value,
    Settings.validate, Settings.default]

theorem history_log_replays_mixedCalls :
    ∃ engine reopened, history smallLog mixedCalls = .ok engine ∧
      openOn .default engine.disk = .ok reopened ∧ reopened.get? [7] = some [3] := by
  have hvalid : smallLog.validate = .ok () := rfl
  obtain ⟨engine, _, hhistory, _, _, _, _, htable, hreopen⟩ :=
    history_log_replays hvalid allowed_mixedCalls
  obtain ⟨reopened, hopen, halike, _⟩ := hreopen .default rfl
  refine ⟨engine, reopened, hhistory, hopen, ?_⟩
  rw [halike.get?, Engine.get?, htable]
  decide

end DocumentCache.Engine
