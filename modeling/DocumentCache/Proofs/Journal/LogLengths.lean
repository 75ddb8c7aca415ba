import DocumentCache.Proofs.Journal.Histories

/-!
# How long a log gets

A record is thirteen bytes longer than its key and value, and so a log of the live
entries alone is longer than their keys and values by thirteen bytes for each entry.
Where nothing fails a call logs at most one change, and then either leaves the log as it
is or makes it a log of the live entries alone.  The log that it leaves as it is was
shorter than the checkpoint length or not more than twice as long as the live data, so
no run of calls makes it longer than that.
-/

namespace DocumentCache

/-! ## Lengths -/

theorem Operation.length_encode (operation : Operation) :
    operation.encode.length = operation.key.length + operation.value.length + 13 := by
  simp only [encode, content, List.length_append, List.length_cons, littleEndian_length,
    Checksum.trailer_length]
  omega

namespace Log

theorem length_encodeAll_puts (entries : List (Bytes × Bytes)) :
    (encodeAll (entries.map fun entry => .put entry.1 entry.2)).length =
      Table.bytesOf entries + 13 * entries.length := by
  induction entries with
  | nil => rfl
  | cons entry rest ih =>
      rw [List.map_cons, encodeAll_cons, List.length_append, ih, Operation.length_encode,
        Table.bytesOf, Table.entrySize, List.length_cons, Operation.key, Operation.value]
      omega

theorem length_encodeAll_liveRecords (table : Table) :
    (encodeAll (liveRecords table)).length = Table.bytesOf table.toList + 13 * table.length :=
  length_encodeAll_puts table.toList

/-! ## A rewrite that does not fail -/

theorem writeScratch_of_calm (log : LogFile) (content : Bytes) (operations : List Operation) :
    writeScratch ⟨log, some content, []⟩ operations =
      (.ok (), ⟨log, some (content ++ encodeAll operations), []⟩) := by
  induction operations generalizing content with
  | nil => rw [writeScratch, encodeAll, List.flatMap_nil, List.append_nil]
  | cons operation rest ih =>
      simp only [writeScratch, Disk.appendScratch, Disk.draw, Option.map_some, ih, encodeAll_cons,
        List.append_assoc]

theorem prepareScratch_of_calm (log : LogFile) (scratch : Option Bytes) (table : Table) :
    prepareScratch ⟨log, scratch, []⟩ table =
      (.ok (), ⟨log, some (encodeAll (liveRecords table)), []⟩) := by
  have hcreate : Disk.createScratch ⟨log, scratch, []⟩ = (.ok (), ⟨log, some [], []⟩) := rfl
  simp only [prepareScratch, hcreate, writeScratch_of_calm, List.nil_append]
  rfl

/-- The log that a rewrite is to leave. -/
def compacted (log : Log) (table : Table) : Log where
  disk := ⟨.file (encodeAll (liveRecords table)), none, []⟩
  syncWrites := log.syncWrites
  size := (encodeAll (liveRecords table)).length

theorem rewrite_of_calm {log : Log} {content : Bytes} (hlog : log.disk.log = .file content)
    (hcalm : log.fates = []) (table : Table) :
    log.rewrite table = (.ok (), log.compacted table) := by
  obtain ⟨⟨file, scratch, fates⟩, syncWrites, size, attached⟩ := log
  obtain rfl : file = .file content := hlog
  obtain rfl : fates = [] := hcalm
  rw [rewrite, prepareScratch_of_calm]
  rfl

end Log

namespace Engine

variable {engine : Engine} {operations : List Operation}

/-! ## Checkpoints -/

/-- The engine that a checkpoint is to leave. -/
def compacted (engine : Engine) : Engine :=
  { engine with log := engine.log.compacted engine.table }

theorem checkpoint_of_calm (hsync : engine.Synced operations) (hcalm : engine.fates = []) :
    engine.checkpoint = (.ok (), engine.compacted) := by
  rw [checkpoint, Log.rewrite_of_calm hsync.log_eq hcalm]
  rfl

theorem Synced.compacted (hsync : engine.Synced operations) :
    engine.compacted.Synced (Log.liveRecords engine.table) :=
  ⟨rfl, rfl, rfl, (Log.applyAll_liveRecords hsync.counted).symm⟩

theorem logSize_compacted (engine : Engine) :
    engine.compacted.logSize = Table.bytesOf engine.table.toList + 13 * engine.length :=
  Log.length_encodeAll_liveRecords engine.table

/-- A checkpoint is due when the log is long and more than twice as long as the keys and
values of the live entries. -/
theorem checkpointDue_iff_of_counted (hcounted : engine.table.Counted) :
    engine.checkpointDue = true ↔
      engine.settings.checkpointBytes ≤ engine.logSize ∧
        2 * Table.bytesOf engine.table.toList < engine.logSize := by
  have hsize : engine.table.size = Table.bytesOf engine.table.toList := hcounted
  simp only [checkpointDue, hsize, Bool.and_eq_true, decide_eq_true_eq]
  exact Iff.rfl

theorem checkpointDue_iff (hsync : engine.Synced operations) :
    engine.checkpointDue = true ↔
      engine.settings.checkpointBytes ≤ engine.logSize ∧
        2 * Table.bytesOf engine.table.toList < engine.logSize :=
  checkpointDue_iff_of_counted hsync.counted

/-! ## Changes -/

/-- The engine when a change is logged and made, before it sees whether a checkpoint is
due. -/
def logged (engine : Engine) (operation : Operation) : Engine :=
  { engine with
    log := (engine.log.append operation).2
    table := operation.apply engine.table }

theorem append_of_calm (hsync : engine.Synced operations) (hcalm : engine.fates = [])
    (operation : Operation) :
    engine.log.append operation = (.ok (), (engine.logged operation).log) ∧
      (engine.logged operation).Synced (operations ++ [operation]) ∧
      (engine.logged operation).fates = [] := by
  obtain ⟨_, log, happend, ⟨hlog, hsize, hattached⟩, hstill⟩ :=
    (Log.append_ends hsync.log_eq hsync.attached_eq operation).of_calm hcalm
  have hafter : (engine.log.append operation).2 = log := by rw [happend]
  unfold logged
  rw [hafter]
  exact ⟨happend, synced_of_append hsync hlog hsize hattached, hstill⟩

/-- Where nothing fails, a commit logs its change and makes a checkpoint if one is due then. -/
theorem commit_of_calm (hsync : engine.Synced operations) (hcalm : engine.fates = [])
    (operation : Operation) :
    engine.commit operation =
      (.ok (), if (engine.logged operation).checkpointDue then (engine.logged operation).compacted
        else engine.logged operation) := by
  obtain ⟨happend, hlogged, hstill⟩ := append_of_calm hsync hcalm operation
  have hcommit : engine.commit operation = (engine.logged operation).maybeCheckpoint := by
    rw [commit, happend]
    rfl
  rw [hcommit, maybeCheckpoint]
  split
  · exact checkpoint_of_calm hlogged hstill
  · rfl

namespace Call

/-- The change that a call logs, if it logs one. -/
def change? (call : Call) (engine : Engine) : Option Operation :=
  match call with
  | .put key value => some (.put key value)
  | .putIf key value check =>
      match check (engine.get? key) with
      | .accept => some (.put key value)
      | _ => none
  | .delete key => (engine.get? key).map fun _ => .delete key
  | .checkpoint => none
  | .reopen _ => none

/-- The call is one that may change an entry. -/
def Writes : Call → Prop
  | .put _ _ => True
  | .putIf _ _ _ => True
  | .delete _ => True
  | .checkpoint => False
  | .reopen _ => False

end Call

theorem perform_of_change? {call : Call} {operation : Operation}
    (h : call.change? engine = some operation) :
    engine.perform call = .ok (engine.commit operation).2 := by
  cases call with
  | put key value =>
      obtain rfl := Option.some.inj h
      rfl
  | putIf key value check =>
      simp only [Call.change?] at h
      simp only [perform, putIf]
      cases hverdict : check (engine.get? key) with
      | accept =>
          rw [hverdict] at h
          obtain rfl := Option.some.inj h
          rfl
      | refuse error => rw [hverdict] at h; cases h
      | abort => rw [hverdict] at h; cases h
  | delete key =>
      obtain ⟨value, hheld, rfl⟩ := Option.map_eq_some_iff.mp h
      simp only [perform, delete, hheld]
  | checkpoint => cases h
  | reopen settings => cases h

theorem perform_of_unchanged {call : Call} (hwrites : call.Writes)
    (h : call.change? engine = none) : engine.perform call = .ok engine := by
  cases call with
  | put key value => cases h
  | putIf key value check =>
      simp only [Call.change?] at h
      simp only [perform, putIf]
      cases hverdict : check (engine.get? key) with
      | accept => rw [hverdict] at h; cases h
      | refuse error => rfl
      | abort => rfl
  | delete key =>
      have habsent := Option.map_eq_none_iff.mp h
      simp only [perform, delete, habsent]
  | checkpoint => exact hwrites.elim
  | reopen settings => exact hwrites.elim

/-- A call does nothing, commits a change, makes a checkpoint or opens the directory. -/
theorem perform_cases {after : Engine} {call : Call} (h : engine.perform call = .ok after) :
    after = engine ∨ (∃ operation, after = (engine.commit operation).2) ∨
      after = engine.checkpoint.2 ∨ ∃ settings, openOn settings engine.disk = .ok after := by
  have hwriting (hwrites : call.Writes) :
      after = engine ∨ ∃ operation, after = (engine.commit operation).2 := by
    cases hchange : call.change? engine with
    | none =>
        rw [perform_of_unchanged hwrites hchange] at h
        exact .inl (Except.ok.inj h).symm
    | some operation =>
        rw [perform_of_change? hchange] at h
        exact .inr ⟨operation, (Except.ok.inj h).symm⟩
  cases call with
  | put key value => exact (hwriting trivial).imp_right .inl
  | putIf key value check => exact (hwriting trivial).imp_right .inl
  | delete key => exact (hwriting trivial).imp_right .inl
  | checkpoint => exact .inr (.inr (.inl (Except.ok.inj h).symm))
  | reopen settings => exact .inr (.inr (.inr ⟨settings, h⟩))

/-! ## A bound on the log -/

/-- The log is shorter than the checkpoint length, or at most twice as long as the keys and
values of the live entries, or not longer than a log of these entries alone. -/
def Bounded (engine : Engine) : Prop :=
  engine.logSize ≤ max (engine.settings.checkpointBytes - 1)
    (max (2 * Table.bytesOf engine.table.toList)
      (Table.bytesOf engine.table.toList + 13 * engine.length))

theorem bounded_compacted (engine : Engine) : engine.compacted.Bounded := by
  have hsize := engine.logSize_compacted
  unfold Bounded
  rw [hsize]
  exact Nat.le_trans (Nat.le_max_right ..) (Nat.le_max_right ..)

theorem bounded_of_not_due (hsync : engine.Synced operations)
    (hdue : ¬ engine.checkpointDue = true) : engine.Bounded := by
  rw [checkpointDue_iff hsync] at hdue
  unfold Bounded
  omega

/-- A change leaves a bounded log, however much live data it takes away. -/
theorem bounded_commit (hsync : engine.Synced operations) (hcalm : engine.fates = [])
    (operation : Operation) : (engine.commit operation).2.Bounded := by
  rw [commit_of_calm hsync hcalm]
  dsimp only
  split
  · exact bounded_compacted _
  · next hdue => exact bounded_of_not_due (append_of_calm hsync hcalm operation).2.1 hdue

theorem settings_commit (hsync : engine.Synced operations) (hcalm : engine.fates = [])
    (operation : Operation) : (engine.commit operation).2.settings = engine.settings := by
  rw [commit_of_calm hsync hcalm]
  dsimp only
  split <;> rfl

/-- An engine with this checkpoint length whose log is bounded. -/
structure Steady (engine : Engine) (limit : Nat) : Prop where
  sound : engine.Sound
  limit_eq : engine.settings.checkpointBytes = limit
  bounded : engine.Bounded

namespace Steady

variable {limit : Nat}

/-- Opening the directory again finds the same log and the same entries. -/
theorem reopen (h : engine.Steady limit) {settings : Settings}
    (hvalid : settings.validate = .ok ()) (hlimit : settings.checkpointBytes = limit) :
    ∃ reopened, openOn settings engine.disk = .ok reopened ∧ reopened.Steady limit := by
  obtain ⟨⟨⟨operations, hsync, hshort⟩, hcalm⟩, rfl, hbounded⟩ := h
  -- No tail is torn, so nothing is cut off.
  have hlog : engine.disk.HasLog (Log.encodeAll operations ++ []) := by
    rw [List.append_nil]
    exact .inl hsync.log_eq
  rcases openOn_ends hvalid hlog hshort Operation.torn_nil with
    ⟨reopened, hopen, hagain, rfl, hstill⟩ | ⟨_, _, _, _, hfated⟩
  · refine ⟨reopened, hopen, ⟨⟨operations, hagain, hshort⟩, hstill hcalm⟩, hlimit, ?_⟩
    have htable : reopened.table = engine.table := hagain.table_eq.trans hsync.table_eq.symm
    have hsize : reopened.logSize = engine.logSize := hagain.size_eq.trans hsync.size_eq.symm
    unfold Bounded length at hbounded ⊢
    rwa [hsize, htable, hlimit]
  · exact absurd hcalm hfated

theorem of_writes (h : engine.Steady limit) {call : Call} (hwrites : call.Writes)
    {after : Engine} (hsound : after.Sound) (hperform : engine.perform call = .ok after) :
    after.Steady limit := by
  obtain ⟨⟨⟨operations, hsync, -⟩, hcalm⟩, hlimit, hbounded⟩ := h
  cases hchange : call.change? engine with
  | none =>
      rw [perform_of_unchanged hwrites hchange] at hperform
      obtain rfl := Except.ok.inj hperform
      exact ⟨hsound, hlimit, hbounded⟩
  | some operation =>
      rw [perform_of_change? hchange] at hperform
      obtain rfl := Except.ok.inj hperform
      refine ⟨hsound, ?_, bounded_commit hsync hcalm operation⟩
      rw [settings_commit hsync hcalm, hlimit]

theorem perform (h : engine.Steady limit) {call : Call} (hallowed : call.Allowed)
    (hlimit : ∀ settings, call = .reopen settings → settings.checkpointBytes = limit) :
    ∃ after, engine.perform call = .ok after ∧ after.Steady limit := by
  obtain ⟨after, hperform, hsound, -⟩ := perform_sound h.sound hallowed
  cases call with
  | reopen settings => exact h.reopen hallowed (hlimit settings rfl)
  | checkpoint =>
      obtain ⟨⟨operations, hsync, -⟩, hcalm⟩ := h.sound
      have hcompacted : after = engine.compacted := by
        rw [Engine.perform, checkpoint_of_calm hsync hcalm] at hperform
        exact (Except.ok.inj hperform).symm
      rw [hcompacted] at hperform hsound
      exact ⟨_, hperform, hsound, h.limit_eq, bounded_compacted engine⟩
  | put key value =>
      have hwrites : (Call.put key value).Writes := trivial
      exact ⟨after, hperform, h.of_writes hwrites hsound hperform⟩
  | putIf key value check =>
      have hwrites : (Call.putIf key value check).Writes := trivial
      exact ⟨after, hperform, h.of_writes hwrites hsound hperform⟩
  | delete key =>
      have hwrites : (Call.delete key).Writes := trivial
      exact ⟨after, hperform, h.of_writes hwrites hsound hperform⟩

theorem performAll (h : engine.Steady limit) {calls : List Call}
    (hallowed : ∀ call ∈ calls, call.Allowed)
    (hlimit : ∀ settings, .reopen settings ∈ calls → settings.checkpointBytes = limit) :
    ∃ after, engine.performAll calls = .ok after ∧ after.Steady limit := by
  induction calls generalizing engine with
  | nil => exact ⟨engine, rfl, h⟩
  | cons call rest ih =>
      obtain ⟨hfirst, hlater⟩ := List.forall_mem_cons.mp hallowed
      have hsame : ∀ settings, call = .reopen settings → settings.checkpointBytes = limit := by
        rintro settings rfl
        exact hlimit settings (List.mem_cons_self ..)
      obtain ⟨middle, hcall, hmiddle⟩ := h.perform hfirst hsame
      have hrest := fun settings hmem => hlimit settings (List.mem_cons_of_mem _ hmem)
      obtain ⟨after, hcalls, hafter⟩ := ih hmiddle hlater hrest
      refine ⟨after, ?_, hafter⟩
      simp only [Engine.performAll, hcall]
      exact hcalls

end Steady

theorem openOn_steady {settings : Settings} (hvalid : settings.validate = .ok ()) :
    ∃ engine, openOn settings .empty = .ok engine ∧ engine.Steady settings.checkpointBytes := by
  have hlog : Disk.empty.HasLog (Log.encodeAll [] ++ []) := .inr ⟨rfl, rfl⟩
  have hshort : Operation.AllShort [] := List.forall_mem_nil _
  rcases openOn_ends hvalid hlog hshort Operation.torn_nil with
    ⟨engine, hopen, hsync, rfl, hstill⟩ | ⟨_, _, _, _, hfated⟩
  · refine ⟨engine, hopen, ⟨⟨[], hsync, hshort⟩, hstill rfl⟩, rfl, ?_⟩
    have hsize : engine.logSize = 0 := hsync.size_eq
    unfold Bounded
    omega
  · exact absurd rfl hfated

/-- As long as the checkpoint length stays the same, no run of calls makes the log longer than
the longest of three: the checkpoint length less one, twice the keys and values of the live
entries, and a log of these entries alone. -/
theorem log_bounded {settings : Settings} (hvalid : settings.validate = .ok ())
    {calls : List Call} (hallowed : ∀ call ∈ calls, call.Allowed)
    (hlimit : ∀ next, .reopen next ∈ calls → next.checkpointBytes = settings.checkpointBytes) :
    ∃ engine content, history settings calls = .ok engine ∧
      engine.disk.log = .file content ∧ engine.logSize = content.length ∧
      engine.logSize ≤ max (settings.checkpointBytes - 1)
        (max (2 * Table.bytesOf engine.table.toList)
          (Table.bytesOf engine.table.toList + 13 * engine.length)) := by
  obtain ⟨opened, hopen, hopened⟩ := openOn_steady hvalid
  obtain ⟨engine, hcalls, ⟨⟨operations, hsync, -⟩, -⟩, hsame, hbounded⟩ :=
    hopened.performAll hallowed hlimit
  refine ⟨engine, _, ?_, hsync.log_eq, hsync.size_eq, ?_⟩
  · simp only [history, hopen]
    exact hcalls
  · rw [← hsame]
    exact hbounded

/-- Calls of every kind: some overwrite and delete entries, some are refused or find
nothing to delete, and one opens the directory again. -/
def everyCall : List Call :=
  [.put [7] [1], .put [7] [2], .delete [8], .put [9] [], .putIf [7] [3] fun _ => .abort,
    .delete [7], .checkpoint, .reopen { smallLog with rejectOlder := true },
    .putIf [9] [4] fun _ => .accept]

theorem allowed_everyCall : ∀ call ∈ everyCall, call.Allowed := by
  simp [everyCall, Call.Allowed, Operation.Short, wordRange, Operation.key, Operation.value,
    Settings.validate, smallLog]

theorem log_bounded_everyCall :
    (∀ next, .reopen next ∈ everyCall → next.checkpointBytes = 20) ∧
      ∃ engine, history smallLog everyCall = .ok engine ∧
        engine.logSize ≤ max 19 (max (2 * Table.bytesOf engine.table.toList)
          (Table.bytesOf engine.table.toList + 13 * engine.length)) := by
  have hvalid : smallLog.validate = .ok () := rfl
  have hlimit : ∀ next, .reopen next ∈ everyCall → next.checkpointBytes = 20 := by
    simp [everyCall, smallLog]
  obtain ⟨engine, _, hhistory, _, _, hbound⟩ := log_bounded hvalid allowed_everyCall hlimit
  exact ⟨hlimit, engine, hhistory, hbound⟩

end Engine

end DocumentCache
