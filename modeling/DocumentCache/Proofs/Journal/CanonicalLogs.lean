import DocumentCache.Proofs.Journal.Crashes
import DocumentCache.Proofs.Journal.LogLengths
import Mathlib.Algebra.GroupWithZero.Nat

/-!
# What a checkpoint forgets

A checkpoint leaves one record for each live entry, in key order, and nothing that tells
how the entries came to be there.  So two engines that hold the same entries leave the
same log, whatever went before.  Such a log stands for the entries as the old one did:
every answer stays, another checkpoint changes nothing, and what is logged from then on is
replayed on top of just these entries.
-/

namespace DocumentCache.Engine

variable {engine : Engine} {operations : List Operation}

/-! ## Entries and their records -/

theorem sum_recordLengths (entries : List (Bytes × Bytes)) :
    (entries.map fun entry => 13 + entry.1.length + entry.2.length).sum =
      Table.bytesOf entries + 13 * entries.length := by
  induction entries with
  | nil => rfl
  | cons entry rest ih =>
      rw [List.map_cons, List.sum_cons, ih, Table.bytesOf, Table.entrySize, List.length_cons]
      omega

/-- What lookups find determines the entries of a table and their order. -/
theorem toList_eq_of_get?_eq {left right : Engine}
    (h : ∀ key, left.get? key = right.get? key) : left.table.toList = right.table.toList := by
  have hentries : left.table.entries = right.table.entries := OrderedMap.ext_get? h
  exact congrArg OrderedMap.entries hentries

/-! ## Checkpoints -/

/-- A checkpoint of the engine succeeds and leaves the engine `after` with a log of these
entries. -/
structure Compacts (engine : Engine) (entries : List (Bytes × Bytes)) (after : Engine) :
    Prop where
  ascending : Ascending entries
  mem_iff : ∀ key value, (key, value) ∈ entries ↔ engine.get? key = some value
  checkpoint_eq : engine.checkpoint = (.ok (), after)
  log_eq : after.disk.log =
    .file (Log.encodeAll (entries.map fun entry => .put entry.1 entry.2))
  size_eq : after.logSize =
    (entries.map fun entry => 13 + entry.1.length + entry.2.length).sum
  alike : after.Alike engine
  again : after.checkpoint = (.ok (), after)
  /-- Records behind the log are replayed on top of the entries. -/
  appended : ∀ later, Operation.AllShort later →
    ∃ replay, Replay.ofLog (Log.encodeAll (entries.map fun entry => .put entry.1 entry.2) ++
        Log.encodeAll later) = .ok replay ∧
      replay.table = Operation.applyAll later engine.table
  /-- So are calls, and the handle goes on knowing the length of the log. -/
  goes_on : ∀ calls : List Call, (∀ call ∈ calls, call.Allowed) →
    ∀ settings : Settings, settings.validate = .ok () →
      ∃ last content reopened, after.performAll calls = .ok last ∧
        last.disk.log = .file content ∧ last.logSize = content.length ∧
        openOn settings last.disk = .ok reopened ∧
        reopened.table = calls.foldl (fun table call => call.effect table) engine.table

theorem Sound.compacted (hsound : engine.Sound) : engine.compacted.Sound := by
  obtain ⟨⟨operations, hsync, hshort⟩, -⟩ := hsound
  have hentries := hsync.shortEntries hshort
  exact ⟨⟨_, hsync.compacted, Log.allShort_liveRecords hentries⟩, rfl⟩

theorem Sound.replay_appended (hsound : engine.Sound) {later : List Operation}
    (hlater : Operation.AllShort later) :
    ∃ replay, Replay.ofLog (Log.encodeAll (Log.liveRecords engine.table) ++
        Log.encodeAll later) = .ok replay ∧
      replay.table = Operation.applyAll later engine.table := by
  obtain ⟨⟨operations, hsync, hshort⟩, -⟩ := hsound
  have hlive := Log.allShort_liveRecords (hsync.shortEntries hshort)
  have hboth : Operation.AllShort (Log.liveRecords engine.table ++ later) :=
    List.forall_mem_append.mpr ⟨hlive, hlater⟩
  rw [← Log.encodeAll_append, Replay.ofLog_encodeAll hboth]
  refine ⟨_, rfl, ?_⟩
  rw [Operation.applyAll_append, Log.applyAll_liveRecords hsync.counted]

theorem Sound.goes_on (hsound : engine.Sound) {calls : List Call}
    (hallowed : ∀ call ∈ calls, call.Allowed) {settings : Settings}
    (hvalid : settings.validate = .ok ()) :
    ∃ last content reopened, engine.performAll calls = .ok last ∧
      last.disk.log = .file content ∧ last.logSize = content.length ∧
      openOn settings last.disk = .ok reopened ∧
      reopened.table = calls.foldl (fun table call => call.effect table) engine.table := by
  obtain ⟨last, hcalls, ⟨⟨operations, hsync, hshort⟩, hcalm⟩, htable⟩ :=
    performAll_sound hsound hallowed
  obtain ⟨reopened, hopen, -, hagain⟩ := openOn_sound hvalid (hsync.records hshort) hcalm
  exact ⟨last, _, reopened, hcalls, hsync.log_eq, hsync.size_eq, hopen, hagain.trans htable⟩

theorem Sound.compacts (hsound : engine.Sound) :
    engine.Compacts engine.table.toList engine.compacted := by
  have ⟨⟨operations, hsync, _⟩, hcalm⟩ := hsound
  have hsize : engine.compacted.logSize =
      (engine.table.toList.map fun entry => 13 + entry.1.length + entry.2.length).sum :=
    engine.logSize_compacted.trans (sum_recordLengths engine.table.toList).symm
  exact {
    ascending := engine.table.entries.ascending
    mem_iff := fun _ _ => OrderedMap.get?_eq_some_iff.symm
    checkpoint_eq := checkpoint_of_calm hsync hcalm
    log_eq := rfl
    size_eq := hsize
    alike := alike_of_table_eq rfl
    again := checkpoint_of_calm hsync.compacted rfl
    appended := fun _ hlater => hsound.replay_appended hlater
    goes_on := fun _ hallowed _ hvalid => hsound.compacted.goes_on hallowed hvalid }

/-- Two engines that hold the same entries leave the same log at a checkpoint, whatever each
of them went through. -/
theorem checkpoint_forgets_history {first second : Settings} (hfirst : first.validate = .ok ())
    (hsecond : second.validate = .ok ()) {events others : List Event}
    (hallowed : ∀ event ∈ events, event.Allowed) (hothers : ∀ event ∈ others, event.Allowed) :
    ∃ left right, lifetime first events = .ok left ∧ lifetime second others = .ok right ∧
      ((∀ key, left.get? key = right.get? key) →
        ∃ entries after same, left.Compacts entries after ∧ right.Compacts entries same ∧
          after.disk.log = same.disk.log) := by
  obtain ⟨left, hevents, hleft⟩ := lifetime_sound hfirst hallowed
  obtain ⟨right, hlater, hright⟩ := lifetime_sound hsecond hothers
  refine ⟨left, right, hevents, hlater, ?_⟩
  intro hsame
  have hentries := toList_eq_of_get?_eq hsame
  have hcompacts := hleft.compacts
  rw [hentries] at hcompacts
  refine ⟨_, _, _, hcompacts, hright.compacts, ?_⟩
  rw [hcompacts.log_eq, hright.compacts.log_eq]

/-! ## Lives without crashes -/

theorem meetAll_done (engine : Engine) (calls : List Call) :
    engine.meetAll (calls.map .done) = engine.performAll calls := by
  induction calls generalizing engine with
  | nil => rfl
  | cons call rest ih =>
      rw [List.map_cons, meetAll, meet, performAll]
      cases engine.perform call with
      | error failure => rfl
      | ok after => exact ih after

theorem lifetime_done (settings : Settings) (calls : List Call) :
    lifetime settings (calls.map .done) = history settings calls := by
  rw [lifetime, history]
  cases openOn settings .empty with
  | error failure => rfl
  | ok engine => exact engine.meetAll_done calls

theorem allowed_done {calls : List Call} (hallowed : ∀ call ∈ calls, call.Allowed) :
    ∀ event ∈ calls.map Event.done, event.Allowed := by
  intro event hmem
  obtain ⟨call, hcall, rfl⟩ := List.mem_map.mp hmem
  exact hallowed call hcall

/-- What calls without a crash leave in the table. -/
theorem table_lifetime_done {settings : Settings} (hvalid : settings.validate = .ok ())
    {calls : List Call} (hallowed : ∀ call ∈ calls, call.Allowed)
    (hlifetime : lifetime settings (calls.map .done) = .ok engine) :
    engine.table = calls.foldl (fun table call => call.effect table) .empty := by
  obtain ⟨after, hhistory, -, htable⟩ := history_sound hvalid hallowed
  rw [lifetime_done, hhistory] at hlifetime
  rw [← Except.ok.inj hlifetime, htable]

/-- Calls that leave two entries, one of them overwritten before a checkpoint. -/
def overwritten : List Call :=
  [.put [2] [20], .put [1] [9], .checkpoint, .put [1] [10]]

/-- Calls that leave the same two entries, with a third one deleted between them. -/
def deletedBetween : List Call :=
  [.put [1] [10], .put [3] [30], .delete [3], .reopen .default, .put [2] [20]]

theorem allowed_overwritten : ∀ call ∈ overwritten, call.Allowed := by
  simp [overwritten, Call.Allowed, Operation.Short, wordRange, Operation.key, Operation.value]

theorem allowed_deletedBetween : ∀ call ∈ deletedBetween, call.Allowed := by
  simp [deletedBetween, Call.Allowed, Operation.Short, wordRange, Operation.key,
    Operation.value, Settings.validate, Settings.default]

theorem checkpoint_forgets_history_twoWays :
    ∃ left right entries after same, lifetime smallLog (overwritten.map .done) = .ok left ∧
      lifetime .default (deletedBetween.map .done) = .ok right ∧
      left.Compacts entries after ∧ right.Compacts entries same ∧
      after.disk.log = same.disk.log := by
  have hfirst : smallLog.validate = .ok () := rfl
  have hsecond : Settings.default.validate = .ok () := rfl
  obtain ⟨left, right, hleft, hright, hforgets⟩ := checkpoint_forgets_history hfirst hsecond
    (allowed_done allowed_overwritten) (allowed_done allowed_deletedBetween)
  have hsame : ∀ key, left.get? key = right.get? key := by
    intro key
    rw [Engine.get?, Engine.get?, table_lifetime_done hfirst allowed_overwritten hleft,
      table_lifetime_done hsecond allowed_deletedBetween hright]
    rfl
  obtain ⟨entries, after, same, hcompacts⟩ := hforgets hsame
  exact ⟨left, right, entries, after, same, hleft, hright, hcompacts⟩

end DocumentCache.Engine
