import DocumentCache.Proofs.Journal.Histories

/-!
# Crashes

A process may die at every point of a call: where the fates of the directory make a
file action fail, which may be after any number of the bytes it writes.  It may die
again while the directory is opened, any number of times.  What it leaves records
either the table before the call or the table after it, and once an opening succeeds
that table is back.  So a history goes on after every crash as after a call.
-/

namespace DocumentCache

/-- The directory with other fates to come. -/
def Disk.facing (disk : Disk) (fates : List Fate) : Disk := { disk with fates }

namespace Engine

/-- The engine on its directory with other fates to come. -/
def facing (engine : Engine) (fates : List Fate) : Engine :=
  engine.withDisk (engine.disk.facing fates)

/-- The directory that is left when the process ends. -/
def leftBy : Except (Error × Disk) Engine → Disk
  | .ok engine => engine.disk
  | .error (_, disk) => disk

/-- Where a process dies: in a call, at the action that the fates make fail, and then
in each of some attempts to open the directory. -/
structure Crash where
  call : Call
  fates : List Fate
  attempts : List (Settings × List Fate)

/-- The directory after the process died in an attempt to open it. -/
def dieOpening (disk : Disk) (attempt : Settings × List Fate) : Disk :=
  leftBy (openOn attempt.1 (disk.facing attempt.2))

/-- The directory after a crash; from then on nothing fails. -/
def crash (engine : Engine) (crash : Crash) : Disk :=
  (crash.attempts.foldl dieOpening
    (leftBy ((engine.facing crash.fates).perform crash.call))).facing []

/-- What an engine meets with: calls, and crashes after which the directory is opened
with some settings. -/
inductive Event where
  | done (call : Call)
  | died (crash : Crash) (settings : Settings)

def Event.Allowed : Event → Prop
  | .done call => call.Allowed
  | .died crash settings => crash.call.Allowed ∧ settings.validate = .ok ()

def meet (engine : Engine) : Event → Except (Error × Disk) Engine
  | .done call => engine.perform call
  | .died crash settings => openOn settings (engine.crash crash)

/-- The engine after events, one after another. -/
def meetAll (engine : Engine) : List Event → Except (Error × Disk) Engine
  | [] => .ok engine
  | event :: rest =>
      match engine.meet event with
      | .error failure => .error failure
      | .ok engine => engine.meetAll rest

/-- The engine after events that began on an empty directory. -/
def lifetime (settings : Settings) (events : List Event) : Except (Error × Disk) Engine :=
  match openOn settings .empty with
  | .error failure => .error failure
  | .ok engine => engine.meetAll events

/-! ## What is left behind -/

theorem Synced.facing {engine : Engine} {operations : List Operation}
    (hsync : engine.Synced operations) (fates : List Fate) :
    (engine.facing fates).Synced operations :=
  ⟨hsync.log_eq, hsync.size_eq, hsync.attached_eq, hsync.table_eq⟩

/-- Whichever way a call ends, the log records the table before it or the one wanted. -/
theorem Turns.records {engine : Engine} {operations : List Operation} {target : Table}
    {short : Prop} {result : Except Error Unit × Engine}
    (h : engine.Turns operations target short result)
    (hshort : Operation.AllShort operations) (hlast : short) :
    result.2.disk.Records engine.table ∨ result.2.disk.Records target := by
  cases h with
  | failed error after heq hleft hfated =>
      rw [heq]
      exact hleft hshort hlast
  | done value after heq hdone hcalm =>
      obtain ⟨htable, -, records, hafter, hrecords⟩ := hdone
      rw [heq]
      right
      rw [← htable]
      exact hafter.records (hrecords hshort hlast)

/-- Every part of the record of a put is left behind by some crash. -/
theorem log_crash_put {engine : Engine} {operations : List Operation}
    (hsync : engine.Synced operations) (key value : Bytes) (count : Nat) :
    (engine.crash ⟨.put key value, [.failed count], []⟩).log =
      .file (Log.encodeAll operations ++ (Operation.put key value).encode.take count) := by
  have hlog : (engine.facing [.failed count]).log.disk.log =
      .file (Log.encodeAll operations) := hsync.log_eq
  have hattached := (hsync.facing [.failed count]).attached_eq
  simp only [crash, List.foldl_nil, perform, leftBy, put, commit, Log.append,
    Log.write_of_attached hattached, Disk.appendLog, hlog]
  rfl

/-- A process that dies while it opens a directory leaves the table recorded. -/
theorem records_dieOpening {disk : Disk} {table : Table} (hrecords : disk.Records table)
    (attempt : Settings × List Fate) : (dieOpening disk attempt).Records table := by
  obtain ⟨settings, fates⟩ := attempt
  have hfacing : (disk.facing fates).Records table := hrecords
  unfold dieOpening
  cases hvalid : settings.validate with
  | error error =>
      simp only [openOn, hvalid, leftBy]
      exact hfacing
  | ok =>
      obtain ⟨operations, tail, hlog, hshort, htail, rfl⟩ := hfacing
      rcases openOn_ends hvalid hlog hshort htail with
        ⟨engine, hopen, hsync, -, -⟩ | ⟨error, after, hopen, hafter, -⟩
      · simp only [hopen, leftBy]
        rw [← hsync.table_eq]
        exact hsync.records hshort
      · simp only [hopen, leftBy]
        exact hafter

theorem records_attempts {disk : Disk} {table : Table} (hrecords : disk.Records table)
    (attempts : List (Settings × List Fate)) :
    (attempts.foldl dieOpening disk).Records table := by
  induction attempts generalizing disk with
  | nil => exact hrecords
  | cons attempt rest ih => exact ih (records_dieOpening hrecords attempt)

/-- Whatever the fates, a call leaves a log that records the table before or after it. -/
theorem records_leftBy_perform {engine : Engine} {operations : List Operation}
    (hsync : engine.Synced operations) (hshort : Operation.AllShort operations) {call : Call}
    (hallowed : call.Allowed) :
    (leftBy (engine.perform call)).Records engine.table ∨
      (leftBy (engine.perform call)).Records (call.effect engine.table) := by
  cases call with
  | put key value => exact (put_turns hsync key value).records hshort hallowed
  | putIf key value check =>
      simp only [perform, leftBy, putIf, Call.effect, get?]
      cases check (engine.table.get? key) with
      | accept => exact (put_turns hsync key value).records hshort hallowed
      | refuse error => exact .inl (hsync.records hshort)
      | abort => exact .inl (hsync.records hshort)
  | delete key => exact (delete_turns hsync key).records hshort trivial
  | checkpoint => exact (checkpoint_turns hsync True).records hshort trivial
  | reopen settings =>
      exact .inl (records_dieOpening (hsync.records hshort) (settings, engine.fates))

/-- What a crash leaves records the table before the call or after it. -/
theorem records_crash {engine : Engine} (hsound : engine.Sound) {crash : Crash}
    (hallowed : crash.call.Allowed) :
    (engine.crash crash).Records engine.table ∨
      (engine.crash crash).Records (crash.call.effect engine.table) := by
  obtain ⟨⟨operations, hsync, hshort⟩, -⟩ := hsound
  exact (records_leftBy_perform (hsync.facing crash.fates) hshort hallowed).imp
    (fun hrecords => records_attempts hrecords crash.attempts)
    (fun hrecords => records_attempts hrecords crash.attempts)

/-! ## Recovery -/

/-- After a crash the directory opens, with the table before the call or after it. -/
theorem openOn_crash {engine : Engine} (hsound : engine.Sound) {crash : Crash}
    (hallowed : crash.call.Allowed) {settings : Settings} (hvalid : settings.validate = .ok ()) :
    ∃ reopened, openOn settings (engine.crash crash) = .ok reopened ∧ reopened.Sound ∧
      (reopened.table = engine.table ∨
        reopened.table = crash.call.effect engine.table) := by
  rcases records_crash hsound hallowed with hrecords | hrecords
  · obtain ⟨reopened, hopen, hreopened, htable⟩ := openOn_sound hvalid hrecords rfl
    exact ⟨reopened, hopen, hreopened, .inl htable⟩
  · obtain ⟨reopened, hopen, hreopened, htable⟩ := openOn_sound hvalid hrecords rfl
    exact ⟨reopened, hopen, hreopened, .inr htable⟩

theorem meet_sound {engine : Engine} (hsound : engine.Sound) {event : Event}
    (hallowed : event.Allowed) : ∃ after, engine.meet event = .ok after ∧ after.Sound := by
  cases event with
  | done call =>
      obtain ⟨after, hcall, hafter, -⟩ := perform_sound hsound hallowed
      exact ⟨after, hcall, hafter⟩
  | died crash settings =>
      obtain ⟨after, hopen, hafter, -⟩ := openOn_crash hsound hallowed.1 hallowed.2
      exact ⟨after, hopen, hafter⟩

theorem meetAll_sound {engine : Engine} (hsound : engine.Sound) {events : List Event}
    (hallowed : ∀ event ∈ events, event.Allowed) :
    ∃ after, engine.meetAll events = .ok after ∧ after.Sound := by
  induction events generalizing engine with
  | nil => exact ⟨engine, rfl, hsound⟩
  | cons event rest ih =>
      obtain ⟨hfirst, hlater⟩ := List.forall_mem_cons.mp hallowed
      obtain ⟨middle, hevent, hmiddle⟩ := meet_sound hsound hfirst
      obtain ⟨after, hrest, hafter⟩ := ih hmiddle hlater
      refine ⟨after, ?_, hafter⟩
      simp only [meetAll, hevent]
      exact hrest

theorem lifetime_sound {settings : Settings} (hvalid : settings.validate = .ok ())
    {events : List Event} (hallowed : ∀ event ∈ events, event.Allowed) :
    ∃ engine, lifetime settings events = .ok engine ∧ engine.Sound := by
  obtain ⟨opened, hopen, hsound, -⟩ := openOn_sound hvalid records_empty rfl
  obtain ⟨engine, hevents, hengine⟩ := meetAll_sound hsound hallowed
  refine ⟨engine, ?_, hengine⟩
  simp only [lifetime, hopen]
  exact hevents

/-- However often processes died before, a crash in the next call leaves a directory
that opens with exactly the table before the call or the one after it. -/
theorem crash_atomic {settings : Settings} (hvalid : settings.validate = .ok ())
    {events : List Event} (hallowed : ∀ event ∈ events, event.Allowed) :
    ∃ engine, lifetime settings events = .ok engine ∧
      ∀ crash : Crash, crash.call.Allowed → ∀ next : Settings, next.validate = .ok () →
        ∃ after reopened, engine.perform crash.call = .ok after ∧
          after.table = crash.call.effect engine.table ∧
          openOn next (engine.crash crash) = .ok reopened ∧
          (reopened.table = engine.table ∨ reopened.table = after.table) := by
  obtain ⟨engine, hevents, hsound⟩ := lifetime_sound hvalid hallowed
  refine ⟨engine, hevents, ?_⟩
  intro crash hcall next hnext
  obtain ⟨after, hperform, -, hafter⟩ := perform_sound hsound hcall
  obtain ⟨reopened, hopen, -, htable⟩ := openOn_crash hsound hcall hnext
  rw [← hafter] at htable
  exact ⟨after, reopened, hperform, hafter, hopen, htable⟩

/-- Two crashes, one inside a record with a second death while the torn tail is cut off,
and one just before a new log takes the old one's name. -/
def twoCrashes : List Event :=
  [.done (.put [7] [1]),
    .died ⟨.put [7] [2], [.failed 3], [(.default, [.done, .failed 0])]⟩ .default,
    .died ⟨.checkpoint, [.done, .done, .done, .failed 0], []⟩ smallLog]

theorem allowed_twoCrashes : ∀ event ∈ twoCrashes, event.Allowed := by
  simp [twoCrashes, Event.Allowed, Call.Allowed, Operation.Short, wordRange, Operation.key,
    Operation.value, Settings.validate, Settings.default, smallLog]

/-- The put of which only a part was written is not there, and the one before it is. -/
theorem get?_twoCrashes :
    (lifetime .default twoCrashes).toOption.map (fun engine => engine.table.get? [7]) =
      some (some [1]) := by decide +kernel

theorem crash_atomic_twoCrashes :
    ∃ engine after reopened, lifetime .default twoCrashes = .ok engine ∧
      engine.table.get? [7] = some [1] ∧
      engine.perform (.delete [7]) = .ok after ∧ after.table.get? [7] = none ∧
      openOn smallLog (engine.crash ⟨.delete [7], [.failed 5], []⟩) = .ok reopened ∧
      (reopened.table = engine.table ∨ reopened.table = after.table) := by
  have hvalid : Settings.default.validate = .ok () := rfl
  obtain ⟨engine, hevents, hcrash⟩ := crash_atomic hvalid allowed_twoCrashes
  obtain ⟨after, reopened, hperform, hafter, hopen, htable⟩ :=
    hcrash ⟨.delete [7], [.failed 5], []⟩ trivial smallLog rfl
  have hheld := get?_twoCrashes
  rw [hevents] at hheld
  refine ⟨engine, after, reopened, hevents, Option.some.inj hheld, hperform, ?_, hopen, htable⟩
  rw [hafter]
  exact Table.get?_erase_self engine.table [7]

end Engine

end DocumentCache
