import DocumentCache.Journal.SharedEngine

/-!
# Why an engine fails

Whatever stands in its directory and whatever becomes of its file actions, the calls of an
open engine fail with one error, that of a file action.  An engine that is shared may
also refuse a call because its lock is poisoned, and passes on what a check refuses with.
-/

namespace DocumentCache

namespace Disk

variable {disk after : Disk} {error : Error}

/-! ## File actions -/

theorem act_error {change : Disk → Disk} (h : disk.act change = (.error error, after)) :
    error = failure := by
  unfold act at h
  split at h
  · cases h
  · cases h
    rfl

theorem syncWhen_error {wanted : Bool} (h : disk.syncWhen wanted = (.error error, after)) :
    error = failure := by
  unfold syncWhen at h
  split at h
  · exact act_error h
  · cases h

theorem openLog_error (h : disk.openLog = (.error error, after)) : error = failure := by
  unfold openLog at h
  split at h
  · cases h
    rfl
  · split at h
    · cases h
    · cases h
      rfl
    · cases h

theorem appendLog_error {bytes : Bytes} (h : disk.appendLog bytes = (.error error, after)) :
    error = failure := by
  unfold appendLog at h
  split at h
  · split at h
    · cases h
    · cases h
      rfl
  · cases h
    rfl

theorem appendScratch_error {bytes : Bytes}
    (h : disk.appendScratch bytes = (.error error, after)) : error = failure := by
  unfold appendScratch at h
  split at h
  · cases h
  · cases h
    rfl

theorem renameScratch_error (h : disk.renameScratch = (.error error, after)) :
    error = failure := by
  unfold renameScratch at h
  split at h
  · cases h
    rfl
  · split at h
    · cases h
      rfl
    · cases h
      rfl
    · cases h

end Disk

/-! ## The log -/

namespace Log

variable {error : Error}

theorem write_error {log : Log} {bytes : Bytes} {disk : Disk}
    (h : log.write bytes = (.error error, disk)) : error = Disk.failure := by
  unfold write at h
  split at h
  · exact Disk.appendLog_error h
  · exact Disk.act_error h

theorem append_error {log after : Log} {operation : Operation}
    (h : log.append operation = (.error error, after)) : error = Disk.failure := by
  unfold append at h
  dsimp only at h
  split at h
  · next happend =>
      cases h
      exact write_error happend
  · split at h
    · next hsync =>
        cases h
        exact Disk.syncWhen_error hsync
    · cases h

theorem writeScratch_error {disk after : Disk} {operations : List Operation}
    (h : writeScratch disk operations = (.error error, after)) : error = Disk.failure := by
  induction operations generalizing disk with
  | nil => cases h
  | cons operation rest ih =>
      unfold writeScratch at h
      split at h
      · next happend =>
          cases h
          exact Disk.appendScratch_error happend
      · exact ih h

theorem prepareScratch_error {disk after : Disk} {table : Table}
    (h : prepareScratch disk table = (.error error, after)) : error = Disk.failure := by
  unfold prepareScratch at h
  split at h
  · next hcreate =>
      cases h
      exact Disk.act_error hcreate
  · split at h
    · next hwrite =>
        cases h
        exact writeScratch_error hwrite
    · exact Disk.act_error h

theorem rewrite_error {log after : Log} {table : Table}
    (h : log.rewrite table = (.error error, after)) : error = Disk.failure := by
  unfold rewrite at h
  split at h
  · next hprepare =>
      cases h
      exact prepareScratch_error hprepare
  · split at h
    · next hrename =>
        cases h
        exact Disk.renameScratch_error hrename
    · split at h
      · next hopen =>
          cases h
          exact Disk.openLog_error hopen
      · cases h

end Log

/-! ## Engines -/

namespace Engine

variable {engine after : Engine} {error : Error}

theorem checkpoint_error (h : engine.checkpoint = (.error error, after)) :
    error = Disk.failure := by
  unfold checkpoint at h
  split at h
  next hrewrite =>
    cases h
    exact Log.rewrite_error hrewrite

theorem commit_error {operation : Operation}
    (h : engine.commit operation = (.error error, after)) : error = Disk.failure := by
  unfold commit at h
  split at h
  · next happend =>
      cases h
      exact Log.append_error happend
  · unfold maybeCheckpoint at h
    split at h
    · exact checkpoint_error h
    · cases h

theorem delete_error {key : Bytes} (h : engine.delete key = (.error error, after)) :
    error = Disk.failure := by
  unfold delete at h
  split at h
  · cases h
  · exact commit_error h

end Engine

namespace SharedEngine

variable {shared after : SharedEngine} {error : Error}

/-- The engine cannot be used, or a file action failed. -/
def Fails (error : Error) : Prop := error = refusal ∨ error = Disk.failure

theorem Fails.not_corrupt (h : Fails error) : error.isCorruption = false := by
  rcases h with rfl | rfl <;> rfl

theorem read_error {α : Type} {question : Engine → α}
    (h : shared.read question = .error error) : Fails error := by
  unfold read at h
  split at h
  · cases h
    exact .inl rfl
  · cases h

theorem write_error {call : Engine → Except Error Unit × Engine}
    (hcall : ∀ engine, call shared.engine = (.error error, engine) → error = Disk.failure)
    (h : shared.write call = (.error error, after)) : Fails error := by
  unfold write at h
  split at h
  · cases h
    exact .inl rfl
  · split at h
    next heq =>
      cases h
      exact .inr (hcall _ heq)

theorem put_error {key value : Bytes}
    (h : KeyValueEngine.put shared key value = (.error error, after)) : Fails error :=
  write_error (fun _ hput => Engine.commit_error hput) h

theorem delete_error {key : Bytes}
    (h : KeyValueEngine.delete shared key = (.error error, after)) : Fails error :=
  write_error (fun _ hdelete => Engine.delete_error hdelete) h

/-- A poisoned engine does not ask a check. -/
theorem putIf_of_poisoned (hpoisoned : shared.poisoned = true) (key value : Bytes)
    (check : Option Bytes → Except Error Unit) :
    KeyValueEngine.putIf shared key value check = (⟨none, .error refusal⟩, shared) := by
  simp only [KeyValueEngine.putIf, SharedEngine.putIf, hpoisoned, if_true]

end SharedEngine

end DocumentCache
