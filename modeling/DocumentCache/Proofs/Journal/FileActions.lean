import DocumentCache.Proofs.Journal.WholeRecords

/-!
# What file actions leave behind

An action, or a run of actions, ends in one of two ways: everything is done, or one
of them fails, which only a fate still to come can bring about, and none follows it.
Each statement of this module gives both endings: what holds when the action is
done, and what the directory holds when it failed.  The second is at the same time
what a process leaves that dies there.
-/

namespace DocumentCache

/-- The two endings of a step from a state with fates still to come. -/
inductive Ends {σ α : Type} (fates : σ → List Fate) (start : σ) (result : Except Error α × σ)
    (done : α → σ → Prop) (left : σ → Prop) : Prop where
  | done (value : α) (after : σ) (heq : result = (.ok value, after)) (hdone : done value after)
      (hcalm : fates start = [] → fates after = [])
  | failed (error : Error) (after : σ) (heq : result = (.error error, after))
      (hleft : left after) (hfated : fates start ≠ [])

namespace Ends

variable {σ α : Type} {fates : σ → List Fate} {start : σ} {result : Except Error α × σ}
  {done : α → σ → Prop} {left : σ → Prop}

/-- Where nothing fails, the step is done. -/
theorem of_calm (h : Ends fates start result done left) (hcalm : fates start = []) :
    ∃ value after, result = (.ok value, after) ∧ done value after ∧ fates after = [] := by
  cases h with
  | done value after heq hdone hafter => exact ⟨value, after, heq, hdone, hafter hcalm⟩
  | failed error after heq hleft hfated => exact absurd hcalm hfated

/-- The endings of a step that follows a step that was done. -/
theorem follow {middle : σ} {done' : α → σ → Prop} {left' : σ → Prop}
    (h : Ends fates middle result done' left')
    (hcalm : fates start = [] → fates middle = [])
    (hdone : ∀ value after, done' value after → done value after)
    (hleft : ∀ after, left' after → left after) :
    Ends fates start result done left := by
  cases h with
  | done value after heq hafter hstill =>
      exact .done value after heq (hdone value after hafter) fun h => hstill (hcalm h)
  | failed error after heq hafter hfated =>
      exact .failed error after heq (hleft after hafter) fun h => hfated (hcalm h)

end Ends

namespace Disk

/-- The bytes of the log; a log that is missing has none. -/
def HasLog (disk : Disk) (content : Bytes) : Prop :=
  disk.log = .file content ∨ disk.log = .missing ∧ content = []

theorem hasLog_of_log_eq {disk other : Disk} {content : Bytes} (h : disk.HasLog content)
    (heq : other.log = disk.log) : other.HasLog content := by
  unfold HasLog
  rw [heq]
  exact h

/-! ## Single actions -/

/-- The next action is done or fails; it fails only if a fate says so. -/
theorem draw_cases (disk : Disk) :
    (∃ rest, disk.draw = (.done, { disk with fates := rest }) ∧ (disk.fates = [] → rest = [])) ∨
      ∃ written rest, disk.draw = (.failed written, { disk with fates := rest }) ∧
        disk.fates ≠ [] := by
  unfold draw
  cases hdisk : disk.fates with
  | nil => exact .inl ⟨[], by simp [← hdisk], fun _ => rfl⟩
  | cons fate rest =>
      cases fate with
      | done => exact .inl ⟨rest, rfl, fun hcalm => by cases hcalm⟩
      | failed written => exact .inr ⟨written, rest, rfl, by simp⟩

/-- An action without bytes of its own is done as a whole or not at all. -/
theorem act_ends (disk : Disk) {change : Disk → Disk} {done left : Disk → Prop}
    (hfates : ∀ disk, (change disk).fates = disk.fates)
    (hdone : ∀ rest, done (change { disk with fates := rest }))
    (hleft : ∀ rest, left { disk with fates := rest }) :
    Ends Disk.fates disk (disk.act change) (fun _ => done) left := by
  unfold act
  rcases disk.draw_cases with ⟨rest, hdraw, hcalm⟩ | ⟨written, rest, hdraw, hfated⟩
  · rw [hdraw]
    exact .done () _ rfl (hdone rest) fun h => (hfates _).trans (hcalm h)
  · rw [hdraw]
    exact .failed failure _ rfl (hleft rest) hfated

theorem sync_ends (disk : Disk) :
    Ends Disk.fates disk disk.sync
      (fun _ after => after.log = disk.log ∧ after.scratch = disk.scratch)
      (fun after => after.log = disk.log) :=
  act_ends disk (fun _ => rfl) (fun _ => ⟨rfl, rfl⟩) (fun _ => rfl)

theorem syncWhen_ends (disk : Disk) (wanted : Bool) :
    Ends Disk.fates disk (disk.syncWhen wanted)
      (fun _ after => after.log = disk.log ∧ after.scratch = disk.scratch)
      (fun after => after.log = disk.log) := by
  cases wanted with
  | false => exact .done () disk rfl ⟨rfl, rfl⟩ id
  | true => exact sync_ends disk

theorem truncateLog_ends {disk : Disk} {content : Bytes} (hlog : disk.log = .file content)
    (length : Nat) :
    Ends Disk.fates disk (disk.truncateLog length)
      (fun _ after => after.log = .file (content.take length))
      (fun after => after.log = disk.log) := by
  apply act_ends disk
  · intro disk
    cases disk.log <;> rfl
  · intro rest
    simp only [hlog]
  · intro rest
    rfl

/-- An append that fails leaves some of its bytes behind. -/
theorem appendLog_ends {disk : Disk} {content : Bytes} (hlog : disk.log = .file content)
    (bytes : Bytes) :
    Ends Disk.fates disk (disk.appendLog bytes)
      (fun _ after => after.log = .file (content ++ bytes))
      (fun after => ∃ count, after.log = .file (content ++ bytes.take count)) := by
  unfold appendLog
  rcases disk.draw_cases with ⟨rest, hdraw, hcalm⟩ | ⟨written, rest, hdraw, hfated⟩
  · simp only [hlog, hdraw]
    exact .done () _ rfl rfl hcalm
  · simp only [hlog, hdraw]
    exact .failed failure _ rfl ⟨written, rfl⟩ hfated

/-- Opening a log that is missing creates it; one that is there stays as it is. -/
theorem openLog_ends {disk : Disk} {content : Bytes} (hlog : disk.HasLog content) :
    Ends Disk.fates disk disk.openLog
      (fun size after => after.log = .file content ∧ size = content.length)
      (fun after => after.log = disk.log) := by
  unfold openLog
  rcases disk.draw_cases with ⟨rest, hdraw, hcalm⟩ | ⟨written, rest, hdraw, hfated⟩
  · rw [hdraw]
    rcases hlog with hlog | ⟨hlog, rfl⟩
    · simp only [hlog]
      exact .done content.length _ rfl ⟨rfl, rfl⟩ hcalm
    · simp only [hlog]
      exact .done 0 _ rfl ⟨rfl, rfl⟩ hcalm
  · rw [hdraw]
    exact .failed failure _ rfl rfl hfated

/-! ## The scratch file -/

theorem createScratch_ends (disk : Disk) :
    Ends Disk.fates disk disk.createScratch
      (fun _ after => after.log = disk.log ∧ after.scratch = some [])
      (fun after => after.log = disk.log) :=
  act_ends disk (fun _ => rfl) (fun _ => ⟨rfl, rfl⟩) (fun _ => rfl)

theorem appendScratch_ends {disk : Disk} {content : Bytes}
    (hscratch : disk.scratch = some content) (bytes : Bytes) :
    Ends Disk.fates disk (disk.appendScratch bytes)
      (fun _ after => after.log = disk.log ∧ after.scratch = some (content ++ bytes))
      (fun after => after.log = disk.log) := by
  unfold appendScratch
  rcases disk.draw_cases with ⟨rest, hdraw, hcalm⟩ | ⟨written, rest, hdraw, hfated⟩
  · simp only [hscratch, hdraw]
    exact .done () _ rfl ⟨rfl, rfl⟩ hcalm
  · simp only [hdraw]
    exact .failed failure _ rfl rfl hfated

/-- The new log stands under the log's name as a whole or not at all. -/
theorem renameScratch_ends {disk : Disk} {content scratch : Bytes}
    (hlog : disk.HasLog content) (hscratch : disk.scratch = some scratch) :
    Ends Disk.fates disk disk.renameScratch
      (fun _ after => after.log = .file scratch)
      (fun after => after.log = disk.log) := by
  unfold renameScratch
  rcases disk.draw_cases with ⟨rest, hdraw, hcalm⟩ | ⟨written, rest, hdraw, hfated⟩
  · rw [hdraw]
    rcases hlog with hlog | ⟨hlog, -⟩
    · simp only [hlog, hscratch]
      exact .done () _ rfl rfl hcalm
    · simp only [hlog, hscratch]
      exact .done () _ rfl rfl hcalm
  · rw [hdraw]
    exact .failed failure _ rfl rfl hfated

end Disk

namespace Log

/-! ## Runs of actions -/

def fates (log : Log) : List Fate := log.disk.fates

/-- What a handle writes that holds the file of the log's name is seen there. -/
theorem write_of_attached {log : Log} (hattached : log.attached = true) (bytes : Bytes) :
    log.write bytes = log.disk.appendLog bytes :=
  if_pos hattached

/-- An append that fails leaves some bytes of its record behind, maybe all, which the
handle does not count. -/
theorem append_ends {log : Log} {content : Bytes} (hlog : log.disk.log = .file content)
    (hattached : log.attached = true) (operation : Operation) :
    Ends Log.fates log (log.append operation)
      (fun _ after => after.disk.log = .file (content ++ operation.encode) ∧
        after.size = log.size + operation.encode.length ∧ after.attached = true)
      (fun after => after.size = log.size ∧ after.attached = true ∧ ∃ count,
        after.disk.log = .file (content ++ operation.encode.take count)) := by
  unfold append
  simp only [write_of_attached hattached]
  cases Disk.appendLog_ends hlog operation.encode with
  | failed error disk heq hleft hfated =>
      simp only [heq]
      exact .failed error _ rfl ⟨rfl, hattached, hleft⟩ hfated
  | done value disk heq hdone hcalm =>
      simp only [heq]
      cases disk.syncWhen_ends log.syncWrites with
      | failed error after hsync hleft hfated =>
          simp only [hsync]
          refine .failed error _ rfl ⟨rfl, hattached, operation.encode.length, ?_⟩
            fun h => hfated (hcalm h)
          rw [List.take_length]
          exact hleft.trans hdone
      | done value after hsync hafter hstill =>
          simp only [hsync]
          exact .done () _ rfl ⟨hafter.1.trans hdone, rfl, hattached⟩ fun h => hstill (hcalm h)

theorem writeScratch_ends {disk : Disk} {content : Bytes}
    (hscratch : disk.scratch = some content) (operations : List Operation) :
    Ends Disk.fates disk (writeScratch disk operations)
      (fun _ after => after.log = disk.log ∧
        after.scratch = some (content ++ encodeAll operations))
      (fun after => after.log = disk.log) := by
  induction operations generalizing disk content with
  | nil =>
      refine .done () disk rfl ⟨rfl, ?_⟩ id
      rw [hscratch, encodeAll, List.flatMap_nil, List.append_nil]
  | cons operation rest ih =>
      unfold writeScratch
      cases Disk.appendScratch_ends hscratch operation.encode with
      | failed error after heq hleft hfated =>
          simp only [heq]
          exact .failed error _ rfl hleft hfated
      | done value middle heq hdone hcalm =>
          simp only [heq]
          apply (ih hdone.2).follow hcalm
          · rintro _ after ⟨hlog, hwritten⟩
            refine ⟨hlog.trans hdone.1, ?_⟩
            rw [hwritten, encodeAll, encodeAll, List.flatMap_cons, List.append_assoc]
          · intro after hleft
            exact hleft.trans hdone.1

theorem prepareScratch_ends (disk : Disk) (table : Table) :
    Ends Disk.fates disk (prepareScratch disk table)
      (fun _ after => after.log = disk.log ∧
        after.scratch = some (encodeAll (liveRecords table)))
      (fun after => after.log = disk.log) := by
  unfold prepareScratch
  cases disk.createScratch_ends with
  | failed error after heq hleft hfated =>
      simp only [heq]
      exact .failed error _ rfl hleft hfated
  | done value created heq hcreated hcalm =>
      simp only [heq]
      cases writeScratch_ends hcreated.2 (liveRecords table) with
      | failed error after hwrite hleft hfated =>
          simp only [hwrite]
          exact .failed error _ rfl (hleft.trans hcreated.1) fun h => hfated (hcalm h)
      | done value written hwrite hwritten hstill =>
          simp only [hwrite]
          have hlog : written.log = disk.log := hwritten.1.trans hcreated.1
          apply written.sync_ends.follow fun h => hstill (hcalm h)
          · rintro _ after ⟨hsame, hscratch⟩
            exact ⟨hsame.trans hlog, hscratch.trans hwritten.2⟩
          · intro after hleft
            exact hleft.trans hlog

/-- At every moment of a rewrite the log's name stands for the old log or for the
whole new one.  One that fails leaves the handle with the old log: under its name, or
without one. -/
theorem rewrite_ends {log : Log} {content : Bytes} (hlog : log.disk.HasLog content)
    (table : Table) :
    Ends Log.fates log (log.rewrite table)
      (fun _ after => after.disk.log = .file (encodeAll (liveRecords table)) ∧
        after.size = (encodeAll (liveRecords table)).length ∧ after.attached = true)
      (fun after => after.size = log.size ∧
        (after.disk.log = log.disk.log ∧ after.attached = log.attached ∨
          after.disk.log = .file (encodeAll (liveRecords table)) ∧ after.attached = false)) := by
  unfold rewrite
  cases prepareScratch_ends log.disk table with
  | failed error after heq hleft hfated =>
      simp only [heq]
      exact .failed error _ rfl ⟨rfl, .inl ⟨hleft, rfl⟩⟩ hfated
  | done value prepared heq hprepared hcalm =>
      simp only [heq]
      have hstart := Disk.hasLog_of_log_eq hlog hprepared.1
      cases Disk.renameScratch_ends hstart hprepared.2 with
      | failed error after hrename hleft hfated =>
          simp only [hrename]
          exact .failed error _ rfl ⟨rfl, .inl ⟨hleft.trans hprepared.1, rfl⟩⟩ fun h =>
            hfated (hcalm h)
      | done value renamed hrename hrenamed hstill =>
          simp only [hrename]
          cases Disk.openLog_ends (.inl hrenamed) with
          | failed error after hopen hleft hfated =>
              simp only [hopen]
              exact .failed error _ rfl ⟨rfl, .inr ⟨hleft.trans hrenamed, rfl⟩⟩ fun h =>
                hfated (hstill (hcalm h))
          | done size after hopen hafter hquiet =>
              simp only [hopen]
              exact .done () _ rfl ⟨hafter.1, rfl, rfl⟩ fun h => hquiet (hstill (hcalm h))

/-- Cutting off the tail of a log leaves it whole or cut. -/
theorem cutTornTail_ends {disk : Disk} {content : Bytes} (hlog : disk.HasLog content)
    (validBytes : Nat) :
    Ends Disk.fates disk (cutTornTail disk validBytes)
      (fun _ after => after.HasLog (content.take validBytes))
      (fun after => after.log = disk.log ∨ after.log = .file (content.take validBytes)) := by
  unfold cutTornTail
  rcases hlog with hlog | ⟨hlog, rfl⟩
  · simp only [hlog]
    split
    · cases Disk.truncateLog_ends hlog validBytes with
      | failed error after heq hleft hfated =>
          simp only [heq]
          exact .failed error _ rfl (.inl (hleft.trans hlog)) hfated
      | done value cut heq hcut hcalm =>
          simp only [heq]
          apply cut.sync_ends.follow hcalm
          · intro _ after hafter
            exact .inl (hafter.1.trans hcut)
          · intro after hleft
            exact .inr (hleft.trans hcut)
    · next hwhole =>
        refine .done () disk rfl (.inl ?_) id
        rw [hlog, List.take_of_length_le (Nat.le_of_not_lt hwhole)]
  · simp only [hlog]
    exact .done () disk rfl (.inr ⟨hlog, List.take_nil⟩) id

theorem recover_of_hasLog {disk : Disk} {content : Bytes} (hlog : disk.HasLog content) :
    recover disk = (Replay.ofLog content).mapError .recoveryFailed := by
  unfold recover Disk.readLog
  rcases hlog with hlog | ⟨hlog, rfl⟩
  · rw [hlog]
  · rw [hlog, Replay.ofLog_nil]
    rfl

end Log

end DocumentCache
