import DocumentCache.Proofs.Cache.WorkerThreads
import Mathlib.Algebra.BigOperators.Group.Multiset.Basic
import Mathlib.Tactic.Abel

/-!
# Jobs run by threads

A job stays in the calls of the owner, in the queue or with a thread until it is run or
skipped.  While the interrupt has not come and no job has failed, none is skipped: the
jobs run and the jobs left are together those that were given, and running the former
one after another, in the order in which they happened to run, gives what is to be seen
of the shared result.  So a drain that finds no failure and no interrupt has waited for
all jobs, and a failure that it finds is that of a given one.
-/

namespace DocumentCache.DecodePool

variable {α β σ : Type} {job : α → Job σ} {s t : Threads α σ}

/-! ## Jobs left and jobs run -/

/-- The job, until it was run or skipped. -/
def Stage.left (item : α) : Stage → Multiset α
  | .ended _ => 0
  | _ => {item}

/-- The failure that a job ended with and that is not recorded yet. -/
def Stage.failure? : Stage → Option Error
  | .ended failure => failure
  | _ => none

def Worker.left : Worker α → Multiset α
  | .busy item stage => stage.left item
  | _ => 0

def Worker.failure? : Worker α → Option Error
  | .busy _ stage => stage.failure?
  | _ => none

def Owner.left : Owner α → Multiset α
  | .counting item | .sending item => {item}
  | .inline item stage => stage.left item
  | _ => 0

def Owner.failure? : Owner α → Option Error
  | .inline _ stage => stage.failure?
  | _ => none

def Call.left : Call α σ → Multiset α
  | .submit item | .runInline item => {item}
  | _ => 0

namespace Threads

/-- The jobs of all calls to come, in the queue, and in the hands of threads. -/
def left (s : Threads α σ) : Multiset α :=
  (s.todo.map Call.left).sum + s.owner.left + (s.queue.map singleton).sum +
    (s.workers.map Worker.left).sum

/-- A failure since the last drain, recorded or not. -/
def Fails (s : Threads α σ) (error : Error) : Prop :=
  s.pool.failure = some error ∨ s.owner.failure? = some error ∨
    ∃ worker ∈ s.workers, worker.failure? = some error

/-- No thread has seen the interrupt or met with a failure. -/
def Calm (s : Threads α σ) : Prop :=
  s.pool.interrupted = false ∧ ∀ error, ¬ s.Fails error

end Threads

/-- What a turn other than a drain does to the jobs left, the failures, and the shared
result. -/
inductive Effect (job : α → Job σ) (s t : Threads α σ) : Prop where
  | quiet (hleft : t.left = s.left) (hshared : t.pool.shared = s.pool.shared)
      (hfails : ∀ error, t.Fails error → s.Fails error) (hcalm : t.Calm → s.Calm)
  | note (change : σ → σ) (htodo : s.todo = .note change :: t.todo) (hleft : t.left = s.left)
      (hshared : t.pool.shared = change s.pool.shared)
      (hfails : ∀ error, t.Fails error → s.Fails error) (hcalm : t.Calm → s.Calm)
  | skip (hleft : t.left ≤ s.left) (hshared : t.pool.shared = s.pool.shared)
      (hfails : ∀ error, t.Fails error → s.Fails error)
      (hcalm : ¬ t.Calm)
  | run (item : α) (hleft : s.left = {item} + t.left)
      (hshared : t.pool.shared = ((job item).run s.pool.shared).2)
      (hinterrupted : t.pool.interrupted = s.pool.interrupted)
      (hfails : ∀ error, t.Fails error ↔
        ((job item).run s.pool.shared).1.failure? = some error ∨ s.Fails error)

/-- A drain takes the failure out of the pool and reports on it. -/
def Drains (s t : Threads α σ) : Prop :=
  s.owner = .ready ∧ (s.pool.outstanding = 0 ∨ s.pool.interrupted = true) ∧
    ∃ rest, s.todo = .drain :: rest ∧
      t = { s with pool := s.pool.drain.2, todo := rest, answers := s.answers ++ [s.pool.drain.1] }

theorem Threads.Calm.of_next (hinterrupted : t.pool.interrupted = s.pool.interrupted)
    (hfails : ∀ error, s.Fails error → ∃ other, t.Fails other) (h : t.Calm) : s.Calm := by
  refine ⟨hinterrupted ▸ h.1, ?_⟩
  intro error hfailed
  obtain ⟨other, hother⟩ := hfails error hfailed
  exact h.2 other hother

theorem Effect.of_same (hleft : t.left = s.left) (hshared : t.pool.shared = s.pool.shared)
    (hinterrupted : t.pool.interrupted = s.pool.interrupted)
    (hsame : ∀ error, t.Fails error ↔ s.Fails error) : Effect job s t :=
  .quiet hleft hshared (fun error => (hsame error).mp)
    (.of_next hinterrupted fun error hfails => ⟨error, (hsame error).mpr hfails⟩)

/-- A turn of a thread with its job, whatever the others are at. -/
theorem Advances.effect {item : α} {pool next : DecodePool σ} {stage later : Stage}
    {rest : Multiset α} {others : Error → Prop}
    (h : Advances (job item) pool stage next later) (hpool : s.pool = pool) (hnext : t.pool = next)
    (hleft : s.left = stage.left item + rest) (hlater : t.left = later.left item + rest)
    (hfails : ∀ error, s.Fails error ↔ stage.failure? = some error ∨ others error)
    (hfailsLater : ∀ error, t.Fails error ↔ later.failure? = some error ∨ others error)
    (hothers : ∀ error, pool.failure = some error → others error) : Effect job s t := by
  have hskip (hstage : stage.left item = {item}) (hended : later.left item = 0) :
      t.left ≤ s.left := by
    rw [hleft, hlater, hstage, hended]
    exact add_le_add_left (Multiset.zero_le {item}) rest
  cases h with
  | interrupted h =>
      refine .skip (hskip rfl rfl) (by rw [hpool, hnext])
        (fun error => ((hfailsLater error).trans (hfails error).symm).mp) ?_
      rintro ⟨hcalm, _⟩
      rw [hnext, h] at hcalm
      cases hcalm
  | calm h | cleared h =>
      exact .of_same (hlater.trans hleft.symm) (by rw [hpool, hnext]) (by rw [hpool, hnext])
        fun error => (hfailsLater error).trans (hfails error).symm
  | failed h =>
      refine .skip (hskip rfl rfl) (by rw [hpool, hnext])
        (fun error => ((hfailsLater error).trans (hfails error).symm).mp) ?_
      rintro ⟨_, hcalm⟩
      obtain ⟨error, herror⟩ := Option.ne_none_iff_exists'.mp h
      exact hcalm error ((hfailsLater error).mpr (.inr (hothers error herror)))
  | run =>
      refine .run item ?_ (by rw [hpool, hnext]) (by rw [hpool, hnext]) ?_
      · rw [hleft, hlater]
        exact congrArg _ (zero_add rest).symm
      · intro error
        rw [hfailsLater, hfails, hpool]
        simp [Stage.failure?]

/-- A failure that is recorded is kept, or there was one before. -/
theorem Effect.of_record {failure : Option Error} {others : Error → Prop}
    (hleft : t.left = s.left) (hshared : t.pool.shared = s.pool.shared)
    (hinterrupted : t.pool.interrupted = s.pool.interrupted)
    (hfails : ∀ error, s.Fails error ↔
      failure = some error ∨ s.pool.failure = some error ∨ others error)
    (hfailsLater : ∀ error, t.Fails error ↔
      s.pool.failure.or failure = some error ∨ others error) : Effect job s t := by
  refine .quiet hleft hshared ?_ (.of_next hinterrupted ?_)
  · intro error
    rw [hfails, hfailsLater, Option.or_eq_some_iff]
    rintro ((hfirst | ⟨_, hfailure⟩) | hother)
    · exact .inr (.inl hfirst)
    · exact .inl hfailure
    · exact .inr (.inr hother)
  · intro error
    simp only [hfails, hfailsLater]
    rintro (hfailure | hfirst | hother)
    · cases hpool : s.pool.failure with
      | none => exact ⟨error, .inl hfailure⟩
      | some first => exact ⟨first, .inl rfl⟩
    · exact ⟨error, .inl (by rw [hfirst]; rfl)⟩
    · exact ⟨error, .inr hother⟩

/-! The thread that takes a turn, and the others that do not. -/

section Frames

variable {pool next : DecodePool σ} {queue : List α} {workers before after : List (Worker α)}
  {worker : Worker α} {owner : Owner α} {item : α} {stage : Stage} {todo : List (Call α σ)}
  {answers : List (Except Error Unit)} {error : Error}

theorem left_worker : (Threads.mk pool queue (before ++ worker :: after) owner todo answers).left =
    worker.left + (Threads.mk pool queue (before ++ after) owner todo answers).left := by
  simp only [Threads.left, List.map_append, List.map_cons, List.sum_append, List.sum_cons]
  abel

theorem left_inline : (Threads.mk pool queue workers (.inline item stage) todo answers).left =
    stage.left item + (Threads.mk pool queue workers .ready todo answers).left := by
  simp only [Threads.left, Owner.left]
  abel

theorem left_call (call : Call α σ) :
    (Threads.mk pool queue workers .ready (call :: todo) answers).left =
      call.left + (Threads.mk pool queue workers .ready todo answers).left := by
  simp only [Threads.left, Owner.left, List.map_cons, List.sum_cons]
  abel

theorem fails_worker :
    (Threads.mk pool queue (before ++ worker :: after) owner todo answers).Fails error ↔
      worker.failure? = some error ∨ pool.failure = some error ∨
        owner.failure? = some error ∨ ∃ other ∈ before ++ after, other.failure? = some error := by
  simp only [Threads.Fails, List.mem_append, List.mem_cons, or_and_right, exists_or,
    exists_eq_left, or_left_comm]

theorem fails_inline :
    (Threads.mk pool queue workers (.inline item stage) todo answers).Fails error ↔
      stage.failure? = some error ∨ pool.failure = some error ∨
        ∃ other ∈ workers, other.failure? = some error := by
  simp only [Threads.Fails]
  exact or_left_comm

end Frames

theorem Move.effect (h : Move job s t) (hno : ¬ Drains s t) : Effect job s t := by
  cases h with
  | grow h =>
      rw [growWorkers_of_lt h]
      refine .of_same ?_ rfl rfl ?_
      · rw [left_worker, left_call, List.append_nil]
        simp only [Threads.left, Worker.left, Call.left, Owner.left]
        abel
      · intro error
        rw [fails_worker, List.append_nil]
        exact or_iff_right nofun
  | reuse h =>
      rw [growWorkers_of_le h]
      refine .of_same ?_ rfl rfl (fun _ => .rfl)
      rw [left_call]
      simp only [Threads.left, Call.left, Owner.left]
      abel
  | count => exact .of_same rfl rfl rfl (fun _ => .rfl)
  | send =>
      refine .of_same ?_ rfl rfl (fun _ => .rfl)
      simp only [Threads.left, Owner.left, List.map_append, List.sum_append, List.map_cons,
        List.map_nil, List.sum_cons, List.sum_nil]
      abel
  | takeInline =>
      refine .of_same ?_ rfl rfl (fun _ => .rfl)
      rw [left_inline, left_call]
      rfl
  | @advanceInline pool next queue workers item stage later todo answers h =>
      refine h.effect rfl rfl left_inline ?_ (fun _ => fails_inline) ?_ fun _ => .inl
      · rw [left_inline]
        rfl
      · intro error
        rw [fails_inline, h.failure_eq]
  | recordInline =>
      refine .of_record (left_inline.trans (zero_add _)).symm rfl rfl (fun _ => fails_inline) ?_
      simp [Threads.Fails, Owner.failure?, DecodePool.record, Stage.failure?]
  | note =>
      refine .note _ rfl ?_ rfl (fun _ => id) id
      simp [Threads.left, Call.left]
  | drain h => exact absurd ⟨rfl, h, _, rfl, rfl⟩ hno
  | close => exact .of_same rfl rfl rfl (fun _ => .rfl)
  | join h => exact .of_same rfl rfl rfl (fun _ => .rfl)
  | take =>
      refine .of_same ?_ rfl rfl ?_
      · rw [left_worker, left_worker]
        simp only [Threads.left, List.map_cons, List.sum_cons, Worker.left, Stage.left]
        abel
      · intro error
        rw [fails_worker, fails_worker]
        rfl
  | advance h =>
      refine h.effect rfl rfl left_worker ?_ (fun _ => fails_worker) ?_ fun _ => .inl
      · rw [left_worker]
        rfl
      · intro error
        rw [fails_worker, h.failure_eq]
        rfl
  | finish =>
      refine .of_record ?_ rfl rfl (fun _ => fails_worker) ?_
      · rw [left_worker, left_worker]
        rfl
      · intro error
        rw [fails_worker]
        exact or_iff_right nofun
  | stop =>
      refine .of_same ?_ rfl rfl ?_
      · rw [left_worker, left_worker]
        rfl
      · intro error
        rw [fails_worker, fails_worker]
        rfl

theorem Step.effect (h : Step (Turn job) s t) (hno : ¬ Drains s t) : Effect job s t := by
  cases h with
  | interrupt => exact .skip le_rfl rfl (fun _ => id) fun hcalm => by cases hcalm.1
  | turn h =>
      cases h with
      | move h => exact h.effect hno
      | unstarted =>
          refine .of_same ?_ rfl rfl (fun _ => .rfl)
          rw [left_call]
          simp only [Threads.left, Call.left, Owner.left]
          abel
      | unstaffed =>
          refine .of_same ?_ rfl rfl (fun _ => .rfl)
          rw [left_inline, left_call]
          rfl

/-! ## The account of a run -/

variable (keep : β → α → Except Error β) (view : σ → β)

/-- A job does to what is seen of the shared result what `keep` does. -/
def Follows (job : α → Job σ) : Prop :=
  ∀ item shared,
    (match ((job item).run shared).1.failure? with
      | some error => .error error
      | none => .ok (view ((job item).run shared).2)) = keep (view shared) item

/-- The failures are those of given jobs and, while all is calm, those of them that are
not left have run one after another and none has failed. -/
structure Accounts (base : β) (given : Multiset α) (s : Threads α σ) : Prop where
  left_le : s.left ≤ given
  blames : ∀ error, s.Fails error → ∃ item ∈ given, ∃ held, keep held item = .error error
  ran : s.Calm → ∃ ran : List α,
    ran.foldlM keep base = .ok (view s.pool.shared) ∧ (ran : Multiset α) + s.left = given

variable {keep view} {base : β} {given : Multiset α}

theorem Follows.keep_eq_ok (h : Follows keep view job) {item : α} {shared : σ}
    (hdone : ((job item).run shared).1.failure? = none) :
    keep (view shared) item = .ok (view ((job item).run shared).2) := by
  rw [← h, hdone]

theorem Follows.keep_eq_error (h : Follows keep view job) {item : α} {shared : σ} {error : Error}
    (hfailed : ((job item).run shared).1.failure? = some error) :
    keep (view shared) item = .error error := by
  rw [← h, hfailed]

theorem Accounts.next (hfollows : Follows keep view job)
    (hnotes : ∀ change, .note change ∈ s.todo → ∀ shared, view (change shared) = view shared)
    (heffect : Effect job s t) (hs : Accounts keep view base given s) :
    Accounts keep view base given t := by
  cases heffect with
  | quiet hleft hshared hfails hcalm =>
      refine ⟨hleft ▸ hs.left_le, fun error h => hs.blames error (hfails error h), ?_⟩
      intro h
      rw [hshared, hleft]
      exact hs.ran (hcalm h)
  | note change htodo hleft hshared hfails hcalm =>
      refine ⟨hleft ▸ hs.left_le, fun error h => hs.blames error (hfails error h), ?_⟩
      intro h
      rw [hshared, hleft, hnotes change (htodo ▸ List.mem_cons_self)]
      exact hs.ran (hcalm h)
  | skip hleft hshared hfails hcalm =>
      exact ⟨hleft.trans hs.left_le, fun error h => hs.blames error (hfails error h),
        fun h => absurd h hcalm⟩
  | run item hleft hshared hinterrupted hfails =>
      refine ⟨?_, ?_, ?_⟩
      · apply le_trans _ hs.left_le
        rw [hleft]
        exact Multiset.le_add_left _ _
      · intro error h
        rcases (hfails error).mp h with hfailed | hearlier
        · have hgiven : item ∈ given := by
            apply Multiset.mem_of_le hs.left_le
            rw [hleft]
            exact Multiset.mem_add.mpr (.inl (Multiset.mem_singleton_self item))
          exact ⟨item, hgiven, _, hfollows.keep_eq_error hfailed⟩
        · exact hs.blames error hearlier
      · intro h
        have hcalm : s.Calm :=
          .of_next hinterrupted (fun error hfailed => ⟨error, (hfails error).mpr (.inr hfailed)⟩) h
        have hdone : ((job item).run s.pool.shared).1.failure? = none := by
          rw [Option.eq_none_iff_forall_ne_some]
          intro error hfailed
          exact h.2 error ((hfails error).mpr (.inl hfailed))
        obtain ⟨ran, hran, hall⟩ := hs.ran hcalm
        refine ⟨ran ++ [item], ?_, ?_⟩
        · rw [List.foldlM_append, hran, hshared]
          exact (bind_pure _).trans (hfollows.keep_eq_ok hdone)
        · rw [← hall, hleft, ← Multiset.coe_add, add_assoc]
          rfl

/-! ## Drains -/

/-- What a turn other than a drain leaves of the answers and the calls. -/
theorem Move.undrained (h : Move job s t) (hno : ¬ Drains s t) :
    t.answers = s.answers ∧
      (t.todo = s.todo ∨ ∃ call, call ≠ .drain ∧ s.todo = call :: t.todo) := by
  cases h with
  | @grow _ _ _ item => exact ⟨rfl, .inr ⟨.submit item, nofun, rfl⟩⟩
  | @reuse _ _ _ item => exact ⟨rfl, .inr ⟨.submit item, nofun, rfl⟩⟩
  | @takeInline _ _ _ item => exact ⟨rfl, .inr ⟨.runInline item, nofun, rfl⟩⟩
  | @note _ _ _ change => exact ⟨rfl, .inr ⟨.note change, nofun, rfl⟩⟩
  | drain h => exact absurd ⟨rfl, h, _, rfl, rfl⟩ hno
  | _ => exact ⟨rfl, .inl rfl⟩

theorem Step.undrained (h : Step (Turn job) s t) (hno : ¬ Drains s t) :
    t.answers = s.answers ∧
      (t.todo = s.todo ∨ ∃ call, call ≠ .drain ∧ s.todo = call :: t.todo) := by
  cases h with
  | interrupt => exact ⟨rfl, .inl rfl⟩
  | turn h =>
      cases h with
      | move h => exact h.undrained hno
      | @unstarted _ _ _ item | @unstaffed _ _ item =>
          exact ⟨rfl, .inr ⟨.submit item, nofun, rfl⟩⟩

/-- Only the interrupt itself changes whether it has come. -/
theorem Move.interrupted_eq (h : Move job s t) : t.pool.interrupted = s.pool.interrupted := by
  cases h with
  | grow | reuse => rw [growWorkers_interrupted]
  | drain => rw [drain_interrupted]
  | advanceInline h | advance h => exact h.interrupted_eq
  | _ => rfl

theorem Turn.interrupted_eq (h : Turn job s t) : t.pool.interrupted = s.pool.interrupted := by
  cases h with
  | move h => exact h.interrupted_eq
  | unstarted | unstaffed => rfl

theorem Step.interrupted_mono (h : Step (Turn job) s t) (hs : s.pool.interrupted = true) :
    t.pool.interrupted = true := by
  cases h with
  | turn h => exact h.interrupted_eq.trans hs
  | interrupt => rfl

/-- When no job is outstanding, the queue is empty and no worker holds a job. -/
theorem Threads.at_rest (hcounted : s.pool.outstanding =
      s.queue.length + s.owner.load + (s.workers.map Worker.load).sum)
    (hzero : s.pool.outstanding = 0) :
    s.queue = [] ∧ ∀ worker ∈ s.workers, worker.left = 0 ∧ worker.failure? = none := by
  refine ⟨List.length_eq_zero_iff.mp (by omega), ?_⟩
  intro worker hmem
  have hload : worker.load = 0 := by
    apply Nat.eq_zero_of_not_pos
    intro hpos
    have hsum : 0 < (s.workers.map Worker.load).sum :=
      List.sum_pos_iff_exists_pos_nat.mpr ⟨_, List.mem_map_of_mem hmem, hpos⟩
    omega
  cases worker with
  | busy item stage => cases hload
  | idle | stopped => exact ⟨rfl, rfl⟩

theorem Threads.Sound.at_rest (hs : s.Sound) (hzero : s.pool.outstanding = 0) :
    s.queue = [] ∧ ∀ worker ∈ s.workers, worker.left = 0 ∧ worker.failure? = none :=
  Threads.at_rest hs.counted hzero

theorem Threads.Sound.left_at_rest (hs : s.Sound) (howner : s.owner = .ready)
    (hzero : s.pool.outstanding = 0) : s.left = (s.todo.map Call.left).sum := by
  obtain ⟨hqueue, hworkers⟩ := hs.at_rest hzero
  have hnone : (s.workers.map Worker.left).sum = 0 :=
    List.sum_eq_zero (List.forall_mem_map.mpr fun worker hmem => (hworkers worker hmem).1)
  rw [Threads.left, howner, hqueue, hnone]
  simp [Owner.left]

theorem Threads.Sound.fails_at_rest (hs : s.Sound) (howner : s.owner = .ready)
    (hzero : s.pool.outstanding = 0) {error : Error} :
    s.Fails error ↔ s.pool.failure = some error := by
  obtain ⟨_, hworkers⟩ := hs.at_rest hzero
  constructor
  · rintro (hpool | howns | ⟨worker, hmem, hfailed⟩)
    · exact hpool
    · rw [howner] at howns
      cases howns
    · rw [(hworkers worker hmem).2] at hfailed
      cases hfailed
  · exact .inl

/-- What the last drain of a run reported: that all given jobs have run and none has
failed, and then nothing changes any more; or the interrupt; or how a job failed. -/
inductive Settled (keep : β → α → Except Error β) (view : σ → β) (base : β)
    (given : Multiset α) : Except Error Unit → Threads α σ → Prop where
  | complete {s : Threads α σ} (hleft : s.left = 0) (ran : List α)
      (hran : ran.foldlM keep base = .ok (view s.pool.shared)) (hall : ran = given) :
      Settled keep view base given (.ok ()) s
  | interrupted {s : Threads α σ} (outstanding : Nat) (h : s.pool.interrupted = true) :
      Settled keep view base given (.error (.interrupted (.outstanding outstanding))) s
  | failed {s : Threads α σ} {error : Error} (item : α) (hmem : item ∈ given) (held : β)
      (herror : keep held item = .error error) : Settled keep view base given (.error error) s

theorem Accounts.settles (hs : Accounts keep view base given s) (hsound : s.Sound)
    (h : Drains s t) (hlast : t.todo = []) :
    Settled keep view base given s.pool.drain.1 t := by
  obtain ⟨howner, henabled, rest, htodo, rfl⟩ := h
  obtain rfl : rest = [] := hlast
  cases hinterrupted : s.pool.interrupted with
  | true =>
      rw [drain_of_interrupted hinterrupted]
      exact .interrupted _ ((drain_interrupted s.pool).trans hinterrupted)
  | false =>
      have hzero : s.pool.outstanding = 0 := henabled.resolve_right (by simp [hinterrupted])
      have hfails : ∀ error, s.Fails error ↔ s.pool.failure = some error :=
        fun _ => hsound.fails_at_rest howner hzero
      cases hfailure : s.pool.failure with
      | some error =>
          obtain ⟨item, hmem, held, herror⟩ := hs.blames error ((hfails error).mpr hfailure)
          rw [drain_of_calm hinterrupted, hfailure]
          exact .failed item hmem held herror
      | none =>
          have hdrain : s.pool.drain = (.ok (), s.pool) := by
            simp [DecodePool.drain, hinterrupted, hfailure]
          have hcalm : s.Calm := by
            refine ⟨hinterrupted, ?_⟩
            intro error hfailed
            rw [hfails, hfailure] at hfailed
            cases hfailed
          have hleft : s.left = 0 := by
            rw [hsound.left_at_rest howner hzero, htodo]
            rfl
          obtain ⟨ran, hran, hall⟩ := hs.ran hcalm
          rw [hleft, add_zero] at hall
          rw [hdrain]
          refine .complete ?_ ran hran hall
          rw [← hleft, Threads.left, Threads.left, htodo]
          simp [Call.left]

theorem Settled.next {answer : Except Error Unit} (heffect : Effect job s t)
    (hstep : Step (Turn job) s t) (htodo : s.todo = [])
    (hs : Settled keep view base given answer s) :
    Settled keep view base given answer t := by
  cases hs with
  | interrupted outstanding h => exact .interrupted outstanding (hstep.interrupted_mono h)
  | failed item hmem held herror => exact .failed item hmem held herror
  | complete hleft ran hran hall =>
      cases heffect with
      | quiet hsame hshared => exact .complete (hsame.trans hleft) ran (hshared ▸ hran) hall
      | note change hnote => simp [htodo] at hnote
      | skip hle hshared =>
          exact .complete (le_antisymm (hleft ▸ hle) (Multiset.zero_le _)) ran (hshared ▸ hran) hall
      | run item hrun => simp [hleft] at hrun

/-- A call before the drain: a job, or a note that does not show. -/
def Call.Plain (view : σ → β) : Call α σ → Prop
  | .note change => ∀ shared, view (change shared) = view shared
  | .drain => False
  | _ => True

/-- A run of some jobs that ends with a drain: until the drain, then after it. -/
inductive Phase (keep : β → α → Except Error β) (view : σ → β) (base : β) (given : Multiset α)
    (s : Threads α σ) : Prop where
  | running (hanswers : s.answers = []) (jobs : List (Call α σ))
      (hplain : ∀ call ∈ jobs, call.Plain view) (htodo : s.todo = jobs ++ [.drain])
      (haccounts : Accounts keep view base given s)
  | drained (answer : Except Error Unit) (hanswers : s.answers = [answer]) (htodo : s.todo = [])
      (hsettled : Settled keep view base given answer s)

theorem Phase.next (hfollows : Follows keep view job) (hsound : s.Sound)
    (hstep : Step (Turn job) s t) (hs : Phase keep view base given s) :
    Phase keep view base given t := by
  cases hs with
  | running hanswers jobs hplain htodo haccounts =>
      by_cases hdrains : Drains s t
      · have ⟨_, _, rest, hrest, ht⟩ := hdrains
        have hlast : rest = [] := by
          rw [htodo] at hrest
          cases jobs with
          | nil => exact (List.cons.inj hrest).2.symm
          | cons call others =>
              obtain rfl : call = .drain := (List.cons.inj hrest).1
              exact (hplain _ List.mem_cons_self).elim
        refine .drained s.pool.drain.1 ?_ ?_ (haccounts.settles hsound hdrains ?_)
        all_goals simp [ht, hanswers, hlast]
      · have hnotes : ∀ change, .note change ∈ s.todo →
            ∀ shared, view (change shared) = view shared := by
          intro change hmem
          rw [htodo] at hmem
          exact hplain (.note change) (by simpa using hmem)
        have hnext := haccounts.next hfollows hnotes (hstep.effect hdrains)
        obtain ⟨hsame, hstill | ⟨call, hcall, hpopped⟩⟩ := hstep.undrained hdrains
        · exact .running (hsame.trans hanswers) jobs hplain (hstill.trans htodo) hnext
        · rw [htodo] at hpopped
          cases jobs with
          | nil => exact absurd (List.cons.inj hpopped).1.symm hcall
          | cons first others =>
              exact .running (hsame.trans hanswers) others
                (fun call hmem => hplain call (List.mem_cons_of_mem _ hmem))
                (List.cons.inj hpopped).2.symm hnext
  | drained answer hanswers htodo hsettled =>
      have hno : ¬ Drains s t := by
        rintro ⟨_, _, rest, hrest, _⟩
        rw [htodo] at hrest
        cases hrest
      obtain ⟨hsame, hstill | ⟨call, _, hpopped⟩⟩ := hstep.undrained hno
      · exact .drained answer (hsame.trans hanswers) (hstill.trans htodo)
          (hsettled.next (hstep.effect hno) hstep htodo)
      · rw [htodo] at hpopped
        cases hpopped

theorem Phase.start (pool : DecodePool σ) (hfailure : pool.failure = none)
    {jobs : List (Call α σ)} (hplain : ∀ call ∈ jobs, call.Plain view) :
    Phase keep view (view pool.shared) (jobs.map Call.left).sum
      (Threads.start pool (jobs ++ [.drain])) := by
  have hleft : (Threads.start pool (jobs ++ [.drain])).left = (jobs.map Call.left).sum := by
    simp [Threads.left, Threads.start, Owner.left, Call.left]
  refine .running rfl jobs hplain rfl ⟨hleft.le, ?_, ?_⟩
  · intro error h
    simp [Threads.Fails, Threads.start, hfailure, Owner.failure?] at h
  · intro _
    exact ⟨[], rfl, by rw [hleft, Multiset.coe_nil, zero_add]⟩

/-- What holds once the owner of a pool has made some calls, a drain last, and closed
it. -/
theorem settled_of_reaches (hfollows : Follows keep view job) {pool : DecodePool σ}
    {jobs : List (Call α σ)} (hplain : ∀ call ∈ jobs, call.Plain view)
    (hfailure : pool.failure = none) (hsound : (Threads.start pool (jobs ++ [.drain])).Sound)
    (hreach : Reaches (Turn job) (Threads.start pool (jobs ++ [.drain])) s)
    (hclosed : s.owner = .closed) :
    ∃ answer, s.answers = [answer] ∧
      Settled keep view (view pool.shared) (jobs.map Call.left).sum answer s := by
  have hboth : s.Sound ∧ Phase keep view (view pool.shared) (jobs.map Call.left).sum s := by
    clear hclosed
    induction hreach with
    | refl => exact ⟨hsound, .start pool hfailure hplain⟩
    | tail _ hstep ih => exact ⟨hstep.sound ih.1, ih.2.next hfollows ih.1 hstep⟩
  obtain ⟨hend, hphase⟩ := hboth
  cases hphase with
  | drained answer hanswers _ hsettled => exact ⟨answer, hanswers, hsettled⟩
  | running _ jobs _ htodo _ =>
      have hnone : s.todo = [] := hend.finished (by rw [hclosed]; rfl)
      rw [hnone] at htodo
      simp at htodo

end DocumentCache.DecodePool
