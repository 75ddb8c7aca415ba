import DocumentCache.Proofs.Cache.InterleavedScans

/-!
# Workers that do not start

When not even the first worker can be started, the owner of a pool runs the job at hand
itself and the pool does not try again.  The jobs that follow are put into the queue
nevertheless: no worker takes them, and the owner waits for them until the interrupt
comes.  A scan comes to this if it hands over two rows, which it does when it has three
rows to decode and decodes them in the background; no other scan ever waits in vain.
-/

namespace DocumentCache.DecodePool

variable {α σ : Type} {job : α → Job σ} {s t : Threads α σ}

/-! ## Waiting in vain -/

/-- A stranded owner can take no turn, nor can anybody else: only the interrupt comes. -/
theorem Threads.Stranded.step_iff (h : s.Stranded) :
    Step (Turn job) s t ↔ t = { s with pool := s.pool.interrupt } := by
  obtain ⟨hworkers, -, hready, ⟨rest, htodo⟩, hpos, hcalm⟩ := h
  constructor
  · intro hstep
    cases hstep with
    | interrupt => rfl
    | turn hturn =>
        obtain ⟨pool, queue, workers, owner, todo, answers⟩ := s
        obtain rfl : workers = [] := hworkers
        obtain rfl : owner = .ready := hready
        obtain rfl : todo = .drain :: rest := htodo
        cases hturn with
        | move hmove =>
            generalize hnone : ([] : List (Worker α)) = workers at hmove
            cases hmove with
            | drain hdone =>
                rcases hdone with hzero | hinterrupted
                · exact absurd hzero (Nat.ne_of_gt hpos)
                · cases hcalm.symm.trans hinterrupted
            | take | advance | finish => simp at hnone
  · rintro rfl
    exact .interrupt hcalm

/-- Once the interrupt has come, the owner closes its pool, with or without workers. -/
theorem Threads.Sound.closes_of_interrupted (hs : s.Sound)
    (hinterrupted : s.pool.interrupted = true) :
    Inevitable (Turn job) (fun last => last.owner = .closed) s := by
  refine .of_kept (fun s => s.Sound ∧ s.pool.interrupted = true) (fun _ _ => Turn.weight_lt)
    ?_ ?_ ⟨hs, hinterrupted⟩
  · rintro s t ⟨hs, hinterrupted⟩ hstep
    exact ⟨hstep.sound hs, hstep.interrupted_mono hinterrupted⟩
  · rintro s ⟨hs, hinterrupted⟩
    by_cases hclosed : s.owner = .closed
    · exact .inl hclosed
    · rcases hs.exists_move hclosed with ⟨next, hmove⟩ | hstranded
      · exact .inr ⟨next, .move hmove⟩
      · cases hstranded.calm.symm.trans hinterrupted

/-! ## Jobs to hand over -/

/-- One for a job that is to be handed over. -/
def Call.submits : Call α σ → Nat
  | .submit _ => 1
  | _ => 0

/-- One for a job that is being handed over and not counted yet. -/
def Owner.submits : Owner α → Nat
  | .counting _ => 1
  | _ => 0

/-- The jobs to hand over and those handed over and not finished, and one more for the
job that was not handed over because no worker had started. -/
def Threads.submits (s : Threads α σ) : Nat :=
  (s.todo.map Call.submits).sum + s.owner.submits + s.pool.outstanding +
    if s.pool.maxWorkers = 0 then 1 else 0

theorem Move.submits_le (h : Move job s t) : t.submits ≤ s.submits := by
  unfold Threads.submits
  rw [h.maxWorkers_eq]
  apply Nat.add_le_add_right
  cases h with
  | grow h =>
      rw [growWorkers_of_lt h]
      simp only [List.map_cons, List.sum_cons, Call.submits, Owner.submits]
      omega
  | reuse h =>
      rw [growWorkers_of_le h]
      simp only [List.map_cons, List.sum_cons, Call.submits, Owner.submits]
      omega
  | advanceInline h | advance h =>
      obtain ⟨shared, rfl⟩ := h.pool_eq
      exact le_rfl
  | drain =>
      rw [drain_outstanding]
      simp [Call.submits]
  | count =>
      simp only [Owner.submits, enqueue]
      omega
  | finish =>
      exact Nat.add_le_add_left (Nat.sub_le _ 1) _
  | takeInline | note => simp [Call.submits, Owner.submits]
  | _ => exact le_rfl

theorem Step.submits_le (h : Step (Turn job) s t) (hs : s.Sound) : t.submits ≤ s.submits := by
  cases h with
  | interrupt => exact le_rfl
  | turn h =>
      cases h with
      | move h => exact h.submits_le
      | unstarted h hsome =>
          have hstarted := hs.started
          have hpos := List.length_pos_iff.mpr hsome
          simp only [Threads.submits, List.map_cons, List.sum_cons, Call.submits, Owner.submits]
          dsimp only at hstarted
          rw [if_neg (by omega), if_neg (by omega)]
          omega
      | unstaffed h =>
          simp only [Threads.submits, List.map_cons, List.sum_cons, Call.submits, Owner.submits]
          rw [if_neg (Nat.ne_of_gt (Nat.zero_lt_of_lt h))]
          split <;> omega

/-- An owner that waits in vain had two jobs to hand over. -/
theorem Threads.Stranded.two_le_submits (h : s.Stranded) : 2 ≤ s.submits := by
  have hpos := h.unfinished
  rw [Threads.submits, if_pos h.capped]
  omega

theorem Reaches.submits_le (h : Reaches (Turn job) s t) (hs : s.Sound) :
    t.Sound ∧ t.submits ≤ s.submits := by
  induction h with
  | refl => exact ⟨hs, le_rfl⟩
  | tail _ hstep ih => exact ⟨hstep.sound ih.1, (hstep.submits_le ih.1).trans ih.2⟩

theorem Reaches.interrupted_mono (h : Reaches (Turn job) s t) (hs : s.pool.interrupted = true) :
    t.pool.interrupted = true := by
  induction h with
  | refl => exact hs
  | tail _ hstep ih => exact hstep.interrupted_mono ih

/-! ## No worker -/

variable (job) (pool : DecodePool σ) (queue : List α) (item : α) (calls : List (Call α σ))
  (answers : List (Except Error Unit))

/-- A job that is handed over when there is no worker, nor may be one. -/
theorem reaches_queued (hroom : pool.maxWorkers = 0) :
    Reaches (Turn job) ⟨pool, queue, [], .ready, .submit item :: calls, answers⟩
      ⟨pool.enqueue, queue ++ [item], [], .ready, calls, answers⟩ := by
  have hle : pool.maxWorkers ≤ pool.workers := hroom ▸ Nat.zero_le _
  have hreuse : Move job ⟨pool, queue, [], .ready, .submit item :: calls, answers⟩ _ := .reuse hle
  rw [growWorkers_of_le hle] at hreuse
  exact Reaches.of_moves (.head (.turn hreuse) (.head (.turn .count) (.single (.turn .send))))

/-- A job that is handed over when the first worker does not start. -/
theorem reaches_unstaffed (hnone : pool.workers = 0) (hroom : 0 < pool.maxWorkers) :
    Reaches (Turn job) ⟨pool, queue, [], .ready, .submit item :: calls, answers⟩
      ⟨runInline { pool with maxWorkers := pool.workers } (job item), queue, [], .ready, calls,
        answers⟩ :=
  .head (.turn (.unstaffed (hnone ▸ hroom)))
    (Reaches.of_moves (reaches_inlined job _ item calls answers queue []))

end DocumentCache.DecodePool

namespace DocumentCache.Cache

open DecodePool

/-! ## Scans without workers -/

theorem sum_submits_scanCalls (background : Bool) (pending : List Pending) :
    ((scanCalls background pending).map Call.submits).sum =
      if background then pending.length - 1 else 0 := by
  induction pending with
  | nil => simp [scanCalls]
  | cons first rest ih =>
      cases background with
      | false => exact (Nat.zero_add _).trans ih
      | true =>
          cases rest with
          | nil => rfl
          | cons second others =>
              have hcalls : scanCalls true (first :: second :: others) =
                  .note countBackground :: .submit first :: scanCalls true (second :: others) := rfl
              rw [hcalls, List.map_cons, List.map_cons, List.sum_cons, List.sum_cons, ih]
              simp only [Call.submits, if_true, List.length_cons]
              omega

/-- Without any worker every row but the last is put into the queue, and stays there. -/
theorem exists_stranded_of_unstaffed (codec : Codec) (query : Query) (pending : List Pending)
    (pool : DecodePool Matches) (queue : List Pending) (hroom : pool.maxWorkers = 0)
    (hcalm : pool.interrupted = false) (hpos : 0 < pool.outstanding + (pending.length - 1)) :
    ∃ last, Reaches (Turn (matchJob codec query))
      ⟨pool, queue, [], .ready, scanCalls true pending ++ [.drain], []⟩ last ∧ last.Stranded := by
  induction pending generalizing pool queue with
  | nil => exact ⟨_, .refl, rfl, hroom, rfl, ⟨[], rfl⟩, hpos, hcalm⟩
  | cons first rest ih =>
      cases rest with
      | nil =>
          have hleads := runInline_leads codec query pool first
          have hreach := reaches_inlined (matchJob codec query) pool first [.drain] [] queue []
          refine ⟨_, .head (.turn (.move .takeInline)) hreach.of_moves, rfl,
            (runInline_maxWorkers pool _).trans hroom, rfl, ⟨[], rfl⟩, ?_,
            hleads.interrupted_eq.trans hcalm⟩
          exact hleads.outstanding_eq ▸ hpos
      | cons second others =>
          have hlater : 0 < pool.outstanding + 1 + ((second :: others).length - 1) :=
            Nat.lt_add_right _ (Nat.succ_pos _)
          obtain ⟨last, hreach, hstranded⟩ := ih
            (enqueue { pool with shared := countBackground pool.shared }) (queue ++ [first])
            hroom hcalm hlater
          refine ⟨last, .head (.turn (.move .note)) (Relation.ReflTransGen.trans ?_ hreach),
            hstranded⟩
          exact reaches_queued _ _ queue first _ [] hroom

/-- If the first worker does not start, two more rows leave the caller waiting. -/
theorem exists_stranded_of_unstarted (codec : Codec) (query : Query)
    (first second third : Pending) (rest : List Pending) (pool : DecodePool Matches)
    (hnone : pool.workers = 0) (hroom : 0 < pool.maxWorkers) (hcalm : pool.interrupted = false) :
    ∃ last, Reaches (Turn (matchJob codec query))
      ⟨pool, [], [], .ready, scanCalls true (first :: second :: third :: rest) ++ [.drain], []⟩
        last ∧ last.Stranded := by
  have hleads := runInline_leads codec query
    { pool with shared := countBackground pool.shared, maxWorkers := pool.workers } first
  obtain ⟨last, hreach, hstranded⟩ := exists_stranded_of_unstaffed codec query
    (second :: third :: rest) _ [] ((runInline_maxWorkers _ _).trans hnone)
    (hleads.interrupted_eq.trans hcalm) (Nat.lt_add_left _ (Nat.succ_pos _))
  refine ⟨last, .head (.turn (.move .note)) (Relation.ReflTransGen.trans ?_ hreach), hstranded⟩
  exact reaches_unstaffed _ { pool with shared := countBackground pool.shared } [] first _ []
    hnone hroom

section Scan

variable {σ ι : Type} (cache : Cache σ ι) (query : Query) (interrupted : Bool)
  (pending : List Pending)

/-- A scan hands over all rows but the last, or none. -/
theorem submits_scanThreads : (cache.scanThreads interrupted pending).submits =
    if cache.settings.parallelThreshold ≤ pending.length then pending.length - 1 else 0 := by
  have hroom : (cache.scanPool interrupted pending).maxWorkers ≠ 0 :=
    Nat.ne_of_gt (cache.scanPool_room interrupted pending)
  have hcalls := sum_submits_scanCalls (cache.settings.parallelThreshold ≤ pending.length) pending
  rw [Threads.submits, scanThreads, Threads.start, if_neg hroom, List.map_append, List.sum_append,
    hcalls]
  simp [Call.submits, Owner.submits, scanPool, DecodePool.create]

/-- The scans that may come to wait in vain are those that hand over two rows or more. -/
theorem scan_strands_iff :
    (∃ last, Reaches (Turn (matchJob cache.codec query))
        (cache.scanThreads interrupted pending) last ∧ last.Stranded) ↔
      interrupted = false ∧ cache.settings.parallelThreshold ≤ pending.length ∧
        3 ≤ pending.length := by
  constructor
  · rintro ⟨last, hreach, hstranded⟩
    have htwo := hstranded.two_le_submits.trans
      (hreach.submits_le (cache.scanThreads_sound interrupted pending)).2
    rw [submits_scanThreads] at htwo
    split at htwo
    · next hbackground =>
        refine ⟨?_, hbackground, by omega⟩
        cases interrupted with
        | false => rfl
        | true => exact (hreach.interrupted_mono rfl).symm.trans hstranded.calm
    · omega
  · rintro ⟨rfl, hbackground, hthree⟩
    match pending, hthree with
    | first :: second :: third :: rest, _ =>
        unfold scanThreads Threads.start
        rw [decide_eq_true hbackground]
        exact exists_stranded_of_unstarted cache.codec query first second third rest _ rfl
          (cache.scanPool_room false _) rfl

/-- Any other scan returns, whichever workers do not start. -/
theorem scan_returns_of_few
    (h : cache.settings.parallelThreshold ≤ pending.length → pending.length ≤ 2) :
    Inevitable (Turn (matchJob cache.codec query)) (fun last => ∃ result, Returns last result)
      (cache.scanThreads interrupted pending) := by
  apply (scan_returns_or_strands cache query interrupted pending).imp
  rintro last hreach (hreturns | hstranded)
  · exact hreturns
  · obtain ⟨-, hbackground, hthree⟩ :=
      (cache.scan_strands_iff query interrupted pending).mp ⟨last, hreach, hstranded⟩
    exact absurd (h hbackground) (Nat.not_le.mpr hthree)

/-- So does one that the interrupt reaches, wherever its threads are then. -/
theorem scan_returns_of_interrupted {last : Threads Pending Matches}
    (hreach : Reaches (Turn (matchJob cache.codec query))
      (cache.scanThreads interrupted pending) last)
    (hinterrupted : last.pool.interrupted = true) :
    Inevitable (Turn (matchJob cache.codec query)) (fun last => ∃ result, Returns last result)
      last := by
  have hsound := (hreach.submits_le (cache.scanThreads_sound interrupted pending)).1
  exact (hsound.closes_of_interrupted hinterrupted).imp
    fun _ hmore => exists_returns (hreach.trans hmore)

end Scan

end DocumentCache.Cache
