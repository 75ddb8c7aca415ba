import DocumentCache.Proofs.Cache.PoolEvents

/-!
# What the drains of a pool answer

However the turns of its threads come, a pool counts the jobs that it was handed and that are
not finished.  While the interrupt has not come, the jobs given since the last drain are those
run or skipped since then and those that threads still hold, the failures of the ones that were
run are recorded or about to be, and the first that was recorded stands in the pool.  So a drain
that finds none has waited for all jobs and none of them has failed.
-/

namespace DocumentCache.DecodePool

variable {α σ : Type} {job : α → Job σ} {s t : Threads α σ}

/-! ## Since the last drain -/

theorem filterMap_concat {β γ : Type} (f : β → Option γ) (items : List β) (item : β) :
    (items ++ [item]).filterMap f = items.filterMap f ++ (f item).toList := by
  rw [List.filterMap_append]
  cases hitem : f item <;> simp [hitem]

namespace Event

def isDrain : Event α → Bool
  | .drained _ => true
  | _ => false

def ran? : Event α → Option α
  | .ran item _ => some item
  | _ => none

def skipped? : Event α → Option α
  | .skipped item => some item
  | _ => none

/-- The failure of a job that was run. -/
def failure? : Event α → Option Error
  | .ran _ failure => failure
  | _ => none

def recorded? : Event α → Option Error
  | .recorded failure => failure
  | _ => none

/-- The events behind the last drain. -/
def sinceDrain (log : List (Event α)) : List (Event α) :=
  log.rtakeWhile fun event => !event.isDrain

theorem sinceDrain_drained (log : List (Event α)) (answer : Except Error Unit) :
    sinceDrain (log ++ [.drained answer]) = [] :=
  List.rtakeWhile_concat_neg _ _ _ (by simp [isDrain])

theorem sinceDrain_concat (log : List (Event α)) {event : Event α} (h : event.isDrain = false) :
    sinceDrain (log ++ [event]) = sinceDrain log ++ [event] :=
  List.rtakeWhile_concat_pos _ _ _ (by simp [h])

end Event

namespace Call

def isDrain : Call α σ → Bool
  | .drain => true
  | _ => false

/-- The jobs that these calls give behind the last drain among them. -/
def given (calls : List (Call α σ)) : List α :=
  (calls.rtakeWhile fun call => !call.isDrain).filterMap item?

theorem given_drain (calls : List (Call α σ)) : given (calls ++ [.drain]) = [] := by
  rw [given, List.rtakeWhile_concat_neg _ _ _ (by simp [isDrain])]
  rfl

theorem given_concat (calls : List (Call α σ)) {call : Call α σ} (h : call.isDrain = false) :
    given (calls ++ [call]) = given calls ++ call.item?.toList := by
  rw [given, List.rtakeWhile_concat_pos _ _ _ (by simp [h]), filterMap_concat, given]

end Call

/-! ## Accounts that balance -/

/-- The jobs given since the last drain and the failures of those that were run, when the owner
has made the calls `made`, these are the events since then, and `held`, `pending` and `failure`
are with the threads and in the pool. -/
structure Balanced (made : List (Call α σ)) (since : List (Event α)) (held : Multiset α)
    (pending : Multiset Error) (failure : Option Error) : Prop where
  given : (Call.given made : Multiset α) =
    (since.filterMap Event.ran? : Multiset α) + (since.filterMap Event.skipped? : Multiset α) + held
  failed : (since.filterMap Event.failure? : Multiset Error) =
    (since.filterMap Event.recorded? : Multiset Error) + pending
  first : failure = (since.filterMap Event.recorded?).head?
  excused : since.filterMap Event.skipped? ≠ [] → since.filterMap Event.recorded? ≠ []

namespace Balanced

variable {made : List (Call α σ)} {since : List (Event α)} {item : α} {held : Multiset α}
  {pending : Multiset Error} {failure ended : Option Error}

theorem nil : Balanced ([] : List (Call α σ)) [] 0 0 none :=
  ⟨rfl, rfl, rfl, fun h => absurd rfl h⟩

theorem drain (made : List (Call α σ)) : Balanced (made ++ [.drain]) [] 0 0 none := by
  refine ⟨?_, rfl, rfl, fun h => absurd rfl h⟩
  rw [Call.given_drain]
  rfl

theorem give (h : Balanced made since held pending failure) {call : Call α σ}
    (hitem : call.item? = some item) :
    Balanced (made ++ [call]) since ({item} + held) pending failure := by
  have hcall : call.isDrain = false := by
    cases call with
    | drain => cases hitem
    | _ => rfl
  refine ⟨?_, h.failed, h.first, h.excused⟩
  rw [Call.given_concat _ hcall, hitem, ← Multiset.coe_add, h.given, Option.toList_some,
    Multiset.coe_singleton, add_assoc, add_comm held]

theorem note (h : Balanced made since held pending failure) (change : σ → σ) :
    Balanced (made ++ [.note change]) since held pending failure := by
  refine ⟨?_, h.failed, h.first, h.excused⟩
  rw [Call.given_concat _ rfl]
  simpa [Call.item?] using h.given

theorem run (h : Balanced made since ({item} + held) pending failure) (ended : Option Error) :
    Balanced made (since ++ [.ran item ended]) held (ended.toList + pending) failure := by
  refine ⟨?_, ?_, ?_, ?_⟩ <;> simp only [filterMap_concat, ← Multiset.coe_add]
  · rw [h.given]
    simp only [Event.ran?, Event.skipped?, Option.toList_some, Option.toList_none,
      Multiset.coe_singleton, Multiset.coe_nil]
    abel
  · rw [h.failed]
    simp only [Event.failure?, Event.recorded?, Option.toList_none, Multiset.coe_nil]
    abel
  · simpa [Event.recorded?] using h.first
  · simpa [Event.skipped?, Event.recorded?] using h.excused

theorem skip (h : Balanced made since ({item} + held) pending failure) (hfailure : failure ≠ none) :
    Balanced made (since ++ [.skipped item]) held pending failure := by
  have hrecorded : since.filterMap Event.recorded? ≠ [] := by
    intro hnone
    rw [h.first, hnone] at hfailure
    exact hfailure rfl
  refine ⟨?_, ?_, ?_, ?_⟩ <;> simp only [filterMap_concat, ← Multiset.coe_add]
  · rw [h.given]
    simp only [Event.ran?, Event.skipped?, Option.toList_some, Option.toList_none,
      Multiset.coe_singleton, Multiset.coe_nil]
    abel
  · simpa [Event.failure?, Event.recorded?] using h.failed
  · simpa [Event.recorded?] using h.first
  · exact fun _ hnone => hrecorded (List.append_eq_nil_iff.mp hnone).1

theorem record (h : Balanced made since held (ended.toList + pending) failure) :
    Balanced made (since ++ [.recorded ended]) held pending (failure.or ended) := by
  refine ⟨?_, ?_, ?_, ?_⟩ <;> simp only [filterMap_concat, ← Multiset.coe_add]
  · simpa [Event.ran?, Event.skipped?] using h.given
  · rw [h.failed]
    simp only [Event.failure?, Event.recorded?, Option.toList_none, Multiset.coe_nil]
    abel
  · rw [List.head?_append, h.first]
    cases ended <;> rfl
  · intro hskipped hnone
    exact h.excused (by simpa [Event.skipped?] using hskipped) (List.append_eq_nil_iff.mp hnone).1

end Balanced

/-- The owner has made some of its calls and, until the interrupt comes, all is accounted for. -/
def Kept (calls : List (Call α σ)) (log : List (Event α)) (account : Account α σ) : Prop :=
  ∃ made, calls = made ++ account.todo ∧ (account.interrupted = false →
    Balanced made (Event.sinceDrain log) account.held account.pending account.failure)

theorem Tells.kept {calls : List (Call α σ)} {log events : List (Event α)}
    (h : Tells job s t events)
    (hrest : Drains s t → s.pool.interrupted = false → s.account.held = 0 ∧ s.account.pending = 0)
    (hs : Kept calls log s.account) : Kept calls (log ++ events) t.account := by
  obtain ⟨made, hcalls, hbalanced⟩ := hs
  cases h with
  | quiet h =>
      rw [h, List.append_nil]
      exact ⟨made, hcalls, hbalanced⟩
  | gives item call hitem htodo h =>
      have htodo : s.account.todo = call :: t.todo := htodo
      rw [htodo] at hcalls
      rw [h, List.append_nil]
      exact ⟨made ++ [call], by simpa using hcalls, fun hcalm => (hbalanced hcalm).give hitem⟩
  | notes change htodo h =>
      have htodo : s.account.todo = .note change :: t.todo := htodo
      rw [htodo] at hcalls
      rw [h, List.append_nil]
      refine ⟨made ++ [.note change], by simpa using hcalls, ?_⟩
      exact fun hcalm => (hbalanced hcalm).note change
  | runs item hheld h =>
      rw [hheld] at hbalanced
      rw [h]
      refine ⟨made, hcalls, fun hcalm => ?_⟩
      rw [Event.sinceDrain_concat _ rfl]
      exact (hbalanced hcalm).run _
  | skips item hheld hexcuse h =>
      rw [hheld] at hbalanced
      rw [h]
      refine ⟨made, hcalls, fun hcalm => ?_⟩
      rw [Event.sinceDrain_concat _ rfl]
      have hcalm : s.pool.interrupted = false := hcalm
      exact (hbalanced hcalm).skip (hexcuse.resolve_left (by simp [hcalm]))
  | records failure hpending h =>
      rw [hpending] at hbalanced
      rw [h]
      refine ⟨made, hcalls, fun hcalm => ?_⟩
      rw [Event.sinceDrain_concat _ rfl]
      exact (hbalanced hcalm).record
  | drains hdrains h =>
      have hzero := hrest hdrains
      obtain ⟨_, _, rest, htodo, rfl⟩ := hdrains
      have htodo : s.account.todo = .drain :: rest := htodo
      rw [htodo] at hcalls
      rw [h]
      refine ⟨made ++ [.drain], by simpa using hcalls, fun hcalm => ?_⟩
      have hcalm : s.pool.interrupted = false := hcalm
      -- Nothing is left open behind a drain that was not interrupted.
      rw [Event.sinceDrain_drained, (hzero hcalm).1, (hzero hcalm).2, drain_failure hcalm]
      exact .drain made
  | interrupts h =>
      rw [h]
      exact ⟨made, hcalls, fun hcalm => nomatch hcalm⟩

/-! ## Jobs handed over -/

def Worker.item? : Worker α → Option α
  | .busy item _ => some item
  | _ => none

/-- The job that is counted and on its way into the queue. -/
def Owner.sent? : Owner α → Option α
  | .sending item => some item
  | _ => none

/-- The jobs handed over that no worker has finished: those that wait, and those taken. -/
def Threads.unfinished (s : Threads α σ) : List α :=
  s.owner.sent?.toList ++ s.queue ++ s.workers.filterMap Worker.item?

theorem length_filterMap_item? (workers : List (Worker α)) :
    (workers.filterMap Worker.item?).length = (workers.map Worker.load).sum := by
  induction workers with
  | nil => rfl
  | cons worker workers ih =>
      cases worker with
      | busy item stage => simp [Worker.item?, Worker.load, ih, Nat.add_comm]
      | idle | stopped => simpa [List.filterMap_cons, Worker.item?, Worker.load] using ih

theorem Threads.length_unfinished (s : Threads α σ) :
    s.unfinished.length = s.queue.length + s.owner.load + (s.workers.map Worker.load).sum := by
  have howner : s.owner.sent?.toList.length = s.owner.load := by cases s.owner <;> rfl
  rw [unfinished, List.length_append, List.length_append, howner, length_filterMap_item?]
  omega

theorem Acts.counted {events : List (Event α)} (h : Acts job s events t)
    (hs : s.pool.outstanding = s.queue.length + s.owner.load + (s.workers.map Worker.load).sum) :
    t.pool.outstanding = t.queue.length + t.owner.load + (t.workers.map Worker.load).sum := by
  cases h with
  | interrupt => exact hs
  | turn h =>
      cases h with
      | move h => exact h.counted hs
      | unstarted | unstaffed => exact hs

/-- While no job is outstanding and the owner is ready, nobody holds a job or a failure. -/
theorem Threads.account_at_rest (hcounted : s.pool.outstanding =
      s.queue.length + s.owner.load + (s.workers.map Worker.load).sum)
    (howner : s.owner = .ready) (hzero : s.pool.outstanding = 0) :
    s.account.held = 0 ∧ s.account.pending = 0 := by
  obtain ⟨hqueue, hworkers⟩ := Threads.at_rest hcounted hzero
  have hleft : (s.workers.map Worker.left).sum = 0 :=
    List.sum_eq_zero (List.forall_mem_map.mpr fun worker hmem => (hworkers worker hmem).1)
  have hpending : (s.workers.map Worker.pending).sum = 0 := by
    refine List.sum_eq_zero (List.forall_mem_map.mpr fun worker hmem => ?_)
    rw [Worker.pending, (hworkers worker hmem).2]
    rfl
  rw [Threads.account, howner, hqueue, hleft, hpending]
  exact ⟨rfl, rfl⟩

/-! ## Runs -/

theorem Tells.interrupted_iff {events : List (Event α)} (h : Tells job s t events) :
    t.pool.interrupted = true ↔ s.pool.interrupted = true ∨ .interrupted ∈ events := by
  cases h with
  | interrupts h =>
      have hinterrupted : t.pool.interrupted = true := congrArg Account.interrupted h
      simp [hinterrupted]
  | quiet h | gives _ _ _ _ h | notes _ _ h | runs _ _ h | skips _ _ _ h | records _ _ h
  | drains _ h =>
      have hinterrupted : t.pool.interrupted = s.pool.interrupted :=
        congrArg Account.interrupted h
      simp [hinterrupted]

/-- What holds whenever some turns were taken. -/
structure Ledger (interrupted : Bool) (calls : List (Call α σ)) (log : List (Event α))
    (s : Threads α σ) : Prop where
  counted : s.pool.outstanding =
    s.queue.length + s.owner.load + (s.workers.map Worker.load).sum
  fired : s.pool.interrupted = true ↔ interrupted = true ∨ .interrupted ∈ log
  kept : Kept calls log s.account

namespace Ledger

variable {interrupted : Bool} {calls : List (Call α σ)} {log : List (Event α)}

theorem start (maxWorkers : Nat) (interrupted : Bool) (shared : σ) (calls : List (Call α σ)) :
    Ledger interrupted calls [] (.start (.create maxWorkers interrupted shared) calls) where
  counted := rfl
  fired := by simp [Threads.start, create]
  kept := ⟨[], rfl, fun _ => .nil⟩

theorem at_drain (hs : Ledger interrupted calls log s) (h : Drains s t)
    (hcalm : s.pool.interrupted = false) :
    s.pool.outstanding = 0 ∧ s.account.held = 0 ∧ s.account.pending = 0 := by
  obtain ⟨howner, henabled, -⟩ := h
  have hzero := henabled.resolve_right (by simp [hcalm])
  exact ⟨hzero, Threads.account_at_rest hs.counted howner hzero⟩

theorem next {events : List (Event α)} (hs : Ledger interrupted calls log s)
    (h : Acts job s events t) : Ledger interrupted calls (log ++ events) t where
  counted := h.counted hs.counted
  fired := by rw [h.tells.interrupted_iff, hs.fired, List.mem_append, or_assoc]
  kept := h.tells.kept (fun hdrains hcalm => (hs.at_drain hdrains hcalm).2) hs.kept

end Ledger

/-- What threads reach they reach with some events. -/
theorem Runs.of_reaches {start : Threads α σ} (h : Reaches (Turn job) start s) :
    ∃ log, Runs job start log s := by
  induction h with
  | refl => exact ⟨[], .start⟩
  | tail _ hstep ih =>
      obtain ⟨log, hlog⟩ := ih
      cases hstep with
      | turn h => exact ⟨_, .act hlog (.turn h)⟩
      | interrupt h => exact ⟨_, .act hlog (.interrupt h)⟩

theorem Runs.ledger {maxWorkers : Nat} {interrupted : Bool} {shared : σ}
    {calls : List (Call α σ)} {log : List (Event α)}
    (h : Runs job (.start (.create maxWorkers interrupted shared) calls) log s) :
    Ledger interrupted calls log s := by
  induction h with
  | start => exact .start maxWorkers interrupted shared calls
  | act _ hact ih => exact ih.next hact

/-- What a drain answers, for the jobs given and the events since the last one. -/
structure Reports (given : List α) (since : List (Event α)) (s : Threads α σ)
    (answer : Except Error Unit) : Prop where
  interrupted : s.pool.interrupted = true →
    answer = .error (.interrupted (.outstanding s.pool.outstanding))
  first : s.pool.interrupted = false →
    answer = match (since.filterMap Event.recorded?).head? with
      | some error => .error error
      | none => .ok ()
  failed : (∃ item error, .ran item (some error) ∈ since) → answer ≠ .ok ()
  /-- All jobs given have run once each, and none has failed. -/
  done : answer = .ok () → s.pool.outstanding = 0 ∧
    (given : Multiset α) = (since.filterMap Event.ran? : Multiset α) ∧
    ∀ event ∈ since, event.skipped? = none ∧ event.failure? = none

theorem Reports.of_interrupted (given : List α) (since : List (Event α))
    (h : s.pool.interrupted = true) : Reports given since s s.pool.drain.1 := by
  rw [drain_of_interrupted h]
  refine ⟨fun _ => rfl, ?_, fun _ => nofun, nofun⟩
  intro hcalm
  rw [h] at hcalm
  cases hcalm

theorem Balanced.reports {made : List (Call α σ)} {since : List (Event α)}
    (h : Balanced made since 0 0 s.pool.failure) (hcalm : s.pool.interrupted = false)
    (hzero : s.pool.outstanding = 0) : Reports (Call.given made) since s s.pool.drain.1 := by
  obtain ⟨hgiven, hfailed, hfirst, hexcused⟩ := h
  rw [add_zero] at hgiven hfailed
  have hfailed := Multiset.coe_eq_coe.mp hfailed
  have hanswer := drain_of_calm hcalm
  rw [hfirst] at hanswer
  have hnone : s.pool.drain.1 = .ok () → since.filterMap Event.recorded? = [] := by
    intro hok
    rw [hanswer] at hok
    cases hrecorded : since.filterMap Event.recorded? with
    | nil => rfl
    | cons error others =>
        rw [hrecorded] at hok
        cases hok
  refine ⟨?_, fun _ => hanswer, ?_, ?_⟩
  · intro hinterrupted
    rw [hcalm] at hinterrupted
    cases hinterrupted
  · rintro ⟨item, error, hmem⟩ hok
    have herror : error ∈ since.filterMap Event.failure? :=
      List.mem_filterMap.mpr ⟨_, hmem, rfl⟩
    rw [hfailed.mem_iff, hnone hok] at herror
    cases herror
  · intro hok
    have hskipped : since.filterMap Event.skipped? = [] := by
      by_contra hskipped
      exact hexcused hskipped (hnone hok)
    rw [hnone hok, List.perm_nil] at hfailed
    rw [hskipped, Multiset.coe_nil, add_zero] at hgiven
    refine ⟨hzero, hgiven, ?_⟩
    intro event hmem
    exact ⟨List.filterMap_eq_nil_iff.mp hskipped event hmem,
      List.filterMap_eq_nil_iff.mp hfailed event hmem⟩

/-- What the events of a turn stand for, for the jobs given and the events since the last drain. -/
structure Faithful (job : α → Job σ) (given : List α) (since : List (Event α))
    (s : Threads α σ) (events : List (Event α)) (t : Threads α σ) : Prop where
  ran : ∀ item failure, .ran item failure ∈ events →
    failure = ((job item).run s.pool.shared).1.failure? ∧
      t.pool.shared = ((job item).run s.pool.shared).2
  /-- Without a job that is run, only the owner changes the shared result. -/
  unran : (∀ item failure, .ran item failure ∉ events) →
    t.pool.shared = s.pool.shared ∨
      ∃ change, s.todo = .note change :: t.todo ∧ t.pool.shared = change s.pool.shared
  skipped : ∀ item, .skipped item ∈ events →
    s.pool.interrupted = true ∨ since.filterMap Event.recorded? ≠ []
  drained : ∀ answer, .drained answer ∈ events → Reports given since s answer

theorem Tells.ran {events : List (Event α)} (h : Tells job s t events) (item : α)
    (failure : Option Error) (hmem : .ran item failure ∈ events) :
    failure = ((job item).run s.pool.shared).1.failure? ∧
      t.pool.shared = ((job item).run s.pool.shared).2 := by
  cases h with
  | runs other _ h =>
      obtain ⟨rfl, rfl⟩ : item = other ∧ failure = _ := by simpa using hmem
      exact ⟨rfl, congrArg Account.shared h⟩
  | _ => simp at hmem

theorem Tells.unran {events : List (Event α)} (h : Tells job s t events)
    (hnone : ∀ item failure, .ran item failure ∉ events) :
    t.pool.shared = s.pool.shared ∨
      ∃ change, s.todo = .note change :: t.todo ∧ t.pool.shared = change s.pool.shared := by
  cases h with
  | notes change htodo h => exact .inr ⟨change, htodo, congrArg Account.shared h⟩
  | runs item => exact absurd List.mem_cons_self (hnone item _)
  | quiet h | gives _ _ _ _ h | skips _ _ _ h | records _ _ h | drains _ h | interrupts h =>
      exact .inl (congrArg Account.shared h)

/-- While the owner has made the calls `made`, its threads do what their events say. -/
theorem Ledger.faithful {interrupted : Bool} {calls made : List (Call α σ)}
    {log events : List (Event α)} (hs : Ledger interrupted calls log s)
    (hmade : s.pool.interrupted = false → Balanced made (Event.sinceDrain log) s.account.held
      s.account.pending s.pool.failure)
    (h : Tells job s t events) :
    Faithful job (Call.given made) (Event.sinceDrain log) s events t where
  ran := h.ran
  unran := h.unran
  skipped item hmem := by
    cases hinterrupted : s.pool.interrupted with
    | true => exact .inl rfl
    | false =>
        right
        intro hnone
        -- What the thread has seen in the pool is the first failure recorded.
        cases h with
        | skips _ _ hexcuse _ =>
            refine hexcuse.elim (by simp [hinterrupted]) ?_
            rw [(hmade hinterrupted).first, hnone]
            exact fun h => h rfl
        | _ => simp at hmem
  drained answer hmem := by
    cases h with
    | drains hdrains _ =>
        obtain rfl : answer = s.pool.drain.1 := by simpa using hmem
        cases hinterrupted : s.pool.interrupted with
        | true => exact .of_interrupted _ _ hinterrupted
        | false =>
            obtain ⟨hzero, hheld, hpending⟩ := hs.at_drain hdrains hinterrupted
            have hbalanced := hmade hinterrupted
            rw [hheld, hpending] at hbalanced
            exact hbalanced.reports hinterrupted hzero
    | _ => simp at hmem

/-- However the turns come, the jobs handed over and not finished are counted, a job is skipped
only behind a failure or the interrupt, and a drain answers for all jobs since the last one. -/
theorem pool_joins (maxWorkers : Nat) (interrupted : Bool) (shared : σ) (calls : List (Call α σ))
    {log : List (Event α)}
    (h : Runs job (.start (.create maxWorkers interrupted shared) calls) log s) :
    (s.pool.outstanding = s.unfinished.length ∧
        ∀ item stage, .busy item stage ∈ s.workers → 0 < s.pool.outstanding) ∧
      (s.pool.interrupted = true ↔ interrupted = true ∨ .interrupted ∈ log) ∧
      ∃ made, calls = made ++ s.todo ∧ ∀ events t, Acts job s events t →
        Faithful job (Call.given made) (Event.sinceDrain log) s events t := by
  have hs := h.ledger
  have hcounted : s.pool.outstanding = s.unfinished.length :=
    hs.counted.trans s.length_unfinished.symm
  obtain ⟨made, hcalls, hmade⟩ := hs.kept
  refine ⟨⟨hcounted, ?_⟩, hs.fired, made, hcalls, fun _ _ hact => hs.faithful hmade hact.tells⟩
  intro item stage hmem
  have hitem : item ∈ s.unfinished :=
    List.mem_append_right _ (List.mem_filterMap.mpr ⟨_, hmem, rfl⟩)
  rw [hcounted]
  exact List.length_pos_of_mem hitem

/-- Ticket 0 ends without an outcome, and any other one is put down. -/
def ticketJob (ticket : Nat) : Job (List Nat) where
  run tickets := if ticket = 0 then (.aborted, tickets) else (.done, tickets ++ [ticket])

def ticketCalls : List (Call Nat (List Nat)) :=
  [.submit 0, .submit 1, .drain, .runInline 2, .drain, .runInline 3, .drain]

/-- The owner has seen ticket 0 fail, and is about to ask for ticket 2. -/
def calmTickets : Threads Nat (List Nat) :=
  .resting ⟨2, 2, 0, none, false, [2]⟩ [.drain, .runInline 3, .drain]
    [.error (.interrupted .aborted)]

/-- Ticket 2 was put down, and behind the interrupt ticket 3 was not. -/
def interruptedTickets : Threads Nat (List Nat) :=
  .resting ⟨2, 2, 0, none, true, [2]⟩ [.drain] [.error (.interrupted .aborted), .ok ()]

/-- The first drain reports ticket 0, the second one that ticket 2 was put down, and the third
one the interrupt, for which ticket 3 was left alone. -/
theorem pool_joins_ticketCalls :
    (∃ log t, Runs ticketJob (.start (.create 2 false []) ticketCalls) log calmTickets ∧
      Acts ticketJob calmTickets [.drained (.ok ())] t ∧
      (Event.sinceDrain log).filterMap Event.ran? = [2]) ∧
    ∃ log answer t, Runs ticketJob (.start (.create 2 false []) ticketCalls) log
        interruptedTickets ∧
      .interrupted ∈ log ∧ Acts ticketJob interruptedTickets [.drained answer] t ∧
      answer = .error (.interrupted (.outstanding 0)) := by
  have hcalm : Reaches (Turn ticketJob) (.start (.create 2 false []) ticketCalls) calmTickets :=
    Reaches.of_moves ((((reaches_submit ticketJob _ 0 _ _ (by decide)).trans
      (reaches_submit ticketJob _ 1 _ _ (by decide))).trans
        (reaches_drain ticketJob _ _ _ rfl)).trans (reaches_runInline ticketJob _ 2 _ _))
  have hdrained : Reaches (Turn ticketJob) calmTickets (.resting ⟨2, 2, 0, none, false, [2]⟩
      [.runInline 3, .drain] [.error (.interrupted .aborted), .ok ()]) :=
    Reaches.of_moves (reaches_drain ticketJob _ _ _ rfl)
  have hinterrupted : Reaches (Turn ticketJob) (.start (.create 2 false []) ticketCalls)
      interruptedTickets :=
    ((hcalm.trans hdrained).tail (.interrupt rfl)).trans
      (Reaches.of_moves (reaches_runInline ticketJob _ 3 _ _))
  constructor
  · obtain ⟨log, hlog⟩ := Runs.of_reaches hcalm
    obtain ⟨-, -, made, hmade, hnext⟩ := pool_joins 2 false [] ticketCalls hlog
    have hact : Acts ticketJob calmTickets [.drained (.ok ())] _ :=
      .turn (.move (.drain (.inl rfl)))
    refine ⟨log, _, hlog, hact, ?_⟩
    obtain ⟨-, hran, -⟩ := ((hnext _ _ hact).drained (.ok ()) List.mem_cons_self).done rfl
    have hsame : [.submit 0, .submit 1, .drain, .runInline 2] ++ calmTickets.todo =
        made ++ calmTickets.todo := hmade
    rw [← List.append_cancel_right hsame] at hran
    exact (List.singleton_perm.mp (Multiset.coe_eq_coe.mp hran)).symm
  · obtain ⟨log, hlog⟩ := Runs.of_reaches hinterrupted
    obtain ⟨-, hfired, made, -, hnext⟩ := pool_joins 2 false [] ticketCalls hlog
    have hact : Acts ticketJob interruptedTickets [.drained interruptedTickets.pool.drain.1] _ :=
      .turn (.move (.drain (.inl rfl)))
    refine ⟨log, _, _, hlog, (hfired.mp rfl).resolve_left nofun, hact, ?_⟩
    exact ((hnext _ _ hact).drained _ List.mem_cons_self).interrupted rfl

end DocumentCache.DecodePool
