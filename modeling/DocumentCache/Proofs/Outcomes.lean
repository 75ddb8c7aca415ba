import DocumentCache.Model.Fault

/-!
# Outcomes

Steps one behind another succeed when each does on what the one before it gave.  A
failure may be told as one of another kind; most failures of the cache are those of
a corrupt record, and steps that fail for nothing else fail for nothing else
together.
-/

namespace DocumentCache

variable {ε ε' α β : Type}

theorem bind_eq_ok_iff {result : Except ε α} {next : α → Except ε β} {value : β} :
    (result >>= next) = .ok value ↔ ∃ middle, result = .ok middle ∧ next middle = .ok value := by
  constructor
  · intro h
    cases result with
    | error error => cases h
    | ok middle => exact ⟨middle, rfl, h⟩
  · rintro ⟨middle, rfl, h⟩
    exact h

@[simp]
theorem mapError_ok (f : ε → ε') (value : α) : (Except.ok value).mapError f = .ok value := rfl

@[simp]
theorem mapError_error (f : ε → ε') (error : ε) :
    (Except.error error : Except ε α).mapError f = .error (f error) := rfl

theorem mapError_eq_ok_iff {result : Except ε α} {f : ε → ε'} {value : α} :
    result.mapError f = .ok value ↔ result = .ok value := by
  cases result with
  | error error => simp
  | ok held => simp

/-- If this fails, it is for a corrupt record. -/
def FailsCorrupt (result : Except Error α) : Prop :=
  ∀ error, result = .error error → ∃ fault, error = .corruptRecord fault

namespace FailsCorrupt

theorem ok (value : α) : FailsCorrupt (.ok value) := fun _ h => by cases h

theorem corrupt (fault : Corruption) :
    FailsCorrupt (.error (.corruptRecord fault) : Except Error α) :=
  fun _ h => ⟨fault, (Except.error.inj h).symm⟩

theorem bind {result : Except Error α} {next : α → Except Error β} (h : FailsCorrupt result)
    (hnext : ∀ value, FailsCorrupt (next value)) : FailsCorrupt (result >>= next) := by
  cases result with
  | ok value => exact hnext value
  | error error =>
      obtain ⟨fault, rfl⟩ := h error rfl
      exact corrupt fault

theorem mapError (result : Except ε α) (fault : ε → Corruption) :
    FailsCorrupt (result.mapError fun cause => Error.corruptRecord (fault cause)) := by
  cases result with
  | ok value => exact ok value
  | error cause => exact corrupt (fault cause)

theorem foldlM {step : β → α → Except Error β} {items : List α}
    (hstep : ∀ item ∈ items, ∀ held, FailsCorrupt (step held item)) (held : β) :
    FailsCorrupt (items.foldlM step held) := by
  induction items generalizing held with
  | nil => exact .ok held
  | cons item rest ih =>
      obtain ⟨hitem, hrest⟩ := List.forall_mem_cons.mp hstep
      rw [List.foldlM_cons]
      exact .bind (hitem held) (ih hrest)

/-- What is not done failed for a corrupt record. -/
theorem exists_fault {result : Except Error α} (h : FailsCorrupt result)
    (hnot : ∀ value, result ≠ .ok value) : ∃ fault, result = .error (.corruptRecord fault) := by
  cases result with
  | ok value => exact absurd rfl (hnot value)
  | error error =>
      obtain ⟨fault, rfl⟩ := h error rfl
      exact ⟨fault, rfl⟩

end FailsCorrupt

end DocumentCache
