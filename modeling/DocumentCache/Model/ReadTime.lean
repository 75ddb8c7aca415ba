/-!
# Read times

A read time says when the cache observed a document, in whole seconds and
nanoseconds since the epoch.  The epoch itself stands for "never read" and lies
before every other read time.  Stored columns are signed words that need not
hold a read time; reading them checks the nanoseconds first.
-/

namespace DocumentCache

structure ReadTime where
  seconds : Nat
  nanos : Nat
  seconds_lt : seconds < 9223372036854775808
  nanos_lt : nanos < 1000000000
  deriving DecidableEq

/-- Why two stored columns hold no read time. -/
inductive ReadTimeFault where
  | nanosOutOfRange (nanos : Int32)
  | negativeSeconds (seconds : Int64)
  | notAfterEpoch
  deriving DecidableEq, Repr

def ReadTimeFault.message : ReadTimeFault → String
  | .nanosOutOfRange nanos => s!"nanos out of range: {nanos.toInt}"
  | .negativeSeconds seconds => s!"seconds must not be negative: {seconds.toInt}"
  | .notAfterEpoch => "read time must be after the epoch"

namespace ReadTime

/-- Never read. -/
def never : ReadTime := ⟨0, 0, by decide, by decide⟩

instance : Inhabited ReadTime := ⟨never⟩

/-- The read time in two stored columns. -/
def ofParts (seconds : Int64) (nanos : Int32) : Except ReadTimeFault ReadTime :=
  if hnanos : 0 ≤ nanos.toInt ∧ nanos.toInt < 1000000000 then
    if hseconds : 0 ≤ seconds.toInt then
      .ok ⟨seconds.toInt.toNat, nanos.toInt.toNat,
        by have := seconds.toInt_lt; omega, by omega⟩
    else .error (.negativeSeconds seconds)
  else .error (.nanosOutOfRange nanos)

/-- The read time in two stored columns, which must lie after the epoch. -/
def ofPartsAfterEpoch (seconds : Int64) (nanos : Int32) : Except ReadTimeFault ReadTime := do
  let time ← ofParts seconds nanos
  if time = never then .error .notAfterEpoch else .ok time

def display (time : ReadTime) : String :=
  if time = never then "NONE" else s!"({time.seconds}s, {time.nanos}ns)"

/-! ## Order -/

/-- Nanoseconds since the epoch. -/
def total (time : ReadTime) : Nat := time.seconds * 1000000000 + time.nanos

theorem total_injective {left right : ReadTime} (h : left.total = right.total) :
    left = right := by
  obtain ⟨leftSeconds, leftNanos, _, hleft⟩ := left
  obtain ⟨rightSeconds, rightNanos, _, hright⟩ := right
  simp only [total] at h
  have hseconds : leftSeconds = rightSeconds := by omega
  have hnanos : leftNanos = rightNanos := by omega
  subst hseconds hnanos
  rfl

instance : LT ReadTime := ⟨fun left right => left.total < right.total⟩

instance : LE ReadTime := ⟨fun left right => left.total ≤ right.total⟩

instance (left right : ReadTime) : Decidable (left < right) :=
  inferInstanceAs (Decidable (left.total < right.total))

instance (left right : ReadTime) : Decidable (left ≤ right) :=
  inferInstanceAs (Decidable (left.total ≤ right.total))

/-- The later of two read times. -/
def later (left right : ReadTime) : ReadTime :=
  if left ≤ right then right else left

theorem never_le (time : ReadTime) : never ≤ time := Nat.zero_le _

theorem le_later_left (left right : ReadTime) : left ≤ left.later right := by
  unfold later
  split
  · next h => exact h
  · exact Nat.le_refl _

theorem le_later_right (left right : ReadTime) : right ≤ left.later right := by
  unfold later
  split
  · exact Nat.le_refl _
  · next h => exact Nat.le_of_not_le h

theorem later_cases (left right : ReadTime) :
    left.later right = left ∨ left.later right = right := by
  unfold later
  split
  · exact .inr rfl
  · exact .inl rfl

end ReadTime

end DocumentCache
