import Sysio.Types

/-!
# Usage accumulators

An `exponential_moving_average_accumulator` holds the usage of an account or of the blocks, averaged
over a window of time slots.  Adding usage in a later slot first lets the old value decay; adding
zero does nothing else.
-/

namespace Sysio

open Result

def rateLimitingPrecision : ℕ := 1000 * 1000

def integerDivideCeil (num den : ℕ) : ℕ := num / den + if num % den > 0 then 1 else 0

/-- `downgrade_cast` of an unsigned value to a type with the given maximum. -/
def downgradeCast (max val : ℕ) : Result ℕ := do
  sysAssert (val ≤ max) .rateLimitingStateInconsistent
    "Casting a higher bit integer value to a lower bit integer value which cannot contain the value"
  pure val

@[simp]
lemma downgradeCast_eq_ok {max val n : ℕ} :
    downgradeCast max val = .ok n ↔ val ≤ max ∧ n = val := by
  simp only [downgradeCast, bind_eq_ok, sysAssert_eq_ok, pure_eq_ok]
  rw [exists_const, @eq_comm _ val]

structure Ratio where
  numerator : ℕ
  denominator : ℕ
  deriving DecidableEq, Repr

/-- `operator*` of a value and a ratio, in `uint64_t`. -/
def Ratio.apply (r : Ratio) (value : ℕ) : Result ℕ := do
  sysAssert (r.numerator = 0 ∨ value ≤ (2 ^ 64 - 1) / r.numerator) .rateLimitingStateInconsistent
    "Usage exceeds maximum value representable after extending for precision"
  pure (value * r.numerator / r.denominator)

/-- `exponential_moving_average_accumulator`. -/
structure UsageAccumulator where
  lastOrdinal : ℕ
  valueEx : ℕ
  consumed : ℕ
  deriving DecidableEq, Repr

namespace UsageAccumulator

/-- The accumulator as its constructor leaves it. -/
def zero : UsageAccumulator := ⟨0, 0, 0⟩

def maxRawValue : ℕ := (2 ^ 64 - 1) / rateLimitingPrecision

def average (a : UsageAccumulator) : ℕ := integerDivideCeil a.valueEx rateLimitingPrecision

/-- The value that is left after `delta` slots. -/
def decayedValue (a : UsageAccumulator) (ordinal windowSize : ℕ) : Result ℕ :=
  if ordinal < a.lastOrdinal + windowSize then
    Ratio.apply ⟨windowSize - (ordinal - a.lastOrdinal), windowSize⟩ a.valueEx
  else pure 0

/-- The part of `add` that brings the accumulator to a later slot. -/
def decay (a : UsageAccumulator) (ordinal windowSize : ℕ) : Result UsageAccumulator :=
  if a.lastOrdinal ≠ ordinal then do
    sysAssert (a.lastOrdinal < ordinal) .resourceLimitException
      "new ordinal cannot be less than the previous ordinal"
    let valueEx ← a.decayedValue ordinal windowSize
    pure ⟨ordinal, valueEx, integerDivideCeil valueEx rateLimitingPrecision⟩
  else pure a

/-- What `units` add to the average over the window. -/
def contribution (units windowSize : ℕ) : ℕ :=
  integerDivideCeil (units * rateLimitingPrecision) windowSize

/-- The accumulator with `units` added in its last slot. -/
def charge (a : UsageAccumulator) (units windowSize : ℕ) : UsageAccumulator :=
  { a with
    valueEx := a.valueEx + contribution units windowSize
    consumed := a.consumed + units }

def add (a : UsageAccumulator) (units ordinal windowSize : ℕ) : Result UsageAccumulator := do
  sysAssert (units ≤ maxRawValue) .rateLimitingStateInconsistent
    "Usage exceeds maximum value representable after extending for precision"
  sysAssert (units ≤ 2 ^ 64 - 1 - a.consumed) .rateLimitingStateInconsistent
    "Overflow in tracked usage when adding usage!"
  let valueExContrib ← downgradeCast (2 ^ 64 - 1) (contribution units windowSize)
  sysAssert (valueExContrib ≤ 2 ^ 64 - 1 - a.valueEx) .rateLimitingStateInconsistent
    "Overflow in accumulated value when adding usage!"
  let a ← a.decay ordinal windowSize
  pure (a.charge units windowSize)

variable {a b c : UsageAccumulator} {units ordinal windowSize : ℕ}

@[simp]
lemma contribution_zero (windowSize : ℕ) : contribution 0 windowSize = 0 := by
  simp [contribution, integerDivideCeil]

@[simp]
lemma charge_zero (a : UsageAccumulator) (windowSize : ℕ) : a.charge 0 windowSize = a := by
  simp [charge]

lemma lastOrdinal_charge (a : UsageAccumulator) (units windowSize : ℕ) :
    (a.charge units windowSize).lastOrdinal = a.lastOrdinal := by
  unfold charge
  rfl

lemma charge_eq_self_iff : a.charge units windowSize = a ↔ units = 0 := by
  constructor
  · intro h
    have hconsumed : a.consumed + units = a.consumed := congrArg consumed h
    omega
  · rintro rfl
    exact charge_zero a windowSize

/-- What `add` does: the old value decays and the units are charged. -/
lemma add_eq_ok (h : a.add units ordinal windowSize = .ok b) :
    ∃ d, a.decay ordinal windowSize = .ok d ∧ b = d.charge units windowSize := by
  simp only [add, bind_eq_ok, pure_eq_ok] at h
  obtain ⟨-, -, -, -, -, -, -, -, d, hd, rfl⟩ := h
  exact ⟨d, hd, rfl⟩

lemma lastOrdinal_of_decay (h : a.decay ordinal windowSize = .ok b) : b.lastOrdinal = ordinal := by
  unfold decay at h
  split_ifs at h with hne
  · simp only [bind_eq_ok, pure_eq_ok] at h
    obtain ⟨-, -, valueEx, -, rfl⟩ := h
    rfl
  · rw [pure_eq_ok] at h
    rw [← h]
    exact not_not.mp hne

/-- An accumulator that has been brought to a slot stays as it is there. -/
lemma decay_of_lastOrdinal_eq (h : a.lastOrdinal = ordinal) :
    a.decay ordinal windowSize = .ok a := by
  unfold decay
  rw [if_neg (not_not.mpr h)]
  rfl

/-- Usage that is added in the same slot as a decay lands on top of it. -/
lemma charge_of_decay_of_add (hd : a.decay ordinal windowSize = .ok b)
    (ha : b.add units ordinal windowSize = .ok c) : c = b.charge units windowSize := by
  obtain ⟨d, hd', rfl⟩ := add_eq_ok ha
  rw [decay_of_lastOrdinal_eq (lastOrdinal_of_decay hd)] at hd'
  rw [Except.ok.inj hd']

end UsageAccumulator

end Sysio
