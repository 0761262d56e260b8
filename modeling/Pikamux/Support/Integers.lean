import Mathlib.Algebra.Order.Ring.Int

/-!
# Support — Integers

The arithmetic of 64-bit integers on numbers without a bound.
-/

namespace Support

/-- The largest `i64`. -/
def maxInt : Nat := 2 ^ 63 - 1

/-- The largest `u64`. -/
def maxNat : Nat := 2 ^ 64 - 1

/-- A `u64` read as an `i64`. -/
def asInt (n : Nat) : Int := if n ≤ maxInt then n else (n : Int) - 2 ^ 64

/-- A `u64` never reads as a larger number. -/
theorem asInt_le (n : Nat) : asInt n ≤ n := by
  unfold asInt
  split <;> omega

/-- The next `u64`. -/
def checkedSucc (n : Nat) : Option Nat := if n + 1 ≤ maxNat then some (n + 1) else none

/-- The sum of two `i64`. -/
def checkedAdd (a b : Int) : Option Int :=
  if -2 ^ 63 ≤ a + b ∧ a + b < 2 ^ 63 then some (a + b) else none

/-- The sum of two `i64` that are not negative, or the largest. -/
def saturatingAdd (a b : Nat) : Nat := min (a + b) maxInt

theorem checkedSucc_eq_some {n m : Nat} (h : checkedSucc n = some m) : m = n + 1 := by
  unfold checkedSucc at h
  split at h
  · exact (Option.some.inj h).symm
  · cases h

theorem checkedSucc_of_lt {n : Nat} (h : n < maxNat) : checkedSucc n = some (n + 1) := if_pos h

theorem checkedAdd_eq_some {a b c : Int} (h : checkedAdd a b = some c) : c = a + b := by
  unfold checkedAdd at h
  split at h
  · exact (Option.some.inj h).symm
  · cases h

theorem saturatingAdd_le {a b n : Nat} (h : saturatingAdd a b ≤ n)
    (hsat : maxInt ≤ n → a + b ≤ maxInt) : a + b ≤ n := by
  unfold saturatingAdd at h
  omega

end Support
