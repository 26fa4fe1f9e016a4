/-
  SteadyClock — a clock that counts nanoseconds in 64 bits, signed, and deadlines on it:
  a reading and a number of milliseconds, added up modulo 2^64. `deadline_eq`: the sum is the
  true one when that is in the clock's range, whatever the scaling to nanoseconds did.
-/

import Mathlib.Algebra.Group.Int.Defs
import Mathlib.Algebra.Group.Nat.Defs

/-- The readings of a clock, in the order in which they are made. -/
structure SteadyClock where
  now : Nat → Int
  mono : ∀ j k, j ≤ k → now j ≤ now k
  lower : ∀ k, -2 ^ 63 ≤ now k
  upper : ∀ k, now k < 2 ^ 63

namespace SteadyClock

/-- A number of nanoseconds in 64 bits, signed. -/
def wrap64 (ns : Int) : Int := ns.bmod (2 ^ 64)

/-- `steady_clock::now() + milliseconds(ms)`. -/
def deadline (now ms : Int) : Int := wrap64 (now + wrap64 (ms * 1000000))

theorem wrap64_of_fits {ns : Int} (hlo : -2 ^ 63 ≤ ns) (hhi : ns < 2 ^ 63) : wrap64 ns = ns := by
  unfold wrap64
  rw [Int.bmod_eq_of_le] <;> omega

theorem wrap64_lt (ns : Int) : wrap64 ns < 2 ^ 63 := by
  have := Int.bmod_lt (x := ns) (m := 2 ^ 64) (by decide)
  unfold wrap64
  omega

/-- Scaling may wrap as long as the sum does not. -/
theorem deadline_eq {t₀ ms : Int} (hlo : -2 ^ 63 ≤ t₀) (hms : 0 ≤ ms)
    (hfits : t₀ + ms * 1000000 < 2 ^ 63) : deadline t₀ ms = t₀ + ms * 1000000 := by
  have hwrap : deadline t₀ ms = wrap64 (t₀ + ms * 1000000) := by
    unfold deadline wrap64
    exact Int.add_bmod_bmod
  rw [hwrap]
  exact wrap64_of_fits (by omega) hfits

end SteadyClock
