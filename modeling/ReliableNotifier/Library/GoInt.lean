import Mathlib.Algebra.Order.Ring.Int
import Mathlib.Tactic.Common

/-! # Arithmetic of 64-bit integers

The operations of Go on `int64`, as integers. What becomes of a result is a parameter: in Go
it is wrapped, and where an overflow is a failure it is refused. Code in which both give the
same has no overflow.
-/

namespace GoInt

def InRange (n : Int) : Prop := -2 ^ 63 ≤ n ∧ n < 2 ^ 63

instance (n : Int) : Decidable (InRange n) := inferInstanceAs (Decidable (_ ∧ _))

def wrapping (n : Int) : Option Int := some (n.bmod (2 ^ 64))

def checked (n : Int) : Option Int := if InRange n then some n else none

/-- A result that fits is kept. -/
def Keeps (result : Int → Option Int) : Prop := ∀ n, InRange n → result n = some n

theorem keeps_wrapping : Keeps wrapping := by
  intro n hn
  exact congrArg some (Int.bmod_eq_of_le (by have := hn.1; omega) (by have := hn.2; omega))

theorem keeps_checked : Keeps checked := fun _ hn => if_pos hn

/-- `a << count`, which panics if `count` is negative. -/
def shiftLeft (result : Int → Option Int) (a count : Int) : Option Int :=
  if count < 0 then none else result (a * 2 ^ count.toNat)

theorem shiftLeft_eq {result : Int → Option Int} (h : Keeps result) {a : Int} {count : Nat}
    (hFits : InRange (a * 2 ^ count)) : shiftLeft result a count = some (a * 2 ^ count) := by
  rw [shiftLeft, if_neg (Int.not_lt.mpr (Int.natCast_nonneg count)), Int.toNat_natCast, h _ hFits]

/-- The nearest integer that fits. -/
def saturate (n : Int) : Int := max (-2 ^ 63) (min n (2 ^ 63 - 1))

theorem saturate_le {n : Int} (h : 0 < saturate n) : saturate n ≤ n := by
  unfold saturate at h ⊢
  omega

theorem min_saturate {n bound : Int} (hn : 0 ≤ n) (hBound : InRange bound) : min (saturate n) bound = min n bound := by
  have := hBound.2
  unfold saturate
  omega

end GoInt
