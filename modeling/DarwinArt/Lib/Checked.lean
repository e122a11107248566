/-
Fixed-width unsigned arithmetic on `ℕ`: the checked operations, and the shape their
`some` and `none` results have. A machine word is a natural number below `2 ^ w`; the
width is an argument, so `u32`, `u64` and `usize` share one definition.
-/
import Mathlib.Algebra.Group.Nat.Defs
import Mathlib.Tactic.Common

set_option autoImplicit false

namespace DarwinArt.Lib

/-- `checked_add` at width `w`: `none` when the sum does not fit. -/
def checked_add (w a b : ℕ) : Option ℕ :=
  if a + b < 2 ^ w then some (a + b) else none

/-- `checked_sub`: `none` when the difference would be negative. -/
def checked_sub (a b : ℕ) : Option ℕ :=
  if b ≤ a then some (a - b) else none

/-- `checked_mul` at width `w`. -/
def checked_mul (w a b : ℕ) : Option ℕ :=
  if a * b < 2 ^ w then some (a * b) else none

@[simp] theorem checked_add_eq_some {w a b c : ℕ} :
    checked_add w a b = some c ↔ a + b < 2 ^ w ∧ a + b = c := by
  unfold checked_add
  split <;> simp [*]

@[simp] theorem checked_add_eq_none {w a b : ℕ} :
    checked_add w a b = none ↔ 2 ^ w ≤ a + b := by
  unfold checked_add
  split <;> simp_all

@[simp] theorem checked_mul_eq_some {w a b c : ℕ} :
    checked_mul w a b = some c ↔ a * b < 2 ^ w ∧ a * b = c := by
  unfold checked_mul
  split <;> simp [*]

@[simp] theorem checked_sub_eq_some {a b c : ℕ} :
    checked_sub a b = some c ↔ b ≤ a ∧ a = b + c := by
  unfold checked_sub
  split <;> simp <;> omega

@[simp] theorem checked_sub_eq_none {a b : ℕ} : checked_sub a b = none ↔ a < b := by
  unfold checked_sub
  split <;> simp <;> omega

end DarwinArt.Lib
