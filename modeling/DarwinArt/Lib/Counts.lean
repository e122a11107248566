/-
Counts kept in a map: a key that is absent counts zero, and a count that falls to zero is taken out.
`entry(k).or_insert(0) += 1` and its opposite.
-/
import DarwinArt.Lib.Map

set_option autoImplicit false

namespace DarwinArt.Lib

variable {K : Type} [Ord K] [Std.TransOrd K] [Std.LawfulEqOrd K]

/-- `get(k).copied().unwrap_or(0)`. -/
def count (m : Map K ℕ) (k : K) : ℕ := (m[k]?).getD 0

/-- `*entry(k).or_insert(0) += 1`. -/
def increment (m : Map K ℕ) (k : K) : Map K ℕ := m.insert k (count m k + 1)

/-- The count goes down by one; `none` where there is nothing to take from. -/
def decrement (m : Map K ℕ) (k : K) : Option (Map K ℕ) :=
  match m[k]? with
  | some (n + 1) => some (if n = 0 then m.erase k else m.insert k n)
  | _ => none

omit [Std.LawfulEqOrd K] in
theorem count_empty (k : K) : count (∅ : Map K ℕ) k = 0 := by
  simp [count]

theorem count_increment_self (m : Map K ℕ) (k : K) : count (increment m k) k = count m k + 1 := by
  simp [count, increment]

theorem count_increment_of_ne (m : Map K ℕ) {k k' : K} (h : k' ≠ k) :
    count (increment m k) k' = count m k' := by
  have hne : compare k k' ≠ .eq := fun heq => h (Std.LawfulEqCmp.eq_of_compare heq).symm
  simp [count, increment, getElem?_insert, hne]

theorem count_decrement_self {m m' : Map K ℕ} {k : K} (h : decrement m k = some m') :
    count m k = count m' k + 1 := by
  unfold decrement at h
  split at h
  · next n hn =>
    cases h
    by_cases hzero : n = 0
    · simp [count, hn, hzero]
    · simp [count, hn, hzero]
  · cases h

theorem count_decrement_of_ne {m m' : Map K ℕ} {k k' : K} (h : decrement m k = some m')
    (hk : k' ≠ k) : count m' k' = count m k' := by
  have hne : compare k k' ≠ .eq := fun heq => hk (Std.LawfulEqCmp.eq_of_compare heq).symm
  unfold decrement at h
  split at h
  · next n hn =>
    cases h
    by_cases hzero : n = 0
    · simp [count, hzero, getElem?_erase, hne]
    · simp [count, hzero, getElem?_insert, hne]
  · cases h

/-- A count that is taken out was not there or was zero. -/
theorem count_erase_of_zero {m : Map K ℕ} {k : K} (h : count m k = 0) (k' : K) :
    count (m.erase k) k' = count m k' := by
  by_cases heq : compare k k' = .eq
  · rw [← Std.LawfulEqCmp.eq_of_compare heq, h]
    simp [count]
  · simp [count, getElem?_erase, heq]

end DarwinArt.Lib
