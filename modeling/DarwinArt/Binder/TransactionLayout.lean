/-
The layout of a receive buffer: `transaction_layout.rs`.

A buffer has three sections, the data, the offsets of the objects in it and the extra bytes.
Each starts at a multiple of eight. All arithmetic is checked; `new_eq_some` says that the
only condition is that the sum of the three aligned sizes fits a machine word, and gives the
layout in closed form.
-/
import DarwinArt.Lib.Checked
import Mathlib.Order.Lattice

set_option autoImplicit false

namespace DarwinArt.Binder

open Lib

/-- `Range<usize>`. -/
structure Range where
  start : ℕ
  stop : ℕ
deriving DecidableEq

def Range.len (range : Range) : ℕ := range.stop - range.start

structure TransactionLayout where
  data : Range
  offsets : Range
  extra : Range
  total : ℕ
deriving DecidableEq

namespace TransactionLayout

/-- `align`: up to a multiple of eight, if that fits. -/
def align (value : ℕ) : Option ℕ := (checked_add 64 value 7).map fun v => v / 8 * 8

def new (data_size offsets_size extra_size : ℕ) : Option TransactionLayout := do
  let offsets_start ← align data_size
  let offsets_aligned ← align offsets_size
  let extra_start ← checked_add 64 offsets_start offsets_aligned
  let extra_aligned ← align extra_size
  let total ← checked_add 64 extra_start extra_aligned
  let offsets_stop ← checked_add 64 offsets_start offsets_size
  let extra_stop ← checked_add 64 extra_start extra_size
  some ⟨⟨0, data_size⟩, ⟨offsets_start, offsets_stop⟩, ⟨extra_start, extra_stop⟩, max total 8⟩

/-- The next multiple of eight. -/
def aligned (value : ℕ) : ℕ := (value + 7) / 8 * 8

theorem align_eq_some {value v : ℕ} :
    align value = some v ↔ value + 7 < 2 ^ 64 ∧ v = aligned value := by
  unfold align aligned
  rw [Option.map_eq_some_iff]
  constructor
  · rintro ⟨sum, hsum, hv⟩
    obtain ⟨hlt, hsum⟩ := checked_add_eq_some.mp hsum
    rw [← hv, ← hsum]
    exact ⟨hlt, rfl⟩
  · rintro ⟨hlt, hv⟩
    exact ⟨value + 7, checked_add_eq_some.mpr ⟨hlt, rfl⟩, hv.symm⟩

theorem le_aligned (value : ℕ) : value ≤ aligned value := by
  unfold aligned
  omega

/-- The sections of a layout, in closed form. -/
def sections (data_size offsets_size extra_size : ℕ) : TransactionLayout :=
  let offsets_start := aligned data_size
  let extra_start := offsets_start + aligned offsets_size
  ⟨⟨0, data_size⟩, ⟨offsets_start, offsets_start + offsets_size⟩,
    ⟨extra_start, extra_start + extra_size⟩, max (extra_start + aligned extra_size) 8⟩

/-- **A layout exists just when the aligned sizes fit together.** -/
theorem new_eq_some {data_size offsets_size extra_size : ℕ} {layout : TransactionLayout} :
    new data_size offsets_size extra_size = some layout ↔
      aligned data_size + aligned offsets_size + aligned extra_size < 2 ^ 64 ∧
        layout = sections data_size offsets_size extra_size := by
  have hdata := le_aligned data_size
  have hoffsets := le_aligned offsets_size
  have hextra := le_aligned extra_size
  unfold new
  simp only [Option.bind_eq_bind, Option.bind_eq_some_iff, align_eq_some, checked_add_eq_some]
  constructor
  · rintro ⟨_, ⟨-, rfl⟩, _, ⟨-, rfl⟩, _, ⟨-, rfl⟩, _, ⟨-, rfl⟩, _, ⟨hlt, rfl⟩, _, ⟨-, rfl⟩, _,
      ⟨-, rfl⟩, hlayout⟩
    exact ⟨hlt, (Option.some.inj hlayout).symm⟩
  · rintro ⟨hlt, rfl⟩
    have hword : ∀ value, aligned value < 2 ^ 64 → value + 7 < 2 ^ 64 := by
      intro value hvalue
      unfold aligned at hvalue
      omega
    refine ⟨_, ⟨hword _ (by omega), rfl⟩, _, ⟨hword _ (by omega), rfl⟩, _, ⟨by omega, rfl⟩, _,
      ⟨hword _ (by omega), rfl⟩, _, ⟨hlt, rfl⟩, _, ⟨by omega, rfl⟩, _, ⟨by omega, rfl⟩, rfl⟩

example : new 9 8 3 = some ⟨⟨0, 9⟩, ⟨16, 24⟩, ⟨24, 27⟩, 32⟩ := by decide

end TransactionLayout

end DarwinArt.Binder
