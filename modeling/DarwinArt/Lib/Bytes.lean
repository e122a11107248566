/-
Byte strings: slices, and little-endian numbers.

All index arithmetic on byte strings is done here. A reader of a format meets a string in one
of two shapes: as the concatenation of its parts, where the lemmas say what stands at a
position, or as a string of known length, where they say that its slices put together are the
string again. A number is read and written as its little-endian bytes (`fromLe`, `toLe`),
which are inverse to each other at a given width.
-/
import DarwinArt.Lib.ListEdit
import Mathlib.Tactic.Ring

set_option autoImplicit false

namespace DarwinArt.Lib

/-! ## Slices -/

section Slices

variable {α : Type*}

/-- `l[start..stop]`. -/
def slice (l : List α) (start stop : ℕ) : List α := (l.take stop).drop start

theorem length_slice {l : List α} {start stop : ℕ} (h : stop ≤ l.length) :
    (slice l start stop).length = stop - start := by
  unfold slice
  rw [List.length_drop, List.length_take]
  omega

/-- The whole string. -/
theorem slice_all {l : List α} {n : ℕ} (h : l.length = n) : slice l 0 n = l := by
  unfold slice
  rw [← h, List.take_length, List.drop_zero]

/-- Two slices that meet. -/
theorem slice_append_slice (l : List α) {a b c : ℕ} (hab : a ≤ b) (hbc : b ≤ c) :
    slice l a b ++ slice l b c = slice l a c := by
  unfold slice
  rw [show l.take b = (l.take c).take b by rw [List.take_take, Nat.min_eq_left hbc]]
  generalize l.take c = m
  rw [List.drop_take, show m.drop b = (m.drop a).drop (b - a) by
    rw [List.drop_drop]
    congr 1
    omega]
  exact List.take_append_drop _ _

/-- Past a first part. -/
theorem slice_append_right (p l : List α) (a b : ℕ) :
    slice (p ++ l) (p.length + a) (p.length + b) = slice l a b := by
  unfold slice
  rw [List.take_length_add_append, List.drop_length_add_append]

theorem slice_skip {p : List α} {n : ℕ} (l : List α) (h : p.length = n) (a b : ℕ) :
    slice (p ++ l) (n + a) (n + b) = slice l a b := by
  rw [← h, slice_append_right]

/-- Within a first part. -/
theorem slice_append_left {p : List α} (l : List α) {a b : ℕ} (h : b ≤ p.length) :
    slice (p ++ l) a b = slice p a b := by
  unfold slice
  rw [List.take_append_of_le_length h]

/-- The first part itself. -/
theorem slice_first {p : List α} (l : List α) {n : ℕ} (h : p.length = n) :
    slice (p ++ l) 0 n = p := by
  rw [slice_append_left l (Nat.le_of_eq h.symm), slice_all h]

end Slices

/-! ## Little-endian numbers -/

/-- The `n` low bytes of a number, the lowest first. -/
def toLe : ℕ → ℕ → List UInt8
  | 0, _ => []
  | n + 1, x => UInt8.ofNat x :: toLe n (x / 256)

/-- The number that a string of bytes stands for. -/
def fromLe : List UInt8 → ℕ
  | [] => 0
  | b :: l => b.toNat + 256 * fromLe l

@[simp] theorem length_toLe (n x : ℕ) : (toLe n x).length = n := by
  induction n generalizing x with
  | zero => rfl
  | succ _ ih => rw [toLe, List.length_cons, ih]

theorem fromLe_toLe {n x : ℕ} (h : x < 256 ^ n) : fromLe (toLe n x) = x := by
  induction n generalizing x with
  | zero =>
    rw [Nat.pow_zero] at h
    rw [Nat.lt_one_iff.mp h]
    rfl
  | succ n ih =>
    have hdiv : x / 256 < 256 ^ n := by
      apply Nat.div_lt_of_lt_mul
      rwa [← Nat.pow_succ']
    rw [toLe, fromLe, ih hdiv, UInt8.toNat_ofNat']
    exact Nat.mod_add_div x 256

theorem toLe_fromLe (l : List UInt8) : toLe l.length (fromLe l) = l := by
  induction l with
  | nil => rfl
  | cons b _ ih =>
    have hb := b.toNat_lt
    rw [List.length_cons, fromLe, toLe]
    congr 1
    · apply UInt8.toNat_inj.mp
      rw [UInt8.toNat_ofNat', Nat.add_mul_mod_self_left]
      exact Nat.mod_eq_of_lt hb
    · rw [Nat.add_mul_div_left _ _ (by decide), Nat.div_eq_of_lt hb, Nat.zero_add, ih]

theorem fromLe_lt (l : List UInt8) : fromLe l < 256 ^ l.length := by
  induction l with
  | nil => decide
  | cons b =>
    have hb : b.toNat < 256 := b.toNat_lt
    rw [List.length_cons, fromLe, Nat.pow_succ']
    omega

/-- The number of `n` bytes at a position. -/
def readLe (n : ℕ) (l : List UInt8) (offset : ℕ) : ℕ := fromLe (slice l offset (offset + n))

theorem readLe_lt {n : ℕ} {l : List UInt8} {offset : ℕ} (h : offset + n ≤ l.length) :
    readLe n l offset < 256 ^ n := by
  have hlt := fromLe_lt (slice l offset (offset + n))
  rwa [length_slice h, Nat.add_sub_cancel_left] at hlt

/-- What was read stands there. -/
theorem toLe_readLe {n : ℕ} {l : List UInt8} {offset : ℕ} (h : offset + n ≤ l.length) :
    toLe n (readLe n l offset) = slice l offset (offset + n) := by
  have hback := toLe_fromLe (slice l offset (offset + n))
  rwa [length_slice h, Nat.add_sub_cancel_left] at hback

/-- What was written is read. -/
@[simp] theorem readLe_toLe {n x : ℕ} (l : List UInt8) (h : x < 256 ^ n) :
    readLe n (toLe n x ++ l) 0 = x := by
  unfold readLe
  rw [Nat.zero_add, slice_first l (length_toLe n x), fromLe_toLe h]

/-- Past a number that was written before. -/
theorem readLe_skip (n m x : ℕ) (l : List UInt8) (offset : ℕ) :
    readLe n (toLe m x ++ l) (offset + m) = readLe n l offset := by
  unfold readLe
  have hskip := slice_append_right (toLe m x) l offset (offset + n)
  rw [length_toLe] at hskip
  rw [← hskip, Nat.add_comm offset m, Nat.add_assoc]

theorem readLe_append_right (n : ℕ) (p l : List UInt8) (offset : ℕ) :
    readLe n (p ++ l) (p.length + offset) = readLe n l offset := by
  unfold readLe
  rw [Nat.add_assoc, slice_append_right]

/-! ## Values of a fixed width -/

/-- A type whose values are written as the little-endian bytes of a number. -/
class LeBytes (α : Type) where
  width : ℕ
  number : α → ℕ
  ofNumber : ℕ → α
  number_lt : ∀ x : α, number x < 256 ^ width
  ofNumber_number : ∀ x : α, ofNumber (number x) = x
  number_ofNumber : ∀ n : ℕ, n < 256 ^ width → number (ofNumber n) = n

instance : LeBytes UInt64 where
  width := 8
  number := UInt64.toNat
  ofNumber := UInt64.ofNat
  number_lt x := x.toNat_lt
  ofNumber_number _ := UInt64.ofNat_toNat
  number_ofNumber _ h := UInt64.toNat_ofNat_of_lt' h

instance : LeBytes UInt32 where
  width := 4
  number := UInt32.toNat
  ofNumber := UInt32.ofNat
  number_lt x := x.toNat_lt
  ofNumber_number _ := UInt32.ofNat_toNat
  number_ofNumber _ h := UInt32.toNat_ofNat_of_lt' h

instance : LeBytes UInt16 where
  width := 2
  number := UInt16.toNat
  ofNumber := UInt16.ofNat
  number_lt x := x.toNat_lt
  ofNumber_number _ := UInt16.ofNat_toNat
  number_ofNumber _ h := UInt16.toNat_ofNat_of_lt' h

/-- Two's complement. -/
instance : LeBytes Int32 where
  width := 4
  number x := x.toUInt32.toNat
  ofNumber n := (UInt32.ofNat n).toInt32
  number_lt x := x.toUInt32.toNat_lt
  ofNumber_number x := by rw [UInt32.ofNat_toNat, Int32.toInt32_toUInt32]
  number_ofNumber n h := by rw [UInt32.toUInt32_toInt32, UInt32.toNat_ofNat_of_lt' h]

section Values

variable {α β : Type} [LeBytes α] [LeBytes β]

/-- `to_le_bytes`. -/
def toBytes (x : α) : List UInt8 := toLe (LeBytes.width α) (LeBytes.number x)

/-- `from_le_bytes` of the bytes at a position. -/
def readAt (α : Type) [LeBytes α] (l : List UInt8) (offset : ℕ) : α :=
  LeBytes.ofNumber (readLe (LeBytes.width α) l offset)

@[simp] theorem length_toBytes (x : α) : (toBytes x).length = LeBytes.width α :=
  length_toLe _ _

@[simp] theorem readAt_toBytes (x : α) (l : List UInt8) : readAt α (toBytes x ++ l) 0 = x := by
  unfold readAt toBytes
  rw [readLe_toLe l (LeBytes.number_lt x), LeBytes.ofNumber_number]

@[simp] theorem readAt_toBytes_end (x : α) : readAt α (toBytes x) 0 = x := by
  have h := readAt_toBytes x []
  rwa [List.append_nil] at h

theorem readAt_skip (x : β) (l : List UInt8) (offset : ℕ) :
    readAt α (toBytes x ++ l) (offset + LeBytes.width β) = readAt α l offset := by
  unfold readAt toBytes
  rw [readLe_skip]

theorem readAt_append_right (p l : List UInt8) (offset : ℕ) :
    readAt α (p ++ l) (p.length + offset) = readAt α l offset := by
  unfold readAt
  rw [readLe_append_right]

/-- What was read stands there. -/
theorem toBytes_readAt {l : List UInt8} {offset : ℕ} (h : offset + LeBytes.width α ≤ l.length) :
    toBytes (readAt α l offset) = slice l offset (offset + LeBytes.width α) := by
  unfold readAt toBytes
  rw [LeBytes.number_ofNumber _ (readLe_lt h), toLe_readLe h]

end Values

end DarwinArt.Lib
