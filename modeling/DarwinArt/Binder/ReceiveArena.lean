/-
The receive arena: `receive_arena.rs`, the best-fit allocator that hands out the
regions of one process's receive mapping.

The arena keeps two ordered maps from offsets to lengths, `free` and `allocated`.
`allocate` cuts the smallest free region that is long enough, `release` gives a region
back and joins it with the free region on either side. The translation below is the
source's, branch for branch; what it is *for* is said by `Wf`: the two maps together
tile the mapping (`Lib.Tiles`), and no two free regions touch.

## The mapping underneath

`ReceiveMapping` wraps `mmap`. The kernel chooses the address, so the constructor takes
the kernel's answer as an argument; all the arena relies on is that a mapping of
`length` bytes at `client_address` does not wrap around the address space, and that is
a field of the structure.
-/
import DarwinArt.Lib.Checked
import DarwinArt.Lib.Map
import DarwinArt.Lib.Run
import DarwinArt.Lib.Tiling

set_option autoImplicit false

namespace DarwinArt.Binder

open Lib

/-- The `errno` values the Binder device returns. -/
inductive Errno
  | EINVAL | ENOSPC | EOVERFLOW | ENOENT | ESRCH | EIO | ENOMEM
deriving DecidableEq, Repr

/-- The receive mapping: the client's read-only view of the pages, and their contents.
The transport's writable view aliases the same pages. -/
structure ReceiveMapping where
  client_address : ℕ
  length : ℕ
  pages : ℕ → UInt8
  fits : client_address + length ≤ 2 ^ 64

/-- What the kernel answers to the `shm_open`/`ftruncate`/`mmap` calls of one
constructor: an error, or the address of the client view of zeroed pages. -/
abbrev MapOutcome (length : ℕ) := Except Errno { address : ℕ // address + length ≤ 2 ^ 64 }

def ReceiveMapping.new (length : ℕ) (kernel : MapOutcome length) : Except Errno ReceiveMapping :=
  if length = 0 ∨ 2 ^ 63 - 1 < length then .error .EINVAL
  else
    match kernel with
    | .error e => .error e
    | .ok address => .ok ⟨address.1, length, fun _ => 0, address.2⟩

def ReceiveMapping.write (m : ReceiveMapping) (offset : ℕ) (data : List UInt8) :
    Except Errno Unit × ReceiveMapping :=
  match checked_add 64 offset data.length with
  | none => (.error .EINVAL, m)
  | some stop =>
    if m.length < stop then (.error .EINVAL, m)
    else
      (.ok (), { m with pages := fun i => if offset ≤ i then data.getD (i - offset) (m.pages i)
                                          else m.pages i })

/-- `ReceiveArena`: the mapping and its two region maps, offset to length. -/
structure ReceiveArena where
  mapping : ReceiveMapping
  free : Map ℕ ℕ
  allocated : Map ℕ ℕ

namespace ReceiveArena

def new (capacity : ℕ) (kernel : MapOutcome capacity) : Except Errno ReceiveArena :=
  if capacity = 0 ∨ capacity % 8 ≠ 0 then .error .EINVAL
  else
    match ReceiveMapping.new capacity kernel with
    | .error e => .error e
    | .ok mapping => .ok ⟨mapping, (∅ : Map ℕ ℕ).insert 0 capacity, ∅⟩

/-- `length.max(1).checked_add(7)? & !7`: the length rounded up to a multiple of eight,
at least eight, or `none` when the rounding leaves `usize`. -/
def rounded (length : ℕ) : Option ℕ :=
  (checked_add 64 (max length 1) 7).map (fun n => n / 8 * 8)

/-- The region `allocate` takes: of the free regions that are long enough the one with
the least `(size, offset)`. -/
def smallest_fit (free : Map ℕ ℕ) (length : ℕ) : Option (ℕ × ℕ) :=
  (free.toList.filter (fun r => length ≤ r.2)).argmin (fun r => toLex (r.2, r.1))

def allocate (a : ReceiveArena) (length : ℕ) : Except Errno ℕ × ReceiveArena :=
  match rounded length with
  | none => (.error .EINVAL, a)
  | some length =>
    match smallest_fit a.free length with
    | none => (.error .ENOSPC, a)
    | some (offset, available) =>
      let free := a.free.erase offset
      let free := if length < available then free.insert (offset + length) (available - length)
                  else free
      (.ok (a.mapping.client_address + offset),
        { a with free := free, allocated := a.allocated.insert offset length })

/-- `ReceiveArena::write`: bounded by the extent of one live allocation. -/
def write (a : ReceiveArena) (address offset : ℕ) (data : List UInt8) :
    Except Errno Unit × ReceiveArena :=
  match checked_sub address a.mapping.client_address with
  | none => (.error .EINVAL, a)
  | some start =>
    match a.allocated[start]? with
    | none => (.error .EINVAL, a)
    | some length =>
      match checked_add 64 offset data.length with
      | none => (.error .EINVAL, a)
      | some stop =>
        if length < stop then (.error .EINVAL, a)
        else
          let (result, mapping) := a.mapping.write (start + offset) data
          (result, { a with mapping := mapping })

/-- The free region `release` leaves behind on the left: the region just given back,
joined with the free region that ends where it starts. -/
def join_previous (free : Map ℕ ℕ) (offset length : ℕ) : (ℕ × ℕ) × Map ℕ ℕ :=
  match lastBelow free offset with
  | some (previous, size) =>
    if previous + size = offset then ((previous, length + size), free.erase previous)
    else ((offset, length), free)
  | none => ((offset, length), free)

/-- The same on the right: joined with the free region that starts where it ends. -/
def join_next (free : Map ℕ ℕ) (offset length : ℕ) : (ℕ × ℕ) × Map ℕ ℕ :=
  match free[offset + length]? with
  | some size => ((offset, length + size), free.erase (offset + length))
  | none => ((offset, length), free)

def release (a : ReceiveArena) (address : ℕ) : Except Errno Unit × ReceiveArena :=
  match checked_sub address a.mapping.client_address with
  | none => (.error .EINVAL, a)
  | some offset =>
    match a.allocated[offset]? with
    | none => (.error .EINVAL, a)
    | some length =>
      let (left, free) := join_previous a.free offset length
      let (region, free) := join_next free left.1 left.2
      (.ok (), { a with free := free.insert region.1 region.2,
                        allocated := a.allocated.erase offset })


/-! ## Regions and the invariant -/

/-- The regions a map holds, as a set. -/
def regions (m : Map ℕ ℕ) : Set (ℕ × ℕ) := {r | m[r.1]? = some r.2}

variable {l n o : ℕ} {a : ReceiveArena} {k : ℕ} {free free' allocated : Map ℕ ℕ}
  {held : List (ℕ × ℕ)}

@[simp] theorem mem_regions {m : Map ℕ ℕ} : (o, l) ∈ regions m ↔ m[o]? = some l :=
  Iff.rfl

/-- The free and the allocated regions tile the mapping, no offset is in both maps, and
every region is a whole number of eight-byte words. -/
structure Tiled (cap : ℕ) (free allocated : Map ℕ ℕ) : Prop where
  tiles : Tiles cap (regions free ∪ regions allocated)
  separate : ∀ o l : ℕ, free[o]? = some l → allocated[o]? = none
  aligned : ∀ r ∈ regions free ∪ regions allocated, 8 ∣ r.1 ∧ 8 ∣ r.2

/-- No two free regions touch. -/
def Coalesced (free : Map ℕ ℕ) : Prop :=
  ∀ o l o' l' : ℕ, free[o]? = some l → free[o']? = some l' → o + l ≠ o'

/-- The invariant of an arena. -/
structure Wf (a : ReceiveArena) : Prop where
  tiled : Tiled a.mapping.length a.free a.allocated
  coalesced : Coalesced a.free

section Tiled

variable {cap : ℕ} {free allocated : Map ℕ ℕ}

variable {l' o' : ℕ}

section

variable (h : Tiled cap free allocated)
include h

theorem Tiled.pos_free (ho : free[o]? = some l) :
    0 < l :=
  h.tiles.nonempty (o, l) (.inl ho)

/-- Two free regions at different offsets do not overlap. -/
theorem Tiled.apart_free (ho : free[o]? = some l) (ho' : free[o']? = some l') (hne : o ≠ o') :
    o + l ≤ o' ∨ o' + l' ≤ o :=
  h.tiles.apart (o, l) (.inl ho) (o', l') (.inl ho') (by simp [hne])

/-- A free and an allocated region do not overlap, whatever their offsets. -/
theorem Tiled.apart_mixed (ho : free[o]? = some l) (ho' : allocated[o']? = some l') :
    o ≠ o' ∧ (o + l ≤ o' ∨ o' + l' ≤ o) := by
  have hne : o ≠ o' := by
    rintro rfl
    rw [h.separate _ _ ho] at ho'
    cases ho'
  exact ⟨hne, h.tiles.apart (o, l) (.inl ho) (o', l') (.inr ho') (by simp [hne])⟩

/-- Two allocations at different offsets do not overlap. -/
theorem Tiled.apart_allocated
    (ho : allocated[o]? = some l) (ho' : allocated[o']? = some l') (hne : o ≠ o') :
    o + l ≤ o' ∨ o' + l' ≤ o :=
  h.tiles.apart (o, l) (.inr ho) (o', l') (.inr ho') (by simp [hne])

/-- Handing out the front of a free region: a cut, and the front changes colour. -/
theorem Tiled.take_front (ho : free[o]? = some l) (hk0 : 0 < k) (hkl : k < l) (hk8 : 8 ∣ k) :
    Tiled cap ((free.erase o).insert (o + k) (l - k)) (allocated.insert o k) := by
  obtain ⟨b, rfl⟩ : ∃ b, l = k + b := ⟨l - k, by omega⟩
  rw [Nat.add_sub_cancel_left]
  have hR : (o, k + b) ∈ regions free ∪ regions allocated := .inl ho
  have hfree := fun x y (hx : free[x]? = some y) hne => h.apart_free ho hx hne
  have halloc := fun x y (hx : allocated[x]? = some y) => h.apart_mixed ho hx
  refine ⟨?_, ?_, ?_⟩
  · have ht := h.tiles.split hR hk0 (by omega)
    convert ht using 1
    ext ⟨x, y⟩
    simp only [Set.mem_union, mem_regions, Set.mem_insert_iff, Set.mem_sdiff,
      Set.mem_singleton_iff, Prod.mk.injEq]
    grind
  · intro x y hx
    have hsep := h.separate x y
    grind
  · have h8 := h.aligned _ hR
    rintro ⟨x, y⟩ hr
    have hxy := h.aligned (x, y)
    simp only [Set.mem_union, mem_regions] at h8 hr hxy ⊢
    grind

/-- Handing out a whole free region: it only changes colour. -/
theorem Tiled.take_all (ho : free[o]? = some l) :
    Tiled cap (free.erase o) (allocated.insert o l) := by
  have halloc := fun x y (hx : allocated[x]? = some y) => h.apart_mixed ho hx
  have hset : regions (free.erase o) ∪ regions (allocated.insert o l)
      = regions free ∪ regions allocated := by
    ext ⟨x, y⟩
    simp only [Set.mem_union, mem_regions]
    grind
  refine ⟨by rw [hset]; exact h.tiles, ?_, by rw [hset]; exact h.aligned⟩
  intro x y hx
  have hsep := h.separate x y
  grind

/-- Taking a region back: it changes colour, and its offset was not free before. -/
theorem Tiled.give (ho : allocated[o]? = some l) :
    Tiled cap (free.insert o l) (allocated.erase o) ∧ free[o]? = none := by
  have hnone : free[o]? = none := by
    cases hfo : free[o]? with
    | none => rfl
    | some => exact absurd rfl (h.apart_mixed hfo ho).1
  have hset : regions (free.insert o l) ∪ regions (allocated.erase o)
      = regions free ∪ regions allocated := by
    ext ⟨x, y⟩
    simp only [Set.mem_union, mem_regions]
    grind
  refine ⟨⟨by rw [hset]; exact h.tiles, ?_, by rw [hset]; exact h.aligned⟩, hnone⟩
  intro x y hx
  have hsep := h.separate x y
  grind

/-- Joining two neighbouring free regions. -/
theorem Tiled.join {a b : ℕ} (ho : free[o]? = some a) (ho' : free[o + a]? = some b) :
    Tiled cap ((free.erase (o + a)).insert o (a + b)) allocated := by
  have ha := h.pos_free ho
  have hset : regions ((free.erase (o + a)).insert o (a + b)) ∪ regions allocated
      = insert (o, a + b) ((regions free ∪ regions allocated) \ {(o, a), (o + a, b)}) := by
    have halloc := fun x y (hx : allocated[x]? = some y) => h.apart_mixed ho hx
    have halloc' := fun x y (hx : allocated[x]? = some y) => h.apart_mixed ho' hx
    ext ⟨x, y⟩
    simp only [Set.mem_union, mem_regions, Set.mem_insert_iff, Set.mem_sdiff,
      Set.mem_singleton_iff, Prod.mk.injEq]
    grind
  refine ⟨by rw [hset]; exact h.tiles.merge (.inl ho) (.inl ho'), ?_, ?_⟩
  · intro x y hx
    have hsep := h.separate x
    grind
  · rw [hset]
    have h8 := h.aligned (o, a) (.inl ho)
    have h8' := h.aligned (o + a, b) (.inl ho')
    rintro r (rfl | hr)
    · simp only at h8 h8' ⊢; omega
    · exact h.aligned r hr.1

end

end Tiled

/-! ## `ReceiveArena::allocate` -/

/-- The length a request is rounded to, as a number: the next multiple of eight, at
least eight. `rounded` is this with the `usize` check. -/
def roundUp (length : ℕ) : ℕ := (max length 1 + 7) / 8 * 8

theorem rounded_eq_some :
    rounded n = some k ↔ max n 1 + 7 < 2 ^ 64 ∧ k = roundUp n := by
  unfold rounded roundUp
  rw [Option.map_eq_some_iff]
  constructor
  · rintro ⟨m, hm, rfl⟩
    obtain ⟨hlt, rfl⟩ := checked_add_eq_some.mp hm
    exact ⟨hlt, rfl⟩
  · rintro ⟨hlt, rfl⟩
    exact ⟨max n 1 + 7, checked_add_eq_some.mpr ⟨hlt, rfl⟩, rfl⟩

theorem rounded_eq_none : rounded n = none ↔ 2 ^ 64 ≤ max n 1 + 7 := by
  unfold rounded
  rw [Option.map_eq_none_iff, checked_add_eq_none]

theorem roundUp_spec (n : ℕ) : n ≤ roundUp n ∧ 0 < roundUp n ∧ 8 ∣ roundUp n := by
  unfold roundUp
  refine ⟨by omega, by omega, Nat.dvd_mul_left _ _⟩

/-- A chosen region is free, long enough, and least by size, then by offset. -/
theorem smallest_fit_spec (h : smallest_fit free n = some (o, l)) :
    free[o]? = some l ∧ n ≤ l ∧
      ∀ o' l' : ℕ, free[o']? = some l' → n ≤ l' → l < l' ∨ (l = l' ∧ o ≤ o') := by
  unfold smallest_fit at h
  obtain ⟨hm, hn⟩ := List.mem_filter.mp (List.argmin_mem h)
  refine ⟨mem_toList_iff_getElem?_eq_some.mp hm, by simpa using hn, ?_⟩
  intro o' l' ho' hn'
  have hin : (o', l') ∈ free.toList.filter (fun r => n ≤ r.2) :=
    List.mem_filter.mpr
      ⟨mem_toList_iff_getElem?_eq_some.mpr ho', by simpa using hn'⟩
  have hle := List.le_of_mem_argmin hin h
  simpa [Prod.Lex.toLex_le_toLex] using hle

theorem smallest_fit_eq_none :
    smallest_fit free n = none ↔ ∀ o l : ℕ, free[o]? = some l → l < n := by
  unfold smallest_fit
  rw [List.argmin_eq_none, List.filter_eq_nil_iff]
  constructor
  · intro h o l ho
    simpa using h (o, l) (mem_toList_iff_getElem?_eq_some.mpr ho)
  · rintro h ⟨o, l⟩ hm
    simpa using h o l (mem_toList_iff_getElem?_eq_some.mp hm)

/-- The arena after `length` bytes of the free region `(offset, available)` are handed
out: the one state change of `allocate`. -/
def hand_out (a : ReceiveArena) (offset available length : ℕ) : ReceiveArena :=
  { a with
    free := if length < available
            then (a.free.erase offset).insert (offset + length) (available - length)
            else a.free.erase offset
    allocated := a.allocated.insert offset length }

/-- **Everything `allocate` can do**: refuse an unroundable length, refuse for lack of
space, or hand out the smallest fitting region. -/
theorem allocate_cases (a : ReceiveArena) (n : ℕ) :
    (2 ^ 64 ≤ max n 1 + 7 ∧ a.allocate n = (.error .EINVAL, a)) ∨
    (max n 1 + 7 < 2 ^ 64 ∧ (∀ o l : ℕ, a.free[o]? = some l → l < roundUp n) ∧
      a.allocate n = (.error .ENOSPC, a)) ∨
    (max n 1 + 7 < 2 ^ 64 ∧ ∃ o l, smallest_fit a.free (roundUp n) = some (o, l) ∧
      a.allocate n = (.ok (a.mapping.client_address + o), a.hand_out o l (roundUp n))) := by
  cases hr : rounded n with
  | none => exact .inl ⟨rounded_eq_none.mp hr, by simp only [allocate, hr]⟩
  | some =>
    obtain ⟨hlt, rfl⟩ := rounded_eq_some.mp hr
    cases hf : smallest_fit a.free (roundUp n) with
    | none =>
      exact .inr (.inl ⟨hlt, smallest_fit_eq_none.mp hf, by simp only [allocate, hr, hf]⟩)
    | some r =>
      obtain ⟨o, l⟩ := r
      exact .inr (.inr ⟨hlt, o, l, rfl, by simp only [allocate, hr, hf, hand_out]⟩)

/-- Handing out keeps the invariant. -/
theorem Wf.hand_out (h : Wf a) (ho : a.free[o]? = some l)
    (hk0 : 0 < k) (hkl : k ≤ l) (hk8 : 8 ∣ k) : Wf (a.hand_out o l k) := by
  have hco := h.coalesced
  unfold ReceiveArena.hand_out
  by_cases hlt : k < l
  · simp only [if_pos hlt]
    refine ⟨h.tiled.take_front ho hk0 hlt hk8, ?_⟩
    -- the remainder ends where the old region ended, and nothing free ends at its start
    intro x y x' y' hx hx'
    have hapart := fun z w (hz : a.free[z]? = some w) hne => h.tiled.apart_free ho hz hne
    have hend := hco o l
    have hxx := hco x y
    grind
  · obtain rfl : k = l := by omega
    simp only [lt_irrefl, if_false]
    refine ⟨h.tiled.take_all ho, ?_⟩
    intro x y x' y' hx hx'
    have hxx := hco x y
    grind

/-! ## `ReceiveArena::release` -/

/-- Joining on the left: the tiling is kept, nothing free ends at the new start, and the
end has not moved. -/
theorem join_previous_spec {cap : ℕ}
    (h : Tiled cap (free.insert o l) allocated) (hnone : free[o]? = none)
    (hco : Coalesced free) {r : ℕ × ℕ} (hj : join_previous free o l = (r, free')) :
    Tiled cap (free'.insert r.1 r.2) allocated ∧ Coalesced free' ∧
      ∀ x y : ℕ, free'[x]? = some y → x + y ≠ r.1 := by
  have hins : ∀ x y : ℕ, free[x]? = some y → (free.insert o l)[x]? = some y := by grind
  have hl : (free.insert o l)[o]? = some l := by grind
  unfold join_previous at hj
  cases hb : lastBelow free o with
  | none =>
    rw [hb] at hj
    cases hj
    refine ⟨h, hco, fun x y hx => ?_⟩
    have hpos := h.pos_free (hins x y hx)
    have := lastBelow_eq_none hb hx
    simp only
    omega
  | some e =>
    obtain ⟨previous, size⟩ := e
    obtain ⟨hp, hlt, hlast⟩ := lastBelow_eq_some hb
    simp only at hp hlt hlast
    rw [hb] at hj
    by_cases heq : previous + size = o
    · simp only [heq, if_true] at hj
      cases hj
      subst heq
      have hjoin := h.join (hins _ _ hp) hl
      refine ⟨?_, ?_, ?_⟩
      · convert hjoin using 1
        refine ext_getElem? fun x => ?_
        grind
      · intro x y x' y' hx hx'
        have := hco x y x' y'
        grind
      · intro x y hx
        have := hco x y previous size
        grind
    · simp only [heq, if_false] at hj
      cases hj
      refine ⟨h, hco, fun x y hx hend => ?_⟩
      -- a free region ending here starts at `previous` or below it, so it overlaps it
      have hpos := h.pos_free (hins x y hx)
      have hle := hlast x y hx (by simp only at hend; omega)
      rcases eq_or_ne x previous with rfl | hxp
      · rw [hp] at hx
        cases hx
        exact heq hend
      · have hp0 := h.pos_free (hins _ _ hp)
        have := h.apart_free (hins _ _ hx) (hins _ _ hp) hxp
        simp only at hend
        omega

/-- Joining on the right of a region nothing free ends at: the result is coalesced. -/
theorem join_next_spec {cap : ℕ} (h : Tiled cap (free.insert o l) allocated)
    (hco : Coalesced free) (hleft : ∀ x y : ℕ, free[x]? = some y → x + y ≠ o)
    {r : ℕ × ℕ} (hj : join_next free o l = (r, free')) :
    Tiled cap (free'.insert r.1 r.2) allocated ∧ Coalesced (free'.insert r.1 r.2) := by
  have hl : (free.insert o l)[o]? = some l := by grind
  have hl0 := h.pos_free hl
  unfold join_next at hj
  cases hn : free[o + l]? with
  | none =>
    rw [hn] at hj
    cases hj
    refine ⟨h, fun x y x' y' hx hx' => ?_⟩
    have := hco x y x' y'
    have := hleft x y
    grind
  | some size =>
    rw [hn] at hj
    cases hj
    have hn' : (free.insert o l)[o + l]? = some size := by grind
    have hjoin := h.join hl hn'
    refine ⟨?_, ?_⟩
    · convert hjoin using 1
      refine ext_getElem? fun x => ?_
      grind
    · intro x y x' y' hx hx'
      have := hco x y x' y'
      have := hco (o + l) size x' y'
      have := hleft x y
      have hs0 := h.pos_free hn'
      grind

/-- **Everything `release` can do**: refuse an address that is no allocation's start, or
take the allocation back, keeping the invariant. -/
theorem release_cases (h : Wf a) (address : ℕ) :
    ((∀ o l : ℕ, a.allocated[o]? = some l → address ≠ a.mapping.client_address + o) ∧
      a.release address = (.error .EINVAL, a)) ∨
    ∃ o l free, address = a.mapping.client_address + o ∧ a.allocated[o]? = some l ∧
      a.release address = (.ok (), { a with free := free, allocated := a.allocated.erase o }) ∧
      Wf { a with free := free, allocated := a.allocated.erase o } := by
  cases hs : checked_sub address a.mapping.client_address with
  | none =>
    refine .inl ⟨fun o l _ => ?_, by simp only [release, hs]⟩
    have := checked_sub_eq_none.mp hs
    omega
  | some o =>
    obtain ⟨-, haddr⟩ := checked_sub_eq_some.mp hs
    cases ho : a.allocated[o]? with
    | none =>
      refine .inl ⟨fun o' l hl heq => ?_, by simp only [release, hs, ho]⟩
      obtain rfl : o = o' := by omega
      rw [ho] at hl
      cases hl
    | some l =>
      obtain ⟨hgive, hnone⟩ := h.tiled.give ho
      cases hp : join_previous a.free o l with
      | mk left free₁ =>
        obtain ⟨ht₁, hc₁, hleft⟩ := join_previous_spec hgive hnone h.coalesced hp
        cases hq : join_next free₁ left.1 left.2 with
        | mk region free₂ =>
          obtain ⟨ht₂, hc₂⟩ := join_next_spec ht₁ hc₁ hleft hq
          exact .inr ⟨o, l, free₂.insert region.1 region.2, haddr, ho,
            by simp only [release, hs, ho, hp, hq], ⟨ht₂, hc₂⟩⟩

/-! ## Runs

A run is any sequence of `allocate` and `release` calls, with any arguments. `live` is
the account a client keeps of it: the addresses it was given and has not released, each
with the length it asked for. -/

/-- One call on the arena. -/
inductive Call
  | allocate (length : ℕ)
  | release (address : ℕ)
deriving DecidableEq

/-- Performing one call. A successful `allocate` answers `some` address. -/
def perform (a : ReceiveArena) : Call → Except Errno (Option ℕ) × ReceiveArena
  | .allocate length =>
    let (result, a') := a.allocate length
    (result.map some, a')
  | .release address =>
    let (result, a') := a.release address
    (result.map (fun _ => none), a')

/-- A label of a run: the call and what it returned. -/
abbrev Label := Call × Except Errno (Option ℕ)

/-- One step of a run. -/
def Step (a : ReceiveArena) (e : Label) (a' : ReceiveArena) : Prop :=
  a.perform e.1 = (e.2, a')

/-- The client's account after one more call. -/
def account (held : List (ℕ × ℕ)) : Label → List (ℕ × ℕ)
  | (.allocate length, .ok (some address)) => (address, length) :: held
  | (.release address, .ok _) => held.filter (fun p => p.1 ≠ address)
  | _ => held

/-- The addresses held at the end of a run, with the lengths they were asked for. -/
def live (es : List Label) : List (ℕ × ℕ) := es.foldl account []

@[simp] theorem live_snoc (es : List Label) (e : Label) :
    live (es ++ [e]) = account (live es) e := by
  simp [live]

/-- The allocations of the arena are the live addresses of the run: each address held
names an allocation at least as long as asked for, no address is held twice, and every
allocation is held. -/
structure Holds (a : ReceiveArena) (held : List (ℕ × ℕ)) : Prop where
  named : ∀ p ∈ held, ∃ o l : ℕ, p.1 = a.mapping.client_address + o ∧
    a.allocated[o]? = some l ∧ p.2 ≤ l
  nodup : (held.map Prod.fst).Nodup
  all : ∀ o l : ℕ, a.allocated[o]? = some l → ∃ p ∈ held, p.1 = a.mapping.client_address + o

/-- What a step keeps: the mapping, the invariant and the client's account. -/
theorem step_keeps {a' : ReceiveArena} {e : Label} (h : Wf a)
    (hh : Holds a held) (hstep : Step a e a') :
    a'.mapping = a.mapping ∧ Wf a' ∧ Holds a' (account held e) := by
  obtain ⟨call, result⟩ := e
  cases call with
  | allocate n =>
    rcases allocate_cases a n with ⟨-, heq⟩ | ⟨-, -, heq⟩ | ⟨-, o, l, hfit, heq⟩
    · simp only [Step, perform, heq, Except.map] at hstep
      cases hstep
      exact ⟨rfl, h, hh⟩
    · simp only [Step, perform, heq, Except.map] at hstep
      cases hstep
      exact ⟨rfl, h, hh⟩
    · simp only [Step, perform, heq, Except.map] at hstep
      cases hstep
      obtain ⟨ho, hfits, -⟩ := smallest_fit_spec hfit
      obtain ⟨hn, hk0, hk8⟩ := roundUp_spec n
      refine ⟨rfl, h.hand_out ho hk0 hfits hk8, ?_⟩
      -- the offset handed out was free, so no address held so far names it
      have hfresh : ∀ o' l' : ℕ, a.allocated[o']? = some l' → o' ≠ o :=
        fun o' l' ho' => (h.tiled.apart_mixed ho ho').1.symm
      refine ⟨?_, ?_, ?_⟩
      · rintro p (_ | ⟨_, hp⟩)
        · exact ⟨o, roundUp n, rfl, by simp only [ReceiveArena.hand_out]; grind, hn⟩
        · obtain ⟨o', l', hp1, ho', hle⟩ := hh.named p hp
          have := hfresh o' l' ho'
          exact ⟨o', l', hp1, by simp only [ReceiveArena.hand_out]; grind, hle⟩
      · simp only [account, List.map_cons, List.nodup_cons]
        refine ⟨?_, hh.nodup⟩
        intro hin
        obtain ⟨p, hp, hp1⟩ := List.mem_map.mp hin
        obtain ⟨o', l', hp1', ho', -⟩ := hh.named p hp
        have := hfresh o' l' ho'
        omega
      · intro o' l' ho'
        simp only [ReceiveArena.hand_out] at ho'
        rcases eq_or_ne o' o with rfl | heq'
        · exact ⟨_, List.mem_cons_self, rfl⟩
        · obtain ⟨p, hp, hp1⟩ := hh.all o' l' (by grind)
          exact ⟨p, List.mem_cons_of_mem _ hp, hp1⟩
  | release address =>
    rcases release_cases h address with ⟨-, heq⟩ | ⟨o, l, free, haddr, ho, heq, hwf⟩
    · simp only [Step, perform, heq, Except.map] at hstep
      cases hstep
      exact ⟨rfl, h, hh⟩
    · simp only [Step, perform, heq, Except.map] at hstep
      cases hstep
      refine ⟨rfl, hwf, ?_, ?_, ?_⟩
      · intro p hp
        simp only [account, List.mem_filter, decide_eq_true_eq] at hp
        obtain ⟨o', l', hp1, ho', hle⟩ := hh.named p hp.1
        exact ⟨o', l', hp1, by grind, hle⟩
      · exact hh.nodup.sublist (List.filter_sublist.map _)
      · intro o' l' ho'
        obtain ⟨p, hp, hp1⟩ := hh.all o' l' (by grind)
        refine ⟨p, ?_, hp1⟩
        simp only [account, List.mem_filter, decide_eq_true_eq]
        have : o ≠ o' := by grind
        exact ⟨hp, by omega⟩

/-- A new arena is one free region, and satisfies the invariant with nothing held. -/
theorem new_spec {capacity : ℕ} {kernel : MapOutcome capacity}
    (hnew : new capacity kernel = .ok a) :
    0 < capacity ∧ a.mapping.length = capacity ∧ Wf a ∧ Holds a [] := by
  unfold new at hnew
  split at hnew
  · cases hnew
  · next hcap =>
    have hpos : 0 < capacity := by omega
    have h8 : 8 ∣ capacity := by omega
    unfold ReceiveMapping.new at hnew
    split at hnew
    · cases hnew
    · next mapping hmap =>
      cases hnew
      split at hmap
      · cases hmap
      · split at hmap
        · cases hmap
        · cases hmap
          have hempty : ∀ o l : ℕ, (∅ : Map ℕ ℕ)[o]? ≠ some l := by grind
          have hset : regions ((∅ : Map ℕ ℕ).insert 0 capacity) ∪ regions ∅
              = {(0, capacity)} := by
            ext ⟨x, y⟩
            simp only [Set.mem_union, mem_regions, Set.mem_singleton_iff, Prod.mk.injEq]
            grind
          refine ⟨hpos, rfl, ⟨⟨?_, ?_, ?_⟩, ?_⟩, ?_, ?_, ?_⟩
          · rw [hset]; exact Tiles.single hpos
          · intro o l _; grind
          · rw [hset]; rintro r rfl; exact ⟨dvd_zero 8, h8⟩
          · intro o l o' l' ho ho'; grind
          · intro p hp; cases hp
          · simp
          · intro o l ho; exact absurd ho (hempty o l)

/-- What a run keeps. -/
theorem run_keeps {a₀ : ReceiveArena} {es : List Label} (h : Wf a₀) (hh : Holds a₀ [])
    (hrun : Run Step a₀ es a) : a.mapping = a₀.mapping ∧ Wf a ∧ Holds a (live es) := by
  refine hrun.history (fun es a => a.mapping = a₀.mapping ∧ Wf a ∧ Holds a (live es))
    ⟨rfl, h, hh⟩ ?_
  rintro es t e u - ⟨hmap, hwf, hhold⟩ hstep
  obtain ⟨hmap', hwf', hhold'⟩ := step_keeps hwf hhold hstep
  rw [live_snoc]
  exact ⟨hmap'.trans hmap, hwf', hhold'⟩

/-! ## What a client of the arena may rely on -/

/-- The allocation at a client address reaches `length` bytes. -/
def Extent (a : ReceiveArena) (address length : ℕ) : Prop :=
  ∃ o : ℕ, address = a.mapping.client_address + o ∧ a.allocated[o]? = some length

/-- The state of an arena of `capacity` bytes whose client holds `held`. -/
structure Sound (capacity : ℕ) (a : ReceiveArena) (held : List (ℕ × ℕ)) : Prop where
  tiles : Tiles capacity (regions a.free ∪ regions a.allocated)
  disjoint : Disjoint (regions a.free) (regions a.allocated)
  aligned : ∀ r ∈ regions a.free ∪ regions a.allocated, 8 ∣ r.1 ∧ 8 ∣ r.2
  coalesced : Coalesced a.free
  addresses : (held.map Prod.fst).Nodup
  extents : ∀ p ∈ held, ∃ k, Extent a p.1 k ∧ p.2 ≤ k
  apart : ∀ p ∈ held, ∀ q ∈ held, p.1 ≠ q.1 → ∀ k m, Extent a p.1 k → Extent a q.1 m →
    p.1 + k ≤ q.1 ∨ q.1 + m ≤ p.1
  restored : held = [] → a.free = (∅ : Map ℕ ℕ).insert 0 capacity ∧ a.allocated = ∅

/-- What `allocate` answers for a request of `n` bytes. -/
structure BestFit (a : ReceiveArena) (n : ℕ) : Prop where
  enospc : max n 1 + 7 < 2 ^ 64 → ((a.allocate n).1 = .error .ENOSPC ↔
    ∀ o l : ℕ, a.free[o]? = some l → l < roundUp n)
  smallest : max n 1 + 7 < 2 ^ 64 → (a.allocate n).1 ≠ .error .ENOSPC →
    ∃ o l : ℕ, (a.allocate n).1 = .ok (a.mapping.client_address + o) ∧
      a.free[o]? = some l ∧ roundUp n ≤ l ∧
      ∀ o' l' : ℕ, a.free[o']? = some l' → roundUp n ≤ l' → l < l' ∨ (l = l' ∧ o ≤ o')
  unroundable : 2 ^ 64 ≤ max n 1 + 7 → (a.allocate n).1 = .error .EINVAL
  failing : ∀ e, (a.allocate n).1 = .error e → (a.allocate n).2 = a

theorem bestFit (a : ReceiveArena) (n : ℕ) : BestFit a n := by
  rcases allocate_cases a n with ⟨hbig, heq⟩ | ⟨hlt, hall, heq⟩ | ⟨hlt, o, l, hfit, heq⟩
  · refine ⟨fun h => absurd h (by omega), fun h => absurd h (by omega), fun _ => ?_, fun e _ => ?_⟩
      <;> rw [heq]
  · refine ⟨fun _ => ?_, fun _ hne => ?_, fun h => absurd h (by omega), fun e _ => ?_⟩
    · rw [heq]; exact ⟨fun _ => hall, fun _ => rfl⟩
    · rw [heq] at hne; exact absurd rfl hne
    · rw [heq]
  · obtain ⟨ho, hkl, hleast⟩ := smallest_fit_spec hfit
    refine ⟨fun _ => ?_, fun _ _ => ⟨o, l, by rw [heq], ho, hkl, hleast⟩,
      fun h => absurd h (by omega), fun e he => ?_⟩
    · rw [heq]
      exact ⟨nofun, fun h => absurd (h o l ho) (by omega)⟩
    · rw [heq] at he; cases he

theorem Wf.sound (h : Wf a) (hh : Holds a held)
    (hpos : 0 < a.mapping.length) : Sound a.mapping.length a held where
  tiles := h.tiled.tiles
  disjoint := by
    rw [Set.disjoint_left]
    rintro ⟨o, l⟩ hf ha
    exact absurd rfl (h.tiled.apart_mixed hf ha).1
  aligned := h.tiled.aligned
  coalesced := h.coalesced
  addresses := hh.nodup
  extents := by
    intro p hp
    obtain ⟨o, l, hp1, ho, hle⟩ := hh.named p hp
    exact ⟨l, ⟨o, hp1, ho⟩, hle⟩
  apart := by
    rintro p hp q hq hne k m ⟨o, hp1, ho⟩ ⟨o', hq1, ho'⟩
    have := h.tiled.apart_allocated ho ho' (by omega)
    omega
  restored := by
    rintro rfl
    have hempty : a.allocated = ∅ := by
      refine ext_getElem? fun o => ?_
      cases ho : a.allocated[o]? with
      | none => simp
      | some l => obtain ⟨p, hp, -⟩ := hh.all o l ho; cases hp
    refine ⟨?_, hempty⟩
    -- with nothing allocated the free regions tile alone, and they do not touch
    have hset : regions a.free ∪ regions a.allocated = regions a.free := by
      rw [hempty]
      ext ⟨x, y⟩
      simp
    have htiles := h.tiled.tiles
    rw [hset] at htiles
    have hone := htiles.eq_single hpos
      (fun r hr s hs => h.coalesced r.1 r.2 s.1 s.2 hr hs)
    refine ext_getElem? fun o => ?_
    have hmem : ∀ l : ℕ, a.free[o]? = some l ↔ (o, l) = (0, a.mapping.length) := by
      intro l
      rw [← mem_regions, hone, Set.mem_singleton_iff]
    cases ho : a.free[o]? with
    | none =>
      have := hmem a.mapping.length
      grind
    | some l =>
      have := (hmem l).mp ho
      grind

/-- **The receive arena.** After any run of `allocate` and `release` calls on a new arena,
with whatever arguments, the two maps tile the mapping in aligned, coalesced regions, the
addresses the client holds have disjoint extents as long as it asked for, an empty
account means one free region; the next `allocate` is best fit with `ENOSPC` exactly when
nothing fits; and a call that fails changes nothing. -/
theorem arena_run_sound {capacity : ℕ} {kernel : MapOutcome capacity} {a₀ a : ReceiveArena}
    {es : List Label} (hnew : new capacity kernel = .ok a₀) (hrun : Run Step a₀ es a) :
    Sound capacity a (live es) ∧ (∀ n, BestFit a n) ∧
      ∀ address e, (a.release address).1 = .error e → (a.release address).2 = a := by
  obtain ⟨hpos, hlen, hwf₀, hh₀⟩ := new_spec hnew
  obtain ⟨hmap, hwf, hh⟩ := run_keeps hwf₀ hh₀ hrun
  have hcap : a.mapping.length = capacity := by rw [hmap, hlen]
  refine ⟨?_, bestFit a, ?_⟩
  · rw [← hcap]
    exact hwf.sound hh (by omega)
  · intro address e he
    rcases release_cases hwf address with ⟨-, heq⟩ | ⟨o, l, free, -, -, heq, -⟩
    · rw [heq]
    · rw [heq] at he; cases he

/-- The theorem at a concrete run: two requests and a release on a 32-byte arena. -/
theorem arena_run_sound_at_32 : ∃ a₀ es a, new 32 (.ok ⟨4096, by norm_num⟩) = .ok a₀ ∧
    Run Step a₀ es a ∧ live es = [(4104, 9)] ∧ Sound 32 a (live es) :=
  ⟨_, _, _, rfl, Run.of_trace perform [.allocate 8, .allocate 9, .release 4096] _, by decide,
    (@arena_run_sound 32 (.ok ⟨4096, by norm_num⟩) _ _ _ rfl
      (Run.of_trace perform [.allocate 8, .allocate 9, .release 4096] _)).1⟩

/-- A length whose rounding leaves `usize` is refused with `EINVAL`, not `ENOSPC`,
although no gap holds the rounded length. -/
theorem allocate_unroundable_is_einval : ∃ a₀, new 8 (.ok ⟨4096, by norm_num⟩) = .ok a₀ ∧
    (∀ o l : ℕ, a₀.free[o]? = some l → l < roundUp (2 ^ 64 - 1)) ∧
    (a₀.allocate (2 ^ 64 - 1)).1 = .error .EINVAL ∧
    (a₀.allocate (2 ^ 64 - 1)).1 ≠ .error .ENOSPC := by
  refine ⟨_, rfl, ?_, by decide, by decide⟩
  intro o l ho
  have hl : l = 8 := by
    simp only at ho
    grind
  subst hl
  decide

/-! ## `ReceiveArena::write`

A write goes through one live allocation. Since extents are disjoint it cannot reach the
bytes of another. -/

/-- Outside the written range the pages keep their contents, and the view does not
move. -/
theorem mapping_write_frame (m : ReceiveMapping) (offset : ℕ) (data : List UInt8) :
    (m.write offset data).2.client_address = m.client_address ∧
      ∀ i, i < offset ∨ offset + data.length ≤ i →
        (m.write offset data).2.pages i = m.pages i := by
  unfold ReceiveMapping.write
  cases checked_add 64 offset data.length with
  | none => exact ⟨rfl, fun _ _ => rfl⟩
  | some =>
    simp only
    split
    · exact ⟨rfl, fun _ _ => rfl⟩
    · refine ⟨rfl, fun i hi => ?_⟩
      simp only
      split
      · rw [List.getD_eq_default _ _ (by omega)]
      · rfl

end ReceiveArena

end DarwinArt.Binder
