/-
Borrowed ranges of the VM facade: envelopes of memory that others own.

An envelope is registered under its base, and envelopes may overlap. `borrowed_range` asks only the
envelope with the greatest base that is not above the start of a range. The answer is exact for
every range as long as no envelope ends before one that begins before it.
-/
import DarwinArt.Lib.Checked
import DarwinArt.Lib.Map
import DarwinArt.Lib.Run

set_option autoImplicit false

namespace DarwinArt.Vm.BorrowedRanges

open Lib

inductive Errno
  | EIO
  | EINVAL
  | EOVERFLOW
  | EEXIST
deriving DecidableEq

open Errno

/-- `borrowed_ranges`: the length of each envelope, by its base. -/
abbrev Ranges := Map ℕ ℕ

def GUEST_PAGE_SIZE : ℕ := 4096

/-- `darwin_art_bionic_vm_register_borrowed_range`. Whether there is a provider, and whether its
lock is poisoned, are arguments. A base that is there already is refused, after its length was
replaced. -/
def register_borrowed_range (active poisoned : Bool) (borrowed : Ranges) (start length : ℕ) :
    Except Errno Unit × Ranges :=
  if !active then (.error EIO, borrowed)
  else if start = 0 ∨ length = 0 ∨ start % GUEST_PAGE_SIZE ≠ 0 ∨ length % GUEST_PAGE_SIZE ≠ 0 then
    (.error .EINVAL, borrowed)
  else if checked_add 64 start length = none then (.error .EOVERFLOW, borrowed)
  else if poisoned then (.error EIO, borrowed)
  else (if borrowed[start]? = none then .ok () else .error .EEXIST, borrowed.insert start length)

/-- `darwin_art_bionic_vm_unregister_borrowed_range`. -/
def unregister_borrowed_range (active poisoned : Bool) (borrowed : Ranges) (address length : ℕ) :
    Except Errno Unit × Ranges :=
  if !active || poisoned then (.error EIO, borrowed)
  else if borrowed[address]? ≠ some length then (.error .EINVAL, borrowed)
  else (.ok (), borrowed.erase address)

def borrowed_range (ranges : Ranges) (start length : ℕ) : Bool :=
  match checked_add 64 start length with
  | none => false
  | some stop =>
    match lastBelow ranges (start + 1) with
    | none => false
    | some (base, range_length) =>
      decide (base ≤ start) && (checked_add 64 base range_length).any fun limit => stop ≤ limit

/-! ## Runs -/

inductive Op
  | Register (active poisoned : Bool) (start length : ℕ)
  | Unregister (active poisoned : Bool) (address length : ℕ)
deriving DecidableEq

def perform (ranges : Ranges) : Op → Except Errno Unit × Ranges
  | .Register active poisoned start length =>
    register_borrowed_range active poisoned ranges start length
  | .Unregister active poisoned address length =>
    unregister_borrowed_range active poisoned ranges address length

/-- A call with its result. -/
abbrev Event := Op × Except Errno Unit

def Step (ranges : Ranges) (e : Event) (ranges' : Ranges) : Prop := perform ranges e.1 = (e.2, ranges')

/-- The envelopes that are registered after one more call. -/
def follow (envelopes : Finset (ℕ × ℕ)) : Event → Finset (ℕ × ℕ)
  | (.Register _ _ start length, .ok _) => insert (start, length) envelopes
  | (.Unregister _ _ address length, .ok _) => envelopes.erase (address, length)
  | (_, .error _) => envelopes

/-- The envelopes that were registered, and not unregistered since. -/
def registered (es : List Event) : Finset (ℕ × ℕ) := es.foldl follow ∅

/-- The whole range lies in the envelope. -/
def Contains (envelope : ℕ × ℕ) (start length : ℕ) : Prop :=
  envelope.1 ≤ start ∧ start + length ≤ envelope.1 + envelope.2

/-- The table holds these envelopes, and none of them wraps around. -/
structure Holds (ranges : Ranges) (envelopes : Finset (ℕ × ℕ)) : Prop where
  entries : ∀ base length, ranges[base]? = some length ↔ (base, length) ∈ envelopes
  fits : ∀ e ∈ envelopes, e.1 + e.2 < 2 ^ 64

section Runs

variable {ranges ranges' : Ranges} {envelopes : Finset (ℕ × ℕ)} {e : Event}

/-- A call that does not come upon a base a second time. -/
theorem Holds.step (h : Holds ranges envelopes) (hstep : Step ranges e ranges')
    (hdistinct : e.2 ≠ .error .EEXIST) : Holds ranges' (follow envelopes e) := by
  obtain ⟨op, result⟩ := e
  cases op with
  | Register _ _ start =>
    simp only [Step, perform, register_borrowed_range] at hstep
    split_ifs at hstep with hactive hbad hsum hpoisoned hfree <;> cases hstep
    · exact h
    · exact h
    · exact h
    · exact h
    · refine ⟨fun base n => ?_, fun e he => ?_⟩
      · rw [follow, Finset.mem_insert, Prod.mk.injEq]
        by_cases hbase : base = start
        · rw [hbase, getElem?_insert_self, ← h.entries, hfree]
          simp [eq_comm]
        · rw [getElem?_insert_ne (Ne.symm hbase), h.entries]
          simp [hbase]
      · rcases Finset.mem_insert.mp he with rfl | he
        · rw [checked_add_eq_none] at hsum
          exact Nat.lt_of_not_le hsum
        · exact h.fits e he
    · exact absurd rfl hdistinct
  | Unregister _ _ address =>
    simp only [Step, perform, unregister_borrowed_range] at hstep
    split_ifs at hstep with hactive hentry <;> cases hstep
    · exact h
    · exact h
    · refine ⟨fun base n => ?_, fun e he => h.fits e (Finset.mem_of_mem_erase he)⟩
      rw [follow, Finset.mem_erase, ← h.entries, ne_eq, Prod.mk.injEq]
      by_cases hbase : base = address
      · rw [hbase, getElem?_erase_self, not_not.mp hentry]
        simp [eq_comm]
      · rw [getElem?_erase_ne (Ne.symm hbase)]
        simp [hbase]

/-- Envelopes with one base are the same. -/
theorem Holds.unique (h : Holds ranges envelopes) {a b : ℕ × ℕ} (ha : a ∈ envelopes)
    (hb : b ∈ envelopes) (hbase : a.1 = b.1) : a = b := by
  have hlength := (h.entries _ _).mpr ha
  rw [hbase, (h.entries _ _).mpr hb] at hlength
  exact Prod.ext hbase (Option.some.inj hlength).symm

theorem Holds.run {es : List Event} (hrun : Run Step ∅ es ranges)
    (hdistinct : ∀ e ∈ es, e.2 ≠ .error .EEXIST) : Holds ranges (registered es) := by
  induction hrun with
  | nil => exact ⟨fun base length => by simp [registered], fun e he => by simp [registered] at he⟩
  | snoc _ hlast ih =>
    rw [registered, List.foldl_append]
    have hbefore := ih fun e he => hdistinct e (List.mem_append_left _ he)
    exact hbefore.step hlast (hdistinct _ (List.mem_append_right _ List.mem_cons_self))

/-- **What the lookup finds**: an envelope with the range in it, and none that begins between the
base of that envelope and the start of the range. -/
theorem Holds.borrowed_range_iff (h : Holds ranges envelopes) (start length : ℕ) :
    borrowed_range ranges start length = true ↔ ∃ e ∈ envelopes, Contains e start length ∧
      ∀ e' ∈ envelopes, e'.1 ≤ start → e'.1 ≤ e.1 := by
  have hlast : ∀ e, lastBelow ranges (start + 1) = some e →
      e ∈ envelopes ∧ e.1 ≤ start ∧ ∀ e' ∈ envelopes, e'.1 ≤ start → e'.1 ≤ e.1 := by
    intro e hsome
    obtain ⟨hentry, hle, hmax⟩ := lastBelow_eq_some hsome
    refine ⟨(h.entries _ _).mp hentry, Nat.le_of_lt_succ hle, fun e' he' hstart => ?_⟩
    exact hmax e'.1 e'.2 ((h.entries _ _).mpr he') (Nat.lt_succ_of_le hstart)
  constructor
  · intro hfound
    unfold borrowed_range at hfound
    split at hfound
    · cases hfound
    next stop hstop =>
    split at hfound
    · cases hfound
    next base n hsome =>
    obtain ⟨hmem, hle, hmax⟩ := hlast _ hsome
    simp only [Bool.and_eq_true, Option.any_eq_true, decide_eq_true_eq] at hfound
    obtain ⟨-, limit, hlimit, hstop'⟩ := hfound
    rw [checked_add_eq_some] at hstop hlimit
    exact ⟨_, hmem, ⟨hle, by omega⟩, hmax⟩
  · rintro ⟨⟨base, n⟩, hmem, ⟨hle, hend⟩, hmax⟩
    have hfits := h.fits _ hmem
    have hstop : checked_add 64 start length = some (start + length) :=
      checked_add_eq_some.mpr ⟨by omega, rfl⟩
    have hlimit : checked_add 64 base n = some (base + n) := checked_add_eq_some.mpr ⟨hfits, rfl⟩
    unfold borrowed_range
    rw [hstop]
    cases hsome : lastBelow ranges (start + 1) with
    | none => exact absurd (Nat.lt_succ_of_le hle) (lastBelow_eq_none hsome ((h.entries _ _).mpr hmem))
    | some found =>
      -- the bases are distinct, so the greatest one is that of the envelope
      obtain ⟨hmem', hle', hmax'⟩ := hlast found hsome
      obtain rfl := h.unique hmem' hmem (Nat.le_antisymm (hmax _ hmem' hle') (hmax' _ hmem hle))
      dsimp only
      rw [hlimit]
      simpa using ⟨hle, hend⟩

end Runs

/-- No envelope ends before one that begins before it. -/
def Unnested (envelopes : Finset (ℕ × ℕ)) : Prop :=
  ∀ e ∈ envelopes, ∀ e' ∈ envelopes, e.1 < e'.1 → e.1 + e.2 ≤ e'.1 + e'.2

/-- **The answers are exact if and only if no envelope is nested.** After every run in which no base
is registered twice, `borrowed_range` says of every range whether an envelope contains it, exactly
when no registered envelope ends before one that begins before it. -/
theorem borrowed_range_exact_iff {es : List Event} {ranges : Ranges} (hrun : Run Step ∅ es ranges)
    (hdistinct : ∀ e ∈ es, e.2 ≠ .error .EEXIST) :
    (∀ start length, borrowed_range ranges start length = true ↔
      ∃ e ∈ registered es, Contains e start length) ↔ Unnested (registered es) := by
  have h := Holds.run hrun hdistinct
  constructor
  · intro hexact e he e' he' hlt
    by_contra hend
    -- a range from the nested base to behind the nested end
    obtain ⟨found, hfound, ⟨hle, hin⟩, hmax⟩ := (h.borrowed_range_iff e'.1 (e'.2 + 1)).mp
      ((hexact e'.1 (e'.2 + 1)).mpr ⟨e, he, Nat.le_of_lt hlt, by omega⟩)
    obtain rfl := h.unique he' hfound (Nat.le_antisymm (hmax e' he' le_rfl) hle)
    omega
  · intro hunnested start length
    rw [h.borrowed_range_iff]
    refine ⟨fun ⟨e, he, hin, _⟩ => ⟨e, he, hin⟩, fun ⟨e, he, hle, hin⟩ => ?_⟩
    -- the envelope that begins last among those that begin at the start or before
    obtain ⟨last, hlast, hmax⟩ := ((registered es).filter (·.1 ≤ start)).exists_max_image (·.1)
      ⟨e, Finset.mem_filter.mpr ⟨he, hle⟩⟩
    obtain ⟨hmem, hstart⟩ := Finset.mem_filter.mp hlast
    refine ⟨last, hmem, ⟨hstart, ?_⟩, fun e' he' hle' => hmax e' (Finset.mem_filter.mpr ⟨he', hle'⟩)⟩
    rcases Nat.lt_or_ge e.1 last.1 with hlt | hge
    · exact hin.trans (hunnested e he last hmem hlt)
    · obtain rfl := h.unique he hmem
        (Nat.le_antisymm (hmax e (Finset.mem_filter.mpr ⟨he, hle⟩)) hge)
      exact hin

/-- Two envelopes that overlap, the second of which ends later. -/
theorem overlapping_envelopes_are_exact : ∃ es ranges, Run Step ∅ es ranges ∧
    (∀ e ∈ es, e.2 ≠ .error .EEXIST) ∧ registered es = {(0x10000, 0x4000), (0x12000, 0x4000)} ∧
    ∀ start length, borrowed_range ranges start length = true ↔
      ∃ e ∈ registered es, Contains e start length := by
  have hrun := Run.of_trace perform
    [.Register true false 0x10000 0x4000, .Register true false 0x12000 0x4000] ∅
  refine ⟨_, _, hrun, by decide, by decide, (borrowed_range_exact_iff hrun (by decide)).mpr ?_⟩
  unfold Unnested
  decide

/-- An envelope inside another. A range in the outer one, behind the inner one, is denied. -/
theorem nested_envelope_hides_outer : ∃ es ranges, Run Step ∅ es ranges ∧
    (∀ e ∈ es, e.2 ≠ .error .EEXIST) ∧ (0x10000, 0x10000) ∈ registered es ∧
    Contains (0x10000, 0x10000) 0x14000 0x1000 ∧ borrowed_range ranges 0x14000 0x1000 = false := by
  have hrun := Run.of_trace perform
    [.Register true false 0x10000 0x10000, .Register true false 0x12000 0x1000] ∅
  exact ⟨_, _, hrun, by decide, by decide, ⟨by decide, by decide⟩, by decide +kernel⟩

end DarwinArt.Vm.BorrowedRanges
