/-
The handle table of one process: `reference_table.rs`, and the commands that update it:
`reference_command.rs`.

A table gives each target one handle, and counts the strong and the weak references behind
it. A local target is a node, which hears only of the first and the last reference of a
table (`update_remote`); a remote one is kept by the authority. The functions return what
the source returns, the table and the heap, so that what an error leaves behind is part of
the model.
-/
import DarwinArt.Binder.NodeOwner

set_option autoImplicit false

namespace DarwinArt.Binder

open Lib

inductive Target
  | Local (node : NodeKey)
  | Remote (node : NodeToken)
deriving DecidableEq

structure Reference where
  target : Target
  counts : Counts
deriving DecidableEq

/-- `ReferenceTable`: handles in their order. -/
structure ReferenceTable where
  entries : Map ℕ Reference

/-- The count that a strength names. -/
def Counts.count (counts : Counts) : Strength → ℕ
  | .Strong => counts.strong
  | .Weak => counts.weak

/-- `count_mut`, written. -/
def Counts.set_count (counts : Counts) (strength : Strength) (count : ℕ) : Counts :=
  match strength with
  | .Strong => { counts with strong := count }
  | .Weak => { counts with weak := count }

namespace ReferenceTable

inductive Error
  | UnknownHandle
  | StrongRequired
  | Underflow
  | Overflow
  | NoHandles
  | NodeState
  | RemoteHandle
deriving DecidableEq

inductive ResolvedTarget
  | Local (hold : LocalHold)
  | Remote (node : NodeToken)
deriving DecidableEq

/-- `ReferenceTable::default`. -/
def new : ReferenceTable := ⟨∅⟩

def update_target (heap : Heap) (target : Target) (before after : Counts) : Option Heap :=
  match target with
  | .Local node => heap.update_remote node before after
  | .Remote _ => some heap

section

variable (table : ReferenceTable) (heap : Heap) (handle : ℕ) (strength : Strength)

def increment : Except Error (Counts × Counts) × ReferenceTable × Heap :=
  match table.entries[handle]? with
  | none => (.error .UnknownHandle, table, heap)
  | some reference =>
    match bounded_succ (reference.counts.count strength) with
    | none => (.error .Overflow, table, heap)
    | some count =>
      let after := reference.counts.set_count strength count
      match update_target heap reference.target reference.counts after with
      | none => (.error .NodeState, table, heap)
      | some heap =>
        (.ok (reference.counts, after),
          ⟨table.entries.insert handle { reference with counts := after }⟩, heap)

/-- `decrement`. The entry goes with its last reference. -/
def decrement : Except Error (Counts × Counts) × ReferenceTable × Heap :=
  match table.entries[handle]? with
  | none => (.error .UnknownHandle, table, heap)
  | some reference =>
    match checked_sub (reference.counts.count strength) 1 with
    | none => (.error .Underflow, table, heap)
    | some count =>
      let after := reference.counts.set_count strength count
      match update_target heap reference.target reference.counts after with
      | none => (.error .NodeState, table, heap)
      | some heap =>
        (.ok (reference.counts, after),
          if after = Counts.zero then ⟨table.entries.erase handle⟩
          else ⟨table.entries.insert handle { reference with counts := after }⟩, heap)

/-- The search for a free handle over the handles in use, in their order. -/
def free_handle (handle : ℕ) : List ℕ → Option ℕ
  | [] => some handle
  | occupied :: keys =>
    if occupied < handle then free_handle handle keys
    else if handle < occupied then some handle
    else
      match checked_add 32 occupied 1 with
      | none => none
      | some handle => free_handle handle keys

/-- The entry of a target: the first that has it. -/
def find (target : Target) : Option (ℕ × Reference) :=
  table.entries.toList.find? fun entry => entry.2.target = target

def retain_from (target : Target) (strength : Strength)
    (start : ℕ) : Except Error (ℕ × Counts × Counts) × ReferenceTable × Heap :=
  match table.find target with
  | some (handle, _) =>
    match table.increment heap handle strength with
    | (.error e, table, heap) => (.error e, table, heap)
    | (.ok (before, after), table, heap) => (.ok (handle, before, after), table, heap)
  | none =>
    match free_handle start table.entries.keys with
    | none => (.error .NoHandles, table, heap)
    | some handle =>
      let after := Counts.zero.set_count strength 1
      match update_target heap target Counts.zero after with
      | none => (.error .NodeState, table, heap)
      | some heap =>
        (.ok (handle, Counts.zero, after), ⟨table.entries.insert handle ⟨target, after⟩⟩, heap)

def retain (node : NodeKey) (strength : Strength) :
    Except Error (ℕ × Counts × Counts) × ReferenceTable × Heap :=
  table.retain_from heap (.Local node) strength 1

def retain_context_manager (node : NodeKey)
    (strength : Strength) : Except Error (ℕ × Counts × Counts) × ReferenceTable × Heap :=
  table.retain_from heap (.Local node) strength 0

def retain_remote (node : NodeToken)
    (strength : Strength) : Except Error (ℕ × Counts × Counts) × ReferenceTable × Heap :=
  table.retain_from heap (.Remote node) strength 1

def retain_remote_context_manager (node : NodeToken)
    (strength : Strength) : Except Error (ℕ × Counts × Counts) × ReferenceTable × Heap :=
  table.retain_from heap (.Remote node) strength 0

/-- `resolve`: a local target comes with a temporary hold. -/
def resolve : Except Error ResolvedTarget × Heap :=
  match table.entries[handle]? with
  | none => (.error .UnknownHandle, heap)
  | some reference =>
    if strength = .Strong ∧ reference.counts.strong = 0 then (.error .StrongRequired, heap)
    else
      match reference.target with
      | .Local node =>
        match heap.hold node .Temporary with
        | (.error _, heap) => (.error .Overflow, heap)
        | (.ok hold, heap) => (.ok (.Local hold), heap)
      | .Remote node => (.ok (.Remote node), heap)

/-- `lookup`: `resolve` where only a local target will do. -/
def lookup : Except Error LocalHold × Heap :=
  match table.resolve heap handle strength with
  | (.error e, heap) => (.error e, heap)
  | (.ok (.Local hold), heap) => (.ok hold, heap)
  | (.ok (.Remote _), heap) => (.error .RemoteHandle, heap)

def counts : Except Error Counts :=
  match table.entries[handle]? with
  | none => .error .UnknownHandle
  | some reference => .ok reference.counts

/-- The loop of `ReferenceTable::drop`: `none` is the panic of its `expect`. -/
def drop_references (heap : Heap) : List Reference → Option Heap
  | [] => some heap
  | reference :: references =>
    match update_target heap reference.target reference.counts Counts.zero with
    | none => none
    | some heap => drop_references heap references

def drop : Option Heap :=
  drop_references heap (table.entries.toList.map Prod.snd)

end

end ReferenceTable

namespace ReferenceCommand

inductive Error
  | Framing (error : Command.DecodeError)
  | NotReferenceUpdate (kind : Command.Kind)
  | ContextManagerRequired
deriving DecidableEq

structure Outcome where
  bytes : ℕ
  update : Except ReferenceTable.Error (Counts × Counts)

/-- The strength of a reference command, and whether it increments. -/
def of_kind : Command.Kind → Option (Strength × Bool)
  | .Increfs => some (.Weak, true)
  | .Acquire => some (.Strong, true)
  | .Release => some (.Strong, false)
  | .Decrefs => some (.Weak, false)
  | _ => none

/-- `dispatch`. The payload of a reference command has four bytes, so the handle can be
read. -/
def dispatch (table : ReferenceTable) (heap : Heap) (input : List UInt8) :
    Except Error Outcome × ReferenceTable × Heap :=
  match Command.decode input with
  | .error e => (.error (.Framing e), table, heap)
  | .ok ((kind, payload), bytes) =>
    match of_kind kind with
    | none => (.error (.NotReferenceUpdate kind), table, heap)
    | some (strength, increment) =>
      let handle := ((from_le_bytes32 payload).getD 0).toNat
      if handle = 0 then (.error .ContextManagerRequired, table, heap)
      else
        match table.counts handle with
        | .error e => (.ok ⟨bytes, .error e⟩, table, heap)
        | .ok counts =>
          if strength = .Strong ∧ counts.strong = 0 then
            (.ok ⟨bytes, .error .StrongRequired⟩, table, heap)
          else
            let (update, table, heap) :=
              if increment then table.increment heap handle strength
              else table.decrement heap handle strength
            (.ok ⟨bytes, update⟩, table, heap)

end ReferenceCommand

namespace ReferenceTable

/-! ## Tables -/

/-- What every table keeps: a target has one handle, an entry has a reference, and counts
are bounded. -/
structure Wf (table : ReferenceTable) : Prop where
  distinct : ∀ (handle handle' : ℕ) reference reference',
    table.entries[handle]? = some reference → table.entries[handle']? = some reference' →
    reference.target = reference'.target → handle = handle'
  nonzero : ∀ (handle : ℕ) reference, table.entries[handle]? = some reference →
    reference.counts ≠ Counts.zero
  bounded : ∀ (handle : ℕ) reference, table.entries[handle]? = some reference →
    reference.counts.strong ≤ i32_max ∧ reference.counts.weak ≤ i32_max

/-- The references a table has to a target. -/
def held (table : ReferenceTable) (target : Target) : Counts :=
  match table.find target with
  | none => Counts.zero
  | some entry => entry.2.counts

/-- What a successful update does to a table and the heap: an entry is changed, loses its
last reference, or is made. -/
inductive Move (table : ReferenceTable) (heap : Heap) : ReferenceTable → Heap → Prop
  | changed {handle : ℕ} {target : Target} {before after : Counts} {heap' : Heap}
      (hentry : table.entries[handle]? = some ⟨target, before⟩) (hafter : after ≠ Counts.zero)
      (hbound : before.strong ≤ i32_max ∧ before.weak ≤ i32_max →
        after.strong ≤ i32_max ∧ after.weak ≤ i32_max)
      (hupdate : update_target heap target before after = some heap') :
      Move table heap ⟨table.entries.insert handle ⟨target, after⟩⟩ heap'
  | removed {handle : ℕ} {target : Target} {before : Counts} {heap' : Heap}
      (hentry : table.entries[handle]? = some ⟨target, before⟩)
      (hupdate : update_target heap target before Counts.zero = some heap') :
      Move table heap ⟨table.entries.erase handle⟩ heap'
  | allocated {handle : ℕ} {target : Target} {after : Counts} {heap' : Heap}
      (hnew : ∀ (handle : ℕ) reference, table.entries[handle]? = some reference →
        reference.target ≠ target)
      (hafter : after ≠ Counts.zero)
      (hbound : after.strong ≤ i32_max ∧ after.weak ≤ i32_max)
      (hfree : table.entries[handle]? = none)
      (hupdate : update_target heap target Counts.zero after = some heap') :
      Move table heap ⟨table.entries.insert handle ⟨target, after⟩⟩ heap'

theorem wf_new : Wf new := by
  constructor <;> simp [new]

section Counting

theorem set_count_count (counts : Counts) (strength : Strength) (count : ℕ) :
    (counts.set_count strength count).count strength = count := by
  cases strength <;> rfl

theorem set_count_bounded {counts : Counts} {strength : Strength} {count : ℕ}
    (hcount : count ≤ i32_max) (h : counts.strong ≤ i32_max ∧ counts.weak ≤ i32_max) :
    (counts.set_count strength count).strong ≤ i32_max ∧
      (counts.set_count strength count).weak ≤ i32_max := by
  cases strength with
  | Strong => exact ⟨hcount, h.2⟩
  | Weak => exact ⟨h.1, hcount⟩

theorem count_le {counts : Counts} (strength : Strength)
    (h : counts.strong ≤ i32_max ∧ counts.weak ≤ i32_max) : counts.count strength ≤ i32_max := by
  cases strength with
  | Strong => exact h.1
  | Weak => exact h.2

theorem ne_zero_of_count_pos {counts : Counts} (strength : Strength)
    (h : 0 < counts.count strength) : counts ≠ Counts.zero := by
  intro hzero
  rw [hzero] at h
  cases strength <;> exact absurd h (by decide)

end Counting

section Moves

variable {table table' : ReferenceTable} {heap heap' : Heap} {strength : Strength} {handle : ℕ}
  {reference : Reference} {start : ℕ} {target : Target} {before after : Counts}

/-- An increment fails and changes nothing, or moves. -/
theorem increment_cases (table : ReferenceTable) (heap : Heap) (handle : ℕ) (strength : Strength) :
    (∃ e, table.increment heap handle strength = (.error e, table, heap)) ∨
      ∃ counts table' heap', table.increment heap handle strength = (.ok counts, table', heap') ∧
        Move table heap table' heap' := by
  unfold increment
  split
  · exact .inl ⟨_, rfl⟩
  next reference hreference =>
  split
  · exact .inl ⟨_, rfl⟩
  next count hcount =>
  dsimp only
  split
  · exact .inl ⟨_, rfl⟩
  next heap' hupdate =>
  refine .inr ⟨_, _, _, rfl, ?_⟩
  obtain ⟨hcount, hle⟩ := bounded_succ_eq_some.mp hcount
  apply Move.changed hreference _ _ hupdate
  · apply ne_zero_of_count_pos strength
    rw [set_count_count]
    omega
  · apply set_count_bounded
    omega

/-- A decrement fails and changes nothing, or moves. -/
theorem decrement_cases (table : ReferenceTable) (heap : Heap) (handle : ℕ) (strength : Strength) :
    (∃ e, table.decrement heap handle strength = (.error e, table, heap)) ∨
      ∃ counts table' heap', table.decrement heap handle strength = (.ok counts, table', heap') ∧
        Move table heap table' heap' := by
  unfold decrement
  split
  · exact .inl ⟨_, rfl⟩
  next reference hreference =>
  split
  · exact .inl ⟨_, rfl⟩
  next count hcount =>
  dsimp only
  split
  · exact .inl ⟨_, rfl⟩
  next heap' hupdate =>
  refine .inr ⟨_, _, _, rfl, ?_⟩
  obtain ⟨-, hcount⟩ := checked_sub_eq_some.mp hcount
  split
  · next hzero =>
    rw [hzero] at hupdate
    exact .removed hreference hupdate
  · next hzero =>
    apply Move.changed hreference hzero _ hupdate
    intro hbefore
    have hle := count_le strength hbefore
    apply set_count_bounded _ hbefore
    omega

variable {target : Target} {heap₁ heap₂ : Heap} {before : Counts}

theorem find_eq_none (h : table.find target = none) (handle : ℕ)
    (reference : Reference) (hentry : table.entries[handle]? = some reference) :
    reference.target ≠ target := by
  have hmem := mem_toList_iff_getElem?_eq_some.mpr hentry
  simpa using List.find?_eq_none.mp h (handle, reference) hmem

theorem find_eq_some (h : table.find target = some (handle, reference)) :
    table.entries[handle]? = some reference ∧ reference.target = target := by
  have hmem := List.mem_of_find?_eq_some h
  have htarget := List.find?_some h
  exact ⟨mem_toList_iff_getElem?_eq_some.mp hmem, by simpa using htarget⟩

variable {start : ℕ} {after : Counts} {strength : Strength}

/-- **The search finds the least free handle.** The handles in use come in their order. -/
theorem free_handle_least {keys : List ℕ}
    (hsorted : keys.Pairwise (fun a b => a < b)) (h : free_handle start keys = some handle) :
    start ≤ handle ∧ handle ∉ keys ∧ ∀ x, start ≤ x → x < handle → x ∈ keys := by
  induction keys generalizing start with
  | nil =>
    have hhandle : start = handle := Option.some.inj h
    subst hhandle
    refine ⟨le_rfl, by simp, fun x hle hlt => ?_⟩
    omega
  | cons occupied _ ih =>
    obtain ⟨hfirst, hrest⟩ := List.pairwise_cons.mp hsorted
    unfold free_handle at h
    split at h
    · next hbelow =>
      obtain ⟨hle, hfree, hused⟩ := ih hrest h
      refine ⟨hle, ?_, fun x hx hlt => List.mem_cons_of_mem _ (hused x hx hlt)⟩
      rw [List.mem_cons]
      rintro (heq | hmem)
      · omega
      · exact hfree hmem
    · split at h
      · next habove =>
        -- everything in use from here on lies above `start`
        have hhandle : start = handle := Option.some.inj h
        subst hhandle
        refine ⟨le_rfl, ?_, fun x hle hlt => ?_⟩
        · rw [List.mem_cons]
          rintro (heq | hmem)
          · omega
          · have := hfirst _ hmem
            omega
        · omega
      · split at h
        · cases h
        · next next hnext =>
          have hnext := (checked_add_eq_some.mp hnext).2
          obtain ⟨hle, hfree, hused⟩ := ih hrest h
          refine ⟨by omega, ?_, fun x hx hlt => ?_⟩
          · rw [List.mem_cons]
            rintro (heq | hmem)
            · omega
            · exact hfree hmem
          · rw [List.mem_cons]
            by_cases heq : x = occupied
            · exact .inl heq
            · exact .inr (hused x (by omega) hlt)

theorem keys_sorted (table : ReferenceTable) :
    table.entries.keys.Pairwise (fun a b => a < b) := by
  refine Std.ExtTreeMap.ordered_keys.imp fun h => ?_
  exact Nat.compare_eq_lt.mp h

theorem not_mem_keys :
    handle ∉ table.entries.keys ↔ table.entries[handle]? = none := by
  rw [Std.ExtTreeMap.mem_keys, ← Std.ExtTreeMap.contains_iff_mem, Bool.not_eq_true,
    contains_eq_false_iff]

/-- What `retain_from` can do. A handle it makes is the least free one. -/
theorem retain_from_cases (table : ReferenceTable) (heap : Heap) (target : Target)
    (strength : Strength) (start : ℕ) :
    (∃ e, table.retain_from heap target strength start = (.error e, table, heap)) ∨
      ∃ handle before after table' heap',
        table.retain_from heap target strength start =
          (.ok (handle, before, after), table', heap') ∧
        Move table heap table' heap' ∧
        ((∀ (h : ℕ) reference, table.entries[h]? = some reference → reference.target ≠ target) →
          start ≤ handle ∧ table.entries[handle]? = none ∧
          ∀ x, start ≤ x → x < handle → table.entries[x]? ≠ none) := by
  unfold retain_from
  split
  · next handle reference hfind =>
    rcases increment_cases table heap handle strength with ⟨e, he⟩ | ⟨⟨before, after⟩, table', heap',
      hok, hmove⟩
    · rw [he]
      exact .inl ⟨e, rfl⟩
    · rw [hok]
      refine .inr ⟨handle, before, after, table', heap', rfl, hmove, fun hnew => ?_⟩
      obtain ⟨hentry, htarget⟩ := find_eq_some hfind
      exact absurd htarget (hnew handle reference hentry)
  · next hfind =>
    split
    · exact .inl ⟨_, rfl⟩
    next handle hhandle =>
    dsimp only
    split
    · exact .inl ⟨_, rfl⟩
    next heap' hupdate =>
    obtain ⟨hle, hfree, hused⟩ := free_handle_least (keys_sorted table) hhandle
    have hone : (1 : ℕ) ≤ i32_max := by decide
    refine .inr ⟨handle, _, _, _, heap', rfl, ?_, fun _ => ⟨hle, not_mem_keys.mp hfree, ?_⟩⟩
    · apply Move.allocated (find_eq_none hfind) _ _ (not_mem_keys.mp hfree) hupdate
      · apply ne_zero_of_count_pos strength
        rw [set_count_count]
        exact Nat.one_pos
      · exact set_count_bounded hone ⟨Nat.zero_le _, Nat.zero_le _⟩
    · intro x hx hlt hnone
      exact not_mem_keys.mpr hnone (hused x hx hlt)

/-- An entry is changed or made: the other entries keep their targets apart. -/
theorem Wf.insert (h : Wf table) (hnonzero : reference.counts ≠ Counts.zero)
    (hbound : reference.counts.strong ≤ i32_max ∧ reference.counts.weak ≤ i32_max)
    (hother : ∀ (handle' : ℕ) reference', table.entries[handle']? = some reference' →
      reference'.target = reference.target → handle' = handle) :
    Wf ⟨table.entries.insert handle reference⟩ := by
  constructor
  · intro x y r r' hx hy htarget
    rcases getElem?_insert_cases hx with ⟨hxe, hr⟩ | ⟨hxe, hx⟩
    · rcases getElem?_insert_cases hy with ⟨hye, -⟩ | ⟨hye, hy⟩
      · rw [hxe, hye]
      · rw [hr] at htarget
        exact absurd (hother y r' hy htarget.symm) hye
    · rcases getElem?_insert_cases hy with ⟨hye, hr'⟩ | ⟨hye, hy⟩
      · rw [hr'] at htarget
        exact absurd (hother x r hx htarget) hxe
      · exact h.distinct x y r r' hx hy htarget
  · intro x r hx
    rcases getElem?_insert_cases hx with ⟨-, hr⟩ | ⟨-, hx⟩
    · rwa [hr]
    · exact h.nonzero x r hx
  · intro x r hx
    rcases getElem?_insert_cases hx with ⟨-, hr⟩ | ⟨-, hx⟩
    · rwa [hr]
    · exact h.bounded x r hx

/-- An entry goes. -/
theorem Wf.erase (h : Wf table) (handle : ℕ) : Wf ⟨table.entries.erase handle⟩ := by
  constructor
  · intro x y r r' hx hy
    exact h.distinct x y r r' (getElem?_erase_cases hx).2 (getElem?_erase_cases hy).2
  · intro x r hx
    exact h.nonzero x r (getElem?_erase_cases hx).2
  · intro x r hx
    exact h.bounded x r (getElem?_erase_cases hx).2

/-- **Every move keeps the table well formed.** -/
theorem Wf.move (h : Wf table) (hmove : Move table heap table' heap') : Wf table' := by
  cases hmove with
  | @changed handle target before after _ hentry hafter hbound hupdate =>
    apply h.insert hafter (hbound (h.bounded handle _ hentry))
    intro x r hx htarget
    exact h.distinct x handle r _ hx hentry htarget
  | removed => exact h.erase _
  | allocated hnew hafter hbound =>
    apply h.insert hafter hbound
    intro x r hx htarget
    exact absurd htarget (hnew x r hx)

theorem Wf.retain_from (h : Wf table) (heap : Heap) (target : Target) (strength : Strength)
    (start : ℕ) : Wf (table.retain_from heap target strength start).2.1 := by
  rcases retain_from_cases table heap target strength start with
    ⟨e, he⟩ | ⟨_, _, _, _, _, hok, hmove, -⟩
  · rwa [he]
  · rw [hok]
    exact h.move hmove

/-! ## Taking a reference back -/

theorem update_target_undo (hany : before ≠ Counts.zero → after ≠ Counts.zero)
    (hstrong : before.strong ≠ 0 → after.strong ≠ 0)
    (h : update_target heap target before after = some heap₁) (hsame : heap₂.nodes = heap₁.nodes) :
    ∃ heap₃, update_target heap₂ target after before = some heap₃ ∧ heap₃.nodes = heap.nodes := by
  cases target with
  | Local => exact Heap.update_remote_undo hany hstrong h hsame
  | Remote =>
    rw [← Option.some.inj h] at hsame
    exact ⟨heap₂, rfl, hsame⟩

theorem set_count_undo (counts : Counts) (strength : Strength) (count : ℕ) :
    (counts.set_count strength count).set_count strength (counts.count strength) = counts := by
  cases strength <;> rfl

theorem set_count_succ_strong (counts : Counts) (strength : Strength) (h : counts.strong ≠ 0) :
    (counts.set_count strength (counts.count strength + 1)).strong ≠ 0 := by
  cases strength with
  | Strong => exact Nat.succ_ne_zero _
  | Weak => exact h

theorem written_entry (table : ReferenceTable) (handle : ℕ) (reference : Reference) :
    (⟨table.entries.insert handle reference⟩ : ReferenceTable).entries[handle]? =
      some reference :=
  getElem?_insert_self

/-- An entry that was counted up can be counted down again. -/
theorem decrement_undo
    (hentry : table.entries[handle]? =
      some ⟨target, before.set_count strength (before.count strength + 1)⟩)
    (hupdate : update_target heap target before
      (before.set_count strength (before.count strength + 1)) = some heap₁)
    (hsame : heap₂.nodes = heap₁.nodes) :
    ∃ counts heap₃, table.decrement heap₂ handle strength = (.ok counts,
        if before = Counts.zero then ⟨table.entries.erase handle⟩
        else ⟨table.entries.insert handle ⟨target, before⟩⟩, heap₃) ∧
      heap₃.nodes = heap.nodes := by
  have hpos : before.set_count strength (before.count strength + 1) ≠ Counts.zero := by
    apply ne_zero_of_count_pos strength
    rw [set_count_count]
    exact Nat.succ_pos _
  obtain ⟨heap₃, hundo, hnodes⟩ :=
    update_target_undo (fun _ => hpos) (set_count_succ_strong before strength) hupdate hsame
  have hsub : checked_sub (before.count strength + 1) 1 = some (before.count strength) :=
    checked_sub_eq_some.mpr ⟨by omega, by omega⟩
  simp only [decrement, hentry, set_count_count, hsub, set_count_undo, hundo]
  exact ⟨_, heap₃, rfl, hnodes⟩

/-- What `retain_from` has done when it returns a handle: the target had an entry under it, or it
was found free; and its counts are one more of the strength. -/
theorem retain_from_ok
    (hretain : table.retain_from heap target strength start =
      (.ok (handle, before, after), table', heap')) :
    (table.find target = some (handle, ⟨target, before⟩) ∨
      table.find target = none ∧ before = Counts.zero ∧
        free_handle start table.entries.keys = some handle) ∧
    before.count strength < i32_max ∧
    after = before.set_count strength (before.count strength + 1) ∧
    table' = ⟨table.entries.insert handle ⟨target, after⟩⟩ ∧
    update_target heap target before after = some heap' := by
  unfold retain_from at hretain
  split at hretain
  · next handle' reference hfind =>
    obtain ⟨hentry, rfl⟩ := find_eq_some hfind
    simp only [increment, hentry] at hretain
    cases hcount : bounded_succ (reference.counts.count strength) with
    | none =>
      rw [hcount] at hretain
      exact nomatch hretain
    | some count =>
      obtain ⟨hsucc, hle⟩ := bounded_succ_eq_some.mp hcount
      rw [hcount, hsucc] at hretain
      dsimp only at hretain
      cases hupdate : update_target heap reference.target reference.counts
          (reference.counts.set_count strength (reference.counts.count strength + 1)) with
      | none =>
        rw [hupdate] at hretain
        exact nomatch hretain
      | some heap₁ =>
        rw [hupdate] at hretain
        cases hretain
        exact ⟨Or.inl hfind, hle, rfl, rfl, hupdate⟩
  · next hfind =>
    split at hretain
    · exact nomatch hretain
    next handle' hfree =>
    dsimp only at hretain
    split at hretain
    · exact nomatch hretain
    next heap₁ hupdate =>
    cases hretain
    have hcount : Counts.zero.count strength = 0 := by cases strength <;> rfl
    rw [hcount]
    exact ⟨Or.inr ⟨hfind, rfl, hfree⟩, by decide, rfl, rfl, hupdate⟩

/-- **A reference that was retained can be given back**, and the table and the nodes are then
what they were. -/
theorem retain_from_undo (h : Wf table) {heap₁ heap₂ : Heap}
    (hretain : table.retain_from heap target strength start =
      (.ok (handle, before, after), table', heap₁)) (hsame : heap₂.nodes = heap₁.nodes) :
    ∃ counts heap₃, table'.decrement heap₂ handle strength = (.ok counts, table, heap₃) ∧
      heap₃.nodes = heap.nodes := by
  obtain ⟨hbefore, -, rfl, rfl, hupdate⟩ := retain_from_ok hretain
  obtain ⟨counts, heap₃, hdecrement, hnodes⟩ :=
    decrement_undo (written_entry table handle _) hupdate hsame
  refine ⟨counts, heap₃, ?_, hnodes⟩
  rw [hdecrement]
  rcases hbefore with hfind | ⟨-, rfl, hfree⟩
  · -- the target had an entry
    obtain ⟨hentry, -⟩ := find_eq_some hfind
    rw [if_neg (h.nonzero _ _ hentry)]
    rw [insert_insert, insert_of_some hentry]
  · -- the target was new, and its handle free
    obtain ⟨-, hnot, -⟩ := free_handle_least (keys_sorted table) hfree
    rw [if_pos rfl]
    rw [erase_insert, erase_of_none (not_mem_keys.mp hnot)]

/-! ## The references of a table to a target -/

/-- The entry of a target says what is held. -/
theorem held_of_entry (h : Wf table) {counts : Counts}
    (hentry : table.entries[handle]? = some ⟨target, counts⟩) : table.held target = counts := by
  unfold held
  cases hfind : table.find target with
  | none => exact absurd rfl (find_eq_none hfind handle _ hentry)
  | some entry =>
    obtain ⟨handle', reference⟩ := entry
    obtain ⟨hentry', htarget⟩ := find_eq_some hfind
    have hsame := h.distinct handle' handle reference _ hentry' hentry htarget
    rw [hsame, hentry] at hentry'
    rw [← Option.some.inj hentry']

/-- A target without an entry is not held. -/
theorem held_of_none
    (h : ∀ (handle : ℕ) reference, table.entries[handle]? = some reference →
      reference.target ≠ target) : table.held target = Counts.zero := by
  unfold held
  cases hfind : table.find target with
  | none => rfl
  | some =>
    obtain ⟨hentry, htarget⟩ := find_eq_some hfind
    exact absurd htarget (h _ _ hentry)

/-- What is held comes from an entry. -/
theorem entry_of_held (h : table.held target ≠ Counts.zero) :
    ∃ handle : ℕ, table.entries[handle]? = some ⟨target, table.held target⟩ := by
  unfold held at h ⊢
  cases hfind : table.find target with
  | none =>
    rw [hfind] at h
    exact absurd rfl h
  | some entry =>
    obtain ⟨handle, ⟨target', counts⟩⟩ := entry
    obtain ⟨hentry, htarget⟩ := find_eq_some hfind
    have htarget : target' = target := htarget
    rw [← htarget]
    exact ⟨handle, hentry⟩

/-- Two tables with the same entries of a target hold it alike. -/
theorem held_congr (h : Wf table) (h' : Wf table')
    (hsame : ∀ (handle : ℕ) counts, table.entries[handle]? = some ⟨target, counts⟩ ↔
      table'.entries[handle]? = some ⟨target, counts⟩) :
    table'.held target = table.held target := by
  by_cases hheld : table.held target = Counts.zero
  · rw [hheld]
    apply held_of_none
    rintro handle ⟨target', counts⟩ hentry htarget
    have htarget : target' = target := htarget
    rw [htarget] at hentry
    have hentry := (hsame handle counts).mpr hentry
    rw [held_of_entry h hentry] at hheld
    exact h.nonzero handle _ hentry hheld
  · obtain ⟨handle, hentry⟩ := entry_of_held hheld
    exact held_of_entry h' ((hsame handle _).mp hentry)

/-- **A move, for the targets.** One target is held differently, and its node has been told. -/
theorem Move.held (h : Wf table) (hmove : Move table heap table' heap') :
    ∃ target, update_target heap target (table.held target) (table'.held target) = some heap' ∧
      ∀ other, other ≠ target → table'.held other = table.held other := by
  have h' := h.move hmove
  cases hmove with
  | @changed handle target before after _ hentry hafter hbound hupdate =>
    have hentry' : (table.entries.insert handle ⟨target, after⟩)[handle]? = some ⟨target, after⟩ :=
      getElem?_insert_self
    refine ⟨target, ?_, fun other hne => held_congr h h' fun x counts => ?_⟩
    · rwa [held_of_entry h hentry, held_of_entry h' hentry']
    · show _ ↔ (table.entries.insert handle ⟨target, after⟩)[x]? = _
      rcases eq_or_ne handle x with rfl | hx
      · simp [hentry, hne.symm]
      · rw [getElem?_insert_ne hx]
  | @removed handle target before _ hentry hupdate =>
    refine ⟨target, ?_, fun other hne => held_congr h h' fun x counts => ?_⟩
    · have hgone : ReferenceTable.held ⟨table.entries.erase handle⟩ target = Counts.zero := by
        apply held_of_none
        intro x r hx htarget
        obtain ⟨hne, hx⟩ := getElem?_erase_cases hx
        exact hne (h.distinct x handle r _ hx hentry htarget)
      rwa [held_of_entry h hentry, hgone]
    · show _ ↔ (table.entries.erase handle)[x]? = _
      rcases eq_or_ne handle x with rfl | hx
      · simp [hentry, hne.symm]
      · rw [getElem?_erase_ne hx]
  | @allocated handle target after _ hnew hafter hbound hfree hupdate =>
    have hentry' : (table.entries.insert handle ⟨target, after⟩)[handle]? = some ⟨target, after⟩ :=
      getElem?_insert_self
    refine ⟨target, ?_, fun other hne => held_congr h h' fun x counts => ?_⟩
    · rwa [held_of_none hnew, held_of_entry h' hentry']
    · show _ ↔ (table.entries.insert handle ⟨target, after⟩)[x]? = _
      rcases eq_or_ne handle x with rfl | hx
      · simp [hfree, hne.symm]
      · rw [getElem?_insert_ne hx]

/-- **A retained reference is one more of its strength**, and the node of the target has been
told. -/
theorem retain_from_eq_ok (h : Wf table)
    (hretain : table.retain_from heap target strength start =
      (.ok (handle, before, after), table', heap')) :
    before = table.held target ∧ before.count strength < i32_max ∧
      after = before.set_count strength (before.count strength + 1) ∧
      table' = ⟨table.entries.insert handle ⟨target, after⟩⟩ ∧
      update_target heap target before after = some heap' := by
  obtain ⟨hbefore, hle, hafter, htable', hupdate⟩ := retain_from_ok hretain
  refine ⟨?_, hle, hafter, htable', hupdate⟩
  rcases hbefore with hfind | ⟨hfind, rfl, -⟩
  · exact (held_of_entry h (find_eq_some hfind).1).symm
  · exact (held_of_none (find_eq_none hfind)).symm

/-- What a retained reference does to the targets. -/
theorem retain_from_held (h : Wf table)
    (hretain : table.retain_from heap target strength start =
      (.ok (handle, before, after), table', heap')) (other : Target) (s : Strength) :
    (table'.held other).count s =
      (table.held other).count s + if (target, strength) = (other, s) then 1 else 0 := by
  have h' : Wf table' := by
    have hwf := h.retain_from heap target strength start
    rwa [hretain] at hwf
  obtain ⟨hbefore, -, hafter, htable', hupdate⟩ := retain_from_eq_ok h hretain
  have hentry' : table'.entries[handle]? = some ⟨target, after⟩ := by
    rw [htable']
    exact getElem?_insert_self
  by_cases htarget : other = target
  · rw [htarget, held_of_entry h' hentry', hafter, hbefore]
    cases strength <;> cases s <;> simp [Counts.count, Counts.set_count]
  · rw [if_neg (fun heq => htarget (Prod.mk.inj heq).1.symm), Nat.add_zero]
    rcases retain_from_cases table heap target strength start with ⟨e, he⟩ |
      ⟨handle', before', after', table'', heap'', hok, hmove, -⟩
    · rw [he] at hretain
      cases hretain
    rw [hretain] at hok
    cases hok
    obtain ⟨moved, -, hothers⟩ := hmove.held h
    by_cases hmoved : other = moved
    · -- the entry of `target` was written, so the target that moved is that one
      have hwritten : table'.held target ≠ table.held target := by
        rw [held_of_entry h' hentry', hafter, ← hbefore]
        intro heq
        have hcount := congrArg (fun counts => counts.count strength) heq
        simp only [set_count_count] at hcount
        omega
      have hmoved' : target = moved := by
        by_contra hne
        exact hwritten (hothers target hne)
      rw [hmoved, ← hmoved'] at htarget
      exact absurd rfl htarget
    · rw [hothers other hmoved]

end Moves

end ReferenceTable

end DarwinArt.Binder
