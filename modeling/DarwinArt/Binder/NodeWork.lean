/-
What an owner has been told about a node, and what it is still to be told: `node_work.rs`,
and the records that tell it: `node_wire.rs`.

The owner of a node keeps its object alive by two references, a weak and a strong one.
`NodeWork` knows which of them the owner has been asked to take and which of those requests
it has yet to acknowledge. `prepare` compares that with the demand on the node and
collects the requests that are due; nothing changes until the batch is committed.

The owner's view of the requests is an automaton of its own (`Held`): a reference is taken
before it is given back, and the strong one lies within the weak one. `prepare_follows` is
the connection: every batch is a word of the automaton.
-/
import DarwinArt.Binder.Command
import DarwinArt.Binder.ReceiveArena

set_option autoImplicit false

namespace DarwinArt.Binder

inductive Strength
  | Strong
  | Weak
deriving DecidableEq, Repr

/-- `Demand`: whether the tables, the local holds and the temporary holds want the node. -/
structure Demand where
  internal_strong : Bool
  local_strong : Bool
  has_remote_references : Bool
  local_weak : Bool
  temporary : Bool
deriving DecidableEq, Repr

inductive Notification
  | Increfs
  | Acquire
  | Release
  | Decrefs
deriving DecidableEq, Repr

structure NodeWork where
  has_weak : Bool
  has_strong : Bool
  pending_weak : Bool
  pending_strong : Bool
deriving DecidableEq, Repr

namespace NodeWork

/-- `NodeWork::default`. -/
def new : NodeWork := ⟨false, false, false, false⟩

section

variable (work : NodeWork)

def mark_context_manager_refs : NodeWork :=
  { work with has_weak := true, has_strong := true }

/-- `Batch`: what is to be published, and the state once it has been. -/
structure Batch where
  next : NodeWork
  slots : List (Option Notification)
deriving DecidableEq

def Batch.notifications (batch : Batch) : List Notification := batch.slots.filterMap id

/-- The strong reference is wanted. -/
def strong (demand : Demand) : Bool :=
  demand.internal_strong || demand.local_strong || work.pending_strong

/-- The weak reference is wanted. -/
def weak (demand : Demand) : Bool :=
  demand.has_remote_references || demand.local_weak || demand.temporary || work.pending_weak ||
    work.strong demand

/-- The tests of `prepare`, on what is wanted. They read the state before the call, and the
writes of `next` come one after the other. -/
def batch (weak strong : Bool) : Batch :=
  let next := work
  let (next, increfs) :=
    if weak && !work.has_weak then
      ({ next with has_weak := true, pending_weak := true }, some Notification.Increfs)
    else (next, none)
  let (next, acquire) :=
    if strong && !work.has_strong then
      ({ next with has_strong := true, pending_strong := true }, some Notification.Acquire)
    else (next, none)
  let (next, release) :=
    if !strong && work.has_strong then
      ({ next with has_strong := false }, some Notification.Release)
    else (next, none)
  let (next, decrefs) :=
    if !weak && work.has_weak then
      ({ next with has_weak := false }, some Notification.Decrefs)
    else (next, none)
  ⟨next, [increfs, acquire, release, decrefs]⟩

def prepare (demand : Demand) : Batch :=
  work.batch (work.weak demand) (work.strong demand)

/-- `acknowledge`: `none` if nothing is pending. -/
def acknowledge : Strength → Option NodeWork
  | .Strong => if work.pending_strong then some { work with pending_strong := false } else none
  | .Weak => if work.pending_weak then some { work with pending_weak := false } else none

/-! ## The owner's references -/

/-- The references the owner holds, as the records it has read say. -/
structure Held where
  weak : Bool
  strong : Bool
deriving DecidableEq, Repr

/-- A record the owner can act on: it takes what it does not hold, gives back what it
holds, and holds the strong reference only within the weak one. -/
def Held.follow (held : Held) : Notification → Option Held
  | .Increfs => if held.weak then none else some { held with weak := true }
  | .Acquire => if held.weak && !held.strong then some { held with strong := true } else none
  | .Release => if held.strong then some { held with strong := false } else none
  | .Decrefs => if held.weak && !held.strong then some { held with weak := false } else none

/-- A sequence of records, one after the other. -/
def Held.follow_all (held : Held) (records : List Notification) : Option Held :=
  records.foldlM Held.follow held

/-- What the state says the owner holds. -/
def held : Held := ⟨work.has_weak, work.has_strong⟩

end

/-- What every operation keeps: the owner holds what it has yet to acknowledge. -/
structure Wf (work : NodeWork) : Prop where
  pending_strong : work.pending_strong = true → work.has_strong = true
  pending_weak : work.pending_weak = true → work.has_weak = true

theorem wf_new : Wf new := by
  constructor <;> simp [new]

theorem wf_mark {work : NodeWork} : Wf work.mark_context_manager_refs := by
  constructor <;> simp [mark_context_manager_refs]

theorem Wf.acknowledge {work work' : NodeWork} {strength : Strength} (h : Wf work)
    (hack : work.acknowledge strength = some work') : Wf work' := by
  cases strength with
  | Strong =>
    obtain ⟨-, hack⟩ := Option.ite_none_right_eq_some.mp hack
    cases hack
    exact { h with pending_strong := by simp }
  | Weak =>
    obtain ⟨-, hack⟩ := Option.ite_none_right_eq_some.mp hack
    cases hack
    exact { h with pending_weak := by simp }

section Batches

variable {work : NodeWork} {weak strong : Bool}

/-- The state a batch leads to. -/
theorem batch_next (work : NodeWork) (weak strong : Bool) :
    (work.batch weak strong).next = {
      has_weak := weak
      has_strong := strong
      pending_weak := work.pending_weak || (weak && !work.has_weak)
      pending_strong := work.pending_strong || (strong && !work.has_strong) } := by
  obtain ⟨has_weak, has_strong, pending_weak, pending_strong⟩ := work
  cases weak <;> cases strong <;> cases has_weak <;> cases has_strong <;>
    cases pending_weak <;> cases pending_strong <;> rfl

/-- The records of a batch, in their order. -/
theorem batch_notifications (work : NodeWork) (weak strong : Bool) :
    (work.batch weak strong).notifications =
      (if weak && !work.has_weak then [Notification.Increfs] else []) ++
      (if strong && !work.has_strong then [Notification.Acquire] else []) ++
      (if !strong && work.has_strong then [Notification.Release] else []) ++
      (if !weak && work.has_weak then [Notification.Decrefs] else []) := by
  obtain ⟨has_weak, has_strong, _, _⟩ := work
  cases weak <;> cases strong <;> cases has_weak <;> cases has_strong <;> rfl

/-- **Every batch is a word of the owner's automaton**, and leads to what the new state says
the owner holds. The strong reference is wanted only with the weak one. -/
theorem batch_follows (hwant : strong = true → weak = true) :
    work.held.follow_all (work.batch weak strong).notifications =
      some (work.batch weak strong).next.held := by
  rw [batch_notifications, batch_next]
  obtain ⟨has_weak, has_strong, _, _⟩ := work
  -- what is pending plays no part
  cases weak <;> cases strong <;> cases has_weak <;> cases has_strong <;>
    first
    | rfl
    | exact nomatch hwant rfl

theorem wf_batch (hstrong : work.pending_strong = true → strong = true)
    (hweak : work.pending_weak = true → weak = true) : Wf (work.batch weak strong).next := by
  rw [batch_next]
  constructor
  · intro hpending
    rcases Bool.or_eq_true_iff.mp hpending with hpending | hnew
    · exact hstrong hpending
    · exact (Bool.and_eq_true_iff.mp hnew).1
  · intro hpending
    rcases Bool.or_eq_true_iff.mp hpending with hpending | hnew
    · exact hweak hpending
    · exact (Bool.and_eq_true_iff.mp hnew).1

end Batches

section Prepare

variable {work : NodeWork} {demand : Demand}

theorem weak_of_strong (h : work.strong demand = true) : work.weak demand = true := by
  unfold weak
  rw [h, Bool.or_true]

theorem strong_of_pending (h : work.pending_strong = true) : work.strong demand = true := by
  unfold strong
  rw [h, Bool.or_true]

theorem weak_of_pending (h : work.pending_weak = true) : work.weak demand = true := by
  unfold weak
  rw [h, Bool.or_true, Bool.true_or]

theorem wf_prepare : Wf (work.prepare demand).next :=
  wf_batch strong_of_pending weak_of_pending

theorem prepare_follows :
    work.held.follow_all (work.prepare demand).notifications =
      some (work.prepare demand).next.held :=
  batch_follows weak_of_strong

/-- A committed batch wants what it has just obtained. -/
theorem prepare_next_strong :
    (work.prepare demand).next.strong demand = work.strong demand := by
  unfold prepare
  rw [batch_next]
  cases hstrong : work.strong demand with
  | true =>
    unfold strong at hstrong ⊢
    rw [← Bool.or_assoc, hstrong, Bool.true_or]
  | false =>
    unfold strong at hstrong ⊢
    rw [← Bool.or_assoc, hstrong]
    rfl

theorem prepare_next_weak : (work.prepare demand).next.weak demand = work.weak demand := by
  have hstrong : (work.prepare demand).next.strong demand = work.strong demand :=
    prepare_next_strong
  have hpending : (work.prepare demand).next.pending_weak =
      (work.pending_weak || (work.weak demand && !work.has_weak)) := by
    unfold prepare
    rw [batch_next]
  unfold weak at hpending ⊢
  rw [hstrong, hpending]
  generalize (demand.has_remote_references || demand.local_weak || demand.temporary) = wanted
  cases wanted <;> cases work.pending_weak <;> cases work.strong demand <;> simp

/-- **A committed batch leaves nothing due.** -/
theorem prepare_settles :
    ((work.prepare demand).next.prepare demand).notifications = [] := by
  unfold prepare
  rw [batch_notifications]
  have hweak : (work.prepare demand).next.weak demand = work.weak demand := prepare_next_weak
  have hstrong : (work.prepare demand).next.strong demand = work.strong demand :=
    prepare_next_strong
  unfold prepare at hweak hstrong
  rw [hweak, hstrong, batch_next]
  cases work.weak demand <;> cases work.strong demand <;> rfl

/-- A batch without records changes nothing. -/
theorem prepare_next_of_nil (h : (work.prepare demand).notifications = []) :
    (work.prepare demand).next = work := by
  unfold prepare at h ⊢
  rw [batch_notifications] at h
  rw [batch_next]
  obtain ⟨has_weak, has_strong, _, _⟩ := work
  revert h
  generalize NodeWork.weak _ demand = weak
  generalize NodeWork.strong _ demand = strong
  cases weak <;> cases strong <;> cases has_weak <;> cases has_strong <;> simp

/-- The references of a context manager are demanded and held: nothing is due. -/
theorem prepare_mark (hstrong : demand.local_strong = true) :
    (work.mark_context_manager_refs.prepare demand).notifications = [] := by
  have hs : work.mark_context_manager_refs.strong demand = true := by
    unfold strong
    rw [hstrong, Bool.or_true, Bool.true_or]
  unfold prepare
  rw [batch_notifications, hs, weak_of_strong hs]
  rfl

/-- A batch has at most two records. -/
theorem prepare_length_le : (work.prepare demand).notifications.length ≤ 2 := by
  unfold prepare
  rw [batch_notifications]
  have hwant : work.strong demand = true → work.weak demand = true := weak_of_strong
  cases hweak : work.weak demand <;> cases hstrong : work.strong demand <;>
    cases work.has_weak <;> cases work.has_strong <;> simp_all

/-- A strong reference is given back only when nothing wants it. -/
theorem release_of_mem (h : Notification.Release ∈ (work.prepare demand).notifications) :
    work.strong demand = false := by
  unfold prepare at h
  rw [batch_notifications] at h
  cases hstrong : work.strong demand with
  | false => rfl
  | true =>
    rw [hstrong] at h
    exfalso
    revert h
    cases work.weak demand <;> cases work.has_weak <;> cases work.has_strong <;> decide

/-- A weak reference is given back only when nothing wants it. -/
theorem decrefs_of_mem (h : Notification.Decrefs ∈ (work.prepare demand).notifications) :
    work.weak demand = false := by
  unfold prepare at h
  rw [batch_notifications] at h
  cases hweak : work.weak demand with
  | false => rfl
  | true =>
    rw [hweak] at h
    exfalso
    revert h
    cases work.strong demand <;> cases work.has_weak <;> cases work.has_strong <;> decide

/-- Each request for the strong reference is pending from its publication on. -/
theorem prepare_pending_strong (h : Wf work) :
    (work.prepare demand).next.pending_strong.toNat =
      work.pending_strong.toNat + (work.prepare demand).notifications.count .Acquire := by
  have hpending := h.pending_strong
  unfold prepare
  rw [batch_notifications, batch_next]
  cases work.weak demand <;> cases work.strong demand <;> cases work.has_weak <;>
    cases hhas : work.has_strong <;> cases hp : work.pending_strong <;> simp_all

theorem prepare_pending_weak (h : Wf work) :
    (work.prepare demand).next.pending_weak.toNat =
      work.pending_weak.toNat + (work.prepare demand).notifications.count .Increfs := by
  have hpending := h.pending_weak
  unfold prepare
  rw [batch_notifications, batch_next]
  cases work.weak demand <;> cases work.strong demand <;> cases hhas : work.has_weak <;>
    cases work.has_strong <;> cases hp : work.pending_weak <;> simp_all

end Prepare

end NodeWork

/-! ## Records -/

/-- The number of a notification. -/
def Notification.number : Notification → UInt32
  | .Increfs => 7
  | .Acquire => 8
  | .Release => 9
  | .Decrefs => 10

/-- The command word: read direction, sixteen bytes of payload, the byte `r`, the number. -/
def Notification.word (command : Notification) : UInt32 :=
  ((2 : UInt32) <<< 30) ||| ((16 : UInt32) <<< 16) ||| ((114 : UInt32) <<< 8) ||| command.number

/-- One record: the word, the pointer and the cookie. -/
def Notification.record (pointer cookie : UInt64) (command : Notification) : List UInt8 :=
  to_le_bytes32 command.word ++ to_le_bytes64 pointer ++ to_le_bytes64 cookie

/-- `encode`: the size written and the buffer after it. -/
def encode (pointer cookie : UInt64) (commands : List Notification) (output : List UInt8) :
    Except Errno (ℕ × List UInt8) :=
  let size := commands.length * 20
  if 2 ^ 64 ≤ size then .error .EOVERFLOW
  else if output.length < size then .error .ENOSPC
  else .ok (size, commands.flatMap (Notification.record pointer cookie) ++ output.drop size)

end DarwinArt.Binder
