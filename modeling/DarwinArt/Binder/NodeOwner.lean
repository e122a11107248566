/-
Nodes and their owners: `node_owner.rs`, its lifecycle and work queue, and the read side of
`node_wire.rs`.

A node belongs to one owner. Tables of other processes, local holds and temporary holds put
demand on it, and the owner is to be told when the demand for its references begins and
ends. Every change of a node's demand schedules the node in the work queue of its owner;
reading the queue looks at the scheduled nodes again and publishes what is due.

## What is modelled

The source shares nodes by `Arc`. Here they live in a `Heap`, and an `Arc<Node>` is a
`NodeKey`: the owner that made the node, and its pointer. An owner makes one node for a
pointer and keeps it, so the key determines the node, and `Arc::ptr_eq` is equality of keys.
The owner's map from pointers to nodes is the part of the heap with its keys.

Each function that the source runs under a node's lock is one step. The queue has a lock of
its own, which is not held while a node's lock is taken, so a read of the queue is several
steps (`pop`, `read_node_notifications`, `requeue`); `read_pending_node_work` is the whole
call. The condition variable and the work signal are left out, and so is the routing owner.
-/
import DarwinArt.Binder.Objects

set_option autoImplicit false

namespace DarwinArt.Binder

open Lib

/-- `Counts`: the references of one table to one target. -/
@[ext]
structure Counts where
  strong : ℕ
  weak : ℕ
deriving DecidableEq, Repr

/-- `Counts::default`. -/
def Counts.zero : Counts := ⟨0, 0⟩

/-- `i32::MAX`, the bound of every count. -/
def i32_max : ℕ := 2 ^ 31 - 1

/-- `checked_add(1).filter(|n| *n <= i32::MAX as u32)`. -/
def bounded_succ (value : ℕ) : Option ℕ := (checked_add 32 value 1).filter (· ≤ i32_max)

theorem bounded_succ_eq_some {value value' : ℕ} :
    bounded_succ value = some value' ↔ value' = value + 1 ∧ value + 1 ≤ i32_max := by
  unfold bounded_succ
  rw [Option.filter_eq_some_iff, checked_add_eq_some]
  simp only [decide_eq_true_eq]
  constructor
  · rintro ⟨⟨-, hsum⟩, hle⟩
    omega
  · rintro ⟨hsum, hle⟩
    have hmax : i32_max < 2 ^ 32 := by decide
    omega

/-! ## The data -/

/-- `Lifecycle`: the demand on a node, and what its owner has been told. -/
structure Lifecycle where
  remote_tables : ℕ
  strong_tables : ℕ
  local_strong : ℕ
  local_weak : ℕ
  temporary : ℕ
  work : NodeWork
deriving DecidableEq

/-- `Lifecycle::default`. -/
def Lifecycle.new : Lifecycle := ⟨0, 0, 0, 0, 0, NodeWork.new⟩

inductive HoldKind
  | Strong
  | Weak
  | Temporary
deriving DecidableEq, Repr

/-- `local_count`, read. -/
def Lifecycle.local_count (state : Lifecycle) : HoldKind → ℕ
  | .Strong => state.local_strong
  | .Weak => state.local_weak
  | .Temporary => state.temporary

/-- `local_count`, written. -/
def Lifecycle.set_local_count (state : Lifecycle) (kind : HoldKind) (count : ℕ) : Lifecycle :=
  match kind with
  | .Strong => { state with local_strong := count }
  | .Weak => { state with local_weak := count }
  | .Temporary => { state with temporary := count }

/-- A node with another count of holds has the same counts of tables. -/
theorem Lifecycle.set_local_count_tables (state : Lifecycle) (kind : HoldKind) (count : ℕ) :
    (state.set_local_count kind count).remote_tables = state.remote_tables ∧
      (state.set_local_count kind count).strong_tables = state.strong_tables := by
  cases kind <;> exact ⟨rfl, rfl⟩

/-- The demand that `publish_notifications` reads off the counters. -/
def Lifecycle.demand (state : Lifecycle) : Demand where
  internal_strong := state.strong_tables ≠ 0
  local_strong := state.local_strong ≠ 0
  has_remote_references := state.remote_tables ≠ 0
  local_weak := state.local_weak ≠ 0
  temporary := state.temporary ≠ 0

/-- What the owner is to be told. -/
def Lifecycle.owed (state : Lifecycle) : List Notification :=
  (state.work.prepare state.demand).notifications

structure Node where
  local_id : LocalNodeToken
  cookie : UInt64
  initial_flags : UInt32
  lifecycle : Lifecycle

/-- An `Arc<Node>`. -/
@[ext]
structure NodeKey where
  owner : ℕ
  pointer : UInt64
deriving DecidableEq

instance : Key NodeKey where
  code key := [key.owner, key.pointer.toNat]
  code_injective := by
    intro a b h
    simp only [List.cons.injEq, and_true] at h
    exact NodeKey.ext h.1 (UInt64.toNat_inj.mp h.2)

/-- `OwnerState` with the queue of its `WorkQueue`, and the counter and index of its
`NodeOwner`. -/
structure OwnerState where
  alive : Bool
  order : List UInt64
  membership : Finset UInt64
  nodes_by_local : Map LocalNodeToken UInt64
  next_node : ℕ

def OwnerState.new : OwnerState := ⟨true, [], ∅, ∅, 0⟩

/-- The owners, by their number, and the nodes. -/
structure Heap where
  owners : List OwnerState
  nodes : Map NodeKey Node

structure LocalHold where
  node : NodeKey
  kind : HoldKind
deriving DecidableEq

namespace NodeOwner

inductive Error
  | NotLocalNode
  | CookieMismatch
  | OutOfMemory
  | NodeIdsExhausted
  | UnknownNode
  | NoPendingAcknowledgement
deriving DecidableEq

end NodeOwner

/-! ## The queue of an owner -/

namespace OwnerState

def schedule (state : OwnerState) (pointer : UInt64) : OwnerState :=
  if state.alive ∧ pointer ∉ state.membership then
    { state with
      order := state.order ++ [pointer]
      membership := insert pointer state.membership }
  else state

/-- The front of the queue, taken out. -/
def pop (state : OwnerState) : Option (UInt64 × OwnerState) :=
  match state.order with
  | [] => none
  | pointer :: order =>
    some (pointer, { state with order := order, membership := state.membership.erase pointer })

/-- A node whose read failed goes back to the front, unless it has been scheduled meanwhile. -/
def requeue (state : OwnerState) (pointer : UInt64) : OwnerState :=
  if pointer ∉ state.membership then
    { state with
      order := pointer :: state.order
      membership := insert pointer state.membership }
  else state

end OwnerState

/-! ## Operations -/

namespace Heap

/-- The state of an owner. -/
def owner (heap : Heap) (i : ℕ) : OwnerState := heap.owners.getD i OwnerState.new

/-- Write to the state of an owner. -/
def set_owner (heap : Heap) (i : ℕ) (f : OwnerState → OwnerState) : Heap :=
  { heap with owners := heap.owners.modify i f }

section

variable (heap : Heap) (key : NodeKey)

/-- What a node's lock protects. -/
def lifecycle : Option Lifecycle :=
  (heap.nodes[key]?).map (·.lifecycle)

/-- Write to what a node's lock protects. -/
def set_lifecycle (state : Lifecycle) : Heap :=
  { heap with nodes := heap.nodes.modify key fun node => { node with lifecycle := state } }

/-- A new node. -/
def with_node (node : Node) : Heap :=
  { heap with nodes := heap.nodes.insert key node }

/-- `self.owner.schedule(self.pointer)` of a node. -/
def schedule : Heap :=
  heap.set_owner key.owner (·.schedule key.pointer)

end

/-- The allocator's answers during one `resolve`. -/
structure ResolveMemory where
  nodes : Bool
  nodes_by_local : Bool

section

variable (heap : Heap) (owner : ℕ) (key : NodeKey)

def resolve (object : Objects.Fields) (memory : ResolveMemory) :
    Except NodeOwner.Error NodeKey × Heap :=
  match object with
  | .Node _ flags pointer cookie =>
    match heap.nodes[(⟨owner, pointer⟩ : NodeKey)]? with
    | some node =>
      if node.cookie ≠ cookie then (.error .CookieMismatch, heap)
      else (.ok ⟨owner, pointer⟩, heap)
    | none =>
      if ¬ memory.nodes then (.error .OutOfMemory, heap)
      else if ¬ memory.nodes_by_local then (.error .OutOfMemory, heap)
      else
        match (Token.after (heap.owner owner).next_node : Option LocalNodeToken) with
        | none => (.error .NodeIdsExhausted, heap)
        | some local_id =>
          let heap := heap.with_node ⟨owner, pointer⟩ ⟨local_id, cookie, flags, Lifecycle.new⟩
          (.ok ⟨owner, pointer⟩, heap.set_owner owner fun state =>
            { state with
              nodes_by_local := state.nodes_by_local.insert local_id pointer
              next_node := local_id.raw })
  | _ => (.error .NotLocalNode, heap)

def lookup_local (token : LocalNodeToken) : Except NodeOwner.Error NodeKey :=
  match (heap.owner owner).nodes_by_local[token]? with
  | none => .error .UnknownNode
  | some pointer => .ok ⟨owner, pointer⟩

/-- `transition`: a table's first or last reference to a node. -/
def transition (value : ℕ) (before after : Bool) : Option ℕ :=
  match before, after with
  | false, true => bounded_succ value
  | true, false => checked_sub value 1
  | _, _ => some value

/-- `update_remote`. Both counters are computed before either is written. -/
def update_remote (before after : Counts) : Option Heap :=
  match heap.lifecycle key with
  | none => none
  | some state =>
    match transition state.remote_tables (before ≠ Counts.zero) (after ≠ Counts.zero) with
    | none => none
    | some remote =>
      match transition state.strong_tables (before.strong ≠ 0) (after.strong ≠ 0) with
      | none => none
      | some strong =>
        some ((heap.set_lifecycle key
          { state with remote_tables := remote, strong_tables := strong }).schedule key)

def hold (kind : HoldKind) : Except Errno LocalHold × Heap :=
  match heap.lifecycle key with
  | none => (.error .ENOENT, heap)
  | some state =>
    match bounded_succ (state.local_count kind) with
    | none => (.error .EOVERFLOW, heap)
    | some count =>
      (.ok ⟨key, kind⟩, (heap.set_lifecycle key (state.set_local_count kind count)).schedule key)

/-- `LocalHold::drop`: `none` is the panic of its `expect`. -/
def drop_hold (hold : LocalHold) : Option Heap :=
  match heap.lifecycle hold.node with
  | none => none
  | some state =>
    match checked_sub (state.local_count hold.kind) 1 with
    | none => none
    | some count =>
      some ((heap.set_lifecycle hold.node (state.set_local_count hold.kind count)).schedule
        hold.node)

/-- `acquire_context_manager_refs`. It schedules nothing. -/
def acquire_context_manager_refs : Except Errno (LocalHold × LocalHold) × Heap :=
  if key.owner ≠ owner then (.error .EINVAL, heap)
  else
    match heap.lifecycle key with
    | none => (.error .ENOENT, heap)
    | some state =>
      match bounded_succ state.local_strong with
      | none => (.error .EOVERFLOW, heap)
      | some strong =>
        match bounded_succ state.local_weak with
        | none => (.error .EOVERFLOW, heap)
        | some weak =>
          (.ok (⟨key, .Strong⟩, ⟨key, .Weak⟩), heap.set_lifecycle key
            { state with
              local_strong := strong
              local_weak := weak
              work := state.work.mark_context_manager_refs })

def acknowledge (pointer cookie : UInt64) (strength : Strength) :
    Except NodeOwner.Error Unit × Heap :=
  match heap.nodes[(⟨owner, pointer⟩ : NodeKey)]? with
  | none => (.error .UnknownNode, heap)
  | some node =>
    if node.cookie ≠ cookie then (.error .CookieMismatch, heap)
    else
      match node.lifecycle.work.acknowledge strength with
      | none => (.error .NoPendingAcknowledgement, heap)
      | some work =>
        (.ok (), (heap.set_lifecycle ⟨owner, pointer⟩ { node.lifecycle with work := work }).schedule
          ⟨owner, pointer⟩)

/-- `publish_notifications`: the commands published, and what the callback made of them. It
is not called on an empty batch. -/
def publish_notifications {β : Type} (pointer : UInt64)
    (publish : UInt64 → List Notification → Except Errno β) :
    Except Errno (List Notification × Option β) × Heap :=
  match heap.nodes[(⟨owner, pointer⟩ : NodeKey)]? with
  | none => (.error .ENOENT, heap)
  | some node =>
    let batch := node.lifecycle.work.prepare node.lifecycle.demand
    let committed :=
      heap.set_lifecycle ⟨owner, pointer⟩ { node.lifecycle with work := batch.next }
    if batch.notifications = [] then (.ok ([], none), committed)
    else
      match publish node.cookie batch.notifications with
      | .error e => (.error e, heap)
      | .ok result => (.ok (batch.notifications, some result), committed)

/-- What one read published: the commands, the bytes written and the buffer after it. -/
structure Published where
  commands : List Notification
  written : ℕ
  output : List UInt8
deriving DecidableEq

def read_node_notifications (pointer : UInt64) (output : List UInt8) :
    Except Errno Published × Heap :=
  match heap.publish_notifications owner pointer (fun cookie commands =>
    encode pointer cookie commands output) with
  | (.error e, heap) => (.error e, heap)
  | (.ok (commands, none), heap) => (.ok ⟨commands, 0, output⟩, heap)
  | (.ok (commands, some (written, output)), heap) => (.ok ⟨commands, written, output⟩, heap)

/-- The loop of `read_pending_node_work`. -/
def read_pending_loop (heap : Heap) (owner : ℕ) (output : List UInt8) :
    ℕ → Except Errno Published × Heap
  | 0 => (.ok ⟨[], 0, output⟩, heap)
  | budget + 1 =>
    match (heap.owner owner).pop with
    | none => (.ok ⟨[], 0, output⟩, heap)
    | some (pointer, state) =>
      match (heap.set_owner owner fun _ => state).read_node_notifications owner pointer output with
      | (.ok published, heap) =>
        if published.written = 0 then heap.read_pending_loop owner output budget
        else (.ok published, heap)
      | (.error e, heap) => (.error e, heap.set_owner owner (·.requeue pointer))

/-- `read_pending_node_work`: each node that was queued at the start is looked at once. -/
def read_pending_node_work (output : List UInt8) : Except Errno Published × Heap :=
  heap.read_pending_loop owner output (heap.owner owner).order.length

end

/-! ## What the operations find and leave -/

section Writes

variable {heap heap' : Heap} {key key' : NodeKey} {state : Lifecycle}

@[simp] theorem lifecycle_set_owner (heap : Heap) (i : ℕ) (f : OwnerState → OwnerState)
    (key : NodeKey) : (heap.set_owner i f).lifecycle key = heap.lifecycle key := rfl

@[simp] theorem lifecycle_schedule (heap : Heap) (key key' : NodeKey) :
    (heap.schedule key).lifecycle key' = heap.lifecycle key' := rfl

theorem lifecycle_set_lifecycle (heap : Heap) (key : NodeKey) (state : Lifecycle) (key' : NodeKey) :
    (heap.set_lifecycle key state).lifecycle key' =
      if key = key' then (heap.lifecycle key').map (fun _ => state) else heap.lifecycle key' := by
  unfold lifecycle set_lifecycle
  rw [getElem?_modify]
  rcases eq_or_ne key key' with rfl | h
  · rw [if_pos Std.ReflCmp.compare_self, if_pos rfl, Option.map_map, Option.map_map]
    rfl
  · rw [if_neg (fun heq => h (Std.LawfulEqCmp.eq_of_compare heq)), if_neg h]

/-- A node's state after it is written. -/
theorem lifecycle_set_self {old : Lifecycle} (h : heap.lifecycle key = some old) :
    (heap.set_lifecycle key state).lifecycle key = some state := by
  rw [lifecycle_set_lifecycle, if_pos rfl, h]
  rfl

/-- The other nodes are as they were. -/
theorem lifecycle_set_ne (h : key ≠ key') :
    (heap.set_lifecycle key state).lifecycle key' = heap.lifecycle key' := by
  rw [lifecycle_set_lifecycle, if_neg h]

theorem lifecycle_with_node (heap : Heap) (key : NodeKey) (node : Node) (key' : NodeKey) :
    (heap.with_node key node).lifecycle key' =
      if key = key' then some node.lifecycle else heap.lifecycle key' := by
  unfold lifecycle with_node
  rcases eq_or_ne key key' with rfl | h
  · rw [getElem?_insert_self, if_pos rfl, Option.map_some]
  · rw [getElem?_insert_ne h, if_neg h]

/-- Writing a node keeps what nodes there are. -/
theorem isSome_set_lifecycle (heap : Heap) (key : NodeKey) (state : Lifecycle) (key' : NodeKey) :
    ((heap.set_lifecycle key state).lifecycle key').isSome = (heap.lifecycle key').isSome := by
  rw [lifecycle_set_lifecycle]
  split
  · rw [Option.isSome_map]
  · rfl

theorem owner_set_owner (heap : Heap) (i j : ℕ) (f : OwnerState → OwnerState) :
    (heap.set_owner i f).owner j =
      if i = j ∧ i < heap.owners.length then f (heap.owner j) else heap.owner j := by
  unfold owner set_owner
  rw [List.getD_eq_getElem?_getD, List.getD_eq_getElem?_getD, List.getElem?_modify]
  rcases eq_or_ne i j with rfl | hij
  · by_cases hlt : i < heap.owners.length
    · rw [if_pos ⟨rfl, hlt⟩, List.getElem?_eq_getElem hlt]
      simp
    · rw [if_neg (fun h => hlt h.2), List.getElem?_eq_none (by omega)]
      rfl
  · rw [if_neg (fun h => hij h.1)]
    cases heap.owners[j]? <;> simp [hij]

variable {value : ℕ} {after before : Bool}

/-- The counter of a transition, before and after. -/
theorem transition_eq_some {value' : ℕ} (h : transition value before after = some value') :
    value' + before.toNat = value + after.toNat := by
  cases before <;> cases after
  · exact congrArg (· + 0) (Option.some.inj h).symm
  · have hsucc := (bounded_succ_eq_some.mp h).1
    show value' + 0 = value + 1
    omega
  · have hsub := (checked_sub_eq_some.mp h).2
    show value' + 1 = value + 0
    omega
  · exact congrArg (· + 1) (Option.some.inj h).symm

/-- A transition that does not begin demand, on a counter that counts what ends, succeeds. -/
theorem transition_isSome (hdown : after = true → before = true)
    (hpos : before = true → 0 < value) : (transition value before after).isSome = true := by
  cases before <;> cases after
  · rfl
  · exact nomatch hdown rfl
  · show (checked_sub value 1).isSome = true
    unfold checked_sub
    have hone : 1 ≤ value := hpos rfl
    rw [if_pos hone]
    rfl
  · rfl

/-- What a table's update does to the node. -/
theorem update_remote_eq_some {before after : Counts}
    (h : heap.update_remote key before after = some heap') :
    ∃ state remote strong, heap.lifecycle key = some state ∧
      transition state.remote_tables (before ≠ Counts.zero) (after ≠ Counts.zero) = some remote ∧
      transition state.strong_tables (before.strong ≠ 0) (after.strong ≠ 0) = some strong ∧
      heap' = (heap.set_lifecycle key
        { state with remote_tables := remote, strong_tables := strong }).schedule key := by
  unfold update_remote at h
  split at h
  · cases h
  next state hstate =>
  split at h
  · cases h
  next remote hremote =>
  split at h
  · cases h
  next strong hstrong =>
  exact ⟨state, remote, strong, hstate, hremote, hstrong, (Option.some.inj h).symm⟩

/-- An update fails only if a counter does. -/
theorem update_remote_isSome {before after : Counts} (hstate : heap.lifecycle key = some state)
    (hremote : (transition state.remote_tables (before ≠ Counts.zero)
      (after ≠ Counts.zero)).isSome = true)
    (hstrong : (transition state.strong_tables (before.strong ≠ 0)
      (after.strong ≠ 0)).isSome = true) :
    (heap.update_remote key before after).isSome = true := by
  obtain ⟨remote, hremote⟩ := Option.isSome_iff_exists.mp hremote
  obtain ⟨strong, hstrong⟩ := Option.isSome_iff_exists.mp hstrong
  simp only [update_remote, hstate, hremote, hstrong]
  rfl

/-- A transition that begins demand can be taken back. -/
theorem transition_undo {value' : ℕ}
    (hup : before = true → after = true) (h : transition value before after = some value') :
    transition value' after before = some value := by
  cases before <;> cases after
  · exact congrArg some (Option.some.inj h).symm
  · have hsucc := (bounded_succ_eq_some.mp h).1
    exact checked_sub_eq_some.mpr ⟨by omega, by omega⟩
  · exact nomatch hup rfl
  · exact congrArg some (Option.some.inj h).symm

/-- Writing back the state that a node had. -/
theorem nodes_restored {heap₁ heap₂ : Heap} {other : Lifecycle}
    (hstate : heap.lifecycle key = some state)
    (h₁ : heap₁.nodes = (heap.set_lifecycle key other).nodes)
    (h₂ : heap₂.nodes = (heap₁.set_lifecycle key state).nodes) : heap₂.nodes = heap.nodes := by
  unfold lifecycle at hstate
  unfold set_lifecycle at h₁ h₂
  dsimp only at h₁ h₂
  rw [h₂, h₁]
  ext key' : 1
  rw [getElem?_modify]
  split
  · next heq =>
    obtain ⟨node, hnode, hlifecycle⟩ := Option.map_eq_some_iff.mp hstate
    rw [← Std.LawfulEqCmp.eq_of_compare heq, getElem?_modify,
      if_pos Std.ReflCmp.compare_self, hnode, ← hlifecycle]
    rfl
  · next hne => rw [getElem?_modify, if_neg hne]

/-- **A table's update that only adds references can be taken back**, whatever has been
scheduled meanwhile. -/
theorem update_remote_undo {heap₁ heap₂ : Heap} {before after : Counts}
    (hany : before ≠ Counts.zero → after ≠ Counts.zero)
    (hstrong : before.strong ≠ 0 → after.strong ≠ 0)
    (h : heap.update_remote key before after = some heap₁) (hsame : heap₂.nodes = heap₁.nodes) :
    ∃ heap₃, heap₂.update_remote key after before = some heap₃ ∧ heap₃.nodes = heap.nodes := by
  obtain ⟨state, remote, strong, hstate, hremote, hstrong', rfl⟩ := update_remote_eq_some h
  have hstate₂ : heap₂.lifecycle key =
      some { state with remote_tables := remote, strong_tables := strong } := by
    unfold lifecycle
    rw [hsame]
    exact lifecycle_set_self hstate
  have hremote := transition_undo (by simpa using hany) hremote
  have hstrong := transition_undo (by simpa using hstrong) hstrong'
  simp only [update_remote, hstate₂, hremote, hstrong]
  exact ⟨_, rfl, nodes_restored hstate hsame rfl⟩

/-- What `resolve` does: nothing, or it makes a node. -/
theorem resolve_cases (heap : Heap) (owner : ℕ) (object : Objects.Fields) (memory : ResolveMemory) :
    (∃ r, heap.resolve owner object memory = (r, heap)) ∨
      ∃ key node f, heap.resolve owner object memory =
          (.ok key, (heap.with_node key node).set_owner owner f) ∧
        key.owner = owner ∧ heap.lifecycle key = none ∧ node.lifecycle = Lifecycle.new ∧
        ∀ state, (f state).alive = state.alive ∧ (f state).order = state.order ∧
          (f state).membership = state.membership := by
  unfold resolve
  split
  · split
    · split
      · exact .inl ⟨_, rfl⟩
      · exact .inl ⟨_, rfl⟩
    · next hnone =>
      split
      · exact .inl ⟨_, rfl⟩
      split
      · exact .inl ⟨_, rfl⟩
      split
      · exact .inl ⟨_, rfl⟩
      · refine .inr ⟨_, _, _, rfl, rfl, ?_, rfl, fun state => ⟨rfl, rfl, rfl⟩⟩
        unfold lifecycle
        rw [hnone]
        rfl
  · exact .inl ⟨_, rfl⟩

/-- The node of a pointer is the one the owner keeps for it. -/
theorem resolve_eq_ok {owner : ℕ} {weak : Bool} {flags : UInt32} {pointer cookie : UInt64}
    {memory : ResolveMemory}
    (h : heap.resolve owner (.Node weak flags pointer cookie) memory = (.ok key, heap')) :
    key = ⟨owner, pointer⟩ := by
  simp only [resolve] at h
  split at h
  · split at h
    · cases h
    · exact (Except.ok.inj (Prod.mk.inj h).1).symm
  · split at h
    · cases h
    split at h
    · cases h
    split at h
    · cases h
    · exact (Except.ok.inj (Prod.mk.inj h).1).symm

/-- What a hold does to the node. -/
theorem hold_cases (heap : Heap) (key : NodeKey) (kind : HoldKind) :
    (∃ e, heap.hold key kind = (.error e, heap)) ∨
      ∃ state count, heap.lifecycle key = some state ∧
        bounded_succ (state.local_count kind) = some count ∧
        heap.hold key kind = (.ok ⟨key, kind⟩,
          (heap.set_lifecycle key (state.set_local_count kind count)).schedule key) := by
  unfold hold
  split
  · exact .inl ⟨_, rfl⟩
  next state hstate =>
  split
  · exact .inl ⟨_, rfl⟩
  next count hcount =>
  exact .inr ⟨state, count, hstate, hcount, rfl⟩

/-- What the drop of a hold does to the node. -/
theorem drop_hold_eq_some {hold : LocalHold} (h : heap.drop_hold hold = some heap') :
    ∃ state count, heap.lifecycle hold.node = some state ∧
      checked_sub (state.local_count hold.kind) 1 = some count ∧
      heap' = (heap.set_lifecycle hold.node (state.set_local_count hold.kind count)).schedule
        hold.node := by
  unfold drop_hold at h
  split at h
  · cases h
  next state hstate =>
  split at h
  · cases h
  next count hcount =>
  exact ⟨state, count, hstate, hcount, (Option.some.inj h).symm⟩

/-- What the references of a context manager do to the node. -/
theorem acquire_context_manager_refs_cases (heap : Heap) (owner : ℕ) (key : NodeKey) :
    (∃ e, heap.acquire_context_manager_refs owner key = (.error e, heap)) ∨
      ∃ state, heap.lifecycle key = some state ∧ key.owner = owner ∧
        heap.acquire_context_manager_refs owner key =
          (.ok (⟨key, .Strong⟩, ⟨key, .Weak⟩), heap.set_lifecycle key
            { state with
              local_strong := state.local_strong + 1
              local_weak := state.local_weak + 1
              work := state.work.mark_context_manager_refs }) := by
  unfold acquire_context_manager_refs
  split
  · exact .inl ⟨_, rfl⟩
  next howner =>
  split
  · exact .inl ⟨_, rfl⟩
  next state hstate =>
  split
  · exact .inl ⟨_, rfl⟩
  next strong hstrong =>
  split
  · exact .inl ⟨_, rfl⟩
  next weak hweak =>
  rw [(bounded_succ_eq_some.mp hstrong).1, (bounded_succ_eq_some.mp hweak).1]
  exact .inr ⟨state, hstate, Decidable.not_not.mp howner, rfl⟩

/-- What an acknowledgement does to the node. -/
theorem acknowledge_cases (heap : Heap) (owner : ℕ) (pointer cookie : UInt64)
    (strength : Strength) :
    (∃ e, heap.acknowledge owner pointer cookie strength = (.error e, heap)) ∨
      ∃ state work, heap.lifecycle ⟨owner, pointer⟩ = some state ∧
        state.work.acknowledge strength = some work ∧
        heap.acknowledge owner pointer cookie strength = (.ok (),
          (heap.set_lifecycle ⟨owner, pointer⟩ { state with work := work }).schedule
            ⟨owner, pointer⟩) := by
  unfold acknowledge
  split
  · exact .inl ⟨_, rfl⟩
  next node hnode =>
  split
  · exact .inl ⟨_, rfl⟩
  split
  · exact .inl ⟨_, rfl⟩
  next work hwork =>
  refine .inr ⟨node.lifecycle, work, ?_, hwork, rfl⟩
  unfold lifecycle
  rw [hnode]
  rfl

/-- The state of a node after a publication. -/
def committed (heap : Heap) (key : NodeKey) (state : Lifecycle) : Heap :=
  heap.set_lifecycle key { state with work := (state.work.prepare state.demand).next }

/-- Where nothing is due, a publication writes back what it found. -/
theorem committed_of_nil (hstate : heap.lifecycle key = some state) (howed : state.owed = []) :
    heap.committed key state = heap := by
  unfold committed set_lifecycle
  rw [NodeWork.prepare_next_of_nil howed]
  have hnodes : heap.nodes.modify key (fun node => { node with lifecycle := state }) =
      heap.nodes := by
    ext key' : 1
    rw [getElem?_modify]
    split
    · next heq =>
      rw [← Std.LawfulEqCmp.eq_of_compare heq]
      unfold lifecycle at hstate
      obtain ⟨node, hnode, hstate⟩ := Option.map_eq_some_iff.mp hstate
      rw [hnode, ← hstate]
      rfl
    · rfl
  exact congrArg (Heap.mk heap.owners) hnodes

/-- What a read of one node does: nothing, or it publishes what is due. -/
theorem read_node_notifications_cases (heap : Heap) (owner : ℕ) (pointer : UInt64)
    (output : List UInt8) :
    (∃ e, heap.read_node_notifications owner pointer output = (.error e, heap)) ∨
      ∃ state published, heap.lifecycle ⟨owner, pointer⟩ = some state ∧
        heap.read_node_notifications owner pointer output =
          (.ok published, heap.committed ⟨owner, pointer⟩ state) ∧
        published.commands = state.owed ∧ published.written = state.owed.length * 20 := by
  unfold read_node_notifications publish_notifications
  cases hnode : heap.nodes[(⟨owner, pointer⟩ : NodeKey)]? with
  | none => exact .inl ⟨_, rfl⟩
  | some node =>
    have hstate : heap.lifecycle ⟨owner, pointer⟩ = some node.lifecycle := by
      unfold lifecycle
      rw [hnode]
      rfl
    dsimp only
    by_cases hempty : (node.lifecycle.work.prepare node.lifecycle.demand).notifications = []
    · rw [if_pos hempty]
      have howed : node.lifecycle.owed = [] := hempty
      refine .inr ⟨node.lifecycle, _, hstate, rfl, howed.symm, ?_⟩
      rw [howed]
      rfl
    · rw [if_neg hempty]
      simp only [encode]
      by_cases hover : 2 ^ 64 ≤
          (node.lifecycle.work.prepare node.lifecycle.demand).notifications.length * 20
      · rw [if_pos hover]
        exact .inl ⟨_, rfl⟩
      · rw [if_neg hover]
        by_cases hshort : output.length <
            (node.lifecycle.work.prepare node.lifecycle.demand).notifications.length * 20
        · rw [if_pos hshort]
          exact .inl ⟨_, rfl⟩
        · rw [if_neg hshort]
          exact .inr ⟨node.lifecycle, _, hstate, rfl, rfl, rfl⟩

end Writes

end Heap

end DarwinArt.Binder
