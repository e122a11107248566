/-
The processes of one device around their nodes: who holds what, and what each of them can
do next.

A `System` is the heap with everything that refers to it: the handle tables, the local and
temporary holds, and the reads of work queues that are under way. Its operations are the
calls of the source, each one step, except the read of a work queue: that one lets others
run between its steps (`read_begin`, then `read_step` until it is done). One owner has one
reader at a time (`WorkQueue::reading`).

Tables and holds are named by their place among those that exist, owners by their number.
An operation on something that does not exist is no step (`perform` is `none`).
-/
import DarwinArt.Binder.ReferenceTable

set_option autoImplicit false

namespace DarwinArt.Binder

open Lib

/-- Where a `read_pending_node_work` stands. -/
inductive Reader
  /-- Before its next `pop`. -/
  | Scanning (budget : ℕ) (output : List UInt8)
  /-- With a node that is no longer queued and has yet to be looked at. -/
  | Popped (pointer : UInt64) (budget : ℕ) (output : List UInt8)
  /-- With a node that could not be read and has yet to be queued again. -/
  | Failed (pointer : UInt64) (error : Errno)

/-- The node that a reader has taken from the queue. -/
def Reader.in_flight : Reader → Option UInt64
  | .Scanning _ _ => none
  | .Popped pointer _ _ => some pointer
  | .Failed pointer _ => some pointer

/-- The heap, and what refers to it. -/
structure System where
  heap : Heap
  tables : List ReferenceTable
  holds : List LocalHold
  readers : Map ℕ Reader

namespace System

/-- No process yet. -/
def new : System := ⟨⟨[], ∅⟩, [], [], ∅⟩

/-- An error of one of the calls, or the panic of an `expect`. -/
inductive Failure
  | Table (error : ReferenceTable.Error)
  | Owner (error : NodeOwner.Error)
  | Io (error : Errno)
  | Command (error : ReferenceCommand.Error)
  | Panicked
deriving DecidableEq

/-- What the calls return. -/
inductive Reply
  | Done
  | Node (key : NodeKey)
  | Counts (before after : Counts)
  | Handle (handle : ℕ) (before after : Counts)
  | Updated (outcome : ReferenceCommand.Outcome)
  | Resolved (target : ReferenceTable.ResolvedTarget)
  | Published (key : NodeKey) (published : Heap.Published)

/-- The operations. -/
inductive Op
  | new_owner
  | drop_owner (owner : ℕ)
  | resolve_object (owner : ℕ) (object : Objects.Fields) (memory : Heap.ResolveMemory)
  | new_table
  | retain (table : ℕ) (node : NodeKey) (strength : Strength)
  | retain_context_manager (table : ℕ) (node : NodeKey) (strength : Strength)
  | retain_remote (table : ℕ) (node : NodeToken) (strength : Strength)
  | retain_remote_context_manager (table : ℕ) (node : NodeToken) (strength : Strength)
  | increment (table handle : ℕ) (strength : Strength)
  | decrement (table handle : ℕ) (strength : Strength)
  | dispatch (table : ℕ) (input : List UInt8)
  | resolve (table handle : ℕ) (strength : Strength)
  | drop_table (table : ℕ)
  | hold (node : NodeKey) (kind : HoldKind)
  | drop_hold (hold : ℕ)
  | acquire_context_manager_refs (owner : ℕ) (node : NodeKey)
  | acknowledge (owner : ℕ) (pointer cookie : UInt64) (strength : Strength)
  | read_node_notifications (owner : ℕ) (pointer : UInt64) (output : List UInt8)
  | read_begin (owner : ℕ) (output : List UInt8)
  | read_step (owner : ℕ)

/-- An owner that exists and is alive. -/
def Live (heap : Heap) (owner : ℕ) : Prop :=
  owner < heap.owners.length ∧ (heap.owner owner).alive = true

def Alive (s : System) (owner : ℕ) : Prop := Live s.heap owner

instance (s : System) (owner : ℕ) : Decidable (s.Alive owner) :=
  inferInstanceAs (Decidable (_ ∧ _))

/-- A call on a table. -/
def on_table {α : Type} (s : System) (i : ℕ) (reply : α → Reply)
    (call : ReferenceTable → Heap → Except ReferenceTable.Error α × ReferenceTable × Heap) :
    Option (Except Failure Reply × System) :=
  match s.tables[i]? with
  | none => none
  | some table =>
    match call table s.heap with
    | (.error e, table, heap) =>
      some (.error (.Table e), { s with tables := s.tables.set i table, heap := heap })
    | (.ok a, table, heap) =>
      some (.ok (reply a), { s with tables := s.tables.set i table, heap := heap })

/-- One of the `retain` calls. The caller has the node it passes. -/
def on_table_retain (s : System) (i : ℕ) (target : Target)
    (call : ReferenceTable → Heap → Except ReferenceTable.Error (ℕ × Counts × Counts) ×
      ReferenceTable × Heap) : Option (Except Failure Reply × System) :=
  match target with
  | .Local node =>
    if (s.heap.lifecycle node).isNone then none
    else s.on_table i (fun (handle, before, after) => .Handle handle before after) call
  | .Remote _ => s.on_table i (fun (handle, before, after) => .Handle handle before after) call

/-- `ReferenceTable::resolve`, which leaves a temporary hold. -/
def perform_resolve (s : System) (i handle : ℕ) (strength : Strength) :
    Option (Except Failure Reply × System) :=
  match s.tables[i]? with
  | none => none
  | some table =>
    match table.resolve s.heap handle strength with
    | (.error e, heap) => some (.error (.Table e), { s with heap := heap })
    | (.ok (.Remote node), heap) => some (.ok (.Resolved (.Remote node)), { s with heap := heap })
    | (.ok (.Local hold), heap) =>
      some (.ok (.Resolved (.Local hold)), { s with heap := heap, holds := s.holds ++ [hold] })

/-- `reference_command::dispatch` on a table. -/
def perform_dispatch (s : System) (i : ℕ) (input : List UInt8) :
    Option (Except Failure Reply × System) :=
  match s.tables[i]? with
  | none => none
  | some table =>
    match ReferenceCommand.dispatch table s.heap input with
    | (.error e, table, heap) =>
      some (.error (.Command e), { s with tables := s.tables.set i table, heap := heap })
    | (.ok outcome, table, heap) =>
      some (.ok (.Updated outcome), { s with tables := s.tables.set i table, heap := heap })

/-- One step of the read of an owner's queue. -/
def perform_read_step (s : System) (owner : ℕ) : Option (Except Failure Reply × System) :=
  match s.readers[owner]? with
  | none => none
  | some (.Scanning 0 _) =>
    some (.ok .Done, { s with readers := s.readers.erase owner })
  | some (.Scanning (budget + 1) output) =>
    match (s.heap.owner owner).pop with
    | none => some (.ok .Done, { s with readers := s.readers.erase owner })
    | some (pointer, state) =>
      some (.ok .Done, { s with
        heap := s.heap.set_owner owner fun _ => state
        readers := s.readers.insert owner (.Popped pointer budget output) })
  | some (.Popped pointer budget output) =>
    match s.heap.read_node_notifications owner pointer output with
    | (.error e, heap) =>
      some (.error (.Io e),
        { s with heap := heap, readers := s.readers.insert owner (.Failed pointer e) })
    | (.ok published, heap) =>
      some (.ok (.Published ⟨owner, pointer⟩ published), { s with
        heap := heap
        readers :=
          if published.written = 0 then s.readers.insert owner (.Scanning budget output)
          else s.readers.erase owner })
  | some (.Failed pointer e) =>
    some (.error (.Io e), { s with
      heap := s.heap.set_owner owner (·.requeue pointer)
      readers := s.readers.erase owner })

/-- The result of an operation and the system after it. -/
def perform (s : System) : Op → Option (Except Failure Reply × System)
  | .new_owner =>
    some (.ok .Done, { s with heap := { s.heap with owners := s.heap.owners ++ [.new] } })
  | .drop_owner owner =>
    if s.Alive owner ∧ s.readers[owner]? = none then
      some (.ok .Done,
        { s with heap := s.heap.set_owner owner fun state => { state with alive := false } })
    else none
  | .resolve_object owner object memory =>
    if s.Alive owner then
      match s.heap.resolve owner object memory with
      | (.error e, heap) => some (.error (.Owner e), { s with heap := heap })
      | (.ok key, heap) => some (.ok (.Node key), { s with heap := heap })
    else none
  | .new_table => some (.ok .Done, { s with tables := s.tables ++ [.new] })
  | .retain i node strength =>
    s.on_table_retain i (.Local node) fun table heap => table.retain heap node strength
  | .retain_context_manager i node strength =>
    s.on_table_retain i (.Local node) fun table heap =>
      table.retain_context_manager heap node strength
  | .retain_remote i node strength =>
    s.on_table_retain i (.Remote node) fun table heap => table.retain_remote heap node strength
  | .retain_remote_context_manager i node strength =>
    s.on_table_retain i (.Remote node) fun table heap =>
      table.retain_remote_context_manager heap node strength
  | .increment i handle strength =>
    s.on_table i (fun (before, after) => .Counts before after) fun table heap =>
      table.increment heap handle strength
  | .decrement i handle strength =>
    s.on_table i (fun (before, after) => .Counts before after) fun table heap =>
      table.decrement heap handle strength
  | .dispatch i input => s.perform_dispatch i input
  | .resolve i handle strength => s.perform_resolve i handle strength
  | .drop_table i =>
    match s.tables[i]? with
    | none => none
    | some table =>
      match table.drop s.heap with
      | none => some (.error .Panicked, s)
      | some heap => some (.ok .Done, { s with tables := s.tables.eraseIdx i, heap := heap })
  | .hold node kind =>
    if (s.heap.lifecycle node).isNone then none
    else
      match s.heap.hold node kind with
      | (.error e, heap) => some (.error (.Io e), { s with heap := heap })
      | (.ok hold, heap) => some (.ok .Done, { s with heap := heap, holds := s.holds ++ [hold] })
  | .drop_hold i =>
    match s.holds[i]? with
    | none => none
    | some hold =>
      match s.heap.drop_hold hold with
      | none => some (.error .Panicked, s)
      | some heap => some (.ok .Done, { s with holds := s.holds.eraseIdx i, heap := heap })
  | .acquire_context_manager_refs owner node =>
    if s.Alive owner ∧ (s.heap.lifecycle node).isSome then
      match s.heap.acquire_context_manager_refs owner node with
      | (.error e, heap) => some (.error (.Io e), { s with heap := heap })
      | (.ok (strong, weak), heap) =>
        some (.ok .Done, { s with heap := heap, holds := s.holds ++ [strong, weak] })
    else none
  | .acknowledge owner pointer cookie strength =>
    if s.Alive owner then
      match s.heap.acknowledge owner pointer cookie strength with
      | (.error e, heap) => some (.error (.Owner e), { s with heap := heap })
      | (.ok (), heap) => some (.ok .Done, { s with heap := heap })
    else none
  | .read_node_notifications owner pointer output =>
    if s.Alive owner then
      match s.heap.read_node_notifications owner pointer output with
      | (.error e, heap) => some (.error (.Io e), { s with heap := heap })
      | (.ok published, heap) =>
        some (.ok (.Published ⟨owner, pointer⟩ published), { s with heap := heap })
    else none
  | .read_begin owner output =>
    if s.Alive owner ∧ s.readers[owner]? = none then
      let reader := Reader.Scanning (s.heap.owner owner).order.length output
      some (.ok .Done, { s with readers := s.readers.insert owner reader })
    else none
  | .read_step owner => s.perform_read_step owner

/-- An operation and the system it runs on. -/
structure Event where
  before : System
  op : Op

/-- A step: the operation is possible, and leads to `s'`. -/
def Step (s : System) (e : Event) (s' : System) : Prop :=
  e.before = s ∧ ∃ result, s.perform e.op = some (result, s')

/-- What the operation of an event returns. -/
def Event.result (e : Event) : Option (Except Failure Reply) :=
  (e.before.perform e.op).map Prod.fst

/-! ## What a step can do -/

/-- The reply is not a publication. -/
def Reply.Quiet (reply : Reply) : Prop := ∀ key published, reply ≠ .Published key published

/-- The operation is not one of the two that speak for the owner. -/
def Op.Plain : Op → Prop
  | .acknowledge _ _ _ _ => False
  | .acquire_context_manager_refs _ _ => False
  | _ => True

/-- The operations with what they find, return and leave. -/
inductive Change (s : System) : Op → Except Failure Reply → System → Prop
  | failed {op : Op} {e : Failure} (hpanic : e ≠ .Panicked) : Change s op (.error e) s
  | answered {op : Op} {reply : Reply} (hreply : reply.Quiet)
      (hop : op.Plain) :
      Change s op (.ok reply) s
  | owner_made :
      Change s .new_owner (.ok .Done)
        { s with heap := { s.heap with owners := s.heap.owners ++ [.new] } }
  | owner_dropped {owner : ℕ} :
      Change s (.drop_owner owner) (.ok .Done)
        { s with heap := s.heap.set_owner owner fun state => { state with alive := false } }
  | node_made {owner : ℕ} {object : Objects.Fields} {memory : Heap.ResolveMemory} {key : NodeKey}
      {node : Node} {f : OwnerState → OwnerState} (howner : key.owner < s.heap.owners.length)
      (hnone : s.heap.lifecycle key = none)
      (hnew : node.lifecycle = Lifecycle.new)
      (hf : ∀ state, (f state).alive = state.alive ∧ (f state).order = state.order ∧
        (f state).membership = state.membership) :
      Change s (.resolve_object owner object memory) (.ok (.Node key))
        { s with heap := (s.heap.with_node key node).set_owner owner f }
  | table_made : Change s .new_table (.ok .Done) { s with tables := s.tables ++ [.new] }
  | moved {op : Op} {reply : Reply} {i : ℕ} {table table' : ReferenceTable} {heap' : Heap}
      (hreply : reply.Quiet)
      (hop : op.Plain)
      (htable : s.tables[i]? = some table)
      (hmove : ReferenceTable.Move table s.heap table' heap') :
      Change s op (.ok reply) { s with tables := s.tables.set i table', heap := heap' }
  | table_dropped {i : ℕ} {table : ReferenceTable} {heap' : Heap}
      (htable : s.tables[i]? = some table) (hdrop : table.drop s.heap = some heap') :
      Change s (.drop_table i) (.ok .Done) { s with tables := s.tables.eraseIdx i, heap := heap' }
  | table_panicked {i : ℕ} {table : ReferenceTable} (htable : s.tables[i]? = some table)
      (hdrop : table.drop s.heap = none) : Change s (.drop_table i) (.error .Panicked) s
  | held {op : Op} {reply : Reply} {key : NodeKey} {kind : HoldKind} {state : Lifecycle} {count : ℕ}
      (hreply : reply.Quiet)
      (hop : op.Plain)
      (hstate : s.heap.lifecycle key = some state)
      (hcount : bounded_succ (state.local_count kind) = some count) :
      Change s op (.ok reply)
        { s with
          heap := (s.heap.set_lifecycle key (state.set_local_count kind count)).schedule key
          holds := s.holds ++ [⟨key, kind⟩] }
  | unheld {i : ℕ} {hold : LocalHold} {state : Lifecycle} {count : ℕ}
      (hhold : s.holds[i]? = some hold) (hstate : s.heap.lifecycle hold.node = some state)
      (hcount : checked_sub (state.local_count hold.kind) 1 = some count) :
      Change s (.drop_hold i) (.ok .Done)
        { s with
          heap := (s.heap.set_lifecycle hold.node
            (state.set_local_count hold.kind count)).schedule hold.node
          holds := s.holds.eraseIdx i }
  | hold_panicked {i : ℕ} {hold : LocalHold} (hhold : s.holds[i]? = some hold)
      (hdrop : s.heap.drop_hold hold = none) : Change s (.drop_hold i) (.error .Panicked) s
  | manager_refs {owner : ℕ} {key : NodeKey} {state : Lifecycle}
      (hstate : s.heap.lifecycle key = some state) :
      Change s (.acquire_context_manager_refs owner key) (.ok .Done)
        { s with
          heap := s.heap.set_lifecycle key
            { state with
              local_strong := state.local_strong + 1
              local_weak := state.local_weak + 1
              work := state.work.mark_context_manager_refs }
          holds := s.holds ++ [⟨key, .Strong⟩, ⟨key, .Weak⟩] }
  | acknowledged {owner : ℕ} {pointer cookie : UInt64} {strength : Strength} {state : Lifecycle}
      {work : NodeWork} (hstate : s.heap.lifecycle ⟨owner, pointer⟩ = some state)
      (hwork : state.work.acknowledge strength = some work) :
      Change s (.acknowledge owner pointer cookie strength) (.ok .Done)
        { s with heap := (s.heap.set_lifecycle ⟨owner, pointer⟩
          { state with work := work }).schedule ⟨owner, pointer⟩ }
  /-- What is due on a node is published, by a read of the node or of the queue. -/
  | published {op : Op} {owner : ℕ} {pointer : UInt64} {state : Lifecycle}
      {published : Heap.Published} {readers' : Map ℕ Reader}
      (hop : op.Plain)
      (hstate : s.heap.lifecycle ⟨owner, pointer⟩ = some state)
      (hcommands : published.commands = state.owed)
      (hreaders : readers' = s.readers ∨
        ∃ budget output, s.readers[owner]? = some (.Popped pointer budget output) ∧
          (readers' = s.readers.insert owner (.Scanning budget output) ∨
            readers' = s.readers.erase owner)) :
      Change s op (.ok (.Published ⟨owner, pointer⟩ published))
        { s with heap := s.heap.committed ⟨owner, pointer⟩ state, readers := readers' }
  | read_begun {owner budget : ℕ} {output : List UInt8} (hnone : s.readers[owner]? = none) :
      Change s (.read_begin owner output) (.ok .Done)
        { s with readers := s.readers.insert owner (.Scanning budget output) }
  | read_done {owner budget : ℕ} {output : List UInt8}
      (hreader : s.readers[owner]? = some (.Scanning budget output)) :
      Change s (.read_step owner) (.ok .Done) { s with readers := s.readers.erase owner }
  | popped {owner budget : ℕ} {output : List UInt8} {pointer : UInt64} {state : OwnerState}
      (hreader : s.readers[owner]? = some (.Scanning (budget + 1) output))
      (hpop : (s.heap.owner owner).pop = some (pointer, state)) :
      Change s (.read_step owner) (.ok .Done)
        { s with
          heap := s.heap.set_owner owner fun _ => state
          readers := s.readers.insert owner (.Popped pointer budget output) }
  | read_failed {owner budget : ℕ} {output : List UInt8} {pointer : UInt64} {e : Errno}
      (hreader : s.readers[owner]? = some (.Popped pointer budget output)) :
      Change s (.read_step owner) (.error (.Io e))
        { s with readers := s.readers.insert owner (.Failed pointer e) }
  | requeued {owner : ℕ} {pointer : UInt64} {e : Errno}
      (hreader : s.readers[owner]? = some (.Failed pointer e)) :
      Change s (.read_step owner) (.error (.Io e))
        { s with
          heap := s.heap.set_owner owner (·.requeue pointer)
          readers := s.readers.erase owner }

section Changes

variable {s s' : System} {result : Except Failure Reply} {i : ℕ} {op : Op}

/-- Writing a table back where it was changes nothing. -/
theorem set_same {table : ReferenceTable} (h : s.tables[i]? = some table) :
    s.tables.set i table = s.tables := by
  obtain ⟨_, hget⟩ := getElem?_eq_some_iff.mp h
  rw [← hget, List.set_getElem_self]

/-- The change of a step, from what the step returns. -/
theorem Change.of_some {result' : Except Failure Reply} {t : System}
    (h : some (result', t) = some (result, s')) (hc : Change s op result' t) :
    Change s op result s' := by
  cases h
  exact hc

/-- A call on a table. -/
theorem change_on_table {α : Type} {reply : α → Reply}
    {call : ReferenceTable → Heap → Except ReferenceTable.Error α × ReferenceTable × Heap}
    (hreply : ∀ a, (reply a).Quiet) (hop : op.Plain)
    (hcall : ∀ table heap, (∃ e, call table heap = (.error e, table, heap)) ∨
      ∃ a table' heap', call table heap = (.ok a, table', heap') ∧
        ReferenceTable.Move table heap table' heap')
    (h : s.on_table i reply call = some (result, s')) : Change s op result s' := by
  unfold on_table at h
  split at h
  · cases h
  next table htable =>
  rcases hcall table s.heap with ⟨e, he⟩ | ⟨a, _, _, hok, hmove⟩
  · rw [he] at h
    dsimp only at h
    rw [set_same htable] at h
    exact Change.of_some h (.failed (by simp))
  · rw [hok] at h
    exact Change.of_some h (.moved (hreply a) hop htable hmove)

theorem quiet_handle (a : ℕ × Counts × Counts) : (Reply.Handle a.1 a.2.1 a.2.2).Quiet := by
  intro key published h
  cases h

theorem quiet_counts (a : Counts × Counts) : (Reply.Counts a.1 a.2).Quiet := by
  intro key published h
  cases h

/-- One of the `retain` calls. -/
theorem change_retain (i : ℕ) (target : Target) (strength : Strength) (start : ℕ) (hop : op.Plain)
    (h : s.on_table_retain i target (fun table heap =>
      table.retain_from heap target strength start) = some (result, s')) :
    Change s op result s' := by
  have hcall : ∀ (table : ReferenceTable) (heap : Heap),
      (∃ e, table.retain_from heap target strength start = (.error e, table, heap)) ∨
      ∃ a table' heap', table.retain_from heap target strength start = (.ok a, table', heap') ∧
        ReferenceTable.Move table heap table' heap' := by
    intro table heap
    rcases ReferenceTable.retain_from_cases table heap target strength start with
      ⟨e, he⟩ | ⟨handle, before, after, table', heap', hok, hmove, -⟩
    · exact .inl ⟨e, he⟩
    · exact .inr ⟨_, table', heap', hok, hmove⟩
  unfold on_table_retain at h
  split at h
  · split at h
    · cases h
    · exact change_on_table quiet_handle hop hcall h
  · exact change_on_table quiet_handle hop hcall h

theorem change_dispatch {input : List UInt8} (h : s.perform_dispatch i input = some (result, s')) :
    Change s (.dispatch i input) result s' := by
  have hquiet : ∀ outcome, (Reply.Updated outcome).Quiet := by
    intro outcome key published h
    cases h
  unfold perform_dispatch at h
  split at h
  · cases h
  next table htable =>
  -- a dispatch is an update of the table, or leaves it
  have hcases : (∃ r, ReferenceCommand.dispatch table s.heap input = (r, table, s.heap)) ∨
      ∃ outcome table' heap',
        ReferenceCommand.dispatch table s.heap input = (.ok outcome, table', heap') ∧
        ReferenceTable.Move table s.heap table' heap' := by
    unfold ReferenceCommand.dispatch
    split
    · exact .inl ⟨_, rfl⟩
    split
    · exact .inl ⟨_, rfl⟩
    dsimp only
    split
    · exact .inl ⟨_, rfl⟩
    split
    · exact .inl ⟨_, rfl⟩
    split
    · exact .inl ⟨_, rfl⟩
    split
    · rcases ReferenceTable.increment_cases table s.heap _ _ with
        ⟨e, he⟩ | ⟨counts, table', heap', hok, hmove⟩
      · rw [he]
        exact .inl ⟨_, rfl⟩
      · rw [hok]
        exact .inr ⟨_, table', heap', rfl, hmove⟩
    · rcases ReferenceTable.decrement_cases table s.heap _ _ with
        ⟨e, he⟩ | ⟨counts, table', heap', hok, hmove⟩
      · rw [he]
        exact .inl ⟨_, rfl⟩
      · rw [hok]
        exact .inr ⟨_, table', heap', rfl, hmove⟩
  rcases hcases with ⟨r, hr⟩ | ⟨outcome, table', heap', hok, hmove⟩
  · rw [hr] at h
    cases r with
    | error =>
      dsimp only at h
      rw [set_same htable] at h
      exact Change.of_some h (.failed (by simp))
    | ok outcome =>
      dsimp only at h
      rw [set_same htable] at h
      exact Change.of_some h (.answered (hquiet outcome) trivial)
  · rw [hok] at h
    exact Change.of_some h (.moved (hquiet outcome) trivial htable hmove)

theorem change_resolve {i handle : ℕ} {strength : Strength}
    (h : s.perform_resolve i handle strength = some (result, s')) :
    Change s (.resolve i handle strength) result s' := by
  have hquiet : ∀ target, (Reply.Resolved target).Quiet := by
    intro target key published h
    cases h
  unfold perform_resolve at h
  split at h
  · cases h
  next table htable =>
  unfold ReferenceTable.resolve at h
  cases hentry : table.entries[handle]? with
  | none =>
    rw [hentry] at h
    exact Change.of_some h (.failed (by simp))
  | some reference =>
    rw [hentry] at h
    dsimp only at h
    by_cases hstrong : strength = .Strong ∧ reference.counts.strong = 0
    · rw [if_pos hstrong] at h
      exact Change.of_some h (.failed (by simp))
    · rw [if_neg hstrong] at h
      cases htarget : reference.target with
      | Remote =>
        rw [htarget] at h
        exact Change.of_some h (.answered (hquiet _) trivial)
      | Local node =>
        rw [htarget] at h
        dsimp only at h
        rcases Heap.hold_cases s.heap node .Temporary with ⟨e, he⟩ | ⟨_, _, hstate, hcount,
          hok⟩
        · rw [he] at h
          exact Change.of_some h (.failed (by simp))
        · rw [hok] at h
          exact Change.of_some h (.held (hquiet _) trivial hstate hcount)

theorem change_resolve_object {owner : ℕ} {object : Objects.Fields} {memory : Heap.ResolveMemory}
    (h : s.perform (.resolve_object owner object memory) = some (result, s')) :
    Change s (.resolve_object owner object memory) result s' := by
  simp only [perform] at h
  split at h
  · next halive =>
    rcases s.heap.resolve_cases owner object memory with
      ⟨r, hr⟩ | ⟨key, _, f, hok, howner, hnone, hnew, hf⟩
    · rw [hr] at h
      cases r with
      | error =>
        exact Change.of_some h (.failed (by simp))
      | ok key =>
        exact Change.of_some h (.answered (fun key published h => absurd h (by simp)) trivial)
    · rw [hok] at h
      rw [← howner] at halive
      exact Change.of_some h (.node_made halive.1 hnone hnew hf)
  · cases h

theorem change_read_step {owner : ℕ} (h : s.perform_read_step owner = some (result, s')) :
    Change s (.read_step owner) result s' := by
  unfold perform_read_step at h
  split at h
  · cases h
  · next hreader =>
    exact Change.of_some h (.read_done hreader)
  · next budget output hreader =>
    split at h
    · exact Change.of_some h (.read_done hreader)
    · next pointer state hpop =>
      exact Change.of_some h (.popped hreader hpop)
  · next pointer budget output hreader =>
    rcases Heap.read_node_notifications_cases s.heap owner pointer output with
      ⟨e, he⟩ | ⟨state, _, hstate, hok, hcommands, _⟩
    · rw [he] at h
      exact Change.of_some h (.read_failed hreader)
    · rw [hok] at h
      refine Change.of_some h (.published trivial hstate hcommands
        (.inr ⟨budget, output, hreader, ?_⟩))
      split
      · exact .inl rfl
      · exact .inr rfl
  · next pointer e hreader =>
    exact Change.of_some h (.requeued hreader)

/-- **Every step is one of these changes.** -/
theorem change (h : s.perform op = some (result, s')) : Change s op result s' := by
  cases op with
  | new_owner =>
    exact Change.of_some h (.owner_made)
  | drop_owner =>
    obtain ⟨-, h⟩ := Option.ite_none_right_eq_some.mp h
    exact Change.of_some h (.owner_dropped)
  | resolve_object => exact change_resolve_object h
  | new_table =>
    exact Change.of_some h (.table_made)
  | retain i node strength => exact change_retain i (.Local node) strength 1 trivial h
  | retain_context_manager i node strength =>
    exact change_retain i (.Local node) strength 0 trivial h
  | retain_remote i node strength => exact change_retain i (.Remote node) strength 1 trivial h
  | retain_remote_context_manager i node strength =>
    exact change_retain i (.Remote node) strength 0 trivial h
  | increment _ handle strength =>
    exact change_on_table quiet_counts trivial
      (fun table heap => ReferenceTable.increment_cases table heap handle strength) h
  | decrement _ handle strength =>
    exact change_on_table quiet_counts trivial
      (fun table heap => ReferenceTable.decrement_cases table heap handle strength) h
  | dispatch => exact change_dispatch h
  | resolve => exact change_resolve h
  | drop_table =>
    simp only [perform] at h
    split at h
    · cases h
    next table htable =>
    split at h
    · next hdrop =>
      exact Change.of_some h (.table_panicked htable hdrop)
    · next heap hdrop =>
      exact Change.of_some h (.table_dropped htable hdrop)
  | hold node kind =>
    simp only [perform] at h
    split at h
    · cases h
    rcases Heap.hold_cases s.heap node kind with ⟨e, he⟩ | ⟨state, count, hstate, hcount, hok⟩
    · rw [he] at h
      exact Change.of_some h (.failed (by simp))
    · rw [hok] at h
      exact Change.of_some h (.held (fun key published h => absurd h (by simp)) trivial hstate hcount)
  | drop_hold =>
    simp only [perform] at h
    split at h
    · cases h
    next hold hhold =>
    split at h
    · next hdrop =>
      exact Change.of_some h (.hold_panicked hhold hdrop)
    · next heap hdrop =>
      obtain ⟨state, count, hstate, hcount, hheap⟩ := Heap.drop_hold_eq_some hdrop
      subst hheap
      exact Change.of_some h (.unheld hhold hstate hcount)
  | acquire_context_manager_refs owner node =>
    simp only [perform] at h
    split at h
    · rcases Heap.acquire_context_manager_refs_cases s.heap owner node with
        ⟨e, he⟩ | ⟨state, hstate, -, hok⟩
      · rw [he] at h
        exact Change.of_some h (.failed (by simp))
      · rw [hok] at h
        exact Change.of_some h (.manager_refs hstate)
    · cases h
  | acknowledge owner pointer cookie strength =>
    simp only [perform] at h
    split at h
    · rcases Heap.acknowledge_cases s.heap owner pointer cookie strength with
        ⟨e, he⟩ | ⟨state, _, hstate, hwork, hok⟩
      · rw [he] at h
        exact Change.of_some h (.failed (by simp))
      · rw [hok] at h
        exact Change.of_some h (.acknowledged hstate hwork)
    · cases h
  | read_node_notifications owner pointer output =>
    simp only [perform] at h
    split at h
    · rcases Heap.read_node_notifications_cases s.heap owner pointer output with
        ⟨e, he⟩ | ⟨state, published, hstate, hok, hcommands, -⟩
      · rw [he] at h
        exact Change.of_some h (.failed (by simp))
      · rw [hok] at h
        exact Change.of_some h (.published trivial hstate hcommands (.inl rfl))
    · cases h
  | read_begin =>
    obtain ⟨⟨-, hnone⟩, h⟩ := Option.ite_none_right_eq_some.mp h
    exact Change.of_some h (.read_begun hnone)
  | read_step => exact change_read_step h

end Changes

end System

end DarwinArt.Binder
