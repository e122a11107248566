/-
No notification is lost.

An owner learns what it owes to its nodes by reading its work queue, and a node is examined
only when it is queued. So every step that makes something due has to queue the node, and a
step that takes a node from the queue has to settle it or put it back. `QueueInv` says so: a
node with something due is queued, or a reader has it in its hands.

The second half is what a reader gets from that: a read with a short buffer loses nothing,
and reads with a buffer for two records deliver everything, in the order of the queue.
-/
import DarwinArt.Binder.ReferenceCounts

set_option autoImplicit false

namespace DarwinArt.Binder

open Lib

open Heap OwnerState

open ReferenceTable

/-! ## Queues -/

namespace OwnerState

/-- A queue lists each of its members once. -/
structure Wf (state : OwnerState) : Prop where
  nodup : state.order.Nodup
  membership : ∀ pointer, pointer ∈ state.membership ↔ pointer ∈ state.order

variable {state state' : OwnerState}

theorem wf_new : Wf new := by
  constructor <;> simp [new]

/-- The queue after `schedule`. -/
theorem mem_schedule (h : Wf state) (pointer p : UInt64) :
    p ∈ (state.schedule pointer).order ↔
      p ∈ state.order ∨ (state.alive = true ∧ p = pointer) := by
  unfold schedule
  split
  · next hnew =>
    show p ∈ state.order ++ [pointer] ↔ _
    rw [List.mem_append, List.mem_singleton]
    constructor
    · exact fun hp => hp.imp_right fun heq => ⟨hnew.1, heq⟩
    · exact fun hp => hp.imp_right fun heq => heq.2
  · next hold =>
    refine ⟨.inl, ?_⟩
    rintro (hp | ⟨halive, heq⟩)
    · exact hp
    · have hmem : pointer ∈ state.membership := by
        by_contra hnot
        exact hold ⟨halive, hnot⟩
      rw [heq]
      exact (h.membership pointer).mp hmem

theorem schedule_alive (state : OwnerState) (pointer : UInt64) :
    (state.schedule pointer).alive = state.alive := by
  unfold schedule
  split
  · rfl
  · rfl

theorem Wf.schedule (h : Wf state) (pointer : UInt64) : Wf (state.schedule pointer) := by
  unfold OwnerState.schedule
  split
  · next hnew =>
    have hnot : pointer ∉ state.order := fun hmem => hnew.2 ((h.membership pointer).mpr hmem)
    constructor
    · show (state.order ++ [pointer]).Nodup
      rw [List.nodup_append]
      refine ⟨h.nodup, by simp, ?_⟩
      intro a ha b hb heq
      rw [List.mem_singleton.mp hb] at heq
      rw [heq] at ha
      exact hnot ha
    · intro p
      show p ∈ insert pointer state.membership ↔ p ∈ state.order ++ [pointer]
      rw [Finset.mem_insert, List.mem_append, List.mem_singleton, h.membership, or_comm]
  · exact h

/-- The queue after `pop`. -/
theorem pop_eq_some {pointer : UInt64} (h : state.pop = some (pointer, state')) :
    state.order = pointer :: state'.order ∧ state'.alive = state.alive ∧
      state'.membership = state.membership.erase pointer := by
  unfold pop at h
  split at h
  · cases h
  · next p order horder =>
    cases h
    exact ⟨horder, rfl, rfl⟩

theorem Wf.pop (h : Wf state) {pointer : UInt64} (hpop : state.pop = some (pointer, state')) :
    Wf state' := by
  obtain ⟨horder, -, hmembership⟩ := pop_eq_some hpop
  have hnodup := h.nodup
  rw [horder, List.nodup_cons] at hnodup
  constructor
  · exact hnodup.2
  · intro p
    rw [hmembership, Finset.mem_erase, h.membership, horder, List.mem_cons]
    constructor
    · rintro ⟨hne, heq | hmem⟩
      · exact absurd heq hne
      · exact hmem
    · intro hmem
      refine ⟨?_, .inr hmem⟩
      intro heq
      rw [heq] at hmem
      exact hnodup.1 hmem

/-- The queue after `requeue`. -/
theorem mem_requeue (h : Wf state) (pointer p : UInt64) :
    p ∈ (state.requeue pointer).order ↔ p ∈ state.order ∨ p = pointer := by
  unfold requeue
  split
  · show p ∈ pointer :: state.order ↔ _
    rw [List.mem_cons, or_comm]
  · next hold =>
    refine ⟨.inl, ?_⟩
    rintro (hp | heq)
    · exact hp
    · rw [heq]
      exact (h.membership pointer).mp (Decidable.not_not.mp hold)

theorem requeue_alive (state : OwnerState) (pointer : UInt64) :
    (state.requeue pointer).alive = state.alive := by
  unfold requeue
  split
  · rfl
  · rfl

theorem Wf.requeue (h : Wf state) (pointer : UInt64) : Wf (state.requeue pointer) := by
  unfold OwnerState.requeue
  split
  · next hnew =>
    have hnot : pointer ∉ state.order := fun hmem => hnew ((h.membership pointer).mpr hmem)
    constructor
    · exact List.nodup_cons.mpr ⟨hnot, h.nodup⟩
    · intro p
      show p ∈ insert pointer state.membership ↔ p ∈ pointer :: state.order
      rw [Finset.mem_insert, List.mem_cons, h.membership]
  · exact h

end OwnerState

/-! ## Reading the queue -/

/-- The records that are due on a node, as its owner reads them. -/
def Node.records (node : Node) (pointer : UInt64) : List UInt8 :=
  node.lifecycle.owed.flatMap (Notification.record pointer node.cookie)

namespace Heap

/-- The records due on the node of a pointer, if there are any. -/
def due_on (heap : Heap) (owner : ℕ) (pointer : UInt64) : Option (List UInt8) :=
  match heap.nodes[(⟨owner, pointer⟩ : NodeKey)]? with
  | none => none
  | some node => if node.lifecycle.owed = [] then none else some (node.records pointer)

/-- What is due to an owner, in the order of its queue. -/
def due (heap : Heap) (owner : ℕ) : List (List UInt8) :=
  (heap.owner owner).order.filterMap (heap.due_on owner)

/-- Reads of the queue until one finds nothing, at most `n` of them: the bytes that each
wrote, and the heap in the end. -/
def read_all (heap : Heap) (owner : ℕ) (output : List UInt8) : ℕ → List (List UInt8) × Heap
  | 0 => ([], heap)
  | n + 1 =>
    match heap.read_pending_node_work owner output with
    | (.error _, heap) => ([], heap)
    | (.ok published, heap) =>
      if published.written = 0 then ([], heap)
      else
        let rest := heap.read_all owner output n
        (published.output.take published.written :: rest.1, rest.2)

section Reads

variable {heap heap' : Heap} {owner : ℕ} {pointer : UInt64} {node : Node} {output : List UInt8}

theorem length_records (commands : List Notification) (pointer cookie : UInt64) :
    (commands.flatMap (Notification.record pointer cookie)).length = commands.length * 20 := by
  have hrecord : ∀ command : Notification, (command.record pointer cookie).length = 20 :=
    fun _ => rfl
  rw [List.length_flatMap, funext hrecord, List.map_const', List.sum_replicate, smul_eq_mul]

theorem lifecycle_of_node (h : heap.nodes[(⟨owner, pointer⟩ : NodeKey)]? = some node) :
    heap.lifecycle ⟨owner, pointer⟩ = some node.lifecycle := by
  unfold lifecycle
  rw [h]
  rfl

/-- With room for two records, a read of a node writes what is due on it. -/
theorem read_node_notifications_records (heap : Heap)
    (hnode : heap.nodes[(⟨owner, pointer⟩ : NodeKey)]? = some node) (hlen : 40 ≤ output.length) :
    ∃ published, heap.read_node_notifications owner pointer output =
        (.ok published, heap.committed ⟨owner, pointer⟩ node.lifecycle) ∧
      published.written = node.lifecycle.owed.length * 20 ∧
      published.output.take published.written = node.records pointer := by
  have htwo : node.lifecycle.owed.length ≤ 2 := NodeWork.prepare_length_le
  unfold read_node_notifications publish_notifications
  rw [hnode]
  dsimp only
  by_cases hempty : (node.lifecycle.work.prepare node.lifecycle.demand).notifications = []
  · have howed : node.lifecycle.owed = [] := hempty
    rw [if_pos hempty]
    refine ⟨_, rfl, ?_, ?_⟩
    · rw [howed]
      rfl
    · unfold Node.records
      rw [howed]
      rfl
  · have hsize : (node.lifecycle.work.prepare node.lifecycle.demand).notifications.length * 20 ≤
        40 := by
      show node.lifecycle.owed.length * 20 ≤ 40
      omega
    rw [if_neg hempty]
    unfold encode
    rw [if_neg (by omega), if_neg (by omega)]
    refine ⟨_, rfl, rfl, ?_⟩
    exact List.take_left' (length_records _ _ _)

theorem due_on_of_node (hnode : heap.nodes[(⟨owner, pointer⟩ : NodeKey)]? = some node) :
    heap.due_on owner pointer =
      if node.lifecycle.owed = [] then none else some (node.records pointer) := by
  unfold due_on
  rw [hnode]

/-- What is due on the other nodes stays due. -/
theorem due_on_committed (heap : Heap) (state : Lifecycle) {p : UInt64} (hne : p ≠ pointer) :
    (heap.committed ⟨owner, pointer⟩ state).due_on owner p = heap.due_on owner p := by
  have hlookup : (heap.committed ⟨owner, pointer⟩ state).nodes[(⟨owner, p⟩ : NodeKey)]? =
      heap.nodes[(⟨owner, p⟩ : NodeKey)]? := by
    unfold committed set_lifecycle
    rw [getElem?_modify, if_neg]
    intro heq
    cases Std.LawfulEqCmp.eq_of_compare heq
    exact hne rfl
  unfold due_on
  rw [hlookup]

/-- The queue of an owner that exists, after it is written. -/
theorem owner_set_self (hlt : owner < heap.owners.length) (f : OwnerState → OwnerState) :
    (heap.set_owner owner f).owner owner = f (heap.owner owner) := by
  rw [owner_set_owner, if_pos ⟨rfl, hlt⟩]

theorem order_nil_of_pop (h : (heap.owner owner).pop = none) : (heap.owner owner).order = [] := by
  unfold pop at h
  split at h
  · next horder => exact horder
  · cases h

/-- **A read with room for two records delivers the first of what is due**, or finds that
nothing is. -/
theorem read_pending_loop_due (hlen : 40 ≤ output.length) (hlt : owner < heap.owners.length)
    (hwf : (heap.owner owner).Wf)
    (hnodes : ∀ p ∈ (heap.owner owner).order, (heap.lifecycle ⟨owner, p⟩).isSome = true)
    (budget : ℕ) (hbudget : (heap.owner owner).order.length ≤ budget) :
    ∃ published heap', heap.read_pending_loop owner output budget = (.ok published, heap') ∧
      ((heap.due owner = [] ∧ published.written = 0 ∧ (heap'.owner owner).order = []) ∨
        (published.written ≠ 0 ∧
          heap.due owner = published.output.take published.written :: heap'.due owner)) := by
  induction budget generalizing heap with
  | zero =>
    have horder : (heap.owner owner).order = [] := List.length_eq_zero_iff.mp (by omega)
    refine ⟨_, heap, rfl, .inl ⟨?_, rfl, horder⟩⟩
    unfold due
    rw [horder]
    rfl
  | succ _ ih =>
    unfold read_pending_loop
    split
    · next hpop =>
      have horder := order_nil_of_pop hpop
      refine ⟨_, heap, rfl, .inl ⟨?_, rfl, horder⟩⟩
      unfold due
      rw [horder]
      rfl
    · next pointer queue hpop =>
      obtain ⟨horder, -, -⟩ := pop_eq_some hpop
      have hsome := hnodes pointer (by rw [horder]; exact List.mem_cons_self)
      unfold lifecycle at hsome
      rw [Option.isSome_map] at hsome
      obtain ⟨node, hnode⟩ := Option.isSome_iff_exists.mp hsome
      have hqueue : (heap.set_owner owner fun _ => queue).owner owner = queue :=
        owner_set_self hlt _
      obtain ⟨published, hread, hwritten, hrecords⟩ :=
        read_node_notifications_records (heap.set_owner owner fun _ => queue) hnode hlen
      rw [hread]
      dsimp only
      have hdue : heap.due owner =
          (heap.due_on owner pointer).toList ++ queue.order.filterMap (heap.due_on owner) := by
        unfold due
        rw [horder, List.filterMap_cons]
        cases heap.due_on owner pointer <;> rfl
      rw [due_on_of_node hnode] at hdue
      by_cases howed : node.lifecycle.owed = []
      · -- the node leaves the queue, with nothing due on it
        have hzero : published.written = 0 := by
          rw [hwritten, howed]
          rfl
        have hstate : (heap.set_owner owner fun _ => queue).lifecycle ⟨owner, pointer⟩ =
            some node.lifecycle := lifecycle_of_node hnode
        rw [if_pos hzero, committed_of_nil hstate howed]
        rw [if_pos howed] at hdue
        have hsame : (heap.set_owner owner fun _ => queue).due owner = heap.due owner := by
          rw [hdue]
          unfold due
          rw [hqueue]
          rfl
        rw [← hsame]
        apply ih
        · exact Nat.lt_of_lt_of_eq hlt (List.length_modify _ _ _).symm
        · rw [hqueue]
          exact hwf.pop hpop
        · rw [hqueue]
          intro p hp
          exact hnodes p (by rw [horder]; exact List.mem_cons_of_mem _ hp)
        · rw [hqueue]
          rw [horder, List.length_cons] at hbudget
          omega
      · have hpos : published.written ≠ 0 := by
          have hne := List.length_pos_iff.mpr howed
          omega
        rw [if_neg hpos]
        rw [if_neg howed] at hdue
        refine ⟨published, _, rfl, .inr ⟨hpos, ?_⟩⟩
        rw [hdue, hrecords]
        show node.records pointer :: _ = _
        congr 1
        have hnodup := hwf.nodup
        rw [horder, List.nodup_cons] at hnodup
        show _ = ((heap.set_owner owner fun _ => queue).owner owner).order.filterMap _
        rw [hqueue]
        apply List.filterMap_congr
        intro p hp
        have hne : p ≠ pointer := fun heq => hnodup.1 (heq ▸ hp)
        exact (due_on_committed (heap.set_owner owner fun _ => queue) _ hne).symm

/-- **A read that fails loses nothing**: no node is written, and what was due is still due, in
the same order. -/
theorem read_pending_loop_error {e : Errno} (hlt : owner < heap.owners.length)
    (hwf : (heap.owner owner).Wf) {budget : ℕ}
    (h : heap.read_pending_loop owner output budget = (.error e, heap')) :
    heap'.nodes = heap.nodes ∧ heap'.due owner = heap.due owner := by
  induction budget generalizing heap with
  | zero => exact absurd h (by simp [read_pending_loop])
  | succ _ ih =>
    unfold read_pending_loop at h
    split at h
    · cases h
    next pointer queue hpop =>
    obtain ⟨horder, -, hmembership⟩ := pop_eq_some hpop
    have hqueue : (heap.set_owner owner fun _ => queue).owner owner = queue := owner_set_self hlt _
    have hlt' : owner < (heap.set_owner owner fun _ => queue).owners.length :=
      Nat.lt_of_lt_of_eq hlt (List.length_modify _ _ _).symm
    rcases read_node_notifications_cases (heap.set_owner owner fun _ => queue) owner pointer
      output with ⟨e', hread⟩ | ⟨state, published, hstate, hread, -, hwritten⟩
    · -- the node goes back to the front
      rw [hread] at h
      cases h
      refine ⟨rfl, ?_⟩
      have hfront : (queue.requeue pointer).order = (heap.owner owner).order := by
        unfold requeue
        rw [hmembership, if_pos (Finset.notMem_erase _ _), horder]
      unfold due
      rw [owner_set_self hlt', hqueue, hfront]
      rfl
    · rw [hread] at h
      dsimp only at h
      split at h
      · next hzero =>
        have howed : state.owed = [] := List.length_eq_zero_iff.mp (by omega)
        rw [committed_of_nil hstate howed] at h
        have hwf' : ((heap.set_owner owner fun _ => queue).owner owner).Wf := by
          rw [hqueue]
          exact hwf.pop hpop
        obtain ⟨hnodes, hdue⟩ := ih hlt' hwf' h
        refine ⟨hnodes, ?_⟩
        rw [hdue]
        -- nothing was due on the node that left the queue
        have hnone : heap.due_on owner pointer = none := by
          unfold due_on
          split
          · rfl
          next node hnode =>
          have heq : heap.lifecycle ⟨owner, pointer⟩ = some state := hstate
          rw [lifecycle_of_node hnode] at heq
          rw [Option.some.inj heq, if_pos howed]
        unfold due
        rw [hqueue, horder, List.filterMap_cons_none hnone]
        rfl
      · cases h

end Reads

end Heap

namespace System

/-! ## The invariant -/

/-- A reader of its owner has taken the node from the queue. -/
def InFlight (readers : Map ℕ Reader) (key : NodeKey) : Prop :=
  ∃ reader, readers[key.owner]? = some reader ∧ reader.in_flight = some key.pointer

/-- The node is queued, or in flight. -/
def Pending (heap : Heap) (readers : Map ℕ Reader) (key : NodeKey) : Prop :=
  key.pointer ∈ (heap.owner key.owner).order ∨ InFlight readers key

/-- What every step keeps. -/
structure QueueInv (heap : Heap) (readers : Map ℕ Reader) : Prop where
  wf : ∀ i, (heap.owner i).Wf
  /-- A node has an owner. -/
  owned : ∀ key state, heap.lifecycle key = some state → key.owner < heap.owners.length
  /-- What is queued or in flight exists. -/
  node : ∀ key, Pending heap readers key → (heap.lifecycle key).isSome = true
  /-- **What is due is not forgotten.** -/
  pending : ∀ key state, heap.lifecycle key = some state → Live heap key.owner →
    state.owed ≠ [] → Pending heap readers key

theorem owed_new : Lifecycle.new.owed = [] := by decide

section Steps

variable {heap heap' : Heap} {readers readers' : Map ℕ Reader} {key : NodeKey}
  {state state' : Lifecycle}

theorem owners_length_schedule (heap : Heap) (key : NodeKey) :
    (heap.schedule key).owners.length = heap.owners.length := by
  unfold Heap.schedule Heap.set_owner
  exact List.length_modify _ _ _

theorem owner_schedule (heap : Heap) (key : NodeKey) (i : ℕ) :
    (heap.schedule key).owner i =
      if key.owner = i ∧ key.owner < heap.owners.length then
        (heap.owner i).schedule key.pointer
      else heap.owner i :=
  owner_set_owner heap key.owner i _

section

variable (h : QueueInv heap readers)
include h

/-- A node is written and scheduled. -/
theorem QueueInv.touch (hstate : heap.lifecycle key = some state) :
    QueueInv ((heap.set_lifecycle key state').schedule key) readers := by
  have hlt := h.owned key state hstate
  have howner : ∀ i, ((heap.set_lifecycle key state').schedule key).owner i =
      if key.owner = i then (heap.owner i).schedule key.pointer else heap.owner i := by
    intro i
    rw [owner_schedule]
    by_cases heq : key.owner = i
    · rw [if_pos ⟨heq, hlt⟩, if_pos heq]
      rfl
    · rw [if_neg (fun hand => heq hand.1), if_neg heq]
      rfl
  have hsome : ∀ key', (((heap.set_lifecycle key state').schedule key).lifecycle key').isSome =
      (heap.lifecycle key').isSome := by
    intro key'
    rw [lifecycle_schedule]
    exact isSome_set_lifecycle _ _ _ _
  -- nothing leaves a queue
  have hmono : ∀ key', Pending heap readers key' →
      Pending ((heap.set_lifecycle key state').schedule key) readers key' := by
    rintro key' (hqueued | hflight)
    · refine .inl ?_
      rw [howner]
      split
      · exact (mem_schedule (h.wf _) _ _).mpr (.inl hqueued)
      · exact hqueued
    · exact .inr hflight
  constructor
  · intro i
    rw [howner]
    split
    · exact (h.wf i).schedule _
    · exact h.wf i
  · intro key' st hst
    rw [owners_length_schedule]
    have hexists : (heap.lifecycle key').isSome = true := by
      rw [← hsome key', hst]
      rfl
    obtain ⟨old, hold⟩ := Option.isSome_iff_exists.mp hexists
    exact h.owned key' old hold
  · rintro key' (hqueued | hflight)
    · rw [hsome]
      rw [howner] at hqueued
      split at hqueued
      · next heq =>
        rcases (mem_schedule (h.wf _) _ _).mp hqueued with hqueued | ⟨-, hp⟩
        · exact h.node key' (.inl hqueued)
        · have hkey : key' = key := NodeKey.ext heq.symm hp
          rw [hkey, hstate]
          rfl
      · exact h.node key' (.inl hqueued)
    · rw [hsome]
      exact h.node key' (.inr hflight)
  · intro key' st hst hlive howed
    have hlive' : Live heap key'.owner := by
      obtain ⟨hlen, halive⟩ := hlive
      rw [owners_length_schedule] at hlen
      rw [howner] at halive
      refine ⟨hlen, ?_⟩
      split at halive
      · rwa [schedule_alive] at halive
      · exact halive
    by_cases hkey : key = key'
    · -- the node itself has just been scheduled
      subst hkey
      refine .inl ?_
      rw [howner, if_pos rfl]
      exact (mem_schedule (h.wf _) _ _).mpr (.inr ⟨hlive'.2, rfl⟩)
    · rw [lifecycle_schedule, lifecycle_set_ne hkey] at hst
      exact hmono key' (h.pending key' st hst hlive' howed)

theorem QueueInv.update_target {target : Target} {before after : Counts}
    (hupdate : ReferenceTable.update_target heap target before after = some heap') :
    QueueInv heap' readers := by
  cases target with
  | Remote =>
    cases hupdate
    exact h
  | Local =>
    obtain ⟨_, _, _, hstate, -, -, hheap⟩ := update_remote_eq_some hupdate
    rw [hheap]
    exact h.touch hstate

theorem QueueInv.move {table table' : ReferenceTable}
    (hmove : Move table heap table' heap') : QueueInv heap' readers := by
  cases hmove with
  | changed _ _ _ hupdate | removed _ hupdate | allocated _ _ _ _ hupdate =>
    exact h.update_target hupdate

theorem QueueInv.drop {references : List Reference}
    (hdrop : drop_references heap references = some heap') : QueueInv heap' readers := by
  induction references generalizing heap with
  | nil =>
    cases hdrop
    exact h
  | cons _ _ ih =>
    unfold drop_references at hdrop
    split at hdrop
    · cases hdrop
    · next heap₁ hupdate => exact ih (h.update_target hupdate) hdrop

end

/-! ### Readers -/

section Readers

variable {owner : ℕ} {reader : Reader}

theorem inFlight_iff (h : readers[owner]? = some reader) (hkey : key.owner = owner) :
    InFlight readers key ↔ reader.in_flight = some key.pointer := by
  unfold InFlight
  rw [hkey, h]
  constructor
  · rintro ⟨_, heq, hflight⟩
    rwa [Option.some.inj heq]
  · exact fun hflight => ⟨reader, rfl, hflight⟩

theorem inFlight_insert (readers : Map ℕ Reader) (owner : ℕ) (reader : Reader) (key : NodeKey) :
    InFlight (readers.insert owner reader) key ↔
      if key.owner = owner then reader.in_flight = some key.pointer
      else InFlight readers key := by
  by_cases hkey : key.owner = owner
  · rw [if_pos hkey]
    exact inFlight_iff getElem?_insert_self hkey
  · rw [if_neg hkey]
    unfold InFlight
    rw [getElem?_insert_ne (Ne.symm hkey)]

theorem inFlight_erase (readers : Map ℕ Reader) (owner : ℕ) (key : NodeKey) :
    InFlight (readers.erase owner) key ↔ key.owner ≠ owner ∧ InFlight readers key := by
  unfold InFlight
  by_cases hkey : key.owner = owner
  · rw [hkey, getElem?_erase_self]
    simp
  · rw [getElem?_erase_ne (Ne.symm hkey)]
    simp [hkey]

/-- A reader that had nothing in its hands leaves. -/
theorem inFlight_leave (h : readers[owner]? = some reader) (hnone : reader.in_flight = none)
    (key : NodeKey) : InFlight (readers.erase owner) key ↔ InFlight readers key := by
  rw [inFlight_erase]
  refine ⟨And.right, fun hflight => ⟨?_, hflight⟩⟩
  intro hkey
  rw [inFlight_iff h hkey, hnone] at hflight
  cases hflight

end Readers

/-- A step that writes no node, and keeps what is pending. -/
theorem QueueInv.frame (h : QueueInv heap readers)
    (hnodes : ∀ key, heap'.lifecycle key = heap.lifecycle key)
    (hlen : heap.owners.length ≤ heap'.owners.length) (hwf : ∀ i, (heap'.owner i).Wf)
    (hlive : ∀ i, i < heap.owners.length → Live heap' i → Live heap i)
    (hpending : ∀ key, Pending heap' readers' key ↔ Pending heap readers key) :
    QueueInv heap' readers' := by
  constructor
  · exact hwf
  · intro key state hstate
    rw [hnodes] at hstate
    exact Nat.lt_of_lt_of_le (h.owned key state hstate) hlen
  · intro key hkey
    rw [hnodes]
    exact h.node key ((hpending key).mp hkey)
  · intro key state hstate hl howed
    rw [hnodes] at hstate
    have hl' := hlive key.owner (h.owned key state hstate) hl
    exact (hpending key).mpr (h.pending key state hstate hl' howed)

/-- A node with nothing due any more may leave the hands of its reader. -/
theorem QueueInv.settle (h : QueueInv heap readers) (howed : state'.owed = [])
    (hback : ∀ key', InFlight readers' key' → InFlight readers key')
    (hforth : ∀ key', key' ≠ key → InFlight readers key' → InFlight readers' key') :
    QueueInv (heap.set_lifecycle key state') readers' := by
  have hsome := isSome_set_lifecycle heap key state'
  constructor
  · exact h.wf
  · intro key' st hst
    have hexists : (heap.lifecycle key').isSome = true := by
      rw [← hsome key', hst]
      rfl
    obtain ⟨old, hold⟩ := Option.isSome_iff_exists.mp hexists
    exact h.owned key' old hold
  · intro key' hpending
    rw [hsome]
    exact h.node key' (hpending.imp_right (hback key'))
  · intro key' st hst hlive hdue
    rcases eq_or_ne key key' with rfl | hkey
    · rw [lifecycle_set_lifecycle, if_pos rfl, Option.map_eq_some_iff] at hst
      obtain ⟨old, -, hst⟩ := hst
      rw [← hst] at hdue
      exact absurd howed hdue
    · rw [lifecycle_set_ne hkey] at hst
      exact (h.pending key' st hst hlive hdue).imp_right (hforth key' (Ne.symm hkey))

/-- What a publication leaves owes nothing. -/
theorem owed_committed (state : Lifecycle) :
    Lifecycle.owed { state with work := (state.work.prepare state.demand).next } = [] :=
  NodeWork.prepare_settles

theorem QueueInv.pop (h : QueueInv heap readers) {owner budget : ℕ} {output : List UInt8}
    {pointer : UInt64} {queue : OwnerState}
    (hreader : readers[owner]? = some (.Scanning (budget + 1) output))
    (hpop : (heap.owner owner).pop = some (pointer, queue)) :
    QueueInv (heap.set_owner owner fun _ => queue)
      (readers.insert owner (.Popped pointer budget output)) := by
  obtain ⟨horder, halive, -⟩ := pop_eq_some hpop
  -- a queue with something in it is that of an owner that exists
  have hlt : owner < heap.owners.length := by
    by_contra hge
    have hnew : heap.owner owner = OwnerState.new := by
      unfold Heap.owner
      exact List.getD_eq_default _ _ (by omega)
    rw [hnew] at horder
    exact absurd horder (by simp [OwnerState.new])
  have howner : ∀ i, (heap.set_owner owner fun _ => queue).owner i =
      if owner = i then queue else heap.owner i := by
    intro i
    rw [owner_set_owner]
    simp only [hlt, and_true]
  apply h.frame
  · intro key
    rfl
  · exact Nat.le_of_eq (List.length_modify _ _ _).symm
  · intro i
    rw [howner]
    split
    · exact (h.wf owner).pop hpop
    · exact h.wf i
  · rintro i hi ⟨-, hal⟩
    rw [howner] at hal
    refine ⟨hi, ?_⟩
    split at hal
    · next heq =>
      rwa [← heq, ← halive]
    · exact hal
  · intro key
    unfold Pending
    rw [howner, inFlight_insert]
    by_cases hkey : key.owner = owner
    · rw [if_pos hkey.symm, if_pos hkey, hkey, horder, inFlight_iff hreader hkey]
      show _ ∨ some pointer = some key.pointer ↔ _ ∨ none = some key.pointer
      rw [Option.some.injEq, List.mem_cons, eq_comm]
      simp [or_comm]
    · rw [if_neg (Ne.symm hkey), if_neg hkey]

theorem QueueInv.requeue (h : QueueInv heap readers) {owner : ℕ} {pointer : UInt64} {e : Errno}
    (hreader : readers[owner]? = some (.Failed pointer e)) :
    QueueInv (heap.set_owner owner (·.requeue pointer)) (readers.erase owner) := by
  -- the node in flight exists, and so does its owner
  have hflight : InFlight readers ⟨owner, pointer⟩ := (inFlight_iff hreader rfl).mpr rfl
  obtain ⟨state, hstate⟩ := Option.isSome_iff_exists.mp (h.node _ (.inr hflight))
  have hlt : owner < heap.owners.length := h.owned _ state hstate
  have howner : ∀ i, (heap.set_owner owner (·.requeue pointer)).owner i =
      if owner = i then (heap.owner i).requeue pointer else heap.owner i := by
    intro i
    rw [owner_set_owner]
    simp only [hlt, and_true]
  apply h.frame
  · intro key
    rfl
  · exact Nat.le_of_eq (List.length_modify _ _ _).symm
  · intro i
    rw [howner]
    split
    · exact (h.wf i).requeue pointer
    · exact h.wf i
  · rintro i hi ⟨-, hal⟩
    rw [howner] at hal
    refine ⟨hi, ?_⟩
    split at hal
    · rwa [requeue_alive] at hal
    · exact hal
  · intro key
    unfold Pending
    rw [howner, inFlight_erase]
    by_cases hkey : key.owner = owner
    · rw [if_pos hkey.symm, mem_requeue (h.wf _), inFlight_iff hreader hkey]
      show _ ↔ _ ∨ some pointer = some key.pointer
      rw [Option.some.injEq, eq_comm]
      simp [hkey]
    · rw [if_neg (Ne.symm hkey)]
      simp [hkey]

end Steps

/-! ## Every run -/

section Runs

variable {s s' : System} {op : Op} {result : Except Failure Reply}

theorem queueInv_new : QueueInv System.new.heap System.new.readers := by
  have hnone : ∀ key, System.new.heap.lifecycle key = none := by
    intro key
    unfold lifecycle System.new
    simp
  constructor
  · intro i
    exact wf_new
  · intro key state hstate
    rw [hnone] at hstate
    cases hstate
  · rintro key (hqueued | ⟨_, hreader, -⟩)
    · exact absurd hqueued (by simp [System.new, Heap.owner, OwnerState.new])
    · exact absurd hreader (by simp [System.new])
  · intro key state hstate
    rw [hnone] at hstate
    cases hstate

variable {heap : Heap} {readers : Map ℕ Reader} {owner : ℕ}

section

variable (h : QueueInv heap readers)
include h

theorem QueueInv.with_owner :
    QueueInv { heap with owners := heap.owners ++ [OwnerState.new] } readers := by
  -- an owner that does not exist yet looks like a new one
  have howner : ∀ i,
      Heap.owner { heap with owners := heap.owners ++ [OwnerState.new] } i = heap.owner i := by
    intro i
    unfold owner
    rw [List.getD_eq_getElem?_getD, List.getD_eq_getElem?_getD]
    by_cases hi : i < heap.owners.length
    · rw [List.getElem?_append_left hi]
    · rw [List.getElem?_append_right (by omega), List.getElem?_eq_none (l := heap.owners) (by
        omega)]
      cases i - heap.owners.length <;> rfl
  apply h.frame
  · intro key
    rfl
  · simp
  · intro i
    rw [howner]
    exact h.wf i
  · rintro i hi ⟨-, halive⟩
    rw [howner] at halive
    exact ⟨hi, halive⟩
  · intro key
    unfold Pending
    rw [howner]

theorem QueueInv.without_owner (owner : ℕ) :
    QueueInv (heap.set_owner owner fun state => { state with alive := false }) readers := by
  -- the queue stays; only the owner's word that it is alive goes
  have howner : ∀ i,
      ((heap.set_owner owner fun state => { state with alive := false }).owner i).order =
        (heap.owner i).order ∧
      ((heap.set_owner owner fun state => { state with alive := false }).owner i).membership =
        (heap.owner i).membership ∧
      (((heap.set_owner owner fun state => { state with alive := false }).owner i).alive = true →
        (heap.owner i).alive = true) := by
    intro i
    rw [owner_set_owner]
    split
    · exact ⟨rfl, rfl, fun hfalse => absurd hfalse (by simp)⟩
    · exact ⟨rfl, rfl, id⟩
  apply h.frame
  · intro key
    rfl
  · exact Nat.le_of_eq (List.length_modify _ _ _).symm
  · intro i
    obtain ⟨horder, hmembership, -⟩ := howner i
    constructor
    · rw [horder]
      exact (h.wf i).nodup
    · rw [horder, hmembership]
      exact (h.wf i).membership
  · rintro i hi ⟨-, halive⟩
    exact ⟨hi, (howner i).2.2 halive⟩
  · intro key
    unfold Pending
    rw [(howner key.owner).1]

theorem QueueInv.with_node {key : NodeKey} {node : Node} {f : OwnerState → OwnerState}
    (hkey : key.owner < heap.owners.length) (hnew : node.lifecycle = Lifecycle.new)
    (hf : ∀ state, (f state).alive = state.alive ∧ (f state).order = state.order ∧
      (f state).membership = state.membership) :
    QueueInv ((heap.with_node key node).set_owner owner f) readers := by
  have howner : ∀ i, (((heap.with_node key node).set_owner owner f).owner i).alive =
        (heap.owner i).alive ∧
      (((heap.with_node key node).set_owner owner f).owner i).order = (heap.owner i).order ∧
      (((heap.with_node key node).set_owner owner f).owner i).membership =
        (heap.owner i).membership := by
    intro i
    rw [owner_set_owner]
    split
    · exact hf _
    · exact ⟨rfl, rfl, rfl⟩
  have hnodes : ∀ key', ((heap.with_node key node).set_owner owner f).lifecycle key' =
      if key = key' then some Lifecycle.new else heap.lifecycle key' := by
    intro key'
    rw [lifecycle_set_owner, lifecycle_with_node, hnew]
  have hlen : ((heap.with_node key node).set_owner owner f).owners.length =
      heap.owners.length := List.length_modify _ _ _
  have hpending : ∀ key', Pending ((heap.with_node key node).set_owner owner f) readers key' ↔
      Pending heap readers key' := by
    intro key'
    unfold Pending
    rw [(howner key'.owner).2.1]
  constructor
  · intro i
    obtain ⟨-, horder, hmembership⟩ := howner i
    constructor
    · rw [horder]
      exact (h.wf i).nodup
    · rw [horder, hmembership]
      exact (h.wf i).membership
  · intro key' state hstate
    rw [hlen]
    rw [hnodes] at hstate
    split at hstate
    · next heq =>
      rwa [← heq]
    · exact h.owned key' state hstate
  · intro key' hpend
    rw [hnodes]
    split
    · rfl
    · exact h.node key' ((hpending key').mp hpend)
  · intro key' state hstate hlive howed
    rw [hnodes] at hstate
    split at hstate
    · rw [← Option.some.inj hstate] at howed
      exact absurd owed_new howed
    · have hlive' : Live heap key'.owner := by
        refine ⟨?_, ?_⟩
        · rw [← hlen]
          exact hlive.1
        · rw [← (howner key'.owner).1]
          exact hlive.2
      exact (hpending key').mpr (h.pending key' state hstate hlive' howed)

/-- A step that changes the reader of one owner, but not what it has in its hands. -/
theorem QueueInv.reader {readers' : Map ℕ Reader}
    (hflight : ∀ key, InFlight readers' key ↔ InFlight readers key) : QueueInv heap readers' := by
  apply h.frame
  · exact fun _ => rfl
  · exact Nat.le_refl _
  · exact h.wf
  · exact fun _ _ hlive => hlive
  · exact fun key => or_congr_right (hflight key)

end

/-- **Every step keeps what is due in sight.** -/
theorem QueueInv.change (h : QueueInv s.heap s.readers) (hc : Change s op result s') :
    QueueInv s'.heap s'.readers := by
  cases hc with
  | failed | answered | table_made | table_panicked | hold_panicked => exact h
  | owner_made => exact h.with_owner
  | owner_dropped => exact h.without_owner _
  | node_made howner _ hnew hf => exact h.with_node howner hnew hf
  | moved _ _ _ hmove => exact h.move hmove
  | table_dropped _ hdrop => exact h.drop hdrop
  | held _ _ hstate | unheld _ hstate | acknowledged hstate =>
    exact h.touch hstate
  | @manager_refs owner key state hstate =>
    -- nothing is scheduled here, and nothing has to be
    apply h.settle
    · apply NodeWork.prepare_mark
      simp [Lifecycle.demand]
    · exact fun _ hflight => hflight
    · exact fun _ _ hflight => hflight
  | @published op owner pointer state published readers' hop hstate hcommands hreaders =>
    rcases hreaders with rfl | ⟨budget, output, hreader, rfl | rfl⟩
    · exact h.settle (owed_committed state) (fun _ hflight => hflight) (fun _ _ hflight => hflight)
    · apply h.settle (owed_committed state)
      · intro key hflight
        rw [inFlight_insert] at hflight
        split at hflight
        · exact absurd hflight (by simp [Reader.in_flight])
        · exact hflight
      · intro key hne hflight
        rw [inFlight_insert]
        split
        · next hkey =>
          rw [inFlight_iff hreader hkey] at hflight
          exact absurd (NodeKey.ext hkey (Option.some.inj hflight).symm) hne
        · exact hflight
    · apply h.settle (owed_committed state)
      · exact fun key hflight => ((inFlight_erase _ _ _).mp hflight).2
      · intro key hne hflight
        refine (inFlight_erase _ _ _).mpr ⟨?_, hflight⟩
        intro hkey
        rw [inFlight_iff hreader hkey] at hflight
        exact hne (NodeKey.ext hkey (Option.some.inj hflight).symm)
  | @read_begun owner budget output hnone =>
    apply h.reader
    intro key
    rw [inFlight_insert]
    split
    · next hkey =>
      unfold InFlight
      rw [hkey, hnone]
      simp [Reader.in_flight]
    · rfl
  | read_done hreader =>
    apply h.reader
    exact inFlight_leave hreader rfl
  | popped hreader hpop => exact h.pop hreader hpop
  | @read_failed owner budget output pointer e hreader =>
    apply h.reader
    intro key
    rw [inFlight_insert]
    split
    · next hkey =>
      rw [inFlight_iff hreader hkey]
      rfl
    · rfl
  | requeued hreader => exact h.requeue hreader

/-- A run from a system in order leaves it in order. -/
theorem QueueInv.run (h : QueueInv s.heap s.readers) {es : List Event} (hrun : Run Step s es s') :
    QueueInv s'.heap s'.readers := by
  refine hrun.invariant (fun s => QueueInv s.heap s.readers) h ?_
  rintro t e u ht ⟨-, _, hperform⟩
  exact ht.change (System.change hperform)

/-! ### A whole read -/

/-- Some steps lead from one system to the other. -/
def Reaches (s t : System) : Prop := ∃ es, Run Step s es t

theorem Reaches.trans {t u : System} (h₁ : Reaches s t) (h₂ : Reaches t u) : Reaches s u := by
  obtain ⟨es, hrun⟩ := h₁
  obtain ⟨fs, hrun'⟩ := h₂
  exact ⟨es ++ fs, hrun.append hrun'⟩

theorem reaches_perform {t : System} (op : Op) (h : s.perform op = some (result, t)) :
    Reaches s t :=
  ⟨[⟨s, op⟩], Run.single ⟨rfl, result, h⟩⟩

/-- The system while an owner's queue is read. -/
def reading (s : System) (owner : ℕ) (heap : Heap) (reader : Reader) : System :=
  { s with heap := heap, readers := s.readers.insert owner reader }

/-- The system when the reader has left. -/
def left (s : System) (owner : ℕ) (heap : Heap) : System :=
  { s with heap := heap, readers := s.readers.erase owner }

section Reading

variable (s : System) (owner : ℕ) (heap : Heap) (output : List UInt8)

theorem heap_reading (reader : Reader) : (s.reading owner heap reader).heap = heap := rfl

theorem reader_reading (reader : Reader) :
    (s.reading owner heap reader).readers[owner]? = some reader :=
  getElem?_insert_self

theorem reaches_reading {reader reader' : Reader} {heap' : Heap}
    (h : (s.reading owner heap reader).perform_read_step owner = some (result,
      { s.reading owner heap reader with
        heap := heap', readers := (s.readers.insert owner reader).insert owner reader' })) :
    Reaches (s.reading owner heap reader) (s.reading owner heap' reader') := by
  rw [insert_insert] at h
  exact reaches_perform (.read_step owner) h

theorem reaches_left {reader : Reader} {heap' : Heap}
    (h : (s.reading owner heap reader).perform_read_step owner = some (result,
      { s.reading owner heap reader with
        heap := heap', readers := (s.readers.insert owner reader).erase owner })) :
    Reaches (s.reading owner heap reader) (s.left owner heap') := by
  rw [erase_insert] at h
  exact reaches_perform (.read_step owner) h

/-- The loop of a read, step by step. -/
theorem reaches_read_pending_loop (budget : ℕ) :
    Reaches (s.reading owner heap (.Scanning budget output))
      (s.left owner (heap.read_pending_loop owner output budget).2) := by
  induction budget generalizing heap with
  | zero =>
    apply reaches_left
    unfold perform_read_step
    rw [reader_reading]
    rfl
  | succ budget ih =>
    unfold read_pending_loop
    split
    · next hpop =>
      apply reaches_left
      simp only [perform_read_step, reader_reading, heap_reading, hpop]
      rfl
    next pointer queue hpop =>
    have hpopped : Reaches (s.reading owner heap (.Scanning (budget + 1) output))
        (s.reading owner (heap.set_owner owner fun _ => queue)
          (.Popped pointer budget output)) := by
      apply reaches_reading
      simp only [perform_read_step, reader_reading, heap_reading, hpop]
      rfl
    refine hpopped.trans ?_
    split
    · next published heap' hread =>
      split
      · next hzero =>
        refine Reaches.trans ?_ (ih heap')
        apply reaches_reading
        simp only [perform_read_step, reader_reading, heap_reading, hread]
        rw [if_pos hzero]
        rfl
      · next hpos =>
        apply reaches_left
        simp only [perform_read_step, reader_reading, heap_reading, hread]
        rw [if_neg hpos]
        rfl
    · next e heap' hread =>
      -- the read fails, and the node is queued again
      have hfailed : Reaches
          (s.reading owner (heap.set_owner owner fun _ => queue) (.Popped pointer budget output))
          (s.reading owner heap' (.Failed pointer e)) := by
        apply reaches_reading
        simp only [perform_read_step, reader_reading, heap_reading, hread]
        rfl
      refine hfailed.trans ?_
      apply reaches_left
      unfold perform_read_step
      rw [reader_reading]
      rfl

end Reading

/-- **A whole read is a run of the steps**: it can be interleaved with others, and when it is
not it does what `read_pending_node_work` does. -/
theorem reaches_read_pending_node_work (halive : s.Alive owner)
    (hreader : s.readers[owner]? = none) (output : List UInt8) :
    Reaches s { s with heap := (s.heap.read_pending_node_work owner output).2 } := by
  have hbegin : Reaches s (s.reading owner s.heap
      (.Scanning (s.heap.owner owner).order.length output)) := by
    apply reaches_perform (.read_begin owner output)
    exact if_pos ⟨halive, hreader⟩
  have hread := reaches_read_pending_loop s owner s.heap output (s.heap.owner owner).order.length
  unfold left at hread
  rw [erase_of_none hreader] at hread
  exact hbegin.trans hread

theorem QueueInv.reaches (h : QueueInv s.heap s.readers) (hreaches : Reaches s s') :
    QueueInv s'.heap s'.readers := by
  obtain ⟨_, hrun⟩ := hreaches
  exact h.run hrun

/-! ## The results -/

/-- A read leaves an owner alive. -/
theorem Live.read_pending_loop (h : Live heap owner) (output : List UInt8) (budget : ℕ) :
    Live (heap.read_pending_loop owner output budget).2 owner := by
  induction budget generalizing heap with
  | zero => exact h
  | succ _ ih =>
    unfold read_pending_loop
    split
    · exact h
    next pointer queue hpop =>
    have hlive : Live (heap.set_owner owner fun _ => queue) owner := by
      refine ⟨Nat.lt_of_lt_of_eq h.1 (List.length_modify _ _ _).symm, ?_⟩
      rw [owner_set_self h.1, (pop_eq_some hpop).2.1]
      exact h.2
    rcases read_node_notifications_cases (heap.set_owner owner fun _ => queue) owner pointer
      output with ⟨e, hread⟩ | ⟨state, published, hstate, hread, -, -⟩
    · rw [hread]
      refine ⟨Nat.lt_of_lt_of_eq hlive.1 (List.length_modify _ _ _).symm, ?_⟩
      show ((set_owner _ owner (·.requeue pointer)).owner owner).alive = true
      rw [owner_set_self hlive.1, requeue_alive]
      exact hlive.2
    · rw [hread]
      dsimp only
      split
      · exact ih hlive
      · exact hlive

/-- What a queue lists exists. -/
theorem QueueInv.queued (h : QueueInv heap readers) : ∀ p ∈ (heap.owner owner).order,
    (heap.lifecycle ⟨owner, p⟩).isSome = true :=
  fun p hp => h.node ⟨owner, p⟩ (.inl hp)

/-- Enough reads deliver all that is due, and leave the queue empty. -/
theorem QueueInv.read_all {output : List UInt8} (hlen : 40 ≤ output.length) (n : ℕ)
    (h : QueueInv s.heap s.readers) (halive : s.Alive owner) (hreader : s.readers[owner]? = none)
    (hn : (s.heap.due owner).length < n) :
    ∃ heap', s.heap.read_all owner output n = (s.heap.due owner, heap') ∧
      Reaches s { s with heap := heap' } ∧ Live heap' owner ∧ (heap'.owner owner).order = [] := by
  induction n generalizing s with
  | zero => exact absurd hn (Nat.not_lt_zero _)
  | succ n ih =>
    obtain ⟨_, heap', hread, hcases⟩ := read_pending_loop_due hlen halive.1 (h.wf owner)
      h.queued _ (Nat.le_refl _)
    have hreaches := reaches_read_pending_node_work halive hreader output
    have hlive := Live.read_pending_loop halive output (s.heap.owner owner).order.length
    unfold read_pending_node_work at hreaches
    unfold read_all read_pending_node_work
    rw [hread] at hreaches hlive ⊢
    dsimp only
    rcases hcases with ⟨hdue, hzero, horder⟩ | ⟨hpos, hdue⟩
    · rw [if_pos hzero, hdue]
      exact ⟨heap', rfl, hreaches, hlive, horder⟩
    · rw [if_neg hpos]
      have hrest : (heap'.due owner).length < n := by
        rw [hdue, List.length_cons] at hn
        omega
      obtain ⟨heap'', hall, hreaches', hlive', horder⟩ :=
        ih (s := { s with heap := heap' }) (h.reaches hreaches) hlive hreader hrest
      dsimp only at hall
      refine ⟨heap'', ?_, hreaches.trans hreaches', hlive', horder⟩
      rw [hall, hdue]

/-- **No notification is lost.** In every run the queue of a live owner lists its members once
each, and a node with something due is in it, unless a reader has just taken it out. So, where
no read is under way: what is due is in the queue; a read that fails changes no node and
leaves what is due as it is; and reads into a buffer for two records deliver all of it and
leave nothing due. -/
theorem no_notification_lost {es : List Event} (hrun : Run Step System.new es s) {owner : ℕ}
    (halive : s.Alive owner) :
    (s.heap.owner owner).order.Nodup ∧
    (s.heap.owner owner).order.toFinset = (s.heap.owner owner).membership ∧
    (∀ pointer state, s.heap.lifecycle ⟨owner, pointer⟩ = some state → state.owed ≠ [] →
      pointer ∈ (s.heap.owner owner).order ∨
        ∃ reader, s.readers[owner]? = some reader ∧ reader.in_flight = some pointer) ∧
    (s.readers[owner]? = none →
      (∀ (pointer : UInt64) (node : Node),
        s.heap.nodes[(⟨owner, pointer⟩ : NodeKey)]? = some node → node.lifecycle.owed ≠ [] →
        pointer ∈ (s.heap.owner owner).order ∧ node.records pointer ∈ s.heap.due owner) ∧
      (∀ output e heap', s.heap.read_pending_node_work owner output = (.error e, heap') →
        heap'.nodes = s.heap.nodes ∧ heap'.due owner = s.heap.due owner) ∧
      ∀ output n, 40 ≤ output.length → (s.heap.due owner).length < n →
        ∃ heap', s.heap.read_all owner output n = (s.heap.due owner, heap') ∧
          ∀ pointer state, heap'.lifecycle ⟨owner, pointer⟩ = some state → state.owed = []) := by
  have h : QueueInv s.heap s.readers := queueInv_new.run hrun
  refine ⟨(h.wf owner).nodup, ?_, ?_, fun hreader => ⟨?_, ?_, ?_⟩⟩
  · ext p
    rw [List.mem_toFinset, (h.wf owner).membership]
  · intro pointer state hstate howed
    exact h.pending ⟨owner, pointer⟩ state hstate halive howed
  · intro pointer node hnode howed
    have hpending := h.pending ⟨owner, pointer⟩ _ (lifecycle_of_node hnode) halive howed
    have hqueued : pointer ∈ (s.heap.owner owner).order := by
      rcases hpending with hqueued | ⟨reader, hsome, -⟩
      · exact hqueued
      · rw [hreader] at hsome
        cases hsome
    refine ⟨hqueued, List.mem_filterMap.mpr ⟨pointer, hqueued, ?_⟩⟩
    rw [due_on_of_node hnode, if_neg howed]
  · intro output e heap' hread
    exact read_pending_loop_error halive.1 (h.wf owner) hread
  · intro output n hlen hn
    obtain ⟨heap', hall, hreaches, hlive, horder⟩ := h.read_all hlen n halive hreader hn
    refine ⟨heap', hall, fun pointer state hstate => ?_⟩
    -- a node that still owed something would be queued or in flight, and neither is possible
    by_contra howed
    rcases (h.reaches hreaches).pending ⟨owner, pointer⟩ state hstate hlive howed with
      hqueued | ⟨reader, hsome, -⟩
    · have hqueued : pointer ∈ (heap'.owner owner).order := hqueued
      rw [horder] at hqueued
      exact absurd hqueued (List.not_mem_nil)
    · have hsome : s.readers[owner]? = some reader := hsome
      rw [hreader] at hsome
      cases hsome

end Runs

/-- Two tables have taken up a node: its owner reads that both references are wanted. -/
theorem owner_reads_two_tables :
    ∃ es s, events System.new two_tables = some (es, s) ∧
      (s.heap.read_all 0 (List.replicate 40 0) 2).1 =
        [Notification.record 123 456 .Increfs ++ Notification.record 123 456 .Acquire] := by
  have hevents : (events System.new two_tables).isSome = true := by decide +kernel
  obtain ⟨⟨es, s⟩, hes⟩ := Option.isSome_iff_exists.mp hevents
  have hstate : ((events System.new two_tables).map fun r =>
      (decide (r.2.Alive 0), (r.2.readers[0]?).isNone, r.2.heap.due 0)) =
        some (true, true,
          [Notification.record 123 456 .Increfs ++ Notification.record 123 456 .Acquire]) := by
    decide +kernel
  rw [hes, Option.map_some, Option.some.injEq, Prod.mk.injEq, Prod.mk.injEq] at hstate
  obtain ⟨halive, hreader, hdue⟩ := hstate
  have hreads := (no_notification_lost (run_events hes) (of_decide_eq_true halive)).2.2.2
    (Option.isNone_iff_eq_none.mp hreader)
  obtain ⟨_, hall, -⟩ := hreads.2.2 (List.replicate 40 0) 2 (by simp) (by rw [hdue]; decide)
  refine ⟨es, s, hes, ?_⟩
  rw [hall, ← hdue]

end System

end DarwinArt.Binder
