/-
The receive queue with the arena behind it: `transaction_queue.rs`, its buffers included.

`Queue` alone takes the arena's answers as given. Here both are one state, and an operation
does what it does to both: an enqueue prepares a buffer, a read hands it over to the client,
a free or a cancellation gives it back. `none` is that a drop stopped the process
(`OwnedTransaction`); `change` shows that this cannot happen, as long as the arena and the
queue agree about who owns what (`Inv`), and every step keeps that.

What the client can rely on is said about its own account of a run, the `Ledger`: the
entries in the order in which they were enqueued, those that still wait, the threads that
were told of a completion or handed an entry, and the buffers handed over and not yet freed.
-/
import DarwinArt.Binder.OwnedTransaction

set_option autoImplicit false

namespace DarwinArt.Binder

open Lib Lib.ListEdit

open Queue

/-- `raw_os_error`. -/
def Errno.raw : Errno → ℕ
  | ENOENT => 2
  | ESRCH => 3
  | EIO => 5
  | ENOMEM => 12
  | EINVAL => 22
  | ENOSPC => 28
  | EOVERFLOW => 84

/-- `Queue`, with its arena. -/
structure ReceiveQueue where
  arena : ReceiveArena
  queue : Queue

namespace ReceiveQueue

def new (capacity : ℕ) (kernel : MapOutcome capacity) : Except Errno ReceiveQueue :=
  match ReceiveArena.new capacity kernel with
  | .error e => .error e
  | .ok arena => .ok ⟨arena, Queue.new⟩

/-- The operations. The flag `memory` is whether the container could be extended. -/
inductive Op
  | enqueue_routed (payload : TransactionPayload) (header : Header) (rewrites : List Rewrite)
      (route : Route) (memory : Bool)
  | read_for_thread (thread_id : UInt64) (accept_async : Bool) (output : ℕ) (memory : Bool)
  | free (address : ℕ)
  | cancel_pending_call (call : CallId)

/-- What they return. -/
inductive Result
  | Enqueued (result : Except Queue.Error ℕ)
  | Read (result : Except Queue.Error (Option (Delivery × Record)))
  | Freed (result : Except Queue.Error Unit)
  | Cancelled (found : Bool)
deriving DecidableEq

def enqueue_routed (q : ReceiveQueue) (payload : TransactionPayload) (header : Header)
    (rewrites : List Rewrite) (route : Route) (memory : Bool) : Option (Result × ReceiveQueue) :=
  match OwnedTransaction.prepare_rewritten q.arena payload rewrites with
  | none => none
  | some (.error e, arena) =>
    some (.Enqueued (.error (.Allocation e.raw)), { q with arena := arena })
  | some (.ok allocation, arena) =>
    if ¬ memory then
      (OwnedTransaction.drop arena allocation).map fun arena =>
        (.Enqueued (.error .OutOfMemory), { q with arena := arena })
    else
      let (result, queue) := q.queue.enqueue_routed (.ok allocation) header route
      some (.Enqueued result, ⟨arena, queue⟩)

/-- `read_for_thread`. A delivered buffer that another one takes the place of is dropped. -/
def read_for_thread (q : ReceiveQueue) (thread_id : UInt64) (accept_async : Bool) (output : ℕ)
    (memory : Bool) : Option (Result × ReceiveQueue) :=
  match q.queue.read_for_thread thread_id accept_async output memory with
  | (.error .DuplicateBuffer, queue) =>
    match q.queue.pending.find? (Queue.deliverable thread_id accept_async) with
    | none => none
    | some pending =>
      match q.queue.delivered[pending.allocation.buffer_address]? with
      | none => none
      | some displaced =>
        (OwnedTransaction.drop q.arena displaced).map fun arena =>
          (.Read (.error .DuplicateBuffer), ⟨arena, queue⟩)
  | (result, queue) => some (.Read result, { q with queue := queue })

def free (q : ReceiveQueue) (address : ℕ) : Option (Result × ReceiveQueue) :=
  match q.queue.delivered[address]? with
  | none => some (.Freed (.error .UnknownBuffer), q)
  | some allocation =>
    match q.arena.release allocation.buffer_address with
    | (.error e, arena) =>
      some (.Freed (.error (.Allocation e.raw)), ⟨arena, (q.queue.free address).2⟩)
    | (.ok (), arena) => some (.Freed (.ok ()), ⟨arena, (q.queue.free address).2⟩)

/-- The entry of a call that has not been delivered. -/
def cancels (call : CallId) (pending : Pending) : Bool :=
  ¬ pending.header.reply ∧ pending.route.call = some call

def cancel_pending_call (q : ReceiveQueue) (call : CallId) : Option (Result × ReceiveQueue) :=
  match q.queue.pending.find? (cancels call) with
  | none => some (.Cancelled false, q)
  | some pending =>
    (OwnedTransaction.drop q.arena pending.allocation).map fun arena =>
      (.Cancelled true,
        ⟨arena, { q.queue with pending := q.queue.pending.eraseP (cancels call) }⟩)

/-- One operation. -/
def perform (q : ReceiveQueue) : Op → Option (Result × ReceiveQueue)
  | .enqueue_routed payload header rewrites route memory =>
    q.enqueue_routed payload header rewrites route memory
  | .read_for_thread thread_id accept_async output memory =>
    q.read_for_thread thread_id accept_async output memory
  | .free address => q.free address
  | .cancel_pending_call call => q.cancel_pending_call call

/-- An operation and the queue it runs on. -/
structure Event where
  before : ReceiveQueue
  op : Op

/-- A step. -/
def Step (q : ReceiveQueue) (e : Event) (q' : ReceiveQueue) : Prop :=
  e.before = q ∧ ∃ result, q.perform e.op = some (result, q')

/-- What the operation of an event returns. -/
def Event.result (e : Event) : Option Result := (e.before.perform e.op).map Prod.fst

/-! ## Who owns what -/

/-- The buffers of the queue: those that wait, and those handed over. -/
def pending_addresses (queue : Queue) : List ℕ :=
  queue.pending.map fun pending => pending.allocation.buffer_address

def addresses (queue : Queue) : List ℕ := pending_addresses queue ++ queue.delivered.keys

/-- The live allocations of the arena are the buffers of the queue. -/
structure Inv (q : ReceiveQueue) : Prop where
  owns : q.arena.Owns (addresses q.queue)
  named : ∀ (address : ℕ) allocation, q.queue.delivered[address]? = some allocation →
    allocation.buffer_address = address

section Addresses

variable {queue queue' : Queue} {address : ℕ}

theorem mem_addresses :
    address ∈ addresses queue ↔
      address ∈ pending_addresses queue ∨ queue.delivered.contains address = true := by
  unfold addresses
  rw [List.mem_append, Std.ExtTreeMap.mem_keys, Std.ExtTreeMap.contains_iff_mem]

theorem nodup_addresses :
    (addresses queue).Nodup ↔ (pending_addresses queue).Nodup ∧
      ∀ address ∈ pending_addresses queue, queue.delivered.contains address = false := by
  unfold addresses
  rw [List.nodup_append]
  constructor
  · rintro ⟨hpending, -, hapart⟩
    refine ⟨hpending, fun address hmem => ?_⟩
    rw [Bool.eq_false_iff]
    intro hcontains
    rw [Std.ExtTreeMap.contains_iff_mem, ← Std.ExtTreeMap.mem_keys] at hcontains
    exact hapart address hmem address hcontains rfl
  · rintro ⟨hpending, hapart⟩
    refine ⟨hpending, Std.ExtTreeMap.nodup_keys, fun a ha b hb heq => ?_⟩
    have hcontains := hapart a ha
    rw [Bool.eq_false_iff] at hcontains
    rw [← heq, Std.ExtTreeMap.mem_keys, ← Std.ExtTreeMap.contains_iff_mem] at hb
    exact hcontains hb

end Addresses

/-! ## What a step can do -/

/-- The operations with what they find, return and leave. -/
inductive Change (q : ReceiveQueue) : Op → Result → ReceiveQueue → Prop
  | refused {payload : TransactionPayload} {header : Header} {rewrites : List Rewrite}
      {route : Route} {memory : Bool} {e : Queue.Error} {arena' : ReceiveArena}
      (howns : arena'.Owns (addresses q.queue)) (he : e ≠ .DuplicateBuffer) :
      Change q (.enqueue_routed payload header rewrites route memory) (.Enqueued (.error e))
        { q with arena := arena' }
  | enqueued {payload : TransactionPayload} {header : Header} {rewrites : List Rewrite}
      {route : Route} {memory : Bool} {address : ℕ} {arena' : ReceiveArena}
      (howns : arena'.Owns (address :: addresses q.queue)) :
      Change q (.enqueue_routed payload header rewrites route memory) (.Enqueued (.ok address))
        ⟨arena', { q.queue with
          pending := q.queue.pending ++ [⟨OwnedTransaction.allocation payload address, header, route⟩] }⟩
  /-- Nothing the thread may take, no room for it, or no memory. -/
  | waited {thread_id : UInt64} {accept_async : Bool} {output : ℕ} {memory : Bool}
      {result : Except Queue.Error (Option (Delivery × Record))}
      (hresult : result = .ok none ∨ result = .error .OutOfMemory) :
      Change q (.read_for_thread thread_id accept_async output memory) (.Read result) q
  | completed {thread_id : UInt64} {accept_async : Bool} {output : ℕ} {memory : Bool}
      {before after : List Pending} {pending : Pending}
      (hsplit : q.queue.pending = before ++ pending :: after)
      (hbefore : ∀ p ∈ before, Queue.deliverable thread_id accept_async p = false)
      (hpending : Queue.deliverable thread_id accept_async pending = true)
      (hdeferred : pending.route.deferred_completion = true) (hroom : 4 ≤ output) :
      Change q (.read_for_thread thread_id accept_async output memory)
        (.Read (.ok (some (⟨4, pending.route.call, true, true⟩, .TransactionComplete))))
        { q with queue := { q.queue with pending := before ++ Queue.complete pending :: after } }
  | delivered {thread_id : UInt64} {accept_async : Bool} {output : ℕ} {memory : Bool}
      {before after : List Pending} {pending : Pending}
      (hsplit : q.queue.pending = before ++ pending :: after)
      (hbefore : ∀ p ∈ before, Queue.deliverable thread_id accept_async p = false)
      (hpending : Queue.deliverable thread_id accept_async pending = true)
      (hdeferred : pending.route.deferred_completion = false) (hroom : RECORD_SIZE ≤ output) :
      Change q (.read_for_thread thread_id accept_async output memory)
        (.Read (.ok (some (⟨RECORD_SIZE, pending.route.call, pending.header.reply, false⟩,
          .Transaction pending.header pending.allocation))))
        { q with queue := ⟨before ++ after,
          q.queue.delivered.insert pending.allocation.buffer_address pending.allocation⟩ }
  | freed {address : ℕ} {arena' : ReceiveArena}
      (hdelivered : q.queue.delivered.contains address = true)
      (howns : arena'.Owns (addresses
        { q.queue with delivered := q.queue.delivered.erase address })) :
      Change q (.free address) (.Freed (.ok ()))
        ⟨arena', { q.queue with delivered := q.queue.delivered.erase address }⟩
  | unknown {address : ℕ} (hdelivered : q.queue.delivered.contains address = false) :
      Change q (.free address) (.Freed (.error .UnknownBuffer)) q
  | cancelled {call : CallId} {before after : List Pending} {pending : Pending}
      {arena' : ReceiveArena} (hsplit : q.queue.pending = before ++ pending :: after)
      (hbefore : ∀ p ∈ before, cancels call p = false) (hpending : cancels call pending = true)
      (howns : arena'.Owns (addresses { q.queue with pending := before ++ after })) :
      Change q (.cancel_pending_call call) (.Cancelled true)
        ⟨arena', { q.queue with pending := before ++ after }⟩
  | not_found {call : CallId} (hnone : ∀ p ∈ q.queue.pending, cancels call p = false) :
      Change q (.cancel_pending_call call) (.Cancelled false) q

section Changes

variable {q q' : ReceiveQueue} {op : Op} {result : Result}

/-- A buffer is taken out of the entries that wait. -/
theorem pending_addresses_perm (delivered : Map ℕ Allocation) (before after : List Pending)
    (pending : Pending) :
    (addresses ⟨before ++ pending :: after, delivered⟩).Perm
      (pending.allocation.buffer_address :: addresses ⟨before ++ after, delivered⟩) := by
  unfold addresses pending_addresses
  rw [List.map_append, List.map_append, List.map_cons, List.append_assoc, List.append_assoc,
    List.cons_append]
  exact List.perm_middle

/-- A buffer is taken out of those handed over. -/
theorem delivered_addresses_perm {queue : Queue} (address : ℕ)
    (hnodup : (addresses queue).Nodup) (hdelivered : queue.delivered.contains address = true) :
    (address :: addresses { queue with delivered := queue.delivered.erase address }).Perm
      (addresses queue) := by
  obtain ⟨hpending, hapart⟩ := nodup_addresses.mp hnodup
  have hcontains : ∀ a, (queue.delivered.erase address).contains a = true ↔
      a ≠ address ∧ queue.delivered.contains a = true := by
    intro a
    rw [contains_erase_iff, ne_comm]
  have hnodup' : (address ::
      addresses { queue with delivered := queue.delivered.erase address }).Nodup := by
    rw [List.nodup_cons, nodup_addresses, mem_addresses]
    refine ⟨?_, hpending, fun a ha => ?_⟩
    · rintro (hmem | hmem)
      · have hnot := hapart address hmem
        rw [hdelivered] at hnot
        cases hnot
      · exact ((hcontains address).mp hmem).1 rfl
    · rw [Bool.eq_false_iff]
      intro hmem
      have hnot := hapart a ha
      rw [((hcontains a).mp hmem).2] at hnot
      cases hnot
  rw [List.perm_ext_iff_of_nodup hnodup' hnodup]
  intro a
  rw [List.mem_cons, mem_addresses, mem_addresses]
  constructor
  · rintro (rfl | hmem | hmem)
    · exact .inr hdelivered
    · exact .inl hmem
    · exact .inr ((hcontains a).mp hmem).2
  · rintro (hmem | hmem)
    · exact .inr (.inl hmem)
    · by_cases heq : a = address
      · exact .inl heq
      · exact .inr (.inr ((hcontains a).mpr ⟨heq, hmem⟩))

/-- A buffer changes hands: one of those that wait is now one of those handed over. -/
theorem handed_over_perm {delivered : Map ℕ Allocation} {before after : List Pending}
    {pending : Pending} (hnodup : (addresses ⟨before ++ pending :: after, delivered⟩).Nodup) :
    (addresses ⟨before ++ after,
        delivered.insert pending.allocation.buffer_address pending.allocation⟩).Perm
      (addresses ⟨before ++ pending :: after, delivered⟩) := by
  have hperm := pending_addresses_perm delivered before after pending
  obtain ⟨hnot, hrest⟩ := List.nodup_cons.mp (hperm.nodup_iff.mp hnodup)
  obtain ⟨hpending, hapart⟩ := nodup_addresses.mp hrest
  rw [mem_addresses, not_or] at hnot
  have hnone : delivered[pending.allocation.buffer_address]? = none :=
    contains_eq_false_iff.mp (Bool.eq_false_iff.mpr hnot.2)
  have hnodup' : (addresses ⟨before ++ after,
      delivered.insert pending.allocation.buffer_address pending.allocation⟩).Nodup := by
    refine nodup_addresses.mpr ⟨hpending, fun a ha => ?_⟩
    rw [contains_insert, hapart a ha, Bool.or_false, beq_eq_false_iff_ne]
    intro hcmp
    rw [← Std.LawfulEqCmp.eq_of_compare hcmp] at ha
    exact hnot.1 ha
  have hback := delivered_addresses_perm pending.allocation.buffer_address hnodup' (by simp)
  rw [erase_insert, erase_of_none hnone] at hback
  exact hback.symm.trans hperm.symm

section

variable (h : Inv q)
include h

theorem change_enqueue (payload : TransactionPayload) (header : Header)
    (rewrites : List Rewrite) (route : Route) (memory : Bool) :
    ∃ result q', q.enqueue_routed payload header rewrites route memory = some (result, q') ∧
      Change q (.enqueue_routed payload header rewrites route memory) result q' := by
  obtain ⟨prepared, _, hprepare, howns⟩ :=
    OwnedTransaction.prepare_rewritten_spec h.owns payload rewrites
  unfold enqueue_routed
  rw [hprepare]
  cases prepared with
  | error => exact ⟨_, _, rfl, .refused howns (by simp)⟩
  | ok =>
    obtain ⟨hallocation, howns⟩ := howns
    dsimp only
    by_cases hmemory : memory = true
    · rw [if_neg (not_not.mpr hmemory)]
      refine ⟨_, _, rfl, ?_⟩
      rw [hallocation]
      exact .enqueued howns
    · obtain ⟨_, hdrop, howns', -⟩ := OwnedTransaction.drop_spec howns
      rw [if_pos hmemory, hdrop]
      exact ⟨_, _, rfl, .refused howns' (by simp)⟩

theorem change_read (thread_id : UInt64) (accept_async : Bool) (output : ℕ) (memory : Bool) :
    ∃ result q', q.read_for_thread thread_id accept_async output memory = some (result, q') ∧
      Change q (.read_for_thread thread_id accept_async output memory) result q' := by
  unfold read_for_thread Queue.read_for_thread
  cases hfind : q.queue.pending.find? (deliverable thread_id accept_async) with
  | none => exact ⟨_, _, rfl, .waited (Or.inl rfl)⟩
  | some pending =>
    obtain ⟨before, after, hsplit, hbefore, hpending, herase⟩ := find_eraseP hfind
    dsimp only
    by_cases hdeferred : pending.route.deferred_completion = true
    · rw [if_pos hdeferred]
      by_cases hroom : output < 4
      · rw [if_pos hroom]
        exact ⟨_, _, rfl, .waited (Or.inl rfl)⟩
      · rw [if_neg hroom]
        refine ⟨_, _, rfl, ?_⟩
        rw [show modifyFirst (deliverable thread_id accept_async) complete
          q.queue.pending = before ++ complete pending :: after by
            rw [hsplit, modifyFirst_split complete hbefore hpending]]
        exact .completed hsplit hbefore hpending hdeferred (by omega)
    · rw [if_neg hdeferred]
      by_cases hroom : output < RECORD_SIZE
      · rw [if_pos hroom]
        exact ⟨_, _, rfl, .waited (Or.inl rfl)⟩
      rw [if_neg hroom]
      by_cases hmemory : memory = true
      · -- the buffers of the entries that wait have not been handed over
        have hfresh : q.queue.delivered.contains pending.allocation.buffer_address = false := by
          apply (nodup_addresses.mp h.owns.nodup).2
          unfold pending_addresses
          rw [hsplit]
          exact List.mem_map_of_mem (List.mem_append_right _ List.mem_cons_self)
        rw [if_neg (not_not.mpr hmemory), if_neg (Bool.eq_false_iff.mp hfresh), herase]
        exact ⟨_, _, rfl, .delivered hsplit hbefore hpending (Bool.eq_false_iff.mpr hdeferred)
          (by omega)⟩
      · rw [if_pos hmemory]
        exact ⟨_, _, rfl, .waited (Or.inr rfl)⟩

theorem change_free (address : ℕ) :
    ∃ result q', q.free address = some (result, q') ∧ Change q (.free address) result q' := by
  unfold free
  cases hlookup : q.queue.delivered[address]? with
  | none => exact ⟨_, _, rfl, .unknown (contains_eq_false_iff.mpr hlookup)⟩
  | some allocation =>
    have hcontains := contains_of_some hlookup
    have hfree : (q.queue.free address).2 =
        { q.queue with delivered := q.queue.delivered.erase address } := by
      unfold Queue.free
      rw [if_pos hcontains]
    have howns := h.owns.perm (delivered_addresses_perm address h.owns.nodup hcontains)
    obtain ⟨_, hrelease, howns', -⟩ := howns.release
    dsimp only
    rw [h.named address allocation hlookup, hrelease, hfree]
    exact ⟨_, _, rfl, .freed hcontains howns'⟩

theorem change_cancel (call : CallId) :
    ∃ result q', q.cancel_pending_call call = some (result, q') ∧
      Change q (.cancel_pending_call call) result q' := by
  unfold cancel_pending_call
  cases hfind : q.queue.pending.find? (cancels call) with
  | none =>
    refine ⟨_, _, rfl, .not_found fun p hp => ?_⟩
    exact Bool.eq_false_iff.mpr (List.find?_eq_none.mp hfind p hp)
  | some pending =>
    obtain ⟨before, after, hsplit, hbefore, hpending, herase⟩ := find_eraseP hfind
    have howns : q.arena.Owns (pending.allocation.buffer_address ::
        addresses { q.queue with pending := before ++ after }) := by
      refine h.owns.perm ?_
      have hperm := pending_addresses_perm q.queue.delivered before after pending
      rw [← hsplit] at hperm
      exact hperm.symm
    obtain ⟨_, hdrop, howns', -⟩ := OwnedTransaction.drop_spec howns
    dsimp only
    rw [hdrop, herase]
    exact ⟨_, _, rfl, .cancelled hsplit hbefore hpending howns'⟩

/-- **Every operation succeeds or leaves what it found**: no drop ever fails. -/
theorem change_of_op (op : Op) :
    ∃ result q', q.perform op = some (result, q') ∧ Change q op result q' := by
  cases op with
  | enqueue_routed payload header rewrites route memory =>
    exact change_enqueue h payload header rewrites route memory
  | read_for_thread thread_id accept_async output memory =>
    exact change_read h thread_id accept_async output memory
  | free address => exact change_free h address
  | cancel_pending_call call => exact change_cancel h call

theorem change (hperform : q.perform op = some (result, q')) :
    Change q op result q' := by
  obtain ⟨_, _, hperform', hchange⟩ := change_of_op h op
  rw [hperform] at hperform'
  injection hperform' with heq
  injection heq with hresult hq
  rwa [hresult, hq]

/-- **Every step keeps the account of the buffers.** -/
theorem Inv.change (hc : Change q op result q') : Inv q' := by
  cases hc with
  | refused howns => exact ⟨howns, h.named⟩
  | @enqueued payload header rewrites route memory address arena' howns =>
    refine ⟨howns.perm ?_, h.named⟩
    unfold addresses pending_addresses
    rw [List.map_append, List.append_assoc]
    exact List.perm_middle
  | waited => exact h
  | @completed thread_id accept_async output memory before after pending hsplit hbefore hpending
      hdeferred hroom =>
    refine ⟨?_, h.named⟩
    have howns := h.owns
    unfold addresses pending_addresses at howns ⊢
    rw [hsplit] at howns
    rw [List.map_append, List.map_cons] at howns ⊢
    exact howns
  | @delivered thread_id accept_async output memory before after pending hsplit hbefore hpending
      hdeferred hroom =>
    have howns := h.owns
    have heta : q.queue = ⟨before ++ pending :: after, q.queue.delivered⟩ := by rw [← hsplit]
    rw [heta] at howns
    refine ⟨howns.perm (handed_over_perm howns.nodup), fun address allocation hlookup => ?_⟩
    rcases getElem?_insert_cases hlookup with ⟨haddress, rfl⟩ | ⟨-, hlookup⟩
    · exact haddress.symm
    · exact h.named address allocation hlookup
  | freed _ howns =>
    exact ⟨howns, fun address allocation hlookup =>
      h.named address allocation (getElem?_erase_cases hlookup).2⟩
  | unknown => exact h
  | cancelled _ _ _ howns => exact ⟨howns, h.named⟩
  | not_found => exact h

end

end Changes

/-! ## The client's account -/

/-- What the operations and their results say about a run. Entries have numbers, in the order in
which they were enqueued. -/
structure Ledger where
  /-- The entries as they were enqueued. -/
  entries : List Pending
  /-- Those that still wait, with their numbers. -/
  waiting : List (ℕ × Pending)
  /-- Each `BR_TRANSACTION_COMPLETE` of the queue: the entry's number and the reading thread. -/
  completed : List (ℕ × UInt64)
  /-- Each delivery: the entry's number and the reading thread. -/
  delivered : List (ℕ × UInt64)
  /-- The buffers handed over and not freed since. -/
  held : List ℕ

namespace Ledger

def new : Ledger := ⟨[], [], [], [], []⟩

/-- The waiting entry that a read turns to: the first that the thread may take. -/
def served (ledger : Ledger) (thread_id : UInt64) (accept_async : Bool) : Option (ℕ × Pending) :=
  ledger.waiting.find? fun w => Queue.deliverable thread_id accept_async w.2

/-- The account after one more operation. -/
def follow (ledger : Ledger) (op : Op) (result : Result) : Ledger :=
  match op, result with
  | .enqueue_routed payload header _ route _, .Enqueued (.ok address) =>
    let entry : Pending := ⟨OwnedTransaction.allocation payload address, header, route⟩
    { ledger with
      entries := ledger.entries ++ [entry]
      waiting := ledger.waiting ++ [(ledger.entries.length, entry)] }
  | .read_for_thread thread_id accept_async _ _, .Read (.ok (some (_, record))) =>
    match ledger.served thread_id accept_async with
    | none => ledger
    | some (number, _) =>
      match record with
      | .TransactionComplete =>
        { ledger with
          waiting := modifyFirst (fun w => Queue.deliverable thread_id accept_async w.2)
            (fun w => (w.1, Queue.complete w.2)) ledger.waiting
          completed := ledger.completed ++ [(number, thread_id)] }
      | .Transaction _ allocation =>
        { ledger with
          waiting := ledger.waiting.eraseP fun w => Queue.deliverable thread_id accept_async w.2
          delivered := ledger.delivered ++ [(number, thread_id)]
          held := allocation.buffer_address :: ledger.held }
  | .free address, .Freed (.ok ()) => { ledger with held := ledger.held.filter (· ≠ address) }
  | .cancel_pending_call call, .Cancelled true =>
    { ledger with waiting := ledger.waiting.eraseP fun w => cancels call w.2 }
  | _, _ => ledger

/-- The completions of one entry. -/
def completions (ledger : Ledger) (number : ℕ) : List (ℕ × UInt64) :=
  ledger.completed.filter fun c => c.1 = number

end Ledger

/-- The account of a run. -/
def ledger (es : List Event) : Ledger :=
  es.foldl (fun ledger e => match e.result with
    | none => ledger
    | some result => ledger.follow e.op result) .new

/-- A thread that an entry may be read by. -/
def meant_for (entry : Pending) (thread_id : UInt64) : Prop :=
  ∀ id, entry.route.target_thread = some id → id = thread_id

/-- What is known of the completion of an entry: it has been told once, if it was deferred. -/
def Settled (ledger : Ledger) (number : ℕ) (entry : Pending) : Prop :=
  (entry.route.deferred_completion = true →
    ∃ thread_id, meant_for entry thread_id ∧ ledger.completions number = [(number, thread_id)]) ∧
  (entry.route.deferred_completion = false → ledger.completions number = [])

/-- An entry that waits is as it was enqueued, or its completion has been told. -/
def Waits (ledger : Ledger) (number : ℕ) (entry now : Pending) : Prop :=
  (now = entry ∧ ledger.completions number = []) ∨
    (entry.route.deferred_completion = true ∧ now = Queue.complete entry ∧
      Settled ledger number entry)

/-- The account fits the queue. -/
structure Fits (ledger : Ledger) (q : ReceiveQueue) : Prop where
  waiting : ledger.waiting.map Prod.snd = q.queue.pending
  order : (ledger.waiting.map Prod.fst).Pairwise (· < ·)
  held : ∀ address, address ∈ ledger.held ↔ q.queue.delivered.contains address = true
  waits : ∀ w ∈ ledger.waiting, ∃ entry, ledger.entries[w.1]? = some entry ∧
    Waits ledger w.1 entry w.2
  gone : ∀ d ∈ ledger.delivered, ∃ entry, ledger.entries[d.1]? = some entry ∧
    meant_for entry d.2 ∧ Settled ledger d.1 entry ∧ d.1 ∉ ledger.waiting.map Prod.fst
  told : ∀ c ∈ ledger.completed, c.1 < ledger.entries.length

section Accounts

variable {q q' : ReceiveQueue} {op : Op} {result : Result} {l l' : Ledger}

variable {thread_id : UInt64} {accept_async : Bool} {wafter wbefore : List (ℕ × Pending)}

/-- What a thread may take is meant for it. -/
theorem meant_for_of_deliverable {entry : Pending}
    (h : Queue.deliverable thread_id accept_async entry = true) : meant_for entry thread_id := by
  intro id hid
  unfold deliverable at h
  rw [hid] at h
  exact of_decide_eq_true h

theorem fits_new {capacity : ℕ} {kernel : MapOutcome capacity}
    (h : new capacity kernel = .ok q) : Fits .new q ∧ Inv q := by
  unfold ReceiveQueue.new at h
  split at h
  · cases h
  next arena harena =>
  cases h
  refine ⟨?_, ?_, ?_⟩
  · constructor
    · rfl
    · exact List.Pairwise.nil
    · simp [Ledger.new, Queue.new]
    · simp [Ledger.new]
    · simp [Ledger.new]
    · simp [Ledger.new]
  · exact ReceiveArena.owns_new harena
  · intro address allocation hlookup
    exact absurd hlookup (by simp [Queue.new])

variable {pending : Pending}

/-- The waiting entries around the one that a step turns to. -/
theorem Fits.split (h : Fits l q) {before after : List Pending}
    (hsplit : q.queue.pending = before ++ pending :: after) :
    ∃ wbefore number wafter, l.waiting = wbefore ++ (number, pending) :: wafter ∧
      wbefore.map Prod.snd = before ∧ wafter.map Prod.snd = after := by
  have hwaiting := h.waiting
  rw [hsplit] at hwaiting
  obtain ⟨wbefore, _, hw, hbefore, hrest⟩ := List.map_eq_append_iff.mp hwaiting
  obtain ⟨w, wafter, hrest', hpending, hafter⟩ := List.map_eq_cons_iff.mp hrest
  refine ⟨wbefore, w.1, wafter, ?_, hbefore, hafter⟩
  rw [hw, hrest', ← hpending]

/-- Completions of other entries do not count. -/
theorem completions_append (l : Ledger) (number number' : ℕ) (thread_id : UInt64) :
    Ledger.completions { l with completed := l.completed ++ [(number, thread_id)] } number' =
      if number = number' then l.completions number' ++ [(number, thread_id)]
      else l.completions number' := by
  unfold Ledger.completions
  rw [List.filter_append]
  split
  · next heq => simp [heq]
  · next hne => simp [hne]

section

variable (h : Fits l q)
include h

/-- A number that waits belongs to an entry. -/
theorem Fits.lt_of_waiting {w : ℕ × Pending} (hw : w ∈ l.waiting) :
    w.1 < l.entries.length := by
  obtain ⟨_, hentry, -⟩ := h.waits w hw
  exact (getElem?_eq_some_iff.mp hentry).1

/-- The numbers around one that waits are others. -/
theorem Fits.ne_of_split {number : ℕ} (hw : l.waiting = wbefore ++ (number, pending) :: wafter)
    {w : ℕ × Pending} (hmem : w ∈ wbefore ++ wafter) : w.1 ≠ number := by
  have horder := h.order
  rw [hw, List.map_append, List.map_cons, List.pairwise_append, List.pairwise_cons] at horder
  obtain ⟨-, ⟨hafter, -⟩, hbefore⟩ := horder
  rcases List.mem_append.mp hmem with hmem | hmem
  · exact Nat.ne_of_lt (hbefore w.1 (List.mem_map_of_mem hmem) number List.mem_cons_self)
  · exact (Nat.ne_of_lt (hafter w.1 (List.mem_map_of_mem hmem))).symm

theorem Fits.enqueue (entry : Pending) (arena' : ReceiveArena) :
    Fits { l with
        entries := l.entries ++ [entry], waiting := l.waiting ++ [(l.entries.length, entry)] }
      ⟨arena', { q.queue with pending := q.queue.pending ++ [entry] }⟩ := by
  have hkept : ∀ {number : ℕ} {old : Pending}, l.entries[number]? = some old →
      (l.entries ++ [entry])[number]? = some old := by
    intro number old hold
    rwa [List.getElem?_append_left (getElem?_eq_some_iff.mp hold).1]
  constructor
  · dsimp only
    rw [List.map_append, h.waiting]
    rfl
  · dsimp only
    rw [List.map_append, List.pairwise_append]
    refine ⟨h.order, by simp, fun a ha b hb => ?_⟩
    obtain ⟨w, hw, rfl⟩ := List.mem_map.mp ha
    rw [List.map_singleton, List.mem_singleton] at hb
    rw [hb]
    exact h.lt_of_waiting hw
  · exact h.held
  · intro w hw
    rcases mem_snoc hw with hw | hw
    · obtain ⟨old, hold, hwaits⟩ := h.waits w hw
      exact ⟨old, hkept hold, hwaits⟩
    · rw [hw]
      refine ⟨entry, List.getElem?_concat_length, .inl ⟨rfl, ?_⟩⟩
      -- nobody has been told of an entry that was not there
      refine List.filter_eq_nil_iff.mpr fun c hc => ?_
      have hlt := h.told c hc
      simpa using Nat.ne_of_lt hlt
  · intro d hd
    obtain ⟨old, hold, hmeant, hsettled, hgone⟩ := h.gone d hd
    refine ⟨old, hkept hold, hmeant, hsettled, fun hmem => ?_⟩
    rw [List.map_append, List.mem_append] at hmem
    rcases hmem with hmem | hmem
    · exact hgone hmem
    · rw [List.map_singleton, List.mem_singleton] at hmem
      have hlt := (getElem?_eq_some_iff.mp hold).1
      omega
  · intro c hc
    have hlt := h.told c hc
    rw [List.length_append]
    exact Nat.lt_add_right _ hlt

theorem Fits.complete {number : ℕ} (hw : l.waiting = wbefore ++ (number, pending) :: wafter)
    (hmeant : meant_for pending thread_id) (hdeferred : pending.route.deferred_completion = true) :
    Fits { l with
        waiting := wbefore ++ (number, complete pending) :: wafter
        completed := l.completed ++ [(number, thread_id)] }
      { q with queue := { q.queue with
        pending := wbefore.map Prod.snd ++ complete pending :: wafter.map Prod.snd } } := by
  have hin : (number, pending) ∈ l.waiting := by simp [hw]
  have hnumbers : (wbefore ++ (number, Queue.complete pending) :: wafter).map Prod.fst =
      l.waiting.map Prod.fst := by
    rw [hw, List.map_append, List.map_append, List.map_cons, List.map_cons]
  -- the completions of the other entries stay as they were
  have hothers : ∀ number', number ≠ number' →
      Ledger.completions { l with
        waiting := wbefore ++ (number, Queue.complete pending) :: wafter
        completed := l.completed ++ [(number, thread_id)] } number' = l.completions number' := by
    intro number' hne
    refine (completions_append l number number' thread_id).trans ?_
    rw [if_neg hne]
  constructor
  · dsimp only
    rw [List.map_append, List.map_cons]
  · dsimp only
    rw [hnumbers]
    exact h.order
  · exact h.held
  · intro w hmem
    rw [List.mem_append, List.mem_cons] at hmem
    have hcases : w = (number, Queue.complete pending) ∨ w ∈ wbefore ++ wafter := by
      rcases hmem with hmem | hmem | hmem
      · exact .inr (List.mem_append_left _ hmem)
      · exact .inl hmem
      · exact .inr (List.mem_append_right _ hmem)
    rcases hcases with rfl | hmem
    · obtain ⟨entry, hentry, hwaits⟩ := h.waits _ hin
      refine ⟨entry, hentry, .inr ?_⟩
      rcases hwaits with ⟨rfl, hnone⟩ | ⟨-, hnow, -⟩
      · refine ⟨hdeferred, rfl, fun _ => ⟨thread_id, hmeant, ?_⟩, fun hnot => ?_⟩
        · refine (completions_append l number number thread_id).trans ?_
          rw [if_pos rfl, hnone]
          rfl
        · rw [hdeferred] at hnot
          cases hnot
      · dsimp only at hnow
        rw [hnow] at hdeferred
        exact absurd hdeferred (by simp [Queue.complete])
    · have hne := h.ne_of_split hw hmem
      have hold : w ∈ l.waiting := by
        rw [hw, List.mem_append, List.mem_cons]
        rcases List.mem_append.mp hmem with hmem | hmem
        · exact .inl hmem
        · exact .inr (.inr hmem)
      obtain ⟨entry, hentry, hwaits⟩ := h.waits w hold
      refine ⟨entry, hentry, ?_⟩
      unfold Waits Settled at hwaits ⊢
      rwa [hothers w.1 hne.symm]
  · intro d hd
    obtain ⟨entry, hentry, hfor, hsettled, hgone⟩ := h.gone d hd
    have hne : number ≠ d.1 := by
      rintro rfl
      exact hgone (List.mem_map_of_mem hin)
    refine ⟨entry, hentry, hfor, ?_, ?_⟩
    · unfold Settled at hsettled ⊢
      rwa [hothers d.1 hne]
    · dsimp only
      rwa [hnumbers]
  · intro c hc
    rcases mem_snoc hc with hc | hc
    · exact h.told c hc
    · rw [hc]
      exact h.lt_of_waiting hin

/-- An entry that waits is taken out. -/
theorem Fits.remove {number : ℕ} (hw : l.waiting = wbefore ++ (number, pending) :: wafter)
    (arena' : ReceiveArena) :
    Fits { l with waiting := wbefore ++ wafter }
      ⟨arena', { q.queue with pending := wbefore.map Prod.snd ++ wafter.map Prod.snd }⟩ := by
  have hsub : (wbefore ++ wafter).Sublist l.waiting := by
    rw [hw]
    exact (List.Sublist.refl _).append (List.sublist_cons_self _ _)
  constructor
  · exact List.map_append
  · exact h.order.sublist (hsub.map _)
  · exact h.held
  · exact fun w hmem => h.waits w (hsub.subset hmem)
  · intro d hd
    obtain ⟨entry, hentry, hfor, hsettled, hgone⟩ := h.gone d hd
    exact ⟨entry, hentry, hfor, hsettled, fun hmem => hgone ((hsub.map _).subset hmem)⟩
  · exact h.told

theorem Fits.deliver {number : ℕ} (hw : l.waiting = wbefore ++ (number, pending) :: wafter)
    (hmeant : meant_for pending thread_id) (hdeferred : pending.route.deferred_completion = false) :
    Fits { l with
        waiting := wbefore ++ wafter
        delivered := l.delivered ++ [(number, thread_id)]
        held := pending.allocation.buffer_address :: l.held }
      { q with queue := ⟨wbefore.map Prod.snd ++ wafter.map Prod.snd,
        q.queue.delivered.insert pending.allocation.buffer_address pending.allocation⟩ } := by
  have hin : (number, pending) ∈ l.waiting := by simp [hw]
  have hremove := h.remove hw q.arena
  constructor
  · exact hremove.waiting
  · exact hremove.order
  · intro address
    rw [List.mem_cons, h.held, contains_insert_iff, eq_comm]
  · exact hremove.waits
  · intro d hd
    rcases mem_snoc hd with hd | hd
    · exact hremove.gone d hd
    · rw [hd]
      obtain ⟨entry, hentry, hwaits⟩ := h.waits _ hin
      have hnot : number ∉ (wbefore ++ wafter).map Prod.fst := by
        intro hmem
        obtain ⟨w, hmem, heq⟩ := List.mem_map.mp hmem
        exact h.ne_of_split hw hmem heq
      rcases hwaits with ⟨rfl, hnone⟩ | ⟨-, hnow, hsettled⟩
      · refine ⟨pending, hentry, hmeant, ⟨fun htrue => ?_, fun _ => hnone⟩, hnot⟩
        rw [hdeferred] at htrue
        cases htrue
      · dsimp only at hnow
        rw [hnow] at hmeant
        exact ⟨entry, hentry, hmeant, hsettled, hnot⟩
  · exact h.told

theorem Fits.free (address : ℕ) (arena' : ReceiveArena) :
    Fits { l with held := l.held.filter (· ≠ address) }
      ⟨arena', { q.queue with delivered := q.queue.delivered.erase address }⟩ := by
  constructor
  · exact h.waiting
  · exact h.order
  · intro a
    rw [List.mem_filter, h.held, decide_eq_true_iff, contains_erase_iff, and_comm, ne_comm]
  · exact h.waits
  · exact h.gone
  · exact h.told

end

/-- The first entry that passes a test, in the account. -/
theorem find_split {p : Pending → Bool} (w : ℕ × Pending) (wafter : List (ℕ × Pending))
    (hbefore : ∀ x ∈ wbefore.map Prod.snd, p x = false) (hw : p w.2 = true) :
    (wbefore ++ w :: wafter).find? (fun w => p w.2) = some w ∧
      (wbefore ++ w :: wafter).eraseP (fun w => p w.2) = wbefore ++ wafter := by
  have hnone : ∀ x ∈ wbefore, p x.2 = false := fun x hx => hbefore x.2 (List.mem_map_of_mem hx)
  constructor
  · exact List.find?_eq_some_iff_append.mpr
      ⟨hw, wbefore, wafter, rfl, fun x hx => by simp [hnone x hx]⟩
  · rw [List.eraseP_append_right _ (fun x hx => by simp [hnone x hx]),
      List.eraseP_cons_of_pos (p := fun w : ℕ × Pending => p w.2) hw]

/-- **Every step keeps the account in step with the queue.** -/
theorem Fits.change (h : Fits l q) (hc : Change q op result q') : Fits (l.follow op result) q' := by
  cases hc with
  | refused => exact { h with }
  | enqueued => exact h.enqueue _ _
  | waited hresult =>
    rcases hresult with rfl | rfl
    · exact h
    · exact h
  | @completed thread_id accept_async output memory before after pending hsplit hbefore hpending
      hdeferred hroom =>
    obtain ⟨wbefore, number, wafter, hw, rfl, rfl⟩ := h.split hsplit
    have hfound := find_split (number, pending) wafter hbefore hpending
    have hmodify : modifyFirst (fun w => deliverable thread_id accept_async w.2)
        (fun w : ℕ × Pending => (w.1, Queue.complete w.2)) l.waiting =
          wbefore ++ (number, Queue.complete pending) :: wafter := by
      rw [hw]
      exact modifyFirst_split _ (fun x hx => hbefore x.2 (List.mem_map_of_mem hx)) hpending
    have hfits := h.complete hw (meant_for_of_deliverable hpending) hdeferred
    unfold Ledger.follow Ledger.served
    dsimp only
    rwa [hmodify, hw, hfound.1]
  | @delivered thread_id accept_async output memory before after pending hsplit hbefore hpending
      hdeferred hroom =>
    obtain ⟨wbefore, number, wafter, hw, rfl, rfl⟩ := h.split hsplit
    have hfound := find_split (number, pending) wafter hbefore hpending
    have hfits := h.deliver hw (meant_for_of_deliverable hpending) hdeferred
    unfold Ledger.follow Ledger.served
    dsimp only
    rwa [hw, hfound.1, hfound.2]
  | freed => exact h.free _ _
  | unknown => exact h
  | @cancelled call before after pending arena' hsplit hbefore hpending howns =>
    obtain ⟨wbefore, number, wafter, hw, rfl, rfl⟩ := h.split hsplit
    have hfound := find_split (number, pending) wafter hbefore hpending
    simp only [Ledger.follow, hw, hfound.2]
    exact h.remove hw arena'
  | not_found => exact h

/-- The account and the invariant after a run. -/
theorem run_fits {q₀ : ReceiveQueue} {capacity : ℕ} {kernel : MapOutcome capacity}
    {es : List Event} (hnew : new capacity kernel = .ok q₀) (hrun : Run Step q₀ es q) :
    Fits (ledger es) q ∧ Inv q := by
  refine hrun.history (fun es q => Fits (ledger es) q ∧ Inv q) (fits_new hnew) ?_
  rintro es t e u - ⟨hfits, hinv⟩ ⟨hbefore, result, hperform⟩
  have hchange := change hinv hperform
  have hresult : e.result = some result := by
    unfold Event.result
    rw [hbefore, hperform]
    rfl
  have hledger : ledger (es ++ [e]) = (ledger es).follow e.op result := by
    unfold ledger
    rw [List.foldl_append, List.foldl_cons, List.foldl_nil, hresult]
  rw [hledger]
  exact ⟨hfits.change hchange, hinv.change hchange⟩

/-! ## The result -/

/-- What a read that returns a record has read. -/
structure Reads (l : Ledger) (thread_id : UInt64) (accept_async : Bool) (record : Record)
    (number : ℕ) (now : Pending) : Prop where
  waits : (number, now) ∈ l.waiting
  /-- Of all that the thread may take it was enqueued first. -/
  first : ∀ w ∈ l.waiting, Queue.deliverable thread_id accept_async w.2 = true → number ≤ w.1
  targeted : ∀ id, now.route.target_thread = some id → id = thread_id
  async : accept_async = false → now.route.target_thread = none →
    now.header.reply = true ∨ now.header.flags &&& 1 = 0
  /-- The completion, if one is due; then the entry as it was enqueued. -/
  record :
    (record = .TransactionComplete ∧ now.route.deferred_completion = true ∧
      l.completions number = []) ∨
    (record = .Transaction now.header now.allocation ∧ ∃ entry, l.entries[number]? = some entry ∧
      entry.header = now.header ∧ entry.allocation = now.allocation ∧ Settled l number entry)

/-- The entry that stands first among those a thread may take was enqueued first. -/
theorem Fits.first (h : Fits l q) {number : ℕ} {p : Pending → Bool}
    (hw : l.waiting = wbefore ++ (number, pending) :: wafter)
    (hbefore : ∀ x ∈ wbefore.map Prod.snd, p x = false) :
    ∀ w ∈ l.waiting, p w.2 = true → number ≤ w.1 := by
  intro w hmem hp
  have horder := h.order
  rw [hw, List.map_append, List.map_cons, List.pairwise_append, List.pairwise_cons] at horder
  rw [hw, List.mem_append, List.mem_cons] at hmem
  rcases hmem with hmem | rfl | hmem
  · rw [hbefore w.2 (List.mem_map_of_mem hmem)] at hp
    cases hp
  · exact Nat.le_refl _
  · exact Nat.le_of_lt (horder.2.1.1 w.1 (List.mem_map_of_mem hmem))

theorem async_of_deliverable {now : Pending}
    (h : Queue.deliverable thread_id accept_async now = true) :
    accept_async = false → now.route.target_thread = none →
      now.header.reply = true ∨ now.header.flags &&& 1 = 0 := by
  intro hasync htarget
  unfold deliverable at h
  rw [htarget, hasync] at h
  rcases of_decide_eq_true h with hfalse | hrest
  · cases hfalse
  · exact hrest

/-- What a read does, to the queue and to the account. -/
theorem Fits.reads (h : Fits l q) {output : ℕ}
    {memory : Bool} {delivery : Delivery} {record : Record}
    (hc : Change q (.read_for_thread thread_id accept_async output memory)
      (.Read (.ok (some (delivery, record)))) q') :
    ∃ number now, Reads l thread_id accept_async record number now := by
  cases hc with
  | waited hresult =>
    rcases hresult with hresult | hresult
    · cases hresult
    · cases hresult
  | @completed _ _ _ _ before after pending hsplit hbefore hpending hdeferred hroom =>
    obtain ⟨wbefore, number, wafter, hw, rfl, rfl⟩ := h.split hsplit
    have hin : (number, pending) ∈ l.waiting := by simp [hw]
    refine ⟨number, pending, hin, h.first hw hbefore, meant_for_of_deliverable hpending,
      async_of_deliverable hpending, .inl ⟨rfl, hdeferred, ?_⟩⟩
    obtain ⟨entry, -, hwaits⟩ := h.waits _ hin
    rcases hwaits with ⟨-, hnone⟩ | ⟨-, hnow, -⟩
    · exact hnone
    · dsimp only at hnow
      rw [hnow] at hdeferred
      exact absurd hdeferred (by simp [Queue.complete])
  | @delivered _ _ _ _ before after pending hsplit hbefore hpending hdeferred hroom =>
    obtain ⟨wbefore, number, wafter, hw, rfl, rfl⟩ := h.split hsplit
    have hin : (number, pending) ∈ l.waiting := by simp [hw]
    refine ⟨number, pending, hin, h.first hw hbefore, meant_for_of_deliverable hpending,
      async_of_deliverable hpending, .inr ⟨rfl, ?_⟩⟩
    obtain ⟨entry, hentry, hwaits⟩ := h.waits _ hin
    rcases hwaits with ⟨rfl, hnone⟩ | ⟨-, hnow, hsettled⟩
    · refine ⟨pending, hentry, rfl, rfl, fun htrue => ?_, fun _ => hnone⟩
      rw [hdeferred] at htrue
      cases htrue
    · dsimp only at hnow
      rw [hnow]
      exact ⟨entry, hentry, rfl, rfl, hsettled⟩

/-- Where there is no room for a record, nothing is taken out. -/
theorem short_read {output : ℕ} {memory : Bool}
    (hc : Change q (.read_for_thread thread_id accept_async output memory) result q') :
    (output < RECORD_SIZE → q'.arena = q.arena ∧ q'.queue.delivered = q.queue.delivered ∧
      pending_addresses q'.queue = pending_addresses q.queue) ∧ (output < 4 → q' = q) := by
  cases hc with
  | waited => exact ⟨fun _ => ⟨rfl, rfl, rfl⟩, fun _ => rfl⟩
  | completed hsplit _ _ _ hroom =>
    refine ⟨fun _ => ⟨rfl, rfl, ?_⟩, fun hshort => absurd hroom (by omega)⟩
    unfold pending_addresses
    rw [hsplit, List.map_append, List.map_append, List.map_cons, List.map_cons]
    rfl
  | delivered _ _ _ _ hroom =>
    refine ⟨fun hshort => absurd hroom (by omega), fun hshort => absurd hroom ?_⟩
    unfold RECORD_SIZE
    omega

/-- **The buffers of the receive queue.** In every run on a new queue:

* the live allocations of the arena are the buffers of the entries that wait and those handed
  over, no buffer is both, and no drop of a buffer fails;
* the entries wait in the order in which they were enqueued, and what was handed over went to
  its thread, after its completion was told once if that was deferred;
* no operation finds a buffer twice; `free` succeeds just for the buffers handed over and not
  freed since; a read turns to the entry that was enqueued first among those the thread may
  take (`Reads`), and one without room for a record takes nothing out. -/
theorem receive_buffers_accounted {capacity : ℕ} {kernel : MapOutcome capacity}
    {q₀ : ReceiveQueue} {es : List Event} (hnew : new capacity kernel = .ok q₀)
    (hrun : Run Step q₀ es q) :
    (∀ address, (∃ o l : ℕ, q.arena.allocated[o]? = some l ∧
        address = q.arena.mapping.client_address + o) ↔
      address ∈ pending_addresses q.queue ∨ q.queue.delivered.contains address = true) ∧
    (pending_addresses q.queue).Nodup ∧
    (∀ address ∈ pending_addresses q.queue, q.queue.delivered.contains address = false) ∧
    (∀ op, (q.perform op).isSome = true) ∧
    (ledger es).waiting.map Prod.snd = q.queue.pending ∧
    ((ledger es).waiting.map Prod.fst).Pairwise (· < ·) ∧
    (∀ d ∈ (ledger es).delivered, ∃ entry, (ledger es).entries[d.1]? = some entry ∧
      meant_for entry d.2 ∧ Settled (ledger es) d.1 entry) ∧
    ∀ es₁ e es₂, es = es₁ ++ e :: es₂ →
      e.result ≠ some (.Enqueued (.error .DuplicateBuffer)) ∧
      e.result ≠ some (.Read (.error .DuplicateBuffer)) ∧
      (∀ address, e.op = .free address →
        (e.result = some (.Freed (.ok ())) ↔ address ∈ (ledger es₁).held)) ∧
      ∀ thread_id accept_async output memory,
        e.op = .read_for_thread thread_id accept_async output memory →
        (∀ delivery record, e.result = some (.Read (.ok (some (delivery, record)))) →
          ∃ number now, Reads (ledger es₁) thread_id accept_async record number now) ∧
        ∀ result q', e.before.perform e.op = some (result, q') →
          (output < RECORD_SIZE → q'.arena = e.before.arena ∧
            q'.queue.delivered = e.before.queue.delivered ∧
            pending_addresses q'.queue = pending_addresses e.before.queue) ∧
          (output < 4 → q' = e.before) := by
  obtain ⟨hfits, hinv⟩ := run_fits hnew hrun
  obtain ⟨hnodup, hapart⟩ := nodup_addresses.mp hinv.owns.nodup
  refine ⟨?_, hnodup, hapart, ?_, hfits.waiting, hfits.order, ?_, ?_⟩
  · intro address
    rw [← hinv.owns.mem, mem_addresses]
  · intro op
    obtain ⟨result, q', hperform, -⟩ := change_of_op hinv op
    rw [hperform]
    rfl
  · intro d hd
    obtain ⟨entry, hentry, hmeant, hsettled, -⟩ := hfits.gone d hd
    exact ⟨entry, hentry, hmeant, hsettled⟩
  · intro es₁ e es₂ hes
    rw [hes] at hrun
    obtain ⟨t, u, hrun₁, hbefore, result, hperform⟩ := hrun.at_label
    subst hbefore
    obtain ⟨hfits₁, hinv₁⟩ := run_fits hnew hrun₁
    have hchange := change hinv₁ hperform
    have hresult : e.result = some result := by
      unfold Event.result
      rw [hperform]
      rfl
    rw [hresult]
    refine ⟨?_, ?_, ?_, ?_⟩
    · intro heq
      rw [Option.some.inj heq] at hchange
      generalize e.op = op at hchange
      cases hchange with
      | refused _ he => exact he rfl
    · intro heq
      rw [Option.some.inj heq] at hchange
      generalize e.op = op at hchange
      cases hchange with
      | waited hresult =>
        rcases hresult with hresult | hresult
        · cases hresult
        · cases hresult
    · intro address hop
      rw [hop] at hchange
      rw [hfits₁.held]
      cases hchange with
      | freed hdelivered => exact ⟨fun _ => hdelivered, fun _ => rfl⟩
      | unknown hdelivered =>
        rw [hdelivered]
        exact ⟨fun heq => absurd heq (by simp), fun heq => absurd heq (by simp)⟩
    · intro thread_id accept_async output memory hop
      refine ⟨fun _ _ heq => ?_, fun _ q' hperform' => ?_⟩
      · rw [hop, Option.some.inj heq] at hchange
        exact hfits₁.reads hchange
      · have hchange' := change hinv₁ hperform'
        rw [hop] at hchange'
        exact short_read hchange'

end Accounts

/-- Three bytes of data. -/
def three_bytes : TransactionPayload := ⟨[1, 2, 3], [], 0, _, rfl⟩

/-- A reply whose completion was deferred is enqueued for thread 11, which is woken once with
too small a buffer, and is then told and handed it; another thread gets nothing. -/
def deferred_reply : List Op :=
  [.enqueue_routed three_bytes ⟨true, 0, 0, 0, 0, 5, 6⟩ [] ⟨some (.Local 7), some 11, true⟩ true,
    .read_for_thread 12 true 68 true, .read_for_thread 11 false 3 true,
    .read_for_thread 11 false 68 true, .read_for_thread 11 false 68 true, .free 4096]

theorem deferred_reply_completes_once :
    ∃ q₀ es q, new 64 (.ok ⟨4096, by norm_num⟩) = .ok q₀ ∧ Run Step q₀ es q ∧
      (ledger es).delivered = [(0, 11)] ∧ (ledger es).completions 0 = [(0, 11)] ∧
      (ledger es).held = [] := by
  obtain ⟨q₀, hq₀⟩ : ∃ q₀, new 64 (.ok ⟨4096, by norm_num⟩) = .ok q₀ := ⟨_, rfl⟩
  have hstep : ∀ (q : ReceiveQueue) op result q', q.perform op = some (result, q') →
      Step q ⟨q, op⟩ q' := fun _ _ result _ hperform => ⟨rfl, result, hperform⟩
  have hledger : ((Run.collect perform Event.mk q₀ deferred_reply).map fun r =>
      ((ledger r.1).delivered, (ledger r.1).held,
        (ledger r.1).entries.map fun entry =>
          (entry.route.deferred_completion, entry.route.target_thread))) =
        some ([(0, 11)], [], [(true, some 11)]) := by
    cases hq₀
    decide +kernel
  obtain ⟨⟨es, q⟩, hcollect, hvalue⟩ := Option.map_eq_some_iff.mp hledger
  rw [Prod.mk.injEq, Prod.mk.injEq] at hvalue
  obtain ⟨hdelivered, hheld, hentries⟩ := hvalue
  have hrun := Run.of_collect hstep hcollect
  refine ⟨q₀, es, q, hq₀, hrun, hdelivered, ?_, hheld⟩
  -- the reply was handed over, so its completion has been told once, to the same thread
  obtain ⟨entry, hentry, _, hsettled⟩ := (receive_buffers_accounted hq₀ hrun).2.2.2.2.2.2.1
    (0, 11) (by rw [hdelivered]; exact List.mem_cons_self)
  have hroute := congrArg (fun routes => routes[0]?) hentries
  dsimp only at hroute hentry
  rw [List.getElem?_map, hentry, Option.map_some] at hroute
  injection hroute with hroute
  injection hroute with hdeferred htarget
  obtain ⟨_, hfor, hcompletions⟩ := hsettled.1 hdeferred
  rw [hcompletions, ← hfor 11 htarget]

end ReceiveQueue

end DarwinArt.Binder
