/-
The process-local registry: `connection_registry.rs` with its `lifecycle`, `authority`,
`process_io` and `remote_delivery` parts, over `connection.rs` and `write_read.rs`.

A registry holds the open connections and the table of outstanding synchronous calls. A
connection holds its threads and its receive queue. Every operation that touches both
runs under `transaction_gate`, so it is one step here. `close` is not: it removes the
owner and collects the callers to notify under the gate, and then, holding no lock, drops
the owner and notifies one caller after the other. Those are steps of their own, and what
a `close` still has to do is part of the state (`closing`).

## What is an argument

Resolving a handle in the sender's reference table, translating the objects of a payload
and allocating the receive buffer are not modelled here; each operation is given their
answers, and nothing is assumed of them. The checks the registry makes on those answers
are modelled. Poisoned locks are left out (nothing panics under them), and so are the
registry's wake-ups. A key of another registry is refused before anything else happens;
the keys here are those of this registry, which is to say connection ids.

## Connections and their owners

A handle to a connection outlives its registration, so `connections` keeps every
connection ever registered and `owners` says which are registered now. Dropping an owner
(`disconnect`) empties its threads and its queue.
-/
import DarwinArt.Binder.ReceiveArena
import DarwinArt.Binder.ThreadFrame
import DarwinArt.Binder.TransactionQueue

set_option autoImplicit false
set_option linter.dupNamespace false

namespace DarwinArt.Binder

open Lib Lib.ListEdit

/-! ## The data -/

abbrev ConnectionId := ℕ

structure NodeId where
  owner : ConnectionId
  localId : ℕ
deriving DecidableEq

instance : Key CallId where
  code
    | .Local serial => [0, serial]
    | .Remote token => [1, token.raw]
  code_injective := by
    rintro (a | a) (b | b) h <;> simp only [List.cons.injEq, and_true] at h
    · rw [h.2]
    · exact absurd h.1 (by decide)
    · exact absurd h.1 (by decide)
    · rw [Token.ext h.2]

/-- `Connection`: its thread table and its receive queue, once a mapping is installed. -/
structure Connection where
  threads : Map UInt64 Thread
  transactions : Option Queue

structure CallRoute where
  sender : ConnectionId
  thread_id : UInt64
  target : NodeId
deriving DecidableEq

structure CallTable where
  next : ℕ
  routes : Map CallId CallRoute

/-- A caller that a `close` has to tell of the death of its target. -/
structure DeadCaller where
  call : CallId
  thread_id : UInt64
  caller : ConnectionId
deriving DecidableEq

/-- A `close` past its gate: has the owner been dropped, and whom is it still to notify. -/
structure Closing where
  dropped : Bool
  dead_callers : List DeadCaller

structure Registry where
  next : ℕ
  owners : Finset ConnectionId
  connections : Map ConnectionId Connection
  calls : CallTable
  closing : Map ConnectionId Closing

/-- `connection::Error`, as far as it is told apart here. -/
inductive ConnectionError
  | WrongOwner
  | MappingNotInstalled
  | ObjectTransfer
  | OutOfMemory
  | TransactionQueue (error : Queue.Error)
  | Thread (error : Thread.Error)
  | Io (errno : Errno)
deriving DecidableEq

namespace Registry

inductive Error
  | UnknownConnection
  | Exhausted
  | OutOfMemory
  | Connection (error : ConnectionError)
deriving DecidableEq

inductive SubmitError
  | Registry (error : Error)
  | Context
  | ReplyRequiresThreadStack
  | Snapshot
  | Target (error : ConnectionError)
  | CallIdsExhausted
  | OutOfMemory
  | UnknownCall
deriving DecidableEq

inductive DeliveryError
  | Registry (error : Error)
  | Thread (error : Thread.Error)
deriving DecidableEq

/-- `Registry::default`. -/
def new : Registry := ⟨0, ∅, ∅, ⟨0, ∅⟩, ∅⟩

section

variable (r : Registry) (id : ConnectionId)

def lookup_id : Except Error Connection :=
  if id ∈ r.owners then
    match r.connections[id]? with
    | some connection => .ok connection
    | none => .error .UnknownConnection
  else .error .UnknownConnection

/-- Write a connection back. -/
def put (connection : Connection) : Registry :=
  { r with connections := r.connections.insert id connection }

/-! ## `CallTable` -/

/-- `CallTable::register`. -/
def register_call (calls : CallTable) (route : CallRoute) (memory : Bool) :
    Except SubmitError CallId × CallTable :=
  match checked_add 64 calls.next 1 with
  | none => (.error .CallIdsExhausted, calls)
  | some serial =>
    if ¬ memory then (.error .OutOfMemory, calls)
    else (.ok (.Local serial), ⟨serial, calls.routes.insert (.Local serial) route⟩)

/-- `CallTable::remove`. -/
def remove_call (calls : CallTable) (call : CallId) : CallTable :=
  { calls with routes := calls.routes.erase call }

/-- `CallTable::take_target`. The source iterates a hash map; the order in which callers
are later notified is that of the keys here. -/
def take_target (calls : CallTable) (target : ConnectionId) :
    List (CallId × CallRoute) × CallTable :=
  (calls.routes.toList.filter (fun e => e.2.target.owner = target),
    { calls with routes := calls.routes.filter (fun _ route => route.target.owner ≠ target) })

/-! ## Enqueueing -/

/-- The queue work goes to: `transactions.as_mut().ok_or(MappingNotInstalled)`, then
`enqueue_routed`. -/
def enqueue (allocation : Except Queue.Error Allocation)
    (header : Header) (route : Route) : Except ConnectionError ℕ × Registry :=
  match r.connections[id]? with
  | none => (.error .MappingNotInstalled, r)
  | some connection =>
    match connection.transactions with
    | none => (.error .MappingNotInstalled, r)
    | some queue =>
      match queue.enqueue_routed allocation header route with
      | (.error e, _) => (.error (.TransactionQueue e), r)
      | (.ok address, queue') =>
        (.ok address, r.put id { connection with transactions := some queue' })

/-- The answers an operation that moves a payload is given: whether its objects could be
translated, and the receive allocation. -/
structure Transfer where
  objects : Except ConnectionError Unit
  allocation : Except Queue.Error Allocation

def enqueue_translated_from (target sender : ConnectionId) (transfer : Transfer)
    (header : Header) (route : Route) : Except ConnectionError ℕ × Registry :=
  if sender = target then (.error .WrongOwner, r)
  else
    match transfer.objects with
    | .error e => (.error e, r)
    | .ok () => r.enqueue target transfer.allocation header route

/-! ## Submitting -/

inductive Target
  | Handle (handle : UInt32)
  | Reply
deriving DecidableEq

structure Request where
  target : Target
  code : UInt32
  flags : UInt32
deriving DecidableEq

structure SenderIdentity where
  pid : Int32
  euid : UInt32
deriving DecidableEq

/-- A resolved target: its routing id, and the pointer and cookie of its owner. -/
structure ResolvedTarget where
  node : NodeId
  pointer : UInt64
  cookie : UInt64
deriving DecidableEq

/-- The answers `submit_transaction` is given: whether the snapshot is well formed, what the
target resolves to, whether the call table may grow, and those of the transfer. -/
structure Submission where
  snapshot : Bool
  target : Except SubmitError ResolvedTarget
  memory : Bool
  transfer : Transfer

/-- `submit_transaction`, by a thread that holds a reservation. -/
def submit_transaction (sender : ConnectionId) (thread : Thread)
    (request : Request) (identity : SenderIdentity) (given : Submission) :
    Except SubmitError ℕ × Registry × Thread :=
  if request.target = .Reply then (.error .ReplyRequiresThreadStack, r, thread)
  else if ¬ given.snapshot then (.error .Snapshot, r, thread)
  else
    match r.lookup_id sender with
    | .error e => (.error (.Registry e), r, thread)
    | .ok _ =>
      match given.target with
      | .error e => (.error e, r, thread)
      | .ok target =>
        -- `key_for_target`: the owner of the node must be registered now
        match r.lookup_id target.node.owner with
        | .error e => (.error (.Registry e), r, thread)
        | .ok _ =>
          let header : Header :=
            ⟨false, target.pointer, target.cookie, request.code, request.flags, identity.pid,
              identity.euid⟩
          if request.flags &&& 1 = 0 then
            match register_call r.calls ⟨sender, thread.id, target.node⟩ given.memory with
            | (.error e, _) => (.error e, r, thread)
            | (.ok call, calls) =>
              match { r with calls := calls }.enqueue_translated_from target.node.owner sender
                  given.transfer header ⟨some call, none, false⟩ with
              | (.ok address, r') => (.ok address, r', thread.commit (some call))
              | (.error e, r') =>
                (.error (.Target e), { r' with calls := remove_call r'.calls call }, thread)
          else
            match r.enqueue_translated_from target.node.owner sender given.transfer header
                ⟨none, none, false⟩ with
            | (.ok address, r') => (.ok address, r', thread.commit none)
            | (.error e, r') => (.error (.Target e), r', thread)

/-- `submit_reply`, by a thread that holds a reservation. -/
def submit_reply (replier : ConnectionId) (call : CallId) (thread : Thread)
    (request : Request) (identity : SenderIdentity) (transfer : Transfer) :
    Except SubmitError ℕ × Registry × Thread :=
  if request.target ≠ .Reply then (.error .ReplyRequiresThreadStack, r, thread)
  else
    match r.calls.routes[call]? with
    | none => (.error .UnknownCall, r, thread)
    | some route =>
      match r.lookup_id replier with
      | .error e => (.error (.Registry e), r, thread)
      | .ok _ =>
        match r.lookup_id route.sender with
        | .error .UnknownConnection =>
          -- the caller is gone: the reply is consumed and dropped
          (.ok 0, { r with calls := remove_call r.calls call }, thread.commit none)
        | .error e => (.error (.Registry e), r, thread)
        | .ok _ =>
          match r.enqueue_translated_from route.sender replier transfer
              ⟨true, 0, 0, request.code, request.flags, identity.pid, identity.euid⟩
              ⟨some call, some route.thread_id, true⟩ with
          | (.ok address, r') =>
            (.ok address, { r' with calls := remove_call r'.calls call }, thread.commit none)
          | (.error e, r') => (.error (.Target e), r', thread)

/-! ## Work from the authority -/

/-- `RemoteTransaction`, but for the sender's token, which the queue does not see. -/
structure RemoteTransaction where
  call : Option CallToken
  sender_pid : Int32
  sender_euid : UInt32
  code : UInt32
  flags : UInt32
deriving DecidableEq

/-- `RemoteReply`, likewise. -/
structure RemoteReply where
  call : CallToken
  sender_pid : Int32
  sender_euid : UInt32
  target_thread : UInt64
  code : UInt32
  flags : UInt32
deriving DecidableEq

/-- `enqueue_remote_transaction`. The answer of the object translation comes with the
pointer and cookie of the target node. -/
def enqueue_remote_transaction (remote : RemoteTransaction)
    (node : Except ConnectionError (UInt64 × UInt64)) (allocation : Except Queue.Error Allocation) :
    Except Error ℕ × Registry :=
  match r.lookup_id id with
  | .error e => (.error e, r)
  | .ok _ =>
    match node with
    | .error e => (.error (.Connection e), r)
    | .ok (pointer, cookie) =>
      match r.enqueue id allocation
          ⟨false, pointer, cookie, remote.code, remote.flags, remote.sender_pid,
            remote.sender_euid⟩
          ⟨remote.call.map .Remote, none, false⟩ with
      | (.ok address, r') => (.ok address, r')
      | (.error e, r') => (.error (.Connection e), r')

def enqueue_remote_reply (remote : RemoteReply)
    (transfer : Transfer) : Except Error ℕ × Registry :=
  match r.lookup_id id with
  | .error e => (.error e, r)
  | .ok _ =>
    match transfer.objects with
    | .error e => (.error (.Connection e), r)
    | .ok () =>
      match r.enqueue id transfer.allocation
          ⟨true, 0, 0, remote.code, remote.flags, remote.sender_pid, remote.sender_euid⟩
          ⟨some (.Remote remote.call), some remote.target_thread, true⟩ with
      | (.ok address, r') => (.ok address, r')
      | (.error e, r') => (.error (.Connection e), r')

/-- The loop of `Connection::fail_remote_authority` over the threads, which stops at the
first error. -/
def fail_threads (connection : Connection) : List UInt64 → Except ConnectionError Unit × Connection
  | [] => (.ok (), connection)
  | id :: ids =>
    match connection.threads[id]? with
    | none => fail_threads connection ids
    | some thread =>
      match thread.fail_remote_authority with
      | (result, thread') =>
        let connection' := { connection with threads := connection.threads.insert id thread' }
        match result with
        | .error e => (.error (.Thread e), connection')
        | .ok () => fail_threads connection' ids

def fail_remote_authority : Except Error Unit × Registry :=
  match r.lookup_id id with
  | .error e => (.error e, r)
  | .ok connection =>
    match fail_threads connection connection.threads.keys with
    | (.ok (), connection') => (.ok (), r.put id connection')
    | (.error e, connection') => (.error (.Connection e), r.put id connection')

/-! ## Reading -/

/-- The allocator's answers during one delivery. -/
structure DeliveryMemory where
  incoming : Bool
  delivered : Bool

/-- The check before anything is taken: a reply must be to the call on top of the stack, a
call must find room on the incoming stack. -/
def check_next (thread : Thread) (memory : DeliveryMemory) : Option Next → Except Thread.Error Unit
  | some ⟨some call, true⟩ => thread.validate_outgoing call
  | some ⟨some _, false⟩ => if memory.incoming then .ok () else .error .OutOfMemory
  | some ⟨none, _⟩ | none => .ok ()

/-- `deliver_transaction`, into a buffer of `output` bytes. -/
def deliver_transaction (thread : Thread) (output : ℕ)
    (memory : DeliveryMemory) : Except DeliveryError ℕ × Registry × Thread :=
  match r.lookup_id id with
  | .error e => (.error (.Registry e), r, thread)
  | .ok connection =>
    let accept_async := thread.can_wait_for_process_work
    match connection.transactions with
    | none => (.ok 0, r, thread)
    | some queue =>
      match check_next thread memory (queue.next_route thread.id accept_async) with
      | .error e => (.error (.Thread e), r, thread)
      | .ok () =>
        match queue.read_for_thread thread.id accept_async output memory.delivered with
        | (result, queue') =>
          let r' := r.put id { connection with transactions := some queue' }
          match result with
          | .error e => (.error (.Registry (.Connection (.TransactionQueue e))), r', thread)
          | .ok none => (.ok 0, r', thread)
          | .ok (some (delivery, _)) =>
            match delivery.call with
            | none => (.ok delivery.bytes, r', thread)
            | some call =>
              if delivery.reply then
                if delivery.completion then (.ok delivery.bytes, r', thread)
                else
                  match thread.finish_outgoing call with
                  | (.error e, thread') => (.error (.Thread e), r', thread')
                  | (.ok (), thread') => (.ok delivery.bytes, r', thread')
              else (.ok delivery.bytes, r', thread.accept_incoming call)

/-! ## Opening and closing -/

def register (memory : Bool) : Except Error ConnectionId × Registry :=
  match checked_add 64 r.next 1 with
  | none => (.error .Exhausted, r)
  | some serial =>
    if ¬ memory then (.error .OutOfMemory, r)
    else
      (.ok serial, { r.put serial ⟨∅, none⟩ with
        owners := insert serial r.owners
        next := serial })

/-- `Registry::thread`: the thread of that id, made on first use. -/
def thread (thread_id : UInt64) : Except Error Unit × Registry :=
  match r.lookup_id id with
  | .error e => (.error e, r)
  | .ok connection =>
    match Thread.new thread_id with
    | none => (.error (.Connection (.Io .EINVAL)), r)
    | some fresh =>
      if connection.threads.contains thread_id then (.ok (), r)
      else
        (.ok (), r.put id { connection with threads := connection.threads.insert thread_id fresh })

/-- `install_receive_mapping`, over a mapping that could be made. -/
def install_receive_mapping : Registry :=
  match r.lookup_id id with
  | .error _ => r
  | .ok connection =>
    match connection.transactions with
    | some _ => r
    | none => r.put id { connection with transactions := some Queue.new }

/-- The part of `close` under the gate. -/
def close : Except Error Unit × Registry :=
  if id ∈ r.owners then
    let owners := r.owners.erase id
    let (dead, calls) := take_target r.calls id
    let dead_callers := dead.filterMap fun (call, route) =>
      if route.sender ∈ owners then some ⟨call, route.thread_id, route.sender⟩ else none
    (.ok (), { r with
      owners := owners
      calls := calls
      closing := r.closing.insert id ⟨false, dead_callers⟩ })
  else (.error .UnknownConnection, r)

/-- `drop(owner)` in `close`: `Connection::disconnect`. -/
def drop_owner : Registry :=
  match r.closing[id]? with
  | some ⟨false, dead_callers⟩ =>
    { r.put id ⟨∅, none⟩ with closing := r.closing.insert id ⟨true, dead_callers⟩ }
  | _ => r

/-- The thread of a dead caller, through the handle the `close` holds: `existing_thread`. -/
def existing_thread (thread_id : UInt64) : Option Thread :=
  match r.connections[id]? with
  | some connection => connection.threads[thread_id]?
  | none => none

/-- Write a thread back. -/
def put_thread (thread_id : UInt64) (thread : Thread) : Registry :=
  match r.connections[id]? with
  | some connection =>
    r.put id { connection with threads := connection.threads.insert thread_id thread }
  | none => r

/-- One round of the loop of `close`: notify the next dead caller. An error ends the
`close`. -/
def notify_dead_caller : Except Error Unit × Registry :=
  match r.closing[id]? with
  | some ⟨true, dead :: rest⟩ =>
    match r.existing_thread dead.caller dead.thread_id with
    | none => (.ok (), { r with closing := r.closing.insert id ⟨true, rest⟩ })
    | some thread =>
      match thread.enqueue_dead_reply dead.call with
      | (.ok (), thread') =>
        (.ok (), { r.put_thread dead.caller dead.thread_id thread' with
          closing := r.closing.insert id ⟨true, rest⟩ })
      | (.error _, _) =>
        (.error (.Connection (.Io .EINVAL)), { r with closing := r.closing.erase id })
  | _ => (.ok (), r)

end

/-! ## Steps -/

/-- The operations on a registry, its connections and their threads. -/
inductive Op
  | register (memory : Bool)
  | thread (id : ConnectionId) (thread_id : UInt64)
  | install_receive_mapping (id : ConnectionId)
  | looper (id : ConnectionId) (thread_id : UInt64) (state : Looper)
  | submit_transaction (id : ConnectionId) (thread_id : UInt64) (request : Request)
      (identity : SenderIdentity) (given : Submission)
  | submit_reply (id : ConnectionId) (thread_id : UInt64) (call : CallId) (request : Request)
      (identity : SenderIdentity) (transfer : Transfer)
  | enqueue_remote_transaction (id : ConnectionId) (remote : RemoteTransaction)
      (node : Except ConnectionError (UInt64 × UInt64)) (allocation : Except Queue.Error Allocation)
  | enqueue_remote_reply (id : ConnectionId) (remote : RemoteReply) (transfer : Transfer)
  | fail_remote_authority (id : ConnectionId)
  | deliver_transaction (id : ConnectionId) (thread_id : UInt64) (output : ℕ)
      (memory : DeliveryMemory)
  | on_thread (id : ConnectionId) (thread_id : UInt64) (op : Thread.Op)
  | close (id : ConnectionId)
  | drop_owner (id : ConnectionId)
  | notify_dead_caller (id : ConnectionId)

/-- Run an operation on a thread of a connection, if there is that thread. The thread's lock
is held throughout. -/
def with_thread (r : Registry) (id : ConnectionId) (thread_id : UInt64)
    (f : Thread → Registry × Thread) : Registry :=
  match r.existing_thread id thread_id with
  | none => r
  | some thread => (f thread).1.put_thread id thread_id (f thread).2

/-- The registry after an operation, whatever the operation returned. -/
def perform (r : Registry) : Op → Registry
  | .register memory => (r.register memory).2
  | .thread id thread_id => (r.thread id thread_id).2
  | .install_receive_mapping id => r.install_receive_mapping id
  -- the looper commands, whose pool accounting decides which states are reached
  | .looper id thread_id state =>
    r.with_thread id thread_id fun t => (r, { t with looper := state })
  | .submit_transaction id thread_id request identity given =>
    r.with_thread id thread_id fun t => (r.submit_transaction id t request identity given).2
  | .submit_reply id thread_id call request identity transfer =>
    r.with_thread id thread_id fun t => (r.submit_reply id call t request identity transfer).2
  | .enqueue_remote_transaction id remote node allocation =>
    (r.enqueue_remote_transaction id remote node allocation).2
  | .enqueue_remote_reply id remote transfer => (r.enqueue_remote_reply id remote transfer).2
  | .fail_remote_authority id => (r.fail_remote_authority id).2
  | .deliver_transaction id thread_id output memory =>
    r.with_thread id thread_id fun t => (r.deliver_transaction id t output memory).2
  | .on_thread id thread_id op =>
    r.with_thread id thread_id fun t => (r, if Thread.outside op then (t.perform op).2 else t)
  | .close id => (r.close id).2
  | .drop_owner id => r.drop_owner id
  | .notify_dead_caller id => (r.notify_dead_caller id).2

/-- A step of a run. Operations that return an error are steps like any other. -/
def Step (r : Registry) (op : Op) (r' : Registry) : Prop := r.perform op = r'

/-- A list of operations is a run. -/
theorem run_foldl (r : Registry) (ops : List Op) : Run Step r ops (ops.foldl perform r) := by
  induction ops using List.reverseRecOn with
  | nil => exact Run.nil r
  | append_singleton _ _ ih =>
    rw [List.foldl_append]
    exact ih.snoc rfl

end Registry

end DarwinArt.Binder
