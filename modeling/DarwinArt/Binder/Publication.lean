/-
Publishing a transaction into its receiver: `connection/transactions.rs`, with the objects of
`transaction_objects.rs` and the receiving side of `remote_objects.rs`.

A transaction names objects of the sender. The receiver is given a handle to each that is not
its own (`install_objects`), the payload is copied into its arena with the objects rewritten,
and an entry is put into its queue. The handles come first and the queue may still refuse, so
what was installed is remembered and taken back in reverse (`rollback_objects`).

`enqueue_translated_from` takes the objects from another connection of the same registry,
`enqueue_remote_transaction` and `enqueue_remote_reply` from the manifest of an image that the
routing authority delivered. The three look for the receive mapping at different places: the
first before anything is installed, the other two after it. `PublicationOutcomes` says what
follows from that; here are the functions, and what one object does to the receiver's table
and to the nodes (`Installs`), and all of them (`install_objects_spec`).

## What is modelled

A connection holds its session and its queue under two locks. A call is one step here: the
session's lock is held throughout, and the queue's from where it is taken. The descriptors of
a delivery are the rewrites they stand for; closing them is left out, and so are the poisoned
locks, the work signal and the debug output. The allocator's answers are an input. `none` is
that a drop stopped the process.
-/
import DarwinArt.Binder.ReceiveQueue
import DarwinArt.Binder.ReferenceTable

set_option autoImplicit false

namespace DarwinArt.Binder.Publication

open Lib

open ReferenceTable

open Objects (Object ManifestObject Kind validate validate_manifest strength)

/-! ## The data -/

/-- `Session`: the number of its `NodeOwner`, and its handles. -/
structure Session where
  owner : ℕ
  references : ReferenceTable

/-- `Connection`: the part of it that a publication reads and writes. -/
structure Connection where
  id : ℕ
  session : Option Session
  transactions : Option ReceiveQueue

structure Resolved where
  node : NodeKey
  strength : Strength
  flags : UInt32
  offset : ℕ
deriving DecidableEq

structure Rollback where
  handle : ℕ
  strength : Strength
deriving DecidableEq

/-- `remote_objects::Error`: what an installation and `validate_delivery_objects` return. -/
inductive RemoteError
  | Unsupported (kind : Kind)
  | ReceiverReference (error : ReferenceTable.Error)
  | ReceiverNode (error : NodeOwner.Error)
deriving DecidableEq

/-- `transaction_objects::Error`. -/
inductive TransferError
  | Objects (error : Objects.Error)
  | Unsupported (kind : Kind)
  | SenderNode (error : NodeOwner.Error)
  | SenderReference (error : ReferenceTable.Error)
  | ReceiverReference (error : ReferenceTable.Error)
  | Remote (error : RemoteError)
deriving DecidableEq

/-- `connection::Error`: what a publication returns. -/
inductive Error
  | WrongOwner
  | Closed
  | MappingNotInstalled
  | OutOfMemory
  | ObjectTransfer (error : TransferError)
  | TransactionQueue (error : Queue.Error)
deriving DecidableEq

/-- `TransferImage`: the sections, and the manifest of their references. `import_with_fds` has
compared the two. -/
structure Image where
  sections : TransactionPayload
  objects_manifest : List ManifestObject
  described : ∃ objects, validate sections.data sections.offsets = .ok objects ∧
    validate_manifest objects objects_manifest = .ok ()

structure RemoteTransaction where
  call : Option CallToken
  sender_pid : Int32
  sender_euid : UInt32
  target : LocalNodeToken
  code : UInt32
  flags : UInt32

structure RemoteReply where
  call : CallToken
  sender_pid : Int32
  sender_euid : UInt32
  target_thread : UInt64
  code : UInt32
  flags : UInt32

/-- The allocator's answers during one publication. -/
structure Memory where
  resolved : Bool
  /-- for the sender's nodes, object by object -/
  nodes : ℕ → Heap.ResolveMemory
  files : Bool
  rewrites : Bool
  rollbacks : Bool
  pending : Bool

/-! ## Objects -/

/-- The words of a node's object for its owner. -/
def write_node (offset : ℕ) (strength : Strength) (flags : UInt32) (pointer cookie : UInt64) :
    Rewrite where
  offset := offset
  bytes :=
    let kind := match strength with
      | .Strong => Kind.Binder
      | .Weak => Kind.WeakBinder
    toLe 4 kind.tag ++ toLe 4 flags.toNat ++ toLe 8 pointer.toNat ++ toLe 8 cookie.toNat
  size := by simp

/-- The words of a node's object for another process. -/
def write_handle (offset : ℕ) (strength : Strength) (flags : UInt32) (handle : ℕ) : Rewrite where
  offset := offset
  bytes :=
    let kind := match strength with
      | .Strong => Kind.Handle
      | .Weak => Kind.WeakHandle
    toLe 4 kind.tag ++ toLe 4 flags.toNat ++ toLe 4 handle ++ toLe 12 0
  size := by simp

/-- `node.cookie()`. -/
def cookie (heap : Heap) (node : NodeKey) : UInt64 :=
  ((heap.nodes[node]?).map (·.cookie)).getD 0

section

variable (session : Session) (heap : Heap)

/-- `resolve_transaction_object`. The hold of a handle's node is dropped at once. -/
def resolve_transaction_object (object : Object)
    (memory : Heap.ResolveMemory) : Option (Except TransferError Resolved × Heap) :=
  match object.contents with
  | .Node weak flags pointer cookie =>
    match heap.resolve session.owner (.Node weak flags pointer cookie) memory with
    | (.error e, heap) => some (.error (.SenderNode e), heap)
    | (.ok node, heap) => some (.ok ⟨node, strength weak, flags, object.offset⟩, heap)
  | .Handle weak flags handle _ =>
    match session.references.lookup heap handle.toNat (strength weak) with
    | (.error e, heap) => some (.error (.SenderReference e), heap)
    | (.ok hold, heap) =>
      (heap.drop_hold hold).map fun heap =>
        (.ok ⟨hold.node, strength weak, flags, object.offset⟩, heap)
  | _ => some (.error (.Unsupported object.kind), heap)

/-- The sender's objects, in their order. -/
def resolve_objects (session : Session) (memory : ℕ → Heap.ResolveMemory) :
    ℕ → Heap → List Object → Option (Except TransferError (List Resolved) × Heap)
  | _, heap, [] => some (.ok [], heap)
  | i, heap, object :: objects =>
    match resolve_transaction_object session heap object (memory i) with
    | none => none
    | some (.error e, heap) => some (.error e, heap)
    | some (.ok resolved, heap) =>
      match resolve_objects session memory (i + 1) heap objects with
      | none => none
      | some (.error e, heap) => some (.error e, heap)
      | some (.ok rest, heap) => some (.ok (resolved :: rest), heap)

/-- The receiver is given its own node, or a handle that is remembered for the rollback. -/
def install_transaction_object (resolved : Resolved) :
    Except TransferError (Rewrite × Option Rollback) × Session × Heap :=
  if resolved.node.owner = session.owner then
    (.ok (write_node resolved.offset resolved.strength resolved.flags resolved.node.pointer
      (cookie heap resolved.node), none), session, heap)
  else
    match session.references.retain heap resolved.node resolved.strength with
    | (.error e, references, heap) =>
      (.error (.ReceiverReference e), { session with references := references }, heap)
    | (.ok (handle, _, _), references, heap) =>
      (.ok (write_handle resolved.offset resolved.strength resolved.flags handle,
        some ⟨handle, resolved.strength⟩), { session with references := references }, heap)

def install_remote_object (receiver : ConnectionToken) (session : Session) (heap : Heap)
    (object : ManifestObject) :
    Except RemoteError (Rewrite × Option Rollback) × Session × Heap :=
  if object.node.owner = receiver then
    match heap.lookup_local session.owner object.node.localNode with
    | .error e => (.error (.ReceiverNode e), session, heap)
    | .ok node =>
      (.ok (write_node object.offset object.strength object.flags node.pointer
        (cookie heap node), none), session, heap)
  else
    match session.references.retain_remote heap object.node object.strength with
    | (.error e, references, heap) =>
      (.error (.ReceiverReference e), { session with references := references }, heap)
    | (.ok (handle, _, _), references, heap) =>
      (.ok (write_handle object.offset object.strength object.flags handle,
        some ⟨handle, object.strength⟩), { session with references := references }, heap)

def rollback_transaction_object (rollback : Rollback) :
    Except TransferError Unit × Session × Heap :=
  match session.references.decrement heap rollback.handle rollback.strength with
  | (.error e, references, heap) =>
    (.error (.ReceiverReference e), { session with references := references }, heap)
  | (.ok _, references, heap) => (.ok (), { session with references := references }, heap)

/-- The loop of `rollback_objects`, up to the first that fails. -/
def rollback_each (session : Session) (heap : Heap) :
    List Rollback → Except Error Unit × Session × Heap
  | [] => (.ok (), session, heap)
  | rollback :: rollbacks =>
    match rollback_transaction_object session heap rollback with
    | (.error e, session, heap) => (.error (.ObjectTransfer e), session, heap)
    | (.ok (), session, heap) => rollback_each session heap rollbacks

/-- `rollback_objects`: in reverse. -/
def rollback_objects (rollbacks : List Rollback) : Except Error Unit × Session × Heap :=
  rollback_each session heap rollbacks.reverse

end

/-- The loop over the objects, with what it has pushed so far. An object that cannot be
installed takes back those before it. -/
def install_objects {α ε : Type}
    (install : Session → Heap → α → Except ε (Rewrite × Option Rollback) × Session × Heap)
    (fail : ε → Error) (session : Session) (heap : Heap) (rewrites : List Rewrite)
    (rollbacks : List Rollback) :
    List α → Except Error (List Rewrite × List Rollback) × Session × Heap
  | [] => (.ok (rewrites, rollbacks), session, heap)
  | object :: objects =>
    match install session heap object with
    | (.error e, session, heap) =>
      match rollback_objects session heap rollbacks with
      | (.error e, session, heap) => (.error e, session, heap)
      | (.ok (), session, heap) => (.error (fail e), session, heap)
    | (.ok (rewrite, rollback), session, heap) =>
      install_objects install fail session heap (rewrites ++ [rewrite])
        (rollbacks ++ rollback.toList) objects

/-- The kinds that `validate_supported` lets pass. -/
def supported : Kind → Bool
  | .Binder | .WeakBinder | .Handle | .WeakHandle => true
  | _ => false

def validate_supported (objects : List Object) : Except TransferError Unit :=
  match objects.find? fun object => ¬ supported object.kind with
  | some object => .error (.Unsupported object.kind)
  | none => .ok ()

/-- `validate_delivery_objects`: a descriptor may be delivered as well. -/
def validate_delivery_objects (objects : List Object) : Except RemoteError Unit :=
  match objects.find? fun object => ¬ (supported object.kind ∨ object.kind = .Fd) with
  | some object => .error (.Unsupported object.kind)
  | none => .ok ()

/-! ## Publication -/

namespace Connection

/-- The end of all three: the entry is enqueued, or what was installed is taken back. -/
def publish (self : Connection) (session : Session) (queue : ReceiveQueue) (heap : Heap)
    (payload : TransactionPayload) (header : Header) (rewrites : List Rewrite)
    (rollbacks : List Rollback) (route : Route) (memory : Memory) :
    Option (Except Error ℕ × Connection × Heap) :=
  match queue.enqueue_routed payload header rewrites route memory.pending with
  | some (.Enqueued (.ok address), queue) =>
    some (.ok address, { self with session := some session, transactions := some queue }, heap)
  | some (.Enqueued (.error e), queue) =>
    match rollback_objects session heap rollbacks with
    | (.error e, session, heap) =>
      some (.error e, { self with session := some session, transactions := some queue }, heap)
    | (.ok (), session, heap) =>
      some (.error (.TransactionQueue e),
        { self with session := some session, transactions := some queue }, heap)
  | _ => none

def enqueue_translated_from (self : Connection) (heap : Heap) (sender : Connection)
    (snapshot : TransactionPayload) (header : Header) (route : Route) (memory : Memory) :
    Option (Except Error ℕ × Connection × Heap) :=
  if sender.id = self.id then some (.error .WrongOwner, self, heap)
  else
    match validate snapshot.data snapshot.offsets with
    | .error e => some (.error (.ObjectTransfer (.Objects e)), self, heap)
    | .ok objects =>
      match validate_supported objects with
      | .error e => some (.error (.ObjectTransfer e), self, heap)
      | .ok () =>
        if ¬ memory.resolved then some (.error .OutOfMemory, self, heap)
        else
          match sender.session with
          | none => some (.error .Closed, self, heap)
          | some sender_session =>
            match resolve_objects sender_session memory.nodes 0 heap objects with
            | none => none
            | some (.error e, heap) => some (.error (.ObjectTransfer e), self, heap)
            | some (.ok resolved, heap) =>
              match self.session with
              | none => some (.error .Closed, self, heap)
              | some session =>
                if ¬ memory.rewrites then some (.error .OutOfMemory, self, heap)
                else if ¬ memory.rollbacks then some (.error .OutOfMemory, self, heap)
                else
                  match self.transactions with
                  | none => some (.error .MappingNotInstalled, self, heap)
                  | some queue =>
                    match install_objects install_transaction_object .ObjectTransfer session heap
                      [] [] resolved with
                    | (.error e, session, heap) =>
                      some (.error e, { self with session := some session }, heap)
                    | (.ok (rewrites, rollbacks), session, heap) =>
                      self.publish session queue heap snapshot header rewrites rollbacks route
                        memory

/-- What `enqueue_remote_transaction` and `enqueue_remote_reply` check first. -/
def check_delivery (payload : Image) : Except Error Unit :=
  match validate payload.sections.data payload.sections.offsets with
  | .error e => .error (.ObjectTransfer (.Objects e))
  | .ok objects =>
    match validate_delivery_objects objects with
    | .error e => .error (.ObjectTransfer (.Remote e))
    | .ok () => .ok ()

/-- What they share from there on. The mapping is looked for after the objects are installed. -/
def enqueue_remote (self : Connection) (session : Session) (heap : Heap) (payload : Image)
    (receiver : ConnectionToken) (header : Header) (route : Route) (files : List Rewrite)
    (memory : Memory) : Option (Except Error ℕ × Connection × Heap) :=
  if ¬ memory.files then some (.error .OutOfMemory, self, heap)
  else if ¬ memory.rewrites then some (.error .OutOfMemory, self, heap)
  else if ¬ memory.rollbacks then some (.error .OutOfMemory, self, heap)
  else
    match install_objects (install_remote_object receiver) (fun e => .ObjectTransfer (.Remote e))
      session heap files [] payload.objects_manifest with
    | (.error e, session, heap) => some (.error e, { self with session := some session }, heap)
    | (.ok (rewrites, rollbacks), session, heap) =>
      match self.transactions with
      | none =>
        some (.error .MappingNotInstalled, { self with session := some session }, heap)
      | some queue =>
        self.publish session queue heap payload.sections header rewrites rollbacks route memory

def enqueue_remote_transaction (self : Connection) (heap : Heap) (payload : Image)
    (receiver : ConnectionToken) (remote : RemoteTransaction) (files : List Rewrite)
    (memory : Memory) : Option (Except Error ℕ × Connection × Heap) :=
  match check_delivery payload with
  | .error e => some (.error e, self, heap)
  | .ok () =>
    match self.session with
    | none => some (.error .Closed, self, heap)
    | some session =>
      match heap.lookup_local session.owner remote.target with
      | .error _ => some (.error .WrongOwner, self, heap)
      | .ok node =>
        self.enqueue_remote session heap payload receiver
          { reply := false
            target_pointer := node.pointer
            target_cookie := cookie heap node
            code := remote.code
            flags := remote.flags
            sender_pid := remote.sender_pid
            sender_euid := remote.sender_euid }
          { call := remote.call.map CallId.Remote
            target_thread := none
            deferred_completion := false } files memory

def enqueue_remote_reply (self : Connection) (heap : Heap) (payload : Image)
    (receiver : ConnectionToken) (remote : RemoteReply) (files : List Rewrite)
    (memory : Memory) : Option (Except Error ℕ × Connection × Heap) :=
  match check_delivery payload with
  | .error e => some (.error e, self, heap)
  | .ok () =>
    match self.session with
    | none => some (.error .Closed, self, heap)
    | some session =>
      self.enqueue_remote session heap payload receiver
        { reply := true
          target_pointer := 0
          target_cookie := 0
          code := remote.code
          flags := remote.flags
          sender_pid := remote.sender_pid
          sender_euid := remote.sender_euid }
        { call := some (.Remote remote.call)
          target_thread := some remote.target_thread
          deferred_completion := true } files memory

end Connection

/-- The three ways in. -/
inductive Call
  | translated (sender : Connection) (snapshot : TransactionPayload) (header : Header)
      (route : Route)
  | remote_transaction (payload : Image) (receiver : ConnectionToken)
      (remote : RemoteTransaction) (files : List Rewrite)
  | remote_reply (payload : Image) (receiver : ConnectionToken) (remote : RemoteReply)
      (files : List Rewrite)

/-- One call on a receiver. -/
def Connection.perform (self : Connection) (heap : Heap) (memory : Memory) :
    Call → Option (Except Error ℕ × Connection × Heap)
  | .translated sender snapshot header route =>
    self.enqueue_translated_from heap sender snapshot header route memory
  | .remote_transaction payload receiver remote files =>
    self.enqueue_remote_transaction heap payload receiver remote files memory
  | .remote_reply payload receiver remote files =>
    self.enqueue_remote_reply heap payload receiver remote files memory

/-! ## What a publication is to leave -/

/-- `remote_tables` and `strong_tables` of a node. A node that has just been made has none. -/
def tables (heap : Heap) (node : NodeKey) : ℕ × ℕ :=
  ((heap.lifecycle node).map fun state => (state.remote_tables, state.strong_tables)).getD (0, 0)

/-- Nothing in the queue has changed, nor in its arena. -/
def SameQueue : Option ReceiveQueue → Option ReceiveQueue → Prop
  | none, none => True
  | some q, some q' => q'.queue = q.queue ∧ q.arena.Restored q'.arena
  | _, _ => False

/-- **Nothing**: handles, counts, the nodes' counters, the arena and the queue are what they
were. -/
structure Kept (c : Connection) (heap : Heap) (c' : Connection) (heap' : Heap) : Prop where
  session : c'.session = c.session
  nodes : ∀ node, tables heap' node = tables heap node
  queue : SameQueue c.transactions c'.transactions

/-- **All**: one entry is added to the queue, and one reference for each of these. -/
structure Published (transferred : List (Target × Strength)) (address : ℕ) (c c' : Connection) :
    Prop where
  references : ∃ session session', c.session = some session ∧ c'.session = some session' ∧
    session'.owner = session.owner ∧ ∀ target strength,
      (session'.references.held target).count strength =
        (session.references.held target).count strength + transferred.count (target, strength)
  entry : ∃ q q' entry, c.transactions = some q ∧ c'.transactions = some q' ∧
    q'.queue = { q.queue with pending := q.queue.pending ++ [entry] } ∧
    entry.allocation.buffer_address = address

/-- The node that an object of the sender stands for. -/
def referenced (sender : Session) (object : Object) : Option (NodeKey × Strength) :=
  match object.contents with
  | .Node weak _ pointer _ => some (⟨sender.owner, pointer⟩, strength weak)
  | .Handle weak _ handle _ =>
    match sender.references.entries[handle.toNat]? with
    | some ⟨.Local node, _⟩ => some (node, strength weak)
    | _ => none
  | _ => none

/-- The reference that a receiver is to get to a node: none to its own. -/
def local_reference (owner : ℕ) (node : NodeKey × Strength) : Option (Target × Strength) :=
  if node.1.owner = owner then none else some (.Local node.1, node.2)

/-- The same for an entry of a manifest. -/
def remote_reference (receiver : ConnectionToken) (object : ManifestObject) :
    Option (Target × Strength) :=
  if object.node.owner = receiver then none else some (.Remote object.node, object.strength)

/-- The references that a call transfers to its receiver. -/
def Call.transferred (self : Connection) : Call → List (Target × Strength)
  | .translated sender snapshot _ _ =>
    match self.session, sender.session, validate snapshot.data snapshot.offsets with
    | some session, some sender_session, .ok objects =>
      (objects.filterMap (referenced sender_session)).filterMap (local_reference session.owner)
    | _, _, _ => []
  | .remote_transaction payload receiver _ _ =>
    payload.objects_manifest.filterMap (remote_reference receiver)
  | .remote_reply payload receiver _ _ =>
    payload.objects_manifest.filterMap (remote_reference receiver)

/-- What is returned fits what is left: nothing with an error, all with an address. -/
def Settles (transferred : List (Target × Strength)) (self : Connection) (heap : Heap) :
    Except Error ℕ × Connection × Heap → Prop
  | (.error _, self', heap') => Kept self heap self' heap'
  | (.ok address, self', _) => Published transferred address self self'

/-- The call returns, and has done everything or nothing. -/
def AllOrNothing (self : Connection) (heap : Heap) (memory : Memory) (call : Call) : Prop :=
  ∃ outcome, self.perform heap memory call = some outcome ∧
    Settles (call.transferred self) self heap outcome

/-- What the types of a connection keep. -/
structure Connection.Wf (c : Connection) : Prop where
  references : ∀ session, c.session = some session → session.references.Wf
  queue : ∀ q, c.transactions = some q → q.Inv

/-! ## Resolving leaves the counters alone -/

section Resolve

variable {heap heap' : Heap}

theorem tables_of_nodes (h : heap'.nodes = heap.nodes) (node : NodeKey) :
    tables heap' node = tables heap node := by
  unfold tables Heap.lifecycle
  rw [h]

/-- A write that keeps the two counters of its node. -/
theorem tables_set {key : NodeKey} {state state' : Lifecycle} (hstate : heap.lifecycle key = some state)
    (hremote : state'.remote_tables = state.remote_tables)
    (hstrong : state'.strong_tables = state.strong_tables) (node : NodeKey) :
    tables ((heap.set_lifecycle key state').schedule key) node = tables heap node := by
  unfold tables
  rw [Heap.lifecycle_schedule, Heap.lifecycle_set_lifecycle]
  split
  · next heq =>
    rw [← heq, hstate, Option.map_some, Option.map_some, Option.map_some, hremote, hstrong]
  · rfl

theorem resolve_tables (heap : Heap) (owner : ℕ) (object : Objects.Fields) (memory : Heap.ResolveMemory)
    (node : NodeKey) : tables (heap.resolve owner object memory).2 node = tables heap node := by
  rcases heap.resolve_cases owner object memory with ⟨r, hr⟩ | ⟨_, _, f, hok, -, hnone, hnew, -⟩
  · rw [hr]
  · rw [hok]
    unfold tables
    rw [Heap.lifecycle_set_owner, Heap.lifecycle_with_node]
    split
    · next heq =>
      rw [← heq, hnone, hnew]
      rfl
    · rfl

/-- The hold of a lookup can be dropped, and is. -/
theorem hold_dropped {key : NodeKey} {hold : LocalHold} {kind : HoldKind}
    (h : heap.hold key kind = (.ok hold, heap')) :
    hold.node = key ∧ (∀ node, tables heap' node = tables heap node) ∧
      ∃ heap'', heap'.drop_hold hold = some heap'' ∧ ∀ node, tables heap'' node = tables heap node := by
  rcases heap.hold_cases key kind with ⟨e, he⟩ | ⟨state, count, hstate, hcount, hok⟩
  · rw [he] at h
    cases h
  rw [hok] at h
  obtain ⟨hhold, rfl⟩ := Prod.mk.inj h
  cases hhold
  have hcounters := Lifecycle.set_local_count_tables state kind count
  have hsame := tables_set hstate hcounters.1 hcounters.2
  refine ⟨rfl, hsame, ?_⟩
  have hstate' : ((heap.set_lifecycle key (state.set_local_count kind count)).schedule key).lifecycle
      key = some (state.set_local_count kind count) := by
    rw [Heap.lifecycle_schedule]
    exact Heap.lifecycle_set_self hstate
  have hlocal : (state.set_local_count kind count).local_count kind = count := by
    cases kind <;> rfl
  have hsub : checked_sub count 1 = some (count - 1) := by
    have := (bounded_succ_eq_some.mp hcount).1
    exact checked_sub_eq_some.mpr ⟨by omega, by omega⟩
  simp only [Heap.drop_hold, hstate', hlocal, hsub]
  refine ⟨_, rfl, fun _ => ?_⟩
  have hcounters' := Lifecycle.set_local_count_tables (state.set_local_count kind count) kind (count - 1)
  rw [tables_set hstate' hcounters'.1 hcounters'.2, hsame]

/-- **An object of the sender stands for its node**, and finding it changes no counter. -/
theorem resolve_transaction_object_spec (session : Session) (heap : Heap) (object : Object)
    (memory : Heap.ResolveMemory) :
    ∃ result heap', resolve_transaction_object session heap object memory = some (result, heap') ∧
      (∀ node, tables heap' node = tables heap node) ∧
      ∀ resolved, result = .ok resolved →
        referenced session object = some (resolved.node, resolved.strength) := by
  unfold resolve_transaction_object referenced
  cases object.contents with
  | Node weak flags pointer cookie =>
    dsimp only
    have htables := resolve_tables heap session.owner (.Node weak flags pointer cookie) memory
    split
    · next e heap' heq =>
      rw [heq] at htables
      exact ⟨_, _, rfl, htables, fun _ h => nomatch h⟩
    · next node heap' heq =>
      rw [heq] at htables
      refine ⟨_, _, rfl, htables, fun resolved h => ?_⟩
      rw [← Except.ok.inj h, Heap.resolve_eq_ok heq]
  | Handle weak _ handle =>
    dsimp only
    unfold lookup resolve
    cases hentry : session.references.entries[handle.toNat]? with
    | none => exact ⟨_, _, rfl, fun _ => rfl, fun _ h => nomatch h⟩
    | some reference =>
      obtain ⟨target, counts⟩ := reference
      dsimp only
      by_cases hstrong : strength weak = .Strong ∧ counts.strong = 0
      · rw [if_pos hstrong]
        exact ⟨_, _, rfl, fun _ => rfl, fun _ h => nomatch h⟩
      rw [if_neg hstrong]
      cases target with
      | Remote => exact ⟨_, _, rfl, fun _ => rfl, fun _ h => nomatch h⟩
      | Local node =>
        dsimp only
        cases hhold : heap.hold node .Temporary with
        | mk result =>
          cases result with
          | error =>
            rcases heap.hold_cases node .Temporary with ⟨_, he⟩ | ⟨_, _, -, -, hok⟩
            · rw [hhold] at he
              rw [(Prod.mk.inj he).2]
              exact ⟨_, _, rfl, fun _ => rfl, fun _ h => nomatch h⟩
            · rw [hhold] at hok
              exact nomatch hok
          | ok =>
            obtain ⟨hnode, -, _, hdrop, hsame⟩ := hold_dropped hhold
            dsimp only
            rw [hdrop]
            refine ⟨_, _, rfl, hsame, fun resolved h => ?_⟩
            rw [← Except.ok.inj h, hnode]
  | _ => exact ⟨_, _, rfl, fun _ => rfl, fun _ h => nomatch h⟩

/-- The same for all objects. -/
theorem resolve_objects_spec (session : Session) (memory : ℕ → Heap.ResolveMemory)
    (objects : List Object) (i : ℕ) (heap : Heap) :
    ∃ result heap', resolve_objects session memory i heap objects = some (result, heap') ∧
      (∀ node, tables heap' node = tables heap node) ∧
      ∀ resolved, result = .ok resolved → objects.filterMap (referenced session) =
        resolved.map fun object => (object.node, object.strength) := by
  induction objects generalizing i heap with
  | nil =>
    refine ⟨_, _, rfl, fun _ => rfl, fun resolved h => ?_⟩
    cases h
    rfl
  | cons object _ ih =>
    obtain ⟨result, heap₁, hfirst, hsame₁, hnode⟩ :=
      resolve_transaction_object_spec session heap object (memory i)
    unfold resolve_objects
    rw [hfirst]
    cases result with
    | error => exact ⟨_, _, rfl, hsame₁, fun _ h => nomatch h⟩
    | ok first =>
      obtain ⟨result, heap₂, hrest, hsame₂, hnodes⟩ := ih (i + 1) heap₁
      have hsame : ∀ node, tables heap₂ node = tables heap node :=
        fun node => (hsame₂ node).trans (hsame₁ node)
      dsimp only
      rw [hrest]
      cases result with
      | error => exact ⟨_, _, rfl, hsame, fun _ h => nomatch h⟩
      | ok rest =>
        refine ⟨_, _, rfl, hsame, fun resolved h => ?_⟩
        rw [← Except.ok.inj h, List.filterMap_cons, hnode first rfl, List.map_cons]
        exact congrArg _ (hnodes rest rfl)

end Resolve

/-! ## Installing, and taking back -/

section Install

variable {session session₀ : Session} {heap heap₀ : Heap}

/-- From here the rollbacks lead back to where the installation began, whatever is scheduled
meanwhile. -/
def Revocable (session₀ : Session) (heap₀ : Heap) (session : Session) (heap : Heap)
    (rollbacks : List Rollback) : Prop :=
  ∀ now, now.nodes = heap.nodes → ∃ heap', rollback_objects session now rollbacks =
    (.ok (), session₀, heap') ∧ heap'.nodes = heap₀.nodes

theorem Revocable.nil (session : Session) (heap : Heap) : Revocable session heap session heap [] :=
  fun now hnow => ⟨now, rfl, hnow⟩

/-- **One installation**: it fails and changes nothing, finds an object of the receiver's own,
or retains one reference. -/
inductive Installs (reference : Option (Target × Strength)) (session : Session) (heap : Heap) :
    Option (Option Rollback) → Session → Heap → Prop
  | failed : Installs reference session heap none session heap
  | own (hown : reference = none) : Installs reference session heap (some none) session heap
  | retained {target : Target} {strength : Strength} {handle : ℕ} {before after : Counts}
      {references : ReferenceTable} {heap' : Heap} (href : reference = some (target, strength))
      (hretain : session.references.retain_from heap target strength 1 =
        (.ok (handle, before, after), references, heap')) :
      Installs reference session heap (some (some ⟨handle, strength⟩))
        { session with references := references } heap'

/-- The rollback that an installation asks for. -/
def asked {ε : Type} : Except ε (Rewrite × Option Rollback) → Option (Option Rollback)
  | .error _ => none
  | .ok (_, rollback) => some rollback

variable {heap' : Heap} {transferred : List (Target × Strength)}

/-- A reference that cannot be retained changes nothing. -/
theorem retain_from_error {table table' : ReferenceTable} {target : Target} {strength : Strength}
    {e : ReferenceTable.Error}
    (h : table.retain_from heap target strength 1 = (.error e, table', heap')) :
    table' = table ∧ heap' = heap := by
  rcases retain_from_cases table heap target strength 1 with ⟨_, he⟩ |
    ⟨_, _, _, _, _, hok, -⟩
  · rw [he] at h
    obtain ⟨-, hpair⟩ := Prod.mk.inj h
    cases hpair
    exact ⟨rfl, rfl⟩
  · rw [hok] at h
    cases h

theorem install_transaction_object_spec (session : Session) (heap : Heap) (resolved : Resolved) :
    Installs (local_reference session.owner (resolved.node, resolved.strength)) session heap
      (asked (install_transaction_object session heap resolved).1)
      (install_transaction_object session heap resolved).2.1
      (install_transaction_object session heap resolved).2.2 := by
  unfold install_transaction_object local_reference retain
  by_cases hown : resolved.node.owner = session.owner
  · rw [if_pos hown, if_pos hown]
    exact .own rfl
  rw [if_neg hown, if_neg hown]
  split
  · next e references heap' heq =>
    obtain ⟨rfl, rfl⟩ := retain_from_error heq
    exact .failed
  · next handle before after references heap' heq => exact .retained rfl heq

theorem install_remote_object_spec (receiver : ConnectionToken) (session : Session) (heap : Heap)
    (object : ManifestObject) :
    Installs (remote_reference receiver object) session heap
      (asked (install_remote_object receiver session heap object).1)
      (install_remote_object receiver session heap object).2.1
      (install_remote_object receiver session heap object).2.2 := by
  unfold install_remote_object remote_reference retain_remote
  by_cases hown : object.node.owner = receiver
  · rw [if_pos hown, if_pos hown]
    split
    · exact .failed
    · exact .own rfl
  rw [if_neg hown, if_neg hown]
  split
  · next e references heap' heq =>
    obtain ⟨rfl, rfl⟩ := retain_from_error heq
    exact .failed
  · next handle before after references heap' heq => exact .retained rfl heq

variable {rollbacks : List Rollback}

/-- A retained reference is the first that a rollback takes back. -/
theorem Revocable.retained {target : Target} {strength : Strength}
    {handle : ℕ} {before after : Counts} {references : ReferenceTable}
    (h : Revocable session₀ heap₀ session heap rollbacks) (hwf : session.references.Wf)
    (hretain : session.references.retain_from heap target strength 1 =
      (.ok (handle, before, after), references, heap')) :
    Revocable session₀ heap₀ { session with references := references } heap'
      (rollbacks ++ [⟨handle, strength⟩]) := by
  intro now hnow
  obtain ⟨_, heap₁, hundo, hnodes⟩ :=
    retain_from_undo hwf hretain hnow
  obtain ⟨heap₂, hback, hnodes₂⟩ := h heap₁ hnodes
  refine ⟨heap₂, ?_, hnodes₂⟩
  unfold rollback_objects at hback ⊢
  rw [List.reverse_append, List.reverse_singleton, List.singleton_append]
  unfold rollback_each rollback_transaction_object
  rwa [hundo]

/-- What the loop over the objects has done so far. -/
structure Installed (session₀ : Session) (heap₀ : Heap) (transferred : List (Target × Strength))
    (session : Session) (heap : Heap) (rollbacks : List Rollback) : Prop where
  owner : session.owner = session₀.owner
  wf : session.references.Wf
  revocable : Revocable session₀ heap₀ session heap rollbacks
  held : ∀ target strength, (session.references.held target).count strength =
    (session₀.references.held target).count strength + transferred.count (target, strength)
  length : rollbacks.length = transferred.length

theorem Installed.nil (heap : Heap) (h : session.references.Wf) :
    Installed session heap [] session heap [] :=
  ⟨rfl, h, .nil session heap, fun _ _ => rfl, rfl⟩

/-- One more object. -/
theorem Installed.step {reference : Option (Target × Strength)} {rollback : Option Rollback}
    {session' : Session} (h : Installed session₀ heap₀ transferred session heap rollbacks)
    (hstep : Installs reference session heap (some rollback) session' heap') :
    Installed session₀ heap₀ (transferred ++ reference.toList) session' heap'
      (rollbacks ++ rollback.toList) := by
  cases hstep with
  | own hown =>
    rwa [hown, Option.toList_none, Option.toList_none, List.append_nil, List.append_nil]
  | @retained target strength handle before after references _ href hretain =>
    rw [href]
    have hwf := h.wf.retain_from heap target strength 1
    rw [hretain] at hwf
    refine ⟨h.owner, hwf, h.revocable.retained h.wf hretain, fun other s => ?_, ?_⟩
    · rw [retain_from_held h.wf hretain, h.held, List.count_append, Nat.add_assoc]
      congr 2
      show _ = List.count (other, s) [(target, strength)]
      rw [List.count_singleton]
      simp only [beq_iff_eq]
    · rw [List.length_append, List.length_append, h.length]
      rfl

/-- **The loop installs every object, or takes all of them back.** -/
theorem install_objects_spec {α ε : Type}
    {install : Session → Heap → α → Except ε (Rewrite × Option Rollback) × Session × Heap}
    {reference : α → Option (Target × Strength)} {owner : ℕ}
    (hinstall : ∀ session heap object, session.owner = owner →
      Installs (reference object) session heap (asked (install session heap object).1)
        (install session heap object).2.1 (install session heap object).2.2)
    (fail : ε → Error) (howner : session₀.owner = owner) (objects : List α)
    (rewrites : List Rewrite) (h : Installed session₀ heap₀ transferred session heap rollbacks) :
    match install_objects install fail session heap rewrites rollbacks objects with
    | (.error _, session', heap') => session' = session₀ ∧ heap'.nodes = heap₀.nodes
    | (.ok (_, rollbacks'), session', heap') =>
      Installed session₀ heap₀ (transferred ++ objects.filterMap reference) session' heap'
        rollbacks' := by
  induction objects generalizing session heap transferred rewrites rollbacks with
  | nil =>
    rwa [List.filterMap_nil, List.append_nil]
  | cons object objects ih =>
    have hone := hinstall session heap object (h.owner.trans howner)
    unfold install_objects
    cases hresult : install session heap object with
    | mk result rest =>
      obtain ⟨_, _⟩ := rest
      rw [hresult] at hone
      cases result with
      | error =>
        dsimp only [asked] at hone ⊢
        cases hone
        obtain ⟨_, hback, hnodes⟩ := h.revocable heap rfl
        rw [hback]
        exact ⟨rfl, hnodes⟩
      | ok installed =>
        obtain ⟨rewrite, _⟩ := installed
        dsimp only [asked] at hone ⊢
        have hnext := ih (rewrites ++ [rewrite]) (h.step hone)
        have hlist : transferred ++ (reference object).toList ++ objects.filterMap reference =
            transferred ++ (object :: objects).filterMap reference := by
          rw [List.filterMap_cons, List.append_assoc]
          cases reference object <;> rfl
        rwa [hlist] at hnext

/-- Where no reference was asked for, nothing has been installed. -/
theorem Installed.none (h : Installed session₀ heap₀ [] session heap rollbacks) :
    session = session₀ ∧ heap.nodes = heap₀.nodes := by
  have hnil : rollbacks = [] := List.eq_nil_of_length_eq_zero h.length
  obtain ⟨_, hback, hnodes⟩ := h.revocable heap rfl
  rw [hnil] at hback
  obtain ⟨-, hpair⟩ := Prod.mk.inj hback
  obtain ⟨hsession, hheap⟩ := Prod.mk.inj hpair
  rw [← hheap] at hnodes
  exact ⟨hsession, hnodes⟩

end Install

end DarwinArt.Binder.Publication
