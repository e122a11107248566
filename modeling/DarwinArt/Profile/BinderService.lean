/-
The Binder service of the profile daemon: `binder_service.rs`, its `descriptor_authority.rs` and
the table of transfers, `binder_transfer.rs`.

Every process that uses Binder has a connection to the daemon, and the daemon has a thread for it
(`serve`). The thread reads the requests of its process, asks the routing authority, and puts the
answers into the connection's outbox, which a writer empties into the socket. Messages to other
connections are dispatched to their outboxes. The payload of a transaction is deposited before
the transaction is routed, and taken by the connection it is routed to.

What the authority decides, what the table says and what is sent are under three locks, and no
lock is held from one to the next but where a transfer is routed. Hence a thread's work is a
sequence of steps (`Phase`), and the steps of different threads come in any order.

## What is modelled

`serve`, `handle_message`, `enqueue`, `dispatch`, `disconnect` and `remove` with one step for each
critical section and each send; `deposit`, `prepare_take` and `cancel_unrouted_transfer`, which are
one step each. An outbox is the list of all messages it has accepted, and a full outbox makes its
sender wait, which is to say that the send comes later. A writer may end at any time, and then its
outbox accepts nothing more.

A thread is named by the connection it serves, and its session is the one of that connection. A
bundle of descriptors is a number, the count of the deposits before it. The answers of the
allocator, of the import of a carrier and of the authority for descriptors are arguments. What that
authority is told about is left out, and so are sockets, locks that are poisoned and texts of
errors. The search for a transfer to remove may find any that it looks for.
-/
import DarwinArt.Binder.RoutingCalls

set_option autoImplicit false

namespace DarwinArt.Profile

open Lib Binder Binder.RoutingAuthority

/-! ## The table of transfers -/

/-- `Key`. -/
@[ext]
structure TransferKey where
  source : ConnectionToken
  token : TransferToken
deriving DecidableEq

instance : Key TransferKey where
  code k := [k.source.raw, k.token.raw]
  code_injective := by
    intro a b h
    simp only [List.cons.injEq, and_true] at h
    exact TransferKey.ext (Token.ext h.1) (Token.ext h.2)

structure Entry where
  destination : Option ConnectionToken
  descriptors : ℕ
deriving DecidableEq

structure TransferTable where
  entries : Map TransferKey Entry

def MAX_TRANSFERS_PER_SOURCE : ℕ := 256

/-- `binder_transfer::Error`. -/
inductive TransferError
  | Duplicate
  | SourceLimit
  | Unknown
  | NotRouted
  | WrongDestination
  | InvalidCarrier
  | OutOfMemory
deriving DecidableEq

namespace TransferTable

section

variable (t : TransferTable) (key : TransferKey)

/-- `prepare_deposit`. The import of the carrier comes first; its result is an argument. -/
def prepare_deposit (imported : Except TransferError Unit)
    (memory : Bool) : Except TransferError Unit :=
  match imported with
  | .error e => .error e
  | .ok () =>
    if t.entries.contains key then .error .Duplicate
    else if MAX_TRANSFERS_PER_SOURCE ≤
        (t.entries.keys.filter fun k => k.source = key.source).length then .error .SourceLimit
    else if ¬ memory then .error .OutOfMemory
    else .ok ()

def install_deposit (descriptors : ℕ) : TransferTable :=
  ⟨t.entries.insert key ⟨none, descriptors⟩⟩

/-- `ensure_pending`, with the entry that is pending. -/
def ensure_pending : Except TransferError Entry :=
  match t.entries[key]? with
  | some ⟨none, descriptors⟩ => .ok ⟨none, descriptors⟩
  | some _ => .error .NotRouted
  | none => .error .Unknown

def route (destination : ConnectionToken) : Except TransferError TransferTable :=
  match t.entries[key]? with
  | none => .error .Unknown
  | some entry =>
    if entry.destination.isSome then .error .NotRouted
    else .ok ⟨t.entries.insert key { entry with destination := some destination }⟩

def discard_pending : Except TransferError TransferTable :=
  match t.ensure_pending key with
  | .error e => .error e
  | .ok _ => .ok ⟨t.entries.erase key⟩

/-- `cancel_unrouted`. What it returns is for the authority of the descriptors. -/
def cancel_unrouted : TransferTable :=
  match t.entries[key]? with
  | some ⟨none, _⟩ => ⟨t.entries.erase key⟩
  | _ => t

end

/-- `verify_take`, and the check of `take`. -/
def verify_take (t : TransferTable) (destination : ConnectionToken) (key : TransferKey) :
    Except TransferError ℕ :=
  match t.entries[key]? with
  | none => .error .Unknown
  | some ⟨none, _⟩ => .error .NotRouted
  | some ⟨some expected, descriptors⟩ =>
    if expected ≠ destination then .error .WrongDestination else .ok descriptors

def take (t : TransferTable) (destination : ConnectionToken) (key : TransferKey) :
    Except TransferError (ℕ × TransferTable) :=
  match t.verify_take destination key with
  | .error e => .error e
  | .ok descriptors => .ok (descriptors, ⟨t.entries.erase key⟩)

/-- What `remove_next_connection_transfer` looks for. -/
def unreachable (connection : ConnectionToken) (key : TransferKey) (entry : Entry) : Bool :=
  entry.destination = some connection ∨ (key.source = connection ∧ entry.destination = none)

/-- `remove_next_connection_transfer` where it finds `key`. -/
def remove_next_connection_transfer (t : TransferTable) (connection : ConnectionToken)
    (key : TransferKey) : Option TransferTable :=
  match t.entries[key]? with
  | none => none
  | some entry => if unreachable connection key entry then some ⟨t.entries.erase key⟩ else none

/-- `remove_next_connection_transfer` finds nothing. -/
def clean (t : TransferTable) (connection : ConnectionToken) : Bool :=
  t.entries.toList.all fun (key, entry) => !unreachable connection key entry

end TransferTable

/-! ## The service and its threads -/

structure Endpoint where
  peer : PeerIdentity
deriving DecidableEq

/-- What a `remove` returns to: the one of `disconnect`, or one of `dispatch`, with the messages
that are pending there and, where `disconnect` has called it, those it has still to dispatch. -/
inductive Frame
  | Disconnect
  | Dispatch (pending : List Outbound) (rest : Option (List Outbound))
deriving DecidableEq

/-- Where the thread of a connection is. -/
inductive Phase
  /-- the connection is open, and `ConnectionOpened` is to be sent -/
  | Opening (response : Message)
  | Serving
  /-- the answer to a request is to be sent -/
  | Answering (response : Message)
  /-- a transaction or a reply is routed; it is to be acknowledged, and then to be delivered -/
  | Acking (acknowledgement : Message) (delivery : Outbound)
  /-- at the head of the loop of `dispatch`; the top of the stack comes first -/
  | Dispatching (pending : List Outbound) (rest : Option (List Outbound))
  /-- the sender of the destination is known -/
  | Sending (outbound : Outbound) (pending : List Outbound) (rest : Option (List Outbound))
  /-- in `remove` of a connection, which may be any -/
  | Removing (connection : ConnectionToken) (frame : Frame)
  /-- its endpoint is gone, and its transfers are being removed -/
  | Purging (connection : ConnectionToken) (frame : Frame)
  /-- its transfers are gone, and the authority is to be told -/
  | Closing (connection : ConnectionToken) (frame : Frame)
deriving DecidableEq

def Phase.disconnect (connection : ConnectionToken) : Phase := .Removing connection .Disconnect

/-- `remove` returns its notifications. -/
def Frame.resume (notifications : List Outbound) : Frame → Phase
  | .Disconnect => .Dispatching [] (some notifications)
  | .Dispatch pending rest => .Dispatching (notifications.reverse ++ pending) rest

/-- `BinderService` with the outboxes, the writers that have ended, the threads and the count of
the deposits. -/
structure BinderService where
  authority : RoutingAuthority
  endpoints : Map ConnectionToken Endpoint
  transfers : TransferTable
  outbox : ConnectionToken → List Message
  dead : ConnectionToken → Bool
  threads : Map ConnectionToken Phase
  deposits : ℕ

/-- What is told of a step outside: a bundle that is deposited, routed or taken. -/
inductive Outcome
  | Silent
  | Deposited (bundle : ℕ)
  | Routed (bundle : ℕ) (destination : ConnectionToken)
  | Took (bundle : ℕ) (destination : ConnectionToken)
deriving DecidableEq

namespace BinderService

def new (identity : ℕ) : BinderService :=
  ⟨.new identity, ∅, ⟨∅⟩, fun _ => [], fun _ => false, ∅, 0⟩

section

variable (s : BinderService) (c : ConnectionToken)

/-- The session of a connection: what `open_authenticated` has returned. -/
def session : Session := ⟨s.authority.identity, c⟩

def goto (phase : Phase) : BinderService :=
  { s with threads := s.threads.insert c phase }

def finish : BinderService :=
  { s with threads := s.threads.erase c }

/-- `SyncSender::send`; `none` where the writer has ended. -/
def send (message : Message) : Option BinderService :=
  if s.dead c then none
  else some { s with outbox := Function.update s.outbox c (s.outbox c ++ [message]) }

/-! ### Requests -/

/-- A request that the authority answers: the answer is sent, an error ends the connection. -/
def answer (result : Except Error Message × RoutingAuthority) : BinderService :=
  let s := { s with authority := result.2 }
  match result.1 with
  | .ok response => s.goto c (.Answering response)
  | .error _ => s.goto c (.disconnect c)

/-- A pending transfer is discarded, and the answer is sent. -/
def discard (transfer : TransferToken) (response : Message) : BinderService :=
  match s.transfers.discard_pending ⟨c, transfer⟩ with
  | .error _ => s.goto c (.disconnect c)
  | .ok transfers => { s with transfers := transfers }.goto c (.Answering response)

/-- A pending transfer is routed; what the authority has decided is acknowledged and delivered. -/
def forward (transfer : TransferToken) (bundle : ℕ)
    (acknowledgement : Message) (delivery : Outbound) : Outcome × BinderService :=
  match s.transfers.route ⟨c, transfer⟩ delivery.destination with
  | .error _ => (.Silent, s.goto c (.disconnect c))
  | .ok transfers =>
    (.Routed bundle delivery.destination,
      { s with transfers := transfers }.goto c (.Acking acknowledgement delivery))

/-- `handle_message` up to the first send. -/
def handle_message (message : Message) (memory : Bool) : Outcome × BinderService :=
  match message with
  | .PublishNode localNode =>
    (.Silent, s.answer c (s.authority.publish_node (s.session c) localNode memory))
  | .SetContextManager localNode =>
    (.Silent, s.answer c (s.authority.set_context_manager (s.session c) localNode memory))
  | .GetContextManager =>
    (.Silent, s.answer c (s.authority.get_context_manager (s.session c), s.authority))
  | .RouteTransaction target caller_thread transfer code flags =>
    match s.transfers.ensure_pending ⟨c, transfer⟩ with
    | .error _ => (.Silent, s.goto c (.disconnect c))
    | .ok entry =>
      let (result, authority) := s.authority.route_transaction (s.session c) target caller_thread
        transfer code flags memory
      let s := { s with authority := authority }
      match result with
      | .ok outcome =>
        s.forward c transfer entry.descriptors outcome.acknowledgement outcome.delivery
      | .error .DeadTarget => (.Silent, s.discard c transfer (.RouteRejected .DeadReply))
      | .error .UnknownNode => (.Silent, s.discard c transfer (.RouteRejected .FailedReply))
      | .error _ => (.Silent, s.goto c (.disconnect c))
  | .CompleteReply call transfer code flags =>
    match s.transfers.ensure_pending ⟨c, transfer⟩ with
    | .error _ => (.Silent, s.goto c (.disconnect c))
    | .ok entry =>
      let (result, authority) := s.authority.complete_reply (s.session c) call transfer code flags
      let s := { s with authority := authority }
      match result with
      | .ok (some outbound) =>
        s.forward c transfer entry.descriptors (.ReplyAccepted call) outbound
      | .ok none => (.Silent, s.discard c transfer (.ReplyAccepted call))
      | .error _ => (.Silent, s.goto c (.disconnect c))
  | .RequestDeath target cookie =>
    (.Silent, s.answer c (s.authority.request_death (s.session c) target cookie memory))
  | .ClearDeath target cookie =>
    (.Silent, s.answer c (s.authority.clear_death (s.session c) target cookie))
  | _ =>
    -- `CloseConnection` ends the loop of `serve`, and so does a message in the wrong direction
    (.Silent, s.goto c (.disconnect c))

/-! ### Connections -/

/-- The start of `serve`, under the lock of the endpoints. -/
def serve (peer : PeerIdentity) (memory : Bool) : BinderService :=
  if s.endpoints.toList.any fun (_, endpoint) => endpoint.peer = peer then s
  else
    let (result, authority) := s.authority.open_authenticated peer memory
    match result with
    | .error _ => { s with authority := authority }
    | .ok opened =>
      { s with
        authority := authority
        endpoints := s.endpoints.insert opened.session.connection ⟨peer⟩ }.goto
          opened.session.connection (.Opening opened.response)

/-- The next step of a thread that is not waiting for a request. -/
def go (memory : CloseMemory) : Option BinderService :=
  match s.threads[c]? with
  | none => none
  | some .Serving => none
  | some (.Opening response) =>
    match s.send c response with
    -- the `?` leaves `serve` with the endpoint still in the table
    | none => some (s.finish c)
    | some s => some (s.goto c .Serving)
  | some (.Answering response) =>
    match s.send c response with
    | none => some (s.goto c (.disconnect c))
    | some s => some (s.goto c .Serving)
  | some (.Acking acknowledgement delivery) =>
    match s.send c acknowledgement with
    | none => some (s.goto c (.disconnect c))
    | some s => some (s.goto c (.Dispatching [delivery] none))
  | some (.Dispatching [] none) => some (s.goto c .Serving)
  | some (.Dispatching [] (some [])) => some (s.finish c)
  | some (.Dispatching [] (some (notification :: rest))) =>
    some (s.goto c (.Dispatching [notification] (some rest)))
  | some (.Dispatching (outbound :: pending) rest) =>
    match s.endpoints[outbound.destination]? with
    | none => some (s.goto c (.Removing outbound.destination (.Dispatch pending rest)))
    | some _ => some (s.goto c (.Sending outbound pending rest))
  | some (.Sending outbound pending rest) =>
    match s.send outbound.destination outbound.message with
    | none => some (s.goto c (.Removing outbound.destination (.Dispatch pending rest)))
    | some s => some (s.goto c (.Dispatching pending rest))
  | some (.Removing connection frame) =>
    match s.endpoints[connection]? with
    | none => some (s.goto c (frame.resume []))
    | some _ =>
      some ({ s with endpoints := s.endpoints.erase connection }.goto c (.Purging connection frame))
  | some (.Purging connection frame) =>
    if s.transfers.clean connection then some (s.goto c (.Closing connection frame)) else none
  | some (.Closing connection frame) =>
    let (result, authority) := s.authority.close (s.session connection) memory
    let s := { s with authority := authority }
    match result with
    | .error _ => some (s.goto c (frame.resume []))
    | .ok outcome => some (s.goto c (frame.resume outcome.notifications))

/-- One removal of the loop in `remove`. -/
def purge (key : TransferKey) : Option BinderService :=
  match s.threads[c]? with
  | some (.Purging connection _) =>
    match s.transfers.remove_next_connection_transfer connection key with
    | none => none
    | some transfers => some { s with transfers := transfers }
  | _ => none

end

/-! ### Descriptors -/

section

variable (s : BinderService) (peer : PeerIdentity)

/-- `with_peer_connection`: the one connection of a peer. -/
def peer_connection : Option ConnectionToken :=
  match s.endpoints.toList.filter fun (_, endpoint) => endpoint.peer = peer with
  | [(connection, _)] => some connection
  | _ => none

/-- `deposit_descriptors`. -/
def deposit (token : TransferToken)
    (imported : Except TransferError Unit) (memory committed : Bool) : Outcome × BinderService :=
  match s.peer_connection peer with
  | none => (.Silent, s)
  | some connection =>
    match s.transfers.prepare_deposit ⟨connection, token⟩ imported memory with
    | .error _ => (.Silent, s)
    | .ok () =>
      if ¬ committed then (.Silent, s)
      else
        (.Deposited s.deposits,
          { s with
            transfers := s.transfers.install_deposit ⟨connection, token⟩ s.deposits
            deposits := s.deposits + 1 })

/-- `prepare_descriptor_take`. -/
def prepare_take (source : ConnectionToken)
    (token : TransferToken) (authorized : Bool) : Outcome × BinderService :=
  match s.peer_connection peer with
  | none => (.Silent, s)
  | some destination =>
    match s.transfers.verify_take destination ⟨source, token⟩ with
    | .error _ => (.Silent, s)
    | .ok _ =>
      if ¬ authorized then (.Silent, s)
      else
        match s.transfers.take destination ⟨source, token⟩ with
        | .error _ => (.Silent, s)
        | .ok (bundle, transfers) =>
          (.Took bundle destination, { s with transfers := transfers })

def cancel_unrouted_transfer (token : TransferToken) : BinderService :=
  match s.peer_connection peer with
  | none => s
  | some source => { s with transfers := s.transfers.cancel_unrouted ⟨source, token⟩ }

end

/-! ## Steps -/

inductive Op
  | Serve (peer : PeerIdentity) (memory : Bool)
  /-- a thread reads a request -/
  | Receive (c : ConnectionToken) (message : Message) (memory : Bool)
  /-- a thread finds its stream at the end or malformed -/
  | HangUp (c : ConnectionToken)
  | Go (c : ConnectionToken) (memory : CloseMemory)
  | Purge (c : ConnectionToken) (key : TransferKey)
  | WriterEnds (c : ConnectionToken)
  | Deposit (peer : PeerIdentity) (token : TransferToken) (imported : Except TransferError Unit)
      (memory committed : Bool)
  | Take (peer : PeerIdentity) (source : ConnectionToken) (token : TransferToken)
      (authorized : Bool)
  | Cancel (peer : PeerIdentity) (token : TransferToken)

/-- What a step does; `none` where it is not the thread's next. -/
def perform (s : BinderService) : Op → Option (Outcome × BinderService)
  | .Serve peer memory => some (.Silent, s.serve peer memory)
  | .Receive c message memory =>
    if s.threads[c]? = some .Serving then some (s.handle_message c message memory) else none
  | .HangUp c =>
    if s.threads[c]? = some .Serving then some (.Silent, s.goto c (.disconnect c)) else none
  | .Go c memory => (s.go c memory).map fun s => (.Silent, s)
  | .Purge c key => (s.purge c key).map fun s => (.Silent, s)
  | .WriterEnds c => some (.Silent, { s with dead := Function.update s.dead c true })
  | .Deposit peer token imported memory committed =>
    some (s.deposit peer token imported memory committed)
  | .Take peer source token authorized => some (s.prepare_take peer source token authorized)
  | .Cancel peer token => some (.Silent, s.cancel_unrouted_transfer peer token)

/-- A step, and the service it is taken in. -/
structure Event where
  before : BinderService
  op : Op
  outcome : Outcome

def Step (s : BinderService) (e : Event) (s' : BinderService) : Prop :=
  e.before = s ∧ s.perform e.op = some (e.outcome, s')

/-- The event of a step. -/
def event (s : BinderService) (op : Op) : Event :=
  ⟨s, op, ((s.perform op).map Prod.fst).getD .Silent⟩

/-- The events of a list of steps and the service after them. -/
def events (s : BinderService) (ops : List Op) : Option (List Event × BinderService) :=
  Run.collect perform event s ops

theorem run_events {s t : BinderService} {ops : List Op} {es : List Event}
    (h : s.events ops = some (es, t)) : Run Step s es t := by
  refine Run.of_collect ?_ h
  intro s op outcome t hperform
  refine ⟨rfl, ?_⟩
  unfold event
  rw [hperform]
  rfl

end BinderService

end DarwinArt.Profile
