/-
The authority stream of one process: `client.rs` and `dispatcher.rs` of the Binder process
crate, at the grain of their atomic steps.

Any number of threads are in `Client::request`, each waiting for the answer to its own
entry of `pending`; threads call `Client::close_authority`; and one thread runs the
dispatcher, the only reader of the stream. They share the flag `closed`, the queue
`pending` under its mutex, and the mutex `send_order`, which a request holds from before
its look at `closed` until its message is out.

A step here is one lock section, one access to `closed`, one send or one receive. Each
thread's place in its function is part of the state (`Phase`, `DispatcherPhase`), so every
interleaving of the source is a sequence of these steps.

## What is an argument

What the transport and the device answer. The device's own state is not modelled, so
neither are the calls of `fail_remote_authority` that follow a drain: they touch nothing
here. Locks are never poisoned. `Display` texts of errors are told apart by constructor.
-/
import DarwinArt.Binder.Thread

set_option autoImplicit false

namespace DarwinArt.BinderProcess

open Lib Binder

/-! ## The data -/

def MAX_PENDING_REQUESTS : ℕ := 128

inductive Expected
  | NodePublished
  | ContextManagerSet
  | ContextManagerFound
  | RouteResult
  | ReplyAccepted
  | DeathRequested
  | DeathCleared
deriving DecidableEq

structure ContextManagerReservation where
  serial : ℕ
deriving DecidableEq

inductive RemoteCommit
  | ContextManager (reservation : ContextManagerReservation)
  | Transaction (thread_id : UInt64) (submission : RemoteSubmission)
  | Reply (thread_id : UInt64) (submission : RemoteReplySubmission) (call : CallToken)
deriving DecidableEq

/-- `Error`, with one constructor for each text of `Error::Protocol`. -/
inductive Error
  | Closed
  | Busy
  | Transport (text : String)
  | Device (text : String)
  | Transfer (text : String)
  /-- "authority response has no pending request" -/
  | NoPendingRequest
  /-- "authority response … does not match …" -/
  | Mismatch (message : Message) (expected : Expected)
  /-- "authority acknowledgement does not match pending commit" -/
  | CommitMismatch
  /-- "authority sent a client-only or duplicate-open message" -/
  | ClientOnlyMessage
  /-- "authority dispatcher stopped: …" -/
  | DispatcherStopped (error : Error)
deriving DecidableEq

/-- What is sent on a response channel, and what `request` returns. -/
abbrev Response := Except Error Message

/-- `Pending`. `response` is the channel of the request of that number. -/
structure Pending where
  expected : Expected
  response : ℕ
  remote_commit : Option RemoteCommit
deriving DecidableEq

/-- Where a thread is in `Client::request`. From `Locked` to `Leaving` it holds
`send_order`. -/
inductive Phase
  | Entered
  | Locked
  /-- It has read `closed` as unset. -/
  | Checked
  /-- Its entry is in `pending`, its message not yet out. -/
  | Pushed
  | SendFailed (text : String)
  /-- Its send failed and it was the one to set `closed`. -/
  | Draining (text : String)
  | Sent
  | Leaving (error : Error)
  | Waiting
  | Returned (result : Response)

/-- The thread holds `send_order`. -/
def Phase.holds : Phase → Bool
  | .Locked | .Checked | .Pushed | .SendFailed _ | .Draining _ | .Sent | .Leaving _ => true
  | .Entered | .Waiting | .Returned _ => false

/-- The thread has put its entry into `pending` before. -/
def Phase.pushed : Phase → Bool
  | .Pushed | .SendFailed _ | .Draining _ | .Sent | .Leaving _ | .Waiting | .Returned _ => true
  | .Entered | .Locked | .Checked => false

/-- The arguments of a call of `request`, and how far it is. -/
structure Request where
  message : Message
  expected : Expected
  remote_commit : Option RemoteCommit
  phase : Phase

/-- Where the dispatcher is in `dispatch_next`. -/
inductive DispatcherPhase
  | Receiving
  | Received (message : Message)
  /-- `complete_request` has taken the entry and not yet answered it. -/
  | Completing (entry : Pending) (message : Message)
  /-- `fail_pending`, before its look at `closed`. -/
  | Failing (error : Error)
  /-- `fail_pending`, before its drain. -/
  | Draining (error : Error)
  | Stopped (error : Error)

/-- The shared state, the threads in `request` and the dispatcher. `closing` says whether a
`close_authority` is between its send and its look at `closed`. -/
structure State where
  closed : Bool
  pending : List Pending
  send_order : Option ℕ
  requests : Map ℕ Request
  closing : Bool
  dispatcher : DispatcherPhase
  responses : Map ℕ Response

namespace State

def new : State := ⟨false, [], none, ∅, false, .Receiving, ∅⟩

section

variable (s : State) (id : ℕ) (request : Request)

/-- A thread goes on. -/
def put (phase : Phase) : State :=
  { s with requests := s.requests.insert id { request with phase := phase } }

/-- `while let Some(request) = pending.pop_front() { request.response.send(..) }`. -/
def answer_all (responses : Map ℕ Response) (pending : List Pending) (response : Response) :
    Map ℕ Response :=
  pending.foldl (fun responses entry => responses.insert entry.response response) responses

/-! ## `Client::request` -/

/-- `send_order.lock()`. -/
def lock : Option State :=
  match request.phase, s.send_order with
  | .Entered, none => some { s.put id request .Locked with send_order := some id }
  | _, _ => none

/-- `closed.load()`. -/
def check : Option State :=
  match request.phase with
  | .Locked => some (s.put id request (if s.closed then .Leaving .Closed else .Checked))
  | _ => none

/-- The section under `pending.lock()`. -/
def push : Option State :=
  match request.phase with
  | .Checked =>
    if s.pending.length = MAX_PENDING_REQUESTS then some (s.put id request (.Leaving .Busy))
    else some { s.put id request .Pushed with
      pending := s.pending ++ [⟨request.expected, id, request.remote_commit⟩] }
  | _ => none

/-- `transport.send(message)`. -/
def send (result : Except String Unit) : Option State :=
  match request.phase with
  | .Pushed =>
    match result with
    | .ok () => some (s.put id request .Sent)
    | .error text => some (s.put id request (.SendFailed text))
  | _ => none

/-- `closed.swap(true)` after a failed send. -/
def swap : Option State :=
  match request.phase with
  | .SendFailed text =>
    some { s.put id request (if s.closed then .Leaving (.Transport text) else .Draining text) with
      closed := true }
  | _ => none

/-- The drain of the one that set `closed`. -/
def drain : Option State :=
  match request.phase with
  | .Draining text =>
    some { s.put id request (.Leaving (.Transport text)) with
      pending := []
      responses := answer_all s.responses s.pending (.error .Closed) }
  | _ => none

/-- `drop(_send_order)`, or the return that drops it. -/
def unlock : Option State :=
  match request.phase with
  | .Sent => some { s.put id request .Waiting with send_order := none }
  | .Leaving error => some { s.put id request (.Returned (.error error)) with send_order := none }
  | _ => none

/-- `receiver.recv()`, once there is something to receive. -/
def recv : Option State :=
  match request.phase, s.responses[id]? with
  | .Waiting, some response => some (s.put id request (.Returned response))
  | _, _ => none

end

/-! ## `Client::close_authority` -/

/-- `transport.send(Message::CloseConnection)`, whatever it returns. -/
def close_send (s : State) : Option State :=
  if s.closing then none else some { s with closing := true }

/-- `closed.swap(true)`. -/
def close_swap (s : State) : Option State :=
  if s.closing then some { s with closing := false, closed := true } else none

/-! ## The dispatcher -/

def matches_expected (expected : Expected) (message : Message) : Bool :=
  match expected, message with
  | .NodePublished, .NodePublished _ => true
  | .ContextManagerSet, .ContextManagerSet _ => true
  | .ContextManagerFound, .ContextManagerFound _ => true
  | .RouteResult, .RouteAccepted _ => true
  | .RouteResult, .RouteRejected _ => true
  | .ReplyAccepted, .ReplyAccepted _ => true
  | .DeathRequested, .DeathRequested => true
  | .DeathCleared, .DeathCleared => true
  | _, _ => false

/-- What `dispatch_next_inner` does with a message: answer a request, hand it to the
device, or refuse it. -/
inductive Handling
  | Complete
  | Deliver
  | Refuse
deriving DecidableEq

def handling : Message → Handling
  | .NodePublished _ | .ContextManagerSet _ | .ContextManagerFound _ | .RouteAccepted _
  | .RouteRejected _ | .ReplyAccepted _ | .DeathRequested | .DeathCleared => .Complete
  | .DeliverTransaction .. | .DeliverReply .. | .TargetDead .. | .CallerDead _ | .NodeDead _ =>
    .Deliver
  | _ => .Refuse

/-- Does the acknowledgement fit the commit of the request? -/
def commits : RemoteCommit → Message → Bool
  | .ContextManager _, .ContextManagerSet _ => true
  | .Transaction _ _, .RouteAccepted _ => true
  | .Transaction _ _, .RouteRejected _ => true
  | .Reply _ _ call, .ReplyAccepted accepted => call = accepted
  | _, _ => false

/-- `complete_request`, after it has taken the entry: what it sends. `device` is the
device's answer to the commit. -/
def complete_request (entry : Pending) (message : Message) (device : Except String Unit) :
    Response :=
  if ¬ matches_expected entry.expected message then .error (.Mismatch message entry.expected)
  else
    match entry.remote_commit with
    | none => .ok message
    | some commit =>
      if ¬ commits commit message then .error .CommitMismatch
      else
        match device with
        | .error text => .error (.Device text)
        | .ok () => .ok message

/-- `transport.receive()`. -/
def receive (s : State) (result : Except String Message) : Option State :=
  match s.dispatcher with
  | .Receiving =>
    match result with
    | .ok message => some { s with dispatcher := .Received message }
    | .error text => some { s with dispatcher := .Failing (.Transport text) }
  | _ => none

/-- The message is taken on. Of `complete_request` this is the section under
`pending.lock()`; for a delivery, `outcome` is what the transport and the device say. -/
def handle (s : State) (outcome : Except Error Unit) : Option State :=
  match s.dispatcher with
  | .Received message =>
    match handling message with
    | .Complete =>
      match s.pending with
      | [] => some { s with dispatcher := .Failing .NoPendingRequest }
      | entry :: rest =>
        some { s with pending := rest, dispatcher := .Completing entry message }
    | .Deliver =>
      match outcome with
      | .ok () => some { s with dispatcher := .Receiving }
      | .error error => some { s with dispatcher := .Failing error }
    | .Refuse => some { s with dispatcher := .Failing .ClientOnlyMessage }
  | _ => none

/-- The receiver of a request that has returned is gone. -/
def receiver_gone (s : State) (id : ℕ) : Bool :=
  match s.requests[id]? with
  | some ⟨_, _, _, .Returned _⟩ => true
  | _ => false

/-- The rest of `complete_request`. -/
def respond (s : State) (device : Except String Unit) : Option State :=
  match s.dispatcher with
  | .Completing entry message =>
    match complete_request entry message device with
    | .error error =>
      some { s with
        dispatcher := .Failing error
        responses := s.responses.insert entry.response (.error error) }
    | .ok message =>
      some { s with
        dispatcher := if s.receiver_gone entry.response then .Failing .Closed else .Receiving
        responses := s.responses.insert entry.response (.ok message) }
  | _ => none

/-- `closed.swap(true)` in `fail_pending`. -/
def fail_swap (s : State) : Option State :=
  match s.dispatcher with
  | .Failing error =>
    some { s with
      closed := true
      dispatcher := if s.closed then .Stopped error else .Draining error }
  | _ => none

/-- The drain of `fail_pending`. -/
def fail_drain (s : State) : Option State :=
  match s.dispatcher with
  | .Draining error =>
    some { s with
      pending := []
      responses := answer_all s.responses s.pending (.error (.DispatcherStopped error))
      dispatcher := .Stopped error }
  | _ => none

/-! ## Steps -/

/-- The atomic steps. -/
inductive Op
  | call (id : ℕ) (message : Message) (expected : Expected) (remote_commit : Option RemoteCommit)
  | lock (id : ℕ)
  | check (id : ℕ)
  | push (id : ℕ)
  | send (id : ℕ) (result : Except String Unit)
  | swap (id : ℕ)
  | drain (id : ℕ)
  | unlock (id : ℕ)
  | recv (id : ℕ)
  | close_send
  | close_swap
  | receive (result : Except String Message)
  | handle (outcome : Except Error Unit)
  | respond (device : Except String Unit)
  | fail_swap
  | fail_drain

/-- The state after a step, if the step can be taken. -/
def perform (s : State) : Op → Option State
  | .call id message expected remote_commit =>
    if s.requests.contains id then none
    else some (s.put id ⟨message, expected, remote_commit, .Entered⟩ .Entered)
  | .lock id => (s.requests[id]?).bind (s.lock id)
  | .check id => (s.requests[id]?).bind (s.check id)
  | .push id => (s.requests[id]?).bind (s.push id)
  | .send id result => (s.requests[id]?).bind fun request => s.send id request result
  | .swap id => (s.requests[id]?).bind (s.swap id)
  | .drain id => (s.requests[id]?).bind (s.drain id)
  | .unlock id => (s.requests[id]?).bind (s.unlock id)
  | .recv id => (s.requests[id]?).bind (s.recv id)
  | .close_send => s.close_send
  | .close_swap => s.close_swap
  | .receive result => s.receive result
  | .handle outcome => s.handle outcome
  | .respond device => s.respond device
  | .fail_swap => s.fail_swap
  | .fail_drain => s.fail_drain

/-- A step and the state it is taken in. -/
structure Event where
  before : State
  op : Op

/-- A step of a run. -/
def Step (s : State) (e : Event) (s' : State) : Prop :=
  e.before = s ∧ s.perform e.op = some s'

end State

end DarwinArt.BinderProcess
