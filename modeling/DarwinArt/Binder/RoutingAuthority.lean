/-
The profile-wide routing authority: `routing_authority/state.rs` and `types.rs`.

The authority knows who is connected, which nodes each connection has published, which
synchronous calls are outstanding between connections, who wants to hear of whose death,
and which node is the context manager. It moves no payload: each operation returns the
messages that others are to be sent.

## What is modelled

Every operation, with its checks in the order of the source, what it returns and the
authority it leaves behind, so that what a failed call does is part of the model. The
answer of the allocator (`try_reserve`) is an argument. The authority's lock is held
throughout each operation and is never poisoned. Hash maps are maps in key order here, so
the notifications of a `close` come in that order.

A session names the authority it is of and its connection. The source makes sessions in
`open_authenticated` only; here any session may be presented.
-/
import DarwinArt.Lib.Run
import DarwinArt.Binder.AuthorityProtocol

set_option autoImplicit false

namespace DarwinArt.Binder

open Lib

namespace RoutingAuthority

/-! ## The data -/

/-- `PeerIdentity`: what the transport has verified of a peer. -/
structure PeerIdentity where
  pid : UInt32
  android_uid : UInt32
  incarnation : UInt64 × UInt64
  pid_valid : pid ≠ 0 ∧ pid.toNat ≤ 2 ^ 31 - 1
deriving DecidableEq

def PeerIdentity.verified (pid android_uid : UInt32) (incarnation : UInt64 × UInt64) :
    Option PeerIdentity :=
  if h : pid ≠ 0 ∧ pid.toNat ≤ 2 ^ 31 - 1 then some ⟨pid, android_uid, incarnation, h⟩ else none

structure Session where
  authority : ℕ
  connection : ConnectionToken
deriving DecidableEq

structure Opened where
  session : Session
  response : Message
deriving DecidableEq

structure Outbound where
  destination : ConnectionToken
  message : Message
deriving DecidableEq

structure RouteOutcome where
  acknowledgement : Message
  delivery : Outbound
deriving DecidableEq

structure CloseOutcome where
  notifications : List Outbound
deriving DecidableEq

inductive Error
  | ForeignAuthority
  | UnknownConnection
  | DeadTarget
  | UnknownNode
  | UnknownCall
  | WrongReplier
  | ContextManagerBusy
  | ContextManagerSecurity
  | ContextManagerWrongUid
  | InvalidThread
  | ConnectionIdsExhausted
  | CallIdsExhausted
  | DeathAlreadyRequested
  | UnknownDeath
  | OutOfMemory
deriving DecidableEq

structure ConnectionState where
  peer : PeerIdentity
  nodes : Finset LocalNodeToken
deriving DecidableEq

structure CallRoute where
  sender : ConnectionToken
  caller_thread : UInt64
  target : NodeToken
deriving DecidableEq

/-- The key of a death subscription: who wants to hear of whose death. -/
@[ext]
structure Subscription where
  subscriber : ConnectionToken
  target : NodeToken
deriving DecidableEq

instance : Key Subscription where
  code k := [k.subscriber.raw, k.target.owner.raw, k.target.localNode.raw]
  code_injective := by
    intro a b h
    simp only [List.cons.injEq, and_true] at h
    exact Subscription.ext (Token.ext h.1) (NodeToken.ext (Token.ext h.2.1) (Token.ext h.2.2))

end RoutingAuthority

open RoutingAuthority in
/-- `RoutingAuthority` with its `State`. -/
structure RoutingAuthority where
  identity : ℕ
  next_connection : ℕ
  next_call : ℕ
  connections : Map ConnectionToken ConnectionState
  calls : Map CallToken CallRoute
  deaths : Map Subscription UInt64
  context_manager : Option NodeToken
  context_manager_uid : Option UInt32

namespace RoutingAuthority

/-- `RoutingAuthority::default`. -/
def new (identity : ℕ) : RoutingAuthority := ⟨identity, 0, 0, ∅, ∅, ∅, none, none⟩

section

variable (s : RoutingAuthority)

def check (session : Session) : Except Error Unit :=
  if s.identity = session.authority then .ok () else .error .ForeignAuthority

def connection (s : RoutingAuthority) (session : Session) : Except Error ConnectionState :=
  match s.check session with
  | .error e => .error e
  | .ok () =>
    match s.connections[session.connection]? with
    | none => .error .UnknownConnection
    | some connection => .ok connection

/-! ## Connections and nodes -/

def open_authenticated (peer : PeerIdentity) (memory : Bool) :
    Except Error Opened × RoutingAuthority :=
  match (Token.after s.next_connection : Option ConnectionToken) with
  | none => (.error .ConnectionIdsExhausted, s)
  | some connection =>
    if ¬ memory then (.error .OutOfMemory, s)
    else
      (.ok ⟨⟨s.identity, connection⟩, .ConnectionOpened connection peer.android_uid⟩,
        { s with
          connections := s.connections.insert connection ⟨peer, ∅⟩
          next_connection := connection.raw })

def peer (session : Session) : Except Error PeerIdentity :=
  match s.connection session with
  | .error e => .error e
  | .ok connection => .ok connection.peer

/-- The nodes of a connection after one more: `try_reserve` only if it is new. -/
def add_node (connection : ConnectionState) (localNode : LocalNodeToken) (memory : Bool) :
    Except Error ConnectionState :=
  if localNode ∈ connection.nodes then .ok connection
  else if ¬ memory then .error .OutOfMemory
  else .ok { connection with nodes := insert localNode connection.nodes }

def publish_node (session : Session) (localNode : LocalNodeToken)
    (memory : Bool) : Except Error Message × RoutingAuthority :=
  match s.connection session with
  | .error e => (.error e, s)
  | .ok connection =>
    match add_node connection localNode memory with
    | .error e => (.error e, s)
    | .ok connection =>
      (.ok (.NodePublished ⟨session.connection, localNode⟩),
        { s with connections := s.connections.insert session.connection connection })

/-- `set_context_manager`. The uid is bound before the node is published, and stays bound
if that fails. -/
def set_context_manager (session : Session) (localNode : LocalNodeToken)
    (memory : Bool) : Except Error Message × RoutingAuthority :=
  match s.check session with
  | .error e => (.error e, s)
  | .ok () =>
    if s.context_manager.isSome then (.error .ContextManagerBusy, s)
    else
      match s.connections[session.connection]? with
      | none => (.error .UnknownConnection, s)
      | some connection =>
        let uid := connection.peer.android_uid
        if uid ≠ 0 ∧ uid ≠ 1000 then (.error .ContextManagerSecurity, s)
        else if s.context_manager_uid.any (fun owner => owner ≠ uid) then
          (.error .ContextManagerWrongUid, s)
        else
          let s := { s with context_manager_uid := some uid }
          match add_node connection localNode memory with
          | .error e => (.error e, s)
          | .ok connection =>
            (.ok (.ContextManagerSet ⟨session.connection, localNode⟩),
              { s with
                connections := s.connections.insert session.connection connection
                context_manager := some ⟨session.connection, localNode⟩ })

def get_context_manager (session : Session) : Except Error Message :=
  match s.connection session with
  | .error e => .error e
  | .ok _ => .ok (.ContextManagerFound s.context_manager)

/-! ## Calls -/

def route_transaction (sender : Session) (target : NodeToken)
    (caller_thread : UInt64) (transfer : TransferToken) (code flags : UInt32) (memory : Bool) :
    Except Error RouteOutcome × RoutingAuthority :=
  if caller_thread = 0 then (.error .InvalidThread, s)
  else
    match s.connection sender with
    | .error e => (.error e, s)
    | .ok sender_connection =>
      match s.connections[target.owner]? with
      | none => (.error .DeadTarget, s)
      | some target_connection =>
        if target.localNode ∉ target_connection.nodes then (.error .UnknownNode, s)
        else
          let outcome (call : Option CallToken) (sender_pid : Int32) : RouteOutcome :=
            ⟨.RouteAccepted call, ⟨target.owner, .DeliverTransaction call sender.connection
              sender_pid sender_connection.peer.android_uid target.localNode caller_thread transfer
              code flags⟩⟩
          if flags &&& 1 = 0 then
            match (Token.after s.next_call : Option CallToken) with
            | none => (.error .CallIdsExhausted, s)
            | some call =>
              if ¬ memory then (.error .OutOfMemory, s)
              else
                (.ok (outcome (some call) sender_connection.peer.pid.toInt32),
                  { s with
                    calls := s.calls.insert call ⟨sender.connection, caller_thread, target⟩
                    next_call := call.raw })
          else (.ok (outcome none 0), s)

/-- `complete_reply`. The reply to a caller that is gone is consumed and dropped. -/
def complete_reply (replier : Session) (call : CallToken)
    (transfer : TransferToken) (code flags : UInt32) :
    Except Error (Option Outbound) × RoutingAuthority :=
  match s.connection replier with
  | .error e => (.error e, s)
  | .ok replier_connection =>
    match s.calls[call]? with
    | none => (.error .UnknownCall, s)
    | some route =>
      if route.target.owner ≠ replier.connection then (.error .WrongReplier, s)
      else
        let s' := { s with calls := s.calls.erase call }
        if ¬ s.connections.contains route.sender then (.ok none, s')
        else
          (.ok (some ⟨route.sender, .DeliverReply call replier.connection
            replier_connection.peer.pid.toInt32 replier_connection.peer.android_uid
            route.caller_thread transfer code flags⟩), s')

/-! ## Deaths -/

def request_death (subscriber : Session) (target : NodeToken)
    (cookie : UInt64) (memory : Bool) : Except Error Message × RoutingAuthority :=
  match s.connection subscriber with
  | .error e => (.error e, s)
  | .ok _ =>
    match s.connections[target.owner]? with
    | none => (.error .UnknownConnection, s)
    | some target_connection =>
      if target.localNode ∉ target_connection.nodes then (.error .UnknownNode, s)
      else if s.deaths.contains ⟨subscriber.connection, target⟩ then
        (.error .DeathAlreadyRequested, s)
      else if ¬ memory then (.error .OutOfMemory, s)
      else
        (.ok .DeathRequested,
          { s with deaths := s.deaths.insert ⟨subscriber.connection, target⟩ cookie })

def clear_death (subscriber : Session) (target : NodeToken)
    (cookie : UInt64) : Except Error Message × RoutingAuthority :=
  match s.connection subscriber with
  | .error e => (.error e, s)
  | .ok _ =>
    match s.deaths[(⟨subscriber.connection, target⟩ : Subscription)]? with
    | none => (.error .UnknownDeath, s)
    | some registered =>
      if registered ≠ cookie then (.error .UnknownDeath, s)
      else
        (.ok .DeathCleared,
          { s with deaths := s.deaths.erase ⟨subscriber.connection, target⟩ })

end

/-! ## Closing -/

/-- What the close of `connection` means for a call of or to it. -/
inductive Fate
  /-- The target is gone: the route goes, and the caller is told. -/
  | TargetDead
  /-- The caller is gone: the route stays as a tombstone, and the target is told. -/
  | CallerDead
  | Dropped
deriving DecidableEq

section

variable (s : RoutingAuthority) (connection : ConnectionToken)

def fate (route : CallRoute) : Fate :=
  if route.target.owner = connection ∧ route.sender ≠ connection ∧
      s.connections.contains route.sender then .TargetDead
  else if route.sender = connection ∧ route.target.owner ≠ connection ∧
      s.connections.contains route.target.owner then .CallerDead
  else .Dropped

/-- The loop of `close` over the calls. An id that is not in the table would make the source
panic; the ids come from the table, once each. -/
def close_calls (s : RoutingAuthority) (connection : ConnectionToken) :
    List CallToken → Map CallToken CallRoute → List Outbound →
      Map CallToken CallRoute × List Outbound
  | [], calls, notifications => (calls, notifications)
  | call :: call_ids, calls, notifications =>
    match calls[call]? with
    | none => s.close_calls connection call_ids calls notifications
    | some route =>
      match s.fate connection route with
      | .TargetDead =>
        s.close_calls connection call_ids (calls.erase call)
          (notifications ++ [⟨route.sender, .TargetDead call route.caller_thread⟩])
      | .CallerDead =>
        s.close_calls connection call_ids calls
          (notifications ++ [⟨route.target.owner, .CallerDead call⟩])
      | .Dropped => s.close_calls connection call_ids (calls.erase call) notifications

/-- The loop of `close` over the subscriptions. -/
def close_deaths : List Outbound :=
  s.deaths.toList.filterMap fun (key, cookie) =>
    if key.target.owner = connection ∧ key.subscriber ≠ connection ∧
        s.connections.contains key.subscriber then some ⟨key.subscriber, .NodeDead cookie⟩
    else none

/-- The calls of or to a connection. -/
def call_ids : List CallToken :=
  s.calls.toList.filterMap fun (call, route) =>
    if route.sender = connection ∨ route.target.owner = connection then some call else none

end

/-- The allocator's answers during one `close`. -/
structure CloseMemory where
  call_ids : Bool
  notifications : Bool

/-- `close`. Everything that can fail comes before the first change. -/
def close (s : RoutingAuthority) (session : Session) (memory : CloseMemory) :
    Except Error CloseOutcome × RoutingAuthority :=
  match s.connection session with
  | .error e => (.error e, s)
  | .ok _ =>
    if ¬ memory.call_ids then (.error .OutOfMemory, s)
    else if ¬ memory.notifications then (.error .OutOfMemory, s)
    else
      let (calls, notifications) :=
        s.close_calls session.connection (s.call_ids session.connection) s.calls []
      (.ok ⟨notifications ++ s.close_deaths session.connection⟩,
        { s with
          calls := calls
          deaths := s.deaths.filter fun key _ => key.subscriber ≠ session.connection
          connections := s.connections.erase session.connection
          context_manager :=
            if s.context_manager.any (fun node => node.owner = session.connection) then none
            else s.context_manager })

/-! ## Steps -/

/-- The operations. -/
inductive Op
  | open_authenticated (peer : PeerIdentity) (memory : Bool)
  | peer (session : Session)
  | publish_node (session : Session) (localNode : LocalNodeToken) (memory : Bool)
  | set_context_manager (session : Session) (localNode : LocalNodeToken) (memory : Bool)
  | get_context_manager (session : Session)
  | route_transaction (sender : Session) (target : NodeToken) (caller_thread : UInt64)
      (transfer : TransferToken) (code flags : UInt32) (memory : Bool)
  | complete_reply (replier : Session) (call : CallToken) (transfer : TransferToken)
      (code flags : UInt32)
  | request_death (subscriber : Session) (target : NodeToken) (cookie : UInt64) (memory : Bool)
  | clear_death (subscriber : Session) (target : NodeToken) (cookie : UInt64)
  | close (session : Session) (memory : CloseMemory)

/-- What an operation returns when it succeeds. -/
inductive Reply
  | Opened (opened : Opened)
  | Peer (peer : PeerIdentity)
  | Response (message : Message)
  | Routed (outcome : RouteOutcome)
  | Replied (outbound : Option Outbound)
  | Closed (outcome : CloseOutcome)
deriving DecidableEq

/-- The result and the authority after an operation. -/
def perform (s : RoutingAuthority) : Op → Except Error Reply × RoutingAuthority
  | .open_authenticated peer memory =>
    ((s.open_authenticated peer memory).1.map .Opened, (s.open_authenticated peer memory).2)
  | .peer session => ((s.peer session).map .Peer, s)
  | .publish_node session localNode memory =>
    ((s.publish_node session localNode memory).1.map .Response,
      (s.publish_node session localNode memory).2)
  | .set_context_manager session localNode memory =>
    ((s.set_context_manager session localNode memory).1.map .Response,
      (s.set_context_manager session localNode memory).2)
  | .get_context_manager session => ((s.get_context_manager session).map .Response, s)
  | .route_transaction sender target caller_thread transfer code flags memory =>
    ((s.route_transaction sender target caller_thread transfer code flags memory).1.map .Routed,
      (s.route_transaction sender target caller_thread transfer code flags memory).2)
  | .complete_reply replier call transfer code flags =>
    ((s.complete_reply replier call transfer code flags).1.map .Replied,
      (s.complete_reply replier call transfer code flags).2)
  | .request_death subscriber target cookie memory =>
    ((s.request_death subscriber target cookie memory).1.map .Response,
      (s.request_death subscriber target cookie memory).2)
  | .clear_death subscriber target cookie =>
    ((s.clear_death subscriber target cookie).1.map .Response,
      (s.clear_death subscriber target cookie).2)
  | .close session memory =>
    ((s.close session memory).1.map .Closed, (s.close session memory).2)

/-- An operation and the authority it runs on. -/
structure Event where
  before : RoutingAuthority
  op : Op

def Event.result (e : Event) : Except Error Reply := (e.before.perform e.op).1

def Event.after (e : Event) : RoutingAuthority := (e.before.perform e.op).2

/-- A step of a run. Operations that return an error are steps like any other. -/
def Step (s : RoutingAuthority) (e : Event) (s' : RoutingAuthority) : Prop :=
  e.before = s ∧ e.after = s'

/-- The messages an event has the transport send to others. -/
def Event.emitted (e : Event) : List Outbound :=
  match e.result with
  | .ok (.Routed outcome) => [outcome.delivery]
  | .ok (.Replied (some outbound)) => [outbound]
  | .ok (.Closed outcome) => outcome.notifications
  | _ => []

end RoutingAuthority

end DarwinArt.Binder
