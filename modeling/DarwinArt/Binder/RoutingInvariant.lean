/-
What holds of the routing authority at all times.

Operations clean up different maps at different times: the death of a target takes its
routes but leaves the subscriptions to it, the death of a caller leaves its routes as
tombstones. `Wf` is what they have in common. Every operation is one of a few changes of
the authority (`Change`), and each change keeps it.
-/
import DarwinArt.Binder.RoutingAuthority

set_option autoImplicit false

namespace DarwinArt.Binder.RoutingAuthority

open Lib

open Event

/-! ## The loop over the calls of a closing connection -/

/-- The connection is a party to the call. -/
def touches (connection : ConnectionToken) (route : CallRoute) : Prop :=
  route.sender = connection ∨ route.target.owner = connection

instance (connection : ConnectionToken) (route : CallRoute) :
    Decidable (touches connection route) :=
  inferInstanceAs (Decidable (_ ∨ _))

/-- What the close of `connection` has to say about a call. -/
def notice (s : RoutingAuthority) (connection : ConnectionToken) (call : CallToken)
    (route : CallRoute) : Option Outbound :=
  match s.fate connection route with
  | .TargetDead => some ⟨route.sender, .TargetDead call route.caller_thread⟩
  | .CallerDead => some ⟨route.target.owner, .CallerDead call⟩
  | .Dropped => none

/-- The notifications about calls. -/
def call_notices (s : RoutingAuthority) (connection : ConnectionToken) : List Outbound :=
  s.calls.toList.filterMap fun (call, route) => s.notice connection call route

variable {s : RoutingAuthority} {connection : ConnectionToken}

theorem fate_eq_targetDead {route : CallRoute} : s.fate connection route = .TargetDead ↔
      route.target.owner = connection ∧ route.sender ≠ connection ∧
        s.connections.contains route.sender = true := by
  unfold fate
  split
  · next h => exact ⟨fun _ => h, fun _ => rfl⟩
  · next h =>
    refine ⟨fun hf => ?_, fun h' => absurd h' h⟩
    split at hf <;> cases hf

theorem fate_eq_callerDead {route : CallRoute} : s.fate connection route = .CallerDead ↔
      route.sender = connection ∧ route.target.owner ≠ connection ∧
        s.connections.contains route.target.owner = true := by
  unfold fate
  split
  · next h =>
    refine ⟨fun hf => absurd hf (by simp), fun h' => ?_⟩
    exact absurd h.1 h'.2.1
  · split
    · next h => exact ⟨fun _ => h, fun _ => rfl⟩
    · next h => exact ⟨fun hf => absurd hf (by simp), fun h' => absurd h' h⟩

/-- The fate of a call that has nothing to do with the connection. -/
theorem fate_of_not_touches {route : CallRoute} (h : ¬ touches connection route) :
    s.fate connection route = .Dropped := by
  unfold fate
  rw [if_neg fun hf => h (.inr hf.1), if_neg fun hf => h (.inl hf.1)]

section

variable (s : RoutingAuthority) (connection : ConnectionToken)

/-- **The loop of `close`**, on distinct calls of the table: it keeps the tombstones, and
says about each call what there is to say. -/
theorem close_calls_spec
    (ids : List CallToken) (calls : Map CallToken CallRoute) (notifications : List Outbound)
    (hnodup : ids.Nodup) :
    (∀ c : CallToken, (s.close_calls connection ids calls notifications).1[c]? =
      if c ∈ ids then (calls[c]?).filter (fun route => s.fate connection route = .CallerDead)
      else calls[c]?) ∧
    (s.close_calls connection ids calls notifications).2 =
      notifications ++ ids.filterMap fun c => (calls[c]?).bind (s.notice connection c) := by
  induction ids generalizing calls notifications with
  | nil => simp [close_calls]
  | cons id ids ih =>
    obtain ⟨hid, hnodup⟩ := List.nodup_cons.mp hnodup
    -- the rest of the loop runs on a table that differs at `id` only
    have hrest : ∀ (calls' : Map CallToken CallRoute) (notifications' : List Outbound),
        (∀ c, c ≠ id → calls'[c]? = calls[c]?) →
        calls'[id]? = (calls[id]?).filter (fun route => s.fate connection route = .CallerDead) →
        notifications' = notifications ++ ((calls[id]?).bind (s.notice connection id)).toList →
        (∀ c : CallToken, (s.close_calls connection ids calls' notifications').1[c]? =
          if c ∈ id :: ids then (calls[c]?).filter (fun route => s.fate connection route = .CallerDead)
          else calls[c]?) ∧
        (s.close_calls connection ids calls' notifications').2 = notifications ++
          (id :: ids).filterMap fun c => (calls[c]?).bind (s.notice connection c) := by
      intro calls' notifications' hother hself hnotes
      obtain ⟨hcalls, hout⟩ := ih calls' notifications' hnodup
      refine ⟨fun c => ?_, ?_⟩
      · rw [hcalls]
        rcases eq_or_ne c id with rfl | hc
        · rw [if_neg hid, if_pos List.mem_cons_self, hself]
        · rw [hother c hc]
          simp [hc]
      · rw [hout, hnotes, List.append_assoc, List.filterMap_cons]
        congr 1
        have hsame : ids.filterMap (fun c => (calls'[c]?).bind (s.notice connection c)) =
            ids.filterMap (fun c => (calls[c]?).bind (s.notice connection c)) := by
          refine List.filterMap_congr fun c hc => ?_
          have hne : c ≠ id := by
            rintro rfl
            exact hid hc
          rw [hother c hne]
        rw [hsame]
        cases (calls[id]?).bind (s.notice connection id) <;> rfl
    have herase : ∀ c : CallToken, c ≠ id → (calls.erase id)[c]? = calls[c]? :=
      fun c hc => getElem?_erase_ne (Ne.symm hc)
    unfold close_calls
    cases hroute : calls[id]? with
    | none =>
      rw [hroute] at hrest
      exact hrest calls notifications (fun _ _ => rfl) hroute (by simp)
    | some route =>
      rw [hroute] at hrest
      dsimp only
      cases hfate : s.fate connection route with
      | TargetDead | Dropped =>
        refine hrest _ _ herase ?_ ?_
        · simp [Option.filter, hfate]
        · simp [notice, hfate]
      | CallerDead =>
        refine hrest _ _ (fun _ _ => rfl) ?_ ?_
        · simp [hroute, Option.filter, hfate]
        · simp [notice, hfate]

theorem mem_call_ids {call : CallToken} :
    call ∈ s.call_ids connection ↔
      ∃ route, s.calls[call]? = some route ∧ touches connection route := by
  unfold call_ids
  simp only [List.mem_filterMap]
  constructor
  · rintro ⟨⟨c, route⟩, hmem, hc⟩
    obtain ⟨htouches, hc⟩ := Option.ite_none_right_eq_some.mp hc
    cases hc
    exact ⟨route, mem_toList_iff_getElem?_eq_some.mp hmem, htouches⟩
  · rintro ⟨route, hroute, htouches⟩
    exact ⟨(call, route), mem_toList_iff_getElem?_eq_some.mpr hroute,
      if_pos htouches⟩

theorem call_ids_nodup : (s.call_ids connection).Nodup := by
  refine (Std.ExtTreeMap.distinct_keys_toList (t := s.calls)).filterMap _ ?_
  intro e e' hne c hc c' hc' hcall
  obtain ⟨-, hc⟩ := Option.ite_none_right_eq_some.mp hc
  obtain ⟨-, hc'⟩ := Option.ite_none_right_eq_some.mp hc'
  refine hne ?_
  rw [Option.some.inj hc, Option.some.inj hc', hcall]
  exact Std.ReflCmp.compare_self

/-- The table after a close: what does not touch the connection, and the tombstones. -/
def kept (route : CallRoute) : Bool :=
  ¬ touches connection route ∨ s.fate connection route = .CallerDead

/-- What `close` makes of the calls. -/
theorem close_calls_eq :
    (∀ c : CallToken, (s.close_calls connection (s.call_ids connection) s.calls []).1[c]? =
      (s.calls[c]?).filter (s.kept connection)) ∧
    (s.close_calls connection (s.call_ids connection) s.calls []).2 =
      s.call_notices connection := by
  obtain ⟨hcalls, hnotes⟩ := close_calls_spec s connection (s.call_ids connection) s.calls []
    (call_ids_nodup s connection)
  refine ⟨fun c => ?_, ?_⟩
  · rw [hcalls]
    cases hroute : s.calls[c]? with
    | none => simp
    | some route =>
      by_cases htouches : touches connection route
      · rw [if_pos ((mem_call_ids s connection).mpr ⟨route, hroute, htouches⟩)]
        simp [kept, htouches, Option.filter]
      · rw [if_neg]
        · simp [kept, htouches, Option.filter]
        · intro hmem
          obtain ⟨_, hroute', htouches'⟩ := (mem_call_ids s connection).mp hmem
          rw [hroute] at hroute'
          rw [Option.some.inj hroute'] at htouches
          exact htouches htouches'
  · rw [hnotes, List.nil_append]
    unfold call_ids call_notices
    rw [List.filterMap_filterMap]
    refine List.filterMap_congr fun e he => ?_
    obtain ⟨call, route⟩ := e
    have hroute := mem_toList_iff_getElem?_eq_some.mp he
    dsimp only
    by_cases htouches : touches connection route
    · rw [show (if route.sender = connection ∨ route.target.owner = connection then some call
        else none) = some call from if_pos htouches]
      simp [hroute]
    · rw [show (if route.sender = connection ∨ route.target.owner = connection then some call
        else none) = none from if_neg htouches]
      simp [notice, fate_of_not_touches htouches]

/-! ## What an operation can do -/

/-- The authority after a close. -/
def closed : RoutingAuthority :=
  { s with
    calls := (s.close_calls connection (s.call_ids connection) s.calls []).1
    deaths := s.deaths.filter fun key _ => key.subscriber ≠ connection
    connections := s.connections.erase connection
    context_manager :=
      if s.context_manager.any (fun node => node.owner = connection) then none
      else s.context_manager }

end

/-- A node is published by a live connection. -/
def Published (s : RoutingAuthority) (node : NodeToken) : Prop :=
  ∃ connection, s.connections[node.owner]? = some connection ∧ node.localNode ∈ connection.nodes

/-- A connection with one more node. -/
def ConnectionState.with_node (connection : ConnectionState) (localNode : LocalNodeToken) :
    ConnectionState :=
  { connection with nodes := insert localNode connection.nodes }

/-- The operations with what they find, return and leave. -/
inductive Change (s : RoutingAuthority) : Op → Except Error Reply → RoutingAuthority → Prop
  | failed {op : Op} {error : Error} : Change s op (.error error) s
  | read {op : Op} {reply : Reply}
      (hreply : (∃ peer, reply = .Peer peer) ∨ ∃ message, reply = .Response message) :
      Change s op (.ok reply) s
  | opened {peer : PeerIdentity} {memory : Bool} {connection : ConnectionToken}
      (hnext : connection.raw = s.next_connection + 1) :
      Change s (.open_authenticated peer memory)
        (.ok (.Opened ⟨⟨s.identity, connection⟩, .ConnectionOpened connection peer.android_uid⟩))
        { s with
          connections := s.connections.insert connection ⟨peer, ∅⟩
          next_connection := connection.raw }
  | published {session : Session} {localNode : LocalNodeToken} {memory : Bool}
      {connection : ConnectionState} (hconn : s.connections[session.connection]? = some connection) :
      Change s (.publish_node session localNode memory)
        (.ok (.Response (.NodePublished ⟨session.connection, localNode⟩)))
        { s with connections :=
            s.connections.insert session.connection (connection.with_node localNode) }
  /-- The sticky uid is bound, and then there is no memory for the node. -/
  | uid_bound {session : Session} {localNode : LocalNodeToken} {memory : Bool}
      {connection : ConnectionState} (hnone : s.context_manager = none)
      (hconn : s.connections[session.connection]? = some connection)
      (huid : connection.peer.android_uid = 0 ∨ connection.peer.android_uid = 1000)
      (hsticky : ∀ uid, s.context_manager_uid = some uid → uid = connection.peer.android_uid) :
      Change s (.set_context_manager session localNode memory) (.error .OutOfMemory)
        { s with context_manager_uid := some connection.peer.android_uid }
  | manager_set {session : Session} {localNode : LocalNodeToken} {memory : Bool}
      {connection : ConnectionState} (hconn : s.connections[session.connection]? = some connection)
      (huid : connection.peer.android_uid = 0 ∨ connection.peer.android_uid = 1000) :
      Change s (.set_context_manager session localNode memory)
        (.ok (.Response (.ContextManagerSet ⟨session.connection, localNode⟩)))
        { s with
          connections :=
            s.connections.insert session.connection (connection.with_node localNode)
          context_manager := some ⟨session.connection, localNode⟩
          context_manager_uid := some connection.peer.android_uid }
  | routed_oneway {sender : Session} {target : NodeToken} {caller_thread : UInt64}
      {transfer : TransferToken} {code flags : UInt32} {memory : Bool} {outcome : RouteOutcome}
      (hdelivery : outcome.delivery.destination = target.owner)
      (hmessage : ∃ pid euid localNode, outcome.delivery.message = .DeliverTransaction none
        sender.connection pid euid localNode caller_thread transfer code flags)
      (hack : outcome.acknowledgement = .RouteAccepted none)
      (htarget : s.Published target) :
      Change s (.route_transaction sender target caller_thread transfer code flags memory)
        (.ok (.Routed outcome)) s
  | routed {sender : Session} {target : NodeToken} {caller_thread : UInt64}
      {transfer : TransferToken} {code flags : UInt32} {memory : Bool} {outcome : RouteOutcome}
      {call : CallToken} (hnext : call.raw = s.next_call + 1)
      (hdelivery : outcome.delivery.destination = target.owner)
      (hmessage : ∃ pid euid localNode, outcome.delivery.message = .DeliverTransaction (some call)
        sender.connection pid euid localNode caller_thread transfer code flags)
      (hack : outcome.acknowledgement = .RouteAccepted (some call))
      (hsender : s.connections.contains sender.connection = true) (htarget : s.Published target) :
      Change s (.route_transaction sender target caller_thread transfer code flags memory)
        (.ok (.Routed outcome))
        { s with
          calls := s.calls.insert call ⟨sender.connection, caller_thread, target⟩
          next_call := call.raw }
  | reply_dropped {replier : Session} {call : CallToken} {transfer : TransferToken}
      {code flags : UInt32} {route : CallRoute} (hroute : s.calls[call]? = some route)
      (howner : route.target.owner = replier.connection)
      (hgone : s.connections.contains route.sender = false) :
      Change s (.complete_reply replier call transfer code flags) (.ok (.Replied none))
        { s with calls := s.calls.erase call }
  | replied {replier : Session} {call : CallToken} {transfer : TransferToken}
      {code flags : UInt32} {route : CallRoute} {pid : Int32} {euid : UInt32}
      (hroute : s.calls[call]? = some route) (howner : route.target.owner = replier.connection)
      (hsender : s.connections.contains route.sender = true) :
      Change s (.complete_reply replier call transfer code flags)
        (.ok (.Replied (some ⟨route.sender, .DeliverReply call replier.connection pid euid
          route.caller_thread transfer code flags⟩)))
        { s with calls := s.calls.erase call }
  | death_requested {subscriber : Session} {target : NodeToken} {cookie : UInt64} {memory : Bool}
      (hsubscriber : s.connections.contains subscriber.connection = true) :
      Change s (.request_death subscriber target cookie memory) (.ok (.Response .DeathRequested))
        { s with deaths := s.deaths.insert ⟨subscriber.connection, target⟩ cookie }
  | death_cleared {subscriber : Session} {target : NodeToken} {cookie : UInt64} :
      Change s (.clear_death subscriber target cookie) (.ok (.Response .DeathCleared))
        { s with deaths := s.deaths.erase ⟨subscriber.connection, target⟩ }
  | closed {session : Session} {memory : CloseMemory}
      (hconn : s.connections.contains session.connection = true) :
      Change s (.close session memory)
        (.ok (.Closed ⟨s.call_notices session.connection ++ s.close_deaths session.connection⟩))
        (s.closed session.connection)

theorem connection_eq_ok {session : Session} {connection : ConnectionState}
    (h : s.connection session = .ok connection) :
    s.connections[session.connection]? = some connection := by
  unfold RoutingAuthority.connection at h
  split at h
  · simp at h
  · split at h
    · simp at h
    · next connection' hconn =>
      rw [hconn, Except.ok.inj h]

variable {localNode : LocalNodeToken} {identity : ℕ} {es : List Event} {e : Event}

theorem add_node_eq_ok {connection connection' : ConnectionState}
    {memory : Bool} (h : add_node connection localNode memory = .ok connection') :
    connection' = connection.with_node localNode := by
  unfold add_node at h
  split at h
  · next hmem =>
    rw [← Except.ok.inj h, ConnectionState.with_node, Finset.insert_eq_of_mem hmem]
  · split at h
    · simp at h
    · exact (Except.ok.inj h).symm

theorem add_node_eq_error {connection : ConnectionState}
    {memory : Bool} {error : Error} (h : add_node connection localNode memory = .error error) :
    error = .OutOfMemory := by
  unfold add_node at h
  split at h
  · simp at h
  · split at h
    · exact (Except.error.inj h).symm
    · simp at h

theorem change_set_context_manager (s : RoutingAuthority) (session : Session)
    (localNode : LocalNodeToken) (memory : Bool) :
    Change s (.set_context_manager session localNode memory)
      ((s.set_context_manager session localNode memory).1.map .Response)
      (s.set_context_manager session localNode memory).2 := by
  unfold set_context_manager
  split
  · exact .failed
  split
  · exact .failed
  next hbusy =>
  split
  · exact .failed
  next connection hconn =>
  dsimp only
  split
  · exact .failed
  next huid =>
  have huid : connection.peer.android_uid = 0 ∨ connection.peer.android_uid = 1000 := by
    by_contra hnot
    exact huid ⟨fun h => hnot (.inl h), fun h => hnot (.inr h)⟩
  split
  · exact .failed
  next hwrong =>
  -- the uid is bound from here on
  split
  · next error hadd =>
    rw [add_node_eq_error hadd]
    refine .uid_bound (by simpa using hbusy) hconn huid fun uid hbound => ?_
    by_contra hne
    exact hwrong (by simp [hbound, hne])
  · next connection' hadd =>
    rw [add_node_eq_ok hadd]
    exact .manager_set hconn huid

theorem change_route_transaction (s : RoutingAuthority) (sender : Session) (target : NodeToken)
    (caller_thread : UInt64) (transfer : TransferToken) (code flags : UInt32) (memory : Bool) :
    Change s (.route_transaction sender target caller_thread transfer code flags memory)
      ((s.route_transaction sender target caller_thread transfer code flags memory).1.map .Routed)
      (s.route_transaction sender target caller_thread transfer code flags memory).2 := by
  unfold route_transaction
  split
  · exact .failed
  split
  · exact .failed
  next sender_connection hsender =>
  split
  · exact .failed
  next target_connection htarget =>
  split
  · exact .failed
  next hnode =>
  have hpublished : s.Published target := ⟨target_connection, htarget, by simpa using hnode⟩
  split
  · split
    · exact .failed
    · next call hcall =>
      split
      · exact .failed
      · exact .routed (Token.after_eq_some hcall) rfl ⟨_, _, _, rfl⟩ rfl
          (contains_of_some (connection_eq_ok hsender)) hpublished
  · exact .routed_oneway rfl ⟨_, _, _, rfl⟩ rfl hpublished

theorem change_complete_reply (s : RoutingAuthority) (replier : Session) (call : CallToken)
    (transfer : TransferToken) (code flags : UInt32) :
    Change s (.complete_reply replier call transfer code flags)
      ((s.complete_reply replier call transfer code flags).1.map .Replied)
      (s.complete_reply replier call transfer code flags).2 := by
  unfold complete_reply
  split
  · exact .failed
  next replier_connection hreplier =>
  split
  · exact .failed
  next route hroute =>
  split
  · exact .failed
  next howner =>
  split
  · next hgone =>
    exact .reply_dropped hroute (by simpa using howner) (Bool.eq_false_of_not_eq_true hgone)
  · next hsender => exact .replied hroute (by simpa using howner) (Decidable.not_not.mp hsender)

/-- **Every operation is one of these changes.** -/
theorem change (s : RoutingAuthority) (op : Op) : Change s op (s.perform op).1 (s.perform op).2 := by
  cases op with
  | open_authenticated peer memory =>
    show Change s _ ((s.open_authenticated peer memory).1.map .Opened) _
    simp only [perform]
    unfold open_authenticated
    split
    · exact .failed
    · next connection hconnection =>
      split
      · exact .failed
      · exact .opened (Token.after_eq_some hconnection)
  | peer session =>
    show Change s _ ((s.peer session).map .Peer) s
    cases s.peer session with
    | error => exact .failed
    | ok peer => exact .read (.inl ⟨peer, rfl⟩)
  | publish_node =>
    simp only [perform]
    unfold publish_node
    split
    · exact .failed
    · next connection hconn =>
      split
      · exact .failed
      · next connection' hadd =>
        rw [add_node_eq_ok hadd]
        exact .published (connection_eq_ok hconn)
  | set_context_manager session localNode memory =>
    exact change_set_context_manager s session localNode memory
  | get_context_manager session =>
    show Change s _ ((s.get_context_manager session).map .Response) s
    cases s.get_context_manager session with
    | error => exact .failed
    | ok message => exact .read (.inr ⟨message, rfl⟩)
  | route_transaction sender target caller_thread transfer code flags memory =>
    exact change_route_transaction s sender target caller_thread transfer code flags memory
  | complete_reply replier call transfer code flags =>
    exact change_complete_reply s replier call transfer code flags
  | request_death =>
    simp only [perform]
    unfold request_death
    split
    · exact .failed
    next connection hsubscriber =>
    split
    · exact .failed
    split
    · exact .failed
    split
    · exact .failed
    split
    · exact .failed
    · exact .death_requested (contains_of_some (connection_eq_ok hsubscriber))
  | clear_death =>
    simp only [perform]
    unfold clear_death
    split
    · exact .failed
    split
    · exact .failed
    split
    · exact .failed
    · exact .death_cleared
  | close session memory =>
    simp only [perform]
    unfold close
    split
    · exact .failed
    next connection hconn =>
    split
    · exact .failed
    split
    · exact .failed
    · have hclosed : Change s (.close session memory) _ _ :=
        .closed (contains_of_some (connection_eq_ok hconn))
      rwa [← (close_calls_eq s session.connection).2] at hclosed

/-! ## The invariant -/

/-- What every operation keeps. -/
structure Wf (s : RoutingAuthority) : Prop where
  /-- Tokens up to the counters have been handed out. -/
  connection_le : ∀ c, s.connections.contains c = true → c.raw ≤ s.next_connection
  call_le : ∀ (call : CallToken) route, s.calls[call]? = some route → call.raw ≤ s.next_call
  sender_le : ∀ (call : CallToken) route, s.calls[call]? = some route →
    route.sender.raw ≤ s.next_connection
  /-- The target of a route is published by a live connection. -/
  target : ∀ (call : CallToken) route, s.calls[call]? = some route → s.Published route.target
  /-- A subscriber is live; what it subscribes to need not be. -/
  subscriber : ∀ (key : Subscription) cookie, s.deaths[key]? = some cookie →
    s.connections.contains key.subscriber = true
  /-- The context manager is a node of a live connection with the uid it is bound to. -/
  manager : ∀ node, s.context_manager = some node →
    ∃ connection, s.connections[node.owner]? = some connection ∧
      node.localNode ∈ connection.nodes ∧
      (connection.peer.android_uid = 0 ∨ connection.peer.android_uid = 1000) ∧
      s.context_manager_uid = some connection.peer.android_uid

theorem Wf.new (identity : ℕ) : Wf (RoutingAuthority.new identity) := by
  constructor <;> simp [RoutingAuthority.new]

section Changes

variable {s : RoutingAuthority}

variable {c connection : ConnectionToken}

/-- The next token is not in use. -/
theorem Wf.fresh (h : Wf s) (hc : c.raw = s.next_connection + 1)
    {c' : ConnectionToken} (hc' : s.connections.contains c' = true) : c ≠ c' := by
  rintro rfl
  have := h.connection_le c hc'
  omega

/-- A connection is opened. -/
theorem Wf.opened (h : Wf s) (hc : c.raw = s.next_connection + 1) (connection : ConnectionState) :
    Wf { s with
      connections := s.connections.insert c connection
      next_connection := c.raw } := by
  have hfound : ∀ (c' : ConnectionToken) connection', s.connections[c']? = some connection' →
      (s.connections.insert c connection)[c']? = some connection' := by
    intro c' connection' hc'
    rwa [getElem?_insert_ne (h.fresh hc (contains_of_some hc'))]
  constructor
  case connection_le =>
    intro c' hc'
    rcases contains_insert_iff.mp hc' with rfl | hc'
    · exact le_rfl
    · have := h.connection_le c' hc'
      show c'.raw ≤ c.raw
      omega
  case call_le => exact h.call_le
  case sender_le =>
    intro call route hroute
    have := h.sender_le call route hroute
    show route.sender.raw ≤ c.raw
    omega
  case target =>
    intro call route hroute
    obtain ⟨connection', hconn, hnode⟩ := h.target call route hroute
    exact ⟨connection', hfound _ _ hconn, hnode⟩
  case subscriber =>
    intro key cookie hkey
    exact contains_insert_iff.mpr (.inr (h.subscriber key cookie hkey))
  case manager =>
    intro node hnode
    obtain ⟨connection', hconn, hrest⟩ := h.manager node hnode
    exact ⟨connection', hfound _ _ hconn, hrest⟩

/-- A node is published, and perhaps made the context manager. -/
theorem Wf.with_node (h : Wf s) {connection : ConnectionState}
    (hconn : s.connections[c]? = some connection) (localNode : LocalNodeToken)
    {manager : Option NodeToken} {uid : Option UInt32}
    (hmanager : (manager = s.context_manager ∧ uid = s.context_manager_uid) ∨
      (manager = some ⟨c, localNode⟩ ∧ uid = some connection.peer.android_uid ∧
        (connection.peer.android_uid = 0 ∨ connection.peer.android_uid = 1000))) :
    Wf { s with
      connections := s.connections.insert c (connection.with_node localNode)
      context_manager := manager
      context_manager_uid := uid } := by
  -- what was there is there, with its peer and its nodes
  have hfound : ∀ (c' : ConnectionToken) connection', s.connections[c']? = some connection' →
      ∃ connection'', (s.connections.insert c (connection.with_node localNode))[c']? =
        some connection'' ∧ connection''.peer = connection'.peer ∧
        connection'.nodes ⊆ connection''.nodes := by
    intro c' connection' hc'
    rcases eq_or_ne c c' with rfl | heq
    · rw [hconn] at hc'
      cases hc'
      exact ⟨_, getElem?_insert_self, rfl, Finset.subset_insert _ _⟩
    · exact ⟨connection', (getElem?_insert_ne heq).trans hc', rfl, Finset.Subset.refl _⟩
  constructor
  case connection_le =>
    intro c' hc'
    rcases contains_insert_iff.mp hc' with rfl | hc'
    · exact h.connection_le c (contains_of_some hconn)
    · exact h.connection_le c' hc'
  case call_le => exact h.call_le
  case sender_le => exact h.sender_le
  case target =>
    intro call route hroute
    obtain ⟨connection', hconn', hnode⟩ := h.target call route hroute
    obtain ⟨connection'', hconn'', -, hnodes⟩ := hfound _ _ hconn'
    exact ⟨connection'', hconn'', hnodes hnode⟩
  case subscriber =>
    intro key cookie hkey
    exact contains_insert_iff.mpr (.inr (h.subscriber key cookie hkey))
  case manager =>
    intro node hnode
    rcases hmanager with ⟨rfl, rfl⟩ | ⟨rfl, rfl, huid⟩
    · obtain ⟨connection', hconn', hmem, huid, hbound⟩ := h.manager node hnode
      obtain ⟨connection'', hconn'', hpeer, hnodes⟩ := hfound _ _ hconn'
      refine ⟨connection'', hconn'', hnodes hmem, ?_, ?_⟩
      · rwa [hpeer]
      · rwa [hpeer]
    · cases hnode
      exact ⟨_, getElem?_insert_self, Finset.mem_insert_self _ _, huid, rfl⟩

/-- A call is routed. -/
theorem Wf.routed (h : Wf s) {call : CallToken} {route : CallRoute}
    (hcall : call.raw = s.next_call + 1) (hsender : s.connections.contains route.sender = true)
    (htarget : s.Published route.target) :
    Wf { s with
      calls := s.calls.insert call route
      next_call := call.raw } := by
  constructor
  case connection_le => exact h.connection_le
  case call_le =>
    intro call' route' hroute
    show call'.raw ≤ call.raw
    rcases getElem?_insert_cases hroute with ⟨rfl, -⟩ | ⟨-, hroute⟩
    · exact le_rfl
    · have := h.call_le call' route' hroute
      omega
  case sender_le =>
    intro call' route' hroute
    rcases getElem?_insert_cases hroute with ⟨-, rfl⟩ | ⟨-, hroute⟩
    · exact h.connection_le _ hsender
    · exact h.sender_le call' route' hroute
  case target =>
    intro call' route' hroute
    rcases getElem?_insert_cases hroute with ⟨-, rfl⟩ | ⟨-, hroute⟩
    · exact htarget
    · exact h.target call' route' hroute
  case subscriber => exact h.subscriber
  case manager => exact h.manager

/-- A route is removed. -/
theorem Wf.erase_call (h : Wf s) (call : CallToken) : Wf { s with calls := s.calls.erase call } := by
  exact { h with
    call_le := fun call' route hroute => h.call_le call' route (getElem?_erase_cases hroute).2
    sender_le := fun call' route hroute => h.sender_le call' route (getElem?_erase_cases hroute).2
    target := fun call' route hroute => h.target call' route (getElem?_erase_cases hroute).2 }

/-- The routes that a close keeps. -/
theorem closed_calls {call : CallToken} {route : CallRoute} :
    (s.closed connection).calls[call]? = some route ↔
      s.calls[call]? = some route ∧ s.kept connection route = true := by
  show (s.close_calls connection (s.call_ids connection) s.calls []).1[call]? = _ ↔ _
  rw [(close_calls_eq s connection).1, Option.filter_eq_some_iff]

theorem kept_eq_true {route : CallRoute} :
    s.kept connection route = true ↔
      ¬ touches connection route ∨ s.fate connection route = .CallerDead := by
  simp [kept]

/-- A route that a close keeps has another target. -/
theorem target_ne_of_kept {route : CallRoute}
    (h : s.kept connection route = true) : connection ≠ route.target.owner := by
  rcases kept_eq_true.mp h with htouches | hfate
  · exact fun heq => htouches (.inr heq.symm)
  · exact (fate_eq_callerDead.mp hfate).2.1.symm

/-- A connection is closed. -/
theorem Wf.closed (h : Wf s) (connection : ConnectionToken) : Wf (s.closed connection) := by
  constructor
  case connection_le =>
    intro c' hc'
    exact h.connection_le c' (contains_erase_iff.mp hc').2
  case call_le =>
    intro call route hroute
    exact h.call_le call route (closed_calls.mp hroute).1
  case sender_le =>
    intro call route hroute
    exact h.sender_le call route (closed_calls.mp hroute).1
  case target =>
    intro call route hroute
    obtain ⟨hroute, hkept⟩ := closed_calls.mp hroute
    obtain ⟨connection', hconn', hnode⟩ := h.target call route hroute
    exact ⟨connection', (getElem?_erase_ne (target_ne_of_kept hkept)).trans hconn', hnode⟩
  case subscriber =>
    intro key cookie hkey
    have hkey : (s.deaths.filter fun key _ => decide (key.subscriber ≠ connection))[key]? =
        some cookie := hkey
    rw [Std.ExtTreeMap.getElem?_filter, Option.pfilter_eq_some_iff] at hkey
    obtain ⟨hkey, hne⟩ := hkey
    refine contains_erase_iff.mpr ⟨?_, h.subscriber key cookie hkey⟩
    intro heq
    rw [Std.ExtTreeMap.getKey_eq, heq] at hne
    simp at hne
  case manager =>
    intro node hnode
    have hnode : (if s.context_manager.any (fun node => node.owner = connection) then none
      else s.context_manager) = some node := hnode
    split at hnode
    · simp at hnode
    · next hany =>
      obtain ⟨connection', hconn', hrest⟩ := h.manager node hnode
      refine ⟨connection', (getElem?_erase_ne ?_).trans hconn', hrest⟩
      intro heq
      apply hany
      rw [hnode, heq]
      simp

end Changes

/-- **Every operation keeps the invariant.** -/
theorem Wf.change {s' : RoutingAuthority} {op : Op} {result : Except Error Reply} (h : Wf s)
    (hc : Change s op result s') : Wf s' := by
  cases hc with
  | failed => exact h
  | read => exact h
  | opened hnext => exact h.opened hnext _
  | published hconn => exact h.with_node hconn _ (.inl ⟨rfl, rfl⟩)
  | uid_bound hnone =>
    exact { h with manager := fun _ hnode => absurd (hnone.symm.trans hnode) (by simp) }
  | manager_set hconn huid => exact h.with_node hconn _ (.inr ⟨rfl, rfl, huid⟩)
  | routed_oneway => exact h
  | routed hnext _ _ _ hsender htarget => exact h.routed hnext hsender htarget
  | reply_dropped => exact h.erase_call _
  | replied => exact h.erase_call _
  | death_requested hsubscriber =>
    refine { h with subscriber := fun key cookie hkey => ?_ }
    rcases getElem?_insert_cases hkey with ⟨rfl, -⟩ | ⟨-, hkey⟩
    · exact hsubscriber
    · exact h.subscriber key cookie hkey
  | death_cleared =>
    refine { h with subscriber := fun key cookie hkey => ?_ }
    exact h.subscriber key cookie (getElem?_erase_cases hkey).2
  | closed => exact h.closed _

/-! ## Whole runs -/

/-- The token an event opened. -/
def Event.opened (e : Event) : Option ConnectionToken :=
  match e.result with
  | .ok (.Opened opened) => some opened.session.connection
  | _ => none

/-- The synchronous call an event accepted. -/
def Event.accepted (e : Event) : Option CallToken :=
  match e.result with
  | .ok (.Routed ⟨.RouteAccepted call, _⟩) => call
  | _ => none

/-- The event closes the caller of a call in the table, and tells its target. -/
def Event.Buries (e : Event) (call : CallToken) (route : CallRoute) : Prop :=
  ∃ session memory, e.op = .close session memory ∧ session.connection = route.sender ∧
    e.before.calls[call]? = some route ∧ ⟨route.target.owner, .CallerDead call⟩ ∈ e.emitted

/-- The change an event makes. -/
theorem Event.change (e : Event) : Change e.before e.op e.result e.after :=
  RoutingAuthority.change e.before e.op

/-- A run keeps the authority well formed, before each event and at its end. -/
theorem run_wf (hrun : Run Step (RoutingAuthority.new identity) es s) :
    Wf s ∧ ∀ e ∈ es, Wf e.before := by
  refine hrun.each Wf (Wf.new identity) ?_
  rintro s e _ h ⟨rfl, rfl⟩
  exact ⟨h.change e.change, h⟩

/-- An event opens the next connection, if any. -/
theorem Event.opened_next (e : Event) :
    (e.opened = none ∧ e.after.next_connection = e.before.next_connection) ∨
      ∃ c, e.opened = some c ∧ c.raw = e.before.next_connection + 1 ∧
        e.after.next_connection = c.raw := by
  have hc := e.change
  unfold opened
  generalize e.op = op at hc
  generalize e.result = result at hc
  generalize e.after = after at hc
  cases hc with
  | opened hnext => exact .inr ⟨_, rfl, hnext, rfl⟩
  | read hreply =>
    rcases hreply with ⟨_, rfl⟩ | ⟨_, rfl⟩
    · exact .inl ⟨rfl, rfl⟩
    · exact .inl ⟨rfl, rfl⟩
  | _ => exact .inl ⟨rfl, rfl⟩

/-- An event accepts the next call, if any. -/
theorem Event.accepted_next (e : Event) :
    (e.accepted = none ∧ e.after.next_call = e.before.next_call) ∨
      ∃ c, e.accepted = some c ∧ c.raw = e.before.next_call + 1 ∧ e.after.next_call = c.raw := by
  have hc := e.change
  unfold accepted
  generalize e.op = op at hc
  generalize e.result = result at hc
  generalize e.after = after at hc
  cases hc with
  | @routed sender target caller_thread transfer code flags memory outcome call hnext _ _ hack =>
    obtain ⟨acknowledgement, delivery⟩ := outcome
    obtain rfl : acknowledgement = .RouteAccepted (some call) := hack
    exact .inr ⟨call, rfl, hnext, rfl⟩
  | @routed_oneway sender target caller_thread transfer code flags memory outcome _ _ hack =>
    obtain ⟨acknowledgement, delivery⟩ := outcome
    obtain rfl : acknowledgement = .RouteAccepted none := hack
    exact .inl ⟨rfl, rfl⟩
  | read hreply =>
    rcases hreply with ⟨_, rfl⟩ | ⟨_, rfl⟩
    · exact .inl ⟨rfl, rfl⟩
    · exact .inl ⟨rfl, rfl⟩
  | _ => exact .inl ⟨rfl, rfl⟩

/-- Tokens handed out by a counter, one at most by each event, never repeat. -/
theorem tokens_nodup {kind : TokenKind}
    (token : Event → Option (Token kind)) (counter : RoutingAuthority → ℕ)
    (hnext : ∀ e, (token e = none ∧ counter e.after = counter e.before) ∨
      ∃ c, token e = some c ∧ c.raw = counter e.before + 1 ∧ counter e.after = c.raw)
    (hrun : Run Step (RoutingAuthority.new identity) es s) :
    (es.filterMap token).Nodup ∧ ∀ c ∈ es.filterMap token, c.raw ≤ counter s := by
  refine hrun.history (fun es s => (es.filterMap token).Nodup ∧
    ∀ c ∈ es.filterMap token, c.raw ≤ counter s) (by simp) ?_
  rintro es s e _ - ⟨hnodup, hle⟩ ⟨rfl, rfl⟩
  rw [List.filterMap_append]
  rcases hnext e with ⟨hnone, hsame⟩ | ⟨c, hsome, _, hafter⟩
  · have hlast : [e].filterMap token = [] := by simp [hnone]
    rw [hsame, hlast, List.append_nil]
    exact ⟨hnodup, hle⟩
  · have hlast : [e].filterMap token = [c] := by simp [hsome]
    rw [hlast, hafter]
    refine ⟨List.nodup_append.mpr ⟨hnodup, by simp, ?_⟩, fun c' hc' => ?_⟩
    · intro a ha b hb heq
      have := hle a ha
      rw [heq, List.mem_singleton.mp hb] at this
      omega
    · rcases List.mem_append.mp hc' with hc' | hc'
      · have := hle c' hc'
        omega
      · rw [List.mem_singleton.mp hc']

/-- A connection stays while it is not closed. -/
theorem Event.stays {c : ConnectionToken} (hc : e.before.connections.contains c = true) :
    e.after.connections.contains c = true ∨
      ∃ session memory, e.op = .close session memory ∧ session.connection = c ∧
        e.after = e.before.closed c := by
  have hchange := e.change
  generalize hop : e.op = op at hchange
  generalize hresult : e.result = result at hchange
  generalize hafter : e.after = after at hchange
  cases hchange with
  | opened | published | manager_set =>
    exact .inl (contains_insert_iff.mpr (.inr hc))
  | @closed session memory hconn =>
    by_cases heq : session.connection = c
    · exact .inr ⟨session, memory, rfl, heq, by rw [heq]⟩
    · exact .inl (contains_erase_iff.mpr ⟨heq, hc⟩)
  | _ => exact .inl hc

/-- A route in the table was there before, or the event has just accepted it. -/
theorem Event.route_before {call : CallToken} {route : CallRoute}
    (hroute : e.after.calls[call]? = some route) :
    e.before.calls[call]? = some route ∨
      (call.raw = e.before.next_call + 1 ∧ e.after.connections.contains route.sender = true) := by
  have hchange := e.change
  generalize hop : e.op = op at hchange
  generalize hresult : e.result = result at hchange
  generalize hafter : e.after = after at hchange hroute
  cases hchange with
  | @routed sender target caller_thread transfer code flags memory outcome call' hnext _ _ _
      hsender _ =>
    rcases getElem?_insert_cases hroute with ⟨rfl, rfl⟩ | ⟨-, hroute⟩
    · exact .inr ⟨hnext, hsender⟩
    · exact .inl hroute
  | reply_dropped | replied =>
    exact .inl (getElem?_erase_cases hroute).2
  | closed => exact .inl (closed_calls.mp hroute).1
  | _ => exact .inl hroute

/-- What a close emits. -/
theorem Event.emitted_close {session : Session} {memory : CloseMemory}
    (hop : e.op = .close session memory) :
    (∃ error, e.result = .error error ∧ e.after = e.before ∧ e.emitted = []) ∨
      (e.before.connections.contains session.connection = true ∧
        e.after = e.before.closed session.connection ∧
        e.emitted = e.before.call_notices session.connection ++
          e.before.close_deaths session.connection) := by
  have hchange := e.change
  unfold emitted
  rw [hop] at hchange
  generalize hresult : e.result = result at hchange
  generalize hafter : e.after = after at hchange
  cases hchange with
  | failed => exact .inl ⟨_, rfl, rfl, rfl⟩
  | read hreply =>
    -- `close` answers with a `Closed`
    exfalso
    unfold result at hresult
    rw [hop] at hresult
    simp only [perform] at hresult
    cases hclose : (e.before.close session memory).1 with
    | error =>
      rw [hclose] at hresult
      exact absurd hresult (by simp [Except.map])
    | ok =>
      rw [hclose] at hresult
      rcases hreply with ⟨_, rfl⟩ | ⟨_, rfl⟩ <;>
        exact absurd hresult (by simp [Except.map])
  | closed hconn => exact .inr ⟨hconn, rfl, rfl⟩

/-- The sender of a route is live, or was closed while the call was outstanding. -/
theorem run_tombstones (hrun : Run Step (RoutingAuthority.new identity) es s) :
    ∀ (call : CallToken) route, s.calls[call]? = some route →
      s.connections.contains route.sender = true ∨ ∃ e ∈ es, e.Buries call route := by
  refine hrun.history (fun es s => ∀ (call : CallToken) route, s.calls[call]? = some route →
    s.connections.contains route.sender = true ∨ ∃ e ∈ es, e.Buries call route) ?_ ?_
  · intro call route hroute
    simp [RoutingAuthority.new] at hroute
  · rintro es s e _ - h ⟨rfl, rfl⟩ call route hroute
    rcases route_before hroute with hbefore | ⟨-, hsender⟩
    · rcases h call route hbefore with hlive | ⟨x, hx, hburies⟩
      · rcases stays hlive with hlive | ⟨session, memory, hop, hconn, hafter⟩
        · exact .inl hlive
        · -- the caller is being closed, and the route is kept: it becomes a tombstone
          rw [hafter] at hroute
          obtain ⟨-, hkept⟩ := closed_calls.mp hroute
          have hfate : e.before.fate route.sender route = .CallerDead := by
            rcases kept_eq_true.mp hkept with htouches | hfate
            · exact absurd (.inl rfl) htouches
            · exact hfate
          refine .inr ⟨e, by simp, session, memory, hop, hconn, hbefore, ?_⟩
          rcases emitted_close hop with ⟨_, -, hsame, -⟩ | ⟨-, -, hemitted⟩
          · -- a close that failed leaves the connection
            exfalso
            rw [hsame] at hafter
            have hgone := congrArg (fun s => s.connections.contains route.sender) hafter
            have hfalse : (e.before.closed route.sender).connections.contains route.sender =
                false := by
              show (e.before.connections.erase route.sender).contains route.sender = false
              simp
            rw [hlive, hfalse] at hgone
            cases hgone
          · rw [hemitted, hconn]
            refine List.mem_append_left _ (List.mem_filterMap.mpr ⟨(call, route),
              mem_toList_iff_getElem?_eq_some.mpr hbefore, ?_⟩)
            show e.before.notice route.sender call route = _
            unfold notice
            rw [hfate]
      · exact .inr ⟨x, List.mem_append_left _ hx, hburies⟩
    · exact .inl hsender

/-- A `set_context_manager` that fails for want of memory has bound the uid. -/
def Event.BindsUid (e : Event) (error : Error) : Prop :=
  ∃ session localNode memory connection,
    e.op = .set_context_manager session localNode memory ∧ error = .OutOfMemory ∧
    e.before.connections[session.connection]? = some connection ∧
    e.after = { e.before with context_manager_uid := some connection.peer.android_uid }

/-- A failed operation changes nothing, but for the uid it may have bound. -/
theorem Event.failed {error : Error} (hresult : e.result = .error error) :
    e.after = e.before ∨ e.BindsUid error := by
  have hc := e.change
  rw [hresult] at hc
  unfold Event.BindsUid
  generalize e.op = op at hc
  generalize e.after = after at hc
  cases hc with
  | failed => exact .inl rfl
  | @uid_bound session localNode memory connection _ hconn _ _ =>
    exact .inr ⟨session, localNode, memory, connection, rfl, rfl, hconn, rfl⟩

/-- **The state invariant**, of every run by any sessions in any order. -/
theorem authority_state_invariant {identity : ℕ} {es : List Event} {s : RoutingAuthority}
    (hrun : Run Step (RoutingAuthority.new identity) es s) :
    -- tokens are never reused
    (es.filterMap Event.opened).Nodup ∧ (es.filterMap Event.accepted).Nodup ∧
    -- a route has a live target, and a live sender unless it is a tombstone
    (∀ (call : CallToken) route, s.calls[call]? = some route → s.Published route.target ∧
      (s.connections.contains route.sender = true ∨ ∃ e ∈ es, e.Buries call route)) ∧
    (∀ (key : Subscription) cookie, s.deaths[key]? = some cookie →
      s.connections.contains key.subscriber = true) ∧
    (∀ node, s.context_manager = some node → ∃ connection,
      s.connections[node.owner]? = some connection ∧ node.localNode ∈ connection.nodes ∧
      (connection.peer.android_uid = 0 ∨ connection.peer.android_uid = 1000) ∧
      s.context_manager_uid = some connection.peer.android_uid) ∧
    (∀ e ∈ es, ∀ error, e.result = .error error → e.after = e.before ∨ e.BindsUid error) := by
  obtain ⟨hwf, -⟩ := run_wf hrun
  refine ⟨(tokens_nodup opened next_connection opened_next hrun).1,
    (tokens_nodup accepted next_call accepted_next hrun).1, ?_, hwf.subscriber,
    hwf.manager, fun e _ _ herror => failed herror⟩
  intro call route hroute
  exact ⟨hwf.target call route hroute, run_tombstones hrun call route hroute⟩

/-! ## A run -/

/-- The events of a list of operations. -/
def events : RoutingAuthority → List Op → List Event
  | _, [] => []
  | s, op :: ops => ⟨s, op⟩ :: events (s.perform op).2 ops

theorem run_events (s : RoutingAuthority) (ops : List Op) :
    Run Step s (events s ops) (ops.foldl (fun s op => (s.perform op).2) s) := by
  induction ops generalizing s with
  | nil => exact Run.nil s
  | cons op _ ih =>
    exact Run.append (Run.single (e := ⟨s, op⟩) ⟨rfl, rfl⟩) (ih (s.perform op).2)

/-- The session of the connection `n + 1` of authority 0. -/
def session (n : Fin 8) : Session := ⟨0, ⟨n + 1, by omega, by omega⟩⟩

/-- The first connection publishes a node, the second calls it and closes. -/
def caller_closes : List Op :=
  [.open_authenticated ⟨100, 1000, (0, 0), by decide⟩ true,
    .open_authenticated ⟨200, 10000, (0, 0), by decide⟩ true,
    .set_context_manager (session 0) ⟨1, by decide, by decide⟩ true,
    .route_transaction (session 1) ⟨(session 0).connection, ⟨1, by decide, by decide⟩⟩ 7
      ⟨1, by decide, by decide⟩ 1 0 true,
    .close (session 1) ⟨true, true⟩]

/-- The first connection takes a call of the second and closes before it replies. -/
def target_closes : List Op :=
  caller_closes.take 4 ++
    [.request_death (session 1) ⟨(session 0).connection, ⟨1, by decide, by decide⟩⟩ 5 true,
      .close (session 0) ⟨true, true⟩, .close (session 1) ⟨true, true⟩]

theorem route_of_closed_caller_is_tombstone :
    ∃ (call : CallToken) (route : CallRoute), route.sender = (session 1).connection ∧
      ∃ e ∈ events (RoutingAuthority.new 0) caller_closes, e.Buries call route := by
  obtain ⟨-, -, hroutes, -⟩ := authority_state_invariant (run_events (.new 0) caller_closes)
  refine ⟨⟨1, by decide, by decide⟩, ⟨(session 1).connection, 7, (session 0).connection,
    ⟨1, by decide, by decide⟩⟩, rfl, ?_⟩
  obtain ⟨-, hlive | hburies⟩ := hroutes ⟨1, by decide, by decide⟩ ⟨(session 1).connection, 7,
    (session 0).connection, ⟨1, by decide, by decide⟩⟩ (by decide +kernel)
  · exact absurd hlive (by decide +kernel)
  · exact hburies

end DarwinArt.Binder.RoutingAuthority
