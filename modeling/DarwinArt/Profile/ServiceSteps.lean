/-
What a step of the Binder service can do.

`Change` lists the steps with what they find, what they tell and what they leave behind, the steps
of the authority among them as changes of the authority. `Step.change` is the only place in which
the functions of the service are taken apart. `Sound` is what holds of every state: who is in the
tables and how far the counters have come.
-/
import DarwinArt.Profile.BinderService

set_option autoImplicit false

namespace DarwinArt.Profile

open Lib Binder Binder.RoutingAuthority

/-- The connection whose `remove` has taken the endpoint and not yet told the authority. -/
def Phase.removing : Phase → Option ConnectionToken
  | .Purging d _ | .Closing d _ => some d
  | _ => none

@[simp] theorem Frame.removing_resume (frame : Frame) (notifications : List Outbound) :
    (frame.resume notifications).removing = none := by
  cases frame <;> rfl

namespace BinderService

/-! ## Messages and phases -/

/-- A message that says nothing about a synchronous call. -/
def plain : Message → Bool
  | .RouteAccepted (some _) | .DeliverTransaction (some _) .. | .DeliverReply .. | .TargetDead ..
  | .CallerDead _ => false
  | _ => true

/-- A thread in this phase sends this message to this connection next, and goes on in that phase
if the message is accepted. -/
inductive Sends (c : ConnectionToken) : Phase → ConnectionToken → Message → Phase → Prop
  | opening {m : Message} : Sends c (.Opening m) c m .Serving
  | answering {m : Message} : Sends c (.Answering m) c m .Serving
  | acking {m : Message} {o : Outbound} : Sends c (.Acking m o) c m (.Dispatching [o] none)
  | sending {o : Outbound} {pending : List Outbound} {rest : Option (List Outbound)} :
      Sends c (.Sending o pending rest) o.destination o.message (.Dispatching pending rest)

/-- A thread goes from one phase to another, and nothing else happens. -/
inductive Moves (s : BinderService) (c : ConnectionToken) : Phase → Phase → Prop
  | unanswered {m : Message} (hdead : s.dead c = true) : Moves s c (.Answering m) (.disconnect c)
  | unacknowledged {m : Message} {o : Outbound} (hdead : s.dead c = true) :
      Moves s c (.Acking m o) (.disconnect c)
  | drained : Moves s c (.Dispatching [] none) .Serving
  | notifying {o : Outbound} {rest : List Outbound} :
      Moves s c (.Dispatching [] (some (o :: rest))) (.Dispatching [o] (some rest))
  | unknown {o : Outbound} {pending : List Outbound} {rest : Option (List Outbound)}
      (hnone : s.endpoints[o.destination]? = none) :
      Moves s c (.Dispatching (o :: pending) rest) (.Removing o.destination (.Dispatch pending rest))
  | found {o : Outbound} {pending : List Outbound} {rest : Option (List Outbound)}
      {endpoint : Endpoint} (hsome : s.endpoints[o.destination]? = some endpoint) :
      Moves s c (.Dispatching (o :: pending) rest) (.Sending o pending rest)
  | undelivered {o : Outbound} {pending : List Outbound} {rest : Option (List Outbound)}
      (hdead : s.dead o.destination = true) :
      Moves s c (.Sending o pending rest) (.Removing o.destination (.Dispatch pending rest))
  | absent {d : ConnectionToken} {frame : Frame} (hnone : s.endpoints[d]? = none) :
      Moves s c (.Removing d frame) (frame.resume [])
  | purged {d : ConnectionToken} {frame : Frame} (hclean : s.transfers.clean d = true) :
      Moves s c (.Purging d frame) (.Closing d frame)
  | unclosed {d : ConnectionToken} {frame : Frame} : Moves s c (.Closing d frame) (frame.resume [])

/-! ## The steps -/

/-- The steps with what they find, tell and leave. -/
inductive Change (s : BinderService) : Op → Outcome → BinderService → Prop
  | idle {op : Op} : Change s op .Silent s
  | opened {peer : PeerIdentity} {memory : Bool} {c : ConnectionToken} {response : Message}
      {a : RoutingAuthority} (hplain : plain response = true)
      (hchange : RoutingAuthority.Change s.authority (.open_authenticated peer memory)
        (.ok (.Opened ⟨s.session c, response⟩)) a) :
      Change s (.Serve peer memory) .Silent
        ({ s with authority := a, endpoints := s.endpoints.insert c ⟨peer⟩ }.goto c
          (.Opening response))
  | answered {op : Op} {c : ConnectionToken} {q : RoutingAuthority.Op} {response : Message}
      {a : RoutingAuthority} (hthread : s.threads[c]? = some .Serving)
      (hplain : plain response = true)
      (hchange : RoutingAuthority.Change s.authority q (.ok (.Response response)) a) :
      Change s op .Silent ({ s with authority := a }.goto c (.Answering response))
  | dropped {op : Op} {c : ConnectionToken} {q : RoutingAuthority.Op} {error : Error}
      {a : RoutingAuthority} (hthread : s.threads[c]? = some .Serving)
      (hchange : RoutingAuthority.Change s.authority q (.error error) a) :
      Change s op .Silent ({ s with authority := a }.goto c (.disconnect c))
  /-- A transaction cannot be routed, or a reply comes too late. -/
  | discarded {op : Op} {c : ConnectionToken} {transfer : TransferToken} {bundle : ℕ}
      {q : RoutingAuthority.Op} {result : Except Error Reply} {response : Message}
      {a : RoutingAuthority} (hthread : s.threads[c]? = some .Serving)
      (hentry : s.transfers.entries[(⟨c, transfer⟩ : TransferKey)]? = some ⟨none, bundle⟩)
      (hplain : plain response = true)
      (hchange : RoutingAuthority.Change s.authority q result a)
      (hresult : (∃ error, result = .error error) ∨ result = .ok (.Replied none)) :
      Change s op .Silent
        ({ s with
          authority := a
          transfers := ⟨s.transfers.entries.erase ⟨c, transfer⟩⟩ }.goto c (.Answering response))
  | routed {c : ConnectionToken} {target : NodeToken} {caller_thread : UInt64}
      {transfer : TransferToken} {code flags : UInt32} {memory : Bool} {bundle : ℕ}
      {outcome : RouteOutcome} {a : RoutingAuthority} (hthread : s.threads[c]? = some .Serving)
      (hentry : s.transfers.entries[(⟨c, transfer⟩ : TransferKey)]? = some ⟨none, bundle⟩)
      (hchange : RoutingAuthority.Change s.authority (.route_transaction (s.session c) target
        caller_thread transfer code flags memory) (.ok (.Routed outcome)) a) :
      Change s (.Receive c (.RouteTransaction target caller_thread transfer code flags) memory)
        (.Routed bundle outcome.delivery.destination)
        ({ s with
          authority := a
          transfers := ⟨s.transfers.entries.insert ⟨c, transfer⟩
            ⟨some outcome.delivery.destination, bundle⟩⟩ }.goto c
              (.Acking outcome.acknowledgement outcome.delivery))
  | replied {c : ConnectionToken} {call : CallToken} {transfer : TransferToken}
      {code flags : UInt32} {memory : Bool} {bundle : ℕ} {outbound : Outbound}
      {a : RoutingAuthority} (hthread : s.threads[c]? = some .Serving)
      (hentry : s.transfers.entries[(⟨c, transfer⟩ : TransferKey)]? = some ⟨none, bundle⟩)
      (hchange : RoutingAuthority.Change s.authority (.complete_reply (s.session c) call transfer
        code flags) (.ok (.Replied (some outbound))) a) :
      Change s (.Receive c (.CompleteReply call transfer code flags) memory)
        (.Routed bundle outbound.destination)
        ({ s with
          authority := a
          transfers := ⟨s.transfers.entries.insert ⟨c, transfer⟩
            ⟨some outbound.destination, bundle⟩⟩ }.goto c
              (.Acking (.ReplyAccepted call) outbound))
  | sent {c d : ConnectionToken} {m : Message} {phase phase' : Phase} {memory : CloseMemory}
      (hthread : s.threads[c]? = some phase) (hsends : Sends c phase d m phase')
      (halive : s.dead d = false) :
      Change s (.Go c memory) .Silent
        ({ s with outbox := Function.update s.outbox d (s.outbox d ++ [m]) }.goto c phase')
  | moved {c : ConnectionToken} {phase phase' : Phase} {memory : CloseMemory}
      (hthread : s.threads[c]? = some phase) (hmoves : Moves s c phase phase') :
      Change s (.Go c memory) .Silent (s.goto c phase')
  | finished {c : ConnectionToken} {phase : Phase} {memory : CloseMemory}
      (hthread : s.threads[c]? = some phase)
      (hphase : (∃ m, phase = .Opening m) ∨ phase = .Dispatching [] (some [])) :
      Change s (.Go c memory) .Silent (s.finish c)
  | removed {c d : ConnectionToken} {frame : Frame} {memory : CloseMemory}
      (hthread : s.threads[c]? = some (.Removing d frame)) {endpoint : Endpoint}
      (hendpoint : s.endpoints[d]? = some endpoint) :
      Change s (.Go c memory) .Silent
        ({ s with endpoints := s.endpoints.erase d }.goto c (.Purging d frame))
  | purged {c d : ConnectionToken} {frame : Frame} {key : TransferKey} {entry : Entry}
      (hthread : s.threads[c]? = some (.Purging d frame))
      (hentry : s.transfers.entries[key]? = some entry) :
      Change s (.Purge c key) .Silent { s with transfers := ⟨s.transfers.entries.erase key⟩ }
  | closed {c d : ConnectionToken} {frame : Frame} {memory : CloseMemory}
      (hthread : s.threads[c]? = some (.Closing d frame))
      (hconn : s.authority.connections.contains d = true) :
      Change s (.Go c memory) .Silent
        ({ s with authority := s.authority.closed d }.goto c
          (frame.resume (s.authority.call_notices d ++ s.authority.close_deaths d)))
  | ended {c : ConnectionToken} :
      Change s (.WriterEnds c) .Silent { s with dead := Function.update s.dead c true }
  | deposited {op : Op} {c : ConnectionToken} {token : TransferToken} {endpoint : Endpoint}
      (hendpoint : s.endpoints[c]? = some endpoint)
      (hfresh : s.transfers.entries[(⟨c, token⟩ : TransferKey)]? = none) :
      Change s op (.Deposited s.deposits)
        { s with
          transfers := ⟨s.transfers.entries.insert ⟨c, token⟩ ⟨none, s.deposits⟩⟩
          deposits := s.deposits + 1 }
  | took {op : Op} {d : ConnectionToken} {key : TransferKey} {bundle : ℕ}
      (hentry : s.transfers.entries[key]? = some ⟨some d, bundle⟩) :
      Change s op (.Took bundle d) { s with transfers := ⟨s.transfers.entries.erase key⟩ }
  | cancelled {op : Op} {key : TransferKey} {bundle : ℕ}
      (hentry : s.transfers.entries[key]? = some ⟨none, bundle⟩) :
      Change s op .Silent { s with transfers := ⟨s.transfers.entries.erase key⟩ }

section Functions

variable {s s' : BinderService} {c : ConnectionToken} {key : TransferKey} {bundle : ℕ} {op : Op}
  {transfer : TransferToken} {response : Message} {target : NodeToken} {memory : Bool}
  {localNode : LocalNodeToken} {code flags : UInt32} {cookie : UInt64}

variable {t : TransferTable} {q : RoutingAuthority.Op} {a : RoutingAuthority} {session : Session}
  {peer : PeerIdentity} {token : TransferToken}

theorem ensure_pending_eq_ok {entry : Entry} (h : t.ensure_pending key = .ok entry) :
    t.entries[key]? = some ⟨none, entry.descriptors⟩ := by
  unfold TransferTable.ensure_pending at h
  split at h
  · next hentry =>
    injection h with h
    rw [hentry, ← h]
  · cases h
  · cases h

theorem route_of_pending
    (h : t.entries[key]? = some ⟨none, bundle⟩) (destination : ConnectionToken) :
    t.route key destination = .ok ⟨t.entries.insert key ⟨some destination, bundle⟩⟩ := by
  unfold TransferTable.route
  rw [h]
  rfl

theorem discard_of_pending (h : t.entries[key]? = some ⟨none, bundle⟩) :
    t.discard_pending key = .ok ⟨t.entries.erase key⟩ := by
  unfold TransferTable.discard_pending TransferTable.ensure_pending
  rw [h]

theorem send_cases (s : BinderService) (c : ConnectionToken) (m : Message) :
    (s.dead c = true ∧ s.send c m = none) ∨ (s.dead c = false ∧
      s.send c m = some { s with outbox := Function.update s.outbox c (s.outbox c ++ [m]) }) := by
  unfold send
  cases hdead : s.dead c with
  | true => exact .inl ⟨rfl, rfl⟩
  | false => exact .inr ⟨rfl, rfl⟩

/-- A close fails and changes nothing, or closes. -/
theorem close_cases (a : RoutingAuthority) (session : Session) (memory : CloseMemory) :
    (∃ error, a.close session memory = (.error error, a)) ∨
      (a.connections.contains session.connection = true ∧
        a.close session memory =
          (.ok ⟨a.call_notices session.connection ++ a.close_deaths session.connection⟩,
            a.closed session.connection)) := by
  unfold close
  split
  · exact .inl ⟨_, rfl⟩
  next connection hconn =>
  split
  · exact .inl ⟨_, rfl⟩
  split
  · exact .inl ⟨_, rfl⟩
  · refine .inr ⟨contains_of_some (connection_eq_ok hconn), ?_⟩
    rw [← (close_calls_eq a session.connection).2]
    rfl

section

variable (hthread : s.threads[c]? = some .Serving)
include hthread

/-- A request that the authority answers. -/
theorem change_answer {result : Except Error Message × RoutingAuthority}
    (hplain : ∀ response, result.1 = .ok response → plain response = true)
    (hchange : RoutingAuthority.Change s.authority q (result.1.map .Response) result.2) :
    Change s op .Silent (s.answer c result) := by
  obtain ⟨result, a⟩ := result
  unfold answer
  cases result with
  | ok response => exact .answered hthread (hplain response rfl) hchange
  | error => exact .dropped hthread hchange

/-- A connection is given up; the authority is not asked. -/
theorem change_dropped :
    Change s op .Silent (s.goto c (.disconnect c)) :=
  .dropped hthread (@RoutingAuthority.Change.failed _ (.peer (s.session c)) .UnknownConnection)

/-- A pending transfer is discarded after the authority has said no. -/
theorem change_discard {result : Except Error Reply}
    (hentry : s.transfers.entries[(⟨c, transfer⟩ : TransferKey)]? = some ⟨none, bundle⟩)
    (hplain : plain response = true) (hchange : RoutingAuthority.Change s.authority q result a)
    (hresult : (∃ error, result = .error error) ∨ result = .ok (.Replied none)) :
    Change s op .Silent ({ s with authority := a }.discard c transfer response) := by
  unfold discard
  rw [discard_of_pending hentry]
  exact .discarded hthread hentry hplain hchange hresult

/-- A transaction is routed, or refused. -/
theorem change_route {caller_thread : UInt64}
    :
    Change s (.Receive c (.RouteTransaction target caller_thread transfer code flags) memory)
      (s.handle_message c (.RouteTransaction target caller_thread transfer code flags) memory).1
      (s.handle_message c (.RouteTransaction target caller_thread transfer code flags) memory).2 := by
  have hchange := RoutingAuthority.change s.authority
    (.route_transaction (s.session c) target caller_thread transfer code flags memory)
  dsimp only [RoutingAuthority.perform] at hchange
  simp only [handle_message]
  split
  · exact change_dropped hthread
  next entry hpending =>
  have hentry := ensure_pending_eq_ok hpending
  generalize s.authority.route_transaction (s.session c) target caller_thread transfer code flags
    memory = routed at hchange
  obtain ⟨result, a⟩ := routed
  dsimp only at hchange ⊢
  split
  next outcome =>
    unfold forward
    rw [route_of_pending hentry]
    exact .routed hthread hentry hchange
  · exact change_discard hthread hentry rfl hchange (.inl ⟨_, rfl⟩)
  · exact change_discard hthread hentry rfl hchange (.inl ⟨_, rfl⟩)
  · exact .dropped hthread hchange

/-- A reply is routed, or discarded if its caller is gone. -/
theorem change_reply {call : CallToken}
    :
    Change s (.Receive c (.CompleteReply call transfer code flags) memory)
      (s.handle_message c (.CompleteReply call transfer code flags) memory).1
      (s.handle_message c (.CompleteReply call transfer code flags) memory).2 := by
  have hchange := RoutingAuthority.change s.authority
    (.complete_reply (s.session c) call transfer code flags)
  dsimp only [RoutingAuthority.perform] at hchange
  simp only [handle_message]
  split
  · exact change_dropped hthread
  next entry hpending =>
  have hentry := ensure_pending_eq_ok hpending
  generalize s.authority.complete_reply (s.session c) call transfer code flags = replied at hchange
  obtain ⟨result, a⟩ := replied
  dsimp only at hchange ⊢
  split
  next outbound =>
    unfold forward
    rw [route_of_pending hentry]
    exact .replied hthread hentry hchange
  · exact change_discard hthread hentry rfl hchange (.inr rfl)
  · exact .dropped hthread hchange

end

/-- The answers of the authority are about no call. -/
theorem plain_publish_node
    (h : (a.publish_node session localNode memory).1 = .ok response) : plain response = true := by
  unfold publish_node at h
  split at h
  · cases h
  · split at h
    · cases h
    · cases h
      rfl

theorem plain_set_context_manager
    (h : (a.set_context_manager session localNode memory).1 = .ok response) :
    plain response = true := by
  unfold set_context_manager at h
  split at h
  · cases h
  split at h
  · cases h
  split at h
  · cases h
  dsimp only at h
  split at h
  · cases h
  split at h
  · cases h
  split at h
  · cases h
  cases h
  rfl

theorem plain_get_context_manager
    (h : a.get_context_manager session = .ok response) : plain response = true := by
  unfold get_context_manager at h
  split at h
  · cases h
  · cases h
    rfl

theorem plain_request_death (h : (a.request_death session target cookie memory).1 = .ok response) :
    plain response = true := by
  unfold request_death at h
  split at h
  · cases h
  split at h
  · cases h
  split at h
  · cases h
  split at h
  · cases h
  split at h
  · cases h
  cases h
  rfl

theorem plain_clear_death
    (h : (a.clear_death session target cookie).1 = .ok response) : plain response = true := by
  unfold clear_death at h
  split at h
  · cases h
  split at h
  · cases h
  split at h
  · cases h
  cases h
  rfl

theorem change_handle_message {message : Message} (hthread : s.threads[c]? = some .Serving) :
    Change s (.Receive c message memory) (s.handle_message c message memory).1
      (s.handle_message c message memory).2 := by
  have hasked := fun q => RoutingAuthority.change s.authority q
  cases message with
  | PublishNode localNode =>
    exact change_answer hthread (fun _ => plain_publish_node)
      (hasked (.publish_node (s.session c) localNode memory))
  | SetContextManager localNode =>
    exact change_answer hthread (fun _ => plain_set_context_manager)
      (hasked (.set_context_manager (s.session c) localNode memory))
  | GetContextManager =>
    exact change_answer hthread (fun _ => plain_get_context_manager)
      (hasked (.get_context_manager (s.session c)))
  | RequestDeath target cookie =>
    exact change_answer hthread (fun _ => plain_request_death)
      (hasked (.request_death (s.session c) target cookie memory))
  | ClearDeath target cookie =>
    exact change_answer hthread (fun _ => plain_clear_death)
      (hasked (.clear_death (s.session c) target cookie))
  | RouteTransaction => exact change_route hthread
  | CompleteReply => exact change_reply hthread
  | _ => exact change_dropped hthread

/-- A connection is opened, if its peer has none. -/
theorem change_serve :
    Change s (.Serve peer memory) .Silent (s.serve peer memory) := by
  have hchange := RoutingAuthority.change s.authority (.open_authenticated peer memory)
  dsimp only [RoutingAuthority.perform] at hchange
  unfold serve
  split
  · exact .idle
  generalize hopen : s.authority.open_authenticated peer memory = opening at hchange
  unfold open_authenticated at hopen
  split at hopen
  · rw [← hopen]
    exact .idle
  next connection _ =>
  split at hopen
  · rw [← hopen]
    exact .idle
  · rw [← hopen] at hchange ⊢
    exact .opened (rfl : plain (.ConnectionOpened connection peer.android_uid) = true) hchange

/-- A thread takes its next step. -/
theorem change_go {memory : CloseMemory} (h : s.go c memory = some s') :
    Change s (.Go c memory) .Silent s' := by
  unfold go at h
  split at h
  · cases h
  · cases h
  next response hthread =>
    rcases send_cases s c response with ⟨hdead, hsend⟩ | ⟨halive, hsend⟩
    all_goals
      rw [hsend] at h
      cases h
    · exact .finished hthread (.inl ⟨_, rfl⟩)
    · exact .sent hthread .opening halive
  next response hthread =>
    rcases send_cases s c response with ⟨hdead, hsend⟩ | ⟨halive, hsend⟩
    all_goals
      rw [hsend] at h
      cases h
    · exact .moved hthread (.unanswered hdead)
    · exact .sent hthread .answering halive
  next acknowledgement delivery hthread =>
    rcases send_cases s c acknowledgement with ⟨hdead, hsend⟩ | ⟨halive, hsend⟩
    all_goals
      rw [hsend] at h
      cases h
    · exact .moved hthread (.unacknowledged hdead)
    · exact .sent hthread .acking halive
  next hthread =>
    cases h
    exact .moved hthread .drained
  next hthread =>
    cases h
    exact .finished hthread (.inr rfl)
  next notification rest hthread =>
    cases h
    exact .moved hthread .notifying
  next outbound pending rest hthread =>
    split at h
    all_goals
      cases h
    next hnone => exact .moved hthread (.unknown hnone)
    next hsome => exact .moved hthread (.found hsome)
  next outbound pending rest hthread =>
    rcases send_cases s outbound.destination outbound.message with ⟨hdead, hsend⟩ | ⟨halive, hsend⟩
    all_goals
      rw [hsend] at h
      cases h
    · exact .moved hthread (.undelivered hdead)
    · exact .sent hthread .sending halive
  next connection frame hthread =>
    split at h
    all_goals
      cases h
    next hnone => exact .moved hthread (.absent hnone)
    next hsome => exact .removed hthread hsome
  next connection frame hthread =>
    split at h
    next hclean =>
      cases h
      exact .moved hthread (.purged hclean)
    · cases h
  next connection frame hthread =>
    rcases close_cases s.authority (s.session connection) memory with
      ⟨error, hclose⟩ | ⟨hconn, hclose⟩
    all_goals
      rw [hclose] at h
      cases h
    · exact .moved hthread .unclosed
    · exact .closed hthread hconn

theorem change_purge (h : s.purge c key = some s') :
    Change s (.Purge c key) .Silent s' := by
  unfold purge at h
  split at h
  next connection frame hthread =>
    unfold TransferTable.remove_next_connection_transfer at h
    split at h
    · cases h
    next transfers hremove =>
    split at hremove
    · cases hremove
    next entry hentry =>
    split at hremove
    · cases hremove
      cases h
      exact .purged hthread hentry
    · cases hremove
  · cases h

/-- The connection of a peer has an endpoint. -/
theorem peer_connection_eq_some (h : s.peer_connection peer = some c) :
    s.endpoints[c]? = some ⟨peer⟩ := by
  unfold peer_connection at h
  split at h
  next connection endpoint hfilter =>
    injection h with h
    have hmem : (connection, endpoint) ∈ [(connection, endpoint)] := List.mem_cons_self
    rw [← hfilter] at hmem
    obtain ⟨hlist, hpeer⟩ := List.mem_filter.mp hmem
    have hpeer : endpoint.peer = peer := of_decide_eq_true hpeer
    rw [← h, ← hpeer]
    exact mem_toList_iff_getElem?_eq_some.mp hlist
  · cases h

theorem change_deposit {imported : Except TransferError Unit} {committed : Bool} :
    Change s op (s.deposit peer token imported memory committed).1
      (s.deposit peer token imported memory committed).2 := by
  unfold deposit
  split
  · exact .idle
  next connection hpeer =>
  split
  · exact .idle
  next hprepare =>
  split
  · exact .idle
  · refine .deposited (peer_connection_eq_some hpeer) ?_
    unfold TransferTable.prepare_deposit at hprepare
    split at hprepare
    · cases hprepare
    split at hprepare
    · cases hprepare
    next hnew => exact contains_eq_false_iff.mp (Bool.eq_false_iff.mpr hnew)

theorem change_take {source : ConnectionToken} {authorized : Bool} :
    Change s op (s.prepare_take peer source token authorized).1
      (s.prepare_take peer source token authorized).2 := by
  unfold prepare_take
  split
  · exact .idle
  next destination hpeer =>
  split
  · exact .idle
  next descriptors hverify =>
  split
  · exact .idle
  have htake : s.transfers.take destination ⟨source, token⟩ =
      .ok (descriptors, ⟨s.transfers.entries.erase ⟨source, token⟩⟩) := by
    unfold TransferTable.take
    rw [hverify]
  rw [htake]
  unfold TransferTable.verify_take at hverify
  split at hverify
  · cases hverify
  · cases hverify
  next expected bundle hentry =>
  split at hverify
  · cases hverify
  next heq =>
    cases hverify
    rw [Decidable.not_not.mp heq] at hentry
    exact .took hentry

theorem change_cancel :
    Change s op .Silent (s.cancel_unrouted_transfer peer token) := by
  unfold cancel_unrouted_transfer
  split
  · exact .idle
  next source hpeer =>
  unfold TransferTable.cancel_unrouted
  split
  next bundle hentry => exact .cancelled hentry
  · exact .idle

/-- **Every step is one of the changes.** -/
theorem Step.change {e : Event} (h : Step s e s') : Change s e.op e.outcome s' := by
  obtain ⟨-, h⟩ := h
  obtain ⟨before, op, outcome⟩ := e
  cases op with
  | Serve =>
    cases h
    exact change_serve
  | Receive c message memory =>
    simp only [perform] at h
    split at h
    next hthread =>
      have hchange := @change_handle_message s c memory message hthread
      rwa [Option.some.inj h] at hchange
    · cases h
  | HangUp =>
    simp only [perform] at h
    split at h
    next hthread =>
      cases h
      exact change_dropped hthread
    · cases h
  | Go =>
    obtain ⟨t, hgo, h⟩ := Option.map_eq_some_iff.mp h
    cases h
    exact change_go hgo
  | Purge =>
    obtain ⟨t, hpurge, h⟩ := Option.map_eq_some_iff.mp h
    cases h
    exact change_purge hpurge
  | WriterEnds =>
    cases h
    exact .ended
  | Deposit peer token imported memory committed =>
    have hchange := @change_deposit s (.Deposit peer token imported memory committed) memory peer
      token imported committed
    rwa [Option.some.inj h] at hchange
  | Take peer source token authorized =>
    have hchange := @change_take s (.Take peer source token authorized) peer token source authorized
    rwa [Option.some.inj h] at hchange
  | Cancel =>
    cases h
    exact change_cancel

end Functions

/-! ## What the authority keeps -/

section Authority

variable {a a' : RoutingAuthority} {q : RoutingAuthority.Op} {result : Except Error Reply}

/-- Only `open_authenticated` and `close` change who is connected. -/
theorem keeps_connections (h : RoutingAuthority.Change a q result a')
    (hopen : ∀ opened, result ≠ .ok (.Opened opened))
    (hclose : ∀ outcome, result ≠ .ok (.Closed outcome)) :
    a'.next_connection = a.next_connection ∧
      ∀ c, a'.connections.contains c = a.connections.contains c := by
  have hwritten : ∀ (c : ConnectionToken) (connection connection' : ConnectionState),
      a.connections[c]? = some connection →
      ∀ d, (a.connections.insert c connection').contains d = a.connections.contains d := by
    intro c connection connection' hconn d
    rw [Bool.eq_iff_iff, contains_insert_iff]
    constructor
    · rintro (rfl | hd)
      · exact contains_of_some hconn
      · exact hd
    · exact .inr
  cases h with
  | opened => exact absurd rfl (hopen _)
  | closed => exact absurd rfl (hclose _)
  | published hconn => exact ⟨rfl, hwritten _ _ _ hconn⟩
  | manager_set hconn => exact ⟨rfl, hwritten _ _ _ hconn⟩
  | _ => exact ⟨rfl, fun _ => rfl⟩

/-- A request that is answered or refused changes no call. -/
theorem keeps_calls (h : RoutingAuthority.Change a q result a')
    (hresult : (∃ error, result = .error error) ∨ ∃ response, result = .ok (.Response response)) :
    a'.calls = a.calls ∧ a'.next_call = a.next_call := by
  cases h with
  | routed | reply_dropped | replied | closed => exact absurd hresult (by simp)
  | _ => exact ⟨rfl, rfl⟩

end Authority

/-! ## What holds of every state -/

/-- The threads and the endpoints are of connections that have been opened, an endpoint is of one
that is open, and what is being removed has no endpoint. -/
structure Sound (s : BinderService) : Prop where
  wf : Wf s.authority
  thread_le : ∀ (c : ConnectionToken) phase, s.threads[c]? = some phase →
    c.raw ≤ s.authority.next_connection
  live : ∀ (c : ConnectionToken) endpoint, s.endpoints[c]? = some endpoint →
    s.authority.connections.contains c = true
  removed : ∀ (c : ConnectionToken) phase d, s.threads[c]? = some phase →
    phase.removing = some d → s.endpoints[d]? = none ∧ d.raw ≤ s.authority.next_connection

section Threads

variable {s : BinderService} {c t : ConnectionToken} {phase : Phase}

@[simp] theorem goto_threads_self : (s.goto c phase).threads[c]? = some phase := by
  rw [goto, getElem?_insert_self]

theorem goto_threads_ne (h : t ≠ c) : (s.goto c phase).threads[t]? = s.threads[t]? := by
  exact getElem?_insert_ne (Ne.symm h)

/-- What a thread is at after `goto`. -/
theorem goto_threads_cases {p : Phase} (h : (s.goto c phase).threads[t]? = some p) :
    (t = c ∧ p = phase) ∨ (t ≠ c ∧ s.threads[t]? = some p) :=
  getElem?_insert_cases h

theorem finish_threads {p : Phase} (h : (s.finish c).threads[t]? = some p) :
    t ≠ c ∧ s.threads[t]? = some p :=
  getElem?_erase_cases h

end Threads

namespace Sound

variable {s s' : BinderService} {c : ConnectionToken} {phase : Phase} {a : RoutingAuthority}

theorem new (identity : ℕ) : Sound (.new identity) := by
  refine ⟨Wf.new identity, ?_, ?_, ?_⟩ <;> simp [BinderService.new]

/-- A thread goes to a phase in which it removes nothing, or something without an endpoint. -/
theorem goto (h : Sound s) (hc : c.raw ≤ s.authority.next_connection)
    (hphase : ∀ d, phase.removing = some d →
      s.endpoints[d]? = none ∧ d.raw ≤ s.authority.next_connection) : Sound (s.goto c phase) := by
  refine ⟨h.wf, fun t p ht => ?_, h.live, fun t p d ht hp => ?_⟩
  · rcases goto_threads_cases ht with ⟨rfl, -⟩ | ⟨-, ht⟩
    · exact hc
    · exact h.thread_le t p ht
  · rcases goto_threads_cases ht with ⟨-, rfl⟩ | ⟨-, ht⟩
    · exact hphase d hp
    · exact h.removed t p d ht hp

/-- The same for a thread that is there. -/
theorem move {p : Phase} (h : Sound s) (hthread : s.threads[c]? = some p)
    (hphase : ∀ d, phase.removing = some d →
      s.endpoints[d]? = none ∧ d.raw ≤ s.authority.next_connection) : Sound (s.goto c phase) :=
  h.goto (h.thread_le c p hthread) hphase

/-- The authority answers a request, and the same connections are open after it. -/
theorem asked (h : Sound s) {q : RoutingAuthority.Op} {result : Except Error Reply}
    (hchange : RoutingAuthority.Change s.authority q result a)
    (hopen : ∀ opened, result ≠ .ok (.Opened opened))
    (hclose : ∀ outcome, result ≠ .ok (.Closed outcome)) {transfers : TransferTable} :
    Sound { s with authority := a, transfers := transfers } := by
  obtain ⟨hnext, hcontains⟩ := keeps_connections hchange hopen hclose
  refine ⟨h.wf.change hchange, fun t p ht => ?_, fun t e ht => ?_, fun t p d ht hp => ?_⟩
  · rw [hnext]
    exact h.thread_le t p ht
  · rw [hcontains]
    exact h.live t e ht
  · rw [hnext]
    exact h.removed t p d ht hp

/-- A new connection is none of those that are known. -/
theorem opened (h : Sound s) {peer : PeerIdentity} {memory : Bool} {response : Message}
    (hchange : RoutingAuthority.Change s.authority
      (.open_authenticated peer memory) (.ok (.Opened ⟨s.session c, response⟩)) a) :
    c.raw = s.authority.next_connection + 1 ∧ a.next_connection = c.raw ∧ a.calls = s.authority.calls ∧
      a.next_call = s.authority.next_call ∧
      Sound { s with authority := a, endpoints := s.endpoints.insert c ⟨peer⟩ } := by
  have hwf := h.wf.change hchange
  generalize hresult : (.ok (.Opened ⟨s.session c, response⟩) : Except Error Reply) = result
    at hchange
  cases hchange with
  | opened hnext =>
    cases hresult
    have hfresh : ∀ d : ConnectionToken, d.raw ≤ s.authority.next_connection → d ≠ c := by
      rintro d hd rfl
      omega
    refine ⟨hnext, rfl, rfl, rfl, hwf, fun t p ht => ?_, fun t e ht => ?_, fun t p d ht hp => ?_⟩
    · have := h.thread_le t p ht
      dsimp only
      omega
    · refine contains_insert_iff.mpr ?_
      rcases getElem?_insert_cases ht with ⟨heq, -⟩ | ⟨-, ht⟩
      · exact .inl heq.symm
      · exact .inr (h.live t e ht)
    · obtain ⟨hnone, hle⟩ := h.removed t p d ht hp
      refine ⟨?_, ?_⟩
      · rwa [getElem?_insert_ne (Ne.symm (hfresh d hle))]
      · dsimp only
        omega
  | failed => cases hresult
  | read hreply =>
    rcases hreply with ⟨_, rfl⟩ | ⟨_, rfl⟩ <;> cases hresult

/-- **Every step keeps this.** -/
theorem step {op : Op} {outcome : Outcome} (h : Sound s) (hchange : Change s op outcome s') :
    Sound s' := by
  cases hchange with
  | idle => exact h
  | opened _ hchange =>
    obtain ⟨hc, hnext, -, -, hs⟩ := h.opened hchange
    exact hs.goto (Nat.le_of_eq hnext.symm) nofun
  | answered hthread _ hchange | dropped hthread hchange | routed hthread _ hchange
  | replied hthread _ hchange => exact (h.asked hchange nofun nofun).move hthread nofun
  | discarded hthread _ _ hchange hresult =>
    refine (h.asked hchange ?_ ?_).move hthread nofun
    · rintro opened rfl
      simp at hresult
    · rintro outcome rfl
      simp at hresult
  | @sent c d m phase phase' memory hthread hsends halive =>
    have hs : Sound { s with outbox := Function.update s.outbox d (s.outbox d ++ [m]) } :=
      ⟨h.wf, h.thread_le, h.live, h.removed⟩
    refine hs.move hthread ?_
    intro e he
    cases hsends <;> cases he
  | moved hthread hmoves =>
    refine h.move hthread ?_
    intro e he
    cases hmoves with
    | purged => exact h.removed _ _ e hthread he
    | absent | unclosed =>
      rw [Frame.removing_resume] at he
      cases he
    | _ => cases he
  | finished =>
    refine ⟨h.wf, fun t p ht => ?_, h.live, fun t p d ht hp => ?_⟩
    · exact h.thread_le t p (finish_threads ht).2
    · exact h.removed t p d (finish_threads ht).2 hp
  | @removed c d frame memory hthread endpoint hendpoint =>
    have herased : ∀ x : ConnectionToken, s.endpoints[x]? = none → (s.endpoints.erase d)[x]? = none := by
      intro x hx
      rw [getElem?_erase]
      split
      · rfl
      · exact hx
    have hs : Sound { s with endpoints := s.endpoints.erase d } := by
      refine ⟨h.wf, h.thread_le, fun t e ht => ?_, fun t p x ht hp => ?_⟩
      · exact h.live t e (getElem?_erase_cases ht).2
      · exact ⟨herased x (h.removed t p x ht hp).1, (h.removed t p x ht hp).2⟩
    refine hs.move hthread ?_
    intro x hx
    cases hx
    exact ⟨getElem?_erase_self, h.wf.connection_le d (h.live d _ hendpoint)⟩
  | purged | ended | deposited | took | cancelled =>
    exact ⟨h.wf, h.thread_le, h.live, h.removed⟩
  | @closed c d frame memory hthread hconn =>
    have hgone := (h.removed c _ d hthread rfl).1
    have hs : Sound { s with authority := s.authority.closed d } := by
      refine ⟨h.wf.closed d, h.thread_le, fun t e ht => ?_, h.removed⟩
      refine contains_erase_iff.mpr ⟨?_, h.live t e ht⟩
      rintro rfl
      rw [hgone] at ht
      cases ht
    refine hs.move hthread ?_
    intro x hx
    rw [Frame.removing_resume] at hx
    cases hx

end Sound

/-- Every state reached is sound. -/
theorem run_sound {identity : ℕ} {es : List Event} {s : BinderService}
    (hrun : Run Step (.new identity) es s) : Sound s :=
  Run.invariant Sound (Sound.new identity) (fun _ _ _ h hstep => h.step hstep.change) hrun

end BinderService

end DarwinArt.Profile
