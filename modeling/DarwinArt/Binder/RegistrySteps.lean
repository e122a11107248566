/-
What one operation of the registry can do.

Each operation is taken apart once, here, into the few ways it changes the registry:
nothing, a piece of work appended to one queue, an entry taken from one, a thread written
back, a route added or removed. The invariants of the other modules are derived from
these cases and never unfold an operation.
-/
import DarwinArt.Binder.Registry

set_option autoImplicit false

namespace DarwinArt.Binder.Registry

open Lib Lib.ListEdit

/-! ## Looking up and writing back -/

variable {r : Registry} {id : ConnectionId} {thread_id : UInt64} {t : Thread}

variable {connection : Connection}

theorem lookup_id_eq_ok :
    r.lookup_id id = .ok connection ↔ id ∈ r.owners ∧ r.connections[id]? = some connection := by
  unfold lookup_id
  split
  · next hid =>
    cases hconn : r.connections[id]? with
    | none => simp
    | some => simp [hid]
  · next hid => simp [hid]

theorem lookup_id_error {e : Error} (h : r.lookup_id id = .error e) :
    e = .UnknownConnection ∧ ¬ (id ∈ r.owners ∧ (r.connections[id]?).isSome) := by
  unfold lookup_id at h
  split at h
  · cases hconn : r.connections[id]? with
    | none =>
      rw [hconn] at h
      exact ⟨(Except.error.inj h).symm, by simp⟩
    | some =>
      rw [hconn] at h
      cases h
  · next hid => exact ⟨(Except.error.inj h).symm, fun hc => hid hc.1⟩

@[simp]
theorem put_connections (r : Registry) (id id' : ConnectionId) (connection : Connection) :
    (r.put id connection).connections[id']? =
      if id = id' then some connection else r.connections[id']? := by
  simp [put, getElem?_insert]

/-- Writing back what was read changes nothing. -/
theorem put_self (h : r.connections[id]? = some connection) : r.put id connection = r := by
  unfold put
  rw [insert_of_some h]

theorem existing_thread_eq_some : r.existing_thread id thread_id = some t ↔
      ∃ connection, r.connections[id]? = some connection ∧
        connection.threads[thread_id]? = some t := by
  unfold existing_thread
  cases hconn : r.connections[id]? with
  | none => simp
  | some => simp

/-- Writing a thread back into a registry that has it. -/
theorem put_thread_eq (h : r.connections[id]? = some connection) (thread_id : UInt64) (t : Thread) :
    r.put_thread id thread_id t =
      r.put id { connection with threads := connection.threads.insert thread_id t } := by
  unfold put_thread
  rw [h]

/-- Writing a thread back touches neither owners nor calls nor what a `close` has to do. -/
theorem put_thread_rest (r : Registry) (id : ConnectionId) (thread_id : UInt64) (t : Thread) :
    (r.put_thread id thread_id t).owners = r.owners ∧
      (r.put_thread id thread_id t).calls = r.calls ∧
      (r.put_thread id thread_id t).closing = r.closing ∧
      (r.put_thread id thread_id t).next = r.next := by
  unfold put_thread
  split
  · exact ⟨rfl, rfl, rfl, rfl⟩
  · exact ⟨rfl, rfl, rfl, rfl⟩

/-- The threads after one is written back. -/
theorem existing_thread_put_thread (h : r.existing_thread id thread_id = some t) (t' : Thread)
    (id' : ConnectionId) (thread_id' : UInt64) :
    (r.put_thread id thread_id t').existing_thread id' thread_id' =
      if id = id' ∧ thread_id = thread_id' then some t' else r.existing_thread id' thread_id' := by
  obtain ⟨connection, hconn, -⟩ := existing_thread_eq_some.mp h
  rw [put_thread_eq hconn]
  unfold existing_thread
  rw [put_connections]
  rcases eq_or_ne id id' with rfl | hid
  · rw [if_pos rfl, hconn]
    simp [getElem?_insert]
  · rw [if_neg hid, if_neg fun h => hid h.1]

/-! ## Appending work -/

/-- `p` is appended to the queue of connection `id`, and nothing else changes. -/
def Appended (r r' : Registry) (id : ConnectionId) (p : Pending) : Prop :=
  ∃ connection queue, r.connections[id]? = some connection ∧
    connection.transactions = some queue ∧
    r' = r.put id { connection with
      transactions := some { queue with pending := queue.pending ++ [p] } }

/-- Appending work leaves every thread as it is. -/
theorem Appended.existing_thread {r' : Registry} {p : Pending}
    (h : Appended r r' id p) (id' : ConnectionId) (thread_id : UInt64) :
    r'.existing_thread id' thread_id = r.existing_thread id' thread_id := by
  obtain ⟨connection, queue, hconn, -, rfl⟩ := h
  unfold Registry.existing_thread
  rw [put_connections]
  rcases eq_or_ne id id' with rfl | hid
  · rw [if_pos rfl, hconn]
  · rw [if_neg hid]

theorem enqueue_cases (r : Registry) (id : ConnectionId)
    (allocation : Except Queue.Error Allocation) (header : Header) (route : Route) :
    (∃ e, r.enqueue id allocation header route = (.error e, r)) ∨
    ∃ a address r', r.enqueue id allocation header route = (.ok address, r') ∧
      Appended r r' id ⟨a, header, route⟩ := by
  unfold enqueue
  cases hconn : r.connections[id]? with
  | none => exact .inl ⟨_, rfl⟩
  | some connection =>
    cases hqueue : connection.transactions with
    | none =>
      left
      simp [hqueue]
    | some queue =>
      cases allocation with
      | error =>
        left
        simp [hqueue, Queue.enqueue_routed]
      | ok a =>
        right
        refine ⟨a, a.buffer_address, _, ?_, connection, queue, hconn, hqueue, rfl⟩
        simp [hqueue, Queue.enqueue_routed]

theorem enqueue_translated_from_cases (r : Registry) (target sender : ConnectionId)
    (transfer : Transfer) (header : Header) (route : Route) :
    (∃ e, r.enqueue_translated_from target sender transfer header route = (.error e, r)) ∨
    ∃ a address r', r.enqueue_translated_from target sender transfer header route =
      (.ok address, r') ∧ Appended r r' target ⟨a, header, route⟩ := by
  unfold enqueue_translated_from
  split
  · exact .inl ⟨_, rfl⟩
  split
  · exact .inl ⟨_, rfl⟩
  · exact enqueue_cases r target transfer.allocation header route

/-! ## Submitting -/

/-- The table after a call was registered for a submission that then failed: the serial is
used up, the routes are what they were without it. -/
def withdrawn (calls : CallTable) (route : CallRoute) : CallTable :=
  ⟨calls.next + 1,
    (calls.routes.insert (.Local (calls.next + 1)) route).erase (.Local (calls.next + 1))⟩

/-- What `submit_transaction` does: it fails; it appends a one-way transaction to the queue
of the target; or it registers a call and appends the transaction that carries it. -/
theorem submit_transaction_cases (r : Registry) (sender : ConnectionId) (t : Thread)
    (request : Request) (identity : SenderIdentity) (given : Submission) :
    ((∃ e, (r.submit_transaction sender t request identity given).1 = .error e) ∧
      (r.submit_transaction sender t request identity given).2.2 = t ∧
      ((r.submit_transaction sender t request identity given).2.1 = r ∨
        ∃ route, (r.submit_transaction sender t request identity given).2.1 =
          { r with calls := withdrawn r.calls route })) ∨
    (∃ node a header,
      (r.submit_transaction sender t request identity given).2.2 = t.commit none ∧
      header.reply = false ∧
      Appended r (r.submit_transaction sender t request identity given).2.1 node
        ⟨a, header, ⟨none, none, false⟩⟩) ∨
    (∃ node a header,
      request.flags &&& 1 = 0 ∧
      sender ∈ r.owners ∧ node.owner ∈ r.owners ∧
      (r.submit_transaction sender t request identity given).2.2 =
        t.commit (some (.Local (r.calls.next + 1))) ∧
      header.reply = false ∧
      Appended
        { r with calls := ⟨r.calls.next + 1,
          r.calls.routes.insert (.Local (r.calls.next + 1)) ⟨sender, t.id, node⟩⟩ }
        (r.submit_transaction sender t request identity given).2.1 node.owner
        ⟨a, header, ⟨some (.Local (r.calls.next + 1)), none, false⟩⟩) := by
  unfold submit_transaction
  split
  · exact .inl ⟨⟨_, rfl⟩, rfl, .inl rfl⟩
  split
  · exact .inl ⟨⟨_, rfl⟩, rfl, .inl rfl⟩
  split
  · exact .inl ⟨⟨_, rfl⟩, rfl, .inl rfl⟩
  next connection hsender =>
  split
  · exact .inl ⟨⟨_, rfl⟩, rfl, .inl rfl⟩
  next target htarget =>
  split
  · exact .inl ⟨⟨_, rfl⟩, rfl, .inl rfl⟩
  next connection' howner =>
  dsimp only
  split
  · next hsync =>
    -- a synchronous call: it is registered first, and taken back if the transfer fails
    unfold register_call
    split
    · next e _ hreg =>
      exact .inl ⟨⟨_, rfl⟩, rfl, .inl rfl⟩
    · next call calls hreg =>
      split at hreg
      · simp at hreg
      · next serial hserial =>
        rw [checked_add_eq_some] at hserial
        split at hreg
        · simp at hreg
        · cases hreg
          obtain rfl := hserial.2
          rcases enqueue_translated_from_cases
            { r with calls := ⟨r.calls.next + 1,
              r.calls.routes.insert (.Local (r.calls.next + 1)) ⟨sender, t.id, target.node⟩⟩ }
            target.node.owner sender given.transfer
            ⟨false, target.pointer, target.cookie, request.code, request.flags, identity.pid,
              identity.euid⟩ ⟨some (.Local (r.calls.next + 1)), none, false⟩
            with ⟨e, heq⟩ | ⟨a, address, r', heq, happ⟩
          · rw [heq]
            exact .inl ⟨⟨_, rfl⟩, rfl, .inr ⟨⟨sender, t.id, target.node⟩, rfl⟩⟩
          · rw [heq]
            exact .inr (.inr ⟨target.node, a, _, hsync, (lookup_id_eq_ok.mp hsender).1,
              (lookup_id_eq_ok.mp howner).1, rfl, rfl, happ⟩)
  · rcases enqueue_translated_from_cases r target.node.owner sender given.transfer
      ⟨false, target.pointer, target.cookie, request.code, request.flags, identity.pid,
        identity.euid⟩ ⟨none, none, false⟩
      with ⟨e, heq⟩ | ⟨a, address, r', heq, happ⟩
    · rw [heq]
      exact .inl ⟨⟨_, rfl⟩, rfl, .inl rfl⟩
    · rw [heq]
      exact .inr (.inl ⟨target.node.owner, a, _, rfl, rfl, happ⟩)

/-- What `submit_reply` does: it fails; it drops the reply of a caller that is gone; or it
appends the reply to the queue of the caller. -/
theorem submit_reply_cases (r : Registry) (replier : ConnectionId) (call : CallId) (t : Thread)
    (request : Request) (identity : SenderIdentity) (transfer : Transfer) :
    ((∃ e, (r.submit_reply replier call t request identity transfer).1 = .error e) ∧
      (r.submit_reply replier call t request identity transfer).2 = (r, t)) ∨
    (∃ route, r.calls.routes[call]? = some route ∧
      ¬ (route.sender ∈ r.owners ∧ (r.connections[route.sender]?).isSome) ∧
      r.submit_reply replier call t request identity transfer =
        (.ok 0, { r with calls := remove_call r.calls call }, t.commit none)) ∨
    (∃ route a header address r', r.calls.routes[call]? = some route ∧
      route.sender ∈ r.owners ∧ header.reply = true ∧
      Appended r r' route.sender ⟨a, header, ⟨some call, some route.thread_id, true⟩⟩ ∧
      r.submit_reply replier call t request identity transfer =
        (.ok address, { r' with calls := remove_call r.calls call }, t.commit none)) := by
  unfold submit_reply
  split
  · exact .inl ⟨⟨_, rfl⟩, rfl⟩
  split
  · exact .inl ⟨⟨_, rfl⟩, rfl⟩
  next route hroute =>
  split
  · exact .inl ⟨⟨_, rfl⟩, rfl⟩
  split
  · next hgone =>
    exact .inr (.inl ⟨route, hroute, (lookup_id_error hgone).2, rfl⟩)
  · exact .inl ⟨⟨_, rfl⟩, rfl⟩
  next connection hsender =>
  rcases enqueue_translated_from_cases r route.sender replier transfer
    ⟨true, 0, 0, request.code, request.flags, identity.pid, identity.euid⟩
    ⟨some call, some route.thread_id, true⟩ with ⟨e, heq⟩ | ⟨a, address, r', heq, happ⟩
  · rw [heq]
    exact .inl ⟨⟨_, rfl⟩, rfl⟩
  · rw [heq]
    refine .inr (.inr ⟨route, a, _, address, r', hroute, (lookup_id_eq_ok.mp hsender).1, rfl,
      happ, ?_⟩)
    obtain ⟨connection, queue, -, -, rfl⟩ := happ
    rfl

theorem enqueue_remote_transaction_cases (r : Registry) (id : ConnectionId)
    (remote : RemoteTransaction) (node : Except ConnectionError (UInt64 × UInt64))
    (allocation : Except Queue.Error Allocation) :
    (r.enqueue_remote_transaction id remote node allocation).2 = r ∨
    ∃ a header, header.reply = false ∧
      Appended r (r.enqueue_remote_transaction id remote node allocation).2 id
        ⟨a, header, ⟨remote.call.map .Remote, none, false⟩⟩ := by
  unfold enqueue_remote_transaction
  split
  · exact .inl rfl
  split
  · exact .inl rfl
  next pointer cookie =>
  rcases enqueue_cases r id allocation
    ⟨false, pointer, cookie, remote.code, remote.flags, remote.sender_pid, remote.sender_euid⟩
    ⟨remote.call.map .Remote, none, false⟩ with ⟨e, heq⟩ | ⟨a, address, r', heq, happ⟩
  · rw [heq]
    exact .inl rfl
  · rw [heq]
    exact .inr ⟨a, _, rfl, happ⟩

theorem enqueue_remote_reply_cases (r : Registry) (id : ConnectionId) (remote : RemoteReply)
    (transfer : Transfer) :
    (r.enqueue_remote_reply id remote transfer).2 = r ∨
    ∃ a header, header.reply = true ∧
      Appended r (r.enqueue_remote_reply id remote transfer).2 id
        ⟨a, header, ⟨some (.Remote remote.call), some remote.target_thread, true⟩⟩ := by
  unfold enqueue_remote_reply
  split
  · exact .inl rfl
  split
  · exact .inl rfl
  rcases enqueue_cases r id transfer.allocation
    ⟨true, 0, 0, remote.code, remote.flags, remote.sender_pid, remote.sender_euid⟩
    ⟨some (.Remote remote.call), some remote.target_thread, true⟩
    with ⟨e, heq⟩ | ⟨a, address, r', heq, happ⟩
  · rw [heq]
    exact .inl rfl
  · rw [heq]
    exact .inr ⟨a, _, rfl, happ⟩

/-! ## The end of the authority -/

/-- The thread after the deaths of some of its calls through the authority: its stack is as
it was, and so is everything about the registry's own calls. -/
structure Mourned (t t' : Thread) : Prop where
  outgoing_eq : t'.outgoing = t.outgoing
  keeps : Thread.KeepsLocal t t'

theorem Mourned.refl (t : Thread) : Mourned t t := ⟨rfl, .refl t⟩

theorem Mourned.trans {t' t'' : Thread} (h : Mourned t t') (h' : Mourned t' t'') :
    Mourned t t'' :=
  ⟨h'.outgoing_eq.trans h.outgoing_eq, h'.keeps.id_eq.trans h.keeps.id_eq,
    fun n => (h'.keeps.frames_eq n).trans (h.keeps.frames_eq n),
    fun n => (h'.keeps.slots_eq n).trans (h.keeps.slots_eq n)⟩

theorem mourned_enqueue_dead_reply (t : Thread) (c : CallToken) :
    Mourned t (t.enqueue_dead_reply (.Remote c)).2 := by
  refine ⟨?_, Thread.enqueue_dead_reply_keeps_local t c⟩
  rcases Thread.enqueue_dead_reply_cases t (.Remote c) with h | h <;> rw [h]

theorem mourned_enqueue_dead_replies (t : Thread) (calls : List CallId)
    (hcalls : ∀ c ∈ calls, ∃ token, c = .Remote token) :
    Mourned t (t.enqueue_dead_replies calls).2 := by
  induction calls generalizing t with
  | nil => exact Mourned.refl t
  | cons c _ ih =>
    obtain ⟨token, rfl⟩ := hcalls c List.mem_cons_self
    have hfirst := mourned_enqueue_dead_reply t token
    unfold Thread.enqueue_dead_replies
    split
    · next heq =>
      rwa [heq] at hfirst
    · next t' heq =>
      rw [heq] at hfirst
      exact hfirst.trans (ih t' fun c hc => hcalls c (List.mem_cons_of_mem _ hc))

theorem mourned_fail_remote_authority (t : Thread) : Mourned t t.fail_remote_authority.2 := by
  refine mourned_enqueue_dead_replies t _ fun c hc => ?_
  obtain ⟨entry, -, hentry⟩ := List.mem_filterMap.mp hc
  cases entry with
  | Pending => simp [Thread.authority_call] at hentry
  | Rejected => simp [Thread.authority_call] at hentry
  | Active call =>
    cases call with
    | Local => simp [Thread.authority_call] at hentry
    | Remote token => exact ⟨token, by simpa [Thread.authority_call] using hentry.symm⟩

/-- The threads after the loop, one by one. -/
theorem fail_threads_spec (connection : Connection) (ids : List UInt64) :
    (fail_threads connection ids).2.transactions = connection.transactions ∧
    ∀ id : UInt64, (connection.threads[id]? = none →
        (fail_threads connection ids).2.threads[id]? = none) ∧
      ∀ t, connection.threads[id]? = some t →
        ∃ t', (fail_threads connection ids).2.threads[id]? = some t' ∧ Mourned t t' := by
  induction ids generalizing connection with
  | nil => exact ⟨rfl, fun id => ⟨fun h => h, fun t ht => ⟨t, ht, Mourned.refl t⟩⟩⟩
  | cons first _ ih =>
    unfold fail_threads
    cases hfirst : connection.threads[first]? with
    | none => exact ih connection
    | some thread =>
      dsimp only
      -- the first thread is written back, the rest of the loop starts from there
      have hmourned := mourned_fail_remote_authority thread
      have hwrite : ∀ id : UInt64, (connection.threads[id]? = none →
            (connection.threads.insert first thread.fail_remote_authority.2)[id]? = none) ∧
          ∀ t, connection.threads[id]? = some t →
            ∃ t', (connection.threads.insert first thread.fail_remote_authority.2)[id]? = some t' ∧
              Mourned t t' := by
        intro id
        rw [getElem?_insert]
        rcases eq_or_ne first id with rfl | hid
        · rw [hfirst]
          refine ⟨fun h => absurd h (by simp), fun t ht => ⟨_, if_pos (by simp), ?_⟩⟩
          cases ht
          exact hmourned
        · rw [if_neg (by simpa using hid)]
          exact ⟨fun h => h, fun t ht => ⟨t, ht, Mourned.refl t⟩⟩
      split
      · exact ⟨rfl, hwrite⟩
      · obtain ⟨htrans, hrest⟩ := ih
          { connection with
            threads := connection.threads.insert first thread.fail_remote_authority.2 }
        refine ⟨htrans, fun id => ⟨fun h => (hrest id).1 ((hwrite id).1 h), fun t ht => ?_⟩⟩
        obtain ⟨t', ht', hm⟩ := (hwrite id).2 t ht
        obtain ⟨t'', ht'', hm'⟩ := (hrest id).2 t' ht'
        exact ⟨t'', ht'', hm.trans hm'⟩

section

variable (r : Registry) (id : ConnectionId)

theorem fail_remote_authority_cases : (r.fail_remote_authority id).2 = r ∨
    ∃ connection, r.connections[id]? = some connection ∧
      (r.fail_remote_authority id).2 =
        r.put id (fail_threads connection connection.threads.keys).2 := by
  unfold fail_remote_authority
  split
  · exact .inl rfl
  · next connection hlookup =>
    refine .inr ⟨connection, (lookup_id_eq_ok.mp hlookup).2, ?_⟩
    split <;> next heq => rw [heq]

/-! ## Delivering -/

theorem check_next_invalid_reply_iff (t : Thread) (memory : DeliveryMemory) (next : Option Next) :
    check_next t memory next = .error .InvalidOutgoingReply ↔
      ∃ c, next = some ⟨some c, true⟩ ∧ t.last_outgoing ≠ some c := by
  unfold check_next
  split
  · next c =>
    unfold Thread.validate_outgoing
    by_cases hc : t.last_outgoing = some c
    · simp [hc]
    · simp [hc]
  · split <;> simp
  · simp
  · simp

/-- The first entry a thread may take, from what stands before it. -/
theorem next_route_of_split {queue : Queue} {accept_async : Bool}
    {before after : List Pending} {p : Pending} (hsplit : queue.pending = before ++ p :: after)
    (hbefore : ∀ x ∈ before, Queue.deliverable thread_id accept_async x = false)
    (hp : Queue.deliverable thread_id accept_async p = true) :
    queue.next_route thread_id accept_async = some ⟨p.route.call, p.header.reply⟩ := by
  have hnone : before.find? (Queue.deliverable thread_id accept_async) = none :=
    List.find?_eq_none.mpr fun x hx => by simp [hbefore x hx]
  rw [Queue.next_route, hsplit, List.find?_append, hnone, Option.none_or,
    List.find?_cons_of_pos hp, Option.map_some]

/-- The thread after a delivery of `p`: a reply ends the call it answers, a call is taken
on. -/
def received (t : Thread) (p : Pending) : Thread :=
  match p.route.call with
  | none => t
  | some call => if p.header.reply then (t.finish_outgoing call).2 else t.accept_incoming call

theorem received_id (t : Thread) (p : Pending) : (received t p).id = t.id := by
  unfold received
  split
  · rfl
  · split
    · next c hc hreply =>
      rcases Thread.finish_outgoing_cases t c with ⟨-, heq⟩ | ⟨-, heq⟩ <;> rw [heq]
    · rfl

/-- What `deliver_transaction` does: nothing; it returns the completion of the first entry the
thread may take; or it takes that entry, and then a reply has passed `validate_outgoing`. -/
theorem deliver_transaction_cases (t : Thread) (output : ℕ) (memory : DeliveryMemory) :
    (r.deliver_transaction id t output memory).2 = (r, t) ∨
    ∃ connection queue queue' before p after,
      r.connections[id]? = some connection ∧ connection.transactions = some queue ∧
      queue.pending = before ++ p :: after ∧
      Queue.deliverable t.id t.can_wait_for_process_work p = true ∧
      (p.header.reply = true → ∀ c, p.route.call = some c → t.last_outgoing = some c) ∧
      (r.deliver_transaction id t output memory).2.1 =
        r.put id { connection with transactions := some queue' } ∧
      ((queue'.pending = before ++ Queue.complete p :: after ∧
          (r.deliver_transaction id t output memory).2.2 = t) ∨
        (queue'.pending = before ++ after ∧
          ((r.deliver_transaction id t output memory).2.2 = t ∨
            (r.deliver_transaction id t output memory).2.2 = received t p))) := by
  unfold deliver_transaction
  split
  · exact .inl rfl
  next connection hlookup =>
  have hconn := (lookup_id_eq_ok.mp hlookup).2
  dsimp only
  split
  · exact .inl rfl
  next queue hqueue =>
  split
  · exact .inl rfl
  next hcheck =>
  rcases Queue.read_for_thread_cases queue t.id t.can_wait_for_process_work output
    memory.delivered with
    ⟨hsame, hnone⟩ | ⟨before, p, after, hsplit, hbefore, hp, hcase⟩
  · -- nothing was taken, and the connection is written back as it was
    left
    rw [hsame, ← hqueue, put_self hconn]
    split
    · rfl
    · rfl
    · next d heq => exact absurd heq (hnone _)
  · right
    have hvalid : p.header.reply = true → ∀ c, p.route.call = some c →
        t.last_outgoing = some c := by
      intro hreply c hc
      rw [next_route_of_split hsplit hbefore hp, hc, hreply] at hcheck
      by_contra hne
      have := (check_next_invalid_reply_iff t memory (some ⟨some c, true⟩)).mpr ⟨c, rfl, hne⟩
      rw [hcheck] at this
      cases this
    refine ⟨connection, queue,
      (queue.read_for_thread t.id t.can_wait_for_process_work output memory.delivered).2,
      before, p, after, hconn, hqueue, hsplit, hp, hvalid, ?_, ?_⟩
    · rcases hcase with ⟨-, hres, hq⟩ | ⟨-, hres | hres, hq⟩
      · rw [hres]
        dsimp only
        split <;> rfl
      · rw [hres]
      · rw [hres]
        dsimp only
        split
        · rfl
        · split
          · split
            · exact absurd ‹_› (by simp)
            · split <;> rfl
          · rfl
    · rcases hcase with ⟨-, hres, hq⟩ | ⟨-, hres | hres, hq⟩
      · refine .inl ⟨hq, ?_⟩
        rw [hres]
        dsimp only
        split <;> rfl
      · refine .inr ⟨hq, .inl ?_⟩
        rw [hres]
      · refine .inr ⟨hq, .inr ?_⟩
        rw [hres]
        unfold received
        cases hcall : p.route.call with
        | none => rfl
        | some =>
          cases hreply : p.header.reply with
          | false => rfl
          | true =>
            dsimp only
            rw [if_pos rfl, if_neg (by simp), if_pos rfl]
            split <;> next heq => rw [heq]

/-- **When a read fails on a reply**: exactly when the first entry the thread may take is a
reply to a call that is not on top of its stack. -/
theorem deliver_invalid_reply_iff {queue : Queue} (hlookup : r.lookup_id id = .ok connection)
    (hqueue : connection.transactions = some queue) (t : Thread) (output : ℕ)
    (memory : DeliveryMemory) :
    (r.deliver_transaction id t output memory).1 = .error (.Thread .InvalidOutgoingReply) ↔
      ∃ c, queue.next_route t.id t.can_wait_for_process_work = some ⟨some c, true⟩ ∧
        t.last_outgoing ≠ some c := by
  rw [← check_next_invalid_reply_iff t memory]
  unfold deliver_transaction
  simp only [hlookup, hqueue]
  split
  · next e hcheck => simp [hcheck]
  · next hcheck =>
    -- past the check no error of the thread is left: the reply taken is the one checked
    refine ⟨fun hfail => ?_, fun h => absurd (hcheck.symm.trans h) (by simp)⟩
    rcases Queue.read_for_thread_cases queue t.id t.can_wait_for_process_work output
      memory.delivered with
      ⟨-, hnone⟩ | ⟨before, p, after, hsplit, hbefore, hp, ⟨-, hres, -⟩ | ⟨-, hres | hres, -⟩⟩
    · split at hfail
      · simp at hfail
      · simp at hfail
      · next heq => exact absurd heq (hnone _)
    · rw [hres] at hfail
      cases hcall : p.route.call <;> simp [hcall] at hfail
    · rw [hres] at hfail
      simp at hfail
    · rw [hres] at hfail
      cases hcall : p.route.call with
      | none => simp [hcall] at hfail
      | some c =>
        cases hreply : p.header.reply with
        | false => simp [hcall, hreply] at hfail
        | true =>
          rw [next_route_of_split hsplit hbefore hp, hcall, hreply] at hcheck ⊢
          have htop : t.last_outgoing = some c := by
            by_contra hne
            have := (check_next_invalid_reply_iff t memory (some ⟨some c, true⟩)).mpr ⟨c, rfl, hne⟩
            rw [hcheck] at this
            cases this
          have hfinish : (t.finish_outgoing c).1 = .ok () := by
            rcases Thread.finish_outgoing_cases t c with ⟨hne, -⟩ | ⟨-, heq⟩
            · exact absurd htop hne
            · rw [heq]
          rw [hcall, hreply] at hfail
          dsimp only at hfail
          rw [if_pos rfl, if_neg (by simp)] at hfail
          split at hfail
          · next heq =>
            rw [heq] at hfinish
            cases hfinish
          · simp at hfail

/-! ## Closing -/

theorem notify_dead_caller_cases : r.notify_dead_caller id = (.ok (), r) ∨
    ∃ dead rest, r.closing[id]? = some ⟨true, dead :: rest⟩ ∧
      ((r.existing_thread dead.caller dead.thread_id = none ∧
          r.notify_dead_caller id =
            (.ok (), { r with closing := r.closing.insert id ⟨true, rest⟩ })) ∨
        ∃ t, r.existing_thread dead.caller dead.thread_id = some t ∧
          (((t.enqueue_dead_reply dead.call).1 = .ok () ∧
              r.notify_dead_caller id = (.ok (),
                { r.put_thread dead.caller dead.thread_id (t.enqueue_dead_reply dead.call).2 with
                  closing := r.closing.insert id ⟨true, rest⟩ })) ∨
            ((∃ e, (t.enqueue_dead_reply dead.call).1 = .error e) ∧
              r.notify_dead_caller id = (.error (.Connection (.Io .EINVAL)),
                { r with closing := r.closing.erase id })))) := by
  unfold notify_dead_caller
  split
  · next dead rest hclosing =>
    refine .inr ⟨dead, rest, hclosing, ?_⟩
    cases ht : r.existing_thread dead.caller dead.thread_id with
    | none => exact .inl ⟨rfl, rfl⟩
    | some t =>
      refine .inr ⟨t, rfl, ?_⟩
      dsimp only
      split
      · next t' heq => exact .inl ⟨by rw [heq], by rw [heq]⟩
      · next e t' heq => exact .inr ⟨⟨e, by rw [heq]⟩, rfl⟩
  · exact .inl rfl

theorem drop_owner_cases : r.drop_owner id = r ∨
    ∃ dead_callers, r.closing[id]? = some ⟨false, dead_callers⟩ ∧
      r.drop_owner id =
        { r.put id ⟨∅, none⟩ with closing := r.closing.insert id ⟨true, dead_callers⟩ } := by
  unfold drop_owner
  split
  · next dead_callers hclosing => exact .inr ⟨dead_callers, hclosing, rfl⟩
  · exact .inl rfl

/-- Running an operation on a thread. -/
theorem with_thread_cases (thread_id : UInt64) (f : Thread → Registry × Thread) :
    (r.existing_thread id thread_id = none ∧ r.with_thread id thread_id f = r) ∨
    ∃ t, r.existing_thread id thread_id = some t ∧
      r.with_thread id thread_id f = (f t).1.put_thread id thread_id (f t).2 := by
  unfold with_thread
  cases h : r.existing_thread id thread_id with
  | none => exact .inl ⟨rfl, rfl⟩
  | some t => exact .inr ⟨t, rfl, rfl⟩

end

/-- What holds of a registry and is kept by an operation on one of its threads. -/
theorem with_thread_rec {P : Registry → Prop} {r : Registry} {id : ConnectionId}
    {thread_id : UInt64} {f : Thread → Registry × Thread} (h : P r)
    (hf : ∀ t, r.existing_thread id thread_id = some t →
      P ((f t).1.put_thread id thread_id (f t).2)) : P (r.with_thread id thread_id f) := by
  rcases with_thread_cases r id thread_id f with ⟨-, heq⟩ | ⟨t, ht, heq⟩
  · rwa [heq]
  · rw [heq]
    exact hf t ht

/-! ## Two processes, for concrete runs -/

/-- A synchronous request to a handle. -/
def call_request : Request := ⟨.Handle 1, 7, 0⟩

/-- The answers for a transaction to a node of connection `owner`, received at `address`. -/
def routed (owner : ConnectionId) (address : ℕ) : Submission :=
  ⟨true, .ok ⟨⟨owner, 1⟩, 0, 0⟩, true, ⟨.ok (), .ok ⟨address, 0, 0, address⟩⟩⟩

/-- Two connections with their mappings; thread 11 of the first, threads 21 and 22 of the
second. -/
def two_processes : List Op :=
  [.register true, .register true, .install_receive_mapping 1, .install_receive_mapping 2,
    .thread 1 11, .thread 2 21, .thread 2 22]

end DarwinArt.Binder.Registry
