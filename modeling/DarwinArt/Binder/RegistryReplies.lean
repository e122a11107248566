/-
Replies and the stacks of the threads they are queued for.

A read takes the first entry of the queue the thread may take, and `validate_outgoing` then
insists that a reply answers the call on top of the thread's stack. Nothing in the queue
orders replies by the stack: a waiting thread takes any synchronous call, may call again
from within it, and the replies to its outer and inner calls arrive in either order. A
reply to an outer call, queued first, then fails every further read of the thread.

This file gives a condition under which that cannot happen: `Orderly` asks, of each step, that a
reply be queued only for the call on top of its thread's stack and alone, and that the thread
neither calls again nor reads a dead reply before it has taken it. `ReplyInv` is what such
steps keep.
-/
import DarwinArt.Binder.RegistrySteps

set_option autoImplicit false

namespace DarwinArt.Binder

open Lib Lib.ListEdit

/-! ## Queued replies -/

/-- The entry is a reply queued for thread `thread_id`. -/
def Pending.repliesTo (thread_id : UInt64) (p : Pending) : Bool :=
  p.header.reply ∧ p.route.target_thread = some thread_id

/-- The replies queued for a thread of a connection. -/
def Connection.replies (connection : Connection) (thread_id : UInt64) : List Pending :=
  match connection.transactions with
  | none => []
  | some queue => queue.pending.filter (Pending.repliesTo thread_id)

/-- Replies are targeted, and a queued reply is the only one for its thread and answers the
call on top of that thread's stack. -/
structure ReplyInv (connection : Connection) : Prop where
  ids : ∀ (thread_id : UInt64) t, connection.threads[thread_id]? = some t → t.id = thread_id
  targeted : ∀ queue, connection.transactions = some queue → ∀ p ∈ queue.pending,
    p.header.reply = true → ∃ thread_id, p.route.target_thread = some thread_id
  top : ∀ thread_id : UInt64, connection.replies thread_id = [] ∨
    ∃ p t c, connection.replies thread_id = [p] ∧ connection.threads[thread_id]? = some t ∧
      p.route.call = some c ∧ t.last_outgoing = some c

theorem ReplyInv.empty : ReplyInv ⟨∅, none⟩ where
  ids thread_id t ht := by simp at ht
  targeted queue hqueue := by simp at hqueue
  top thread_id := .inl rfl

variable {connection : Connection}

/-- A thread is written back whose stack has the same top, or that no reply waits for. -/
theorem ReplyInv.write_thread (h : ReplyInv connection)
    {thread_id : UInt64} {t t' : Thread} (ht : connection.threads[thread_id]? = some t)
    (hid : t'.id = t.id)
    (htop : connection.replies thread_id = [] ∨
      ∀ c, t.last_outgoing = some c → t'.last_outgoing = some c) :
    ReplyInv { connection with threads := connection.threads.insert thread_id t' } where
  ids id u hu := by
    rcases getElem?_insert_cases hu with ⟨rfl, rfl⟩ | ⟨-, hu⟩
    · rw [hid, h.ids id t ht]
    · exact h.ids id u hu
  targeted := h.targeted
  top id := by
    rcases h.top id with hnone | ⟨p, u, c, hreplies, hu, hc, hlast⟩
    · exact .inl hnone
    · right
      rcases eq_or_ne thread_id id with rfl | heq
      · rw [ht] at hu
        cases hu
        rcases htop with hnone | hkeep
        · exact nomatch hnone.symm.trans hreplies
        · exact ⟨p, t', c, hreplies, by simp, hc, hkeep c hlast⟩
      · refine ⟨p, u, c, hreplies, ?_, hc, hlast⟩
        rwa [getElem?_insert_ne heq]

variable {queue : Queue} {p : Pending}

/-- The queue after one more entry. -/
theorem replies_append (p : Pending)
    (hqueue : connection.transactions = some queue) (thread_id : UInt64) :
    Connection.replies { connection with
      transactions := some { queue with pending := queue.pending ++ [p] } } thread_id =
      connection.replies thread_id ++ (if p.repliesTo thread_id then [p] else []) := by
  simp only [Connection.replies, hqueue, List.filter_append, List.filter_cons, List.filter_nil]

section

variable (h : ReplyInv connection) (hqueue : connection.transactions = some queue)
include h hqueue

/-- Work that is no reply. -/
theorem ReplyInv.append_call (hp : p.header.reply = false) :
    ReplyInv { connection with
      transactions := some { queue with pending := queue.pending ++ [p] } } where
  ids := h.ids
  targeted queue' hq x hx hreply := by
    rw [← Option.some.inj hq] at hx
    rcases mem_snoc hx with hx | hx
    · exact h.targeted queue hqueue x hx hreply
    · rw [hx, hp] at hreply
      cases hreply
  top thread_id := by
    rw [replies_append p hqueue, if_neg (by simp [Pending.repliesTo, hp]), List.append_nil]
    exact h.top thread_id

/-- A reply to the call on top of the stack of a thread that no reply waits for. -/
theorem ReplyInv.append_reply {thread_id : UInt64}
    {t : Thread} {c : CallId} (htarget : p.route.target_thread = some thread_id)
    (hcall : p.route.call = some c) (hnone : connection.replies thread_id = [])
    (ht : connection.threads[thread_id]? = some t) (htop : t.last_outgoing = some c) :
    ReplyInv { connection with
      transactions := some { queue with pending := queue.pending ++ [p] } } where
  ids := h.ids
  targeted queue' hq x hx hreply := by
    rw [← Option.some.inj hq] at hx
    rcases mem_snoc hx with hx | hx
    · exact h.targeted queue hqueue x hx hreply
    · rw [hx]
      exact ⟨thread_id, htarget⟩
  top id := by
    rw [replies_append p hqueue]
    by_cases hp : p.repliesTo id = true
    · have hid : thread_id = id := by
        have : p.route.target_thread = some id := by
          simp only [Pending.repliesTo, decide_eq_true_eq] at hp
          exact hp.2
        rw [htarget] at this
        exact Option.some.inj this
      subst hid
      rw [if_pos hp, hnone]
      exact .inr ⟨p, t, c, rfl, ht, hcall, htop⟩
    · rw [if_neg hp, List.append_nil]
      exact h.top id

/-! ## Reading -/

/-- Marking a completion leaves the replies what they are, up to that mark. -/
theorem ReplyInv.complete {queue' : Queue}
    {before after : List Pending} (hsplit : queue.pending = before ++ p :: after)
    (hsplit' : queue'.pending = before ++ Queue.complete p :: after) :
    ReplyInv { connection with transactions := some queue' } where
  ids := h.ids
  targeted q hq x hx hreply := by
    rw [← Option.some.inj hq, hsplit'] at hx
    have hmem : ∀ y ∈ before ++ p :: after, y.header.reply = true →
        ∃ thread_id, y.route.target_thread = some thread_id := by
      rw [← hsplit]
      exact h.targeted queue hqueue
    rcases List.mem_append.mp hx with hx | hx
    · exact hmem x (List.mem_append_left _ hx) hreply
    · rcases List.mem_cons.mp hx with rfl | hx
      · exact hmem p (by simp) hreply
      · exact hmem x (List.mem_append_right _ (List.mem_cons_of_mem _ hx)) hreply
  top id := by
    have hold := h.top id
    simp only [Connection.replies, hqueue, hsplit, hsplit', List.filter_append,
      List.filter_cons] at hold ⊢
    have hsame : (Queue.complete p).repliesTo id = p.repliesTo id := rfl
    rw [hsame]
    by_cases hp : p.repliesTo id = true
    · rw [if_pos hp] at hold ⊢
      rcases hold with hnone | ⟨x, t, c, hx, ht, hc, htop⟩
      · simp at hnone
      · obtain ⟨hb, hpx, ha⟩ := around_of_singleton hx
        refine .inr ⟨Queue.complete p, t, c, ?_, ht, ?_, htop⟩
        · rw [hb, ha, List.nil_append]
        · rwa [← hpx] at hc
    · rw [if_neg hp] at hold ⊢
      exact hold

/-- Taking an entry out. -/
theorem ReplyInv.take {queue' : Queue}
    {before after : List Pending} (hsplit : queue.pending = before ++ p :: after)
    (hsplit' : queue'.pending = before ++ after) :
    ReplyInv { connection with transactions := some queue' } ∧
      ∀ id, p.repliesTo id = true →
        Connection.replies { connection with transactions := some queue' } id = [] := by
  have hgone : ∀ id, p.repliesTo id = true →
      Connection.replies { connection with transactions := some queue' } id = [] := by
    intro id hp
    have hold := h.top id
    simp only [Connection.replies, hqueue, hsplit, hsplit', List.filter_append,
      List.filter_cons, if_pos hp] at hold ⊢
    rcases hold with hnone | ⟨x, t, c, hx, -⟩
    · simp at hnone
    · obtain ⟨hb, -, ha⟩ := around_of_singleton hx
      rw [hb, ha, List.nil_append]
  refine ⟨⟨h.ids, fun q hq x hx hreply => ?_, fun id => ?_⟩, hgone⟩
  · rw [← Option.some.inj hq, hsplit'] at hx
    refine h.targeted queue hqueue x ?_ hreply
    rw [hsplit]
    rcases List.mem_append.mp hx with hx | hx
    · exact List.mem_append_left _ hx
    · exact List.mem_append_right _ (List.mem_cons_of_mem _ hx)
  · by_cases hp : p.repliesTo id = true
    · exact .inl (hgone id hp)
    · have hold := h.top id
      simp only [Connection.replies, hqueue, hsplit, hsplit', List.filter_append,
        List.filter_cons, if_neg hp] at hold ⊢
      exact hold

end

/-- A reply that a thread may take is the only one queued for it, and answers the call on top of
its stack. -/
theorem ReplyInv.only_reply (h : ReplyInv connection) {thread_id : UInt64} {t : Thread}
    {accept_async : Bool} (ht : connection.threads[thread_id]? = some t)
    (hqueue : connection.transactions = some queue) (hmem : p ∈ queue.pending)
    (hreply : p.header.reply = true) (hdeliv : Queue.deliverable t.id accept_async p = true) :
    p.repliesTo thread_id = true ∧ connection.replies thread_id = [p] ∧
      ∃ c, p.route.call = some c ∧ t.last_outgoing = some c := by
  obtain ⟨target, htarget⟩ := h.targeted queue hqueue p hmem hreply
  have hid : target = t.id := by simpa [Queue.deliverable, htarget] using hdeliv
  have hp : p.repliesTo thread_id = true := by
    simp [Pending.repliesTo, hreply, htarget, hid, h.ids thread_id t ht]
  have hin : p ∈ connection.replies thread_id := by
    simp only [Connection.replies, hqueue, List.mem_filter]
    exact ⟨hmem, hp⟩
  rcases h.top thread_id with hnone | ⟨p', u, c, honly, hu, hcall, htop⟩
  · rw [hnone] at hin
    exact absurd hin List.not_mem_nil
  · rw [honly] at hin
    obtain rfl := List.mem_singleton.mp hin
    rw [ht] at hu
    cases hu
    exact ⟨hp, honly, c, hcall, htop⟩

namespace Registry

/-! ## Orderly steps -/

/-- The replies queued for a thread. -/
def replies (r : Registry) (id : ConnectionId) (thread_id : UInt64) : List Pending :=
  match r.connections[id]? with
  | none => []
  | some connection => connection.replies thread_id

/-- `call` is on top of the stack of the thread, and no reply waits for the thread. -/
def AwaitsReply (r : Registry) (id : ConnectionId) (thread_id : UInt64) (call : CallId) : Prop :=
  r.replies id thread_id = [] ∧
    ∃ t, r.existing_thread id thread_id = some t ∧ t.last_outgoing = some call

/-- The step comes in the order the stacks ask for: a reply is queued for the call on top of
its thread's stack, as the only one; and as long as a reply waits for a thread, the thread
makes no further synchronous call and reads no dead reply. -/
def Orderly (r : Registry) : Op → Prop
  | .submit_transaction id thread_id request _ _ =>
    request.flags &&& 1 = 0 → r.replies id thread_id = []
  | .on_thread id thread_id (.begin_remote_submission true _) => r.replies id thread_id = []
  | .on_thread id thread_id (.read_local_work output) =>
    ∀ t, r.existing_thread id thread_id = some t → t.ReadsDeadReply output →
      r.replies id thread_id = []
  | .submit_reply _ _ call _ _ _ =>
    ∀ route, r.calls.routes[call]? = some route → route.sender ∈ r.owners →
      r.AwaitsReply route.sender route.thread_id call
  | .enqueue_remote_reply id remote _ =>
    r.AwaitsReply id remote.target_thread (.Remote remote.call)
  | _ => True

/-! ## The invariant over steps -/

/-- Every connection keeps `ReplyInv`. -/
def RepliesInv (r : Registry) : Prop :=
  ∀ (id : ConnectionId) connection, r.connections[id]? = some connection → ReplyInv connection

variable {r r' : Registry} {id : ConnectionId} {thread_id : UInt64} {t : Thread}

variable {connection : Connection} {identity : SenderIdentity}

theorem RepliesInv.put (h : RepliesInv r) (id : ConnectionId) (hc : ReplyInv connection) :
    RepliesInv (r.put id connection) := by
  intro id' connection' hconn
  rw [put_connections] at hconn
  split at hconn
  · cases hconn
    exact hc
  · exact h id' connection' hconn

/-- The invariant is about the connections alone. -/
theorem RepliesInv.of_connections (h : RepliesInv r)
    (heq : r'.connections = r.connections) : RepliesInv r' := by
  intro id connection hconn
  rw [heq] at hconn
  exact h id connection hconn

theorem replies_eq (h : r.connections[id]? = some connection) (thread_id : UInt64) :
    r.replies id thread_id = connection.replies thread_id := by
  unfold replies
  rw [h]

theorem RepliesInv.put_thread (h : RepliesInv r) {t' : Thread}
    (ht : r.existing_thread id thread_id = some t) (hid : t'.id = t.id)
    (htop : r.replies id thread_id = [] ∨
      ∀ c, t.last_outgoing = some c → t'.last_outgoing = some c) :
    RepliesInv (r.put_thread id thread_id t') := by
  obtain ⟨connection, hconn, hthread⟩ := existing_thread_eq_some.mp ht
  rw [put_thread_eq hconn]
  rw [replies_eq hconn] at htop
  exact h.put id ((h id connection hconn).write_thread hthread hid htop)

theorem RepliesInv.append_call (h : RepliesInv r) (happ : Appended r r' id p)
    (hp : p.header.reply = false) :
    RepliesInv r' ∧ ∀ id' thread_id, r'.replies id' thread_id = r.replies id' thread_id := by
  obtain ⟨connection, _, hconn, hqueue, rfl⟩ := happ
  refine ⟨h.put id ((h id connection hconn).append_call hqueue hp), fun id' _ => ?_⟩
  unfold replies
  rw [put_connections]
  rcases eq_or_ne id id' with rfl | hid
  · rw [if_pos rfl, hconn]
    dsimp only
    rw [replies_append p hqueue, if_neg (by simp [Pending.repliesTo, hp]), List.append_nil]
  · rw [if_neg hid]

theorem RepliesInv.append_reply (h : RepliesInv r) {c : CallId} (happ : Appended r r' id p)
    (htarget : p.route.target_thread = some thread_id) (hcall : p.route.call = some c)
    (hawaits : r.AwaitsReply id thread_id c) : RepliesInv r' := by
  obtain ⟨connection, _, hconn, hqueue, rfl⟩ := happ
  obtain ⟨hnone, t, ht, htop⟩ := hawaits
  obtain ⟨_, hconn', hthread⟩ := existing_thread_eq_some.mp ht
  rw [hconn] at hconn'
  cases hconn'
  rw [replies_eq hconn] at hnone
  exact h.put id ((h id connection hconn).append_reply hqueue htarget hcall hnone hthread htop)

/-- Committing a one-way transaction leaves the stack alone. -/
theorem commit_none_top (t : Thread) (c : CallId) (h : t.last_outgoing = some c) :
    (t.commit none).last_outgoing = some c :=
  (Thread.last_outgoing_congr rfl).trans h

section

variable (h : RepliesInv r) (ht : r.existing_thread id thread_id = some t)
include h ht

theorem RepliesInv.submit_transaction {request : Request} {given : Submission}
    (horder : request.flags &&& 1 = 0 → r.replies id thread_id = []) :
    RepliesInv ((r.submit_transaction id t request identity given).2.1.put_thread id thread_id
      (r.submit_transaction id t request identity given).2.2) := by
  rcases submit_transaction_cases r id t request identity given with
    ⟨-, hthread, hsame | ⟨route, hsame⟩⟩ | ⟨node, a, header, hthread, hreply, happ⟩ |
    ⟨node, a, header, hsync, -, -, hthread, hreply, happ⟩
  · rw [hthread, hsame]
    exact h.put_thread ht rfl (.inr fun c hc => hc)
  · rw [hthread, hsame]
    have hr : RepliesInv { r with calls := withdrawn r.calls route } := h.of_connections rfl
    exact hr.put_thread ht rfl (.inr fun c hc => hc)
  · obtain ⟨hr, -⟩ := h.append_call happ hreply
    rw [hthread]
    refine hr.put_thread (t := t) ?_ rfl (.inr fun c hc => commit_none_top t c hc)
    rwa [happ.existing_thread]
  · have hcalls : RepliesInv { r with calls := ⟨r.calls.next + 1,
        r.calls.routes.insert (.Local (r.calls.next + 1)) ⟨id, t.id, node⟩⟩ } :=
      h.of_connections rfl
    obtain ⟨hr, hreplies⟩ := hcalls.append_call happ hreply
    rw [hthread]
    refine hr.put_thread (t := t) ?_ rfl (.inl ?_)
    · rwa [happ.existing_thread]
    · rw [hreplies]
      exact horder hsync

theorem RepliesInv.submit_reply {call : CallId} {request : Request} {transfer : Transfer}
    (horder : ∀ route, r.calls.routes[call]? = some route → route.sender ∈ r.owners →
      r.AwaitsReply route.sender route.thread_id call) :
    RepliesInv ((r.submit_reply id call t request identity transfer).2.1.put_thread id thread_id
      (r.submit_reply id call t request identity transfer).2.2) := by
  rcases submit_reply_cases r id call t request identity transfer with
    ⟨-, hsame⟩ | ⟨route, -, -, heq⟩ |
    ⟨route, a, _, _, r', hroute, hsender, _, happ, heq⟩
  · rw [hsame]
    exact h.put_thread ht rfl (.inr fun c hc => hc)
  · rw [heq]
    have hr : RepliesInv { r with calls := remove_call r.calls call } := h.of_connections rfl
    exact hr.put_thread ht rfl (.inr fun c hc => commit_none_top t c hc)
  · have hr := h.append_reply happ rfl rfl (horder route hroute hsender)
    have hr' : RepliesInv { r' with calls := remove_call r.calls call } := hr.of_connections rfl
    rw [heq]
    refine hr'.put_thread (t := t) ?_ rfl (.inr fun c hc => commit_none_top t c hc)
    exact (happ.existing_thread id thread_id).trans ht

theorem RepliesInv.deliver_transaction (output : ℕ) (memory : DeliveryMemory) :
    RepliesInv ((r.deliver_transaction id t output memory).2.1.put_thread id thread_id
      (r.deliver_transaction id t output memory).2.2) := by
  rcases deliver_transaction_cases r id t output memory with
    hsame | ⟨connection, queue, queue', _, p, _, hconn, hqueue, hsplit, hdeliv, -, hr,
      ⟨hq, hthread⟩ | ⟨hq, hthread⟩⟩
  · rw [hsame]
    exact h.put_thread ht rfl (.inr fun c hc => hc)
  all_goals
    obtain ⟨_, hconn', hth⟩ := existing_thread_eq_some.mp ht
    rw [hconn] at hconn'
    cases hconn'
    have ht' : (r.put id { connection with transactions := some queue' }).existing_thread id
        thread_id = some t :=
      existing_thread_eq_some.mpr ⟨{ connection with transactions := some queue' },
        by rw [put_connections, if_pos rfl], hth⟩
  · have hkeep := h.put id ((h id connection hconn).complete hqueue hsplit hq)
    rw [hr, hthread]
    exact hkeep.put_thread ht' rfl (.inr fun c hc => hc)
  · obtain ⟨htake, hgone⟩ := (h id connection hconn).take hqueue hsplit hq
    have hkeep := h.put id htake
    have hreplies : (r.put id { connection with transactions := some queue' }).replies id
        thread_id = Connection.replies { connection with transactions := some queue' } thread_id :=
      replies_eq (by rw [put_connections, if_pos rfl]) thread_id
    rw [hr]
    rcases hthread with hthread | hthread
    · rw [hthread]
      exact hkeep.put_thread ht' rfl (.inr fun c hc => hc)
    · rw [hthread]
      refine hkeep.put_thread ht' (received_id t p) ?_
      cases hreply : p.header.reply with
      | false =>
        -- a call taken on: the outgoing stack is as it was
        refine .inr fun c hc => ?_
        refine (Thread.last_outgoing_congr ?_).trans hc
        unfold received
        split
        · rfl
        · rw [hreply]
          rfl
      | true =>
        -- the reply taken was the only one for this thread
        left
        rw [hreplies]
        refine hgone thread_id ?_
        have hid : t.id = thread_id := (h id connection hconn).ids thread_id t hth
        obtain ⟨target, htarget⟩ := (h id connection hconn).targeted queue hqueue p
          (by rw [hsplit]; simp) hreply
        have : target = t.id := by simpa [Queue.deliverable, htarget] using hdeliv
        simp [Pending.repliesTo, hreply, htarget, this, hid]

theorem RepliesInv.on_thread {op : Thread.Op} (horder : Orderly r (.on_thread id thread_id op)) :
    RepliesInv (r.put_thread id thread_id
      (if Thread.outside op then (t.perform op).2 else t)) := by
  split
  · next hop =>
    refine h.put_thread ht (Thread.outside_id hop t) ?_
    by_cases hnone : r.replies id thread_id = []
    · exact .inl hnone
    · refine .inr fun c hc => Thread.outside_keeps_top hop hc ?_ ?_
      · rintro _ rfl
        exact hnone horder
      · rintro _ rfl hdead
        exact hnone (horder t ht hdead)
  · exact h.put_thread ht rfl (.inr fun c hc => hc)

end

theorem RepliesInv.fail_remote_authority (h : RepliesInv r) (id : ConnectionId) :
    RepliesInv (r.fail_remote_authority id).2 := by
  rcases fail_remote_authority_cases r id with heq | ⟨connection, hconn, heq⟩
  · rwa [heq]
  rw [heq]
  obtain ⟨htrans, hthreads⟩ := fail_threads_spec connection connection.threads.keys
  have hc := h id connection hconn
  have hreplies : ∀ thread_id,
      (fail_threads connection connection.threads.keys).2.replies thread_id =
        connection.replies thread_id := by
    intro thread_id
    simp only [Connection.replies, htrans]
  refine h.put _ ⟨fun thread_id t' ht' => ?_, fun queue hqueue => ?_, fun thread_id => ?_⟩
  · cases ht : connection.threads[thread_id]? with
    | none =>
      rw [(hthreads thread_id).1 ht] at ht'
      cases ht'
    | some t =>
      obtain ⟨_, ht'', hm⟩ := (hthreads thread_id).2 t ht
      rw [ht''] at ht'
      rw [← Option.some.inj ht', hm.keeps.id_eq]
      exact hc.ids thread_id t ht
  · rw [htrans] at hqueue
    exact hc.targeted queue hqueue
  · rw [hreplies]
    rcases hc.top thread_id with hnone | ⟨p, t, c, hp, ht, hcall, htop⟩
    · exact .inl hnone
    · obtain ⟨t', ht', hm⟩ := (hthreads thread_id).2 t ht
      refine .inr ⟨p, t', c, hp, ht', hcall, ?_⟩
      rwa [Thread.last_outgoing_congr hm.outgoing_eq]

theorem RepliesInv.notify_dead_caller (h : RepliesInv r) (id : ConnectionId) :
    RepliesInv (r.notify_dead_caller id).2 := by
  rcases notify_dead_caller_cases r id with
    heq | ⟨dead, _, -, ⟨-, heq⟩ | ⟨t, ht, ⟨-, heq⟩ | ⟨-, heq⟩⟩⟩
  · rwa [heq]
  · rw [heq]
    exact h.of_connections rfl
  · rw [heq]
    -- a dead reply is a record, the stack is as it was
    have hstack : (t.enqueue_dead_reply dead.call).2.id = t.id ∧
        (t.enqueue_dead_reply dead.call).2.outgoing = t.outgoing := by
      rcases Thread.enqueue_dead_reply_cases t dead.call with heq | heq <;> rw [heq] <;>
        exact ⟨rfl, rfl⟩
    have hr := h.put_thread ht hstack.1
      (.inr fun c hc => (Thread.last_outgoing_congr hstack.2).trans hc)
    exact hr.of_connections rfl
  · rw [heq]
    exact h.of_connections rfl

theorem RepliesInv.step (h : RepliesInv r) {op : Op} (horder : Orderly r op) :
    RepliesInv (r.perform op) := by
  cases op with
  | register memory =>
    show RepliesInv (r.register memory).2
    unfold register
    split
    · exact h
    · split
      · exact h
      · next serial _ _ =>
        have hr : RepliesInv (r.put serial ⟨∅, none⟩) := h.put _ ReplyInv.empty
        exact hr.of_connections rfl
  | thread id thread_id =>
    show RepliesInv (r.thread id thread_id).2
    unfold Registry.thread
    split
    · exact h
    · next connection hlookup =>
      split
      · exact h
      · next fresh hfresh =>
        split
        · exact h
        · next hnew =>
          have hc := h id connection (lookup_id_eq_ok.mp hlookup).2
          have hid : fresh.id = thread_id := by
            unfold Thread.new at hfresh
            split at hfresh
            · rw [← Option.some.inj hfresh]
            · cases hfresh
          have habsent : connection.threads[thread_id]? = none := by simpa using hnew
          refine h.put _ ⟨fun x t ht => ?_, hc.targeted, fun x => ?_⟩
          · rcases getElem?_insert_cases ht with ⟨rfl, rfl⟩ | ⟨-, ht⟩
            · exact hid
            · exact hc.ids x t ht
          · rcases hc.top x with hnone | ⟨p, t, c, hp, ht, hcall, htop⟩
            · exact .inl hnone
            · refine .inr ⟨p, t, c, hp, ?_, hcall, htop⟩
              rw [getElem?_insert_ne]
              · exact ht
              · rintro rfl
                rw [habsent] at ht
                cases ht
  | install_receive_mapping id =>
    show RepliesInv (r.install_receive_mapping id)
    unfold install_receive_mapping
    split
    · exact h
    · next connection hlookup =>
      split
      · exact h
      · have hc := h id connection (lookup_id_eq_ok.mp hlookup).2
        refine h.put _ ⟨hc.ids, fun _ hqueue p hp => ?_, fun x => .inl rfl⟩
        rw [← Option.some.inj hqueue] at hp
        exact absurd hp (by simp [Queue.new])
  | looper =>
    refine with_thread_rec h fun t ht => h.put_thread ht rfl (.inr fun c hc => ?_)
    exact (Thread.last_outgoing_congr rfl).trans hc
  | submit_transaction => exact with_thread_rec h fun t ht => h.submit_transaction ht horder
  | submit_reply => exact with_thread_rec h fun t ht => h.submit_reply ht horder
  | enqueue_remote_transaction id remote node allocation =>
    show RepliesInv (r.enqueue_remote_transaction id remote node allocation).2
    rcases enqueue_remote_transaction_cases r id remote node allocation with
      heq | ⟨a, header, hreply, happ⟩
    · rwa [heq]
    · exact (h.append_call happ hreply).1
  | enqueue_remote_reply id remote transfer =>
    show RepliesInv (r.enqueue_remote_reply id remote transfer).2
    rcases enqueue_remote_reply_cases r id remote transfer with heq | ⟨a, header, -, happ⟩
    · rwa [heq]
    · exact h.append_reply happ rfl rfl horder
  | fail_remote_authority id => exact h.fail_remote_authority id
  | deliver_transaction _ _ output memory =>
    exact with_thread_rec h fun t ht => h.deliver_transaction ht output memory
  | on_thread => exact with_thread_rec h fun t ht => h.on_thread ht horder
  | close id =>
    show RepliesInv (r.close id).2
    unfold close
    split
    · exact h.of_connections rfl
    · exact h
  | drop_owner id =>
    show RepliesInv (r.drop_owner id)
    rcases drop_owner_cases r id with heq | ⟨_, -, heq⟩
    · rwa [heq]
    · rw [heq]
      have hr : RepliesInv (r.put id ⟨∅, none⟩) := h.put _ ReplyInv.empty
      exact hr.of_connections rfl
  | notify_dead_caller id => exact h.notify_dead_caller id

/-! ## Reads are served -/

/-- A read by a thread of an open connection never fails on a reply: a reply it selects is the one
to the call on top of the thread's stack, and where that reply is queued it is the one selected,
whatever replies stand before it. A call that stands before it may be taken first. -/
def Served (r : Registry) : Prop :=
  ∀ id connection (thread_id : UInt64) t, r.lookup_id id = .ok connection →
    connection.threads[thread_id]? = some t →
    (∀ output memory, (r.deliver_transaction id t output memory).1 ≠
      .error (.Thread .InvalidOutgoingReply)) ∧
    (∀ queue c, connection.transactions = some queue →
      queue.next_route t.id t.can_wait_for_process_work = some ⟨some c, true⟩ →
      t.last_outgoing = some c) ∧
    ∀ queue before p after c, connection.transactions = some queue →
      queue.pending = before ++ p :: after → p.repliesTo thread_id = true →
      p.route.call = some c → t.last_outgoing = some c →
      (∀ x ∈ before, x.header.reply = false →
        Queue.deliverable t.id t.can_wait_for_process_work x = false) →
      queue.next_route t.id t.can_wait_for_process_work = some ⟨some c, true⟩

theorem RepliesInv.served (h : RepliesInv r) : Served r := by
  intro id connection thread_id t hlookup ht
  have hc := h id connection (lookup_id_eq_ok.mp hlookup).2
  have hselect : ∀ queue c, connection.transactions = some queue →
      queue.next_route t.id t.can_wait_for_process_work = some ⟨some c, true⟩ →
      t.last_outgoing = some c := by
    intro queue c hqueue hnext
    obtain ⟨p, hfind, hp⟩ := Option.map_eq_some_iff.mp hnext
    obtain ⟨hcall, hreply⟩ := Next.mk.inj hp
    obtain ⟨-, -, c', hcall', htop⟩ := hc.only_reply ht hqueue (List.mem_of_find?_eq_some hfind)
      hreply (List.find?_some hfind)
    rw [hcall] at hcall'
    rw [htop, Option.some.inj hcall']
  refine ⟨fun output memory hfail => ?_, hselect, ?_⟩
  · cases hqueue : connection.transactions with
    | none =>
      simp [Registry.deliver_transaction, hlookup, hqueue] at hfail
    | some queue =>
      obtain ⟨c, hnext, hne⟩ :=
        (deliver_invalid_reply_iff _ _ hlookup hqueue t output memory).mp hfail
      exact hne (hselect queue c hqueue hnext)
  · intro queue before p after c hqueue hsplit hp hcall _ hcalls
    obtain ⟨hreply, htarget⟩ : p.header.reply = true ∧ p.route.target_thread = some thread_id := by
      simpa [Pending.repliesTo] using hp
    have hdeliv : Queue.deliverable t.id t.can_wait_for_process_work p = true := by
      simp [Queue.deliverable, htarget, hc.ids thread_id t ht]
    have hfind : queue.pending.find? (Queue.deliverable t.id t.can_wait_for_process_work) =
        some p := by
      refine List.find?_eq_some_iff_append.mpr ⟨hdeliv, before, after, hsplit, fun x hx => ?_⟩
      rw [Bool.not_eq_true', ← Bool.not_eq_true]
      intro hx'
      cases hxreply : x.header.reply with
      | false => exact absurd hx' (by simp [hcalls x hx hxreply])
      | true =>
        -- `x` and `p` would be two replies for one thread
        obtain ⟨hxp, honly, -⟩ := hc.only_reply ht hqueue (by simp [hsplit, hx]) hxreply hx'
        have hboth : (before.filter (Pending.repliesTo thread_id)).length + 1 ≤
            (connection.replies thread_id).length := by
          simp [Connection.replies, hqueue, hsplit, hp]
        have hpos := List.length_pos_of_mem (List.mem_filter.mpr ⟨hx, hxp⟩)
        rw [honly, List.length_singleton] at hboth
        omega
    rw [Queue.next_route, hfind, Option.map_some, hcall, hreply]

/-- A step of an orderly run. -/
def OrderlyStep (r : Registry) (op : Op) (r' : Registry) : Prop := Step r op r' ∧ Orderly r op

/-- **In every state of an orderly run every read is served.** -/
theorem reads_served_in_orderly_runs {ops : List Op} {r : Registry}
    (hrun : Run OrderlyStep new ops r) : Served r := by
  have hinv : RepliesInv r := by
    refine hrun.invariant RepliesInv ?_ fun r _ _ h hstep => ?_
    · intro id connection hconn
      exact absurd hconn (by simp [new])
    · rw [← hstep.1]
      exact h.step hstep.2
  exact hinv.served

/-! ## A nested call and its replies -/

/-- Thread 11 calls, takes on a call of thread 22 while it waits, and calls again from
within it; then its first call is answered. -/
def nested_call_and_outer_reply : List Op :=
  two_processes ++
    [.submit_transaction 1 11 call_request ⟨1, 1000⟩ (routed 2 8),
      .submit_transaction 2 22 call_request ⟨2, 1000⟩ (routed 1 16),
      .deliver_transaction 1 11 RECORD_SIZE ⟨true, true⟩,
      .submit_transaction 1 11 call_request ⟨1, 1000⟩ (routed 2 24),
      .deliver_transaction 2 21 RECORD_SIZE ⟨true, true⟩,
      .submit_reply 2 21 (.Local 1) ⟨.Reply, 0, 0⟩ ⟨2, 1000⟩ ⟨.ok (), .ok ⟨32, 0, 0, 32⟩⟩]

/-- A thread calls and is answered: an orderly run, with the reply queued at its end. -/
theorem reads_served_after_reply :
    ∃ ops r, Run OrderlyStep new ops r ∧ (r.replies 1 11).length = 1 ∧ Served r := by
  have hopen : Run OrderlyStep new two_processes (two_processes.foldl perform new) :=
    (Run.nil new).snoc ⟨rfl, trivial⟩ |>.snoc ⟨rfl, trivial⟩ |>.snoc ⟨rfl, trivial⟩
      |>.snoc ⟨rfl, trivial⟩ |>.snoc ⟨rfl, trivial⟩ |>.snoc ⟨rfl, trivial⟩ |>.snoc ⟨rfl, trivial⟩
  have hcall := hopen.snoc (e := .submit_transaction 1 11 call_request ⟨1, 1000⟩ (routed 2 8))
    ⟨rfl, fun _ => by decide +kernel⟩
  have hreply := hcall.snoc
    (e := .submit_reply 2 21 (.Local 1) ⟨.Reply, 0, 0⟩ ⟨2, 1000⟩ ⟨.ok (), .ok ⟨16, 0, 0, 16⟩⟩)
    ⟨rfl, fun _ hroute _ => by
      have hroute' : ((two_processes.foldl perform new).perform
          (.submit_transaction 1 11 call_request ⟨1, 1000⟩ (routed 2 8))).calls.routes[
            CallId.Local 1]? = some ⟨1, 11, ⟨2, 1⟩⟩ := by decide +kernel
      rw [hroute'] at hroute
      cases hroute
      have htop : (((two_processes.foldl perform new).perform
          (.submit_transaction 1 11 call_request ⟨1, 1000⟩ (routed 2 8))).existing_thread 1 11).map
            Thread.last_outgoing = some (some (.Local 1)) := by decide +kernel
      exact ⟨by decide +kernel, Option.map_eq_some_iff.mp htop⟩⟩
  exact ⟨_, _, hreply, by decide +kernel, reads_served_in_orderly_runs hreply⟩

/-- **The outer reply wedges the thread.** The inner call is on top of the stack of thread 11
and the reply to the outer one is first in its queue: every read fails, whatever the buffer,
and leaves everything as it is. -/
theorem outer_reply_wedges_thread :
    ∃ r t, Run Step new nested_call_and_outer_reply r ∧ 1 ∈ r.owners ∧
      r.existing_thread 1 11 = some t ∧
      t.outgoing = [.Active (.Local 1), .Active (.Local 3)] ∧
      ∀ output memory, r.deliver_transaction 1 t output memory =
        (.error (.Thread .InvalidOutgoingReply), r, t) := by
  refine ⟨_, _, run_foldl new nested_call_and_outer_reply, by decide, rfl, rfl,
    fun _ _ => rfl⟩

end Registry

end DarwinArt.Binder
