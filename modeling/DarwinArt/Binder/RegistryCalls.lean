/-
Every synchronous call a registry routes ends once.

A call ends by its reply, which goes to the thread that made it, or is dropped if that
thread's connection is closed; or by the close of its target, which then owes the caller a
dead reply. `Event` is an operation with the registry it runs on; `Event.Ends` says which
end a step is to a call, and the invariant of `OutstandingCalls` makes it one.
-/
import DarwinArt.Binder.OutstandingCalls

set_option autoImplicit false

namespace DarwinArt.Binder.Registry

open Lib Lib.ListEdit

/-! ## Steps -/

variable {v : View} {t : Thread} {p : Pending} {id : ConnectionId} {thread_id : UInt64}
  {r r' : Registry} {op : Op} {c : CallId} {dead : DeadCaller} {route : CallRoute}

/-- What a delivery does to the thread concerns only the call it answers. -/
theorem received_same (hp : v.Settled p) {n : ℕ} (hn : v.Concerns id thread_id n) :
    Thread.Same (.Local n) t (received t p) := by
  unfold received
  cases hcall : p.route.call with
  | none => exact Thread.Same.refl _ t
  | some =>
    cases hreply : p.header.reply with
    | false => exact ⟨rfl, rfl⟩
    | true =>
      refine Thread.finish_outgoing_same t ?_
      rintro rfl
      obtain ⟨hle, hnot⟩ := hp hreply n hcall
      rcases hn with hn | ⟨place, hat⟩
      · exact absurd hle (by omega)
      · exact hnot _ place hat rfl

section

variable (h : CallInv r.view)
include h

/-- The next call is not outstanding yet. -/
theorem CallInv.next_unused {place : Place} (hdead : r.view.At dead place) :
    dead.call ≠ .Local (r.calls.next + 1) := by
  intro heq
  obtain ⟨⟨n, hn, hle⟩, -⟩ := h.serial_le dead place hdead
  obtain rfl := CallId.Local.inj (heq.symm.trans hn)
  exact absurd hle (Nat.not_succ_le_self _)

/-- A thread may be written back as it was. -/
theorem CallInv.put_same (ht : r.existing_thread id thread_id = some t) :
    CallInv (r.put_thread id thread_id t).view := by
  rw [view_put_thread ht]
  exact h.set_thread ht rfl fun n _ => Thread.Same.refl _ t

/-- A call that is withdrawn was not in the table before it was registered. -/
theorem withdrawn_eq (route : CallRoute) :
    withdrawn r.calls route = ⟨r.calls.next + 1, r.calls.routes⟩ := by
  unfold withdrawn
  congr 1
  refine ext_getElem? fun c => ?_
  rw [getElem?_erase]
  split
  · next heq =>
    obtain rfl := Std.LawfulEqCmp.eq_of_compare heq
    cases hroute : r.calls.routes[CallId.Local (r.calls.next + 1)]? with
    | none => rfl
    | some route =>
      have hat : r.view.At ⟨_, route.thread_id, route.sender⟩ .table := ⟨route.target, hroute⟩
      exact absurd rfl (h.next_unused hat)
  · next hne => rw [getElem?_insert, if_neg hne]

theorem CallInv.submit_transaction (ht : r.existing_thread id thread_id = some t)
    (request : Request) (identity : SenderIdentity) (given : Submission) :
    CallInv ((r.submit_transaction id t request identity given).2.1.put_thread id thread_id
      (r.submit_transaction id t request identity given).2.2).view := by
  have hid := h.thread_id_eq id thread_id t ht
  rcases submit_transaction_cases r id t request identity given with
    ⟨-, hthread, hsame | ⟨route, hsame⟩⟩ | ⟨node, a, header, hthread, hreply, happ⟩ |
      ⟨node, a, header, -, hsender, htarget, hthread, hreply, happ⟩
  · rw [hsame, hthread]
    exact h.put_same ht
  · -- the serial is used up; the route was not in the table before
    rw [hsame, hthread, withdrawn_eq h]
    have ht' : existing_thread { r with calls := ⟨r.calls.next + 1, r.calls.routes⟩ } id
        thread_id = some t := ht
    rw [view_put_thread ht']
    exact h.count_up.set_thread (v := { r.view with calls := _ }) ht rfl
      fun n _ => Thread.Same.refl _ t
  · have ht' := (happ.existing_thread id thread_id).trans ht
    rw [hthread, view_put_thread ht', view_appended happ]
    refine (h.append node ?_).set_thread ht rfl fun n _ => Thread.commit_none_same t _
    intro hrep
    exact nomatch hreply.symm.trans hrep
  · -- count the serial up, push the call on the thread's stack, and only then add the route
    have ht' := (happ.existing_thread id thread_id).trans ht
    rw [hthread, view_put_thread ht', view_appended happ]
    have hunheard := h.fresh id thread_id t (r.calls.next + 1) ht (Nat.lt_succ_self _)
    have h1 := h.count_up
    have h2 : CallInv (View.set_thread { r.view with calls := ⟨r.calls.next + 1, r.calls.routes⟩ }
        id thread_id (t.commit (some (.Local (r.calls.next + 1))))) := by
      refine h1.set_thread ht rfl fun n hn => Thread.commit_same t ?_
      intro heq
      obtain rfl : r.calls.next + 1 = n := by simpa using heq
      rcases hn with hn | ⟨place, hat⟩
      · exact absurd hn (lt_irrefl _)
      · exact h.next_unused hat rfl
    have h3 := h2.add_route ⟨id, t.id, node⟩
      (t := t.commit (some (.Local (r.calls.next + 1)))) hsender htarget
      (by simp [View.set_thread, hid]) hunheard.commit (fun _ _ => h.next_unused) ?_
    · refine CallInv.append (v := View.set_thread { r.view with calls := _ } id thread_id _)
        h3 node.owner ?_
      intro hrep
      exact nomatch hreply.symm.trans hrep
    · intro i p hp hrep heq
      obtain ⟨hle, -⟩ := h.replied i p hp hrep _ heq
      exact absurd hle (Nat.not_succ_le_self _)

theorem CallInv.submit_reply (ht : r.existing_thread id thread_id = some t)
    (call : CallId) (request : Request) (identity : SenderIdentity) (transfer : Transfer) :
    CallInv ((r.submit_reply id call t request identity transfer).2.1.put_thread id thread_id
      (r.submit_reply id call t request identity transfer).2.2).view := by
  rcases submit_reply_cases r id call t request identity transfer with
    ⟨-, heq⟩ | ⟨route, -, -, heq⟩ | ⟨route, a, header, _, r', hroute, -, -, happ, heq⟩
  · rw [heq]
    exact h.put_same ht
  · rw [heq]
    have ht' : existing_thread { r with calls := remove_call r.calls call } id thread_id =
        some t := ht
    rw [view_put_thread ht']
    exact (h.remove_route call).1.set_thread (v := { r.view with calls := _ }) ht rfl
      fun n _ => Thread.commit_none_same t _
  · rw [heq]
    have ht' : existing_thread { r' with calls := remove_call r.calls call } id thread_id =
        some t := (happ.existing_thread id thread_id).trans ht
    rw [view_put_thread ht']
    have hview : view { r' with calls := remove_call r.calls call } =
        View.set_pending { r.view with calls := remove_call r.calls call } route.sender
          (r.pending route.sender ++ [⟨a, header, ⟨some call, some route.thread_id, true⟩⟩]) := by
      have hr' := view_appended happ
      show { r'.view with calls := remove_call r.calls call } = _
      rw [hr']
      rfl
    rw [hview]
    -- the call that is answered has left the table, and was nowhere else
    have hat : r.view.At ⟨call, route.thread_id, route.sender⟩ .table := ⟨route.target, hroute⟩
    obtain ⟨⟨n, hn, hle⟩, -⟩ := h.serial_le _ _ hat
    obtain rfl : call = .Local n := hn
    obtain ⟨hinv, hgone⟩ := h.remove_route (.Local n)
    refine (CallInv.append (v := { r.view with calls := _ }) hinv route.sender ?_).set_thread ht rfl
      fun n _ => Thread.commit_none_same t _
    intro _ m hm
    obtain rfl : n = m := by simpa using hm
    refine ⟨hle, fun d place hd hcall => ?_⟩
    obtain ⟨hd, hne⟩ := hgone d place hd
    obtain ⟨-, hplace⟩ := h.place_unique d _ place .table hd hat hcall
    exact hne hplace hcall

/-- Work that answers no call of the registry. -/
theorem CallInv.appended (happ : Appended r r' id p)
    (hp : p.header.reply = true → ∀ n, p.route.call ≠ some (.Local n)) : CallInv r'.view := by
  rw [view_appended happ]
  exact h.append id fun hreply n hn => absurd hn (hp hreply n)

theorem CallInv.deliver_transaction (ht : r.existing_thread id thread_id = some t)
    (output : ℕ) (memory : DeliveryMemory) :
    CallInv ((r.deliver_transaction id t output memory).2.1.put_thread id thread_id
      (r.deliver_transaction id t output memory).2.2).view := by
  rcases deliver_transaction_cases r id t output memory with
    hsame | ⟨connection, queue, queue', before, p, after, hconn, hqueue, hsplit, -, -, hr, hcase⟩
  · rw [hsame]
    exact h.put_same ht
  · have hview := view_put_queue hconn queue'
    have ht' : (r.put id { connection with transactions := some queue' }).existing_thread id
        thread_id = some t := by
      show (view _).threads id thread_id = _
      rwa [hview]
    have hold : ∀ x ∈ before ++ p :: after, r.view.Settled x := by
      intro x hx
      refine h.replied id x ?_
      rwa [show r.view.pending id = queue.pending from pending_eq hconn hqueue, hsplit]
    have hp : r.view.Settled p := hold p (by simp)
    rw [hr, view_put_thread ht', hview]
    rcases hcase with ⟨hq, hthread⟩ | ⟨hq, hthread⟩
    · rw [hthread]
      refine (h.set_pending fun x hx => ?_).set_thread ht rfl fun n _ => Thread.Same.refl _ t
      rw [hq] at hx
      rcases List.mem_append.mp hx with hx | hx
      · exact hold x (by simp [hx])
      · rcases List.mem_cons.mp hx with rfl | hx
        · -- a marked completion answers what the entry answered
          exact hp
        · exact hold x (by simp [hx])
    · have hps : ∀ x ∈ queue'.pending, r.view.Settled x := by
        intro x hx
        rw [hq] at hx
        rcases List.mem_append.mp hx with hx | hx
        · exact hold x (by simp [hx])
        · exact hold x (by simp [hx])
      rcases hthread with hthread | hthread
      · rw [hthread]
        exact (h.set_pending hps).set_thread ht rfl fun n _ => Thread.Same.refl _ t
      · rw [hthread]
        exact (h.set_pending hps).set_thread ht (received_id t p) fun n hn =>
          received_same hp hn

end

/-- The end of the authority changes threads only. -/
theorem view_fail_remote_authority (r : Registry) (id : ConnectionId) :
    (r.fail_remote_authority id).2.view = { r.view with
      threads := (r.fail_remote_authority id).2.existing_thread } := by
  rcases fail_remote_authority_cases r id with hsame | ⟨connection, hconn, heq⟩
  · rw [hsame]
    rfl
  · rw [heq]
    have htrans := (fail_threads_spec connection connection.threads.keys).1
    generalize (fail_threads connection connection.threads.keys).2 = connection' at htrans
    have hpending : queued connection' = r.pending id := by
      unfold queued
      rw [htrans]
      exact (pending_of_some hconn).symm
    rw [view_put_of_some hconn, put_existing_thread]
    dsimp only
    congr 1
    funext i
    split
    · next hid =>
      subst hid
      exact hpending
    · rfl

/-- And there, nothing about the registry's own calls. -/
theorem fail_remote_authority_threads (r : Registry) (id i : ConnectionId) (j : UInt64) :
    (r.existing_thread i j = none →
      (r.fail_remote_authority id).2.existing_thread i j = none) ∧
    ∀ t, r.existing_thread i j = some t →
      ∃ t', (r.fail_remote_authority id).2.existing_thread i j = some t' ∧ Mourned t t' := by
  rcases fail_remote_authority_cases r id with hsame | ⟨connection, hconn, heq⟩
  · rw [hsame]
    exact ⟨fun hnone => hnone, fun t ht => ⟨t, ht, Mourned.refl t⟩⟩
  · rw [heq]
    have hspec := (fail_threads_spec connection connection.threads.keys).2 j
    generalize (fail_threads connection connection.threads.keys).2 = connection' at hspec
    rw [put_existing_thread]
    rcases eq_or_ne id i with rfl | hid
    · dsimp only
      rwa [if_pos rfl, existing_thread_of_some hconn]
    · dsimp only
      rw [if_neg hid]
      exact ⟨fun hnone => hnone, fun t ht => ⟨t, ht, Mourned.refl t⟩⟩

theorem CallInv.fail_remote_authority (h : CallInv r.view) (id : ConnectionId) :
    CallInv (r.fail_remote_authority id).2.view := by
  rw [view_fail_remote_authority]
  refine h.set_threads (fun i j => (fail_remote_authority_threads r id i j).1) fun i j t ht => ?_
  obtain ⟨t', ht', hm⟩ := (fail_remote_authority_threads r id i j).2 t ht
  exact ⟨t', ht', hm.keeps.id_eq, fun n _ => hm.keeps.same n⟩

theorem CallInv.notify_dead_caller (h : CallInv r.view) (id : ConnectionId) :
    CallInv (r.notify_dead_caller id).2.view := by
  rcases notify_dead_caller_cases r id with hsame | ⟨dead, rest, hid, hcase⟩
  · rwa [hsame]
  have hdead : r.view.At dead (.closing id) := ⟨true, dead :: rest, hid, List.mem_cons_self⟩
  obtain ⟨hinv, hother⟩ := h.pop hid
  rcases hcase with ⟨-, heq⟩ | ⟨t, ht, ⟨-, heq⟩ | ⟨⟨e, herr⟩, -⟩⟩
  · rwa [heq]
  · rw [heq]
    have hview : view { r.put_thread dead.caller dead.thread_id (t.enqueue_dead_reply dead.call).2
        with closing := r.closing.insert id ⟨true, rest⟩ } =
        View.set_thread { r.view with closing := r.closing.insert id ⟨true, rest⟩ } dead.caller
          dead.thread_id (t.enqueue_dead_reply dead.call).2 := by
      have hthread := view_put_thread ht (t.enqueue_dead_reply dead.call).2
      show { (view _) with closing := r.closing.insert id ⟨true, rest⟩ } = _
      rw [hthread]
      rfl
    rw [hview]
    refine CallInv.set_thread (v := { r.view with closing := _ }) hinv ht ?_ fun n hn => ?_
    · rcases Thread.enqueue_dead_reply_cases t dead.call with hd | hd <;> rw [hd]
    · refine Thread.enqueue_dead_reply_same t ?_
      intro hcall
      rcases hn with hn | ⟨place, hat⟩
      · obtain ⟨⟨m, hm, hle⟩, -⟩ := h.serial_le dead _ hdead
        obtain rfl := CallId.Local.inj (hm.symm.trans hcall)
        exact absurd hle (Nat.not_le_of_lt hn)
      · exact (hother _ place hat).2 hcall.symm
  · -- the thread waits for the call, so its dead reply is accepted
    have hok := (h.waits dead _ hdead t ht).enqueue_dead_reply_ok
    rw [hok] at herr
    cases herr

theorem view_drop_owner {dead_callers : List DeadCaller} (hid : r.view.opened id) :
    view { r.put id ⟨∅, none⟩ with closing := r.closing.insert id ⟨true, dead_callers⟩ } =
      { r.view with
        closing := r.closing.insert id ⟨true, dead_callers⟩
        threads := fun i j => if id = i then none else r.existing_thread i j
        pending := fun i => if id = i then [] else r.pending i } := by
  have hput := view_put r id ⟨∅, none⟩
  have hopened : (fun i => id = i ∨ r.view.opened i) = r.view.opened := by
    funext i
    refine propext ⟨?_, .inr⟩
    rintro (rfl | hi)
    · exact hid
    · exact hi
  rw [hopened] at hput
  show { (r.put id ⟨∅, none⟩).view with
    closing := r.closing.insert id ⟨true, dead_callers⟩ } = _
  rw [hput]
  congr 1

theorem view_register (h : CallInv r.view) :
    view { r.put (r.next + 1) ⟨∅, none⟩ with
      owners := insert (r.next + 1) r.owners
      next := r.next + 1 } =
    { r.view with
      next := r.next + 1
      owners := insert (r.next + 1) r.owners
      opened := fun id => id = r.next + 1 ∨ r.view.opened id } := by
  have hnone : r.connections[r.next + 1]? = none := by
    cases hconn : r.connections[r.next + 1]? with
    | none => rfl
    | some =>
      have hopened : r.view.opened (r.next + 1) := by
        show (r.connections[r.next + 1]?).isSome = true
        rw [hconn]
        rfl
      exact absurd (h.opened_le _ hopened) (Nat.not_succ_le_self _)
  show { (r.put (r.next + 1) ⟨∅, none⟩).view with
    next := r.next + 1
    owners := insert (r.next + 1) r.owners } = _
  rw [view_put]
  dsimp only
  congr 1
  · funext i
    exact propext ⟨Or.imp_left Eq.symm, Or.imp_left Eq.symm⟩
  · funext i j
    split
    · next hi =>
      subst hi
      simp [view, existing_thread, hnone]
    · rfl
  · funext i
    split
    · next hi =>
      subst hi
      simp [view, pending, queued, hnone]
    · rfl

/-- What `close` does. -/
theorem close_cases (r : Registry) (id : ConnectionId) :
    (id ∉ r.owners ∧ (r.close id).2 = r) ∨
    (id ∈ r.owners ∧ (r.close id).2 = { r with
      owners := r.owners.erase id
      calls := (take_target r.calls id).2
      closing := r.closing.insert id ⟨false, r.view.callers_of id⟩ }) := by
  unfold close
  split
  · next hid => exact .inr ⟨hid, rfl⟩
  · next hid => exact .inl ⟨hid, rfl⟩

/-- What `register` does. -/
theorem register_cases (h : CallInv r.view) (memory : Bool) :
    (r.register memory).2 = r ∨
    (r.register memory).2.view = { r.view with
      next := r.next + 1
      owners := insert (r.next + 1) r.owners
      opened := fun id => id = r.next + 1 ∨ r.view.opened id } := by
  unfold Registry.register
  split
  · exact .inl rfl
  · next serial hserial =>
    rw [checked_add_eq_some] at hserial
    obtain rfl := hserial.2
    split
    · exact .inl rfl
    · exact .inr (view_register h)

/-- What `thread` does. -/
theorem thread_cases (r : Registry) (id : ConnectionId) (thread_id : UInt64) :
    (r.thread id thread_id).2 = r ∨
    ∃ fresh, id ∈ r.owners ∧ r.existing_thread id thread_id = none ∧
      Thread.new thread_id = some fresh ∧
      (r.thread id thread_id).2.view = r.view.set_thread id thread_id fresh := by
  unfold Registry.thread
  split
  · exact .inl rfl
  · next connection hlookup =>
    obtain ⟨hid, hconn⟩ := lookup_id_eq_ok.mp hlookup
    split
    · exact .inl rfl
    · next fresh hnew =>
      split
      · exact .inl rfl
      · next habsent =>
        refine .inr ⟨fresh, hid, ?_, hnew, ?_⟩
        · unfold existing_thread
          rw [hconn]
          cases hthread : connection.threads[thread_id]? with
          | none => exact hthread
          | some => exact absurd (contains_of_some hthread) habsent
        · rw [← put_thread_eq hconn]
          exact view_write_thread hconn thread_id fresh

/-- A receive mapping starts out with an empty queue. -/
theorem view_install_receive_mapping (r : Registry) (id : ConnectionId) :
    (r.install_receive_mapping id).view = r.view := by
  unfold install_receive_mapping
  split
  · rfl
  · next connection hlookup =>
    obtain ⟨-, hconn⟩ := lookup_id_eq_ok.mp hlookup
    split
    · rfl
    · next hnone =>
      have hempty : r.pending id = [] := by
        unfold pending
        rw [hconn]
        obtain ⟨_, transactions⟩ := connection
        obtain rfl : transactions = none := hnone
        rfl
      rw [view_put_queue hconn]
      unfold View.set_pending
      have hpending : (fun i => if id = i then Queue.new.pending else r.view.pending i) =
          r.view.pending := by
        funext i
        rcases eq_or_ne id i with rfl | hi
        · rw [if_pos rfl]
          exact hempty.symm
        · rw [if_neg hi]
      rw [hpending]

/-- **Every step keeps the invariant of outstanding calls.** -/
theorem CallInv.step (h : CallInv r.view) (op : Op) : CallInv (r.perform op).view := by
  cases op with
  | register memory =>
    show CallInv (r.register memory).2.view
    rcases register_cases h memory with heq | heq
    · rwa [heq]
    · exact h.register heq
  | thread id thread_id =>
    show CallInv (r.thread id thread_id).2.view
    rcases thread_cases r id thread_id with heq | ⟨_, hid, hnone, hnew, heq⟩
    · rwa [heq]
    · rw [heq]
      exact h.new_thread hid hnone hnew
  | install_receive_mapping id =>
    show CallInv (r.install_receive_mapping id).view
    rwa [view_install_receive_mapping]
  | looper id thread_id =>
    refine with_thread_rec (P := fun r => CallInv r.view) h fun t ht => ?_
    rw [view_put_thread ht]
    exact h.set_thread ht rfl fun n _ => ⟨rfl, rfl⟩
  | submit_transaction id thread_id request identity given =>
    exact with_thread_rec (P := fun r => CallInv r.view) h fun t ht =>
      h.submit_transaction ht request identity given
  | submit_reply id thread_id call request identity transfer =>
    exact with_thread_rec (P := fun r => CallInv r.view) h fun t ht =>
      h.submit_reply ht call request identity transfer
  | enqueue_remote_transaction id remote node allocation =>
    show CallInv (r.enqueue_remote_transaction id remote node allocation).2.view
    rcases enqueue_remote_transaction_cases r id remote node allocation with
      hsame | ⟨a, header, hreply, happ⟩
    · rwa [hsame]
    · exact h.appended happ fun hrep => absurd (hreply.symm.trans hrep) (by simp)
  | enqueue_remote_reply id remote transfer =>
    show CallInv (r.enqueue_remote_reply id remote transfer).2.view
    rcases enqueue_remote_reply_cases r id remote transfer with hsame | ⟨a, header, -, happ⟩
    · rwa [hsame]
    · exact h.appended happ fun _ n => by simp
  | fail_remote_authority id => exact h.fail_remote_authority id
  | deliver_transaction id thread_id output memory =>
    exact with_thread_rec (P := fun r => CallInv r.view) h fun t ht =>
      h.deliver_transaction ht output memory
  | on_thread id thread_id =>
    refine with_thread_rec (P := fun r => CallInv r.view) h fun t ht => ?_
    split
    · next hop =>
      rw [view_put_thread ht]
      refine h.set_thread ht (Thread.outside_id hop t) fun n hn => ?_
      exact Thread.outside_same (h.quiet ht hn) hop
    · exact h.put_same ht
  | close id =>
    show CallInv (r.close id).2.view
    rcases close_cases r id with ⟨-, heq⟩ | ⟨hid, heq⟩
    · rwa [heq]
    · rw [heq]
      exact h.close hid rfl
  | drop_owner id =>
    show CallInv (r.drop_owner id).view
    rcases drop_owner_cases r id with heq | ⟨_, hid, heq⟩
    · rwa [heq]
    · rw [heq]
      refine h.drop_owner hid (view_drop_owner (h.closing_closed id (contains_of_some hid)).2)
  | notify_dead_caller id => exact h.notify_dead_caller id


/-! ## Events -/

/-- An operation and the registry it runs on. -/
structure Event where
  before : Registry
  op : Op

open Event

variable {e : Event} {es : List Event}

/-- The registry after the operation. -/
def Event.after (e : Event) : Registry := e.before.perform e.op

/-- A step of a run whose labels are events. -/
def Moves (r : Registry) (e : Event) (r' : Registry) : Prop := e.before = r ∧ e.after = r'

/-- The event puts the call into the table. -/
def Event.registers (e : Event) (c : CallId) : Bool :=
  !e.before.calls.routes.contains c && e.after.calls.routes.contains c

/-- The event removes the call from the table. -/
def Event.removes (e : Event) (c : CallId) : Bool :=
  e.before.calls.routes.contains c && !e.after.calls.routes.contains c

/-- The event appends a reply to the call to some queue. -/
def Event.QueuesReply (e : Event) (c : CallId) : Prop :=
  ∃ id p, e.after.pending id = e.before.pending id ++ [p] ∧ p.header.reply = true ∧
    p.route.call = some c

/-- The caller a round of the loop of `close` comes to. -/
def Event.notifies (e : Event) : Option DeadCaller :=
  match e.op with
  | .notify_dead_caller id =>
    match e.before.closing[id]? with
    | some ⟨true, dead :: _⟩ => some dead
    | _ => none
  | _ => none

/-- How a call may end. -/
inductive Outcome
  | Replied
  | Discarded
  | TargetClosed
deriving DecidableEq

/-- The event ends the call `c` of that route in one of the three ways. -/
def Event.Ends (e : Event) (c : CallId) (route : CallRoute) : Outcome → Prop
  -- the reply goes to the queue of the caller, for the calling thread
  | .Replied => ∃ id thread_id request identity transfer p,
      e.op = .submit_reply id thread_id c request identity transfer ∧
      route.sender ∈ e.before.owners ∧
      e.after.pending route.sender = e.before.pending route.sender ++ [p] ∧
      p.header.reply = true ∧ p.route = ⟨some c, some route.thread_id, true⟩
  -- the reply is accepted and goes nowhere
  | .Discarded => ∃ id thread_id request identity transfer t,
      e.op = .submit_reply id thread_id c request identity transfer ∧
      route.sender ∉ e.before.owners ∧
      e.before.existing_thread id thread_id = some t ∧
      (e.before.submit_reply id c t request identity transfer).1 = .ok 0 ∧
      ∀ i, e.after.pending i = e.before.pending i
  -- the close of the target will notify the caller, once, if it is registered
  | .TargetClosed => e.op = .close route.target.owner ∧ route.target.owner ∈ e.before.owners ∧
      ∃ dead_callers, e.after.closing[route.target.owner]? = some ⟨false, dead_callers⟩ ∧
        dead_callers.filter (fun d => d.call = c) =
          if route.sender ∈ e.after.owners then [⟨c, route.thread_id, route.sender⟩] else []

/-! ## What a step does to calls -/

/-- No reply to a call of the registry is appended to a queue. -/
def NoReply (r r' : Registry) : Prop :=
  ∀ id p n, r'.pending id = r.pending id ++ [p] → p.header.reply = true →
    p.route.call ≠ some (.Local n)

/-- The notifications owed are the same. -/
def SameDebts (r r' : Registry) : Prop :=
  ∀ d id, r'.view.At d (.closing id) ↔ r.view.At d (.closing id)

theorem NoReply.of_pending (h : ∀ id, r'.pending id = r.pending id) :
    NoReply r r' := by
  intro id p n happ
  have hlen := congrArg List.length ((h id).symm.trans happ)
  simp at hlen

/-- Any queue but one is what it was, and what is appended there answers no call of the
registry. -/
theorem NoReply.of_set_pending (id : ConnectionId) (ps : List Pending)
    (hview : ∀ i, r'.pending i = if id = i then ps else r.pending i)
    (hps : ∀ p n, ps = r.pending id ++ [p] → p.header.reply = true →
      p.route.call ≠ some (.Local n)) : NoReply r r' := by
  intro i p n happ hreply
  rw [hview] at happ
  rcases eq_or_ne id i with rfl | hi
  · rw [if_pos rfl] at happ
    exact hps p n happ hreply
  · rw [if_neg hi] at happ
    have hlen := congrArg List.length happ
    simp at hlen

theorem SameDebts.of_closing (h : r'.closing = r.closing) : SameDebts r r' := by
  intro d id
  show (∃ dropped dead, r'.closing[id]? = _ ∧ _) ↔ ∃ dropped dead, r.closing[id]? = _ ∧ _
  rw [h]

/-- Of a registry in which a thread was written back, all but the threads. -/
theorem put_thread_pending
    (h : r.existing_thread id thread_id = some t) (t' : Thread) (i : ConnectionId) :
    (r.put_thread id thread_id t').pending i = r.pending i :=
  congrFun (congrArg View.pending (view_put_thread h t')) i

/-- **What an operation does to the registry's calls**: nothing; it registers the next one;
it removes the one it replies to; it takes those of a target that closes; or it comes to the
next caller to notify. -/
inductive Change (r : Registry) (op : Op) : Prop
  | none (next : ℕ) (hnext : r.calls.next ≤ next)
      (hcalls : (r.perform op).calls = ⟨next, r.calls.routes⟩)
      (hdebts : SameDebts r (r.perform op)) (hquiet : Event.notifies ⟨r, op⟩ = .none)
      (hreply : NoReply r (r.perform op))
  | register (route : CallRoute)
      (hcalls : (r.perform op).calls = ⟨r.calls.next + 1,
        r.calls.routes.insert (.Local (r.calls.next + 1)) route⟩)
      (hclosing : (r.perform op).closing = r.closing) (hquiet : Event.notifies ⟨r, op⟩ = .none)
      (hreply : NoReply r (r.perform op))
  | reply (c : CallId) (route : CallRoute) (outcome : Outcome) (hkind : outcome ≠ .TargetClosed)
      (hroute : r.calls.routes[c]? = some route)
      (hends : Event.Ends ⟨r, op⟩ c route outcome)
      (hcalls : (r.perform op).calls = remove_call r.calls c)
      (hclosing : (r.perform op).closing = r.closing) (hquiet : Event.notifies ⟨r, op⟩ = .none)
      (hreply : ∀ c', c' ≠ c → ¬ Event.QueuesReply ⟨r, op⟩ c')
      (hreplied : Event.QueuesReply ⟨r, op⟩ c → Event.Ends ⟨r, op⟩ c route .Replied)
  | close (id : ConnectionId) (hop : op = .close id) (hid : id ∈ r.owners)
      (howners : (r.perform op).owners = r.owners.erase id)
      (hcalls : (r.perform op).calls = (take_target r.calls id).2)
      (hclosing : (r.perform op).closing = r.closing.insert id ⟨false, r.view.callers_of id⟩)
      (hreply : NoReply r (r.perform op))
  | notify (id : ConnectionId) (dead : DeadCaller) (rest : List DeadCaller)
      (hid : r.closing[id]? = some ⟨true, dead :: rest⟩)
      (hop : op = .notify_dead_caller id)
      (hcalls : (r.perform op).calls = r.calls)
      (hclosing : (r.perform op).closing = r.closing.insert id ⟨true, rest⟩)
      (hreply : NoReply r (r.perform op))

/-- An operation that touches neither the table nor the notifications nor a queue. -/
theorem Change.of_view (hview : (r.perform op).view = v)
    (hcalls : v.calls = r.calls) (hclosing : v.closing = r.closing)
    (hpending : ∀ i, v.pending i = r.pending i) (hquiet : Event.notifies ⟨r, op⟩ = .none) :
    Change r op := by
  subst hview
  exact .none r.calls.next le_rfl hcalls (SameDebts.of_closing hclosing) hquiet
    (NoReply.of_pending hpending)

theorem Change.same (h : r.perform op = r)
    (hquiet : Event.notifies ⟨r, op⟩ = .none) : Change r op :=
  .of_view (congrArg view h) rfl rfl (fun _ => rfl) hquiet

/-- An operation that appends work answering no call of the registry. -/
theorem Change.appended
    (happ : Appended r r' id p) (hview : (r.perform op).view = v) (hcalls : v.calls = r'.calls)
    (hclosing : v.closing = r'.closing) (hpending : ∀ i, v.pending i = r'.pending i)
    (hquiet : Event.notifies ⟨r, op⟩ = .none)
    (hp : p.header.reply = true → ∀ n, p.route.call ≠ some (.Local n)) : Change r op := by
  subst hview
  have hview := view_appended happ
  refine .none r.calls.next le_rfl (hcalls.trans (congrArg View.calls hview))
    (SameDebts.of_closing (hclosing.trans (congrArg View.closing hview))) hquiet ?_
  refine NoReply.of_set_pending id _ (fun i => (hpending i).trans
    (congrFun (congrArg View.pending hview) i)) ?_
  · intro q n heq hreply
    obtain rfl : p = q := by simpa using heq
    exact hp hreply n

section

variable (h : CallInv r.view) (ht : r.existing_thread id thread_id = some t)
include h ht

theorem change_submit_transaction
    (request : Request) (identity : SenderIdentity) (given : Submission)
    (hperform : r.perform (.submit_transaction id thread_id request identity given) =
      (r.submit_transaction id t request identity given).2.1.put_thread id thread_id
        (r.submit_transaction id t request identity given).2.2) :
    Change r (.submit_transaction id thread_id request identity given) := by
  rcases submit_transaction_cases r id t request identity given with
    ⟨-, hthread, hsame | ⟨_, hsame⟩⟩ | ⟨node, a, header, hthread, hreply, happ⟩ |
      ⟨node, a, header, -, _, _, hthread, hreply, happ⟩
  · rw [hsame] at hperform
    exact .of_view ((congrArg view hperform).trans (view_put_thread ht _)) rfl rfl (fun _ => rfl) rfl
  · rw [hsame, withdrawn_eq h] at hperform
    have ht' : existing_thread { r with calls := ⟨r.calls.next + 1, r.calls.routes⟩ } id
        thread_id = some t := ht
    have hview := (congrArg view hperform).trans (view_put_thread ht' _)
    exact .none (r.calls.next + 1) (Nat.le_succ _) (congrArg View.calls hview)
      (SameDebts.of_closing (congrArg View.closing hview)) rfl
      (NoReply.of_pending fun i => congrFun (congrArg View.pending hview) i)
  · have ht' := (happ.existing_thread id thread_id).trans ht
    refine .appended happ ((congrArg view hperform).trans (view_put_thread ht' _)) rfl rfl
      (fun _ => rfl) rfl fun hrep => ?_
    exact nomatch hreply.symm.trans hrep
  · have ht' := (happ.existing_thread id thread_id).trans ht
    have hview := congrArg view hperform
    rw [view_put_thread ht', view_appended happ] at hview
    refine .register ⟨id, t.id, node⟩ (congrArg View.calls hview) (congrArg View.closing hview) rfl
      (NoReply.of_set_pending node.owner _ (fun i => congrFun (congrArg View.pending hview) i) ?_)
    intro p n heq hrep
    obtain rfl := List.singleton_inj.mp (List.append_cancel_left heq)
    exact nomatch hreply.symm.trans hrep

theorem change_submit_reply
    (call : CallId) (request : Request) (identity : SenderIdentity) (transfer : Transfer)
    (hperform : r.perform (.submit_reply id thread_id call request identity transfer) =
      (r.submit_reply id call t request identity transfer).2.1.put_thread id thread_id
        (r.submit_reply id call t request identity transfer).2.2) :
    Change r (.submit_reply id thread_id call request identity transfer) := by
  rcases submit_reply_cases r id call t request identity transfer with
    ⟨-, heq⟩ | ⟨route, hroute, hgone, heq⟩ |
      ⟨route, a, header, _, r', hroute, hsender, hreply, happ, heq⟩
  · rw [heq] at hperform
    exact .of_view ((congrArg view hperform).trans (view_put_thread ht _)) rfl rfl (fun _ => rfl) rfl
  · have hres : (r.submit_reply id call t request identity transfer).1 = .ok 0 := by rw [heq]
    rw [heq] at hperform
    have ht' : existing_thread { r with calls := remove_call r.calls call } id thread_id =
        some t := ht
    have hview := (congrArg view hperform).trans (view_put_thread ht' _)
    have hpending : ∀ i, (r.perform (.submit_reply id thread_id call request identity
        transfer)).pending i = r.pending i := fun i => congrFun (congrArg View.pending hview) i
    have hnone : ∀ c, ¬ Event.QueuesReply
        ⟨r, .submit_reply id thread_id call request identity transfer⟩ c := by
      rintro c ⟨i, p, happ, -⟩
      have hlen := congrArg List.length ((hpending i).symm.trans happ)
      simp at hlen
    refine .reply call route .Discarded (by simp) hroute ?_ (congrArg View.calls hview)
      (congrArg View.closing hview) rfl (fun c _ => hnone c) fun hq => absurd hq (hnone call)
    refine ⟨id, thread_id, request, identity, transfer, t, rfl, ?_, ht, hres, hpending⟩
    exact fun hmem => hgone ⟨hmem, h.owner_opened _ hmem⟩
  · rw [heq] at hperform
    have ht' : existing_thread { r' with calls := remove_call r.calls call } id thread_id =
        some t := (happ.existing_thread id thread_id).trans ht
    have hview := (congrArg view hperform).trans (view_put_thread ht' _)
    have happended := view_appended happ
    have hpending : ∀ i, (r.perform (.submit_reply id thread_id call request identity
        transfer)).pending i = if route.sender = i then r.pending route.sender ++
          [⟨a, header, ⟨some call, some route.thread_id, true⟩⟩] else r.pending i :=
      fun i => (congrFun (congrArg View.pending hview) i).trans
        (congrFun (congrArg View.pending happended) i)
    have hends : Event.Ends ⟨r, .submit_reply id thread_id call request identity transfer⟩ call
        route .Replied := by
      refine ⟨id, thread_id, request, identity, transfer,
        ⟨a, header, ⟨some call, some route.thread_id, true⟩⟩, rfl, hsender, ?_, hreply, rfl⟩
      exact (hpending route.sender).trans (if_pos rfl)
    refine .reply call route .Replied (by simp) hroute hends (congrArg View.calls hview)
      ((congrArg View.closing hview).trans (congrArg View.closing happended)) rfl ?_ fun _ => hends
    rintro c hne ⟨i, p, hp, -, hcall⟩
    replace hp := (hpending i).symm.trans hp
    split at hp
    · next hi =>
      subst hi
      obtain rfl := List.singleton_inj.mp (List.append_cancel_left hp)
      exact hne (Option.some.inj hcall).symm
    · have hlen := congrArg List.length hp
      simp at hlen

end

theorem change_deliver_transaction (ht : r.existing_thread id thread_id = some t) (output : ℕ)
    (memory : DeliveryMemory)
    (hperform : r.perform (.deliver_transaction id thread_id output memory) =
      (r.deliver_transaction id t output memory).2.1.put_thread id thread_id
        (r.deliver_transaction id t output memory).2.2) :
    Change r (.deliver_transaction id thread_id output memory) := by
  rcases deliver_transaction_cases r id t output memory with
    hsame | ⟨_, queue, queue', _, p, _, hconn, hqueue, hsplit, -, -, hr, hcase⟩
  · rw [hsame] at hperform
    exact .of_view ((congrArg view hperform).trans (view_put_thread ht _)) rfl rfl (fun _ => rfl) rfl
  · have hqueued := view_put_queue hconn queue'
    rw [← hr] at hqueued
    have ht' : (r.deliver_transaction id t output memory).2.1.existing_thread id thread_id =
        some t := (congrFun (congrFun (congrArg View.threads hqueued) id) thread_id).trans ht
    have hview := congrArg view hperform
    rw [view_put_thread ht', hqueued] at hview
    refine .none r.calls.next le_rfl (congrArg View.calls hview)
      (SameDebts.of_closing (congrArg View.closing hview)) rfl ?_
    refine NoReply.of_set_pending id queue'.pending
      (fun i => congrFun (congrArg View.pending hview) i) fun q n heq _ => ?_
    -- a delivery never lengthens the queue
    rw [pending_eq hconn hqueue, hsplit] at heq
    have hlen := congrArg List.length heq
    rcases hcase with ⟨hq, -⟩ | ⟨hq, -⟩
    · rw [hq] at hlen
      simp at hlen
    · rw [hq] at hlen
      simp at hlen
      omega

section

variable (h : CallInv r.view)
include h

/-- A `close` with someone to notify has one caller less afterwards. -/
theorem notify_dead_caller_moves {rest : List DeadCaller}
    (hid : r.closing[id]? = some ⟨true, dead :: rest⟩) :
    (r.notify_dead_caller id).1 = .ok () ∧
      (r.notify_dead_caller id).2.closing = r.closing.insert id ⟨true, rest⟩ := by
  have hdead : r.view.At dead (.closing id) := ⟨true, dead :: rest, hid, List.mem_cons_self⟩
  simp only [notify_dead_caller, hid]
  cases ht : r.existing_thread dead.caller dead.thread_id with
  | none => exact ⟨rfl, rfl⟩
  | some t =>
    -- the thread waits for the call, so its dead reply is accepted
    have hok := (h.waits dead _ hdead t ht).enqueue_dead_reply_ok
    dsimp only
    split
    · exact ⟨rfl, rfl⟩
    · next e t' heq =>
      rw [heq] at hok
      exact nomatch hok

theorem change_notify_dead_caller (id : ConnectionId) :
    Change r (.notify_dead_caller id) := by
  have hperform : r.perform (.notify_dead_caller id) = (r.notify_dead_caller id).2 := rfl
  obtain ⟨hpending, hcalls⟩ : (∀ i, (r.notify_dead_caller id).2.pending i = r.pending i) ∧
      (r.notify_dead_caller id).2.calls = r.calls := by
    rcases notify_dead_caller_cases r id with heq | ⟨dead, rest, -, ⟨-, heq⟩ |
      ⟨t, ht, ⟨-, heq⟩ | ⟨-, heq⟩⟩⟩
    · rw [heq]
      exact ⟨fun _ => rfl, rfl⟩
    · rw [heq]
      exact ⟨fun _ => rfl, rfl⟩
    · rw [heq]
      exact ⟨put_thread_pending ht _, (put_thread_rest r _ _ _).2.1⟩
    · rw [heq]
      exact ⟨fun _ => rfl, rfl⟩
  by_cases hdead : ∃ dead rest, r.closing[id]? = some ⟨true, dead :: rest⟩
  · obtain ⟨dead, rest, hid⟩ := hdead
    exact .notify id dead rest hid rfl hcalls (notify_dead_caller_moves h hid).2
      (NoReply.of_pending hpending)
  · refine .same ?_ ?_
    · rcases notify_dead_caller_cases r id with heq | ⟨dead, rest, hid, -⟩
      · rw [hperform, heq]
      · exact absurd ⟨dead, rest, hid⟩ hdead
    · show (match r.closing[id]? with
        | some ⟨true, dead :: _⟩ => some dead
        | _ => none) = none
      split
      · next dead rest hid => exact absurd ⟨dead, rest, hid⟩ hdead
      · rfl

theorem change_drop_owner (id : ConnectionId) :
    Change r (.drop_owner id) := by
  have hperform : r.perform (.drop_owner id) = r.drop_owner id := rfl
  rcases drop_owner_cases r id with heq | ⟨dead_callers, hid, heq⟩
  · exact .same (by rw [hperform, heq]) rfl
  · rw [heq] at hperform
    have hview : (r.perform (.drop_owner id)).view = _ := (congrArg view hperform).trans
      (@view_drop_owner id r dead_callers (h.closing_closed id (contains_of_some hid)).2)
    refine .none r.calls.next le_rfl (congrArg View.calls hview) ?_ rfl ?_
    · intro d i
      rw [hview]
      show (∃ dropped dead, (r.closing.insert id ⟨true, dead_callers⟩)[i]? = _ ∧ _) ↔
        ∃ dropped dead, r.closing[i]? = _ ∧ _
      rw [getElem?_insert]
      rcases eq_or_ne id i with rfl | hi
      · rw [if_pos (by simp), hid]
        simp
      · rw [if_neg (by simpa using hi)]
    · refine NoReply.of_set_pending id [] (fun i => congrFun (congrArg View.pending hview) i) ?_
      intro p n heq
      exact absurd heq (by simp)

/-- **Every operation is one of the five changes.** -/
theorem CallInv.change (op : Op) : Change r op := by
  -- an operation on one thread that changes nothing but that thread
  have hthread : ∀ id thread_id (f : Thread → Thread),
      r.perform op = r.with_thread id thread_id (fun t => (r, f t)) →
      notifies ⟨r, op⟩ = none → Change r op := by
    intro id thread_id f hperform hquiet
    rcases with_thread_cases r id thread_id (fun t => (r, f t)) with ⟨-, heq⟩ | ⟨t, ht, heq⟩
    · exact .same (hperform.trans heq) hquiet
    · exact .of_view ((congrArg view (hperform.trans heq)).trans (view_put_thread ht _)) rfl rfl
        (fun _ => rfl) hquiet
  cases op with
  | register memory =>
    rcases register_cases h memory with heq | heq
    · exact .same heq rfl
    · exact .of_view heq rfl rfl (fun _ => rfl) rfl
  | thread id thread_id =>
    rcases thread_cases r id thread_id with heq | ⟨_, -, -, -, heq⟩
    · exact .same heq rfl
    · exact .of_view heq rfl rfl (fun _ => rfl) rfl
  | install_receive_mapping id =>
    have heq := view_install_receive_mapping r id
    exact .of_view heq rfl rfl (fun _ => rfl) rfl
  | looper id thread_id => exact hthread id thread_id _ rfl rfl
  | submit_transaction id thread_id request identity given =>
    rcases with_thread_cases r id thread_id
      (fun t => (r.submit_transaction id t request identity given).2) with
      ⟨-, heq⟩ | ⟨t, ht, heq⟩
    · exact .same heq rfl
    · exact change_submit_transaction h ht request identity given heq
  | submit_reply id thread_id call request identity transfer =>
    rcases with_thread_cases r id thread_id
      (fun t => (r.submit_reply id call t request identity transfer).2) with
      ⟨-, heq⟩ | ⟨t, ht, heq⟩
    · exact .same heq rfl
    · exact change_submit_reply h ht call request identity transfer heq
  | enqueue_remote_transaction id remote node allocation =>
    rcases enqueue_remote_transaction_cases r id remote node allocation with
      heq | ⟨a, header, hreply, happ⟩
    · exact .same heq rfl
    · refine .appended happ rfl rfl rfl (fun _ => rfl) rfl fun hrep => ?_
      exact nomatch hreply.symm.trans hrep
  | enqueue_remote_reply id remote transfer =>
    rcases enqueue_remote_reply_cases r id remote transfer with heq | ⟨a, header, -, happ⟩
    · exact .same heq rfl
    · exact .appended happ rfl rfl rfl (fun _ => rfl) rfl fun _ n => by simp
  | fail_remote_authority id =>
    have heq := view_fail_remote_authority r id
    exact .of_view heq rfl rfl (fun _ => rfl) rfl
  | deliver_transaction id thread_id output memory =>
    rcases with_thread_cases r id thread_id
      (fun t => (r.deliver_transaction id t output memory).2) with ⟨-, heq⟩ | ⟨t, ht, heq⟩
    · exact .same heq rfl
    · exact change_deliver_transaction ht output memory heq
  | on_thread id thread_id => exact hthread id thread_id _ rfl rfl
  | close id =>
    rcases close_cases r id with ⟨-, heq⟩ | ⟨hid, heq⟩
    · exact .same heq rfl
    · have hperform : r.perform (.close id) = _ := heq
      refine .close id rfl hid (by rw [hperform]) (by rw [hperform]) (by rw [hperform]) ?_
      refine NoReply.of_pending fun i => ?_
      rw [hperform]
      rfl
  | drop_owner id => exact change_drop_owner h id
  | notify_dead_caller id => exact change_notify_dead_caller h id

end

/-! ## One end for each call -/

theorem Event.Ends.unique {o o' : Outcome}
    (h : e.Ends c route o) (h' : e.Ends c route o') : o = o' := by
  cases o <;> cases o'
  case Replied.Replied | Discarded.Discarded | TargetClosed.TargetClosed => rfl
  case Replied.Discarded =>
    obtain ⟨-, -, -, -, -, -, -, hopen, -⟩ := h
    obtain ⟨-, -, -, -, -, -, -, hgone, -⟩ := h'
    exact absurd hopen hgone
  case Discarded.Replied =>
    obtain ⟨-, -, -, -, -, -, -, hgone, -⟩ := h
    obtain ⟨-, -, -, -, -, -, -, hopen, -⟩ := h'
    exact absurd hopen hgone
  case Replied.TargetClosed | Discarded.TargetClosed =>
    obtain ⟨_, _, _, _, _, _, hop, -⟩ := h
    exact nomatch hop.symm.trans h'.1
  case TargetClosed.Replied | TargetClosed.Discarded =>
    obtain ⟨_, _, _, _, _, _, hop, -⟩ := h'
    exact nomatch hop.symm.trans h.1

/-- The callers a `close` collects for one call: its caller, if registered. -/
theorem View.callers_of_filter (hroute : v.calls.routes[c]? = some route) :
    (v.callers_of route.target.owner).filter (fun d => d.call = c) =
      if route.sender ∈ v.owners.erase route.target.owner then
        [⟨c, route.thread_id, route.sender⟩] else [] := by
  split
  · next hsender =>
    exact filter_key_eq_singleton (a := (⟨c, route.thread_id, route.sender⟩ : DeadCaller))
      (View.callers_of_nodup _) (View.mem_callers_of.mpr ⟨hsender, route.target, hroute, rfl⟩)
  · next hsender =>
    rw [List.filter_eq_nil_iff]
    rintro ⟨call, _, caller⟩ hd hcall
    obtain rfl : call = c := by simpa using hcall
    obtain ⟨hcaller, _, hd, -⟩ := View.mem_callers_of.mp hd
    rw [hroute] at hd
    have hsame : route.sender = caller := congrArg CallRoute.sender (Option.some.inj hd)
    exact hsender (by rw [hsame]; exact hcaller)

/-- A call that a step leaves in the table. -/
theorem Event.removes_eq_true (hroute : e.before.calls.routes[c]? = some route) :
    e.removes c = true ↔ e.after.calls.routes[c]? = none := by
  unfold removes
  rw [contains_of_some hroute, Bool.true_and, Bool.not_eq_true', contains_eq_false_iff]

theorem take_target_routes (calls : CallTable) (id : ConnectionId) (c : CallId) :
    (take_target calls id).2.routes[c]? =
      (calls.routes[c]?).filter (fun route => decide (route.target.owner ≠ id)) := by
  unfold take_target
  rw [Std.ExtTreeMap.getElem?_filter, Option.pfilter_eq_filter]

/-- **A step removes a call exactly when it ends it**, in one of the three ways. -/
theorem Event.removes_iff_ends (h : CallInv e.before.view)
    (hroute : e.before.calls.routes[c]? = some route) :
    e.removes c = true ↔ ∃ o, e.Ends c route o := by
  rw [removes_eq_true hroute]
  constructor
  · intro hgone
    cases h.change e.op with
    | none _ _ hcalls | notify _ _ _ _ _ hcalls =>
      rw [after, hcalls, hroute] at hgone
      cases hgone
    | register _ hcalls =>
      rw [after, hcalls, getElem?_insert] at hgone
      split at hgone
      · simp at hgone
      · rw [hroute] at hgone
        cases hgone
    | reply c' _ o _ hroute' hends hcalls =>
      rw [after, hcalls] at hgone
      rcases eq_or_ne c' c with rfl | hc
      · obtain rfl := Option.some.inj (hroute.symm.trans hroute')
        exact ⟨o, hends⟩
      · rw [remove_call, getElem?_erase_ne hc, hroute] at hgone
        cases hgone
    | close id hop hid howners hcalls hclosing =>
      rw [after, hcalls, take_target_routes, hroute, Option.filter_eq_none_iff] at hgone
      obtain rfl : route.target.owner = id := by simpa using hgone route rfl
      refine ⟨.TargetClosed, hop, hid, e.before.view.callers_of route.target.owner, ?_, ?_⟩
      · rw [after, hclosing, getElem?_insert_self]
      · rw [View.callers_of_filter hroute, after, howners]
        rfl
  · rintro ⟨o, hends⟩
    cases o with
    | Replied =>
      obtain ⟨id, thread_id, request, identity, transfer, p, hop, -, hpending, hreply, hp⟩ := hends
      have hat : e.before.view.At ⟨c, route.thread_id, route.sender⟩ .table :=
        ⟨route.target, hroute⟩
      obtain ⟨⟨n, hn, -⟩, -⟩ := h.serial_le _ _ hat
      obtain rfl : c = .Local n := hn
      have hcall : p.route.call = some (.Local n) := by rw [hp]
      -- only one of the five changes queues a reply to a call of the registry
      cases h.change e.op with
      | none _ _ _ _ _ hno | register _ _ _ _ hno | close _ _ _ _ _ _ hno
      | notify _ _ _ _ _ _ _ hno => exact absurd hcall (hno _ p n hpending hreply)
      | reply c' _ _ _ _ _ hcalls _ _ hother =>
        have hc : .Local n = c' := by
          by_contra hne
          exact hother _ hne ⟨route.sender, p, hpending, hreply, hcall⟩
        rw [after, hcalls, hc]
        simp [remove_call]
    | Discarded =>
      obtain ⟨id, thread_id, request, identity, transfer, t, hop, hgone, ht, hok, -⟩ := hends
      have hperform : e.after = (e.before.submit_reply id c t request identity
          transfer).2.1.put_thread id thread_id
          (e.before.submit_reply id c t request identity transfer).2.2 := by
        unfold after
        rw [hop]
        show e.before.with_thread id thread_id _ = _
        rcases with_thread_cases e.before id thread_id
          (fun t => (e.before.submit_reply id c t request identity transfer).2) with
          ⟨hnone, -⟩ | ⟨t', ht', heq⟩
        · rw [ht] at hnone
          cases hnone
        · rw [ht] at ht'
          cases ht'
          exact heq
      rw [hperform, (put_thread_rest _ _ _ _).2.1]
      rcases submit_reply_cases e.before id c t request identity transfer with
        ⟨⟨_, herr⟩, -⟩ | ⟨_, -, -, heq⟩ | ⟨_, a, _, _, _, hroute', hopen, -, -, heq⟩
      · rw [hok] at herr
        cases herr
      · rw [heq]
        simp [remove_call]
      · rw [hroute] at hroute'
        cases hroute'
        exact absurd hopen hgone
    | TargetClosed =>
      obtain ⟨hop, hid, -⟩ := hends
      unfold after
      rw [hop]
      show (e.before.close route.target.owner).2.calls.routes[c]? = none
      rcases close_cases e.before route.target.owner with ⟨hno, -⟩ | ⟨-, heq⟩
      · exact absurd hid hno
      · rw [heq]
        show (take_target e.before.calls route.target.owner).2.routes[c]? = none
        rw [take_target_routes, hroute]
        simp

/-! ## Whole runs -/

/-- The notifications made for a call, in order. -/
def notices (c : CallId) (es : List Event) : List DeadCaller :=
  (es.filterMap Event.notifies).filter (fun d => d.call = c)

/-- A `close` has still to notify the caller of `c`. -/
def Owed (r : Registry) (c : CallId) : Prop :=
  ∃ d id, r.view.At d (.closing id) ∧ d.call = c

theorem notices_snoc (c : CallId) (es : List Event) (e : Event) :
    notices c (es ++ [e]) = notices c es ++ (e.notifies.toList.filter fun d => d.call = c) := by
  unfold notices
  rw [List.filterMap_append, List.filter_append]
  cases h : e.notifies <;> simp [h]

/-- The invariant holds throughout a run. -/
theorem run_callInv (hrun : Run Moves Registry.new es r) :
    CallInv r.view ∧ ∀ e ∈ es, CallInv e.before.view := by
  refine hrun.each (fun r => CallInv r.view) CallInv.new ?_
  rintro r e _ h ⟨rfl, rfl⟩
  exact ⟨h.step e.op, h⟩

/-- A call comes into the table under the next serial only. -/
theorem Event.registers_serial (h : CallInv e.before.view) (hc : e.registers c = true) :
    ∃ n, c = .Local n ∧ e.before.calls.next < n ∧ n ≤ e.after.calls.next := by
  unfold registers at hc
  rw [Bool.and_eq_true, Bool.not_eq_true', contains_eq_false_iff] at hc
  obtain ⟨hbefore, hafter⟩ := hc
  rw [Std.ExtTreeMap.contains_eq_isSome_getElem?, after] at hafter
  cases h.change e.op with
  | none _ _ hcalls | notify _ _ _ _ _ hcalls =>
    rw [hcalls, hbefore] at hafter
    cases hafter
  | register _ hcalls =>
    rw [hcalls] at hafter
    obtain ⟨_, hafter⟩ := Option.isSome_iff_exists.mp hafter
    rcases getElem?_insert_cases hafter with ⟨hc, -⟩ | ⟨-, hafter⟩
    · refine ⟨_, hc, Nat.lt_succ_self _, ?_⟩
      rw [after, hcalls]
    · rw [hbefore] at hafter
      cases hafter
  | reply _ _ _ _ _ _ hcalls =>
    rw [hcalls] at hafter
    simp only [remove_call, getElem?_erase, hbefore] at hafter
    split at hafter <;> cases hafter
  | close _ _ _ _ hcalls =>
    rw [hcalls, take_target_routes, hbefore] at hafter
    cases hafter

theorem Event.serial_mono (h : CallInv e.before.view) :
    e.before.calls.next ≤ e.after.calls.next := by
  unfold after
  cases h.change e.op with
  | none _ hnext hcalls =>
    rwa [hcalls]
  | register _ hcalls =>
    rw [hcalls]
    exact Nat.le_succ _
  | reply _ _ _ _ _ _ hcalls | close _ _ _ _ hcalls =>
    rw [hcalls]
    exact le_rfl
  | notify _ _ _ _ _ hcalls => rw [hcalls]

/-- **The balance of a call**: as often as it was registered it was removed, or it is in the
table; and it was registered at most once. -/
theorem call_balance (hrun : Run Moves Registry.new es r) (c : CallId) :
    es.countP (·.registers c) =
        es.countP (·.removes c) + (if r.calls.routes.contains c then 1 else 0) ∧
      es.countP (·.registers c) ≤ 1 ∧
      (0 < es.countP (·.registers c) → ∃ n, c = .Local n ∧ n ≤ r.calls.next) := by
  refine hrun.history (fun es r => es.countP (·.registers c) =
        es.countP (·.removes c) + (if r.calls.routes.contains c then 1 else 0) ∧
      es.countP (·.registers c) ≤ 1 ∧
      (0 < es.countP (·.registers c) → ∃ n, c = .Local n ∧ n ≤ r.calls.next)) ?_ ?_
  · refine ⟨?_, Nat.zero_le _, fun h => absurd h (by simp)⟩
    simp [Registry.new]
  · rintro es r e _ hrun ⟨_, honce, hserial⟩ ⟨rfl, rfl⟩
    have h := (run_callInv hrun).1
    have hmono := serial_mono h
    rw [List.countP_append, List.countP_append, List.countP_singleton, List.countP_singleton]
    refine ⟨?_, ?_, ?_⟩
    · -- in or out before, in or out after
      have hstep : (if e.registers c then 1 else 0) +
          (if e.before.calls.routes.contains c then 1 else 0) =
          (if e.removes c then 1 else 0) + (if e.after.calls.routes.contains c then 1 else 0) := by
        unfold registers removes
        cases e.before.calls.routes.contains c <;> cases e.after.calls.routes.contains c <;> rfl
      omega
    · by_cases hreg : e.registers c = true
      · obtain ⟨n, rfl, hlt, -⟩ := registers_serial h hreg
        have hzero : es.countP (·.registers (.Local n)) = 0 := by
          by_contra hpos
          obtain ⟨m, hm, hle⟩ := hserial (Nat.pos_of_ne_zero hpos)
          obtain rfl := CallId.Local.inj hm
          exact absurd hle (Nat.not_le_of_lt hlt)
        rw [hzero, if_pos hreg]
      · rwa [if_neg hreg]
    · intro hpos
      by_cases hreg : e.registers c = true
      · obtain ⟨n, hn, -, hle⟩ := registers_serial h hreg
        exact ⟨n, hn, hle⟩
      · rw [if_neg hreg, Nat.add_zero] at hpos
        obtain ⟨n, hn, hle⟩ := hserial hpos
        exact ⟨n, hn, hle.trans hmono⟩

/-- A call in the table has not been removed before. -/
theorem not_removed_before (hrun : Run Moves Registry.new es r)
    (hc : r.calls.routes.contains c = true) : ∀ e ∈ es, e.removes c = false := by
  obtain ⟨hbalance, _, -⟩ := call_balance hrun c
  rw [if_pos hc] at hbalance
  have hzero : es.countP (·.removes c) = 0 := by omega
  intro e he
  simpa using List.countP_eq_zero.mp hzero e he

/-- The target of `c` closed in this event. -/
def Event.ClosesTarget (e : Event) (c : CallId) (route : CallRoute) : Prop :=
  e.before.calls.routes[c]? = some route ∧ e.Ends c route .TargetClosed

/-- What is known of the notification of the caller of `c`: nothing is owed or was made
unless the target closed; and then it is owed, or was made, once. -/
structure Notified (es : List Event) (r : Registry) (c : CallId) : Prop where
  before : (∀ e ∈ es, ∀ route, ¬ e.ClosesTarget c route) → ¬ Owed r c ∧ notices c es = []
  after : ∀ e ∈ es, ∀ route, e.ClosesTarget c route →
    if route.sender ∈ e.after.owners then
      ((∃ id, r.view.At ⟨c, route.thread_id, route.sender⟩ (.closing id)) ∧ notices c es = []) ∨
        (¬ Owed r c ∧ notices c es = [⟨c, route.thread_id, route.sender⟩])
    else ¬ Owed r c ∧ notices c es = []

/-- A step that neither closes the target of `c` nor touches what is owed for it. -/
theorem Notified.keep (h : Notified es r c) (hclose : ∀ route, ¬ e.ClosesTarget c route)
    (hdebts : ∀ d id, d.call = c → (r'.view.At d (.closing id) ↔ r.view.At d (.closing id)))
    (hnotices : notices c (es ++ [e]) = notices c es) : Notified (es ++ [e]) r' c := by
  have howed : Owed r' c ↔ Owed r c := by
    constructor
    · rintro ⟨d, id, hat, hd⟩
      exact ⟨d, id, (hdebts d id hd).mp hat, hd⟩
    · rintro ⟨d, id, hat, hd⟩
      exact ⟨d, id, (hdebts d id hd).mpr hat, hd⟩
  constructor
  · intro hnone
    rw [howed, hnotices]
    exact h.before fun x hx => hnone x (List.mem_append_left _ hx)
  · intro x hx route hx'
    have hx : x ∈ es := by
      rcases mem_snoc hx with hx | hx
      · exact hx
      · rw [hx] at hx'
        exact absurd hx' (hclose route)
    have hold := h.after x hx route hx'
    rw [howed, hnotices]
    split at hold
    · next hsender =>
      rw [if_pos hsender]
      rcases hold with ⟨⟨id, hat⟩, hempty⟩ | hdone
      · exact .inl ⟨⟨id, (hdebts _ id rfl).mpr hat⟩, hempty⟩
      · exact .inr hdone
    · next hsender =>
      rwa [if_neg hsender]

/-- The target of `c` closes: what is owed from then on is what `close` collected. -/
theorem Notified.close (h : Notified es e.before c) (hclosed : e.ClosesTarget c route)
    (hfirst : ∀ x ∈ es, ∀ route, ¬ x.ClosesTarget c route) (hquiet : e.notifies = none)
    (hdebts : ∀ d id, e.after.view.At d (.closing id) ↔
      (e.before.view.At d (.closing id)) ∨
        (id = route.target.owner ∧ d ∈ e.before.view.callers_of route.target.owner))
    (howners : e.after.owners = e.before.owners.erase route.target.owner) :
    Notified (es ++ [e]) e.after c := by
  obtain ⟨hnot, hempty⟩ := h.before hfirst
  have hnotices : notices c (es ++ [e]) = [] := by
    rw [notices_snoc, hempty, hquiet]
    rfl
  constructor
  · intro hnone
    exact absurd hclosed (hnone e (by simp) route)
  · intro x hx route' hx'
    obtain rfl : x = e := by
      rcases mem_snoc hx with hx | hx
      · exact absurd hx' (hfirst x hx route')
      · exact hx
    obtain rfl : route' = route := Option.some.inj (hx'.1.symm.trans hclosed.1)
    rw [hnotices]
    split
    · next hsender =>
      rw [howners] at hsender
      refine .inl ⟨⟨route'.target.owner, (hdebts _ _).mpr (.inr ⟨rfl, ?_⟩)⟩, rfl⟩
      exact View.mem_callers_of.mpr ⟨hsender, route'.target, hclosed.1, rfl⟩
    · next hsender =>
      refine ⟨?_, rfl⟩
      rintro ⟨d, id, hat, hd⟩
      rcases (hdebts d id).mp hat with hat | ⟨-, hmem⟩
      · exact hnot ⟨d, id, hat, hd⟩
      · obtain ⟨hcaller, _, hroute, -⟩ := View.mem_callers_of.mp hmem
        rw [hd] at hroute
        have hsame : route'.sender = d.caller :=
          congrArg CallRoute.sender (Option.some.inj (hclosed.1.symm.trans hroute))
        rw [howners, hsame] at hsender
        exact hsender hcaller

/-- The caller of `c` is notified. -/
theorem Notified.notify (hinv : CallInv e.before.view) (h : Notified es e.before dead.call)
    (hdead : e.before.view.At dead (.closing id)) (hnotifies : e.notifies = some dead)
    (hclose : ∀ route, ¬ e.ClosesTarget dead.call route) (hpaid : ¬ Owed r' dead.call) :
    Notified (es ++ [e]) r' dead.call := by
  have hnotices : notices dead.call (es ++ [e]) = notices dead.call es ++ [dead] := by
    rw [notices_snoc, hnotifies]
    simp
  have howed : Owed e.before dead.call := ⟨dead, id, hdead, rfl⟩
  constructor
  · intro hnone
    exact absurd howed (h.before fun x hx => hnone x (List.mem_append_left _ hx)).1
  · intro x hx route hx'
    have hx : x ∈ es := by
      rcases mem_snoc hx with hx | hx
      · exact hx
      · rw [hx] at hx'
        exact absurd hx' (hclose route)
    have hold := h.after x hx route hx'
    split at hold
    · next hsender =>
      rw [if_pos hsender]
      rcases hold with ⟨⟨_, hat⟩, hempty⟩ | ⟨hnot, -⟩
      · obtain ⟨hsame, -⟩ := hinv.place_unique dead _ _ _ hdead hat rfl
        refine .inr ⟨hpaid, ?_⟩
        rw [hnotices, hempty, List.nil_append, ← hsame]
      · exact absurd howed hnot
    · exact absurd howed hold.1

/-- **Notifications, over a whole run.** -/
theorem run_notified (hrun : Run Moves Registry.new es r) (c : CallId) : Notified es r c := by
  refine hrun.history (fun es r => Notified es r c) ?_ ?_
  · refine ⟨fun _ => ⟨?_, rfl⟩, by simp⟩
    rintro ⟨d, id, ⟨dropped, dead, hid, -⟩, -⟩
    simp [view, Registry.new] at hid
  · rintro es r e _ hrun h ⟨rfl, rfl⟩
    have hinv := (run_callInv hrun).1
    -- a step that leaves `c` in the table, or finds it gone, does not close its target
    have hkept : (∀ route, e.before.calls.routes[c]? = some route → e.removes c = false) →
        ∀ route, ¬ e.ClosesTarget c route := by
      rintro hstay route ⟨hroute, hends⟩
      have := (removes_iff_ends hinv hroute).mpr ⟨_, hends⟩
      rw [hstay route hroute] at this
      cases this
    have hsilent : e.notifies = none → notices c (es ++ [e]) = notices c es := by
      intro hnone
      rw [notices_snoc, hnone]
      simp
    rcases hinv.change e.op with ⟨_, _, hcalls, hdebts, hquiet, -⟩ |
      ⟨route', hcalls, hclosing, hquiet, -⟩ |
      ⟨c', route', o, hkind, hroute', hends, hcalls, hclosing, hquiet, -, -⟩ |
      ⟨id, hop, hid, howners, hcalls, hclosing, -⟩ | ⟨id, dead, rest, hid, hop, hcalls, hclosing, -⟩
    · refine h.keep (hkept fun route hroute => ?_) (fun d id _ => hdebts d id) (hsilent hquiet)
      rw [← Bool.not_eq_true, removes_eq_true hroute, after, hcalls, hroute]
      simp
    · refine h.keep (hkept fun route hroute => ?_)
        (fun d id _ => SameDebts.of_closing hclosing d id) (hsilent hquiet)
      rw [← Bool.not_eq_true, removes_eq_true hroute, after, hcalls,
        getElem?_insert]
      split
      · simp
      · rw [hroute]
        simp
    · refine h.keep ?_ (fun d id _ => SameDebts.of_closing hclosing d id) (hsilent hquiet)
      rintro route ⟨hroute, hclosed⟩
      -- the only call that leaves the table is the one replied to
      rcases eq_or_ne c' c with rfl | hc
      · obtain rfl := Option.some.inj (hroute'.symm.trans hroute)
        exact hkind (hends.unique hclosed)
      · have hgone := (removes_iff_ends hinv hroute).mpr ⟨_, hclosed⟩
        rw [removes_eq_true hroute, after, hcalls] at hgone
        rw [remove_call, getElem?_erase_ne hc, hroute] at hgone
        cases hgone
    · have hquiet : e.notifies = none := by
        unfold notifies
        rw [hop]
      have hnone : e.before.closing[id]? = none := by
        rw [← contains_eq_false_iff]
        by_contra hc
        exact (hinv.closing_closed id (Bool.eq_true_of_not_eq_false hc)).1 hid
      have hdebts : ∀ d i, e.after.view.At d (.closing i) ↔
          e.before.view.At d (.closing i) ∨ (i = id ∧ d ∈ e.before.view.callers_of id) := by
        intro d i
        show (∃ dropped dead, (e.before.perform e.op).closing[i]? = _ ∧ _) ↔
          (∃ dropped dead, e.before.closing[i]? = _ ∧ _) ∨ _
        rw [hclosing, getElem?_insert]
        rcases eq_or_ne id i with rfl | hi
        · rw [if_pos (by simp), hnone]
          simp
        · rw [if_neg (by simpa using hi)]
          simp [Ne.symm hi]
      by_cases hc : ∃ route, e.before.calls.routes[c]? = some route ∧ route.target.owner = id
      · obtain ⟨route, hroute, rfl⟩ := hc
        have hclosed : e.ClosesTarget c route := by
          refine ⟨hroute, ?_⟩
          have hremoves : e.removes c = true := by
            rw [removes_eq_true hroute, after, hcalls, take_target_routes, hroute]
            simp
          obtain ⟨o, hends⟩ := (removes_iff_ends hinv hroute).mp hremoves
          cases o with
          | Replied | Discarded =>
            obtain ⟨_, _, _, _, _, _, hop', -⟩ := hends
            exact absurd (hop.symm.trans hop') (by simp)
          | TargetClosed => exact hends
        refine h.close hclosed ?_ hquiet hdebts howners
        -- it is in the table, so no earlier event took it out
        intro x hx route' hx'
        have hinv' := (run_callInv hrun).2 x hx
        have hstay := not_removed_before hrun (contains_of_some hroute) x hx
        rw [(removes_iff_ends hinv' hx'.1).mpr ⟨_, hx'.2⟩] at hstay
        cases hstay
      · refine h.keep ?_ (fun d i hd => ?_) (hsilent hquiet)
        · rintro route ⟨hroute, hends⟩
          obtain ⟨hop', -⟩ := hends
          have hid' : route.target.owner = id := by
            have := hop.symm.trans hop'
            exact (Op.close.inj this).symm
          exact hc ⟨route, hroute, hid'⟩
        · rw [hdebts d i]
          refine ⟨fun hor => hor.resolve_right ?_, .inl⟩
          rintro ⟨-, hmem⟩
          obtain ⟨-, target, hroute, htarget⟩ := View.mem_callers_of.mp hmem
          rw [hd] at hroute
          exact hc ⟨_, hroute, htarget⟩
    · have hdead : e.before.view.At dead (.closing id) :=
        ⟨true, dead :: rest, hid, List.mem_cons_self⟩
      have hnotifies : e.notifies = some dead := by
        simp only [notifies, hop, hid]
      have hstay : ∀ route, ¬ e.ClosesTarget c route := by
        refine hkept fun route hroute => ?_
        rw [← Bool.not_eq_true, removes_eq_true hroute, after, hcalls, hroute]
        simp
      have hpop := (hinv.pop hid).2
      rcases eq_or_ne dead.call c with rfl | hc
      · refine Notified.notify hinv h hdead hnotifies hstay ?_
        rintro ⟨d, i, hat, hd⟩
        refine (hpop d (.closing i) ?_).2 hd
        obtain ⟨dropped, dead', hi, hmem⟩ := hat
        exact ⟨dropped, dead', hclosing ▸ hi, hmem⟩
      · refine h.keep hstay (fun d i hd => ?_) ?_
        · show (∃ dropped dead, (e.before.perform e.op).closing[i]? = _ ∧ _) ↔
            ∃ dropped dead, e.before.closing[i]? = _ ∧ _
          rw [hclosing, getElem?_insert]
          rcases eq_or_ne id i with rfl | hi
          · have hne : d ≠ dead := fun heq => hc (by rw [← heq, hd])
            rw [if_pos (by simp), hid]
            simp [hne]
          · rw [if_neg (by simpa using hi)]
        · rw [notices_snoc, hnotifies]
          simp [hc]

/-- A reply to a call of the registry is queued by the event that ends the call by it. -/
theorem Event.QueuesReply.ends (h : CallInv e.before.view) {n : ℕ} (hq : e.QueuesReply (.Local n)) :
    ∃ route, e.before.calls.routes[CallId.Local n]? = some route ∧
      e.Ends (.Local n) route .Replied := by
  have hno : ¬ NoReply e.before (e.before.perform e.op) := by
    intro hno
    obtain ⟨id, p, hpending, hreply, hcall⟩ := hq
    exact hno id p n hpending hreply hcall
  cases h.change e.op with
  | none _ _ _ _ _ hno' | register _ _ _ _ hno' | close _ _ _ _ _ _ hno'
  | notify _ _ _ _ _ _ _ hno' => exact absurd hno' hno
  | reply c route _ _ hroute _ _ _ _ hother hreplied =>
    obtain rfl : .Local n = c := by
      by_contra hne
      exact hother _ hne hq
    exact ⟨route, hroute, hreplied hq⟩

/-- The round of `close` that comes to a caller performs the dead reply on its thread, if
the thread is there, and nothing otherwise. -/
theorem Event.notifies_performs (h : CallInv e.before.view) {d : DeadCaller}
    (hd : e.notifies = some d) :
    (d.caller ∈ e.before.owners → (e.before.existing_thread d.caller d.thread_id).isSome) ∧
    (e.before.existing_thread d.caller d.thread_id = none →
      e.after.existing_thread = e.before.existing_thread) ∧
    ∀ t, e.before.existing_thread d.caller d.thread_id = some t →
      (t.enqueue_dead_reply d.call).1 = .ok () ∧
        e.after.existing_thread d.caller d.thread_id = some (t.enqueue_dead_reply d.call).2 := by
  obtain ⟨id, rest, hop, hid⟩ : ∃ id rest, e.op = .notify_dead_caller id ∧
      e.before.closing[id]? = some ⟨true, d :: rest⟩ := by
    unfold notifies at hd
    split at hd
    · next id hop =>
      split at hd
      · next dead rest hid =>
        rw [Option.some.inj hd] at hid
        exact ⟨id, rest, hop, hid⟩
      · simp at hd
    · simp at hd
  have hat : e.before.view.At d (.closing id) := ⟨true, d :: rest, hid, List.mem_cons_self⟩
  have hafter : e.after = (e.before.notify_dead_caller id).2 := by
    unfold after
    rw [hop]
    rfl
  refine ⟨h.present d _ hat, fun hnone => ?_, fun t ht => ?_⟩
  · rw [hafter]
    simp only [notify_dead_caller, hid, hnone]
    rfl
  · have hok := (h.waits d _ hat t ht).enqueue_dead_reply_ok
    refine ⟨hok, ?_⟩
    rcases notify_dead_caller_cases e.before id with hsame | ⟨dead, rest', hid', hcase⟩
    · -- the list of callers gets shorter, so the registry is not what it was
      have hmoved := (notify_dead_caller_moves h hid).2
      rw [hsame] at hmoved
      have hshort : e.before.closing[id]? = some ⟨true, rest⟩ := by
        rw [show e.before.closing = _ from hmoved, getElem?_insert_self]
      rw [hid] at hshort
      simp at hshort
    · obtain ⟨rfl, rfl⟩ : d = dead ∧ rest = rest' := by
        have := hid.symm.trans hid'
        simpa using this
      rcases hcase with ⟨hnone, -⟩ | ⟨_, ht', ⟨-, heq⟩ | ⟨⟨_, herr⟩, -⟩⟩
      · rw [ht] at hnone
        cases hnone
      · rw [ht] at ht'
        cases ht'
        rw [hafter, heq]
        show (e.before.put_thread d.caller d.thread_id _).existing_thread d.caller d.thread_id = _
        rw [existing_thread_put_thread ht, if_pos ⟨rfl, rfl⟩]
      · rw [ht] at ht'
        cases ht'
        rw [hok] at herr
        cases herr

/-- **Every synchronous call has one end.** Over any run of a registry: a call in the table
has an open target, whose close would end it. A call is registered at most once, and has then
been removed once or is in the table. The event that removes it ends it in exactly one of the
three ways, and no other event queues a reply to it. If its target closed while the caller
was registered, the caller is notified once, by a dead reply on its thread if that is there;
and no one is notified otherwise. -/
theorem calls_end_once {es : List Event} {r : Registry} (hrun : Run Moves Registry.new es r) :
    (∀ (c : CallId) route, r.calls.routes[c]? = some route →
      route.target.owner ∈ r.owners ∧
        Event.Ends ⟨r, .close route.target.owner⟩ c route .TargetClosed) ∧
    (∀ c, es.countP (·.registers c) ≤ 1 ∧
      es.countP (·.registers c) =
        es.countP (·.removes c) + (if r.calls.routes.contains c then 1 else 0)) ∧
    ∀ e ∈ es,
      (∀ (c : CallId) route, e.before.calls.routes[c]? = some route →
        (e.removes c = true ↔ ∃! o, e.Ends c route o)) ∧
      (∀ n, e.QueuesReply (.Local n) → ∃ route,
        e.before.calls.routes[CallId.Local n]? = some route ∧
          e.Ends (.Local n) route .Replied) ∧
      (∀ (c : CallId) route, e.before.calls.routes[c]? = some route →
        e.Ends c route .TargetClosed →
        if route.sender ∈ e.after.owners then
          (Owed r c ∧ notices c es = []) ∨
            (¬ Owed r c ∧ notices c es = [⟨c, route.thread_id, route.sender⟩])
        else ¬ Owed r c ∧ notices c es = []) ∧
      ∀ d, e.notifies = some d →
        (∃ x ∈ es, ∃ route, x.before.calls.routes[d.call]? = some route ∧
          x.Ends d.call route .TargetClosed) ∧
        (d.caller ∈ e.before.owners → (e.before.existing_thread d.caller d.thread_id).isSome) ∧
        (e.before.existing_thread d.caller d.thread_id = none →
          e.after.existing_thread = e.before.existing_thread) ∧
        ∀ t, e.before.existing_thread d.caller d.thread_id = some t →
          (t.enqueue_dead_reply d.call).1 = .ok () ∧
            e.after.existing_thread d.caller d.thread_id =
              some (t.enqueue_dead_reply d.call).2 := by
  obtain ⟨hinv, hinvs⟩ := run_callInv hrun
  refine ⟨fun c route hroute => ?_, fun c => ?_, fun e he => ⟨?_, ?_, ?_, ?_⟩⟩
  · have hopen := hinv.target_open c route hroute
    refine ⟨hopen, rfl, hopen, r.view.callers_of route.target.owner, ?_, ?_⟩
    all_goals
      rcases close_cases r route.target.owner with ⟨hno, -⟩ | ⟨-, heq⟩
      · exact absurd hopen hno
      have hafter : after ⟨r, .close route.target.owner⟩ = _ := heq
    · rw [hafter]
      exact getElem?_insert_self
    · rw [hafter]
      exact View.callers_of_filter hroute
  · obtain ⟨hbalance, honce, -⟩ := call_balance hrun c
    exact ⟨honce, hbalance⟩
  · intro c route hroute
    rw [removes_iff_ends (hinvs e he) hroute]
    refine ⟨?_, fun ⟨o, ho, _⟩ => ⟨o, ho⟩⟩
    rintro ⟨o, ho⟩
    exact ⟨o, ho, fun _ ho' => ho'.unique ho⟩
  · intro n hq
    exact hq.ends (hinvs e he)
  · intro c route hroute hends
    have hafter := (run_notified hrun c).after e he route ⟨hroute, hends⟩
    split at hafter
    · next hsender =>
      rw [if_pos hsender]
      rcases hafter with ⟨⟨id, hat⟩, hempty⟩ | hdone
      · exact .inl ⟨⟨_, id, hat, rfl⟩, hempty⟩
      · exact .inr hdone
    · next hsender =>
      rwa [if_neg hsender]
  · intro d hd
    refine ⟨?_, notifies_performs (hinvs e he) hd⟩
    by_contra hnone
    have hclosed : ∀ x ∈ es, ∀ route, ¬ x.ClosesTarget d.call route :=
      fun x hx route hx' => hnone ⟨x, hx, route, hx'⟩
    obtain ⟨-, hempty⟩ := (run_notified hrun d.call).before hclosed
    have hmem : d ∈ notices d.call es :=
      List.mem_filter.mpr ⟨List.mem_filterMap.mpr ⟨e, he, hd⟩, by simp⟩
    rw [hempty] at hmem
    cases hmem

/-- The events of a list of operations. -/
def events : Registry → List Op → List Event
  | _, [] => []
  | r, op :: ops => ⟨r, op⟩ :: events (r.perform op) ops

theorem run_events (r : Registry) (ops : List Op) :
    Run Moves r (events r ops) (ops.foldl perform r) := by
  induction ops generalizing r with
  | nil => exact Run.nil r
  | cons op _ ih =>
    exact Run.append (Run.single (e := ⟨r, op⟩) ⟨rfl, rfl⟩) (ih (r.perform op))

/-- Thread 11 calls the second process, which then closes: its caller is notified once. -/
def target_closes : List Op :=
  two_processes ++
    [.submit_transaction 1 11 call_request ⟨1, 1000⟩ (routed 2 8), .close 2, .drop_owner 2,
      .notify_dead_caller 2]

theorem call_ends_once_when_target_closes :
    notices (.Local 1) (events new target_closes) = [⟨.Local 1, 11, 1⟩] ∧
      (events new target_closes).countP (·.removes (.Local 1)) = 1 := by
  obtain ⟨-, hcount, -⟩ := calls_end_once (run_events new target_closes)
  obtain ⟨-, hbalance⟩ := hcount (.Local 1)
  have hregistered : (events new target_closes).countP (·.registers (.Local 1)) = 1 := by
    decide +kernel
  have hgone : (target_closes.foldl perform new).calls.routes.contains (.Local 1) = false := by
    decide +kernel
  refine ⟨by decide +kernel, ?_⟩
  rw [hregistered, hgone] at hbalance
  exact hbalance.symm

end DarwinArt.Binder.Registry
