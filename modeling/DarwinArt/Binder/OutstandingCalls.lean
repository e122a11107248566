/-
Outstanding calls, and what the parts of a registry say of them.

The call table, the stacks of the threads, the queued replies and the notifications a
`close` still owes speak of the same calls, in different places. `View` is what they say:
the registry without the layout of its connections. A call is *outstanding* at exactly one
place, the table or the notifications of one `close` (`At`); as long as it is, the thread
that made it waits for it (`Thread.Waits`) and no reply to it is queued. `CallInv` states
that. This file has the few ways the view changes, each of which keeps it; `RegistryCalls`
takes the operations of the registry to them.
-/
import DarwinArt.Binder.RegistrySteps

set_option autoImplicit false

namespace DarwinArt.Binder.Registry

open Lib Lib.ListEdit

/-! ## The view -/

/-- What a registry says of calls: `threads` and `pending` are the threads and the queues of
all connections, open or not. -/
structure View where
  next : ℕ
  owners : Finset ConnectionId
  calls : CallTable
  closing : Map ConnectionId Closing
  opened : ConnectionId → Prop
  threads : ConnectionId → UInt64 → Option Thread
  pending : ConnectionId → List Pending

/-- The queue of a connection; none is empty. -/
def pending (r : Registry) (id : ConnectionId) : List Pending :=
  match r.connections[id]? with
  | some ⟨_, some queue⟩ => queue.pending
  | _ => []

def view (r : Registry) : View where
  next := r.next
  owners := r.owners
  calls := r.calls
  closing := r.closing
  opened id := (r.connections[id]?).isSome
  threads := r.existing_thread
  pending := r.pending

/-- A thread is written back. -/
def View.set_thread (v : View) (id : ConnectionId) (thread_id : UInt64) (t : Thread) : View :=
  { v with threads := fun i j => if id = i ∧ thread_id = j then some t else v.threads i j }

/-- A queue is written back. -/
def View.set_pending (v : View) (id : ConnectionId) (ps : List Pending) : View :=
  { v with pending := fun i => if id = i then ps else v.pending i }

/-- What waits in the queue of a connection. -/
def queued (connection : Connection) : List Pending :=
  match connection.transactions with
  | some queue => queue.pending
  | none => []

section

variable (r : Registry) (id : ConnectionId) (connection : Connection)
include r id connection

theorem put_existing_thread :
    (r.put id connection).existing_thread =
      fun i j => if id = i then connection.threads[j]? else r.existing_thread i j := by
  funext i j
  unfold existing_thread
  rw [put_connections]
  by_cases hid : id = i
  · rw [if_pos hid, if_pos hid]
  · rw [if_neg hid, if_neg hid]

theorem put_pending :
    (r.put id connection).pending =
      fun i => if id = i then queued connection else r.pending i := by
  funext i
  unfold pending
  rw [put_connections]
  by_cases hid : id = i
  · rw [if_pos hid, if_pos hid]
    obtain ⟨_, _ | _⟩ := connection <;> rfl
  · rw [if_neg hid, if_neg hid]

/-- A connection is written. -/
theorem view_put :
    (r.put id connection).view = { r.view with
      opened := fun i => id = i ∨ r.view.opened i
      threads := fun i j => if id = i then connection.threads[j]? else r.existing_thread i j
      pending := fun i => if id = i then queued connection else r.pending i } := by
  have hopened : (r.put id connection).view.opened = fun i => id = i ∨ r.view.opened i := by
    funext i
    show (((r.put id connection).connections[i]?).isSome = true) = _
    rw [put_connections]
    by_cases hid : id = i <;> simp [hid, view]
  rw [← hopened, ← put_existing_thread, ← put_pending]
  rfl

end

variable {r : Registry} {id : ConnectionId}

variable {connection : Connection}

section

variable (hconn : r.connections[id]? = some connection)
include hconn

/-- A connection that exists is written. -/
theorem view_put_of_some (connection' : Connection) :
    (r.put id connection').view = { r.view with
      threads := fun i j => if id = i then connection'.threads[j]? else r.existing_thread i j
      pending := fun i => if id = i then queued connection' else r.pending i } := by
  rw [view_put]
  dsimp only
  congr 1
  funext i
  refine propext ⟨?_, .inr⟩
  rintro (rfl | hi)
  · show (r.connections[id]?).isSome = true
    rw [hconn]
    rfl
  · exact hi

theorem existing_thread_of_some (j : UInt64) :
    r.existing_thread id j = connection.threads[j]? := by
  unfold existing_thread
  rw [hconn]

theorem pending_of_some : r.pending id = queued connection := by
  unfold pending
  rw [hconn]
  obtain ⟨_, _ | _⟩ := connection <;> rfl

theorem view_write_thread (thread_id : UInt64) (t : Thread) :
    (r.put_thread id thread_id t).view = r.view.set_thread id thread_id t := by
  rw [put_thread_eq hconn, view_put_of_some hconn]
  simp only [View.set_thread]
  congr 1
  · funext i j
    rcases eq_or_ne id i with rfl | hid
    · simp [view, existing_thread_of_some hconn, getElem?_insert]
    · rw [if_neg hid, if_neg fun h => hid h.1]
      rfl
  · funext i
    split
    · next hid =>
      subst hid
      exact (pending_of_some hconn).symm
    · rfl

end

theorem view_put_thread {thread_id : UInt64} {t : Thread}
    (h : r.existing_thread id thread_id = some t) (t' : Thread) :
    (r.put_thread id thread_id t').view = r.view.set_thread id thread_id t' := by
  obtain ⟨_, hconn, -⟩ := existing_thread_eq_some.mp h
  exact view_write_thread hconn thread_id t'

/-- The queue of a connection is replaced. -/
theorem view_put_queue (hconn : r.connections[id]? = some connection) (queue : Queue) :
    (r.put id { connection with transactions := some queue }).view =
      r.view.set_pending id queue.pending := by
  rw [view_put_of_some hconn]
  simp only [View.set_pending]
  congr 1
  funext i j
  split
  · next hid =>
    subst hid
    exact (existing_thread_of_some hconn j).symm
  · rfl

theorem pending_eq {queue : Queue} (hconn : r.connections[id]? = some connection)
    (hqueue : connection.transactions = some queue) : r.pending id = queue.pending := by
  rw [pending_of_some hconn]
  unfold queued
  rw [hqueue]

theorem view_appended {r' : Registry} {p : Pending}
    (h : Appended r r' id p) : r'.view = r.view.set_pending id (r.pending id ++ [p]) := by
  obtain ⟨_, _, hconn, hqueue, rfl⟩ := h
  rw [view_put_queue hconn, pending_eq hconn hqueue]

/-! ## Outstanding calls -/

/-- Where a call is outstanding: in the table, or among the notifications of a `close`. -/
inductive Place
  | table
  | closing (id : ConnectionId)
deriving DecidableEq

/-- The call `d.call` of thread `d.thread_id` of connection `d.caller` is outstanding at a
place. -/
def View.At (v : View) (d : DeadCaller) : Place → Prop
  | .table => ∃ target, v.calls.routes[d.call]? = some ⟨d.caller, d.thread_id, target⟩
  | .closing id => ∃ dropped dead_callers,
      v.closing[id]? = some ⟨dropped, dead_callers⟩ ∧ d ∈ dead_callers

/-- The invariant of outstanding calls. -/
structure CallInv (v : View) : Prop where
  /-- Registered connections exist, and ids up to `next` have been handed out. -/
  owner_opened : ∀ id ∈ v.owners, v.opened id
  opened_le : ∀ id, v.opened id → id ≤ v.next
  closing_closed : ∀ id, v.closing.contains id → id ∉ v.owners ∧ v.opened id
  /-- Threads sit under their ids, in connections that exist. -/
  thread_id_eq : ∀ id thread_id t, v.threads id thread_id = some t → t.id = thread_id
  thread_opened : ∀ id thread_id t, v.threads id thread_id = some t → v.opened id
  /-- No thread has heard of a call beyond the counter. -/
  fresh : ∀ id thread_id t n, v.threads id thread_id = some t → v.calls.next < n →
    Thread.Unheard (.Local n) t
  /-- An outstanding call is one of the registry's, made by a connection it has seen. -/
  serial_le : ∀ d place, v.At d place →
    (∃ n, d.call = .Local n ∧ n ≤ v.calls.next) ∧ d.caller ≤ v.next
  /-- Its thread, if it is still there, waits for it; and it is there while the caller is
  registered. -/
  waits : ∀ d place, v.At d place → ∀ t, v.threads d.caller d.thread_id = some t →
    Thread.Waits d.call t
  present : ∀ d place, v.At d place → d.caller ∈ v.owners →
    (v.threads d.caller d.thread_id).isSome
  /-- It is outstanding once. -/
  place_unique : ∀ d d' place place', v.At d place → v.At d' place' → d.call = d'.call →
    d = d' ∧ place = place'
  calls_nodup : ∀ (id : ConnectionId) c, v.closing[id]? = some c →
    (c.dead_callers.map DeadCaller.call).Nodup
  /-- A call whose reply is queued is not outstanding any more. -/
  replied : ∀ id, ∀ p ∈ v.pending id, p.header.reply = true → ∀ n, p.route.call = some (.Local n) →
    n ≤ v.calls.next ∧ ∀ d place, v.At d place → d.call ≠ .Local n
  /-- The target of a call in the table is registered. -/
  target_open : ∀ (c : CallId) route, v.calls.routes[c]? = some route →
    route.target.owner ∈ v.owners

theorem CallInv.new : CallInv Registry.new.view := by
  have hat : ∀ d place, ¬ Registry.new.view.At d place := by
    rintro d (_ | _) h
    · obtain ⟨_, h⟩ := h
      simp [view, Registry.new] at h
    · obtain ⟨_, _, h, -⟩ := h
      simp [view, Registry.new] at h
  constructor
  case owner_opened => simp [view, Registry.new]
  case opened_le => simp [view, Registry.new]
  case closing_closed => simp [view, Registry.new]
  case thread_id_eq | thread_opened | fresh => simp [view, Registry.new, existing_thread]
  case serial_le => exact fun d place h => absurd h (hat d place)
  case waits => exact fun d place h => absurd h (hat d place)
  case present => exact fun d place h => absurd h (hat d place)
  case place_unique => exact fun d _ place _ h => absurd h (hat d place)
  case calls_nodup => simp [view, Registry.new]
  case replied => simp [view, Registry.new, pending]
  case target_open => simp [view, Registry.new]


/-! ## Changes of the view -/

section Changes

variable {v : View}

/-- A thread has a say in call `n`: the call is outstanding there, or still to come. -/
def View.Concerns (v : View) (id : ConnectionId) (thread_id : UInt64) (n : ℕ) : Prop :=
  v.calls.next < n ∨ ∃ place, v.At ⟨.Local n, thread_id, id⟩ place

variable {id : ConnectionId} {thread_id : UInt64} {t : Thread} {v' : View}

/-- Nothing a thread can read is about such a call. -/
theorem CallInv.quiet (h : CallInv v)
    {n : ℕ} (ht : v.threads id thread_id = some t) (hn : v.Concerns id thread_id n) :
    Thread.Quiet (.Local n) t := by
  rcases hn with hn | ⟨place, hat⟩
  · exact (h.fresh id thread_id t n ht hn).quiet
  · exact (h.waits _ place hat t ht).quiet

/-- The threads change, each keeping what it says of the calls that concern it. -/
theorem CallInv.set_threads (h : CallInv v) {f : ConnectionId → UInt64 → Option Thread}
    (hnone : ∀ i j, v.threads i j = none → f i j = none)
    (hsome : ∀ i j t, v.threads i j = some t → ∃ t', f i j = some t' ∧ t'.id = t.id ∧
      ∀ n, v.Concerns i j n → Thread.Same (.Local n) t t') :
    CallInv { v with threads := f } := by
  -- every thread after the change was there before it
  have hback : ∀ i j t', f i j = some t' → ∃ t, v.threads i j = some t ∧ t'.id = t.id ∧
      ∀ n, v.Concerns i j n → Thread.Same (.Local n) t t' := by
    intro i j t' ht'
    cases ht : v.threads i j with
    | none => exact nomatch (hnone i j ht).symm.trans ht'
    | some t =>
      obtain ⟨u, hu, hid, hsame⟩ := hsome i j t ht
      rw [ht'] at hu
      cases hu
      exact ⟨t, rfl, hid, hsame⟩
  refine { h with thread_id_eq := ?_, thread_opened := ?_, fresh := ?_, waits := ?_, present := ?_ }
  · intro i j t' ht'
    obtain ⟨t, ht, hid, -⟩ := hback i j t' ht'
    exact hid.trans (h.thread_id_eq i j t ht)
  · intro i j t' ht'
    obtain ⟨t, ht, -⟩ := hback i j t' ht'
    exact h.thread_opened i j t ht
  · intro i j t' n ht' hn
    obtain ⟨t, ht, -, hsame⟩ := hback i j t' ht'
    exact (hsame n (.inl hn)).unheard (h.fresh i j t n ht hn)
  · intro d place hat t' ht'
    obtain ⟨t, ht, -, hsame⟩ := hback _ _ t' ht'
    obtain ⟨⟨n, hn, -⟩, -⟩ := h.serial_le d place hat
    obtain ⟨call, _, _⟩ := d
    obtain rfl : call = .Local n := hn
    exact (hsame n (.inr ⟨place, hat⟩)).waits (h.waits _ place hat t ht)
  · intro d place hat howner
    obtain ⟨t, ht⟩ := Option.isSome_iff_exists.mp (h.present d place hat howner)
    obtain ⟨t', ht', -⟩ := hsome _ _ t ht
    exact Option.isSome_iff_exists.mpr ⟨t', ht'⟩

theorem CallInv.set_thread (h : CallInv v)
    {t' : Thread} (ht : v.threads id thread_id = some t) (hid : t'.id = t.id)
    (hsame : ∀ n, v.Concerns id thread_id n → Thread.Same (.Local n) t t') :
    CallInv (v.set_thread id thread_id t') := by
  refine h.set_threads (fun i j hnone => ?_) fun i j u hu => ?_
  · split
    · next heq =>
      obtain ⟨rfl, rfl⟩ := heq
      exact nomatch ht.symm.trans hnone
    · exact hnone
  · split
    · next heq =>
      obtain ⟨rfl, rfl⟩ := heq
      rw [ht] at hu
      cases hu
      exact ⟨t', rfl, hid, hsame⟩
    · exact ⟨u, hu, rfl, fun n _ => Thread.Same.refl _ u⟩

/-- The entry answers no call that is outstanding or still to come. -/
def View.Settled (v : View) (p : Pending) : Prop :=
  p.header.reply = true → ∀ n, p.route.call = some (.Local n) →
    n ≤ v.calls.next ∧ ∀ d place, v.At d place → d.call ≠ .Local n

section

variable (h : CallInv v)
include h

/-- A queue changes, to entries that answer no outstanding call. -/
theorem CallInv.set_pending {ps : List Pending}
    (hps : ∀ p ∈ ps, v.Settled p) : CallInv (v.set_pending id ps) := by
  refine { h with replied := fun i p hp => ?_ }
  by_cases hid : id = i
  · exact hps p (by simpa [View.set_pending, hid] using hp)
  · exact h.replied i p (by simpa [View.set_pending, hid] using hp)

theorem CallInv.append (id : ConnectionId) {p : Pending} (hp : v.Settled p) :
    CallInv (v.set_pending id (v.pending id ++ [p])) := by
  refine h.set_pending fun x hx => ?_
  rcases mem_snoc hx with hx | hx
  · exact h.replied id x hx
  · rwa [hx]

/-- A serial is used up. -/
theorem CallInv.count_up :
    CallInv { v with calls := ⟨v.calls.next + 1, v.calls.routes⟩ } := by
  refine { h with
    fresh := fun id thread_id t n ht hn => h.fresh id thread_id t n ht (Nat.lt_of_succ_lt hn)
    serial_le := fun d place hat => ?_
    replied := fun id p hp hreply n hn => ?_ }
  · obtain ⟨⟨n, hn, hle⟩, hcaller⟩ := h.serial_le d place hat
    exact ⟨⟨n, hn, Nat.le_succ_of_le hle⟩, hcaller⟩
  · obtain ⟨hle, hat⟩ := h.replied id p hp hreply n hn
    exact ⟨Nat.le_succ_of_le hle, hat⟩

/-- Outstanding calls move from place to place, or are over; no new one comes up. -/
theorem CallInv.move {owners : Finset ConnectionId} {routes : Map CallId CallRoute}
    {closing : Map ConnectionId Closing}
    (hv' : v' = { v with
      owners := owners
      calls := ⟨v.calls.next, routes⟩
      closing := closing }) (howners : owners ⊆ v.owners)
    (hclosed : ∀ id, closing.contains id → id ∉ owners ∧ v.opened id)
    (hat : ∀ d place, v'.At d place → ∃ place', v.At d place')
    (hunique : ∀ d d' place place', v'.At d place → v'.At d' place' → d.call = d'.call →
      d = d' ∧ place = place')
    (hnodup : ∀ (id : ConnectionId) c, closing[id]? = some c →
      (c.dead_callers.map DeadCaller.call).Nodup)
    (htarget : ∀ (c : CallId) route, routes[c]? = some route → route.target.owner ∈ owners) :
    CallInv v' := by
  subst hv'
  refine { h with
      owner_opened := ?_, closing_closed := ?_, serial_le := ?_, waits := ?_, present := ?_,
      place_unique := ?_, calls_nodup := ?_, replied := ?_, target_open := ?_ }
  · exact fun id hid => h.owner_opened id (howners hid)
  · exact hclosed
  · intro d place hd
    obtain ⟨place', hd'⟩ := hat d place hd
    exact h.serial_le d place' hd'
  · intro d place hd
    obtain ⟨place', hd'⟩ := hat d place hd
    exact h.waits d place' hd'
  · intro d place hd hcaller
    obtain ⟨place', hd'⟩ := hat d place hd
    exact h.present d place' hd' (howners hcaller)
  · exact hunique
  · exact hnodup
  · intro id p hp hreply n hn
    obtain ⟨hle, hnot⟩ := h.replied id p hp hreply n hn
    refine ⟨hle, fun d place hd => ?_⟩
    obtain ⟨place', hd'⟩ := hat d place hd
    exact hnot d place' hd'
  · exact htarget

/-- A route is removed. -/
theorem CallInv.remove_route (c : CallId) :
    CallInv { v with calls := remove_call v.calls c } ∧
      ∀ d place, View.At { v with calls := remove_call v.calls c } d place →
        v.At d place ∧ (place = .table → d.call ≠ c) := by
  have hat : ∀ d place, View.At { v with calls := remove_call v.calls c } d place →
      v.At d place ∧ (place = .table → d.call ≠ c) := by
    intro d place hd
    cases place with
    | closing => exact ⟨hd, by simp⟩
    | table =>
      obtain ⟨target, hroute⟩ := hd
      obtain ⟨hne, hroute⟩ := getElem?_erase_cases hroute
      exact ⟨⟨target, hroute⟩, fun _ => hne⟩
  refine ⟨?_, hat⟩
  refine h.move rfl (Finset.Subset.refl _) h.closing_closed
    (fun d place hd => ⟨place, (hat d place hd).1⟩)
    (fun d d' place place' hd hd' => h.place_unique d d' place place' (hat d place hd).1
      (hat d' place' hd').1) h.calls_nodup ?_
  intro c' route hroute
  exact h.target_open c' route (getElem?_erase_cases hroute).2

/-- A route is added, for a thread that waits for its call already. -/
theorem CallInv.add_route (route : CallRoute)
    (hsender : route.sender ∈ v.owners) (htarget : route.target.owner ∈ v.owners)
    (ht : v.threads route.sender route.thread_id = some t)
    (hw : Thread.Waits (.Local v.calls.next) t)
    (hnew : ∀ d place, v.At d place → d.call ≠ .Local v.calls.next)
    (hreply : ∀ id, ∀ p ∈ v.pending id, p.header.reply = true →
      p.route.call ≠ some (.Local v.calls.next)) :
    CallInv { v with
      calls := ⟨v.calls.next, v.calls.routes.insert (.Local v.calls.next) route⟩ } := by
  have hat : ∀ d place, View.At { v with
        calls := ⟨v.calls.next, v.calls.routes.insert (.Local v.calls.next) route⟩ } d place →
      v.At d place ∨ place = .table ∧ d = ⟨.Local v.calls.next, route.thread_id, route.sender⟩ := by
    rintro ⟨_, _, _⟩ place hd
    cases place with
    | closing => exact .inl hd
    | table =>
      obtain ⟨target, hd⟩ := hd
      rcases getElem?_insert_cases hd with ⟨rfl, rfl⟩ | ⟨-, hd⟩
      · exact .inr ⟨rfl, rfl⟩
      · exact .inl ⟨target, hd⟩
  refine { h with
      serial_le := ?_, waits := ?_, present := ?_, place_unique := ?_, replied := ?_,
      target_open := ?_ }
  · intro d place hd
    rcases hat d place hd with hd | ⟨-, rfl⟩
    · exact h.serial_le d place hd
    · exact ⟨⟨_, rfl, le_rfl⟩, h.opened_le _ (h.owner_opened _ hsender)⟩
  · intro d place hd u hu
    rcases hat d place hd with hd | ⟨-, rfl⟩
    · exact h.waits d place hd u hu
    · rw [ht] at hu
      cases hu
      exact hw
  · intro d place hd hcaller
    rcases hat d place hd with hd | ⟨-, rfl⟩
    · exact h.present d place hd hcaller
    · rw [ht]
      rfl
  · intro d d' place place' hd hd' hcall
    rcases hat d place hd with hd | ⟨rfl, rfl⟩
    · rcases hat d' place' hd' with hd' | ⟨-, rfl⟩
      · exact h.place_unique d d' place place' hd hd' hcall
      · exact absurd hcall (hnew d place hd)
    · rcases hat d' place' hd' with hd' | ⟨rfl, rfl⟩
      · exact absurd hcall.symm (hnew d' place' hd')
      · exact ⟨rfl, rfl⟩
  · intro id p hp hrep n hn
    obtain ⟨hle, hnot⟩ := h.replied id p hp hrep n hn
    refine ⟨hle, fun d place hd => ?_⟩
    rcases hat d place hd with hd | ⟨-, rfl⟩
    · exact hnot d place hd
    · intro heq
      exact hreply id p hp hrep (by rw [hn, ← heq])
  · intro c route' hroute
    rcases getElem?_insert_cases hroute with ⟨-, rfl⟩ | ⟨-, hroute⟩
    · exact htarget
    · exact h.target_open c route' hroute

/-- A connection is registered. -/
theorem CallInv.register
    (hv' : v' = { v with
      next := v.next + 1
      owners := insert (v.next + 1) v.owners
      opened := fun id => id = v.next + 1 ∨ v.opened id }) : CallInv v' := by
  subst hv'
  refine { h with
      owner_opened := ?_, opened_le := ?_, closing_closed := ?_, thread_opened := ?_,
      serial_le := ?_, present := ?_, target_open := ?_ }
  · intro id hid
    rcases Finset.mem_insert.mp hid with rfl | hid
    · exact .inl rfl
    · exact .inr (h.owner_opened id hid)
  · rintro id (rfl | hid)
    · exact le_rfl
    · exact Nat.le_succ_of_le (h.opened_le id hid)
  · intro id hid
    obtain ⟨hclosed, hopened⟩ := h.closing_closed id hid
    refine ⟨fun hmem => ?_, .inr hopened⟩
    rcases Finset.mem_insert.mp hmem with rfl | hmem
    · exact absurd (h.opened_le _ hopened) (Nat.not_succ_le_self _)
    · exact hclosed hmem
  · exact fun id thread_id t ht => .inr (h.thread_opened id thread_id t ht)
  · intro d place hd
    obtain ⟨hserial, hle⟩ := h.serial_le d place hd
    exact ⟨hserial, Nat.le_succ_of_le hle⟩
  · intro d place hd hcaller
    obtain ⟨-, hle⟩ := h.serial_le d place hd
    rcases Finset.mem_insert.mp hcaller with heq | hcaller
    · rw [heq] at hle
      exact absurd hle (Nat.not_succ_le_self _)
    · exact h.present d place hd hcaller
  · intro c route hroute
    exact Finset.mem_insert_of_mem (h.target_open c route hroute)

/-- A thread is made in a registered connection. -/
theorem CallInv.new_thread (hid : id ∈ v.owners) (hnone : v.threads id thread_id = none)
    (hnew : Thread.new thread_id = some t) : CallInv (v.set_thread id thread_id t) := by
  have ht : t.id = thread_id ∧ t.outgoing = [] ∧ t.local_work = [] := by
    unfold Thread.new at hnew
    split at hnew
    · cases hnew
      exact ⟨rfl, rfl, rfl⟩
    · simp at hnew
  have hthread : ∀ i j u, (v.set_thread id thread_id t).threads i j = some u →
      (id = i ∧ thread_id = j ∧ u = t) ∨ v.threads i j = some u := by
    intro i j u hu
    simp only [View.set_thread] at hu
    split at hu
    · next heq => exact .inl ⟨heq.1, heq.2, (Option.some.inj hu).symm⟩
    · exact .inr hu
  refine { h with thread_id_eq := ?_, thread_opened := ?_, fresh := ?_, waits := ?_, present := ?_ }
  · intro i j u hu
    rcases hthread i j u hu with ⟨-, rfl, rfl⟩ | hu
    · exact ht.1
    · exact h.thread_id_eq i j u hu
  · intro i j u hu
    rcases hthread i j u hu with ⟨rfl, -, -⟩ | hu
    · exact h.owner_opened id hid
    · exact h.thread_opened i j u hu
  · intro i j u n hu hn
    rcases hthread i j u hu with ⟨-, -, rfl⟩ | hu
    · exact ⟨by rw [ht.2.1]; rfl, by rw [ht.2.2]; rfl⟩
    · exact h.fresh i j u n hu hn
  · intro d place hd u hu
    rcases hthread _ _ u hu with ⟨rfl, rfl, -⟩ | hu
    · -- an outstanding call of a registered connection has its thread already
      have := h.present d place hd hid
      rw [hnone] at this
      cases this
    · exact h.waits d place hd u hu
  · intro d place hd hcaller
    show (if _ then _ else _ : Option Thread).isSome
    split
    · rfl
    · exact h.present d place hd hcaller

/-- A connection that a `close` has removed is emptied. -/
theorem CallInv.drop_owner {dead_callers : List DeadCaller}
    (hid : v.closing[id]? = some ⟨false, dead_callers⟩)
    (hv' : v' = { v with
      closing := v.closing.insert id ⟨true, dead_callers⟩
      threads := fun i j => if id = i then none else v.threads i j
      pending := fun i => if id = i then [] else v.pending i }) : CallInv v' := by
  subst hv'
  have hclosed := h.closing_closed id (contains_of_some hid)
  -- what the `close` has to tell is what it was
  have hat : ∀ d place, View.At { v with
      closing := v.closing.insert id ⟨true, dead_callers⟩
      threads := fun i j => if id = i then none else v.threads i j
      pending := fun i => if id = i then [] else v.pending i } d place → v.At d place := by
    rintro d (_ | i) hd
    · exact hd
    · obtain ⟨dropped, dead, hi, hmem⟩ := hd
      rcases getElem?_insert_cases hi with ⟨rfl, heq⟩ | ⟨-, hi⟩
      · injection heq with _ heq
        exact ⟨false, dead_callers, hid, heq ▸ hmem⟩
      · exact ⟨dropped, dead, hi, hmem⟩
  have hthread : ∀ i j u, (if id = i then none else v.threads i j) = some u →
      v.threads i j = some u := by
    intro i j u hu
    split at hu
    · simp at hu
    · exact hu
  refine { h with
      closing_closed := ?_, thread_id_eq := ?_, thread_opened := ?_, fresh := ?_, serial_le := ?_,
      waits := ?_, present := ?_, place_unique := ?_, calls_nodup := ?_, replied := ?_ }
  · intro i hi
    rcases contains_insert_iff.mp hi with rfl | hi
    · exact hclosed
    · exact h.closing_closed i hi
  · exact fun i j u hu => h.thread_id_eq i j u (hthread i j u hu)
  · exact fun i j u hu => h.thread_opened i j u (hthread i j u hu)
  · exact fun i j u n hu => h.fresh i j u n (hthread i j u hu)
  · exact fun d place hd => h.serial_le d place (hat d place hd)
  · exact fun d place hd u hu => h.waits d place (hat d place hd) u (hthread _ _ u hu)
  · intro d place hd hcaller
    have hne : id ≠ d.caller := fun heq => hclosed.1 (by rw [heq]; exact hcaller)
    show (if id = d.caller then none else v.threads d.caller d.thread_id : Option Thread).isSome
    rw [if_neg hne]
    exact h.present d place (hat d place hd) hcaller
  · exact fun d d' place place' hd hd' =>
      h.place_unique d d' place place' (hat d place hd) (hat d' place' hd')
  · intro i c hc
    rcases getElem?_insert_cases hc with ⟨-, rfl⟩ | ⟨-, hc⟩
    · have hnodup := h.calls_nodup id _ hid
      exact hnodup
    · exact h.calls_nodup i c hc
  · intro i p hp hreply n hn
    have hp : p ∈ v.pending i := by
      by_cases hi : id = i
      · simp [hi] at hp
      · simpa [hi] using hp
    obtain ⟨hle, hnot⟩ := h.replied i p hp hreply n hn
    exact ⟨hle, fun d place hd => hnot d place (hat d place hd)⟩

end

/-- The callers a `close` of `id` has to notify: those of the calls it takes that are
registered still. -/
def View.callers_of (v : View) (id : ConnectionId) : List DeadCaller :=
  (take_target v.calls id).1.filterMap fun (call, route) =>
    if route.sender ∈ v.owners.erase id then some ⟨call, route.thread_id, route.sender⟩ else none

theorem View.mem_callers_of {d : DeadCaller} :
    d ∈ v.callers_of id ↔ d.caller ∈ v.owners.erase id ∧
      ∃ target, v.calls.routes[d.call]? = some ⟨d.caller, d.thread_id, target⟩ ∧
        target.owner = id := by
  obtain ⟨call, thread_id, caller⟩ := d
  unfold View.callers_of take_target
  simp only [List.mem_filterMap, List.mem_filter, decide_eq_true_eq]
  constructor
  · rintro ⟨⟨c, ⟨sender, thread, target⟩⟩, ⟨hmem, htarget⟩, hd⟩
    dsimp only at hd htarget
    split at hd
    · next hsender =>
      obtain ⟨rfl, rfl, rfl⟩ : c = call ∧ thread = thread_id ∧ sender = caller := by
        simpa using hd
      exact ⟨hsender, target, mem_toList_iff_getElem?_eq_some.mp hmem, htarget⟩
    · simp at hd
  · rintro ⟨hcaller, target, hroute, htarget⟩
    refine ⟨(call, ⟨caller, thread_id, target⟩),
      ⟨mem_toList_iff_getElem?_eq_some.mpr hroute, htarget⟩, ?_⟩
    exact if_pos hcaller

/-- Each call of the table has one entry, so no caller is notified twice. -/
theorem View.callers_of_nodup (id : ConnectionId) :
    ((v.callers_of id).map DeadCaller.call).Nodup := by
  have hkeys : (take_target v.calls id).1.Pairwise fun e e' => ¬ compare e.1 e'.1 = .eq :=
    Std.ExtTreeMap.distinct_keys_toList.filter _
  refine List.pairwise_map.mpr (hkeys.filterMap _ fun e e' hne d hd _ hd' hcall => ?_)
  -- an entry keeps its key, so equal calls would be equal keys
  obtain ⟨-, hd⟩ := Option.ite_none_right_eq_some.mp hd
  obtain ⟨-, hd'⟩ := Option.ite_none_right_eq_some.mp hd'
  rw [← Option.some.inj hd, ← Option.some.inj hd'] at hcall
  exact hne (by rw [show e.1 = e'.1 from hcall]; exact Std.ReflCmp.compare_self)

/-- A connection is closed: its routes are taken, and their callers are to be notified. -/
theorem CallInv.close (h : CallInv v) (hid : id ∈ v.owners)
    (hv' : v' = { v with
      owners := v.owners.erase id
      calls := (take_target v.calls id).2
      closing := v.closing.insert id ⟨false, v.callers_of id⟩ }) : CallInv v' := by
  have hroute : ∀ (c : CallId) route, (take_target v.calls id).2.routes[c]? = some route ↔
      v.calls.routes[c]? = some route ∧ route.target.owner ≠ id := by
    intro c route
    simp [take_target, Std.ExtTreeMap.getElem?_filter, Option.filter_eq_some_iff]
  -- a call is where it was, or has moved from the table to this `close`
  have hat : ∀ d place, v'.At d place →
      (v.At d place ∧ place ≠ .closing id ∧
        (place = .table → ∀ target, v.calls.routes[d.call]? =
          some ⟨d.caller, d.thread_id, target⟩ → target.owner ≠ id)) ∨
      (place = .closing id ∧ d ∈ v.callers_of id) := by
    subst hv'
    rintro d (_ | i) hd
    · obtain ⟨target, hd⟩ := hd
      obtain ⟨hd, hne⟩ := (hroute _ _).mp hd
      refine .inl ⟨⟨target, hd⟩, by simp, fun _ _ hd' => ?_⟩
      rw [hd] at hd'
      simp only [Option.some.injEq, CallRoute.mk.injEq, true_and] at hd'
      rwa [← hd']
    · obtain ⟨dropped, dead, hi, hmem⟩ := hd
      rcases getElem?_insert_cases hi with ⟨rfl, heq⟩ | ⟨hne, hi⟩
      · injection heq with _ heq
        exact .inr ⟨rfl, heq ▸ hmem⟩
      · refine .inl ⟨⟨dropped, dead, hi, hmem⟩, ?_, by simp⟩
        rintro ⟨rfl⟩
        exact hne rfl
  have hback : ∀ d place, v'.At d place → ∃ place', v.At d place' := by
    intro d place hd
    rcases hat d place hd with ⟨hd, -⟩ | ⟨-, hmem⟩
    · exact ⟨place, hd⟩
    · obtain ⟨-, target, hd, -⟩ := View.mem_callers_of.mp hmem
      exact ⟨.table, target, hd⟩
  -- a call this `close` has taken is nowhere else
  have hmoved : ∀ d d' place, d ∈ v.callers_of id → v.At d' place → d.call = d'.call →
      d = d' ∧ place = .table ∧ ∃ target, v.calls.routes[d'.call]? =
        some ⟨d'.caller, d'.thread_id, target⟩ ∧ target.owner = id := by
    intro d d' place hmem hd' hcall
    obtain ⟨-, target, hd, htarget⟩ := View.mem_callers_of.mp hmem
    obtain ⟨rfl, hplace⟩ := h.place_unique d d' .table place ⟨target, hd⟩ hd' hcall
    exact ⟨rfl, hplace.symm, target, hd, htarget⟩
  refine h.move hv' (Finset.erase_subset _ _) ?_ hback ?_ ?_ ?_
  · intro i hi
    rcases contains_insert_iff.mp hi with rfl | hi
    · exact ⟨Finset.notMem_erase _ _, h.owner_opened _ hid⟩
    · obtain ⟨hclosed, hopened⟩ := h.closing_closed i hi
      exact ⟨fun hmem => hclosed (Finset.mem_of_mem_erase hmem), hopened⟩
  · intro d d' place place' hd hd' hcall
    rcases hat d place hd with ⟨hd, -, hkept⟩ | ⟨rfl, hmem⟩
    · rcases hat d' place' hd' with ⟨hd', -, -⟩ | ⟨rfl, hmem'⟩
      · exact h.place_unique d d' place place' hd hd' hcall
      · obtain ⟨-, rfl, target, hroute, htarget⟩ := hmoved d' d place hmem' hd hcall.symm
        exact absurd htarget (hkept rfl target hroute)
    · rcases hat d' place' hd' with ⟨hd', -, hkept⟩ | ⟨rfl, hmem'⟩
      · obtain ⟨-, rfl, target, hroute, htarget⟩ := hmoved d d' place' hmem hd' hcall
        exact absurd htarget (hkept rfl target hroute)
      · obtain ⟨-, target, hd', -⟩ := View.mem_callers_of.mp hmem'
        exact ⟨(hmoved d d' .table hmem ⟨target, hd'⟩ hcall).1, rfl⟩
  · intro i c hc
    rcases getElem?_insert_cases hc with ⟨-, rfl⟩ | ⟨-, hc⟩
    · exact View.callers_of_nodup id
    · exact h.calls_nodup i c hc
  · intro c route hc
    obtain ⟨hc, hne⟩ := (hroute c route).mp hc
    exact Finset.mem_erase.mpr ⟨hne, h.target_open c route hc⟩

/-- A `close` is done with the first of its callers. -/
theorem CallInv.pop (h : CallInv v) {dead : DeadCaller}
    {rest : List DeadCaller} (hid : v.closing[id]? = some ⟨true, dead :: rest⟩) :
    CallInv { v with closing := v.closing.insert id ⟨true, rest⟩ } ∧
      ∀ d place, View.At { v with closing := v.closing.insert id ⟨true, rest⟩ } d place →
        v.At d place ∧ d.call ≠ dead.call := by
  have hdead : v.At dead (.closing id) := ⟨true, dead :: rest, hid, List.mem_cons_self⟩
  have hnodup := h.calls_nodup id _ hid
  have hat : ∀ d place, View.At { v with closing := v.closing.insert id ⟨true, rest⟩ } d place →
      v.At d place ∧ d.call ≠ dead.call := by
    rintro d (_ | i) hd
    · refine ⟨hd, fun hcall => ?_⟩
      exact absurd (h.place_unique d dead .table (.closing id) hd hdead hcall).2 (by simp)
    · obtain ⟨dropped, dead', hi, hmem⟩ := hd
      rcases getElem?_insert_cases hi with ⟨rfl, heq⟩ | ⟨hne, hi⟩
      · injection heq with _ heq
        rw [heq] at hmem
        refine ⟨⟨true, dead :: rest, hid, List.mem_cons_of_mem _ hmem⟩, fun hcall => ?_⟩
        rw [List.map_cons, List.nodup_cons] at hnodup
        exact hnodup.1 (List.mem_map.mpr ⟨d, hmem, hcall⟩)
      · refine ⟨⟨dropped, dead', hi, hmem⟩, fun hcall => ?_⟩
        have hplace := (h.place_unique d dead (.closing i) (.closing id)
          ⟨dropped, dead', hi, hmem⟩ hdead hcall).2
        exact hne (Place.closing.inj hplace)
  refine ⟨?_, hat⟩
  refine h.move rfl (Finset.Subset.refl _) ?_ (fun d place hd => ⟨place, (hat d place hd).1⟩)
    (fun d d' place place' hd hd' => h.place_unique d d' place place' (hat d place hd).1
      (hat d' place' hd').1) ?_ h.target_open
  · intro i hi
    rcases contains_insert_iff.mp hi with rfl | hi
    · exact h.closing_closed id (contains_of_some hid)
    · exact h.closing_closed i hi
  · intro i c hc
    rcases getElem?_insert_cases hc with ⟨-, rfl⟩ | ⟨-, hc⟩
    · rw [List.map_cons, List.nodup_cons] at hnodup
      exact hnodup.2
    · exact h.calls_nodup i c hc

end Changes

end DarwinArt.Binder.Registry
