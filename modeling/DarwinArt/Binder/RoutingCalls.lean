/-
How the calls between connections end.

A synchronous call that the authority accepts ends for its caller with a reply or with the
death of its target, and for its target possibly with the death of the caller. The order in
which the parties reply and close is theirs. For one call, every event does one of four
things (`Effect`), and a run takes the call through three stages (`Life`).
-/
import DarwinArt.Binder.RoutingInvariant

set_option autoImplicit false

namespace DarwinArt.Binder.RoutingAuthority

open Lib

open Event Outbound

/-! ## What is said about a call -/

/-- The connection and the thread that a message tells of the end of the call. -/
def Outbound.terminal (call : CallToken) (o : Outbound) : Option (ConnectionToken × UInt64) :=
  match o.message with
  | .DeliverReply call' _ _ _ target_thread _ _ _ =>
    if call' = call then some (o.destination, target_thread) else none
  | .TargetDead call' target_thread =>
    if call' = call then some (o.destination, target_thread) else none
  | _ => none

/-- The connection that a message tells of the death of the caller. -/
def Outbound.caller_death (call : CallToken) (o : Outbound) : Option ConnectionToken :=
  match o.message with
  | .CallerDead call' => if call' = call then some o.destination else none
  | _ => none

/-- What a run says, read from the messages it sends, in order. -/
def heard {α : Type} (read : Outbound → Option α) (es : List Event) : List α :=
  es.flatMap fun e => e.emitted.filterMap read

/-- Whom a run tells of the end of the call. -/
def terminals (call : CallToken) (es : List Event) : List (ConnectionToken × UInt64) :=
  heard (Outbound.terminal call) es

/-- Whom a run tells of the death of the caller. -/
def caller_deaths (call : CallToken) (es : List Event) : List ConnectionToken :=
  heard (Outbound.caller_death call) es

/-- The call an event accepts, with its route. -/
def Event.routes (e : Event) : Option (CallToken × CallRoute) :=
  match e.op, e.accepted with
  | .route_transaction sender target caller_thread _ _ _ _, some call =>
    some (call, ⟨sender.connection, caller_thread, target⟩)
  | _, _ => none

/-- The event takes the reply to the call. -/
def Event.Replies (e : Event) (call : CallToken) : Prop :=
  ∃ replier transfer code flags outbound,
    e.op = .complete_reply replier call transfer code flags ∧ e.result = .ok (.Replied outbound)

/-- The event closes the connection. -/
def Event.Closes (e : Event) (connection : ConnectionToken) : Prop :=
  ∃ session memory, e.op = .close session memory ∧ session.connection = connection

theorem heard_append {α : Type} (read : Outbound → Option α) (es es' : List Event) :
    heard read (es ++ es') = heard read es ++ heard read es' :=
  List.flatMap_append

theorem heard_singleton {α : Type} (read : Outbound → Option α) (e : Event) :
    heard read [e] = e.emitted.filterMap read := by
  simp [heard]

variable {e : Event} {s : RoutingAuthority} {fs gs : List Event} {o : Outbound}

theorem heard_silent {α : Type} (read : Outbound → Option α) (h : e.emitted = []) :
    heard read [e] = [] := by
  rw [heard_singleton, h, List.filterMap_nil]

theorem Event.routes_none (h : e.accepted = none) : e.routes = none := by
  unfold routes
  rw [h]
  split
  · next heq => cases heq
  · rfl

/-! ## What one event does to a call -/

/-- What an event does to the call. -/
inductive Effect (call : CallToken) (e : Event) : Prop
  /-- Nothing that the call or its caller would notice. -/
  | quiet (hroutes : ∀ route, e.routes ≠ some (call, route)) (hreplies : ¬ e.Replies call)
      (hcalls : e.after.calls[call]? = e.before.calls[call]?)
      (hlive : ∀ route, e.before.calls[call]? = some route →
        e.after.connections.contains route.sender = e.before.connections.contains route.sender)
      (hterminals : terminals call [e] = []) (hdeaths : caller_deaths call [e] = [])
  | routed {route : CallRoute} (hroutes : e.routes = some (call, route))
      (hnew : call.raw = e.before.next_call + 1) (hreplies : ¬ e.Replies call)
      (hcalls : e.after.calls[call]? = some route)
      (hlive : e.after.connections.contains route.sender = true)
      (hterminals : terminals call [e] = []) (hdeaths : caller_deaths call [e] = [])
  /-- The route goes, and the caller hears of it at most once. -/
  | ended {route : CallRoute} (hroutes : ∀ route, e.routes ≠ some (call, route))
      (hbefore : e.before.calls[call]? = some route) (hafter : e.after.calls[call]? = none)
      (hterminals : terminals call [e] = [] ∨
        terminals call [e] = [(route.sender, route.caller_thread)])
      (hdeaths : caller_deaths call [e] = [])
  /-- The caller closes, the target hears of it, and the route stays for the late reply. -/
  | caller_died {route : CallRoute} (hroutes : ∀ route, e.routes ≠ some (call, route))
      (hreplies : ¬ e.Replies call) (hcloses : e.Closes route.sender)
      (hbefore : e.before.calls[call]? = some route)
      (hafter : e.after.calls[call]? = some route)
      (hlive : e.before.connections.contains route.sender = true)
      (hgone : e.after.connections.contains route.sender = false)
      (hterminals : terminals call [e] = [])
      (hdeaths : caller_deaths call [e] = [route.target.owner])

section Effects

variable {e : Event} {call : CallToken}

/-- An event without messages that leaves the calls and the callers alone. -/
theorem Effect.silent (haccepted : e.accepted = none)
    (hreplied : ∀ outbound, e.result ≠ .ok (.Replied outbound))
    (hcalls : e.after.calls = e.before.calls)
    (hlive : ∀ route, e.before.calls[call]? = some route →
      e.after.connections.contains route.sender = e.before.connections.contains route.sender)
    (hemitted : e.emitted = []) : Effect call e := by
  apply Effect.quiet
  · intro route
    rw [routes_none haccepted]
    simp
  · rintro ⟨_, _, _, _, outbound, -, hresult⟩
    exact hreplied outbound hresult
  · rw [hcalls]
  · exact hlive
  · exact heard_silent _ hemitted
  · exact heard_silent _ hemitted

variable {session : Session} {outcome : RouteOutcome} {caller_thread : UInt64}
  {transfer : TransferToken} {flags : UInt32}

section

variable (hemitted : e.emitted =
  e.before.call_notices session.connection ++ e.before.close_deaths session.connection)
include hemitted

/-- A close says about one call what its notice says. -/
theorem heard_close {α : Type} {read : Outbound → Option α}
    (hnode : ∀ destination cookie, read ⟨destination, .NodeDead cookie⟩ = none)
    (hother : ∀ call' route, call' ≠ call →
      (e.before.notice session.connection call' route).bind read = none) :
    heard read [e] = ((e.before.calls[call]?).bind fun route =>
      (e.before.notice session.connection call route).bind read).toList := by
  have hdeaths : (e.before.close_deaths session.connection).filterMap read = [] := by
    rw [List.filterMap_eq_nil_iff]
    intro o ho
    obtain ⟨⟨_, _⟩, -, hkey⟩ := List.mem_filterMap.mp ho
    obtain ⟨-, hkey⟩ := Option.ite_none_right_eq_some.mp hkey
    cases hkey
    exact hnode _ _
  rw [heard_singleton, hemitted, List.filterMap_append, hdeaths, List.append_nil]
  unfold call_notices
  rw [List.filterMap_filterMap, filterMap_toList_of_key _ call]
  intro entry hne
  exact hother entry.1 entry.2 hne

theorem terminals_close
    :
    terminals call [e] = ((e.before.calls[call]?).bind fun route =>
      (e.before.notice session.connection call route).bind (Outbound.terminal call)).toList := by
  apply heard_close hemitted
  · intro destination cookie
    rfl
  · intro call' route hne
    unfold notice
    split <;> simp [terminal, hne]

theorem caller_deaths_close
    :
    caller_deaths call [e] = ((e.before.calls[call]?).bind fun route =>
      (e.before.notice session.connection call route).bind (Outbound.caller_death call)).toList := by
  apply heard_close hemitted
  · intro destination cookie
    rfl
  · intro call' route hne
    unfold notice
    split <;> simp [caller_death, hne]

end

/-- A close, for one call. -/
theorem Effect.close {memory : CloseMemory} (hop : e.op = .close session memory)
    (hresult : ∀ outbound, e.result ≠ .ok (.Replied outbound)) (haccepted : e.accepted = none)
    (hconn : e.before.connections.contains session.connection = true)
    (hafter : e.after = e.before.closed session.connection)
    (hemitted : e.emitted = e.before.call_notices session.connection ++
      e.before.close_deaths session.connection) : Effect call e := by
  have hroutes : ∀ route, e.routes ≠ some (call, route) := by
    intro route
    rw [routes_none haccepted]
    simp
  have hreplies : ¬ e.Replies call := by
    rintro ⟨_, _, _, _, outbound, -, hreplied⟩
    exact hresult outbound hreplied
  have hterminals : terminals call [e] = _ := terminals_close hemitted
  have hdeaths : caller_deaths call [e] = _ := caller_deaths_close hemitted
  have hcalls : e.after.calls[call]? =
      (e.before.calls[call]?).filter (e.before.kept session.connection) := by
    rw [hafter]
    exact (close_calls_eq e.before session.connection).1 call
  cases hroute : e.before.calls[call]? with
  | none =>
    rw [hroute] at hterminals hdeaths hcalls
    refine .quiet hroutes hreplies (hcalls.trans hroute.symm) ?_ hterminals hdeaths
    intro route hsome
    rw [hroute] at hsome
    cases hsome
  | some route =>
    rw [hroute] at hterminals hdeaths hcalls
    rw [Option.bind_some] at hterminals hdeaths
    by_cases htouches : touches session.connection route
    · cases hfate : e.before.fate session.connection route with
      | TargetDead =>
        refine .ended hroutes hroute ?_ (.inr ?_) ?_
        · rw [hcalls]
          simp [kept, htouches, hfate, Option.filter]
        · rw [hterminals]
          simp [notice, hfate, terminal]
        · rw [hdeaths]
          simp [notice, hfate, caller_death]
      | CallerDead =>
        obtain ⟨hsender, hne, _⟩ := fate_eq_callerDead.mp hfate
        rw [← hsender] at hconn
        refine .caller_died hroutes hreplies ⟨session, memory, hop, hsender.symm⟩ hroute ?_ hconn
          ?_ ?_ ?_
        · rw [hcalls]
          simp [kept, hfate, Option.filter]
        · rw [hafter, hsender]
          show (e.before.connections.erase session.connection).contains _ = false
          simp
        · rw [hterminals]
          simp [notice, hfate, terminal]
        · rw [hdeaths]
          simp [notice, hfate, caller_death]
      | Dropped =>
        refine .ended hroutes hroute ?_ (.inl ?_) ?_
        · rw [hcalls]
          simp [kept, htouches, hfate, Option.filter]
        · rw [hterminals]
          simp [notice, hfate]
        · rw [hdeaths]
          simp [notice, hfate]
    · have hfate : e.before.fate session.connection route = .Dropped := fate_of_not_touches htouches
      refine .quiet hroutes hreplies ?_ ?_ ?_ ?_
      · rw [hcalls, hroute]
        simp [kept, htouches, Option.filter]
      · intro route' hroute'
        rw [hroute] at hroute'
        rw [← Option.some.inj hroute', hafter]
        show (e.before.connections.erase session.connection).contains route.sender = _
        have hne : session.connection ≠ route.sender := fun heq => htouches (.inl heq.symm)
        rw [Std.ExtTreeMap.contains_erase]
        simp [hne]
      · rw [hterminals]
        simp [notice, hfate]
      · rw [hdeaths]
        simp [notice, hfate]

/-- A delivery is not the end of a call. -/
theorem heard_delivery {call' : Option CallToken} {sender : ConnectionToken}
    {code : UInt32} (hresult : e.result = .ok (.Routed outcome))
    (hmessage : ∃ pid euid localNode, outcome.delivery.message = .DeliverTransaction call' sender
      pid euid localNode caller_thread transfer code flags) :
    terminals call [e] = [] ∧ caller_deaths call [e] = [] := by
  obtain ⟨_, _, _, hmessage⟩ := hmessage
  have hemitted : e.emitted = [outcome.delivery] := by
    unfold emitted
    rw [hresult]
  unfold terminals caller_deaths
  rw [heard_singleton, heard_singleton, hemitted]
  simp [terminal, caller_death, hmessage]

/-- A call is routed: it is the one, or the event has nothing to do with the one. -/
theorem Effect.route {sender : Session} {target : NodeToken} {code : UInt32} {memory : Bool}
    {new : CallToken}
    (hop : e.op = .route_transaction sender target caller_thread transfer code flags memory)
    (hresult : e.result = .ok (.Routed outcome)) (hnew : new.raw = e.before.next_call + 1)
    (hmessage : ∃ pid euid localNode, outcome.delivery.message = .DeliverTransaction (some new)
      sender.connection pid euid localNode caller_thread transfer code flags)
    (hack : outcome.acknowledgement = .RouteAccepted (some new))
    (hsender : e.before.connections.contains sender.connection = true)
    (hafter : e.after = { e.before with
      calls := e.before.calls.insert new ⟨sender.connection, caller_thread, target⟩
      next_call := new.raw }) : Effect call e := by
  have hroutes : e.routes = some (new, ⟨sender.connection, caller_thread, target⟩) := by
    unfold routes accepted
    rw [hop, hresult]
    obtain ⟨acknowledgement, _⟩ := outcome
    have hack : acknowledgement = .RouteAccepted (some new) := hack
    subst hack
    rfl
  have hreplies : ¬ e.Replies call := by
    rintro ⟨_, _, _, _, _, -, hreplied⟩
    rw [hresult] at hreplied
    cases hreplied
  obtain ⟨hterminals, hdeaths⟩ : terminals call [e] = [] ∧ caller_deaths call [e] = [] :=
    heard_delivery hresult hmessage
  rcases eq_or_ne new call with rfl | hcall
  · refine .routed hroutes hnew hreplies ?_ ?_ hterminals hdeaths
    · rw [hafter]
      exact getElem?_insert_self
    · rwa [hafter]
  · refine .quiet ?_ hreplies ?_ ?_ hterminals hdeaths
    · intro route heq
      rw [hroutes] at heq
      exact hcall (Prod.mk.inj (Option.some.inj heq)).1
    · rw [hafter]
      show (e.before.calls.insert new _)[call]? = _
      exact getElem?_insert_ne hcall
    · intro route hroute
      rw [hafter]

/-- A reply is taken. -/
theorem Effect.reply {replier : Session} {call' : CallToken}
    {code : UInt32} {outbound : Option Outbound} {route : CallRoute}
    (hop : e.op = .complete_reply replier call' transfer code flags)
    (hresult : e.result = .ok (.Replied outbound)) (hroute : e.before.calls[call']? = some route)
    (houtbound : outbound = none ∨ ∃ pid euid, outbound = some ⟨route.sender, .DeliverReply call'
      replier.connection pid euid route.caller_thread transfer code flags⟩)
    (hafter : e.after = { e.before with calls := e.before.calls.erase call' }) :
    Effect call e := by
  have hroutes : ∀ route, e.routes ≠ some (call, route) := by
    intro route
    have haccepted : e.accepted = none := by
      unfold accepted
      rw [hresult]
    rw [routes_none haccepted]
    simp
  have hemitted : e.emitted = outbound.toList := by
    unfold emitted
    rw [hresult]
    cases outbound <;> rfl
  have hdeaths : caller_deaths call [e] = [] := by
    unfold caller_deaths
    rw [heard_singleton, hemitted]
    rcases houtbound with hnone | ⟨pid, euid, hsome⟩
    · simp [hnone]
    · simp [hsome, caller_death]
  rcases eq_or_ne call' call with rfl | hcall
  · refine .ended hroutes hroute ?_ ?_ hdeaths
    · rw [hafter]
      exact getElem?_erase_self
    · unfold terminals
      rw [heard_singleton, hemitted]
      rcases houtbound with hnone | ⟨pid, euid, hsome⟩
      · exact .inl (by simp [hnone])
      · exact .inr (by simp [hsome, terminal])
  · refine .quiet hroutes ?_ ?_ ?_ ?_ hdeaths
    · rintro ⟨_, _, _, _, _, hop', -⟩
      rw [hop] at hop'
      injection hop' with _ heq
      exact hcall heq
    · rw [hafter]
      show (e.before.calls.erase call')[call]? = _
      exact getElem?_erase_ne hcall
    · intro route' _
      rw [hafter]
    · unfold terminals
      rw [heard_singleton, hemitted]
      rcases houtbound with hnone | ⟨pid, euid, hsome⟩
      · simp [hnone]
      · simp [hsome, terminal, hcall]

/-- **Every event has one of these effects on every call.** -/
theorem Event.effect (hwf : Wf e.before) (call : CallToken) : Effect call e := by
  have hc := e.change
  obtain ⟨op, hop⟩ : ∃ op, e.op = op := ⟨_, rfl⟩
  obtain ⟨result, hresult⟩ : ∃ result, e.result = result := ⟨_, rfl⟩
  obtain ⟨after, hafter⟩ : ∃ after, e.after = after := ⟨_, rfl⟩
  rw [hop, hresult, hafter] at hc
  -- what the operations that emit nothing have in common
  have hsilent : (∀ outcome, result ≠ .ok (.Routed outcome)) →
      (∀ outbound, result ≠ .ok (.Replied outbound)) →
      (∀ outcome, result ≠ .ok (.Closed outcome)) → after.calls = e.before.calls →
      (∀ c : ConnectionToken, c.raw ≤ e.before.next_connection →
        after.connections.contains c = e.before.connections.contains c) → Effect call e := by
    intro hrouted hreplied hclosed hcalls hlive
    apply Effect.silent
    · unfold accepted
      rw [hresult]
      split
      · exact absurd rfl (hrouted _)
      · rfl
    · rwa [hresult]
    · rwa [hafter]
    · intro route hroute
      rw [hafter]
      exact hlive _ (hwf.sender_le call route hroute)
    · unfold emitted
      rw [hresult]
      split
      · exact absurd rfl (hrouted _)
      · exact absurd rfl (hreplied _)
      · exact absurd rfl (hclosed _)
      · rfl
  have hinsert : ∀ (c : ConnectionToken) (connection connection' : ConnectionState),
      e.before.connections[c]? = some connection → ∀ c' : ConnectionToken,
      (e.before.connections.insert c connection').contains c' =
        e.before.connections.contains c' := by
    intro c connection connection' hconn c'
    rcases eq_or_ne c c' with rfl | heq
    · rw [contains_of_some hconn]
      simp
    · rw [contains_insert]
      simp [heq]
  cases hc with
  | failed | uid_bound | death_requested | death_cleared =>
    exact hsilent (by simp) (by simp) (by simp) rfl fun _ _ => rfl
  | read hreply =>
    rcases hreply with ⟨peer, hreply⟩ | ⟨_, hreply⟩
    · subst hreply
      exact hsilent (by simp) (by simp) (by simp) rfl fun _ _ => rfl
    · subst hreply
      exact hsilent (by simp) (by simp) (by simp) rfl fun _ _ => rfl
  | @opened peer memory connection hnext =>
    refine hsilent (by simp) (by simp) (by simp) rfl fun c _ => ?_
    show (e.before.connections.insert connection _).contains c = _
    have hne : connection ≠ c := by
      intro heq
      rw [heq] at hnext
      omega
    rw [contains_insert]
    simp [hne]
  | published hconn | manager_set hconn =>
    exact hsilent (by simp) (by simp) (by simp) rfl fun c _ => hinsert _ _ _ hconn c
  | @routed_oneway sender target caller_thread transfer code flags memory outcome _ hmessage hack =>
    obtain ⟨hterminals, hdeaths⟩ : terminals call [e] = [] ∧ caller_deaths call [e] = [] :=
      heard_delivery hresult hmessage
    refine .quiet ?_ ?_ (by rw [hafter]) (fun _ _ => by rw [hafter]) hterminals hdeaths
    · intro route
      have haccepted : e.accepted = none := by
        unfold accepted
        rw [hresult]
        obtain ⟨acknowledgement, _⟩ := outcome
        have hack : acknowledgement = .RouteAccepted none := hack
        rw [hack]
      rw [routes_none haccepted]
      simp
    · rintro ⟨_, transfer, code, flags, outbound, -, hreplied⟩
      rw [hresult] at hreplied
      cases hreplied
  | routed hnext _ hmessage hack hsender =>
    exact Effect.route hop hresult hnext hmessage hack hsender hafter
  | reply_dropped hroute =>
    exact Effect.reply hop hresult hroute (.inl rfl) hafter
  | replied hroute =>
    exact Effect.reply hop hresult hroute (.inr ⟨_, _, rfl⟩) hafter
  | @closed session memory hconn =>
    refine Effect.close hop ?_ ?_ hconn hafter ?_
    · rw [hresult]
      simp
    · unfold accepted
      rw [hresult]
    · unfold emitted
      rw [hresult]

end Effects

/-! ## The life of a call -/

/-- What has been said about a call so far, and where it stands. -/
inductive Life (call : CallToken) (es : List Event) (s : RoutingAuthority) : Prop
  | fresh (hnew : s.next_call < call.raw)
      (hroutes : ∀ e ∈ es, ∀ route, e.routes ≠ some (call, route))
      (hreplies : ∀ e ∈ es, ¬ e.Replies call) (hterminals : terminals call es = [])
      (hdeaths : caller_deaths call es = [])
  | outstanding {route : CallRoute} (hrouted : ∃ e ∈ es, e.routes = some (call, route))
      (hroutes : ∀ e ∈ es, ∀ route', e.routes = some (call, route') → route' = route)
      (hcalls : s.calls[call]? = some route) (hreplies : ∀ e ∈ es, ¬ e.Replies call)
      (hterminals : terminals call es = [])
      (hcaller : (s.connections.contains route.sender = true ∧ caller_deaths call es = []) ∨
        (s.connections.contains route.sender = false ∧
          caller_deaths call es = [route.target.owner]))
  | finished {route : CallRoute}
      (hroutes : ∀ e ∈ es, ∀ route', e.routes = some (call, route') → route' = route)
      (hcalls : s.calls[call]? = none) (hle : call.raw ≤ s.next_call)
      (hterminals : terminals call es = [] ∨
        terminals call es = [(route.sender, route.caller_thread)])
      (hdeaths : caller_deaths call es = [] ∨ caller_deaths call es = [route.target.owner])

/-- A call that is accepted is accepted with a route. -/
theorem Event.routes_of_accepted {call : CallToken} (h : e.accepted = some call) :
    ∃ route, e.routes = some (call, route) := by
  have hop : ∃ sender target caller_thread transfer code flags memory,
      e.op = .route_transaction sender target caller_thread transfer code flags memory := by
    have hc := e.change
    unfold accepted at h
    generalize e.op = op at hc
    generalize e.result = result at hc h
    generalize e.after = after at hc
    cases hc with
    | routed => exact ⟨_, _, _, _, _, _, _, rfl⟩
    | routed_oneway => exact ⟨_, _, _, _, _, _, _, rfl⟩
    | read hreply =>
      rcases hreply with ⟨_, hreply⟩ | ⟨_, hreply⟩
      · rw [hreply] at h
        cases h
      · rw [hreply] at h
        cases h
    | _ => cases h
  obtain ⟨sender, target, caller_thread, transfer, code, flags, memory, hop⟩ := hop
  refine ⟨⟨sender.connection, caller_thread, target⟩, ?_⟩
  unfold routes
  rw [hop, h]

/-- The counter stays below a call that the event does not accept. -/
theorem Event.next_call_lt {call : CallToken} (h : e.before.next_call < call.raw)
    (hroutes : ∀ route, e.routes ≠ some (call, route)) : e.after.next_call < call.raw := by
  rcases e.accepted_next with ⟨-, hsame⟩ | ⟨c, haccepted, _, _⟩
  · rwa [hsame]
  · by_cases heq : c = call
    · rw [heq] at haccepted
      obtain ⟨route, hroute⟩ := routes_of_accepted haccepted
      exact absurd hroute (hroutes route)
    · have hne : c.raw ≠ call.raw := fun hraw => heq (Token.ext hraw)
      omega

theorem Event.next_call_mono (e : Event) : e.before.next_call ≤ e.after.next_call := by
  rcases e.accepted_next with ⟨-, _⟩ | ⟨c, -, _, _⟩
  · omega
  · omega

variable {es : List Event} {identity : ℕ}

/-- A fact about the events so far and the last one. -/
theorem forall_snoc {P : Event → Prop} (h : ∀ x ∈ es, P x) (he : P e) : ∀ x ∈ es ++ [e], P x := by
  intro x hx
  rcases List.mem_append.mp hx with hx | hx
  · exact h x hx
  · rwa [List.mem_singleton.mp hx]

/-- **One event takes a call on in its life.** -/
theorem Life.step {call : CallToken} (hwf : Wf e.before)
    (h : Life call es e.before) : Life call (es ++ [e]) e.after := by
  have hterminals' : terminals call (es ++ [e]) = terminals call es ++ terminals call [e] :=
    heard_append _ _ _
  have hdeaths' : caller_deaths call (es ++ [e]) = caller_deaths call es ++ caller_deaths call [e] :=
    heard_append _ _ _
  have hmore : ∀ {route : CallRoute}, (∃ x ∈ es, x.routes = some (call, route)) →
      ∃ x ∈ es ++ [e], x.routes = some (call, route) := by
    rintro route ⟨x, hx, hroute⟩
    exact ⟨x, List.mem_append_left _ hx, hroute⟩
  have hnone : e.before.next_call < call.raw → e.before.calls[call]? = none := by
    intro hlt
    cases hroute : e.before.calls[call]? with
    | none => rfl
    | some route =>
      have := hwf.call_le call route hroute
      omega
  cases effect hwf call with
  | quiet hroutes₁ hreplies₁ hcalls₁ hlive₁ hterminals₁ hdeaths₁ =>
    rw [hterminals₁, List.append_nil] at hterminals'
    rw [hdeaths₁, List.append_nil] at hdeaths'
    have hnot : ∀ (route : CallRoute) route', e.routes = some (call, route') → route' = route :=
      fun _ route' hroute => absurd hroute (hroutes₁ route')
    cases h with
    | fresh hnew hroutes hreplies hterminals hdeaths =>
      exact .fresh (next_call_lt hnew hroutes₁) (forall_snoc hroutes hroutes₁)
        (forall_snoc hreplies hreplies₁) (hterminals'.trans hterminals) (hdeaths'.trans hdeaths)
    | @outstanding route hrouted hroutes hcalls hreplies hterminals hcaller =>
      refine .outstanding (hmore hrouted) (forall_snoc hroutes (hnot route)) (hcalls₁.trans hcalls)
        (forall_snoc hreplies hreplies₁) (hterminals'.trans hterminals) ?_
      rwa [hlive₁ route hcalls, hdeaths']
    | @finished route hroutes hcalls hle hterminals hdeaths =>
      refine .finished (forall_snoc hroutes (hnot route)) (hcalls₁.trans hcalls)
        (hle.trans e.next_call_mono) ?_ ?_
      · rwa [hterminals']
      · rwa [hdeaths']
  | @routed route hroutes₁ hnew₁ hreplies₁ hcalls₁ hlive₁ hterminals₁ hdeaths₁ =>
    rw [hterminals₁, List.append_nil] at hterminals'
    rw [hdeaths₁, List.append_nil] at hdeaths'
    cases h with
    | fresh _ hroutes hreplies hterminals hdeaths =>
      refine .outstanding ⟨e, by simp, hroutes₁⟩ (forall_snoc ?_ ?_) hcalls₁
        (forall_snoc hreplies hreplies₁) (hterminals'.trans hterminals)
        (.inl ⟨hlive₁, hdeaths'.trans hdeaths⟩)
      · intro x hx route' hroute
        exact absurd hroute (hroutes x hx route')
      · intro route' hroute
        rw [hroutes₁] at hroute
        exact (Prod.mk.inj (Option.some.inj hroute)).2.symm
    | outstanding _ _ hcalls =>
      -- a call of the table is not new
      have := hwf.call_le call _ hcalls
      omega
    | finished => omega
  | @ended route hroutes₁ hbefore₁ hafter₁ hterminals₁ hdeaths₁ =>
    rw [hdeaths₁, List.append_nil] at hdeaths'
    cases h with
    | fresh hnew =>
      exact nomatch (hnone hnew).symm.trans hbefore₁
    | @outstanding route' hrouted hroutes hcalls hreplies hterminals hcaller =>
      have hsame : route' = route := Option.some.inj (hcalls.symm.trans hbefore₁)
      subst hsame
      rw [hterminals, List.nil_append] at hterminals'
      refine .finished (forall_snoc hroutes fun r hr => absurd hr (hroutes₁ r)) hafter₁
        ((hwf.call_le call _ hcalls).trans e.next_call_mono) ?_ ?_
      · rwa [hterminals']
      · rw [hdeaths']
        exact hcaller.imp And.right And.right
    | finished _ hcalls =>
      exact nomatch hcalls.symm.trans hbefore₁
  | @caller_died route hroutes₁ hreplies₁ hcloses₁ hbefore₁ hafter₁ hlive₁ hgone₁ hterminals₁
      hdeaths₁ =>
    rw [hterminals₁, List.append_nil] at hterminals'
    cases h with
    | fresh hnew =>
      exact nomatch (hnone hnew).symm.trans hbefore₁
    | @outstanding route' hrouted hroutes hcalls hreplies hterminals hcaller =>
      have hsame : route' = route := Option.some.inj (hcalls.symm.trans hbefore₁)
      subst hsame
      refine .outstanding (hmore hrouted) (forall_snoc hroutes fun r hr => absurd hr (hroutes₁ r)) hafter₁
        (forall_snoc hreplies hreplies₁) (hterminals'.trans hterminals) (.inr ⟨hgone₁, ?_⟩)
      -- the caller was live until now, so its death has not been told
      rcases hcaller with ⟨-, hdeaths⟩ | ⟨hdead, -⟩
      · rw [hdeaths', hdeaths, hdeaths₁, List.nil_append]
      · rw [hlive₁] at hdead
        cases hdead
    | finished _ hcalls =>
      exact nomatch hcalls.symm.trans hbefore₁

/-- **A run takes every call through its life.** -/
theorem run_life (hrun : Run Step (RoutingAuthority.new identity) es s) (call : CallToken) :
    Life call es s := by
  refine hrun.history _ ?_ ?_
  · refine .fresh ?_ (by simp) (by simp) rfl rfl
    have := call.nonzero
    show 0 < call.raw
    omega
  · rintro es s e _ hrun h ⟨hbefore, hafter⟩
    rw [← hbefore] at h hrun
    rw [← hafter]
    exact h.step (run_wf hrun).1

/-- A call is accepted once: its route is determined by the run. -/
theorem run_routes_unique (hrun : Run Step (RoutingAuthority.new identity) es s) {call : CallToken}
    {route route' : CallRoute} (h : ∃ e ∈ es, e.routes = some (call, route))
    (h' : ∃ e ∈ es, e.routes = some (call, route')) : route = route' := by
  obtain ⟨e, he, hroute⟩ := h
  obtain ⟨e', he', hroute'⟩ := h'
  cases run_life hrun call with
  | fresh _ hroutes => exact absurd hroute (hroutes e he route)
  | outstanding _ hroutes | finished hroutes =>
    rw [hroutes e he route hroute, hroutes e' he' route' hroute']

/-- What the authority was before an event of a run. -/
theorem run_before {t : RoutingAuthority}
    (hrun : Run Step s (fs ++ e :: gs) t) : Run Step s fs e.before := by
  have hpre : fs ++ [e] <+: fs ++ e :: gs := ⟨gs, by simp⟩
  obtain ⟨u, hu⟩ := hrun.through hpre
  obtain ⟨r, hr, hbefore, -⟩ := hu.last
  rwa [hbefore]

/-- The route that the table has for a call is the one it was accepted with. -/
theorem run_route_eq
    (hrun : Run Step (RoutingAuthority.new identity) (fs ++ e :: gs) s) {call : CallToken}
    {route route' : CallRoute} (hroute : ∃ x ∈ fs ++ e :: gs, x.routes = some (call, route))
    (htable : e.before.calls[call]? = some route') :
    route' = route ∧ ∀ x ∈ fs, ¬ x.Replies call := by
  have hbefore := run_before hrun
  cases run_life hbefore call with
  | fresh =>
    have := (run_wf hbefore).1.call_le call route' htable
    omega
  | @outstanding route'' hrouted _ hcalls hreplies =>
    have hsame : route'' = route' := Option.some.inj (hcalls.symm.trans htable)
    subst hsame
    obtain ⟨x, hx, hxroute⟩ := hrouted
    exact ⟨run_routes_unique hrun ⟨x, List.mem_append_left _ hx, hxroute⟩ hroute, hreplies⟩
  | finished _ hcalls => exact nomatch hcalls.symm.trans htable

/-! ## What a close says -/

def Outbound.is_target_dead (o : Outbound) : Bool :=
  match o.message with
  | .TargetDead _ _ => true
  | _ => false

def Outbound.is_node_dead (o : Outbound) : Bool :=
  match o.message with
  | .NodeDead _ => true
  | _ => false

/-- The event delivers a reply to the call. -/
def Event.DeliversReply (e : Event) (call : CallToken) : Prop :=
  ∃ o ∈ e.emitted, ∃ source pid euid target_thread transfer code flags,
    o.message = .DeliverReply call source pid euid target_thread transfer code flags

/-- The calls to `connection` that are outstanding from another live connection. -/
def callers_bereft (s : RoutingAuthority) (connection : ConnectionToken) :
    List (CallToken × CallRoute) :=
  s.calls.toList.filter fun (_, route) => route.target.owner = connection ∧
    route.sender ≠ connection ∧ s.connections.contains route.sender

/-- The subscriptions of other live connections to nodes of `connection`. -/
def mourners (s : RoutingAuthority) (connection : ConnectionToken) :
    List (Subscription × UInt64) :=
  s.deaths.toList.filter fun (key, _) => key.target.owner = connection ∧
    key.subscriber ≠ connection ∧ s.connections.contains key.subscriber

section Close

variable {s : RoutingAuthority} {connection : ConnectionToken}

theorem close_deaths_eq : s.close_deaths connection =
    (s.mourners connection).map fun (key, cookie) => ⟨key.subscriber, .NodeDead cookie⟩ := by
  unfold close_deaths mourners
  rw [← List.filterMap_eq_map, List.filterMap_filter]
  apply List.filterMap_congr
  intro entry _
  simp

/-- The notices about calls are of the two kinds. -/
theorem mem_call_notices (h : o ∈ s.call_notices connection) :
    ∃ call route, s.calls[call]? = some route ∧
      ((s.fate connection route = .TargetDead ∧
          o = ⟨route.sender, .TargetDead call route.caller_thread⟩) ∨
        (s.fate connection route = .CallerDead ∧ o = ⟨route.target.owner, .CallerDead call⟩)) := by
  obtain ⟨⟨call, route⟩, hmem, hnotice⟩ := List.mem_filterMap.mp h
  refine ⟨call, route, mem_toList_iff_getElem?_eq_some.mp hmem, ?_⟩
  dsimp only [notice] at hnotice
  split at hnotice
  · next hfate => exact .inl ⟨hfate, (Option.some.inj hnotice).symm⟩
  · next hfate => exact .inr ⟨hfate, (Option.some.inj hnotice).symm⟩
  · cases hnotice

theorem mem_close_deaths (h : o ∈ s.close_deaths connection) :
    ∃ key cookie, (key, cookie) ∈ s.mourners connection ∧
      o = ⟨key.subscriber, .NodeDead cookie⟩ := by
  rw [close_deaths_eq] at h
  obtain ⟨⟨key, cookie⟩, hmem, ho⟩ := List.mem_map.mp h
  exact ⟨key, cookie, hmem, ho.symm⟩

/-- The target-dead notices are those of the calls that lose their target. -/
theorem close_target_deads :
    (s.call_notices connection ++ s.close_deaths connection).filter Outbound.is_target_dead =
      (s.callers_bereft connection).map fun (call, route) =>
        ⟨route.sender, .TargetDead call route.caller_thread⟩ := by
  have hdeaths : (s.close_deaths connection).filter is_target_dead = [] := by
    rw [List.filter_eq_nil_iff]
    intro o ho
    obtain ⟨_, _, -, ho⟩ := mem_close_deaths ho
    rw [ho]
    simp [is_target_dead]
  rw [List.filter_append, hdeaths, List.append_nil]
  unfold call_notices callers_bereft
  rw [← List.filterMap_eq_map, List.filterMap_filter, List.filter_filterMap]
  apply List.filterMap_congr
  rintro ⟨_, route⟩ _
  by_cases hdead : s.fate connection route = .TargetDead
  · simp [notice, hdead, Option.filter, is_target_dead, fate_eq_targetDead.mp hdead]
  · rw [if_neg (by simpa using fun h₁ h₂ h₃ => hdead (fate_eq_targetDead.mpr ⟨h₁, h₂, h₃⟩))]
    dsimp only [notice]
    split
    · next hfate => exact absurd hfate hdead
    · simp [Option.filter, is_target_dead]
    · rfl

/-- The node-dead notices are those of the subscriptions. -/
theorem close_node_deads :
    (s.call_notices connection ++ s.close_deaths connection).filter Outbound.is_node_dead =
      (s.mourners connection).map fun (key, cookie) => ⟨key.subscriber, .NodeDead cookie⟩ := by
  have hcalls : (s.call_notices connection).filter is_node_dead = [] := by
    rw [List.filter_eq_nil_iff]
    intro o ho
    obtain ⟨_, _, -, ⟨-, ho⟩ | ⟨-, ho⟩⟩ := mem_call_notices ho
    · rw [ho]
      simp [is_node_dead]
    · rw [ho]
      simp [is_node_dead]
  rw [List.filter_append, hcalls, List.nil_append, List.filter_eq_self.mpr, close_deaths_eq]
  intro o ho
  obtain ⟨_, _, -, ho⟩ := mem_close_deaths ho
  rw [ho]
  rfl

/-- A close addresses connections that it leaves. -/
theorem close_addresses_live (h : o ∈ s.call_notices connection ++ s.close_deaths connection) :
    (s.closed connection).connections.contains o.destination = true := by
  show (s.connections.erase connection).contains o.destination = true
  apply contains_erase_iff.mpr
  rcases List.mem_append.mp h with h | h
  · obtain ⟨_, _, -, ⟨hfate, ho⟩ | ⟨hfate, ho⟩⟩ := mem_call_notices h
    · obtain ⟨-, hne, hlive⟩ := fate_eq_targetDead.mp hfate
      rw [ho]
      exact ⟨hne.symm, hlive⟩
    · obtain ⟨-, hne, hlive⟩ := fate_eq_callerDead.mp hfate
      rw [ho]
      exact ⟨hne.symm, hlive⟩
  · obtain ⟨_, _, hmem, ho⟩ := mem_close_deaths h
    have hkey := (List.mem_filter.mp hmem).2
    obtain ⟨-, hne, hlive⟩ := of_decide_eq_true hkey
    rw [ho]
    exact ⟨hne.symm, hlive⟩

end Close

/-- A reply is delivered by the operation of the target's owner that takes it. -/
theorem Event.delivers_reply {call : CallToken} (h : e.DeliversReply call) :
    ∃ replier transfer code flags route,
      e.op = .complete_reply replier call transfer code flags ∧
      e.before.calls[call]? = some route ∧ replier.connection = route.target.owner := by
  obtain ⟨o, ho, _, _, _, _, _, _, _, hmessage⟩ := h
  have hc := e.change
  unfold emitted at ho
  generalize e.op = op at hc
  generalize e.result = result at hc ho
  generalize e.after = after at hc
  cases hc with
  | routed _ _ hdeliver | routed_oneway _ hdeliver =>
    obtain ⟨_, _, _, hdeliver⟩ := hdeliver
    rw [List.mem_singleton.mp ho, hdeliver] at hmessage
    cases hmessage
  | @replied replier call' transfer' code' flags' route pid' euid' hroute howner hsender =>
    rw [List.mem_singleton.mp ho] at hmessage
    injection hmessage with hcall
    subst hcall
    exact ⟨replier, transfer', code', flags', route, rfl, hroute, howner.symm⟩
  | closed =>
    rcases List.mem_append.mp ho with ho | ho
    · obtain ⟨_, _, -, ⟨-, ho⟩ | ⟨-, ho⟩⟩ := mem_call_notices ho
      · rw [ho] at hmessage
        cases hmessage
      · rw [ho] at hmessage
        cases hmessage
    · obtain ⟨_, _, -, ho⟩ := mem_close_deaths ho
      rw [ho] at hmessage
      cases hmessage
  | read hreply =>
    rcases hreply with ⟨_, hreply⟩ | ⟨_, hreply⟩
    · rw [hreply] at ho
      cases ho
    · rw [hreply] at ho
      cases ho
  | _ => cases ho

/-- Who hears of the death of a caller hears of it when the caller closes. -/
theorem Event.caller_death_closes {call : CallToken} (hwf : Wf e.before)
    (h : caller_deaths call [e] ≠ []) :
    ∃ route, e.before.calls[call]? = some route ∧ e.Closes route.sender := by
  cases effect hwf call with
  | quiet _ _ _ _ _ hdeaths | routed _ _ _ _ _ _ hdeaths | ended _ _ _ _ hdeaths =>
    exact absurd hdeaths h
  | caller_died _ _ hcloses hbefore => exact ⟨_, hbefore, hcloses⟩

/-- **Calls end safely**, in every run and whatever the order of replies and closes. -/
theorem authority_calls_end_safely {identity : ℕ} {es : List Event} {s : RoutingAuthority}
    (hrun : Run Step (RoutingAuthority.new identity) es s) :
    (∀ call route, (∃ e ∈ es, e.routes = some (call, route)) →
      -- at most one end, told to the thread that called
      (terminals call es = [] ∨ terminals call es = [(route.sender, route.caller_thread)]) ∧
      -- a reply comes from the owner of the target
      (∀ e ∈ es, e.DeliversReply call → ∃ replier transfer code flags,
        e.op = .complete_reply replier call transfer code flags ∧
        replier.connection = route.target.owner) ∧
      -- at most one death of the caller, told to the owner of the target
      (caller_deaths call es = [] ∨ caller_deaths call es = [route.target.owner]) ∧
      -- and told when the caller closes before the reply
      (∀ fs e gs, es = fs ++ e :: gs → caller_deaths call [e] ≠ [] →
        e.Closes route.sender ∧ ∀ x ∈ fs, ¬ x.Replies call)) ∧
    -- a close says exactly this, to live connections only
    (∀ e ∈ es, ∀ session memory outcome, e.op = .close session memory →
      e.result = .ok (.Closed outcome) →
      outcome.notifications.filter Outbound.is_target_dead =
        ((e.before.callers_bereft session.connection).map fun (call, route) =>
          ⟨route.sender, .TargetDead call route.caller_thread⟩) ∧
      outcome.notifications.filter Outbound.is_node_dead =
        ((e.before.mourners session.connection).map fun (key, cookie) =>
          ⟨key.subscriber, .NodeDead cookie⟩) ∧
      ∀ o ∈ outcome.notifications, e.after.connections.contains o.destination = true) := by
  refine ⟨?_, ?_⟩
  · intro call route hrouted
    obtain ⟨e₀, he₀, hroute⟩ := hrouted
    refine ⟨?_, ?_, ?_, ?_⟩
    · cases run_life hrun call with
      | fresh _ hroutes => exact absurd hroute (hroutes e₀ he₀ route)
      | outstanding _ _ _ _ hterminals => exact .inl hterminals
      | finished hroutes _ _ hterminals =>
        rwa [hroutes e₀ he₀ route hroute]
    · intro e he hdelivers
      obtain ⟨replier, transfer, code, flags, route', hop, htable, howner⟩ :=
        delivers_reply hdelivers
      obtain ⟨fs, gs, hes⟩ := List.append_of_mem he
      subst hes
      obtain ⟨hsame, -⟩ := run_route_eq hrun ⟨e₀, he₀, hroute⟩ htable
      rw [hsame] at howner
      exact ⟨replier, transfer, code, flags, hop, howner⟩
    · cases run_life hrun call with
      | fresh _ hroutes => exact absurd hroute (hroutes e₀ he₀ route)
      | outstanding _ hroutes _ _ _ hcaller =>
        rw [hroutes e₀ he₀ route hroute]
        exact hcaller.imp And.right And.right
      | finished hroutes _ _ _ hdeaths =>
        rwa [hroutes e₀ he₀ route hroute]
    · intro fs e gs hes hdeath
      subst hes
      have hwf := (run_wf (run_before hrun)).1
      obtain ⟨route', htable, hcloses⟩ := caller_death_closes hwf hdeath
      obtain ⟨hsame, hreplies⟩ := run_route_eq hrun ⟨e₀, he₀, hroute⟩ htable
      rw [hsame] at hcloses
      exact ⟨hcloses, hreplies⟩
  · intro e _ session memory outcome hop hresult
    have hout : e.emitted = outcome.notifications := by
      unfold emitted
      rw [hresult]
    rcases emitted_close hop with ⟨_, herror, -⟩ | ⟨-, hafter, hemitted⟩
    · rw [hresult] at herror
      cases herror
    · rw [← hout, hemitted, hafter]
      exact ⟨close_target_deads, close_node_deads, fun o ho => close_addresses_live ho⟩

theorem call_ends_with_its_target :
    terminals ⟨1, by decide, by decide⟩ (events (RoutingAuthority.new 0) target_closes) =
      [((session 1).connection, 7)] := by
  obtain ⟨hcalls, -⟩ := authority_calls_end_safely (run_events (.new 0) target_closes)
  obtain ⟨hterminals, -⟩ := hcalls ⟨1, by decide, by decide⟩
    ⟨(session 1).connection, 7, (session 0).connection, ⟨1, by decide, by decide⟩⟩ (by
      refine ⟨(events (RoutingAuthority.new 0) target_closes)[3], List.getElem_mem _, ?_⟩
      decide +kernel)
  rcases hterminals with hnone | hone
  · exact absurd hnone (by decide +kernel)
  · exact hone

end DarwinArt.Binder.RoutingAuthority
