/-
The order of the messages about a call in the outboxes of the Binder service.

A caller hears that its transaction was accepted, then of the end of the call; a target is given
the transaction, and then hears, perhaps, that the caller is gone. The thread of the caller sends
the acceptance and the transaction after the authority knows of the call, with no lock held. In the
meantime any other thread may close either connection or hand in a reply, and send what follows
from that first. And if the acceptance cannot be sent, the transaction never is, while the call
stays in the authority.

`timely` says which steps come too early. In a run without them every outbox is in order: what the
authority knows of a call is matched by what was sent of it, or by the thread that is about to send
it (`Acked`, `Delivered`), and what follows from the call is only sent when that is done (`Ready`).
-/
import DarwinArt.Profile.TransferRuns

set_option autoImplicit false

namespace DarwinArt.Profile

open Lib Binder Binder.RoutingAuthority

/-! ## The statement -/

/-- The transaction of this call. -/
def delivers (call : CallToken) : Message → Bool
  | .DeliverTransaction (some c) .. => c = call
  | _ => false

/-- A message may come after these in an outbox. -/
def follows (l : List Message) : Message → Prop
  | .DeliverReply call .. => .RouteAccepted (some call) ∈ l
  | .TargetDead call _ => .RouteAccepted (some call) ∈ l
  | .CallerDead call => ∃ m ∈ l, delivers call m = true
  | _ => True

/-- Every message in an outbox may come after those before it. -/
def Causal (l : List Message) : Prop := ∀ l₁ m l₂, l = l₁ ++ m :: l₂ → follows l₁ m

/-- The call that a thread is about to acknowledge, and the target of the call. -/
def Phase.acking : Phase → Option (CallToken × ConnectionToken)
  | .Acking (.RouteAccepted (some call)) o => some (call, o.destination)
  | _ => none

/-- A thread is about to deliver the transaction of a call. -/
def Phase.delivering : Phase → Bool
  | .Dispatching [⟨_, .DeliverTransaction (some _) ..⟩] none => true
  | .Sending ⟨_, .DeliverTransaction (some _) ..⟩ [] none => true
  | _ => false

namespace BinderService

/-- A step does not come too early for a call, and the acknowledgement of one is not refused:

* a reply is handed in only when its call has been acknowledged;
* a connection is closed only when every call to it has been acknowledged, and when every call from
  it has been acknowledged and delivered;
* the writer has not ended when a call is acknowledged. -/
def timely (s : BinderService) : Op → Bool
  | .Receive _ (.CompleteReply call ..) _ =>
    s.threads.toList.all fun (_, phase) => phase.acking.map Prod.fst ≠ some call
  | .Go c _ =>
    match s.threads[c]? with
    | some (.Acking (.RouteAccepted (some _)) _) => !s.dead c
    | some (.Closing d _) => s.threads.toList.all fun (b, phase) =>
        phase.acking.map Prod.snd ≠ some d ∧
          (b = d → phase.acking = none ∧ phase.delivering = false)
    | _ => true
  | _ => true

/-! ## Messages -/

theorem follows_of_plain {m : Message} (h : plain m = true) (l : List Message) : follows l m := by
  cases m with
  | DeliverReply => cases h
  | TargetDead => cases h
  | CallerDead => cases h
  | _ => trivial

theorem follows_mono {l l' : List Message} (hl : ∀ m ∈ l, m ∈ l') {m : Message}
    (h : follows l m) : follows l' m := by
  cases m with
  | DeliverReply => exact hl _ h
  | TargetDead => exact hl _ h
  | CallerDead =>
    obtain ⟨x, hx, hdelivers⟩ := h
    exact ⟨x, hl x hx, hdelivers⟩
  | _ => trivial

/-- The transaction of a call is a message of its own kind. -/
theorem delivers_cases {call : CallToken} {m : Message} (h : delivers call m = true) :
    ∃ sender pid euid target thread transfer code flags,
      m = .DeliverTransaction (some call) sender pid euid target thread transfer code flags := by
  unfold delivers at h
  split at h
  · rw [of_decide_eq_true h]
    exact ⟨_, _, _, _, _, _, _, _, rfl⟩
  · cases h

theorem Causal.snoc {l : List Message} {m : Message} (h : Causal l) (hm : follows l m) :
    Causal (l ++ [m]) := by
  intro l₁ x l₂ hsplit
  rcases split_snoc hsplit with ⟨rfl, rfl⟩ | ⟨l₂', hl⟩
  · exact hm
  · exact h l₁ x l₂' hl

/-! ## What is on its way -/

end BinderService

/-- The messages that wait in a frame. -/
def Frame.outbounds : Frame → List Outbound
  | .Disconnect => []
  | .Dispatch pending rest => pending ++ rest.getD []

/-- The messages to other connections that a thread has in hand and has no sender for yet. -/
def Phase.outbounds : Phase → List Outbound
  | .Opening _ | .Serving | .Answering _ => []
  | .Acking _ o => [o]
  | .Dispatching pending rest | .Sending _ pending rest => pending ++ rest.getD []
  | .Removing _ frame | .Purging _ frame | .Closing _ frame => frame.outbounds

/-- The message that a thread is about to send to its own connection. -/
def Phase.own : Phase → Option Message
  | .Opening m | .Answering m | .Acking m _ => some m
  | _ => none

theorem Frame.mem_resume {frame : Frame} {notifications : List Outbound} {o : Outbound}
    (h : o ∈ (frame.resume notifications).outbounds) : o ∈ notifications ∨ o ∈ frame.outbounds := by
  cases frame with
  | Disconnect => exact .inl h
  | Dispatch =>
    rcases List.mem_append.mp h with h | h
    · rcases List.mem_append.mp h with h | h
      · exact .inl (List.mem_reverse.mp h)
      · exact .inr (List.mem_append_left _ h)
    · exact .inr (List.mem_append_right _ h)

/-- The thread is about to acknowledge this call. -/
def Phase.Acks (phase : Phase) (call : CallToken) (route : RoutingAuthority.CallRoute) : Prop :=
  phase.acking = some (call, route.target.owner)

/-- The thread has the transaction of this call in hand, and nothing else. -/
def Phase.Carries (phase : Phase) (call : CallToken) (route : RoutingAuthority.CallRoute) : Prop :=
  ∃ o : Outbound, o.destination = route.target.owner ∧ delivers call o.message = true ∧
    (phase = .Acking (.RouteAccepted (some call)) o ∨ phase = .Dispatching [o] none ∨
      phase = .Sending o [] none)

theorem Phase.delivering_of_carries {phase : Phase} {call : CallToken} {route : RoutingAuthority.CallRoute}
    (h : phase.Carries call route) : phase.acking ≠ none ∨ phase.delivering = true := by
  obtain ⟨⟨d, m⟩, -, hdelivers, rfl | rfl | rfl⟩ := h
  · exact .inl nofun
  · obtain ⟨_, _, _, _, _, _, _, _, rfl⟩ := BinderService.delivers_cases hdelivers
    exact .inr rfl
  · obtain ⟨_, _, _, _, _, _, _, _, rfl⟩ := BinderService.delivers_cases hdelivers
    exact .inr rfl

namespace BinderService

/-- A connection that has no endpoint and will have none. -/
def Gone (s : BinderService) (d : ConnectionToken) : Prop :=
  s.endpoints[d]? = none ∧ d.raw ≤ s.authority.next_connection

/-- A message may be sent, or will not be accepted, or will not be sent. -/
def Ready (s : BinderService) (o : Outbound) : Prop :=
  follows (s.outbox o.destination) o.message ∨ s.dead o.destination = true ∨ Gone s o.destination

/-- A thread has in hand only what may be sent. -/
structure Fine (s : BinderService) (phase : Phase) : Prop where
  own : ∀ m, phase.own = some m → ∀ l, follows l m
  ready : ∀ o ∈ phase.outbounds, Ready s o
  sending : ∀ o pending rest, phase = .Sending o pending rest →
    follows (s.outbox o.destination) o.message ∨ s.dead o.destination = true

/-- A call was acknowledged, or cannot be, or is about to be. -/
def Acked (s : BinderService) (call : CallToken) (route : RoutingAuthority.CallRoute) : Prop :=
  .RouteAccepted (some call) ∈ s.outbox route.sender ∨ s.dead route.sender = true ∨
    ∃ phase, s.threads[route.sender]? = some phase ∧ phase.Acks call route

/-- The transaction of a call was sent to the target, or the target hears nothing any more. -/
def Reached (s : BinderService) (call : CallToken) (target : ConnectionToken) : Prop :=
  (∃ m ∈ s.outbox target, delivers call m = true) ∨ s.dead target = true ∨ Gone s target

/-- The transaction of a call has reached the target, or is in hand. -/
def Delivered (s : BinderService) (call : CallToken) (route : RoutingAuthority.CallRoute) : Prop :=
  Reached s call route.target.owner ∨
    ∃ phase, s.threads[route.sender]? = some phase ∧ phase.Carries call route

/-- **The invariant.** The outboxes are in order, and stay so. -/
structure Orderly (s : BinderService) : Prop where
  causal : ∀ c, Causal (s.outbox c)
  fine : ∀ (c : ConnectionToken) phase, s.threads[c]? = some phase → Fine s phase
  acked : ∀ (call : CallToken) route, s.authority.calls[call]? = some route → Acked s call route
  delivered : ∀ (call : CallToken) route, s.authority.calls[call]? = some route →
    Delivered s call route

/-! ## What grows -/

/-- More has been sent, more writers have ended, and more connections are gone. -/
structure Grows (s t : BinderService) : Prop where
  outbox : ∀ c, ∀ m ∈ s.outbox c, m ∈ t.outbox c
  dead : ∀ c, s.dead c = true → t.dead c = true
  gone : ∀ d, Gone s d → Gone t d

section Growth

variable {s t : BinderService} {c d : ConnectionToken} {phase phase' : Phase} {call : CallToken}

theorem Grows.refl (s : BinderService) : Grows s s := ⟨fun _ _ => id, fun _ => id, fun _ => id⟩

theorem Ready.grows {o : Outbound} (h : Ready s o) (hgrows : Grows s t) : Ready t o := by
  rcases h with h | h | h
  · exact .inl (follows_mono (hgrows.outbox _) h)
  · exact .inr (.inl (hgrows.dead _ h))
  · exact .inr (.inr (hgrows.gone _ h))

theorem Fine.grows (h : Fine s phase) (hgrows : Grows s t) : Fine t phase := by
  refine ⟨h.own, fun o ho => (h.ready o ho).grows hgrows, fun o pending rest hphase => ?_⟩
  rcases h.sending o pending rest hphase with h | h
  · exact .inl (follows_mono (hgrows.outbox _) h)
  · exact .inr (hgrows.dead _ h)

theorem Reached.grows (h : Reached s call d) (hgrows : Grows s t) : Reached t call d := by
  rcases h with ⟨m, hm, hdelivers⟩ | h | h
  · exact .inl ⟨m, hgrows.outbox _ m hm, hdelivers⟩
  · exact .inr (.inl (hgrows.dead _ h))
  · exact .inr (.inr (hgrows.gone _ h))

section

variable (h : Orderly s) (hgrows : Grows s t) (hthreads : t.threads = s.threads)
include h hgrows hthreads

/-- **One thread goes on.** The rest of the service has grown, a call that is new is in hand, and
what the thread had in hand of a call it has done or has still. -/
theorem Orderly.goto (hcausal : ∀ c, Causal (t.outbox c)) (hfine : Fine t phase')
    (hcalls : ∀ (call : CallToken) route, t.authority.calls[call]? = some route →
      s.authority.calls[call]? = some route ∨
        (route.sender = c ∧ phase'.Acks call route ∧ phase'.Carries call route))
    (hacks : ∀ phase call route, s.threads[c]? = some phase →
      s.authority.calls[call]? = some route → route.sender = c → phase.Acks call route →
      .RouteAccepted (some call) ∈ t.outbox c ∨ t.dead c = true ∨ phase'.Acks call route)
    (hcarries : ∀ phase call route, s.threads[c]? = some phase →
      s.authority.calls[call]? = some route → phase.Carries call route →
      Reached t call route.target.owner ∨ phase'.Carries call route) :
    Orderly (t.goto c phase') := by
  have hnew : (t.goto c phase').threads[c]? = some phase' := goto_threads_self
  have hold : ∀ b, b ≠ c → (t.goto c phase').threads[b]? = s.threads[b]? := by
    intro b hb
    rw [goto_threads_ne hb, hthreads]
  refine ⟨hcausal, fun b p hb => ?_, fun call route hroute => ?_, fun call route hroute => ?_⟩
  · have hfine' : Fine t p := by
      by_cases hbc : b = c
      · rw [hbc, hnew] at hb
        cases hb
        exact hfine
      · rw [hold b hbc] at hb
        exact (h.fine b p hb).grows hgrows
    exact ⟨hfine'.own, hfine'.ready, hfine'.sending⟩
  · rcases hcalls call route hroute with hroute | ⟨rfl, hnewacks, -⟩
    · rcases h.acked call route hroute with hsent | hdead | ⟨p, hp, hpacks⟩
      · exact .inl (hgrows.outbox _ _ hsent)
      · exact .inr (.inl (hgrows.dead _ hdead))
      · by_cases hsender : route.sender = c
        · rw [hsender] at hp
          unfold Acked
          rw [hsender]
          rcases hacks p call route hp hroute hsender hpacks with hsent | hdead | hstill
          · exact .inl hsent
          · exact .inr (.inl hdead)
          · exact .inr (.inr ⟨phase', hnew, hstill⟩)
        · exact .inr (.inr ⟨p, by rwa [hold _ hsender], hpacks⟩)
    · exact .inr (.inr ⟨phase', hnew, hnewacks⟩)
  · rcases hcalls call route hroute with hroute | ⟨rfl, -, hnewcarries⟩
    · rcases h.delivered call route hroute with hreached | ⟨p, hp, hpcarries⟩
      · have hreached := hreached.grows hgrows
        exact .inl hreached
      · by_cases hsender : route.sender = c
        · rw [hsender] at hp
          unfold Delivered
          rw [hsender]
          rcases hcarries p call route hp hroute hpcarries with hreached | hstill
          · exact .inl hreached
          · exact .inr ⟨phase', hnew, hstill⟩
        · exact .inr ⟨p, by rwa [hold _ hsender], hpcarries⟩
    · exact .inr ⟨phase', hnew, hnewcarries⟩

/-- The same for a thread that has no call in hand, where no call is new. -/
theorem Orderly.goto_idle (hcausal : ∀ c, Causal (t.outbox c)) (hfine : Fine t phase')
    (hcalls : ∀ (call : CallToken) route, t.authority.calls[call]? = some route →
      s.authority.calls[call]? = some route)
    (hidle : ∀ phase, s.threads[c]? = some phase → ∀ call route,
      ¬ phase.Acks call route ∧ ¬ phase.Carries call route) : Orderly (t.goto c phase') := by
  refine h.goto hgrows hthreads hcausal hfine (fun call route hroute => .inl (hcalls _ _ hroute))
    (fun p call route hp _ _ hacks => ?_) (fun p call route hp _ hcarries => ?_)
  · exact absurd hacks (hidle p hp call route).1
  · exact absurd hcarries (hidle p hp call route).2

end

end Growth

/-! ## Steps -/

section Steps

variable {s s' : BinderService} {c d : ConnectionToken} {phase : Phase}

theorem all_threads {f : ConnectionToken × Phase → Bool} (h : s.threads.toList.all f = true)
    (hthread : s.threads[c]? = some phase) : f (c, phase) = true :=
  List.all_eq_true.mp h (c, phase) (mem_toList_iff_getElem?_eq_some.mpr hthread)

variable {q : RoutingAuthority.Op} {result : Except Error Reply} {a : RoutingAuthority}
  {transfer : TransferToken}

/-- The authority is asked, and the same connections are open after it. -/
theorem Grows.asked (hchange : RoutingAuthority.Change s.authority q result a)
    (hopen : ∀ opened, result ≠ .ok (.Opened opened))
    (hclose : ∀ outcome, result ≠ .ok (.Closed outcome)) {transfers : TransferTable} :
    Grows s { s with authority := a, transfers := transfers } := by
  refine ⟨fun _ _ => id, fun _ => id, fun d hd => ⟨hd.1, ?_⟩⟩
  rw [(keeps_connections hchange hopen hclose).1]
  exact hd.2

/-- A thread that waits for a request has no call in hand. -/
theorem serving_idle (hthread : s.threads[c]? = some .Serving) (phase : Phase)
    (hphase : s.threads[c]? = some phase) (call : CallToken) (route : RoutingAuthority.CallRoute) :
    ¬ phase.Acks call route ∧ ¬ phase.Carries call route := by
  rw [hthread] at hphase
  cases hphase
  refine ⟨nofun, ?_⟩
  rintro ⟨o, -, -, h | h | h⟩ <;> cases h

/-- The answer to a request. -/
theorem Fine.answering {m : Message} (hplain : plain m = true) : Fine s (.Answering m) := by
  refine ⟨fun x hx => ?_, nofun, nofun⟩
  cases hx
  exact follows_of_plain hplain

theorem Fine.disconnect : Fine s (.disconnect c) := ⟨nofun, nofun, nofun⟩

section

variable (h : Orderly s) (hthread : s.threads[c]? = some .Serving)
include h hthread

/-- A request that is answered or refused. -/
theorem Orderly.asked (hchange : RoutingAuthority.Change s.authority q result a)
    (hopen : ∀ opened, result ≠ .ok (.Opened opened))
    (hclose : ∀ outcome, result ≠ .ok (.Closed outcome))
    (hcalls : ∀ (call : CallToken) route, a.calls[call]? = some route →
      s.authority.calls[call]? = some route) {transfers : TransferTable}
    (hfine : Fine { s with authority := a, transfers := transfers } phase) :
    Orderly ({ s with authority := a, transfers := transfers }.goto c phase) :=
  h.goto_idle (.asked hchange hopen hclose) rfl h.causal hfine hcalls (serving_idle hthread)

/-- A transaction is routed: if it is a call, the thread has it in hand. -/
theorem Orderly.routed {target : NodeToken} {caller_thread : UInt64} {code flags : UInt32}
    {memory : Bool} {outcome : RouteOutcome}
    (hchange : RoutingAuthority.Change s.authority (.route_transaction (s.session c) target
      caller_thread transfer code flags memory) (.ok (.Routed outcome)) a)
    {transfers : TransferTable} :
    Orderly ({ s with authority := a, transfers := transfers }.goto c
      (.Acking outcome.acknowledgement outcome.delivery)) := by
  have hgrows := @Grows.asked s _ _ a hchange nofun nofun transfers
  obtain ⟨hack, hmessage, hcalls⟩ : (∃ call, outcome.acknowledgement = .RouteAccepted call) ∧
      (∀ l, follows l outcome.delivery.message) ∧
      ∀ (call : CallToken) route, a.calls[call]? = some route →
        s.authority.calls[call]? = some route ∨ (route.sender = c ∧
          (Phase.Acking outcome.acknowledgement outcome.delivery).Acks call route ∧
          (Phase.Acking outcome.acknowledgement outcome.delivery).Carries call route) := by
    generalize hresult : (.ok (.Routed outcome) : Except Error Reply) = result at hchange
    cases hchange with
    | failed => cases hresult
    | read hreply =>
      rcases hreply with ⟨_, rfl⟩ | ⟨_, rfl⟩ <;> cases hresult
    | routed_oneway _ hmessage hack =>
      cases hresult
      obtain ⟨pid, euid, localNode, hmessage⟩ := hmessage
      exact ⟨⟨none, hack⟩, fun l => by rw [hmessage]; trivial, fun _ _ => .inl⟩
    | @routed _ _ _ _ _ _ _ _ call hnext hdelivery hmessage hack hsender htarget =>
      cases hresult
      obtain ⟨pid, euid, localNode, hmessage⟩ := hmessage
      refine ⟨⟨some call, hack⟩, fun l => by rw [hmessage]; trivial, fun k route hk => ?_⟩
      rcases getElem?_insert_cases hk with ⟨hcall, hroute⟩ | ⟨-, hk⟩
      · rw [hroute, hcall, hack]
        refine .inr ⟨rfl, ?_, _, hdelivery, ?_, .inl rfl⟩
        · exact congrArg (fun owner => some (call, owner)) hdelivery
        · rw [hmessage]
          exact decide_eq_true rfl
      · exact .inl hk
  refine h.goto hgrows rfl h.causal ⟨fun m hm l => ?_, fun o ho => ?_, nofun⟩ hcalls
    (fun p call route hp _ _ hacks => ?_) (fun p call route hp _ hcarries => ?_)
  · obtain ⟨call, hack⟩ := hack
    rw [← Option.some.inj hm, hack]
    trivial
  · rw [List.mem_singleton.mp ho]
    exact .inl (hmessage _)
  · exact absurd hacks (serving_idle hthread p hp call route).1
  · exact absurd hcarries (serving_idle hthread p hp call route).2

/-- A reply is routed: its call was acknowledged, or the caller hears nothing any more. -/
theorem Orderly.replied {call : CallToken} {code flags : UInt32} {memory : Bool}
    {outbound : Outbound}
    (hchange : RoutingAuthority.Change s.authority (.complete_reply (s.session c) call transfer
      code flags) (.ok (.Replied (some outbound))) a) {transfers : TransferTable}
    (htimely : s.timely (.Receive c (.CompleteReply call transfer code flags) memory) = true) :
    Orderly ({ s with authority := a, transfers := transfers }.goto c
      (.Acking (.ReplyAccepted call) outbound)) := by
  have hgrows := @Grows.asked s _ _ a hchange nofun nofun transfers
  obtain ⟨hready, hcalls⟩ : Ready s outbound ∧ ∀ (k : CallToken) route,
      a.calls[k]? = some route → s.authority.calls[k]? = some route := by
    generalize hresult : (.ok (.Replied (some outbound)) : Except Error Reply) = result at hchange
    cases hchange with
    | failed => cases hresult
    | read hreply =>
      rcases hreply with ⟨_, rfl⟩ | ⟨_, rfl⟩ <;> cases hresult
    | reply_dropped => cases hresult
    | @replied _ _ _ _ _ route pid euid hroute howner hsender =>
      cases hresult
      refine ⟨?_, fun k route' hk => (getElem?_erase_cases hk).2⟩
      rcases h.acked call route hroute with hsent | hdead | ⟨p, hp, hacks⟩
      · exact .inl hsent
      · exact .inr (.inl hdead)
      · -- the reply does not come before the acknowledgement
        have hne : p.acking.map Prod.fst ≠ some call := of_decide_eq_true (all_threads htimely hp)
        rw [show p.acking = some (call, route.target.owner) from hacks] at hne
        exact absurd rfl hne
  refine h.asked hthread hchange nofun nofun hcalls ⟨fun m hm l => ?_, fun o ho => ?_, nofun⟩
  · cases hm
    trivial
  · rw [List.mem_singleton.mp ho]
    exact hready.grows hgrows

end

section

variable (h : Orderly s)
include h

/-- A connection is closed: what others are told follows on what they have heard. -/
theorem ready_notices {frame : Frame} {memory : CloseMemory}
    (hthread : s.threads[c]? = some (.Closing d frame)) (htimely : s.timely (.Go c memory) = true)
    {o : Outbound} (ho : o ∈ s.authority.call_notices d ++ s.authority.close_deaths d) :
    Ready s o := by
  dsimp only [timely] at htimely
  rw [hthread] at htimely
  have hall : ∀ (b : ConnectionToken) phase, s.threads[b]? = some phase →
      phase.acking.map Prod.snd ≠ some d ∧
        (b = d → phase.acking = none ∧ phase.delivering = false) :=
    fun b phase hb => of_decide_eq_true (all_threads htimely hb)
  rcases List.mem_append.mp ho with ho | ho
  · obtain ⟨call, route, hroute, ⟨hfate, rfl⟩ | ⟨hfate, rfl⟩⟩ := mem_call_notices ho
    · -- the target is gone: the call has been acknowledged
      obtain ⟨howner, -, -⟩ := fate_eq_targetDead.mp hfate
      rcases h.acked call route hroute with hsent | hdead | ⟨p, hp, hacks⟩
      · exact .inl hsent
      · exact .inr (.inl hdead)
      · have hne := (hall _ p hp).1
        rw [show p.acking = some (call, route.target.owner) from hacks, howner] at hne
        exact absurd rfl hne
    · -- the caller is gone: the transaction has been delivered
      obtain ⟨hsender, -, -⟩ := fate_eq_callerDead.mp hfate
      rcases h.delivered call route hroute with hreached | ⟨p, hp, hcarries⟩
      · exact hreached
      · obtain ⟨hnone, hfalse⟩ := (hall _ p hp).2 hsender
        rcases Phase.delivering_of_carries hcarries with hacking | hdelivering
        · exact absurd hnone hacking
        · rw [hfalse] at hdelivering
          cases hdelivering
  · obtain ⟨key, cookie, -, rfl⟩ := mem_close_deaths ho
    exact .inl trivial

/-- A thread hands a message to an outbox. -/
theorem Orderly.sent {m : Message} {phase' : Phase}
    (hthread : s.threads[c]? = some phase) (hsends : Sends c phase d m phase')
    (halive : s.dead d = false) :
    Orderly ({ s with outbox := Function.update s.outbox d (s.outbox d ++ [m]) }.goto c phase') := by
  have hfine := h.fine c phase hthread
  have hfollows : follows (s.outbox d) m := by
    cases hsends with
    | opening | answering | acking => exact hfine.own m rfl _
    | sending =>
      rcases hfine.sending _ _ _ rfl with hfollows | hdead
      · exact hfollows
      · rw [halive] at hdead
        cases hdead
  have hmem : ∀ b, ∀ x ∈ s.outbox b, x ∈ Function.update s.outbox d (s.outbox d ++ [m]) b := by
    intro b x hx
    by_cases hb : b = d
    · rw [hb] at hx ⊢
      rw [Function.update_self]
      exact List.mem_append_left _ hx
    · rwa [Function.update_of_ne hb]
  have hlast : m ∈ Function.update s.outbox d (s.outbox d ++ [m]) d := by
    rw [Function.update_self]
    exact List.mem_append_right _ List.mem_cons_self
  have hgrows : Grows s { s with outbox := Function.update s.outbox d (s.outbox d ++ [m]) } :=
    ⟨hmem, fun _ => id, fun _ => id⟩
  have hnow : ∀ p, s.threads[c]? = some p → p = phase := fun p hp =>
    Option.some.inj (hp.symm.trans hthread)
  refine h.goto hgrows rfl (fun b => ?_) ?_ (fun _ _ => .inl)
    (fun p call route hp _ _ hacks => ?_) (fun p call route hp _ hcarries => ?_)
  · show Causal (Function.update s.outbox d (s.outbox d ++ [m]) b)
    by_cases hb : b = d
    · rw [hb, Function.update_self]
      exact Causal.snoc (h.causal d) hfollows
    · rw [Function.update_of_ne hb]
      exact h.causal b
  · have hready := fun o ho => (hfine.ready o ho).grows hgrows
    cases hsends with
    | opening | answering => exact ⟨nofun, nofun, nofun⟩
    | acking | sending => exact ⟨nofun, hready, nofun⟩
  · rw [hnow p hp] at hacks
    cases hsends with
    | opening | answering | sending => cases hacks
    | @acking m o =>
      -- what is acknowledged is in the outbox now
      left
      unfold Phase.Acks Phase.acking at hacks
      split at hacks
      next k o' heq =>
        injection heq with hm
        injection hacks with hacks
        injection hacks with hcall
        rw [hcall] at hm
        have hm : .RouteAccepted (some call) ∈ Function.update s.outbox c (s.outbox c ++ [m]) c := by
          rwa [← hm]
        exact hm
      · cases hacks
  · rw [hnow p hp] at hcarries
    obtain ⟨o, howner, hdelivers, hphase⟩ := hcarries
    cases hsends with
    | opening | answering => rcases hphase with h | h | h <;> cases h
    | acking =>
      rcases hphase with h | h | h
      · cases h
        exact .inr ⟨o, howner, hdelivers, .inr (.inl rfl)⟩
      · cases h
      · cases h
    | sending =>
      rcases hphase with h | h | h
      · cases h
      · cases h
      · injection h with ho
        rw [← ho] at howner hdelivers
        rw [← howner]
        exact .inl (.inl ⟨_, hlast, hdelivers⟩)

/-- A thread goes on alone. -/
theorem Orderly.moved (hsound : Sound s) {phase' : Phase} {memory : CloseMemory}
    (hthread : s.threads[c]? = some phase) (hmoves : Moves s c phase phase')
    (htimely : s.timely (.Go c memory) = true) : Orderly (s.goto c phase') := by
  have hfine := h.fine c phase hthread
  have hnow : ∀ p, s.threads[c]? = some p → p = phase := fun p hp =>
    Option.some.inj (hp.symm.trans hthread)
  -- the target of a call was opened once
  have hle : ∀ (call : CallToken) route, s.authority.calls[call]? = some route →
      route.target.owner.raw ≤ s.authority.next_connection := by
    intro call route hroute
    obtain ⟨connection, hconn, -⟩ := hsound.wf.target call route hroute
    exact hsound.wf.connection_le _ (contains_of_some hconn)
  refine h.goto (.refl s) rfl h.causal ?_ (fun _ _ => .inl)
    (fun p call route hp _ _ hacks => ?_) (fun p call route hp hroute hcarries => ?_)
  · cases hmoves with
    | unanswered | unacknowledged => exact .disconnect
    | drained => exact ⟨nofun, nofun, nofun⟩
    | notifying | undelivered | purged => exact ⟨nofun, hfine.ready, nofun⟩
    | unknown =>
      exact ⟨nofun, fun o ho => hfine.ready o (List.mem_cons_of_mem _ ho), nofun⟩
    | @found o pending rest endpoint hsome =>
      refine ⟨nofun, fun o ho => hfine.ready o (List.mem_cons_of_mem _ ho), ?_⟩
      intro o' pending' rest' heq
      cases heq
      rcases hfine.ready o List.mem_cons_self with hfollows | hdead | hgone
      · exact .inl hfollows
      · exact .inr hdead
      · rw [hgone.1] at hsome
        cases hsome
    | @absent d frame hnone | @unclosed d frame =>
      refine ⟨?_, fun o ho => ?_, ?_⟩
      · cases frame <;> exact nofun
      · rcases Frame.mem_resume ho with ho | ho
        · cases ho
        · exact hfine.ready o ho
      · cases frame <;> exact nofun
  · rw [hnow p hp] at hacks
    cases hmoves with
    | unacknowledged hdead => exact .inr (.inl hdead)
    | _ => cases hacks
  · rw [hnow p hp] at hcarries
    obtain ⟨o, howner, hdelivers, hphase⟩ := hcarries
    cases hmoves with
    | @unacknowledged m o' hdead =>
      -- the acknowledgement of a call is not refused
      rcases hphase with heq | heq | heq
      · injection heq with hm
        dsimp only [timely] at htimely
        rw [hthread, hm] at htimely
        rw [hdead] at htimely
        cases htimely
      · cases heq
      · cases heq
    | unknown hnone =>
      rcases hphase with heq | heq | heq
      · cases heq
      · cases heq
        rw [howner] at hnone
        exact .inl (.inr (.inr ⟨hnone, hle call route hroute⟩))
      · cases heq
    | found =>
      rcases hphase with heq | heq | heq
      · cases heq
      · cases heq
        exact .inr ⟨o, howner, hdelivers, .inr (.inr rfl)⟩
      · cases heq
    | undelivered hdead =>
      rcases hphase with heq | heq | heq
      · cases heq
      · cases heq
      · cases heq
        rw [howner] at hdead
        exact .inl (.inr (.inl hdead))
    | _ => rcases hphase with heq | heq | heq <;> cases heq

/-- The table of transfers has no part in this. -/
theorem Orderly.transfers (transfers : TransferTable) (deposits : ℕ) :
    Orderly { s with transfers := transfers, deposits := deposits } := by
  refine ⟨h.causal, fun b p hb => ?_, h.acked, h.delivered⟩
  obtain ⟨hown, hready, hsending⟩ := h.fine b p hb
  exact ⟨hown, hready, hsending⟩

/-- **Every timely step keeps the outboxes in order.** -/
theorem Orderly.step {op : Op} {outcome : Outcome} (hsound : Sound s)
    (hchange : Change s op outcome s') (htimely : s.timely op = true) : Orderly s' := by
  cases hchange with
  | idle => exact h
  | @opened peer memory c response a hplain hchange =>
    obtain ⟨hc, hnext, hcalls, -, -⟩ := hsound.opened hchange
    refine h.goto_idle ⟨fun _ _ => id, fun _ => id, fun d hd => ⟨?_, ?_⟩⟩ rfl h.causal
      ⟨fun m hm => ?_, nofun, nofun⟩ (fun call route hroute => ?_) fun p hp => ?_
    · have hne : c ≠ d := by
        rintro rfl
        have := hd.2
        omega
      rw [getElem?_insert_ne hne]
      exact hd.1
    · have := hd.2
      dsimp only
      omega
    · cases hm
      exact follows_of_plain hplain
    · rwa [← hcalls]
    · have := hsound.thread_le c p hp
      omega
  | answered hthread hplain hchange =>
    refine h.asked hthread hchange nofun nofun (fun call route hroute => ?_) (.answering hplain)
    rwa [← (keeps_calls hchange (.inr ⟨_, rfl⟩)).1]
  | dropped hthread hchange =>
    refine h.asked hthread hchange nofun nofun (fun call route hroute => ?_) .disconnect
    rwa [← (keeps_calls hchange (.inl ⟨_, rfl⟩)).1]
  | discarded hthread _ hplain hchange hresult =>
    refine h.asked hthread hchange ?_ ?_ (fun call route hroute => ?_) (.answering hplain)
    · rintro opened rfl
      simp at hresult
    · rintro outcome rfl
      simp at hresult
    · rcases hresult with ⟨error, rfl⟩ | rfl
      · rwa [← (keeps_calls hchange (.inl ⟨_, rfl⟩)).1]
      · cases hchange with
        | reply_dropped => exact (getElem?_erase_cases hroute).2
        | read => exact hroute
  | routed hthread _ hchange => exact h.routed hthread hchange
  | replied hthread _ hchange => exact h.replied hthread hchange htimely
  | sent hthread hsends halive => exact h.sent hthread hsends halive
  | moved hthread hmoves => exact h.moved hsound hthread hmoves htimely
  | @finished c phase memory hthread hphase =>
    have hidle : ∀ p call route, s.threads[c]? = some p →
        ¬ p.Acks call route ∧ ¬ p.Carries call route := by
      intro p call route hp
      rw [← Option.some.inj (hthread.symm.trans hp)]
      rcases hphase with ⟨m, rfl⟩ | rfl
      · refine ⟨nofun, ?_⟩
        rintro ⟨o, -, -, h | h | h⟩ <;> cases h
      · refine ⟨nofun, ?_⟩
        rintro ⟨o, -, -, h | h | h⟩ <;> cases h
    have hother : ∀ b p, b ≠ c → s.threads[b]? = some p → (s.finish c).threads[b]? = some p := by
      intro b p hb hp
      exact (getElem?_erase_ne (Ne.symm hb)).trans hp
    refine ⟨h.causal, fun b p hb => ?_, fun call route hroute => ?_, fun call route hroute => ?_⟩
    · obtain ⟨hown, hready, hsending⟩ := h.fine b p (finish_threads hb).2
      exact ⟨hown, hready, hsending⟩
    · rcases h.acked call route hroute with hsent | hdead | ⟨p, hp, hacks⟩
      · exact .inl hsent
      · exact .inr (.inl hdead)
      · refine .inr (.inr ⟨p, hother _ p ?_ hp, hacks⟩)
        rintro rfl
        exact (hidle p call route hp).1 hacks
    · rcases h.delivered call route hroute with hreached | ⟨p, hp, hcarries⟩
      · exact .inl hreached
      · refine .inr ⟨p, hother _ p ?_ hp, hcarries⟩
        rintro rfl
        exact (hidle p call route hp).2 hcarries
  | @removed c d frame memory hthread endpoint hendpoint =>
    have hfine := h.fine c _ hthread
    have hgrows : Grows s { s with endpoints := s.endpoints.erase d } := by
      refine ⟨fun _ _ => id, fun _ => id, fun x hx => ⟨?_, hx.2⟩⟩
      rw [getElem?_erase]
      split
      · rfl
      · exact hx.1
    refine h.goto_idle hgrows rfl h.causal
      ⟨nofun, fun o ho => (hfine.ready o ho).grows hgrows, nofun⟩ (fun _ _ => id)
      fun p hp call route => ?_
    rw [← Option.some.inj (hthread.symm.trans hp)]
    refine ⟨nofun, ?_⟩
    rintro ⟨o, -, -, h | h | h⟩ <;> cases h
  | @closed c d frame memory hthread hconn =>
    have hfine := h.fine c _ hthread
    have hgrows : Grows s { s with authority := s.authority.closed d } :=
      ⟨fun _ _ => id, fun _ => id, fun _ => id⟩
    refine h.goto_idle hgrows rfl h.causal ⟨?_, fun o ho => ?_, ?_⟩
      (fun call route hroute => (closed_calls.mp hroute).1) fun p hp call route => ?_
    · cases frame <;> exact nofun
    · rcases Frame.mem_resume ho with ho | ho
      · exact (ready_notices h hthread htimely ho).grows hgrows
      · exact (hfine.ready o ho).grows hgrows
    · cases frame <;> exact nofun
    · rw [← Option.some.inj (hthread.symm.trans hp)]
      refine ⟨nofun, ?_⟩
      rintro ⟨o, -, -, h | h | h⟩ <;> cases h
  | @ended c =>
    have hgrows : Grows s { s with dead := Function.update s.dead c true } := by
      refine ⟨fun _ _ => id, fun b hb => ?_, fun _ => id⟩
      by_cases hbc : b = c
      · rw [hbc]
        exact Function.update_self ..
      · rw [← hb]
        exact Function.update_of_ne hbc ..
    refine ⟨h.causal, fun b p hb => (h.fine b p hb).grows hgrows, fun call route hroute => ?_,
      fun call route hroute => ?_⟩
    · rcases h.acked call route hroute with hsent | hdead | hacks
      · exact .inl hsent
      · exact .inr (.inl (hgrows.dead _ hdead))
      · exact .inr (.inr hacks)
    · rcases h.delivered call route hroute with hreached | hcarries
      · exact .inl (hreached.grows hgrows)
      · exact .inr hcarries
  | purged | deposited | took | cancelled =>
    exact h.transfers _ _

end

end Steps

theorem Orderly.new (identity : ℕ) : Orderly (.new identity) := by
  refine ⟨fun c l₁ m l₂ h => ?_, ?_, ?_, ?_⟩
  · exact absurd h (by simp [BinderService.new])
  all_goals simp [BinderService.new, RoutingAuthority.new]

/-- **Timely steps keep every outbox in causal order.** In every run in which no reply and no close
comes before the messages of the calls it is about have been sent, and no acknowledgement of a call
is refused, each outbox has the acceptance of a call before its reply and before the death of its
target, and the transaction before the death of its caller. -/
theorem timely_runs_are_causal {identity : ℕ} {es : List Event} {s : BinderService}
    (hrun : Run Step (.new identity) es s) (htimely : ∀ e ∈ es, e.before.timely e.op = true) :
    ∀ c, Causal (s.outbox c) := by
  have horderly : Orderly s := by
    refine Run.invariant_while Orderly (Orderly.new identity) ?_ hrun htimely
    intro es t e u hbefore ht hstep he
    rw [hstep.1] at he
    exact ht.step (run_sound hbefore) hstep.change he
  exact horderly.causal

/-! ## Messages that overtake others -/

/-- The call of the second connection. -/
def the_call : CallToken := ⟨1, Nat.one_ne_zero, Token.one_fits⟩

/-- The second calls the first. Before the call is acknowledged, the first hangs up and is removed,
and the second is told. -/
def target_overtakes : List Op :=
  meet ++ [.Receive second request true, .HangUp first, go_on first,
    .Purge first ⟨second, ⟨1, Nat.one_ne_zero, Token.one_fits⟩⟩, go_on first, go_on first,
    go_on first, go_on first, go_on first, go_on second]

/-- The second calls the first, and its writer ends. The call is not acknowledged and not delivered;
the second is removed, and the first is told. -/
def caller_overtakes : List Op :=
  meet ++ [.Receive second request true, .WriterEnds second, go_on second, go_on second,
    go_on second, go_on second, go_on second, go_on second, go_on second]

/-- **The end of a call comes before its beginning**: the caller hears that the target of its call
is dead, and then that the call was accepted; and a target hears that the caller of a call is dead
which it was not given. -/
theorem ends_overtake_beginnings :
    (∃ es s, Run Step (.new 0) es s ∧ s.outbox second = [.ConnectionOpened second 10000,
      .TargetDead the_call 7, .RouteAccepted (some the_call)] ∧ ¬ Causal (s.outbox second)) ∧
    ∃ es s, Run Step (.new 0) es s ∧ s.outbox first = [.ConnectionOpened first 1000,
      .NodePublished ⟨first, ⟨1, by decide, by decide⟩⟩, .CallerDead the_call] ∧
      ¬ Causal (s.outbox first) := by
  constructor
  · have hevents : ((BinderService.new 0).events target_overtakes).map (fun r => r.2.outbox second) =
        some [.ConnectionOpened second 10000, .TargetDead the_call 7,
          .RouteAccepted (some the_call)] := by
      decide +kernel
    obtain ⟨⟨es, s⟩, hrun, houtbox⟩ := Option.map_eq_some_iff.mp hevents
    refine ⟨es, s, run_events hrun, houtbox, fun h => ?_⟩
    have hfollows := h [.ConnectionOpened second 10000] (.TargetDead the_call 7)
      [.RouteAccepted (some the_call)] houtbox
    exact absurd (List.mem_singleton.mp hfollows) nofun
  · have hevents : ((BinderService.new 0).events caller_overtakes).map (fun r => r.2.outbox first) =
        some [.ConnectionOpened first 1000, .NodePublished ⟨first, ⟨1, by decide, by decide⟩⟩,
          .CallerDead the_call] := by
      decide +kernel
    obtain ⟨⟨es, s⟩, hrun, houtbox⟩ := Option.map_eq_some_iff.mp hevents
    refine ⟨es, s, run_events hrun, houtbox, fun h => ?_⟩
    obtain ⟨m, hm, hdelivers⟩ := h [.ConnectionOpened first 1000, .NodePublished ⟨first, _⟩]
      (.CallerDead the_call) [] houtbox
    rcases List.mem_cons.mp hm with rfl | hm
    · cases hdelivers
    · rw [List.mem_singleton.mp hm] at hdelivers
      cases hdelivers

/-- The second calls the first, the first replies, and the second hangs up. -/
def call_and_reply : List Op :=
  call_and_take ++
    [.Deposit ⟨100, 1000, (0, 0), valid_100⟩ ⟨1, Nat.one_ne_zero, Token.one_fits⟩ (.ok ()) true true,
      .Receive first (.CompleteReply the_call ⟨1, Nat.one_ne_zero, Token.one_fits⟩ 0 0) true,
      go_on first, go_on first, go_on first, go_on first, .HangUp second, go_on second,
      .Purge second ⟨first, ⟨1, Nat.one_ne_zero, Token.one_fits⟩⟩, go_on second, go_on second,
      go_on second]

theorem answered_call_is_causal :
    ∃ es s, Run Step (.new 0) es s ∧ (∀ e ∈ es, e.before.timely e.op = true) ∧
      s.outbox second = [.ConnectionOpened second 10000, .RouteAccepted (some the_call),
        .DeliverReply the_call first 100 1000 7 ⟨1, by decide, by decide⟩ 0 0] ∧
      ∀ c, Causal (s.outbox c) := by
  have hevents : ((BinderService.new 0).events call_and_reply).map (fun r =>
      (r.1.all fun e => e.before.timely e.op, r.2.outbox second)) =
      some (true, [.ConnectionOpened second 10000, .RouteAccepted (some the_call),
        .DeliverReply the_call first 100 1000 7 ⟨1, by decide, by decide⟩ 0 0]) := by
    decide +kernel
  obtain ⟨⟨es, s⟩, hrun, hfacts⟩ := Option.map_eq_some_iff.mp hevents
  injection hfacts with htimely houtbox
  have htimely : ∀ e ∈ es, e.before.timely e.op = true := List.all_eq_true.mp htimely
  exact ⟨es, s, run_events hrun, htimely, houtbox, timely_runs_are_causal (run_events hrun) htimely⟩

end BinderService

end DarwinArt.Profile
