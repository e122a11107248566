/-
What becomes of the transfers of the Binder service.

A transfer waits for one connection: for its source to route it, and then for its destination to
take it (`Entry.waits`). `remove` takes the endpoint of a connection away, removes the transfers
that wait for it, and only then tells the authority. Between the last two the authority still
routes to the connection, so a transfer can come to wait for one that is about to be closed, and
nothing removes it any more.

`Tended` says that this has not happened: what a transfer waits for is open, and nobody is about to
close it. Every step keeps it, but for the one named by `Event.Strays`. That a bundle is taken once,
and where it was routed to, holds without a condition (`Bundles`).
-/
import DarwinArt.Profile.ServiceSteps

set_option autoImplicit false

namespace DarwinArt.Profile

open Lib Binder Binder.RoutingAuthority

/-- The connection that a transfer waits for. -/
def Entry.waits (key : TransferKey) (entry : Entry) : ConnectionToken :=
  entry.destination.getD key.source

/-- The bundle that a step hands out. -/
def Outcome.taken : Outcome → Option ℕ
  | .Took bundle _ => some bundle
  | _ => none

namespace BinderService

/-! ## The statements -/

/-- A connection that was open once and is not any more. -/
def Closed (a : RoutingAuthority) (c : ConnectionToken) : Prop :=
  c.raw ≤ a.next_connection ∧ a.connections.contains c = false

/-- No transfer is routed to a connection that was closed, and none that is not routed comes from
one. -/
structure Unstranded (s : BinderService) : Prop where
  routed : ∀ (key : TransferKey) entry d, s.transfers.entries[key]? = some entry →
    entry.destination = some d → ¬ Closed s.authority d
  pending : ∀ (key : TransferKey) entry, s.transfers.entries[key]? = some entry →
    entry.destination = none → ¬ Closed s.authority key.source

/-- Every thread waits for a request. -/
def Quiet (s : BinderService) : Prop :=
  ∀ (c : ConnectionToken) phase, s.threads[c]? = some phase → phase = .Serving

/-- A bundle is taken once, after it was routed, by the connection it was routed to. -/
structure TakenOnce (es : List Event) : Prop where
  once : ∀ bundle, es.countP (fun e => e.outcome.taken = some bundle) ≤ 1
  routed : ∀ es₁ e es₂ bundle d, es = es₁ ++ e :: es₂ → e.outcome = .Took bundle d →
    ∃ x ∈ es₁, x.outcome = .Routed bundle d
  unique : ∀ x ∈ es, ∀ y ∈ es, ∀ bundle d d', x.outcome = .Routed bundle d →
    y.outcome = .Routed bundle d' → d = d'

/-- Whom a transaction or a reply goes to. -/
def recipient (s : BinderService) : Message → Option ConnectionToken
  | .RouteTransaction target .. => some target.owner
  | .CompleteReply call .. => (s.authority.calls[call]?).map (·.sender)
  | _ => none

/-- A transaction or a reply comes for a connection whose transfers have been removed, and which
the authority has not been told about yet. -/
def Event.Strays (e : Event) : Prop :=
  ∃ c message memory d, ∃ t : ConnectionToken, ∃ frame, e.op = .Receive c message memory ∧
    e.before.recipient message = some d ∧ e.before.threads[t]? = some (.Closing d frame)

/-! ## The table -/

/-- What a step does to the table. -/
inductive TableChange (s s' : BinderService) : Outcome → Prop
  | same (htable : s'.transfers = s.transfers) (hdeposits : s'.deposits = s.deposits) :
      TableChange s s' .Silent
  | erased {key : TransferKey} {outcome : Outcome} {entry : Entry}
      (hentry : s.transfers.entries[key]? = some entry)
      (htable : s'.transfers.entries = s.transfers.entries.erase key)
      (hdeposits : s'.deposits = s.deposits)
      (houtcome : outcome = .Silent ∨ ∃ d, entry.destination = some d ∧
        outcome = .Took entry.descriptors d) : TableChange s s' outcome
  | routed {key : TransferKey} {bundle : ℕ} {d : ConnectionToken}
      (hentry : s.transfers.entries[key]? = some ⟨none, bundle⟩)
      (htable : s'.transfers.entries = s.transfers.entries.insert key ⟨some d, bundle⟩)
      (hdeposits : s'.deposits = s.deposits) : TableChange s s' (.Routed bundle d)
  | deposited {key : TransferKey}
      (htable : s'.transfers.entries = s.transfers.entries.insert key ⟨none, s.deposits⟩)
      (hdeposits : s'.deposits = s.deposits + 1) : TableChange s s' (.Deposited s.deposits)

theorem Change.table {s s' : BinderService} {op : Op} {outcome : Outcome}
    (h : Change s op outcome s') : TableChange s s' outcome := by
  cases h with
  | discarded _ hentry | purged _ hentry | cancelled hentry =>
    exact .erased hentry rfl rfl (.inl rfl)
  | routed _ hentry | replied _ hentry => exact .routed hentry rfl rfl
  | deposited => exact .deposited rfl rfl
  | took hentry => exact .erased hentry rfl rfl (.inr ⟨_, rfl, rfl⟩)
  | _ => exact .same rfl rfl

namespace TableChange

variable {s s' : BinderService} {outcome : Outcome} (h : TableChange s s' outcome)
include h

theorem deposits_le : s.deposits ≤ s'.deposits := by
  cases h <;> omega

/-- An entry was there with its bundle and is routed now if it changed; or it is the new one. -/
theorem entries : ∃ new, ∀ (k : TransferKey) x, s'.transfers.entries[k]? = some x →
    (∃ y, s.transfers.entries[k]? = some y ∧ y.descriptors = x.descriptors ∧ (y = x ∨
      y.destination = none ∧ ∃ d, x.destination = some d ∧ outcome = .Routed x.descriptors d)) ∨
    (new = some k ∧ x = ⟨none, s.deposits⟩ ∧ s.deposits < s'.deposits) := by
  cases h with
  | same htable =>
    rw [htable]
    exact ⟨none, fun k x hk => .inl ⟨x, hk, rfl, .inl rfl⟩⟩
  | erased _ htable =>
    refine ⟨none, fun k x hk => .inl ⟨x, ?_, rfl, .inl rfl⟩⟩
    rw [htable] at hk
    exact (getElem?_erase_cases hk).2
  | @routed _ _ d hentry htable =>
    refine ⟨none, fun k x hk => .inl ?_⟩
    rw [htable] at hk
    rcases getElem?_insert_cases hk with ⟨rfl, rfl⟩ | ⟨-, hk⟩
    · exact ⟨_, hentry, rfl, .inr ⟨rfl, d, rfl, rfl⟩⟩
    · exact ⟨x, hk, rfl, .inl rfl⟩
  | @deposited key htable hdeposits =>
    refine ⟨some key, fun k x hk => ?_⟩
    rw [htable] at hk
    rcases getElem?_insert_cases hk with ⟨rfl, hx⟩ | ⟨-, hk⟩
    · exact .inr ⟨rfl, hx, by omega⟩
    · exact .inl ⟨x, hk, rfl, .inl rfl⟩

theorem routed_from {bundle : ℕ} {d : ConnectionToken} (houtcome : outcome = .Routed bundle d) :
    ∃ key : TransferKey, s.transfers.entries[key]? = some ⟨none, bundle⟩ ∧
      s'.transfers.entries[key]? = some ⟨some d, bundle⟩ := by
  cases h with
  | same | deposited => cases houtcome
  | erased _ _ _ htook => rcases htook with rfl | ⟨_, _, rfl⟩ <;> cases houtcome
  | routed hentry htable =>
    cases houtcome
    rw [htable]
    exact ⟨_, hentry, getElem?_insert_self⟩

theorem took_from {bundle : ℕ} {d : ConnectionToken} (houtcome : outcome = .Took bundle d) :
    ∃ key : TransferKey, s.transfers.entries[key]? = some ⟨some d, bundle⟩ ∧
      s'.transfers.entries[key]? = none := by
  cases h with
  | same | deposited | routed => cases houtcome
  | @erased key _ entry hentry htable _ htook =>
    rcases htook with rfl | ⟨_, hdestination, rfl⟩ <;> cases houtcome
    rw [htable, ← hdestination]
    exact ⟨key, hentry, getElem?_erase_self⟩

end TableChange

/-! ## Bundles -/

/-- The bundles in the table are different ones, those that are routed there have been routed, and
those that have been taken are not there. -/
structure Bundles (es : List Event) (s : BinderService) : Prop where
  lt : ∀ (key : TransferKey) entry, s.transfers.entries[key]? = some entry →
    entry.descriptors < s.deposits
  inj : ∀ (key key' : TransferKey) entry entry', s.transfers.entries[key]? = some entry →
    s.transfers.entries[key']? = some entry' → entry.descriptors = entry'.descriptors → key = key'
  routed : ∀ (key : TransferKey) bundle d,
    s.transfers.entries[key]? = some ⟨some d, bundle⟩ → ∃ x ∈ es, x.outcome = .Routed bundle d
  going : ∀ x ∈ es, ∀ bundle d, x.outcome = .Routed bundle d → bundle < s.deposits ∧
    ∀ (key : TransferKey) entry, s.transfers.entries[key]? = some entry →
      entry.descriptors = bundle → entry.destination = some d
  gone : ∀ x ∈ es, ∀ bundle d, x.outcome = .Took bundle d → bundle < s.deposits ∧
    ∀ (key : TransferKey) entry, s.transfers.entries[key]? = some entry →
      entry.descriptors ≠ bundle
  taken : TakenOnce es

namespace Bundles

variable {es : List Event} {e : Event} {s s' : BinderService}

theorem new (identity : ℕ) : Bundles [] (.new identity) := by
  refine ⟨?_, ?_, ?_, ?_, ?_, ?_, ?_, ?_⟩ <;> simp [BinderService.new]

theorem taken_snoc (h : TakenOnce es)
    (htook : ∀ bundle d, e.outcome = .Took bundle d →
      (∀ x ∈ es, ∀ d', x.outcome ≠ .Took bundle d') ∧ ∃ x ∈ es, x.outcome = .Routed bundle d)
    (hrouted : ∀ bundle d, e.outcome = .Routed bundle d →
      ∀ x ∈ es, ∀ d', x.outcome ≠ .Routed bundle d') : TakenOnce (es ++ [e]) := by
  refine ⟨fun bundle => ?_, fun es₁ x es₂ bundle d hsplit hx => ?_,
    fun x hx y hy bundle d d' hxd hyd => ?_⟩
  · rw [List.countP_append, List.countP_singleton]
    have honce := h.once bundle
    split
    next htaken =>
      -- the bundle has not been taken before
      have htaken : e.outcome.taken = some bundle := of_decide_eq_true htaken
      have hnone : es.countP (fun e => e.outcome.taken = some bundle) = 0 := by
        rw [List.countP_eq_zero]
        intro x hx hxtaken
        have hxtaken : x.outcome.taken = some bundle := of_decide_eq_true hxtaken
        unfold Outcome.taken at htaken hxtaken
        split at htaken
        next b d heq =>
          split at hxtaken
          next b' d' heq' =>
            injection htaken with htaken
            injection hxtaken with hxtaken
            rw [hxtaken, ← htaken] at heq'
            exact (htook b d heq).1 x hx d' heq'
          · cases hxtaken
        · cases htaken
      omega
    · omega
  · rcases split_snoc hsplit with ⟨rfl, rfl⟩ | ⟨es₂', hes⟩
    · exact (htook bundle d hx).2
    · exact h.routed es₁ x es₂' bundle d hes hx
  · rcases List.mem_append.mp hx with hx | hx <;> rcases List.mem_append.mp hy with hy | hy
    · exact h.unique x hx y hy bundle d d' hxd hyd
    · rw [List.mem_singleton.mp hy] at hyd
      exact absurd hxd (hrouted bundle d' hyd x hx d)
    · rw [List.mem_singleton.mp hx] at hxd
      exact absurd hyd (hrouted bundle d hxd y hy d')
    · rw [List.mem_singleton.mp hx] at hxd
      rw [List.mem_singleton.mp hy, hxd] at hyd
      injection hyd

/-- What has been told before is told still. -/
theorem told_snoc {o : Outcome} (h : ∃ x ∈ es, x.outcome = o) : ∃ x ∈ es ++ [e], x.outcome = o := by
  obtain ⟨x, hx, ho⟩ := h
  exact ⟨x, List.mem_append_left _ hx, ho⟩

/-- **Every step keeps the account of the bundles.** -/
theorem step (h : Bundles es s) (hchange : TableChange s s' e.outcome) : Bundles (es ++ [e]) s' := by
  obtain ⟨new, hentries⟩ := hchange.entries
  have hle := hchange.deposits_le
  have hinj : ∀ (k k' : TransferKey) x x', s'.transfers.entries[k]? = some x →
      s'.transfers.entries[k']? = some x' → x.descriptors = x'.descriptors → k = k' := by
    intro k k' x x' hk hk' heq
    rcases hentries k x hk with ⟨y, hy, hyx, -⟩ | ⟨hnew, rfl, -⟩ <;>
      rcases hentries k' x' hk' with ⟨y', hy', hyx', -⟩ | ⟨hnew', rfl, -⟩
    · exact h.inj k k' y y' hy hy' (by rw [hyx, hyx', heq])
    · exact absurd (h.lt k y hy) (by rw [hyx, heq]; exact Nat.lt_irrefl _)
    · exact absurd (h.lt k' y' hy') (by rw [hyx', ← heq]; exact Nat.lt_irrefl _)
    · exact Option.some.inj (hnew.symm.trans hnew')
  refine ⟨fun k x hk => ?_, hinj, fun k b d hk => ?_, fun x hx b d hxd => ?_,
    fun x hx b d hxd => ?_, taken_snoc h.taken (fun b d hd => ?_) fun b d hd x hx d' hxd => ?_⟩
  · rcases hentries k x hk with ⟨y, hy, hyx, -⟩ | ⟨-, rfl, hlt⟩
    · rw [← hyx]
      exact Nat.lt_of_lt_of_le (h.lt k y hy) hle
    · exact hlt
  · rcases hentries k _ hk with ⟨y, hy, -, rfl | ⟨-, d', hd', hrouted⟩⟩ | ⟨-, hx, -⟩
    · exact told_snoc (h.routed k b d hy)
    · cases hd'
      exact ⟨e, List.mem_append_right _ List.mem_cons_self, hrouted⟩
    · cases hx
  · rcases mem_snoc hx with hx | rfl
    · obtain ⟨hlt, hgoing⟩ := h.going x hx b d hxd
      refine ⟨Nat.lt_of_lt_of_le hlt hle, fun k y hk heq => ?_⟩
      rcases hentries k y hk with ⟨z, hz, hzy, rfl | ⟨hnone, -⟩⟩ | ⟨-, rfl, -⟩
      · exact hgoing k z hz heq
      · rw [hgoing k z hz (hzy.trans heq)] at hnone
        cases hnone
      · exact absurd hlt (by rw [← heq]; exact Nat.lt_irrefl _)
    · obtain ⟨key, hkey, hkey'⟩ := hchange.routed_from hxd
      refine ⟨Nat.lt_of_lt_of_le (h.lt key _ hkey) hle, fun k y hk heq => ?_⟩
      rw [hinj k key y _ hk hkey' heq, hkey'] at hk
      rw [← Option.some.inj hk]
  · rcases mem_snoc hx with hx | rfl
    · obtain ⟨hlt, hgone⟩ := h.gone x hx b d hxd
      refine ⟨Nat.lt_of_lt_of_le hlt hle, fun k y hk heq => ?_⟩
      rcases hentries k y hk with ⟨z, hz, hzy, -⟩ | ⟨-, rfl, -⟩
      · exact hgone k z hz (hzy.trans heq)
      · exact absurd hlt (by rw [← heq]; exact Nat.lt_irrefl _)
    · -- the bundle is taken now; it was in the table once
      obtain ⟨key, hkey, hkey'⟩ := hchange.took_from hxd
      have hlt := h.lt key _ hkey
      refine ⟨Nat.lt_of_lt_of_le hlt hle, fun k y hk heq => ?_⟩
      rcases hentries k y hk with ⟨z, hz, hzy, -⟩ | ⟨-, rfl, -⟩
      · rw [h.inj k key z _ hz hkey (hzy.trans heq), hkey'] at hk
        cases hk
      · exact absurd hlt (by rw [← heq]; exact Nat.lt_irrefl _)
  · obtain ⟨key, hkey, -⟩ := hchange.took_from hd
    exact ⟨fun x hx d' hxd => (h.gone x hx b d' hxd).2 key _ hkey rfl, h.routed key b d hkey⟩
  · obtain ⟨key, hkey, -⟩ := hchange.routed_from hd
    cases (h.going x hx b d' hxd).2 key _ hkey rfl

end Bundles

/-! ## Nothing is stranded -/

/-- What a transfer waits for is open, and no thread is about to close it. -/
def Tended (s : BinderService) : Prop :=
  ∀ (key : TransferKey) entry, s.transfers.entries[key]? = some entry →
    s.authority.connections.contains (entry.waits key) = true ∧
      ∀ (t : ConnectionToken) frame, s.threads[t]? ≠ some (.Closing (entry.waits key) frame)

/-- What `remove` looks for is what waits for the connection. -/
theorem unreachable_iff {d : ConnectionToken} {key : TransferKey} {entry : Entry} :
    TransferTable.unreachable d key entry = true ↔ entry.waits key = d := by
  unfold TransferTable.unreachable Entry.waits
  cases entry.destination with
  | none => simp
  | some => simp

theorem clean_iff {t : TransferTable} {d : ConnectionToken} (h : t.clean d = true)
    {key : TransferKey} {entry : Entry} (hentry : t.entries[key]? = some entry) :
    entry.waits key ≠ d := by
  intro hd
  have hall := List.all_eq_true.mp h (key, entry)
    (mem_toList_iff_getElem?_eq_some.mpr hentry)
  dsimp only at hall
  rw [unreachable_iff.mpr hd] at hall
  cases hall

namespace Tended

variable {s s' : BinderService} {code flags : UInt32} {a a' : RoutingAuthority}
  {transfer : TransferToken} {session : Session}

theorem new (identity : ℕ) : Tended (.new identity) := by
  intro key entry hentry
  simp [BinderService.new] at hentry

/-- Nothing is added, nothing is closed, and no thread comes to close anything. -/
theorem mono (h : Tended s)
    (hentries : ∀ (key : TransferKey) entry, s'.transfers.entries[key]? = some entry →
      s.transfers.entries[key]? = some entry)
    (hconnections : ∀ c, s.authority.connections.contains c = true →
      s'.authority.connections.contains c = true)
    (hclosing : ∀ (t : ConnectionToken) d frame, s'.threads[t]? = some (.Closing d frame) →
      ∃ (t' : ConnectionToken) (frame' : Frame), s.threads[t']? = some (.Closing d frame')) :
    Tended s' := by
  intro key entry hentry
  obtain ⟨hopen, hnone⟩ := h key entry (hentries key entry hentry)
  refine ⟨hconnections _ hopen, fun t frame ht => ?_⟩
  obtain ⟨t', frame', ht'⟩ := hclosing t _ frame ht
  exact hnone t' frame' ht'

/-- A thread goes to a phase in which it closes nothing. -/
theorem goto (h : Tended s) {c : ConnectionToken} {phase : Phase}
    (hphase : ∀ d frame, phase ≠ .Closing d frame) : Tended (s.goto c phase) := by
  refine h.mono (fun _ _ => id) (fun _ => id) fun t d frame ht => ?_
  rcases goto_threads_cases ht with ⟨-, heq⟩ | ⟨-, ht⟩
  · exact absurd heq.symm (hphase d frame)
  · exact ⟨t, frame, ht⟩

/-- The authority is asked, and the same connections are open after it. -/
theorem asked (h : Tended s) {q : RoutingAuthority.Op} {result : Except Error Reply}
    {a : RoutingAuthority} (hchange : RoutingAuthority.Change s.authority q result a)
    (hopen : ∀ opened, result ≠ .ok (.Opened opened))
    (hclose : ∀ outcome, result ≠ .ok (.Closed outcome)) : Tended { s with authority := a } := by
  refine h.mono (fun _ _ => id) (fun c hc => ?_) fun t d frame ht => ⟨t, frame, ht⟩
  rwa [(keeps_connections hchange hopen hclose).2]

theorem erase (h : Tended s) (key : TransferKey) :
    Tended { s with transfers := ⟨s.transfers.entries.erase key⟩ } :=
  h.mono (fun _ _ hentry => (getElem?_erase_cases hentry).2) (fun _ => id) fun t _ frame ht =>
    ⟨t, frame, ht⟩

/-- An entry is written that waits for a connection which is open and which nobody closes. -/
theorem insert (h : Tended s) {key : TransferKey} {entry : Entry}
    (hopen : s.authority.connections.contains (entry.waits key) = true)
    (hnone : ∀ (t : ConnectionToken) frame, s.threads[t]? ≠ some (.Closing (entry.waits key) frame)) :
    Tended { s with transfers := ⟨s.transfers.entries.insert key entry⟩ } := by
  intro k x hk
  rcases getElem?_insert_cases hk with ⟨rfl, rfl⟩ | ⟨-, hk⟩
  · exact ⟨hopen, hnone⟩
  · exact h k x hk

/-- Whom the authority routes a transaction to is the owner of the target, which is open. -/
theorem routed_to {target : NodeToken} {caller_thread : UInt64} {memory : Bool}
    {outcome : RouteOutcome}
    (h : RoutingAuthority.Change a (.route_transaction session target caller_thread transfer code
      flags memory) (.ok (.Routed outcome)) a') :
    outcome.delivery.destination = target.owner ∧ a.connections.contains target.owner = true := by
  cases h with
  | read hreply => simp at hreply
  | routed_oneway hdelivery _ _ htarget | routed _ hdelivery _ _ _ htarget =>
    obtain ⟨connection, hconn, -⟩ := htarget
    exact ⟨hdelivery, contains_of_some hconn⟩

/-- Whom the authority routes a reply to is the caller, which is open. -/
theorem replied_to {call : CallToken} {outbound : Outbound}
    (h : RoutingAuthority.Change a (.complete_reply session call transfer code flags)
      (.ok (.Replied (some outbound))) a') :
    ∃ route, a.calls[call]? = some route ∧ outbound.destination = route.sender ∧
      a.connections.contains route.sender = true := by
  cases h with
  | read hreply => simp at hreply
  | replied hroute _ hsender => exact ⟨_, hroute, rfl, hsender⟩

/-- **Every step that does not stray keeps the transfers tended.** -/
theorem step {e : Event} (h : Tended s) (hsound : Sound s) (hstep : Step s e s')
    (hstrays : ¬ e.Strays) : Tended s' := by
  have hbefore : e.before = s := hstep.1
  have hchange := hstep.change
  generalize hop : e.op = op at hchange
  generalize e.outcome = outcome at hchange
  -- nobody closes whom a request goes to
  have hgoes : ∀ c message memory d, op = .Receive c message memory →
      s.recipient message = some d →
      ∀ (t : ConnectionToken) frame, s.threads[t]? ≠ some (.Closing d frame) := by
    intro c message memory d hreceive hd t frame ht
    rw [← hbefore] at hd ht
    exact hstrays ⟨c, message, memory, d, t, frame, hop.trans hreceive, hd, ht⟩
  cases hchange with
  | idle | ended => exact h
  | @opened peer memory c response a hplain hchange =>
    have hs : Tended { s with authority := a, endpoints := s.endpoints.insert c ⟨peer⟩ } := by
      refine h.mono (fun _ _ => id) (fun d hd => ?_) fun t d frame ht => ⟨t, frame, ht⟩
      cases hchange with
      | opened => exact contains_insert_iff.mpr (.inr hd)
      | read => exact hd
    exact hs.goto nofun
  | answered _ _ hchange | dropped _ hchange =>
    exact (h.asked hchange nofun nofun).goto nofun
  | discarded _ _ _ hchange hresult =>
    refine ((h.asked hchange ?_ ?_).erase _).goto nofun
    · rintro opened rfl
      simp at hresult
    · rintro outcome rfl
      simp at hresult
  | routed _ _ hchange =>
    obtain ⟨hd, hopen⟩ := routed_to hchange
    refine ((h.asked hchange nofun nofun).insert ?_ ?_).goto nofun
    · rw [(keeps_connections hchange nofun nofun).2]
      rwa [Entry.waits, Option.getD_some, hd]
    · rw [Entry.waits, Option.getD_some, hd]
      exact hgoes _ _ _ _ rfl rfl
  | replied _ _ hchange =>
    obtain ⟨route, hroute, hd, hopen⟩ := replied_to hchange
    refine ((h.asked hchange nofun nofun).insert ?_ ?_).goto nofun
    · rw [(keeps_connections hchange nofun nofun).2]
      rwa [Entry.waits, Option.getD_some, hd]
    · rw [Entry.waits, Option.getD_some, hd]
      refine hgoes _ _ _ _ rfl ?_
      rw [recipient, hroute]
      rfl
  | sent _ hsends =>
    have hs : ∀ outbox, Tended { s with outbox := outbox } := fun _ => h
    refine (hs _).goto fun d frame => ?_
    cases hsends <;> exact nofun
  | moved _ hmoves =>
    cases hmoves with
    | @purged d frame hclean =>
      -- nothing waits for the connection that is closed next
      intro key entry hentry
      refine ⟨(h key entry hentry).1, fun t frame' ht => ?_⟩
      rcases goto_threads_cases ht with ⟨-, heq⟩ | ⟨-, ht⟩
      · injection heq with hd
        exact clean_iff hclean hentry hd
      · exact (h key entry hentry).2 t frame' ht
    | @absent d frame hnone => cases frame <;> exact h.goto nofun
    | @unclosed d frame => cases frame <;> exact h.goto nofun
    | _ => exact h.goto nofun
  | finished =>
    exact h.mono (fun _ _ => id) (fun _ => id) fun t d frame ht => ⟨t, frame, (finish_threads ht).2⟩
  | removed =>
    have hs : ∀ endpoints, Tended { s with endpoints := endpoints } := fun _ => h
    exact (hs _).goto nofun
  | purged | took | cancelled => exact h.erase _
  | @closed c d frame memory hthread hconn =>
    -- nothing waits for the connection that is closed
    have hs : Tended { s with authority := s.authority.closed d } := by
      intro key entry hentry
      obtain ⟨hopen, hnone⟩ := h key entry hentry
      refine ⟨contains_erase_iff.mpr ⟨?_, hopen⟩, hnone⟩
      rintro rfl
      exact hnone c frame hthread
    cases frame <;> exact hs.goto nofun
  | @deposited op c token endpoint hendpoint hfresh =>
    refine @Tended.insert s h ⟨c, token⟩ ⟨none, s.deposits⟩ ?_ ?_
    · exact hsound.live c endpoint hendpoint
    · intro t frame ht
      have hgone := (hsound.removed t _ c ht rfl).1
      rw [hendpoint] at hgone
      cases hgone

theorem unstranded (h : Tended s) : Unstranded s := by
  refine ⟨fun key entry d hentry hd hclosed => ?_, fun key entry hentry hnone hclosed => ?_⟩
  · have hopen := (h key entry hentry).1
    rw [Entry.waits, hd, Option.getD_some, hclosed.2] at hopen
    cases hopen
  · have hopen := (h key entry hentry).1
    rw [Entry.waits, hnone, Option.getD_none, hclosed.2] at hopen
    cases hopen

end Tended

/-- **Transfers are taken once, and stranded only by a request that strays.** In every run a bundle
is taken at most once, by the connection it was routed to. In every run in which no transaction and
no reply comes for a connection between the removal of its transfers and its close, no transfer
waits for a connection that was closed. -/
theorem transfers_taken_once_and_unstranded {identity : ℕ} {es : List Event} {s : BinderService}
    (hrun : Run Step (.new identity) es s) :
    TakenOnce es ∧ ((∀ e ∈ es, ¬ e.Strays) → Unstranded s) := by
  have hbundles : Bundles es s := Run.history Bundles (Bundles.new identity)
    (fun _ _ _ _ _ h hstep => h.step hstep.change.table) hrun
  have htended : (∀ e ∈ es, ¬ e.Strays) → Tended s :=
    Run.invariant_while Tended (Tended.new identity)
      (fun _ _ _ _ hbefore ht hstep => ht.step (run_sound hbefore) hstep) hrun
  exact ⟨hbundles.taken, fun hstrays => (htended hstrays).unstranded⟩

/-! ## A target that closes, and a caller -/

/-- The connections that are opened first and second. -/
def first : ConnectionToken := ⟨1, Nat.one_ne_zero, Token.one_fits⟩

def second : ConnectionToken := ⟨2, Token.two_nonzero, Token.two_fits⟩

/-- A step of a thread, with all the memory it wants. -/
def go_on (c : ConnectionToken) : Op := .Go c ⟨true, true⟩

theorem valid_100 : (100 : UInt32) ≠ 0 ∧ (100 : UInt32).toNat ≤ 2 ^ 31 - 1 := by decide

theorem valid_200 : (200 : UInt32) ≠ 0 ∧ (200 : UInt32).toNat ≤ 2 ^ 31 - 1 := by decide

/-- Two peers connect, the first publishes the node 1, and the second deposits the transfer 1. -/
def meet : List Op :=
  [.Serve ⟨100, 1000, (0, 0), valid_100⟩ true, go_on first,
    .Serve ⟨200, 10000, (0, 0), valid_200⟩ true, go_on second,
    .Receive first (.PublishNode ⟨1, Nat.one_ne_zero, Token.one_fits⟩) true, go_on first,
    .Deposit ⟨200, 10000, (0, 0), valid_200⟩ ⟨1, Nat.one_ne_zero, Token.one_fits⟩ (.ok ()) true true]

/-- The second calls the node of the first, with the transfer 1. -/
def request : Message :=
  .RouteTransaction ⟨first, ⟨1, Nat.one_ne_zero, Token.one_fits⟩⟩ 7
    ⟨1, Nat.one_ne_zero, Token.one_fits⟩ 1 0

/-- The first hangs up. When its transfers have been removed, the second calls it; and then the
authority is told. -/
def hang_up_and_call : List Op :=
  meet ++ [.HangUp first, go_on first, go_on first, .Receive second request true, go_on second,
    go_on second, go_on second, go_on second, go_on first, go_on first, go_on first, go_on first,
    go_on first]

/-- **A transfer is stranded**: nobody does anything any more, and the transfer 1 is routed to the
first connection, which was closed. -/
theorem stray_request_strands_transfer :
    ∃ es s, Run Step (.new 0) es s ∧ Quiet s ∧ ¬ Unstranded s := by
  have hevents : ((BinderService.new 0).events hang_up_and_call).map (fun r =>
      (r.2.threads.toList, r.2.transfers.entries[(⟨second, ⟨1, by decide, by decide⟩⟩ : TransferKey)]?,
        decide (first.raw ≤ r.2.authority.next_connection),
        r.2.authority.connections.contains first)) =
      some ([(second, .Serving)], some ⟨some first, 0⟩, true, false) := by
    decide +kernel
  obtain ⟨⟨es, s⟩, hrun, hfacts⟩ := Option.map_eq_some_iff.mp hevents
  injection hfacts with hthreads hfacts
  injection hfacts with hentry hfacts
  injection hfacts with hle hgone
  refine ⟨es, s, run_events hrun, fun c phase hc => ?_, fun h => ?_⟩
  · have hmem := mem_toList_iff_getElem?_eq_some.mpr hc
    rw [hthreads, List.mem_singleton] at hmem
    exact congrArg Prod.snd hmem
  · exact h.routed _ _ first hentry rfl ⟨of_decide_eq_true hle, hgone⟩

/-- The second calls the first, and the first takes the transfer. -/
def call_and_take : List Op :=
  meet ++ [.Receive second request true, go_on second, go_on second, go_on second, go_on second,
    .Take ⟨100, 1000, (0, 0), valid_100⟩ second ⟨1, Nat.one_ne_zero, Token.one_fits⟩ true]

theorem delivered_transfer_taken_once :
    ∃ es s, Run Step (.new 0) es s ∧ (∃ e ∈ es, e.outcome = .Took 0 first) ∧
      (∀ e ∈ es, ¬ e.Strays) ∧ TakenOnce es ∧ Unstranded s := by
  have hevents : ((BinderService.new 0).events call_and_take).map (fun r =>
      (r.1.any fun e => e.outcome = .Took 0 first,
        r.1.all fun e => e.before.threads.toList.all fun (_, phase) => phase.removing = none)) =
      some (true, true) := by
    decide +kernel
  obtain ⟨⟨es, s⟩, hrun, hfacts⟩ := Option.map_eq_some_iff.mp hevents
  injection hfacts with htook hnone
  have hstrays : ∀ e ∈ es, ¬ e.Strays := by
    rintro e he ⟨c, message, memory, d, t, frame, -, -, ht⟩
    have hall := List.all_eq_true.mp (List.all_eq_true.mp hnone e he) (t, .Closing d frame)
      (mem_toList_iff_getElem?_eq_some.mpr ht)
    exact nomatch of_decide_eq_true hall
  obtain ⟨e, he, htook⟩ := List.any_eq_true.mp htook
  obtain ⟨htaken, hunstranded⟩ := transfers_taken_once_and_unstranded (run_events hrun)
  exact ⟨es, s, run_events hrun, ⟨e, he, of_decide_eq_true htook⟩, hstrays, htaken,
    hunstranded hstrays⟩

end BinderService

end DarwinArt.Profile
