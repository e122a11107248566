/-
Which runs of the authority stream strand a request.

Three places set `closed` with a swap, and only a place that finds it unset drains
`pending`; `close_authority` sets it and drains nothing. So the dispatcher, stopping, may
find `closed` set by a `close_authority` and leave the queue as it is; and it may drain
the queue between a request's look at `closed` and its push. In both cases an entry stays
that nobody will answer, and its thread waits for ever.

`Clean` asks of the two steps of `fail_pending` that this is not so. A run that ends with
the dispatcher stopped and all requests past their sends has stranded nobody exactly when
its steps are clean.
-/
import DarwinArt.BinderProcess.Client

set_option autoImplicit false

namespace DarwinArt.BinderProcess.State

open Lib Binder

open State

/-! ## What a step can do -/

/-- The steps with what they find and what they leave. -/
inductive Moved (s : State) : Op → State → Prop
  | call {id : ℕ} {message : Message} {expected : Expected} {remote_commit : Option RemoteCommit}
      (hnew : s.requests[id]? = none) :
      Moved s (.call id message expected remote_commit)
        (s.put id ⟨message, expected, remote_commit, .Entered⟩ .Entered)
  | lock {id : ℕ} {request : Request} (hid : s.requests[id]? = some request)
      (hphase : request.phase = .Entered) (hfree : s.send_order = none) :
      Moved s (.lock id) { s.put id request .Locked with send_order := some id }
  | check_closed {id : ℕ} {request : Request} (hid : s.requests[id]? = some request)
      (hphase : request.phase = .Locked) (hclosed : s.closed = true) :
      Moved s (.check id) (s.put id request (.Leaving .Closed))
  | check_open {id : ℕ} {request : Request} (hid : s.requests[id]? = some request)
      (hphase : request.phase = .Locked) (hopen : s.closed = false) :
      Moved s (.check id) (s.put id request .Checked)
  | push_full {id : ℕ} {request : Request} (hid : s.requests[id]? = some request)
      (hphase : request.phase = .Checked) (hfull : s.pending.length = MAX_PENDING_REQUESTS) :
      Moved s (.push id) (s.put id request (.Leaving .Busy))
  | push {id : ℕ} {request : Request} (hid : s.requests[id]? = some request)
      (hphase : request.phase = .Checked) :
      Moved s (.push id) { s.put id request .Pushed with
        pending := s.pending ++ [⟨request.expected, id, request.remote_commit⟩] }
  | send_ok {id : ℕ} {request : Request} (hid : s.requests[id]? = some request)
      (hphase : request.phase = .Pushed) : Moved s (.send id (.ok ())) (s.put id request .Sent)
  | send_error {id : ℕ} {request : Request} {text : String} (hid : s.requests[id]? = some request)
      (hphase : request.phase = .Pushed) :
      Moved s (.send id (.error text)) (s.put id request (.SendFailed text))
  | swap_closed {id : ℕ} {request : Request} {text : String}
      (hid : s.requests[id]? = some request) (hphase : request.phase = .SendFailed text)
      (hclosed : s.closed = true) :
      Moved s (.swap id) { s.put id request (.Leaving (.Transport text)) with closed := true }
  | swap_open {id : ℕ} {request : Request} {text : String} (hid : s.requests[id]? = some request)
      (hphase : request.phase = .SendFailed text) (hopen : s.closed = false) :
      Moved s (.swap id) { s.put id request (.Draining text) with closed := true }
  | drain {id : ℕ} {request : Request} {text : String} (hid : s.requests[id]? = some request)
      (hphase : request.phase = .Draining text) :
      Moved s (.drain id) { s.put id request (.Leaving (.Transport text)) with
        pending := []
        responses := answer_all s.responses s.pending (.error .Closed) }
  | unlock_sent {id : ℕ} {request : Request} (hid : s.requests[id]? = some request)
      (hphase : request.phase = .Sent) :
      Moved s (.unlock id) { s.put id request .Waiting with send_order := none }
  | unlock_leaving {id : ℕ} {request : Request} {error : Error}
      (hid : s.requests[id]? = some request) (hphase : request.phase = .Leaving error) :
      Moved s (.unlock id) { s.put id request (.Returned (.error error)) with send_order := none }
  | recv {id : ℕ} {request : Request} {response : Response}
      (hid : s.requests[id]? = some request) (hphase : request.phase = .Waiting) :
      Moved s (.recv id) (s.put id request (.Returned response))
  | close_send : Moved s .close_send { s with closing := true }
  | close_swap : Moved s .close_swap { s with closing := false, closed := true }
  | receive {result : Except String Message} {phase : DispatcherPhase}
      (hold : s.dispatcher = .Receiving)
      (hnew : (∃ message, phase = .Received message) ∨ ∃ error, phase = .Failing error) :
      Moved s (.receive result) { s with dispatcher := phase }
  | handle {outcome : Except Error Unit} {message : Message} {phase : DispatcherPhase}
      (hold : s.dispatcher = .Received message)
      (hnew : phase = .Receiving ∨ ∃ error, phase = .Failing error) :
      Moved s (.handle outcome) { s with dispatcher := phase }
  | take {outcome : Except Error Unit} {message : Message} {entry : Pending}
      {rest : List Pending} (hold : s.dispatcher = .Received message)
      (hpending : s.pending = entry :: rest) :
      Moved s (.handle outcome)
        { s with pending := rest, dispatcher := .Completing entry message }
  | respond {device : Except String Unit} {entry : Pending} {message : Message}
      {response : Response} {phase : DispatcherPhase}
      (hold : s.dispatcher = .Completing entry message)
      (hnew : phase = .Receiving ∨ ∃ error, phase = .Failing error) :
      Moved s (.respond device) { s with
        dispatcher := phase
        responses := s.responses.insert entry.response response }
  | fail_swap_closed {error : Error} (hold : s.dispatcher = .Failing error)
      (hclosed : s.closed = true) :
      Moved s .fail_swap { s with closed := true, dispatcher := .Stopped error }
  | fail_swap_open {error : Error} (hold : s.dispatcher = .Failing error)
      (hopen : s.closed = false) :
      Moved s .fail_swap { s with closed := true, dispatcher := .Draining error }
  | fail_drain {error : Error} (hold : s.dispatcher = .Draining error) :
      Moved s .fail_drain { s with
        pending := []
        responses := answer_all s.responses s.pending (.error (.DispatcherStopped error))
        dispatcher := .Stopped error }

variable {s s' : State} {op : Op} {id id' : ℕ} {phase : Phase} {request request' : Request}
  {es : List Event}

/-- **Every step is one of these.** -/
theorem moved (h : s.perform op = some s') : Moved s op s' := by
  cases op with
  | call =>
    simp only [perform] at h
    split at h
    · simp at h
    · next hnew =>
      cases h
      exact .call (contains_eq_false_iff.mp (Bool.eq_false_of_not_eq_true hnew))
  | lock =>
    obtain ⟨request, hid, h⟩ := Option.bind_eq_some_iff.mp h
    unfold lock at h
    split at h
    · next hphase hfree =>
      cases h
      exact .lock hid hphase hfree
    · simp at h
  | check =>
    obtain ⟨request, hid, h⟩ := Option.bind_eq_some_iff.mp h
    unfold check at h
    split at h
    · next hphase =>
      cases h
      cases hclosed : s.closed with
      | true => exact .check_closed hid hphase hclosed
      | false => exact .check_open hid hphase hclosed
    · simp at h
  | push =>
    obtain ⟨request, hid, h⟩ := Option.bind_eq_some_iff.mp h
    unfold push at h
    split at h
    · next hphase =>
      split at h
      · next hfull =>
        cases h
        exact .push_full hid hphase hfull
      · cases h
        exact .push hid hphase
    · simp at h
  | send _ result =>
    obtain ⟨request, hid, h⟩ := Option.bind_eq_some_iff.mp h
    unfold send at h
    split at h
    · next hphase =>
      cases result with
      | ok =>
        cases h
        exact .send_ok hid hphase
      | error =>
        cases h
        exact .send_error hid hphase
    · simp at h
  | swap =>
    obtain ⟨request, hid, h⟩ := Option.bind_eq_some_iff.mp h
    unfold swap at h
    split at h
    · next text hphase =>
      cases h
      cases hclosed : s.closed with
      | true => exact .swap_closed hid hphase hclosed
      | false => exact .swap_open hid hphase hclosed
    · simp at h
  | drain =>
    obtain ⟨request, hid, h⟩ := Option.bind_eq_some_iff.mp h
    unfold drain at h
    split at h
    · next text hphase =>
      cases h
      exact .drain hid hphase
    · simp at h
  | unlock =>
    obtain ⟨request, hid, h⟩ := Option.bind_eq_some_iff.mp h
    unfold unlock at h
    split at h
    · next hphase =>
      cases h
      exact .unlock_sent hid hphase
    · next error hphase =>
      cases h
      exact .unlock_leaving hid hphase
    · simp at h
  | recv =>
    obtain ⟨request, hid, h⟩ := Option.bind_eq_some_iff.mp h
    unfold recv at h
    split at h
    · next response hphase _ =>
      cases h
      exact .recv hid hphase
    · simp at h
  | close_send =>
    simp only [perform, close_send] at h
    split at h
    · simp at h
    · cases h
      exact .close_send
  | close_swap =>
    simp only [perform, close_swap] at h
    split at h
    · cases h
      exact .close_swap
    · simp at h
  | receive result =>
    simp only [perform, receive] at h
    split at h
    · next hold =>
      cases result with
      | ok message =>
        cases h
        exact .receive hold (.inl ⟨message, rfl⟩)
      | error =>
        cases h
        exact .receive hold (.inr ⟨_, rfl⟩)
    · simp at h
  | handle outcome =>
    simp only [perform, handle] at h
    split at h
    · next message hold =>
      split at h
      · split at h
        · cases h
          exact .handle hold (.inr ⟨_, rfl⟩)
        · next entry rest hpending =>
          cases h
          exact .take hold hpending
      · cases outcome with
        | ok =>
          cases h
          exact .handle hold (.inl rfl)
        | error =>
          cases h
          exact .handle hold (.inr ⟨_, rfl⟩)
      · cases h
        exact .handle hold (.inr ⟨_, rfl⟩)
    · simp at h
  | respond =>
    simp only [perform, respond] at h
    split at h
    · next entry message hold =>
      split at h
      · cases h
        exact .respond hold (.inr ⟨_, rfl⟩)
      · cases h
        refine .respond hold ?_
        split
        · exact .inr ⟨_, rfl⟩
        · exact .inl rfl
    · simp at h
  | fail_swap =>
    simp only [perform, fail_swap] at h
    split at h
    · next error hold =>
      cases h
      cases hclosed : s.closed with
      | true => exact .fail_swap_closed hold hclosed
      | false => exact .fail_swap_open hold hclosed
    · simp at h
  | fail_drain =>
    simp only [perform, fail_drain] at h
    split at h
    · next error hold =>
      cases h
      exact .fail_drain hold
    · simp at h

/-! ## The lock and the flag -/

/-- A request has read `closed` as unset and not yet pushed. -/
def Checked (requests : Map ℕ Request) : Prop :=
  ∃ (id : ℕ) (request : Request), requests[id]? = some request ∧ request.phase = .Checked

/-- A request is about to drain the queue. -/
def Draining (requests : Map ℕ Request) : Prop :=
  ∃ (id : ℕ) (request : Request) (text : String),
    requests[id]? = some request ∧ request.phase = .Draining text

/-- The queue is empty and stays so, or a request is about to empty it. -/
def Drained (s : State) : Prop :=
  Draining s.requests ∨ (s.pending = [] ∧ ¬ Checked s.requests)

/-- The threads after one has gone on. -/
theorem put_requests (s : State) (id id' : ℕ) (request : Request) (phase : Phase) :
    (s.put id request phase).requests[id']? =
      if id = id' then some { request with phase := phase } else s.requests[id']? := by
  simp [put, getElem?_insert]

theorem put_some (h : (s.put id request phase).requests[id']? = some request') :
    (id = id' ∧ request' = { request with phase := phase }) ∨
      (id ≠ id' ∧ s.requests[id']? = some request') := by
  rw [put_requests] at h
  split at h
  · next hid => exact .inl ⟨hid, (Option.some.inj h).symm⟩
  · next hid => exact .inr ⟨hid, h⟩

/-- Who is inside `send_order`, and who may be draining. -/
structure LockInv (s : State) : Prop where
  holder : ∀ (id : ℕ) request, s.requests[id]? = some request → request.phase.holds = true →
    s.send_order = some id
  open_idle : s.closed = false → ¬ Draining s.requests ∧
    (∀ error, s.dispatcher ≠ .Draining error) ∧ ∀ error, s.dispatcher ≠ .Stopped error
  /-- One that drains was the one to set `closed`. -/
  sole_drainer : ∀ error, s.dispatcher = .Draining error → ¬ Draining s.requests

/-- At most one thread is inside. -/
theorem LockInv.unique (h : LockInv s)
    (hid : s.requests[id]? = some request) (hholds : request.phase.holds = true)
    (hid' : s.requests[id']? = some request') (hholds' : request'.phase.holds = true) :
    id = id' :=
  Option.some.inj ((h.holder id request hid hholds).symm.trans (h.holder id' request' hid' hholds'))

/-- A thread that is inside, and goes on, is the only one that could be checked or draining. -/
theorem LockInv.alone (h : LockInv s)
    (hid : s.requests[id]? = some request) (hholds : request.phase.holds = true) (phase : Phase) :
    (Checked (s.put id request phase).requests ↔ phase = .Checked) ∧
      (Draining (s.put id request phase).requests ↔ ∃ text, phase = .Draining text) := by
  refine ⟨⟨?_, ?_⟩, ⟨?_, ?_⟩⟩
  · rintro ⟨id', request', hid', hphase⟩
    rcases put_some hid' with ⟨-, rfl⟩ | ⟨hne, hid'⟩
    · exact hphase
    · exact absurd (h.unique hid hholds hid' (by rw [hphase]; rfl)) hne
  · rintro rfl
    exact ⟨id, _, by rw [put_requests, if_pos rfl], rfl⟩
  · rintro ⟨id', request', text, hid', hphase⟩
    rcases put_some hid' with ⟨-, rfl⟩ | ⟨hne, hid'⟩
    · exact ⟨text, hphase⟩
    · exact absurd (h.unique hid hholds hid' (by rw [hphase]; rfl)) hne
  · rintro ⟨text, rfl⟩
    exact ⟨id, _, text, by rw [put_requests, if_pos rfl], rfl⟩

/-- A thread that is neither checked nor draining goes on to where it is neither. -/
theorem put_neither
    (hold : ∀ request', s.requests[id]? = some request' →
      request'.phase ≠ .Checked ∧ ∀ text, request'.phase ≠ .Draining text)
    (hnew : phase ≠ .Checked ∧ ∀ text, phase ≠ .Draining text) :
    (Checked (s.put id request phase).requests ↔ Checked s.requests) ∧
      (Draining (s.put id request phase).requests ↔ Draining s.requests) := by
  refine ⟨⟨?_, ?_⟩, ⟨?_, ?_⟩⟩
  · rintro ⟨id', request', hid', hphase⟩
    rcases put_some hid' with ⟨-, rfl⟩ | ⟨-, hid'⟩
    · exact absurd hphase hnew.1
    · exact ⟨id', request', hid', hphase⟩
  · rintro ⟨id', request', hid', hphase⟩
    have hne : id ≠ id' := by
      rintro rfl
      exact (hold request' hid').1 hphase
    exact ⟨id', request', by rw [put_requests, if_neg hne]; exact hid', hphase⟩
  · rintro ⟨id', request', text, hid', hphase⟩
    rcases put_some hid' with ⟨-, rfl⟩ | ⟨-, hid'⟩
    · exact absurd hphase (hnew.2 text)
    · exact ⟨id', request', text, hid', hphase⟩
  · rintro ⟨id', request', text, hid', hphase⟩
    have hne : id ≠ id' := by
      rintro rfl
      exact (hold request' hid').2 text hphase
    exact ⟨id', request', text, by rw [put_requests, if_neg hne]; exact hid', hphase⟩

/-- `put_neither` for a thread whose phase is known. -/
theorem put_neither_of {old new : Phase}
    (hid : s.requests[id]? = some request) (hphase : request.phase = old)
    (hold : old ≠ .Checked ∧ ∀ text, old ≠ .Draining text)
    (hnew : new ≠ .Checked ∧ ∀ text, new ≠ .Draining text) :
    (Checked (s.put id request new).requests ↔ Checked s.requests) ∧
      (Draining (s.put id request new).requests ↔ Draining s.requests) := by
  refine put_neither (fun _ hid' => ?_) hnew
  rw [hid] at hid'
  rwa [← Option.some.inj hid', hphase]

/-- A thread inside goes on, and stays inside. -/
theorem LockInv.holder_put (h : LockInv s)
    (hid : s.requests[id]? = some request) (hholds : request.phase.holds = true) (phase : Phase) :
    ∀ (id' : ℕ) request', (s.put id request phase).requests[id']? = some request' →
      request'.phase.holds = true → s.send_order = some id' := by
  intro id' request' hid' hholds'
  rcases put_some hid' with ⟨rfl, -⟩ | ⟨-, hid'⟩
  · exact h.holder id request hid hholds
  · exact h.holder id' request' hid' hholds'

/-- A thread that leaves, or was never inside. -/
theorem LockInv.holder_out (h : LockInv s) (hphase : phase.holds = false) :
    ∀ (id' : ℕ) request', (s.put id request phase).requests[id']? = some request' →
      request'.phase.holds = true → s.send_order = some id' := by
  intro id' request' hid' hholds'
  rcases put_some hid' with ⟨-, rfl⟩ | ⟨-, hid'⟩
  · rw [hphase] at hholds'
    cases hholds'
  · exact h.holder id' request' hid' hholds'

/-- No one is inside once the holder has left. -/
theorem LockInv.holder_unlock (h : LockInv s)
    (hid : s.requests[id]? = some request) (hholds : request.phase.holds = true)
    (hphase : phase.holds = false) :
    ∀ (id' : ℕ) request', (s.put id request phase).requests[id']? = some request' →
      request'.phase.holds = true → none = some id' := by
  intro id' request' hid' hholds'
  rcases put_some hid' with ⟨-, rfl⟩ | ⟨hne, hid'⟩
  · rw [hphase] at hholds'
    cases hholds'
  · exact absurd (h.unique hid hholds hid' hholds') hne

theorem LockInv.new : LockInv State.new where
  holder id request hid := by simp [State.new] at hid
  open_idle _ := by
    refine ⟨?_, by simp [State.new], by simp [State.new]⟩
    rintro ⟨_, _, _, hid, -⟩
    simp [State.new] at hid
  sole_drainer error h := by simp [State.new] at h

/-- A step of a thread that leaves `closed` and the dispatcher alone, and drains nothing. -/
theorem LockInv.go_on (h : LockInv s)
    (hholder : ∀ (id : ℕ) request, s'.requests[id]? = some request →
      request.phase.holds = true → s'.send_order = some id)
    (hclosed : s'.closed = false → s.closed = false) (hdispatcher : s'.dispatcher = s.dispatcher)
    (hdraining : Draining s'.requests → Draining s.requests) : LockInv s' where
  holder := hholder
  open_idle hopen := by
    obtain ⟨hidle, hdrain, hstop⟩ := h.open_idle (hclosed hopen)
    rw [hdispatcher]
    exact ⟨fun hd => hidle (hdraining hd), hdrain, hstop⟩
  sole_drainer error herror hd := by
    rw [hdispatcher] at herror
    exact h.sole_drainer error herror (hdraining hd)

theorem LockInv.step (h : LockInv s) (hm : Moved s op s') :
    LockInv s' := by
  cases hm with
  | call hnew =>
    refine h.go_on (h.holder_out rfl) (fun hc => hc) rfl fun hd => ?_
    refine (put_neither (fun request' hid' => ?_) (by simp)).2.mp hd
    rw [hnew] at hid'
    cases hid'
  | lock hid hphase hfree =>
    refine h.go_on ?_ (fun hc => hc) rfl (put_neither_of hid hphase (by simp) (by simp)).2.mp
    intro id' request' hid' hholds'
    rcases put_some hid' with ⟨rfl, -⟩ | ⟨-, hid'⟩
    · rfl
    · have := h.holder id' request' hid' hholds'
      rw [hfree] at this
      cases this
  | check_closed hid hphase | send_ok hid hphase | send_error hid hphase =>
    exact h.go_on (h.holder_put hid (by rw [hphase]; rfl) _) (fun hc => hc) rfl
      (put_neither_of hid hphase (by simp) (by simp)).2.mp
  | check_open hid hphase | push_full hid hphase | push hid hphase | drain hid hphase =>
    refine h.go_on (h.holder_put hid (by rw [hphase]; rfl) _) (fun hc => hc) rfl fun hd => ?_
    obtain ⟨text, hd⟩ := (h.alone hid (by rw [hphase]; rfl) _).2.mp hd
    cases hd
  | swap_closed hid hphase =>
    exact h.go_on (h.holder_put hid (by rw [hphase]; rfl) _) (fun hc => absurd hc (by simp)) rfl
      (put_neither_of hid hphase (by simp) (by simp)).2.mp
  | swap_open hid hphase hopen =>
    -- the only step that makes a thread drain: the dispatcher is not draining yet
    obtain ⟨-, hdrain, -⟩ := h.open_idle hopen
    exact ⟨h.holder_put hid (by rw [hphase]; rfl) _, fun hc => absurd hc (by simp),
      fun error herror => absurd herror (hdrain error)⟩
  | unlock_sent hid hphase | unlock_leaving hid hphase =>
    exact h.go_on (h.holder_unlock hid (by rw [hphase]; rfl) rfl) (fun hc => hc) rfl
      (put_neither_of hid hphase (by simp) (by simp)).2.mp
  | recv hid hphase =>
    exact h.go_on (h.holder_out rfl) (fun hc => hc) rfl
      (put_neither_of hid hphase (by simp) (by simp)).2.mp
  | close_send => exact ⟨h.holder, h.open_idle, h.sole_drainer⟩
  | close_swap => exact ⟨h.holder, fun hc => absurd hc (by simp), h.sole_drainer⟩
  | receive _ hnew =>
    rcases hnew with ⟨_, rfl⟩ | ⟨error, rfl⟩
    · exact ⟨h.holder, fun hc => ⟨(h.open_idle hc).1, by simp, by simp⟩, by simp⟩
    · exact ⟨h.holder, fun hc => ⟨(h.open_idle hc).1, by simp, by simp⟩, by simp⟩
  | handle _ hnew | respond _ hnew =>
    rcases hnew with rfl | ⟨error, rfl⟩
    · exact ⟨h.holder, fun hc => ⟨(h.open_idle hc).1, by simp, by simp⟩, by simp⟩
    · exact ⟨h.holder, fun hc => ⟨(h.open_idle hc).1, by simp, by simp⟩, by simp⟩
  | take =>
    exact ⟨h.holder, fun hc => ⟨(h.open_idle hc).1, by simp, by simp⟩, by simp⟩
  | fail_swap_closed =>
    exact ⟨h.holder, fun hc => absurd hc (by simp), by simp⟩
  | fail_swap_open _ hopen =>
    exact ⟨h.holder, fun hc => absurd hc (by simp), fun _ _ => (h.open_idle hopen).1⟩
  | fail_drain hold =>
    refine ⟨h.holder, fun hc => ?_, by simp⟩
    exact absurd hold ((h.open_idle hc).2.1 _)

/-! ## Entries and answers -/

/-- The request has put its entry into the queue. -/
def HasPushed (requests : Map ℕ Request) (id : ℕ) : Prop :=
  ∃ request, requests[id]? = some request ∧ request.phase.pushed = true

/-- Each entry is of a request that pushed it, once, and an answered one is gone. -/
structure AnswerInv (s : State) : Prop where
  nodup : (s.pending.map Pending.response).Nodup
  entered : ∀ p ∈ s.pending, HasPushed s.requests p.response
  unanswered : ∀ p ∈ s.pending, s.responses[p.response]? = none
  taken : ∀ entry message, s.dispatcher = .Completing entry message →
    HasPushed s.requests entry.response ∧ ∀ p ∈ s.pending, p.response ≠ entry.response
  answered : ∀ (id : ℕ) response, s.responses[id]? = some response → HasPushed s.requests id

theorem answer_all_getElem? (responses : Map ℕ Response) (pending : List Pending)
    (response : Response) (id : ℕ) :
    (answer_all responses pending response)[id]? =
      if id ∈ pending.map Pending.response then some response else responses[id]? := by
  unfold answer_all
  induction pending generalizing responses with
  | nil => simp
  | cons entry rest ih =>
    rw [List.foldl_cons, ih, getElem?_insert, List.map_cons]
    by_cases hrest : id ∈ rest.map Pending.response
    · rw [if_pos hrest, if_pos (List.mem_cons_of_mem _ hrest)]
    · rw [if_neg hrest]
      by_cases hentry : entry.response = id
      · rw [if_pos (by simp [hentry]), if_pos (by simp [hentry])]
      · rw [if_neg (by simpa using hentry), if_neg]
        intro hmem
        rcases List.mem_cons.mp hmem with heq | hmem
        · exact hentry heq.symm
        · exact hrest hmem

/-- A thread goes on and does not unpush. -/
theorem hasPushed_put
    (hphase : ∀ request', s.requests[id]? = some request' → request'.phase.pushed = true →
      phase.pushed = true) (h : HasPushed s.requests id') :
    HasPushed (s.put id request phase).requests id' := by
  obtain ⟨request', hid', hpushed⟩ := h
  rcases eq_or_ne id id' with rfl | hid
  · exact ⟨_, by rw [put_requests, if_pos rfl], hphase request' hid' hpushed⟩
  · exact ⟨request', by rw [put_requests, if_neg hid]; exact hid', hpushed⟩

theorem AnswerInv.new : AnswerInv State.new where
  nodup := by simp [State.new]
  entered p hp := by simp [State.new] at hp
  unanswered p hp := by simp [State.new] at hp
  taken entry message h := by simp [State.new] at h
  answered id response h := by simp [State.new] at h

/-- A step that leaves the queue, the answers and the dispatcher alone. -/
theorem AnswerInv.go_on (h : AnswerInv s) (hpending : s'.pending = s.pending)
    (hresponses : s'.responses = s.responses)
    (htaken : ∀ entry message, s'.dispatcher = .Completing entry message →
      s.dispatcher = .Completing entry message)
    (hpushed : ∀ id, HasPushed s.requests id → HasPushed s'.requests id) : AnswerInv s' where
  nodup := by
    rw [hpending]
    exact h.nodup
  entered p hp := by
    rw [hpending] at hp
    exact hpushed _ (h.entered p hp)
  unanswered p hp := by
    rw [hpending] at hp
    rw [hresponses]
    exact h.unanswered p hp
  taken entry message hdispatcher := by
    obtain ⟨hentry, hother⟩ := h.taken entry message (htaken entry message hdispatcher)
    rw [hpending]
    exact ⟨hpushed _ hentry, hother⟩
  answered id response hid := by
    rw [hresponses] at hid
    exact hpushed id (h.answered id response hid)

/-- A drain: every entry is answered, and the queue is empty. -/
theorem AnswerInv.drain (h : AnswerInv s) {response : Response} (hpending : s'.pending = [])
    (hresponses : s'.responses = answer_all s.responses s.pending response)
    (htaken : ∀ entry message, s'.dispatcher = .Completing entry message →
      s.dispatcher = .Completing entry message)
    (hpushed : ∀ id, HasPushed s.requests id → HasPushed s'.requests id) : AnswerInv s' where
  nodup := by
    rw [hpending]
    exact List.nodup_nil
  entered p hp := by
    rw [hpending] at hp
    cases hp
  unanswered p hp := by
    rw [hpending] at hp
    cases hp
  taken entry message hdispatcher := by
    rw [hpending]
    exact ⟨hpushed _ (h.taken entry message (htaken entry message hdispatcher)).1, by simp⟩
  answered id response' hid := by
    rw [hresponses, answer_all_getElem?] at hid
    split at hid
    · next hmem =>
      obtain ⟨p, hp, rfl⟩ := List.mem_map.mp hmem
      exact hpushed _ (h.entered p hp)
    · exact hpushed id (h.answered id response' hid)

theorem AnswerInv.step (h : AnswerInv s) (hm : Moved s op s') :
    AnswerInv s' := by
  cases hm with
  | call hnew =>
    refine h.go_on rfl rfl (fun _ _ hd => hd) fun id hp =>
      hasPushed_put (fun request' hid' => ?_) hp
    rw [hnew] at hid'
    cases hid'
  | lock hid hphase | check_open hid hphase =>
    refine h.go_on rfl rfl (fun _ _ hd => hd) fun id hp =>
      hasPushed_put (fun request' hid' hold => ?_) hp
    rw [hid] at hid'
    rw [← Option.some.inj hid', hphase] at hold
    exact absurd hold (by simp [Phase.pushed])
  | check_closed | push_full | send_ok | send_error | swap_closed | swap_open | unlock_sent
  | unlock_leaving | recv =>
    exact h.go_on rfl rfl (fun _ _ hd => hd) fun id hp => hasPushed_put (fun _ _ _ => rfl) hp
  | @push id request hid hphase =>
    -- the thread had not pushed, so nothing of its number is about
    have hnot : ¬ HasPushed s.requests id := by
      rintro ⟨request', hid', hpushed⟩
      rw [hid] at hid'
      rw [← Option.some.inj hid', hphase] at hpushed
      exact absurd hpushed (by simp [Phase.pushed])
    have hkeep : ∀ id', HasPushed s.requests id' →
        HasPushed (s.put id request .Pushed).requests id' :=
      fun id' hp => hasPushed_put (fun _ _ _ => rfl) hp
    constructor
    case nodup =>
      show ((s.pending ++ [_]).map Pending.response).Nodup
      rw [List.map_append, List.nodup_append]
      refine ⟨h.nodup, by simp, ?_⟩
      intro a ha b hb
      obtain ⟨p, hp, rfl⟩ := List.mem_map.mp ha
      obtain rfl : b = id := by simpa using hb
      intro heq
      exact hnot (heq ▸ h.entered p hp)
    case entered =>
      intro p hp
      rcases mem_snoc hp with hp | hp
      · exact hkeep _ (h.entered p hp)
      · rw [hp]
        exact ⟨_, by rw [put_requests, if_pos rfl], rfl⟩
    case unanswered =>
      intro p hp
      rcases mem_snoc hp with hp | hp
      · exact h.unanswered p hp
      · rw [hp]
        show s.responses[id]? = none
        cases hresponse : s.responses[id]? with
        | none => rfl
        | some response => exact absurd (h.answered id response hresponse) hnot
    case taken =>
      intro entry message hdispatcher
      obtain ⟨hentry, hother⟩ := h.taken entry message hdispatcher
      refine ⟨hkeep _ hentry, fun p hp => ?_⟩
      rcases mem_snoc hp with hp | hp
      · exact hother p hp
      · rw [hp]
        rintro rfl
        exact hnot hentry
    case answered =>
      exact fun id' response hid' => hkeep id' (h.answered id' response hid')
  | drain =>
    exact h.drain rfl rfl (fun _ _ hd => hd) fun id hp => hasPushed_put (fun _ _ _ => rfl) hp
  | close_send | close_swap => exact h.go_on rfl rfl (fun _ _ hd => hd) fun _ hp => hp
  | receive _ hnew =>
    refine h.go_on rfl rfl (fun entry message hd => ?_) fun _ hp => hp
    rcases hnew with ⟨m, rfl⟩ | ⟨e, rfl⟩ <;> cases hd
  | handle _ hnew =>
    refine h.go_on rfl rfl (fun entry message hd => ?_) fun _ hp => hp
    rcases hnew with rfl | ⟨e, rfl⟩ <;> cases hd
  | @take outcome message entry rest hold hpending =>
    have hnodup := h.nodup
    rw [hpending, List.map_cons, List.nodup_cons] at hnodup
    constructor
    case nodup => exact hnodup.2
    case entered =>
      exact fun p hp => h.entered p (by rw [hpending]; exact List.mem_cons_of_mem _ hp)
    case unanswered =>
      exact fun p hp => h.unanswered p (by rw [hpending]; exact List.mem_cons_of_mem _ hp)
    case taken =>
      intro entry' message' hdispatcher
      obtain ⟨rfl, -⟩ := DispatcherPhase.Completing.inj hdispatcher
      refine ⟨h.entered entry (by rw [hpending]; exact List.mem_cons_self), fun p hp heq => ?_⟩
      exact hnodup.1 (List.mem_map.mpr ⟨p, hp, heq⟩)
    case answered => exact h.answered
  | @respond device entry message response phase hold hnew =>
    obtain ⟨hentry, hother⟩ := h.taken entry message hold
    constructor
    case nodup => exact h.nodup
    case entered => exact h.entered
    case unanswered =>
      intro p hp
      show (s.responses.insert entry.response response)[p.response]? = none
      rw [getElem?_insert_ne (Ne.symm (hother p hp))]
      exact h.unanswered p hp
    case taken =>
      intro entry' message' hd
      rcases hnew with rfl | ⟨e, rfl⟩ <;> cases hd
    case answered =>
      intro id response' hid
      rcases getElem?_insert_cases hid with ⟨rfl, -⟩ | ⟨-, hid⟩
      · exact hentry
      · exact h.answered id response' hid
  | fail_swap_closed | fail_swap_open =>
    exact h.go_on rfl rfl (fun _ _ hd => absurd hd (by simp)) fun _ hp => hp
  | fail_drain =>
    exact h.drain rfl rfl (fun _ _ hd => absurd hd (by simp)) fun _ hp => hp

/-! ## Clean runs -/

/-- What the two steps of `fail_pending` must find: at its look at `closed`, if that is set,
that the queue is drained or about to be; at its drain, that no request is between its own
look at `closed` and its push. -/
def Clean (e : Event) : Prop :=
  match e.op with
  | .fail_swap => e.before.closed = true → Drained e.before
  | .fail_drain => ¬ Checked e.before.requests
  | _ => True

/-- Past `transport.send`, and past the drain if the send failed first. -/
def past_send : Phase → Bool
  | .SendFailed _ | .Sent | .Leaving _ | .Waiting | .Returned _ => true
  | .Entered | .Locked | .Checked | .Pushed | .Draining _ => false

/-- The dispatcher has stopped. -/
def Halted (s : State) : Prop := ∃ error, s.dispatcher = .Stopped error

/-- The dispatcher has stopped, and every request is past its send. -/
structure Final (s : State) : Prop where
  stopped : Halted s
  past_send : ∀ (id : ℕ) request, s.requests[id]? = some request →
    State.past_send request.phase = true

/-- **After the dispatcher has stopped, nothing changes whether the queue gets drained.** -/
theorem drained_iff_of_halted (h : LockInv s) (hm : Moved s op s')
    (hhalted : Halted s) (hclosed : s.closed = true) :
    Halted s' ∧ s'.closed = true ∧ (Drained s' ↔ Drained s) := by
  obtain ⟨error, hstopped⟩ := hhalted
  -- a dispatcher that has stopped takes no step
  have hno : ∀ phase, s.dispatcher = phase → (∀ error, phase ≠ .Stopped error) → False := by
    intro phase hphase hne
    exact hne error (hphase.symm.trans hstopped)
  -- a thread goes on, neither checked nor draining, and the queue is as it was
  have hneither : ∀ {u : State}, u.dispatcher = s.dispatcher → u.closed = true →
      u.pending = s.pending →
      ((Checked u.requests ↔ Checked s.requests) ∧ (Draining u.requests ↔ Draining s.requests)) →
      Halted u ∧ u.closed = true ∧ (Drained u ↔ Drained s) := by
    intro u hdispatcher hu hpending hrequests
    refine ⟨⟨error, hdispatcher.trans hstopped⟩, hu, ?_⟩
    unfold Drained
    rw [hpending, hrequests.1, hrequests.2]
  cases hm with
  | call hnew =>
    refine hneither rfl hclosed rfl (put_neither (fun request' hid' => ?_) (by simp))
    rw [hnew] at hid'
    cases hid'
  | lock hid hphase | check_closed hid hphase | send_ok hid hphase | send_error hid hphase
  | unlock_sent hid hphase | unlock_leaving hid hphase | recv hid hphase =>
    exact hneither rfl hclosed rfl (put_neither_of hid hphase (by simp) (by simp))
  | check_open _ _ hopen | swap_open _ _ hopen =>
    exact absurd (hopen.symm.trans hclosed) (by simp)
  | push_full hid hphase hfull =>
    -- the queue is full, before and after, and no one drains it
    have hholds := h.alone hid (by rw [hphase]; rfl)
    have hne : s.pending ≠ [] := by
      intro hempty
      rw [hempty] at hfull
      exact absurd hfull (by decide)
    refine ⟨⟨error, hstopped⟩, hclosed, ?_, ?_⟩
    · rintro (hd | ⟨hempty, -⟩)
      · obtain ⟨text, hd⟩ := (hholds _).2.mp hd
        cases hd
      · exact absurd hempty hne
    · rintro (⟨id', request', text, hid', hphase'⟩ | ⟨hempty, -⟩)
      · obtain rfl := h.unique hid (by rw [hphase]; rfl) hid' (by rw [hphase']; rfl)
        rw [hid] at hid'
        rw [← Option.some.inj hid', hphase] at hphase'
        cases hphase'
      · exact absurd hempty hne
  | @push id request hid hphase =>
    -- before, a request is checked; after, its entry is in the queue
    have hholds := h.alone hid (by rw [hphase]; rfl)
    refine ⟨⟨error, hstopped⟩, hclosed, ?_, ?_⟩
    · rintro (hd | ⟨hempty, -⟩)
      · obtain ⟨text, hd⟩ := (hholds .Pushed).2.mp hd
        cases hd
      · exact absurd hempty (by simp)
    · rintro (⟨id', request', text, hid', hphase'⟩ | ⟨-, hchecked⟩)
      · obtain rfl := h.unique hid (by rw [hphase]; rfl) hid' (by rw [hphase']; rfl)
        rw [hid] at hid'
        rw [← Option.some.inj hid', hphase] at hphase'
        cases hphase'
      · exact absurd ⟨id, request, hid, hphase⟩ hchecked
  | swap_closed hid hphase =>
    exact hneither rfl rfl rfl (put_neither_of hid hphase (by simp) (by simp))
  | @drain id request text hid hphase =>
    refine ⟨⟨error, hstopped⟩, hclosed, fun _ => .inl ⟨id, request, text, hid, hphase⟩,
      fun _ => .inr ⟨rfl, fun hchecked => ?_⟩⟩
    have := (h.alone hid (by rw [hphase]; rfl) (.Leaving (.Transport text))).1.mp hchecked
    cases this
  | close_send => exact hneither rfl hclosed rfl ⟨Iff.rfl, Iff.rfl⟩
  | close_swap => exact hneither rfl rfl rfl ⟨Iff.rfl, Iff.rfl⟩
  | receive hold | handle hold | take hold | respond hold | fail_swap_closed hold
  | fail_swap_open hold | fail_drain hold =>
    exact (hno _ hold (by simp)).elim

/-- The steps of `fail_pending` are the dispatcher's, and it has not stopped before them. -/
theorem Moved.fails (hm : Moved s op s') (hhalted : ¬ Halted s) :
    (¬ Halted s' ∧ Clean ⟨s, op⟩) ∨
      (Halted s' ∧ s'.closed = true ∧ op = .fail_swap ∧ s.closed = true ∧
        (Drained s' ↔ Drained s)) ∨
      (∃ error, s.dispatcher = .Draining error ∧ op = .fail_drain ∧ Halted s' ∧
        s'.closed = s.closed ∧ s'.pending = [] ∧ s'.requests = s.requests) := by
  have hstay : ∀ {u : State}, u.dispatcher = s.dispatcher → ¬ Halted u := by
    rintro u hu ⟨error, herror⟩
    exact hhalted ⟨error, hu.symm.trans herror⟩
  cases hm with
  | call | lock | check_closed | check_open | push_full | push | send_ok | send_error
  | swap_closed | swap_open | drain | unlock_sent | unlock_leaving | recv | close_send
  | close_swap =>
    exact .inl ⟨hstay rfl, trivial⟩
  | receive _ hnew =>
    refine .inl ⟨?_, trivial⟩
    rcases hnew with ⟨m, rfl⟩ | ⟨e, rfl⟩ <;> rintro ⟨error, herror⟩ <;> cases herror
  | handle _ hnew | respond _ hnew =>
    refine .inl ⟨?_, trivial⟩
    rcases hnew with rfl | ⟨e, rfl⟩ <;> rintro ⟨error, herror⟩ <;> cases herror
  | take =>
    refine .inl ⟨?_, trivial⟩
    rintro ⟨error, herror⟩
    cases herror
  | fail_swap_closed _ hclosed =>
    exact .inr (.inl ⟨⟨_, rfl⟩, rfl, rfl, hclosed, Iff.rfl⟩)
  | fail_swap_open _ hopen =>
    refine .inl ⟨?_, fun hclosed => absurd (hopen.symm.trans hclosed) (by simp)⟩
    rintro ⟨error, herror⟩
    cases herror
  | fail_drain hold => exact .inr (.inr ⟨_, hold, rfl, ⟨_, rfl⟩, rfl, rfl, rfl⟩)

/-- A run so far: clean while the dispatcher goes on; and once it has stopped, clean exactly
if the queue is drained or about to be. -/
structure RunInv (es : List Event) (s : State) : Prop where
  lock : LockInv s
  answer : AnswerInv s
  going : ¬ Halted s → ∀ e ∈ es, Clean e
  halted : Halted s → s.closed = true ∧ ((∀ e ∈ es, Clean e) ↔ Drained s)

theorem run_inv (hrun : Run Step State.new es s) : RunInv es s := by
  refine hrun.history RunInv ⟨LockInv.new, AnswerInv.new, by simp, ?_⟩ ?_
  · rintro ⟨error, herror⟩
    simp [new] at herror
  · rintro es s ⟨before, op⟩ _ - h ⟨hbefore, hstep⟩
    obtain rfl : s = before := hbefore.symm
    have hm := moved hstep
    have hsnoc : (∀ e ∈ es ++ [⟨s, op⟩], Clean e) ↔ (∀ e ∈ es, Clean e) ∧ Clean ⟨s, op⟩ := by
      simp [or_imp, forall_and]
    by_cases hhalted : Halted s
    · -- after the stop the two sides go together
      obtain ⟨hclosed, hiff⟩ := h.halted hhalted
      obtain ⟨hhalted', hclosed', hdrained⟩ := drained_iff_of_halted h.lock hm hhalted hclosed
      have hclean : Clean ⟨s, op⟩ := by
        obtain ⟨error, hstopped⟩ := hhalted
        cases op with
        | fail_swap => simp [perform, fail_swap, hstopped] at hstep
        | fail_drain => simp [perform, fail_drain, hstopped] at hstep
        | _ => trivial
      refine ⟨h.lock.step hm, h.answer.step hm, fun hno => absurd hhalted' hno, fun _ => ?_⟩
      refine ⟨hclosed', ?_⟩
      rw [hsnoc, hdrained, hiff]
      exact ⟨And.left, fun hd => ⟨hd, hclean⟩⟩
    · have hall := h.going hhalted
      rcases hm.fails hhalted with ⟨hgoing, hclean⟩ | ⟨hhalted', hclosed', rfl, hclosed, hdrained⟩ |
        ⟨error, hold, rfl, hhalted', hclosed', hpending, hrequests⟩
      · refine ⟨h.lock.step hm, h.answer.step hm, fun _ => hsnoc.mpr ⟨hall, hclean⟩,
          fun hno => absurd hno hgoing⟩
      · refine ⟨h.lock.step hm, h.answer.step hm, fun hno => absurd hhalted' hno, fun _ => ?_⟩
        refine ⟨hclosed', ?_⟩
        rw [hsnoc, hdrained]
        exact ⟨fun hc => hc.2 hclosed, fun hd => ⟨hall, fun _ => hd⟩⟩
      · refine ⟨h.lock.step hm, h.answer.step hm, fun hno => absurd hhalted' hno, fun _ => ?_⟩
        have hclosed : s.closed = true := by
          by_contra hopen
          exact (h.lock.open_idle (Bool.eq_false_of_not_eq_true hopen)).2.1 error hold
        refine ⟨hclosed'.trans hclosed, ?_⟩
        unfold Drained
        rw [hsnoc, hpending, hrequests]
        constructor
        · exact fun hc => .inr ⟨rfl, hc.2⟩
        · rintro (hd | ⟨-, hchecked⟩)
          · exact absurd hd (h.lock.sole_drainer error hold)
          · exact ⟨hall, hchecked⟩

/-- **No request is stranded exactly in clean runs.** Once the dispatcher has stopped and
every request is past its send, every entry left in the queue has been answered if and only
if each step of `fail_pending` found what `Clean` asks. -/
theorem no_request_stranded_iff_clean {es : List Event} {s : State}
    (hrun : Run Step State.new es s) (hfinal : Final s) :
    (∀ p ∈ s.pending, (s.responses[p.response]?).isSome) ↔ ∀ e ∈ es, Clean e := by
  have h := run_inv hrun
  obtain ⟨-, hiff⟩ := h.halted hfinal.stopped
  rw [hiff]
  constructor
  · -- entries in the queue have no answer, so there is none
    intro hanswered
    refine .inr ⟨?_, ?_⟩
    · rw [List.eq_nil_iff_forall_not_mem]
      intro p hp
      have hsome := hanswered p hp
      rw [h.answer.unanswered p hp] at hsome
      cases hsome
    · rintro ⟨id, request, hid, hphase⟩
      have := hfinal.past_send id request hid
      rw [hphase] at this
      exact absurd this (by simp [past_send])
  · rintro (⟨id, request, _, hid, hphase⟩ | ⟨hempty, -⟩)
    · have := hfinal.past_send id request hid
      rw [hphase] at this
      exact absurd this (by simp [past_send])
    · rw [hempty]
      simp

/-! ## Runs that strand a request, and one that does not -/

/-- The events of a list of steps and where they lead, if they can be taken. -/
def events : State → List Op → Option (List Event × State)
  | s, [] => some ([], s)
  | s, op :: ops =>
    match s.perform op with
    | none => none
    | some t =>
      match events t ops with
      | none => none
      | some (es, u) => some (⟨s, op⟩ :: es, u)

theorem run_events {u : State} {ops : List Op}
    (h : events s ops = some (es, u)) : Run Step s es u := by
  induction ops generalizing s es with
  | nil =>
    obtain ⟨rfl, rfl⟩ : [] = es ∧ s = u := by simpa [events] using h
    exact Run.nil s
  | cons op _ ih =>
    unfold events at h
    split at h
    · simp at h
    · next t ht =>
      split at h
      · simp at h
      · next es' u' hrest =>
        obtain ⟨rfl, rfl⟩ : ⟨s, op⟩ :: es' = es ∧ u' = u := by simpa using h
        exact Run.append (Run.single (e := ⟨s, op⟩) ⟨rfl, ht⟩) (ih hrest)

/-- A request asks for the context manager and waits. -/
def waiting_request : List Op :=
  [.call 1 .GetContextManager .ContextManagerFound none, .lock 1, .check 1, .push 1,
    .send 1 (.ok ()), .unlock 1]

/-- While it waits, `close_authority` runs; then the stream ends. -/
def close_then_end : List Op :=
  waiting_request ++ [.close_send, .close_swap, .receive (.error "end of stream"), .fail_swap]

/-- The stream ends between a request's look at `closed` and its push. -/
def end_before_push : List Op :=
  [.call 1 .GetContextManager .ContextManagerFound none, .lock 1, .check 1,
    .receive (.error "end of stream"), .fail_swap, .fail_drain, .push 1, .send 1 (.ok ()),
    .unlock 1]

/-- The stream ends while a request waits, and nothing else happens. -/
def end_while_waiting : List Op :=
  waiting_request ++ [.receive (.error "end of stream"), .fail_swap, .fail_drain]

/-- The requests of a state, one by one. -/
theorem Final.of_toList (hstopped : Halted s)
    (h : ∀ e ∈ s.requests.toList, State.past_send e.2.phase = true) : Final s where
  stopped := hstopped
  past_send id request hid :=
    h (id, request) (mem_toList_iff_getElem?_eq_some.mpr hid)

theorem end_while_waiting_is_clean :
    ∃ es s, Run Step State.new es s ∧ Final s ∧
      s.responses[1]? = some (.error (.DispatcherStopped (.Transport "end of stream"))) ∧
      ∀ e ∈ es, Clean e := by
  have hrun := run_events (show events new end_while_waiting = some (_, _) from rfl)
  refine ⟨_, _, hrun, Final.of_toList ⟨_, rfl⟩ (by decide +kernel), by decide +kernel, ?_⟩
  exact (no_request_stranded_iff_clean hrun (Final.of_toList ⟨_, rfl⟩ (by decide +kernel))).mp
    (by decide +kernel)

/-- **A request is stranded** by a `close_authority` before the stream ends, and by a stream
that ends between its look at `closed` and its push: it waits, its entry is in the queue and
has no answer, and the dispatcher has stopped. -/
theorem stopped_dispatcher_strands_request :
    (∃ es s, Run Step State.new es s ∧ Final s ∧
      s.pending = [⟨.ContextManagerFound, 1, none⟩] ∧ s.responses[1]? = none) ∧
    ∃ es s, Run Step State.new es s ∧ Final s ∧
      s.pending = [⟨.ContextManagerFound, 1, none⟩] ∧ s.responses[1]? = none := by
  refine ⟨⟨_, _, run_events (show events new close_then_end = some (_, _) from rfl),
    Final.of_toList ⟨_, rfl⟩ (by decide +kernel), rfl, by decide +kernel⟩, ?_⟩
  exact ⟨_, _, run_events (show events new end_before_push = some (_, _) from rfl),
    Final.of_toList ⟨_, rfl⟩ (by decide +kernel), rfl, by decide +kernel⟩

end DarwinArt.BinderProcess.State
