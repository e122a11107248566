/-
A timerfd of the socket broker: `timerfd_settime`, the timer threads, and the calls of the guest.

The descriptor is a pair of datagram sockets. Each setting starts a thread, which writes a message
of value 1 at each expiration as long as the generation is its own. Nothing else is done: a message
that has not been read stays when the timer is set again, two expirations are two messages, and what
the guest writes goes to the same queue. So a timerfd is right as long as each expiration is read
before anything else happens, and no longer. Times are sums of nanoseconds in 64 bits, which wrap.

A lock section is a step. The clock is what a thread reads when it starts; it may wake at any time.
`expirations` is what Linux counts, the expirations of the setting since it was made or last read.
-/
import DarwinArt.Lib.Run
import Mathlib

set_option autoImplicit false

namespace DarwinArt.Socket.TimerFd

open Lib

/-- `AndroidTimespec64`. -/
structure Timespec where
  seconds : ℤ
  nanoseconds : ℤ
deriving DecidableEq

/-- What `timerfd_settime` accepts. -/
def Timespec.valid (time : Timespec) : Bool :=
  0 ≤ time.seconds && 0 ≤ time.nanoseconds && time.nanoseconds < 1000000000

/-- In nanoseconds. -/
def Timespec.total (time : Timespec) : ℤ := time.seconds * 1000000000 + time.nanoseconds

/-- A sum of `std::chrono::nanoseconds`, which are 64 bits with a sign. -/
def wrap (n : ℤ) : ℤ := n.bmod (2 ^ 64)

/-- What the thread of a timer has. -/
structure Timer where
  generation : ℕ
  deadline : ℤ
  interval : ℤ
deriving DecidableEq

structure State where
  nonblocking : Bool
  generation : ℕ
  closing : Bool
  timers : List Timer
  queue : List ℕ
  expirations : ℕ
deriving DecidableEq

/-- `timerfd_create`. -/
def State.new (nonblocking : Bool) : State := ⟨nonblocking, 0, false, [], [], 0⟩

/-- `Wake` is a timer thread whose deadline has come. A setting comes with the clock that its thread
reads. -/
inductive Op
  | Settime (value interval : Timespec) (now : ℕ)
  | Wake (timer : ℕ)
  | Read
  | Write (value : ℕ)
  | Close
deriving DecidableEq

/-- A timer thread has written, or has ended. -/
inductive Reply
  | Done
  | Value (value : ℕ)
  | Errno (errno : ℕ)
  | Wrote
  | Ended
deriving DecidableEq

/-- A call, where it does not wait. A full queue refuses a message if the sockets are
non-blocking. -/
def State.perform (capacity : ℕ) (s : State) : Op → Option (Reply × State)
  | .Settime value interval now =>
    if s.closing then none
    else if (value.valid && interval.valid) = false then some (.Errno 22, s)
    else
      let first := wrap value.total
      some (.Done, { s with
        generation := s.generation + 1
        timers := if first = 0 then s.timers
          else s.timers ++ [⟨s.generation + 1, wrap (now + first), wrap interval.total⟩]
        expirations := 0 })
  | .Wake i =>
    match s.timers[i]? with
    | none => none
    | some timer =>
      if s.closing = true ∨ s.generation ≠ timer.generation then
        some (.Ended, { s with timers := s.timers.eraseIdx i })
      else if s.queue.length = capacity ∧ s.nonblocking = false then none
      else some (.Wrote, { s with
        timers := if timer.interval = 0 then s.timers.eraseIdx i
          else s.timers.set i { timer with deadline := wrap (timer.deadline + timer.interval) }
        queue := if s.queue.length = capacity then s.queue else s.queue ++ [1]
        expirations := s.expirations + 1 })
  | .Read =>
    if s.closing then none
    else
      match s.queue with
      | [] => if s.nonblocking then some (.Errno 11, s) else none
      | value :: rest => some (.Value value, { s with queue := rest, expirations := 0 })
  | .Write value =>
    if s.closing then none
    else if s.queue.length = capacity then
      if s.nonblocking then some (.Errno 11, s) else none
    else some (.Done, { s with queue := s.queue ++ [value] })
  | .Close =>
    if s.closing then none
    else some (.Done, { s with closing := true, generation := s.generation + 1 })

/-- A step of a run, with the states around it. -/
structure Event where
  before : State
  op : Op
  reply : Reply
  after : State

/-- A call that does not wait. -/
def Step (capacity : ℕ) (s : State) (e : Event) (t : State) : Prop :=
  e.before = s ∧ e.after = t ∧ s.perform capacity e.op = some (e.reply, t)

/-! ## The meaning of a timerfd -/

/-- The descriptor is readable only if the setting has expired, and what can be read is how
often. -/
def State.Shows (s : State) : Prop := ∀ value ∈ s.queue.head?, value = s.expirations ∧ 0 < value

/-- The timers are what was asked for: a new one of the setting, and at each expiration of an
interval the next deadline. -/
def Event.Timely (e : Event) : Prop :=
  match e.op with
  | .Settime value interval now => e.reply = .Done →
      e.after.timers = if value.total = 0 then e.before.timers
        else e.before.timers ++ [⟨e.after.generation, now + value.total, interval.total⟩]
  | .Wake i => e.reply = .Wrote → ∀ timer ∈ e.before.timers[i]?, timer.interval ≠ 0 →
      e.after.timers[i]? = some { timer with deadline := timer.deadline + timer.interval }
  | _ => True

/-- A read returns the expirations, a write of the guest changes nothing that can be read, the
timers are as they were set, and the descriptor shows the expirations of the setting afterwards. -/
def Event.Linux (e : Event) : Prop :=
  (∀ value, e.reply = .Value value → value = e.before.expirations) ∧
  (∀ value, e.op = .Write value → e.after.queue = e.before.queue) ∧ e.Timely ∧ e.after.Shows

/-- A number of nanoseconds fits. -/
def Fits (n : ℤ) : Prop := -2 ^ 63 ≤ n ∧ n < 2 ^ 63

/-- A thread of the current setting finds what it wrote last read, the timer is set when everything
is read, to times that fit, and the guest writes only where there is no room. -/
def Event.Prompt (capacity : ℕ) (e : Event) : Prop :=
  match e.op with
  | .Settime value interval now => value.valid = true → interval.valid = true →
      e.before.queue = [] ∧ (value.total ≠ 0 → Fits (now + value.total) ∧ Fits interval.total)
  | .Wake i => ∀ timer ∈ e.before.timers[i]?,
      e.before.closing = false → timer.generation = e.before.generation →
      e.before.queue = [] ∧ (timer.interval ≠ 0 → Fits (timer.deadline + timer.interval))
  | .Write _ => e.before.queue.length = capacity
  | _ => True

theorem wrap_eq_iff (n : ℤ) : wrap n = n ↔ Fits n := by
  unfold wrap Fits
  rw [Int.bmod_def]
  split <;> omega

/-- The timers of a setting are as it asks if its times fit. A time that wraps to 0 is too long. -/
theorem timers_eq_iff (timers : List Timer) (generation now : ℕ) {value : Timespec}
    (hvalid : value.valid = true) (interval : Timespec) :
    (if wrap value.total = 0 then timers
      else timers ++ [⟨generation, wrap (now + wrap value.total), wrap interval.total⟩]) =
      (if value.total = 0 then timers
        else timers ++ [⟨generation, now + value.total, interval.total⟩]) ↔
    (value.total ≠ 0 → Fits (now + value.total) ∧ Fits interval.total) := by
  have hsum : wrap (now + wrap value.total) = wrap (now + value.total) := Int.add_bmod_bmod
  have hnonneg : 0 ≤ value.total := by
    simp only [Timespec.valid, Bool.and_eq_true, decide_eq_true_eq] at hvalid
    unfold Timespec.total
    omega
  by_cases hzero : value.total = 0
  · simp [hzero, wrap]
  · by_cases hwrap : wrap value.total = 0
    · have hlong : ¬ Fits (now + value.total) := by
        rintro ⟨-, hlt⟩
        have hfits : Fits value.total := ⟨by omega, by omega⟩
        rw [← wrap_eq_iff, hwrap] at hfits
        exact hzero hfits.symm
      simp [hzero, hwrap, hlong]
    · simp [hzero, hwrap, hsum, wrap_eq_iff]

/-- Nothing is queued, or one expiration. -/
def State.Fresh (s : State) : Prop :=
  s.queue = [] ∧ s.expirations = 0 ∨ s.queue = [1] ∧ s.expirations = 1

section Steps

variable {capacity : ℕ} {s t : State} {op : Op} {reply : Reply}

theorem State.Fresh.shows (h : s.Fresh) : s.Shows := by
  unfold State.Shows
  rcases h with ⟨hqueue, -⟩ | ⟨hqueue, hone⟩
  · simp [hqueue]
  · simp [hqueue, hone]

/-- A step that leaves the queue and the expirations. -/
theorem State.Fresh.same (h : s.Fresh) (hqueue : t.queue = s.queue)
    (hexpirations : t.expirations = s.expirations) (hreply : ∀ value, reply ≠ .Value value)
    (htimely : Event.Timely ⟨s, op, reply, t⟩) (hprompt : Event.Prompt capacity ⟨s, op, reply, t⟩) :
    (Event.Linux ⟨s, op, reply, t⟩ ↔ Event.Prompt capacity ⟨s, op, reply, t⟩) ∧
      (Event.Prompt capacity ⟨s, op, reply, t⟩ → t.Fresh) := by
  have ht : t.Fresh := by
    unfold State.Fresh
    rwa [hqueue, hexpirations]
  refine ⟨iff_of_true ⟨fun value heq => ?_, fun _ _ => hqueue, htimely, ht.shows⟩ hprompt, fun _ => ht⟩
  exact absurd heq (hreply value)

/-- **One step.** From a state with at most one expiration a step is right just when it is
prompt. -/
theorem State.Fresh.step (h : s.Fresh) (hcapacity : 0 < capacity)
    (hstep : s.perform capacity op = some (reply, t)) :
    (Event.Linux ⟨s, op, reply, t⟩ ↔ Event.Prompt capacity ⟨s, op, reply, t⟩) ∧
      (Event.Prompt capacity ⟨s, op, reply, t⟩ → t.Fresh) := by
  unfold State.perform at hstep
  cases op with
  | Settime value interval now =>
    dsimp only at hstep
    split at hstep
    · cases hstep
    split at hstep
    next hinvalid =>
      cases hstep
      refine h.same rfl rfl (by simp) (fun hdone => nomatch hdone) fun hvalue hinterval => ?_
      simp [hvalue, hinterval] at hinvalid
    next hvalid =>
      cases hstep
      have hvalid : value.valid = true ∧ interval.valid = true := by simpa using hvalid
      simp only [Event.Linux, Event.Prompt, Event.Timely, State.Shows, State.Fresh]
      rcases h with ⟨hqueue, -⟩ | ⟨hqueue, -⟩
      · simp [hqueue, hvalid, timers_eq_iff _ _ now hvalid.1 interval]
      · simp [hqueue, hvalid]
  | Wake i =>
    dsimp only at hstep
    split at hstep
    · cases hstep
    next timer htimer =>
      split at hstep
      next hended =>
        cases hstep
        refine h.same rfl rfl (by simp) (fun hwrote => nomatch hwrote) fun _ hmem hopen hcurrent => ?_
        obtain rfl := Option.some.inj (htimer.symm.trans hmem)
        exact absurd hended (not_or.mpr ⟨by simp [show s.closing = false from hopen],
          not_not.mpr hcurrent.symm⟩)
      next hruns =>
        split at hstep
        · cases hstep
        · cases hstep
          simp only [not_or, Bool.not_eq_true, not_not] at hruns
          simp only [Event.Linux, Event.Prompt, Event.Timely, State.Shows, State.Fresh]
          rcases h with ⟨hqueue, hzero⟩ | ⟨hqueue, hone⟩
          · by_cases hinterval : timer.interval = 0
            · simp [hqueue, hzero, htimer, hruns, hinterval, Nat.ne_of_lt hcapacity]
            · have hset (x : Timer) : (s.timers.set i x)[i]? = some x :=
                List.getElem?_set_self (List.getElem?_eq_some_iff.mp htimer).1
              simp [hqueue, hzero, htimer, hruns, hinterval, Nat.ne_of_lt hcapacity, hset,
                wrap_eq_iff]
          · -- a second message, or none where the queue is full: one is shown of two
            by_cases hfull : 1 = capacity
            · simp [hqueue, hone, hfull, htimer, hruns]
            · simp [hqueue, hone, hfull, htimer, hruns]
  | Read =>
    dsimp only at hstep
    split at hstep
    · cases hstep
    split at hstep
    · split at hstep
      · cases hstep
        exact h.same rfl rfl (by simp) trivial trivial
      · cases hstep
    next value rest hvalue =>
      cases hstep
      simp only [Event.Linux, Event.Prompt, Event.Timely, State.Shows, State.Fresh]
      rcases h with ⟨hqueue, -⟩ | ⟨hqueue, hone⟩
      · rw [hqueue] at hvalue
        cases hvalue
      · rw [hqueue] at hvalue
        cases hvalue
        simp [hone]
  | Write value =>
    dsimp only at hstep
    split at hstep
    · cases hstep
    split at hstep
    next hfull =>
      split at hstep
      · cases hstep
        exact h.same rfl rfl (by simp) trivial hfull
      · cases hstep
    next hroom =>
      -- the queue grows
      cases hstep
      simp [Event.Linux, Event.Prompt, hroom]
  | Close =>
    dsimp only at hstep
    split at hstep
    · cases hstep
    · cases hstep
      exact h.same rfl rfl (by simp) trivial trivial

theorem closing_of_step (hstep : s.perform capacity op = some (reply, t)) :
    (op = .Close ∨ s.closing = true → t.closing = true) ∧
      (s.closing = true → reply ≠ .Wrote) := by
  unfold State.perform at hstep
  cases op with
  | Wake i =>
    dsimp only at hstep
    split at hstep
    · cases hstep
    split at hstep
    · cases hstep
      simp
    split at hstep
    · cases hstep
    · next hopen _ =>
      cases hstep
      simp at hopen
      simp [hopen]
  | _ =>
    dsimp only at hstep
    grind

end Steps

/-- **A timerfd.** Each step of a run is what it is on Linux if and only if each step is prompt. No
timer thread writes after the close. -/
theorem timerfd_linux_iff_prompt {capacity : ℕ} (hcapacity : 0 < capacity) {nonblocking : Bool}
    {t : State} {es : List Event} (hrun : Run (Step capacity) (.new nonblocking) es t) :
    ((∀ e ∈ es, e.Linux) ↔ ∀ e ∈ es, e.Prompt capacity) ∧
      es.Pairwise fun e e' => e.op = .Close → e'.reply ≠ .Wrote := by
  refine ⟨(hrun.history (fun es t => ((∀ e ∈ es, e.Linux) ↔ ∀ e ∈ es, e.Prompt capacity) ∧
      ((∀ e ∈ es, e.Prompt capacity) → t.Fresh)) ⟨by simp, fun _ => .inl ⟨rfl, rfl⟩⟩ ?_).1,
    (hrun.history (fun es t => es.Pairwise (fun e e' => e.op = .Close → e'.reply ≠ .Wrote) ∧
      ∀ e ∈ es, e.op = .Close → t.closing = true) ⟨.nil, by simp⟩ ?_).1⟩
  · rintro es t ⟨before, op, reply, after⟩ u - ⟨hiff, hinv⟩ ⟨rfl, rfl, hstep⟩
    simp only [List.forall_mem_append, List.forall_mem_singleton]
    by_cases hprompt : ∀ e ∈ es, e.Prompt capacity
    · obtain ⟨hlast, hafter⟩ := (hinv hprompt).step hcapacity hstep
      exact ⟨and_congr hiff hlast, fun h => hafter h.2⟩
    · exact ⟨iff_of_false (fun h => hprompt (hiff.mp h.1)) fun h => hprompt h.1,
        fun h => absurd h.1 hprompt⟩
  · rintro es t ⟨before, op, reply, after⟩ u - ⟨hpairs, hinv⟩ ⟨rfl, rfl, hstep⟩
    obtain ⟨hclosing, hwrote⟩ := closing_of_step hstep
    refine ⟨List.pairwise_append.mpr ⟨hpairs, List.pairwise_singleton ..,
      fun e he e' he' hop => ?_⟩, fun e he hop => hclosing ?_⟩
    · rw [List.mem_singleton.mp he']
      exact hwrote (hinv e he hop)
    · rcases mem_snoc he with he | rfl
      · exact .inr (hinv e he hop)
      · exact .inl hop

/-- The events of a list of operations that do not wait. -/
def events (capacity : ℕ) : State → List Op → List Event
  | _, [] => []
  | s, op :: ops =>
    match s.perform capacity op with
    | none => []
    | some (reply, t) => ⟨s, op, reply, t⟩ :: events capacity t ops

theorem run_events {capacity : ℕ} {s : State} (ops : List Op) :
    ∃ t, Run (Step capacity) s (events capacity s ops) t := by
  induction ops generalizing s with
  | nil => exact ⟨s, .nil s⟩
  | cons op ops ih =>
    unfold events
    split
    · exact ⟨s, .nil s⟩
    next hstep => exact Run.exists_cons ⟨rfl, rfl, hstep⟩ ih

/-- A timer of one second, again and again. -/
def every_second : Op := .Settime ⟨1, 0⟩ ⟨1, 0⟩ 0

/-- Each expiration is read before the next. -/
theorem prompt_reader_reads_expirations :
    ∃ t, Run (Step 8) (.new true)
        (events 8 (.new true) [every_second, .Wake 0, .Read, .Wake 0, .Read, .Close]) t ∧
      ∀ e ∈ events 8 (.new true) [every_second, .Wake 0, .Read, .Wake 0, .Read, .Close], e.Linux := by
  obtain ⟨t, hrun⟩ := run_events _
  refine ⟨t, hrun, (timerfd_linux_iff_prompt (by decide) hrun).1.mpr ?_⟩
  simp [events, every_second, State.new, State.perform, Timespec.valid, Timespec.total, wrap, Int.bmod,
    Event.Prompt, Fits]

/-- Two expirations are read one by one; an expiration of a setting is read under the next; what the
guest writes is read; and a timer of 2 ^ 34 seconds has a deadline before its start. -/
theorem late_reader_reads_otherwise :
    (∃ t, Run (Step 8) (.new true)
      (events 8 (.new true) [every_second, .Wake 0, .Wake 0, .Read]) t) ∧
    (events 8 (.new true) [every_second, .Wake 0, .Wake 0, .Read]).map
        (fun e => (e.reply, e.before.expirations)) =
      [(.Done, 0), (.Wrote, 0), (.Wrote, 1), (.Value 1, 2)] ∧
    (events 8 (.new true) [every_second, .Wake 0, .Settime ⟨0, 0⟩ ⟨0, 0⟩ 0, .Read]).map
        (fun e => (e.reply, e.before.expirations)) =
      [(.Done, 0), (.Wrote, 0), (.Done, 1), (.Value 1, 0)] ∧
    (events 8 (.new true) [.Write 5, .Read]).map (fun e => (e.reply, e.before.expirations)) =
      [(.Done, 0), (.Value 5, 0)] ∧
    (events 8 (.new true) [.Settime ⟨2 ^ 34, 0⟩ ⟨0, 0⟩ 0]).map (fun e => e.after.timers) =
      [[⟨1, -1266874889709551616, 0⟩]] :=
  ⟨run_events _, by decide, by decide, by decide, by decide⟩

end DarwinArt.Socket.TimerFd
