/-
Opening and retiring a local group of the linker: `linker_open_reference.rs` and `retire_group` of
`linker_group_detach.rs`.

Every open of a group holds an `OpenReference`, and a counter of the group counts them. A group is
retired when the counter is zero, and nothing may be opened from then on. The counter and the flag
`retired` are two atomics, so the two sides meet in a handshake: an open looks at the flag, counts
itself and looks at the flag again; a retirement looks at the counter, sets the flag and looks at
the counter again. In between, with no lock held, it may call foreign code that can refuse.

## What is a step

One access to an atomic, one acquisition or release of the registry's locks, one call of the
foreign callback, or one change of the number of handles to an `OpenReference`. Each thread's place
in its call is part of the state (`Phase`), so every interleaving of the source is a run of these
steps. The two locks of the registry, the state and the retired ids, are taken together and given
back together, so they are one here. Nothing in these calls panics, so no lock is ever poisoned.

The flags of the group and its incoming references belong to other calls: anyone may promote the
flags and drop an incoming reference at any time, and new ones appear only while no retirement is
under way, as the callers guarantee.
-/
import DarwinArt.Lib.Checked
import DarwinArt.Lib.Map
import DarwinArt.Lib.Run

set_option autoImplicit false

namespace DarwinArt.Linker

open Lib

/-! ## The data -/

/-- A handle to an `OpenReference`: a lease, or a thread that is about to make one or to drop it. -/
inductive Holder
  | Lease (lease : ℕ)
  | Thread (thread : ℕ)
deriving DecidableEq

/-- The arguments of `acquire_open` and `consume_open`, as far as they decide anything: whether the
pointers are valid, and whether the lease has what the call needs. -/
structure OpenArgs where
  valid : Bool
  known : Bool
deriving DecidableEq

/-- The arguments of `retire_group`, as far as they decide anything: whether the pointers are
valid, what the lease knows about its group, and whether there is a callback. -/
structure RetireArgs where
  output : Bool
  live : Bool
  group_dependencies_complete : Bool
  known_group : Bool
  member : Bool
  rooted : Bool
  finalize : Bool
deriving DecidableEq

/-- What a step shows: the return of a call, or a callback. -/
inductive Event
  /-- `acquire_open` returned 0. -/
  | Acquired (lease : ℕ)
  /-- `acquire_open` returned something else. -/
  | NotAcquired (code : ℤ)
  | Consumed (code : ℤ)
  | Finalize (success : Bool)
  /-- `retire_group`, with or without a callback, returned. -/
  | Returned (finalize : Bool) (code : ℤ)
deriving DecidableEq

/-- Where a thread stands. -/
inductive Phase
  | Idle
  /-- `acquire_open`: the flag was clear. -/
  | Checked
  /-- Counted, before the second look at the flag. -/
  | Counted (reference : ℕ)
  /-- The flag was clear again; the lease is being made. -/
  | Admitted (reference : ℕ)
  /-- The flag was set; the reference is about to be dropped. -/
  | Rejected (reference : ℕ)
  /-- The last handle is gone, and `fetch_sub` is to come. The call then shows this. -/
  | Dropping (reference : ℕ) (event : Option Event)
  /-- `consume_open` has found that its handle is the only one. -/
  | Consuming (lease reference : ℕ)
  /-- `retire_group`: before the locks. -/
  | Waiting (args : RetireArgs)
  /-- With the locks: before the checks, and before each look at the counters. -/
  | Locked (args : RetireArgs)
  | Eligible (finalize : Bool)
  | Unflagged (finalize : Bool)
  | Unopened (finalize : Bool)
  /-- Before `retired.store(true)`. -/
  | Unneeded (finalize : Bool)
  /-- The flag is set: before the second look at the counters. -/
  | Marked (finalize : Bool)
  | Reopened (finalize : Bool)
  /-- Before `retired.store(false)`, with the locks. -/
  | Withdrawing (finalize : Bool)
  /-- Both counters were zero again. -/
  | Confirmed (finalize : Bool)
  /-- Without the locks, in the callback. -/
  | Finalizing
  /-- The callback refused: before `retired.store(false)`. -/
  | Refused
  /-- The callback succeeded: before the locks. -/
  | Finalized
  /-- With the locks, before the group is written down as retired. -/
  | Committing (finalize : Bool)
  /-- With the locks, on the way out. -/
  | Leaving (finalize : Bool) (code : ℤ)
deriving DecidableEq

/-- One group, its registry and the threads. -/
structure State where
  retired : Bool
  opens : ℕ
  incoming : ℕ
  /-- `group_root_flags`. -/
  flags : Bool × Bool
  /-- The thread that has the registry's locks. -/
  lock : Option ℕ
  /-- The group's id is among the retired ids. -/
  retired_id : Bool
  /-- The group's images are published. -/
  resident : Bool
  /-- The references that are counted, with their handles. -/
  references : Map ℕ (Finset Holder)
  next_reference : ℕ
  next_lease : ℕ
  phase : ℕ → Phase

/-- What a thread does next: the call it begins, or one step of the call it is in. -/
inductive Action
  | acquire_open (args : OpenArgs)
  | clone_lease (reference lease : ℕ)
  | release_lease (reference lease : ℕ)
  | consume_open (reference lease : ℕ)
  | consume_other (args : OpenArgs)
  | retire_group (args : RetireArgs)
  | proceed
  | callback (success : Bool)
  | promote_flags (global nodelete : Bool)
  | publish_dependency
  | release_dependency
deriving DecidableEq

namespace Phase

/-- Inside `retire_group`. -/
def retiring : Phase → Bool
  | .Waiting _ | .Locked _ | .Eligible _ | .Unflagged _ | .Unopened _ | .Unneeded _ | .Marked _
  | .Reopened _ | .Withdrawing _ | .Confirmed _ | .Finalizing | .Refused | .Finalized
  | .Committing _ | .Leaving _ _ => true
  | _ => false

end Phase

namespace State

/-- A group that has just been published. -/
def new (incoming : ℕ) (flags : Bool × Bool) (resident : Bool) : State where
  retired := false
  opens := 0
  incoming := incoming
  flags := flags
  lock := none
  retired_id := false
  resident := resident
  references := ∅
  next_reference := 0
  next_lease := 0
  phase := fun _ => .Idle

/-- A thread moves on. -/
def goto (s : State) (t : ℕ) (phase : Phase) : State :=
  { s with phase := Function.update s.phase t phase }

/-- The handles of a reference change. -/
def hold (s : State) (reference : ℕ) (holders : Finset Holder) : State :=
  { s with references := s.references.insert reference holders }

/-- A handle is dropped. Whoever drops the last one also drops the reference. -/
def drop_handle (s : State) (t reference : ℕ) (holder : Holder) (holders : Finset Holder)
    (event : Option Event) : Option Event × State :=
  let rest := holders.erase holder
  if rest = ∅ then (none, (s.hold reference rest).goto t (.Dropping reference event))
  else (event, (s.hold reference rest).goto t .Idle)

/-- The checks of `retire_group` before it takes the locks: what it returns if one fails. -/
def refuse (args : RetireArgs) : Option ℤ :=
  if ¬ args.output then some (-1)
  else if ¬ args.live then some (-1)
  else if ¬ args.group_dependencies_complete then some (-4)
  else if ¬ args.known_group then some (-4)
  else none

/-- What the checks under the locks return, if one fails. -/
def refuse_locked (s : State) (args : RetireArgs) : Option ℤ :=
  if s.retired ∨ s.retired_id then some (-1)
  else if ¬ (s.resident ∧ args.member) then some (-1)
  else if ¬ args.rooted then some (-4)
  else none

/-- A call that a thread begins. -/
def begin_call (s : State) (t : ℕ) : Action → Option (Option Event × State)
  | .acquire_open args =>
    if ¬ args.valid then some (some (.NotAcquired (-1)), s)
    else if ¬ args.known then some (some (.NotAcquired (-4)), s)
    else if s.retired then some (some (.NotAcquired (-1)), s)
    else some (none, s.goto t .Checked)
  | .clone_lease reference lease =>
    match s.references[reference]? with
    | none => none
    | some holders =>
      if .Lease lease ∈ holders then
        some (none, { s.hold reference (insert (.Lease s.next_lease) holders) with
          next_lease := s.next_lease + 1 })
      else none
  | .release_lease reference lease =>
    match s.references[reference]? with
    | none => none
    | some holders =>
      if .Lease lease ∈ holders then
        some (s.drop_handle t reference (.Lease lease) holders none)
      else none
  | .consume_open reference lease =>
    match s.references[reference]? with
    | none => none
    | some holders =>
      if .Lease lease ∈ holders then
        if holders.card ≠ 1 then some (some (.Consumed (-7)), s)
        else some (none, s.goto t (.Consuming lease reference))
      else none
  -- a null pointer, or a lease that holds no open
  | .consume_other args =>
    if ¬ args.valid then some (some (.Consumed (-1)), s)
    else if ¬ args.known then some (some (.Consumed (-4)), s)
    else none
  | .retire_group args =>
    match refuse args with
    | some code => some (some (.Returned args.finalize code), s)
    | none => some (none, s.goto t (.Waiting args))
  | .promote_flags global nodelete =>
    some (none, { s with flags := (s.flags.1 || global, s.flags.2 || nodelete) })
  | .release_dependency =>
    match checked_sub s.incoming 1 with
    | none => none
    | some incoming => some (none, { s with incoming := incoming })
  | .proceed | .callback _ | .publish_dependency => none

/-- One step of `acquire_open`, of `consume_open` or of a drop. -/
def step_open (s : State) (t : ℕ) : Phase → Option (Option Event × State)
  | .Checked =>
    match checked_add 64 s.opens 1 with
    | none => some (some (.NotAcquired (-5)), s.goto t .Idle)
    | some opens =>
      some (none, { (s.hold s.next_reference {.Thread t}).goto t (.Counted s.next_reference) with
        opens := opens
        next_reference := s.next_reference + 1 })
  | .Counted reference =>
    if s.retired then some (none, s.goto t (.Rejected reference))
    else some (none, s.goto t (.Admitted reference))
  | .Admitted reference =>
    match s.references[reference]? with
    | none => none
    | some holders =>
      some (some (.Acquired s.next_lease),
        { (s.hold reference (insert (.Lease s.next_lease) (holders.erase (.Thread t)))).goto t .Idle
          with next_lease := s.next_lease + 1 })
  | .Rejected reference =>
    match s.references[reference]? with
    | none => none
    | some holders => some (s.drop_handle t reference (.Thread t) holders (some (.NotAcquired (-1))))
  -- the source asserts that the counter was not zero
  | .Dropping reference event =>
    match checked_sub s.opens 1 with
    | none => none
    | some opens =>
      some (event, { s.goto t .Idle with opens := opens, references := s.references.erase reference })
  | .Consuming lease reference =>
    match s.references[reference]? with
    | none => none
    | some holders =>
      if .Lease lease ∈ holders then
        some (s.drop_handle t reference (.Lease lease) holders (some (.Consumed 0)))
      else none
  | _ => none

/-- One step of `retire_group`, but for the callback. -/
def step_retire (s : State) (t : ℕ) : Phase → Option (Option Event × State)
  | .Waiting args =>
    if s.lock = none then some (none, { s.goto t (.Locked args) with lock := some t }) else none
  | .Locked args =>
    match s.refuse_locked args with
    | some code => some (none, s.goto t (.Leaving args.finalize code))
    | none => some (none, s.goto t (.Eligible args.finalize))
  | .Eligible finalize =>
    if s.flags ≠ (false, false) then some (none, s.goto t (.Leaving finalize 1))
    else some (none, s.goto t (.Unflagged finalize))
  | .Unflagged finalize =>
    if s.opens ≠ 0 then some (none, s.goto t (.Leaving finalize 1))
    else some (none, s.goto t (.Unopened finalize))
  | .Unopened finalize =>
    if s.incoming ≠ 0 then some (none, s.goto t (.Leaving finalize 1))
    else some (none, s.goto t (.Unneeded finalize))
  | .Unneeded finalize => some (none, { s.goto t (.Marked finalize) with retired := true })
  | .Marked finalize =>
    if s.opens ≠ 0 then some (none, s.goto t (.Withdrawing finalize))
    else some (none, s.goto t (.Reopened finalize))
  | .Reopened finalize =>
    if s.incoming ≠ 0 then some (none, s.goto t (.Withdrawing finalize))
    else some (none, s.goto t (.Confirmed finalize))
  | .Withdrawing finalize =>
    some (none, { s.goto t (.Leaving finalize 1) with retired := false })
  | .Confirmed finalize =>
    if finalize then some (none, { s.goto t .Finalizing with lock := none })
    else some (none, s.goto t (.Committing false))
  | .Refused => some (some (.Returned true (-6)), { s.goto t .Idle with retired := false })
  | .Finalized =>
    if s.lock = none then some (none, { s.goto t (.Committing true) with lock := some t })
    else none
  | .Committing finalize =>
    some (none, { s.goto t (.Leaving finalize 0) with retired_id := true, resident := false })
  | .Leaving finalize code =>
    some (some (.Returned finalize code), { s.goto t .Idle with lock := none })
  | _ => none

/-- No thread is inside `retire_group`. -/
def NoRetirement (s : State) : Prop := ∀ t, (s.phase t).retiring = false

/-- A step of a thread. A new incoming reference is the one step that looks at other threads: its
callers keep it out of retirements. -/
def Performs (s : State) (t : ℕ) (action : Action) (event : Option Event) (s' : State) : Prop :=
  match action with
  | .publish_dependency =>
    s.NoRetirement ∧ event = none ∧
      ∃ incoming, checked_add 64 s.incoming 1 = some incoming ∧ s' = { s with incoming := incoming }
  | .callback success =>
    s.phase t = .Finalizing ∧ event = some (.Finalize success) ∧
      s' = s.goto t (if success then .Finalized else .Refused)
  | .proceed =>
    s.step_open t (s.phase t) = some (event, s') ∨ s.step_retire t (s.phase t) = some (event, s')
  | action => s.phase t = .Idle ∧ s.begin_call t action = some (event, s')

end State

/-- A thread, what it does and what that shows. -/
structure Label where
  thread : ℕ
  action : Action
  event : Option Event
deriving DecidableEq

/-- A step of a run. -/
def Step (s : State) (l : Label) (s' : State) : Prop := s.Performs l.thread l.action l.event s'

/-! ## What a step can do -/

namespace Phase

/-- The flag is set because of this thread. -/
def marking : Phase → Bool
  | .Marked _ | .Reopened _ | .Withdrawing _ | .Confirmed _ | .Finalizing | .Refused | .Finalized
  | .Committing _ => true
  | _ => false

/-- This thread has the locks. -/
def locked : Phase → Bool
  | .Locked _ | .Eligible _ | .Unflagged _ | .Unopened _ | .Unneeded _ | .Marked _ | .Reopened _
  | .Withdrawing _ | .Confirmed _ | .Committing _ | .Leaving _ _ => true
  | _ => false

/-- This thread has found the flag clear, under the locks, and has not set it. -/
def unmarked : Phase → Bool
  | .Eligible _ | .Unflagged _ | .Unopened _ | .Unneeded _ => true
  | _ => false

/-- This thread has set the flag and then found the counter at zero. -/
def settled : Phase → Bool
  | .Reopened _ | .Confirmed _ | .Finalizing | .Refused | .Finalized | .Committing _ => true
  | _ => false

/-- The counted reference that this thread has a handle to. -/
def handle : Phase → Option ℕ
  | .Counted reference | .Admitted reference | .Rejected reference => some reference
  | _ => none

theorem marking_of_settled {p : Phase} (h : p.settled = true) : p.marking = true := by
  cases p <;> simp_all [settled, marking]

theorem retiring_of_marking {p : Phase} (h : p.marking = true) : p.retiring = true := by
  cases p <;> simp_all [retiring, marking]

end Phase

/-- Steps that move a thread and change nothing else. -/
inductive Advance (s : State) : Phase → Phase → Prop
  | check : s.retired = false → Advance s .Idle .Checked
  | reject (r : ℕ) : s.retired = true → Advance s (.Counted r) (.Rejected r)
  | admitted (r : ℕ) : s.retired = false → Advance s (.Counted r) (.Admitted r)
  | consume (lease r : ℕ) : Advance s .Idle (.Consuming lease r)
  | wait (args : RetireArgs) : Advance s .Idle (.Waiting args)
  | refuse (args : RetireArgs) (code : ℤ) : code ≠ 0 →
      Advance s (.Locked args) (.Leaving args.finalize code)
  | accept (args : RetireArgs) : s.retired = false → s.retired_id = false →
      Advance s (.Locked args) (.Eligible args.finalize)
  | flagged (f : Bool) : Advance s (.Eligible f) (.Leaving f 1)
  | unflagged (f : Bool) : Advance s (.Eligible f) (.Unflagged f)
  | opened (f : Bool) : Advance s (.Unflagged f) (.Leaving f 1)
  | unopened (f : Bool) : Advance s (.Unflagged f) (.Unopened f)
  | needed (f : Bool) : Advance s (.Unopened f) (.Leaving f 1)
  | unneeded (f : Bool) : Advance s (.Unopened f) (.Unneeded f)
  | reopened (f : Bool) : Advance s (.Marked f) (.Withdrawing f)
  | empty (f : Bool) : s.opens = 0 → Advance s (.Marked f) (.Reopened f)
  | needed_again (f : Bool) : Advance s (.Reopened f) (.Withdrawing f)
  | confirm (f : Bool) : Advance s (.Reopened f) (.Confirmed f)
  | commit : Advance s (.Confirmed false) (.Committing false)

/-- Returns and silent steps that the protocol does not turn on. -/
def Event.plain : Option Event → Bool
  | none | some (.NotAcquired _) | some (.Consumed _) => true
  | some (.Returned _ code) => code != 0
  | _ => false

/-- Everything one step can do. -/
inductive Change (s : State) (t : ℕ) : Option Event → State → Prop
  | outside (event : Option Event) (flags : Bool × Bool) (incoming : ℕ) :
      Event.plain event = true →
      (∀ f code, event = some (.Returned f code) → s.phase t = .Idle) →
      Change s t event { s with flags := flags, incoming := incoming }
  | advance (p q : Phase) : s.phase t = p → Advance s p q → Change s t none (s.goto t q)
  | overflow : s.phase t = .Checked → Change s t (some (.NotAcquired (-5))) (s.goto t .Idle)
  | count (opens : ℕ) : s.phase t = .Checked → opens = s.opens + 1 →
      Change s t none
        { (s.hold s.next_reference {.Thread t}).goto t (.Counted s.next_reference) with
          opens := opens
          next_reference := s.next_reference + 1 }
  | acquire (r : ℕ) (holders : Finset Holder) : s.phase t = .Admitted r →
      s.references[r]? = some holders →
      Change s t (some (.Acquired s.next_lease))
        { (s.hold r (insert (.Lease s.next_lease) (holders.erase (.Thread t)))).goto t .Idle
          with next_lease := s.next_lease + 1 }
  | clone (r lease : ℕ) (holders : Finset Holder) : s.references[r]? = some holders →
      .Lease lease ∈ holders →
      Change s t none { s.hold r (insert (.Lease s.next_lease) holders) with
        next_lease := s.next_lease + 1 }
  | drop_shared (p : Phase) (r : ℕ) (holder : Holder) (holders : Finset Holder)
      (event : Option Event) : s.phase t = p → p.retiring = false →
      s.references[r]? = some holders →
      (∀ t', t' ≠ t → holder ≠ .Thread t') →
      (holder ∈ holders ∨ s.phase t = .Rejected r ∧ holder = .Thread t) →
      holders.erase holder ≠ ∅ →
      Event.plain event = true → (∀ f code, event ≠ some (.Returned f code)) →
      Change s t event ((s.hold r (holders.erase holder)).goto t .Idle)
  | drop_last (p : Phase) (r : ℕ) (holder : Holder) (holders : Finset Holder)
      (event : Option Event) : s.phase t = p → p.retiring = false →
      s.references[r]? = some holders →
      (∀ t', t' ≠ t → holder ≠ .Thread t') →
      (holder ∈ holders ∨ s.phase t = .Rejected r ∧ holder = .Thread t) →
      holders.erase holder = ∅ →
      Event.plain event = true → (∀ f code, event ≠ some (.Returned f code)) →
      Change s t none ((s.hold r (holders.erase holder)).goto t (.Dropping r event))
  | uncount (r opens : ℕ) (event : Option Event) : s.phase t = .Dropping r event →
      s.opens = opens + 1 →
      Change s t event { s.goto t .Idle with opens := opens, references := s.references.erase r }
  | lock (args : RetireArgs) : s.phase t = .Waiting args → s.lock = none →
      Change s t none { s.goto t (.Locked args) with lock := some t }
  | mark (f : Bool) : s.phase t = .Unneeded f →
      Change s t none { s.goto t (.Marked f) with retired := true }
  | withdraw (f : Bool) : s.phase t = .Withdrawing f →
      Change s t none { s.goto t (.Leaving f 1) with retired := false }
  | unlock : s.phase t = .Confirmed true →
      Change s t none { s.goto t .Finalizing with lock := none }
  | finalize (success : Bool) : s.phase t = .Finalizing →
      Change s t (some (.Finalize success))
        (s.goto t (if success then .Finalized else .Refused))
  | restore : s.phase t = .Refused →
      Change s t (some (.Returned true (-6))) { s.goto t .Idle with retired := false }
  | relock : s.phase t = .Finalized → s.lock = none →
      Change s t none { s.goto t (.Committing true) with lock := some t }
  | commit (f : Bool) : s.phase t = .Committing f →
      Change s t none
        { s.goto t (.Leaving f 0) with retired_id := true, resident := false }
  | leave (f : Bool) (code : ℤ) : s.phase t = .Leaving f code →
      Change s t (some (.Returned f code)) { s.goto t .Idle with lock := none }

namespace State

variable {s s' : State} {t : ℕ} {event : Option Event}

/-- Dropping a handle that is no other thread's. -/
theorem drop_handle_change {r : ℕ} {holder : Holder} {holders : Finset Holder}
    {shown : Option Event} (hphase : (s.phase t).retiring = false)
    (hholders : s.references[r]? = some holders) (hother : ∀ t', t' ≠ t → holder ≠ .Thread t')
    (hmem : holder ∈ holders ∨ s.phase t = .Rejected r ∧ holder = .Thread t)
    (hplain : Event.plain shown = true) (hret : ∀ f code, shown ≠ some (.Returned f code))
    (h : s.drop_handle t r holder holders shown = (event, s')) : Change s t event s' := by
  unfold drop_handle at h
  by_cases hrest : holders.erase holder = ∅
  · simp only [hrest, if_true, Prod.mk.injEq] at h
    obtain ⟨rfl, rfl⟩ := h
    rw [← hrest]
    exact .drop_last _ r holder holders shown rfl hphase hholders hother hmem hrest hplain hret
  · simp only [hrest, if_false, Prod.mk.injEq] at h
    obtain ⟨rfl, rfl⟩ := h
    exact .drop_shared _ r holder holders shown rfl hphase hholders hother hmem hrest hplain hret

theorem refuse_ne_zero {args : RetireArgs} {code : ℤ} (h : refuse args = some code) : code ≠ 0 := by
  unfold refuse at h
  split_ifs at h <;> simp_all <;> omega

theorem refuse_locked_ne_zero {args : RetireArgs} {code : ℤ}
    (h : s.refuse_locked args = some code) : code ≠ 0 := by
  unfold refuse_locked at h
  split_ifs at h <;> simp_all <;> omega

theorem refuse_locked_eq_none {args : RetireArgs} (h : s.refuse_locked args = none) :
    s.retired = false ∧ s.retired_id = false := by
  unfold refuse_locked at h
  split_ifs at h with hret
  simpa using hret

theorem begin_call_change {action : Action} (hidle : s.phase t = .Idle)
    (h : s.begin_call t action = some (event, s')) : Change s t event s' := by
  have hphase : (s.phase t).retiring = false := by rw [hidle]; rfl
  -- a call that returns at once leaves the state as it is
  have hnow : ∀ shown, Event.plain shown = true → Change s t shown s := fun shown hplain =>
    .outside shown s.flags s.incoming hplain fun _ _ _ => hidle
  cases action with
  | acquire_open =>
    simp only [begin_call] at h
    split_ifs at h with hvalid hknown hretired <;> cases h
    · exact hnow _ rfl
    · exact .advance _ _ hidle (.check (by simpa using hretired))
    · exact hnow _ rfl
    · exact hnow _ rfl
  | clone_lease r lease =>
    simp only [begin_call] at h
    split at h
    · simp at h
    · rename_i holders hholders
      split_ifs at h with hmem
      cases h
      exact .clone r lease holders hholders hmem
  | release_lease =>
    simp only [begin_call] at h
    split at h
    · simp at h
    · rename_i holders hholders
      split_ifs at h with hmem
      exact drop_handle_change hphase hholders (by simp) (.inl hmem) rfl (by simp)
        (Option.some.inj h)
  | consume_open r lease =>
    simp only [begin_call] at h
    split at h
    · simp at h
    · split_ifs at h with hmem hcard <;> cases h
      · exact hnow _ rfl
      · exact .advance _ _ hidle (.consume lease r)
  | consume_other =>
    simp only [begin_call] at h
    split_ifs at h with hvalid hknown <;> cases h
    all_goals exact hnow _ rfl
  | retire_group args =>
    simp only [begin_call] at h
    split at h
    · rename_i code hcode
      cases h
      exact hnow _ (by simpa [Event.plain] using refuse_ne_zero hcode)
    · cases h
      exact .advance _ _ hidle (.wait args)
  | promote_flags =>
    simp only [begin_call] at h
    cases h
    exact .outside none _ s.incoming rfl (by simp)
  | release_dependency =>
    simp only [begin_call] at h
    split at h
    · simp at h
    · cases h
      exact .outside none s.flags _ rfl (by simp)
  | proceed | callback | publish_dependency => simp [begin_call] at h

theorem step_open_change (h : s.step_open t (s.phase t) = some (event, s')) :
    Change s t event s' := by
  cases hphase : s.phase t with
  | Checked =>
    simp only [hphase, step_open] at h
    split at h <;> cases h
    · exact .overflow hphase
    · rename_i opens hopens
      exact .count opens hphase (checked_add_eq_some.mp hopens).2.symm
  | Counted r =>
    simp only [hphase, step_open] at h
    split_ifs at h with hretired <;> cases h
    · exact .advance _ _ hphase (.reject r hretired)
    · exact .advance _ _ hphase (.admitted r (by simpa using hretired))
  | Admitted r =>
    simp only [hphase, step_open] at h
    split at h
    · simp at h
    · rename_i holders hholders
      cases h
      exact .acquire r holders hphase hholders
  | Rejected =>
    simp only [hphase, step_open] at h
    split at h
    · simp at h
    · rename_i holders hholders
      refine drop_handle_change (by rw [hphase]; rfl) hholders ?_ (.inr ⟨hphase, rfl⟩) rfl (by simp)
        (Option.some.inj h)
      intro t' hne
      simpa using hne.symm
  | Dropping r =>
    simp only [hphase, step_open] at h
    split at h
    · simp at h
    · rename_i opens hopens
      cases h
      have hsub := (checked_sub_eq_some.mp hopens).2
      exact .uncount r opens _ hphase (by omega)
  | Consuming =>
    simp only [hphase, step_open] at h
    split at h
    · simp at h
    · rename_i holders hholders
      split_ifs at h with hmem
      exact drop_handle_change (by rw [hphase]; rfl) hholders (by simp) (.inl hmem) rfl (by simp)
        (Option.some.inj h)
  | _ => simp [hphase, step_open] at h

theorem step_retire_change (h : s.step_retire t (s.phase t) = some (event, s')) :
    Change s t event s' := by
  -- most branches only move the thread
  have hmove : ∀ {p q : Phase}, s.phase t = p → Advance s p q →
      (none, s.goto t q) = (event, s') → Change s t event s' := by
    intro p q hp hadv heq
    obtain ⟨rfl, rfl⟩ := Prod.mk.injEq .. ▸ heq
    exact .advance p q hp hadv
  cases hphase : s.phase t with
  | Waiting args =>
    simp only [hphase, step_retire] at h
    split_ifs at h with hlock
    cases h
    exact .lock args hphase hlock
  | Locked args =>
    simp only [hphase, step_retire] at h
    split at h
    · rename_i code hcode
      exact hmove hphase (.refuse args code (refuse_locked_ne_zero hcode)) (Option.some.inj h)
    · rename_i hnone
      obtain ⟨hretired, hid⟩ := refuse_locked_eq_none hnone
      exact hmove hphase (.accept args hretired hid) (Option.some.inj h)
  | Eligible f =>
    simp only [hphase, step_retire] at h
    split_ifs at h
    · exact hmove hphase (.flagged f) (Option.some.inj h)
    · exact hmove hphase (.unflagged f) (Option.some.inj h)
  | Unflagged f =>
    simp only [hphase, step_retire] at h
    split_ifs at h
    · exact hmove hphase (.opened f) (Option.some.inj h)
    · exact hmove hphase (.unopened f) (Option.some.inj h)
  | Unopened f =>
    simp only [hphase, step_retire] at h
    split_ifs at h
    · exact hmove hphase (.needed f) (Option.some.inj h)
    · exact hmove hphase (.unneeded f) (Option.some.inj h)
  | Unneeded f =>
    simp only [hphase, step_retire] at h
    cases h
    exact .mark f hphase
  | Marked f =>
    simp only [hphase, step_retire] at h
    split_ifs at h with hopens
    · exact hmove hphase (.reopened f) (Option.some.inj h)
    · exact hmove hphase (.empty f (by simpa using hopens)) (Option.some.inj h)
  | Reopened f =>
    simp only [hphase, step_retire] at h
    split_ifs at h
    · exact hmove hphase (.needed_again f) (Option.some.inj h)
    · exact hmove hphase (.confirm f) (Option.some.inj h)
  | Withdrawing f =>
    simp only [hphase, step_retire] at h
    cases h
    exact .withdraw f hphase
  | Confirmed =>
    simp only [hphase, step_retire] at h
    split_ifs at h with hf
    · cases h
      exact .unlock (by rw [hphase, hf])
    · exact hmove (by rw [hphase, Bool.eq_false_iff.mpr hf]) .commit (Option.some.inj h)
  | Refused =>
    simp only [hphase, step_retire] at h
    cases h
    exact .restore hphase
  | Finalized =>
    simp only [hphase, step_retire] at h
    split_ifs at h with hlock
    cases h
    exact .relock hphase hlock
  | Committing f =>
    simp only [hphase, step_retire] at h
    cases h
    exact .commit f hphase
  | Leaving f code =>
    simp only [hphase, step_retire] at h
    cases h
    exact .leave f code hphase
  | _ => simp [hphase, step_retire] at h

end State

theorem Step.change {s s' : State} {l : Label} (h : Step s l s') :
    Change s l.thread l.event s' := by
  obtain ⟨t, action, event⟩ := l
  cases action with
  | publish_dependency =>
    obtain ⟨-, hevent, incoming, -, rfl⟩ := h
    obtain rfl : event = none := hevent
    exact .outside none s.flags incoming rfl (by simp)
  | callback success =>
    obtain ⟨hphase, hevent, rfl⟩ := h
    obtain rfl : event = some (.Finalize success) := hevent
    exact .finalize success hphase
  | proceed =>
    rcases h with h | h
    · exact State.step_open_change h
    · exact State.step_retire_change h
  | _ => exact State.begin_call_change h.1 h.2

end DarwinArt.Linker
