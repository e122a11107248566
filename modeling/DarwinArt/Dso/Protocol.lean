/-
The destructor protocol: any number of calls of `register`, `finalize`, `finalize_all_active` and
`finalize_image`, on any number of lifecycles, with their critical sections interleaved in any
order.

A call is one activation: a destructor that calls back into the facade does so as a call of its own,
so registrations and finalizations made from inside a destructor are among the interleavings. Every
critical section is one step. The entry coordinator is held over several steps only by
`take_latest_global`, which takes the locks of the lifecycles one after another.

Three facts carry the result. Whoever changes the entries holds the coordinator, so what a global
pick has scanned does not change before it takes. Sequence numbers are given out under it, so the
entries of a lifecycle stand in their order. And a handle of an image that is being finalized comes
back into use only through a destructor of it that is running.
-/
import DarwinArt.Dso.Lifecycle
import DarwinArt.Lib.Run

set_option autoImplicit false

namespace DarwinArt.Dso

open Lib Lib.ListEdit

/-! ## Calls -/

/-- For whom `finalize_matching` runs. -/
inductive Job
  | Finalize (dso : ℕ)
  | FinalizeImage (start stop : ℕ) (handles : Finset ℕ)
deriving DecidableEq

/-- The predicate that is passed to `finalize_matching`. -/
def Job.matching : Job → Entry → Bool
  | .Finalize dso, entry => dso == 0 || entry.dso == dso
  | .FinalizeImage _ _ handles, entry => decide (entry.dso ∈ handles)

/-- Where a call stands. -/
inductive Phase
  | Idle
  /-- At the head of the loop of `finalize_matching`. -/
  | Matching (lifecycle : ℕ) (job : Job)
  /-- The destructor of an entry is running. -/
  | Running (lifecycle : ℕ) (job : Job) (entry : Entry)
  /-- Nothing matched any more. -/
  | Retaining (lifecycle : ℕ) (job : Job)
  /-- Before the last critical section of `finalize_image`. -/
  | Quiescing (lifecycle start stop : ℕ) (handles : Finset ℕ)
  /-- At the head of the loop of `finalize_all_active`. -/
  | Global
  /-- In `take_latest_global`, with the lifecycles it read and those it has yet to scan. -/
  | Scanning (lifecycles todo : List ℕ) (selected : Option Selected)
  | RunningGlobal (lifecycle : ℕ) (entry : Entry)
deriving DecidableEq

namespace Phase

/-- The destructor that a call is running. -/
def runs : Phase → Option (ℕ × Entry)
  | Running lifecycle _ entry => some (lifecycle, entry)
  | RunningGlobal lifecycle entry => some (lifecycle, entry)
  | _ => none

/-- The image that a call is finalizing, with the handles it read at its start. -/
def finalizes : Phase → Option (ℕ × ℕ × ℕ × Finset ℕ)
  | Matching lifecycle (.FinalizeImage start stop handles) => some (lifecycle, start, stop, handles)
  | Running lifecycle (.FinalizeImage start stop handles) _ => some (lifecycle, start, stop, handles)
  | Retaining lifecycle (.FinalizeImage start stop handles) => some (lifecycle, start, stop, handles)
  | Quiescing lifecycle start stop handles => some (lifecycle, start, stop, handles)
  | _ => none

/-- The call is inside `take_latest_global`. -/
def scans : Phase → Bool
  | Scanning _ _ _ => true
  | _ => false

end Phase

/-! ## The system -/

structure System where
  lifecycles : ℕ → State
  /-- `ACTIVE`. -/
  active : List ℕ
  /-- `NEXT_SEQUENCE`. -/
  next_sequence : ℕ
  /-- The call that holds `ENTRY_COORDINATOR` from one step to the next. -/
  coordinator : Option ℕ
  call : ℕ → Phase

namespace System

def new : System := ⟨fun _ => State.new, [], 1, none, fun _ => .Idle⟩

/-- The state of a lifecycle changes. -/
def set (s : System) (l : ℕ) (state : State) : System :=
  { s with lifecycles := Function.update s.lifecycles l state }

/-- A call moves on. -/
def goto (s : System) (c : ℕ) (phase : Phase) : System :=
  { s with call := Function.update s.call c phase }

end System

def activate (allow_global : ℕ → Bool) (active : List ℕ) (l : ℕ) (reserve : Bool) :
    Except Error (List ℕ) := do
  ensure (l ∉ active) .AlreadyActive
  ensure (¬ (allow_global l = true ∧ active.any allow_global = true)) .GlobalAlreadyActive
  ensure (reserve = true) .ReserveActive
  return active ++ [l]

/-- What a step shows. -/
inductive Event
  | Silent
  | Published (lifecycle dso : ℕ)
  | PublishedImage (lifecycle start stop : ℕ)
  /-- `register` returns: the accepted entry, or -1. -/
  | Registered (lifecycle dso : ℕ) (result : Option Entry)
  /-- A global pick has read the active lifecycles. -/
  | ReadActive (call : ℕ)
  /-- An entry is picked by `finalize_matching`, and its function called. -/
  | Picked (lifecycle : ℕ) (job : Job) (entry : Entry)
  /-- An entry is picked by `take_latest_global`, and its function called. -/
  | PickedGlobal (call lifecycle : ℕ) (entry : Entry)
  /-- `finalize_image` has taken its image out, and returns `Ok`. -/
  | FinalizedImage (lifecycle start stop : ℕ)
deriving DecidableEq

def Event.called : Event → Option Entry
  | .Picked _ _ entry => some entry
  | .PickedGlobal _ _ entry => some entry
  | _ => none

def Event.accepted : Event → Option Entry
  | .Registered _ _ result => result
  | _ => none

/-- The entries whose functions were called, in order. -/
def called (es : List Event) : List Entry := es.filterMap Event.called

/-- The entries of the registrations that were accepted, in order. -/
def accepted (es : List Event) : List Entry := es.filterMap Event.accepted

/-- The steps. Operations that fail and leave everything as it was are left out. -/
inductive Step (allow_global : ℕ → Bool) : System → Event → System → Prop
  | activate (s : System) (l : ℕ) (reserve : Bool) (active : List ℕ) :
      Dso.activate allow_global s.active l reserve = .ok active →
      Step allow_global s .Silent { s with active := active }
  /-- An `Activation` is dropped. -/
  | deactivate (s : System) (l : ℕ) :
      Step allow_global s .Silent { s with active := s.active.filter (· != l) }
  | publish (s : System) (l dso : ℕ) (reserve : Bool) (state : State) :
      (s.lifecycles l).publish dso reserve = .ok state →
      Step allow_global s (.Published l dso) (s.set l state)
  | unpublish (s : System) (l dso : ℕ) (state : State) :
      (s.lifecycles l).try_unpublish dso = .ok state →
      Step allow_global s .Silent (s.set l state)
  | publish_image (s : System) (l start stop : ℕ) (reserve : Bool) (state : State) :
      (s.lifecycles l).publish_image start stop reserve = .ok state →
      Step allow_global s (.PublishedImage l start stop) (s.set l state)
  | register (s : System) (l : ℕ) (function : Option ℕ) (argument dso : ℕ)
      (reserve_handle reserve_entry : Bool) (result : Option Entry) (state : State) (next : ℕ) :
      s.coordinator = none →
      (s.lifecycles l).register s.next_sequence function argument dso reserve_handle reserve_entry =
        (result, state, next) →
      Step allow_global s (.Registered l dso result) { s.set l state with next_sequence := next }
  | register_thread (s : System) (l dso : ℕ) (reserve : Bool) (state : State) :
      (s.lifecycles l).register_thread dso reserve = some state →
      Step allow_global s .Silent (s.set l state)
  | complete_thread (s : System) (l dso : ℕ) (state : State) :
      (s.lifecycles l).complete_thread_destructor dso = some state →
      Step allow_global s .Silent (s.set l state)
  | finalize (s : System) (c l dso : ℕ) : s.call c = .Idle →
      Step allow_global s .Silent (s.goto c (.Matching l (.Finalize dso)))
  | finalize_image (s : System) (c l start stop : ℕ) (handles : Finset ℕ) (state : State) :
      s.call c = .Idle →
      (s.lifecycles l).begin_finalize_image start stop = .ok (handles, state) →
      Step allow_global s .Silent
        ((s.set l state).goto c (.Matching l (.FinalizeImage start stop handles)))
  | pick (s : System) (c l : ℕ) (job : Job) (entry : Entry) (state : State) :
      s.call c = .Matching l job → s.coordinator = none →
      (s.lifecycles l).take_latest_matching job.matching = some (entry, state) →
      Step allow_global s (.Picked l job entry) ((s.set l state).goto c (.Running l job entry))
  | no_match (s : System) (c l : ℕ) (job : Job) :
      s.call c = .Matching l job → s.coordinator = none →
      (s.lifecycles l).take_latest_matching job.matching = none →
      Step allow_global s .Silent (s.goto c (.Retaining l job))
  | complete (s : System) (c l : ℕ) (job : Job) (entry : Entry) (state : State) :
      s.call c = .Running l job entry →
      (s.lifecycles l).complete_callback entry.dso = some state →
      Step allow_global s .Silent ((s.set l state).goto c (.Matching l job))
  | retain (s : System) (c l dso : ℕ) :
      s.call c = .Retaining l (.Finalize dso) → s.coordinator = none →
      Step allow_global s .Silent ((s.set l (s.lifecycles l).retain_entries).goto c .Idle)
  | retain_image (s : System) (c l start stop : ℕ) (handles : Finset ℕ) :
      s.call c = .Retaining l (.FinalizeImage start stop handles) → s.coordinator = none →
      Step allow_global s .Silent
        ((s.set l (s.lifecycles l).retain_entries).goto c (.Quiescing l start stop handles))
  | again (s : System) (c l start stop : ℕ) (handles : Finset ℕ) :
      s.call c = .Quiescing l start stop handles →
      (s.lifecycles l).quiesce start stop handles = .Again →
      Step allow_global s .Silent (s.goto c (.Matching l (.FinalizeImage start stop handles)))
  | disappeared (s : System) (c l start stop : ℕ) (handles : Finset ℕ) :
      s.call c = .Quiescing l start stop handles →
      (s.lifecycles l).quiesce start stop handles = .Disappeared →
      Step allow_global s .Silent (s.goto c .Idle)
  | finalized_image (s : System) (c l start stop : ℕ) (handles : Finset ℕ) (state : State) :
      s.call c = .Quiescing l start stop handles →
      (s.lifecycles l).quiesce start stop handles = .Done state →
      Step allow_global s (.FinalizedImage l start stop) ((s.set l state).goto c .Idle)
  | finalize_all (s : System) (c : ℕ) : s.call c = .Idle →
      Step allow_global s .Silent (s.goto c .Global)
  | read_active (s : System) (c : ℕ) : s.call c = .Global → s.coordinator = none →
      Step allow_global s (.ReadActive c)
        ({ s with coordinator := some c }.goto c (.Scanning s.active s.active none))
  | scan (s : System) (c : ℕ) (lifecycles : List ℕ) (l : ℕ) (todo : List ℕ)
      (selected : Option Selected) :
      s.call c = .Scanning lifecycles (l :: todo) selected →
      Step allow_global s .Silent
        (s.goto c (.Scanning lifecycles todo (Dso.scan l 0 (s.lifecycles l).entries selected)))
  | pick_global (s : System) (c : ℕ) (lifecycles : List ℕ) (best : Selected) (entry : Entry)
      (state : State) :
      s.call c = .Scanning lifecycles [] (some best) →
      (s.lifecycles best.lifecycle).take_entry best.index = some (entry, state) →
      entry.sequence = best.sequence →
      Step allow_global s (.PickedGlobal c best.lifecycle entry)
        ({ s.set best.lifecycle state with coordinator := none }.goto c
          (.RunningGlobal best.lifecycle entry))
  | nothing_global (s : System) (c : ℕ) (lifecycles : List ℕ) :
      s.call c = .Scanning lifecycles [] none →
      Step allow_global s .Silent ({ s with coordinator := none }.goto c .Idle)
  | complete_global (s : System) (c l : ℕ) (entry : Entry) (state : State) :
      s.call c = .RunningGlobal l entry →
      (s.lifecycles l).complete_callback entry.dso = some state →
      Step allow_global s .Silent ((s.set l state).goto c .Global)

/-! ## What a step changes -/

section Frames

variable (s : System) {c c' l l' : ℕ} (state : State) (phase : Phase)

@[simp] theorem System.set_self : (s.set l state).lifecycles l = state := by
  simp [System.set]

theorem System.set_of_ne (h : l' ≠ l) : (s.set l state).lifecycles l' = s.lifecycles l' := by
  simp [System.set, h]

@[simp] theorem System.goto_self : (s.goto c phase).call c = phase := by
  simp [System.goto]

theorem System.goto_of_ne (h : c' ≠ c) : (s.goto c phase).call c' = s.call c' := by
  simp [System.goto, h]

@[simp] theorem System.goto_lifecycles : (s.goto c phase).lifecycles = s.lifecycles := rfl

/-- What holds of all lifecycles still does if it holds of the one that was set. -/
theorem System.set_forall {P : ℕ → State → Prop} (h : ∀ l', P l' (s.lifecycles l'))
    (hstate : P l state) (l' : ℕ) : P l' ((s.set l state).lifecycles l') := by
  by_cases heq : l' = l
  · rwa [heq, System.set_self]
  · rw [System.set_of_ne s state heq]
    exact h l'

/-- What holds of all calls still does if it holds of the one that moved. -/
theorem System.goto_forall {P : ℕ → Phase → Prop} (h : ∀ c', P c' (s.call c'))
    (hphase : P c phase) (c' : ℕ) : P c' ((s.goto c phase).call c') := by
  by_cases heq : c' = c
  · rwa [heq, System.goto_self]
  · rw [System.goto_of_ne s phase heq]
    exact h c'

end Frames

/-- What a step does to the entries, to the counts, and to the destructors that run. -/
inductive Change (s : System) (event : Event) (s' : System) : Prop
  | quiet (hpending : ∀ l, (s'.lifecycles l).pending = (s.lifecycles l).pending)
      (hcount : ∀ l d, count (s'.lifecycles l).active_callbacks d =
        count (s.lifecycles l).active_callbacks d)
      (hruns : ∀ c, (s'.call c).runs = (s.call c).runs)
      (hnext : s'.next_sequence = s.next_sequence)
      (hcalled : event.called = none) (haccepted : event.accepted = none)
  | registered (l : ℕ) (entry : Entry) (hsequence : entry.sequence = s.next_sequence)
      (hpending : (s'.lifecycles l).pending = (s.lifecycles l).pending ++ [entry])
      (hothers : ∀ l', l' ≠ l → (s'.lifecycles l').pending = (s.lifecycles l').pending)
      (hcount : ∀ l d, count (s'.lifecycles l).active_callbacks d =
        count (s.lifecycles l).active_callbacks d)
      (hruns : ∀ c, (s'.call c).runs = (s.call c).runs)
      (hnext : s'.next_sequence = s.next_sequence + 1)
      (hcalled : event.called = none) (haccepted : event.accepted = some entry)
  | taken (c l : ℕ) (entry : Entry) (before after : List Entry)
      (hbefore : (s.lifecycles l).pending = before ++ entry :: after)
      (hpending : (s'.lifecycles l).pending = before ++ after)
      (hothers : ∀ l', l' ≠ l → (s'.lifecycles l').pending = (s.lifecycles l').pending)
      (hself : count (s'.lifecycles l).active_callbacks entry.dso =
        count (s.lifecycles l).active_callbacks entry.dso + 1)
      (hcount : ∀ l' d, ¬ (l' = l ∧ d = entry.dso) →
        count (s'.lifecycles l').active_callbacks d = count (s.lifecycles l').active_callbacks d)
      (hidle : (s.call c).runs = none) (hrun : (s'.call c).runs = some (l, entry))
      (hruns : ∀ c', c' ≠ c → (s'.call c').runs = (s.call c').runs)
      (hnext : s'.next_sequence = s.next_sequence)
      (hcalled : event.called = some entry) (haccepted : event.accepted = none)
  | completed (c l : ℕ) (entry : Entry)
      (hpending : ∀ l, (s'.lifecycles l).pending = (s.lifecycles l).pending)
      (hself : count (s.lifecycles l).active_callbacks entry.dso =
        count (s'.lifecycles l).active_callbacks entry.dso + 1)
      (hcount : ∀ l' d, ¬ (l' = l ∧ d = entry.dso) →
        count (s'.lifecycles l').active_callbacks d = count (s.lifecycles l').active_callbacks d)
      (hrun : (s.call c).runs = some (l, entry)) (hidle : (s'.call c).runs = none)
      (hruns : ∀ c', c' ≠ c → (s'.call c').runs = (s.call c').runs)
      (hnext : s'.next_sequence = s.next_sequence)
      (hcalled : event.called = none) (haccepted : event.accepted = none)

section Changes

variable {s : System} {event : Event} {c l : ℕ} {state : State} {phase : Phase}

variable {s' : System}

/-- Only the active list and the coordinator change. -/
theorem Change.of_eq (hlifecycles : s'.lifecycles = s.lifecycles)
    (hcall : s'.call = s.call) (hnext : s'.next_sequence = s.next_sequence)
    (hcalled : event.called = none) (haccepted : event.accepted = none) : Change s event s' :=
  .quiet (fun _ => by rw [hlifecycles]) (fun _ _ => by rw [hlifecycles]) (fun _ => by rw [hcall])
    hnext hcalled haccepted

/-- A lifecycle changes in neither its entries nor its counts. -/
theorem Change.of_set (hlifecycles : s'.lifecycles = (s.set l state).lifecycles)
    (hpending : state.pending = (s.lifecycles l).pending)
    (hcount : ∀ d, count state.active_callbacks d = count (s.lifecycles l).active_callbacks d)
    (hruns : ∀ c, (s'.call c).runs = (s.call c).runs) (hnext : s'.next_sequence = s.next_sequence)
    (hcalled : event.called = none) (haccepted : event.accepted = none) : Change s event s' := by
  refine .quiet ?_ ?_ hruns hnext hcalled haccepted
  · rw [hlifecycles]
    exact s.set_forall state (P := fun l' st => st.pending = (s.lifecycles l').pending)
      (fun _ => rfl) hpending
  · rw [hlifecycles]
    exact s.set_forall state (P := fun l' st => ∀ d, count st.active_callbacks d =
      count (s.lifecycles l').active_callbacks d) (fun _ _ => rfl) hcount

/-- A call moves between phases in which it runs the same destructor, or none. -/
theorem runs_goto (hcall : s'.call = (s.goto c phase).call)
    (h : phase.runs = (s.call c).runs) (c' : ℕ) : (s'.call c').runs = (s.call c').runs := by
  rw [hcall]
  exact s.goto_forall phase (P := fun c' p => p.runs = (s.call c').runs) (fun _ => rfl) h c'

/-- An entry is taken and its destructor starts. -/
theorem Change.of_take {entry : Entry} {before after : List (Option Entry)}
    (hentries : (s.lifecycles l).entries = before ++ some entry :: after)
    (hstate : state = { s.lifecycles l with
      entries := before ++ none :: after
      active_callbacks := increment (s.lifecycles l).active_callbacks entry.dso })
    (hlifecycles : s'.lifecycles = (s.set l state).lifecycles)
    (hcall : s'.call = (s.goto c phase).call) (hidle : (s.call c).runs = none)
    (hrun : phase.runs = some (l, entry)) (hnext : s'.next_sequence = s.next_sequence)
    (hcalled : event.called = some entry) (haccepted : event.accepted = none) :
    Change s event s' := by
  refine .taken c l entry (before.filterMap id) (after.filterMap id) ?_ ?_ ?_ ?_ ?_ hidle ?_ ?_ hnext
    hcalled haccepted
  · simp [State.pending, hentries]
  · rw [hlifecycles, System.set_self, hstate]
    simp [State.pending]
  · intro l' hne
    rw [hlifecycles, System.set_of_ne s state hne]
  · rw [hlifecycles, System.set_self, hstate]
    exact count_increment_self _ _
  · intro l' d hne
    rw [hlifecycles]
    by_cases hl : l' = l
    · rw [hl, System.set_self, hstate]
      exact count_increment_of_ne _ fun hd => hne ⟨hl, hd⟩
    · rw [System.set_of_ne s state hl]
  · rwa [hcall, System.goto_self]
  · intro c' hne
    rw [hcall, System.goto_of_ne s phase hne]

/-- A destructor has returned. -/
theorem Change.of_complete {entry : Entry}
    (hcomplete : (s.lifecycles l).complete_callback entry.dso = some state)
    (hlifecycles : s'.lifecycles = (s.set l state).lifecycles)
    (hcall : s'.call = (s.goto c phase).call) (hrun : (s.call c).runs = some (l, entry))
    (hidle : phase.runs = none) (hnext : s'.next_sequence = s.next_sequence)
    (hcalled : event.called = none) (haccepted : event.accepted = none) : Change s event s' := by
  obtain ⟨_, hcounts, rfl⟩ := Option.map_eq_some_iff.mp hcomplete
  refine .completed c l entry ?_ ?_ ?_ hrun ?_ ?_ hnext hcalled haccepted
  · rw [hlifecycles]
    exact s.set_forall _ (P := fun l' st => st.pending = (s.lifecycles l').pending)
      (fun _ => rfl) rfl
  · rw [hlifecycles, System.set_self]
    exact count_decrement_self hcounts
  · intro l' d hne
    rw [hlifecycles]
    by_cases hl : l' = l
    · rw [hl, System.set_self]
      exact count_decrement_of_ne hcounts fun hd => hne ⟨hl, hd⟩
    · rw [System.set_of_ne s _ hl]
  · rwa [hcall, System.goto_self]
  · intro c' hne
    rw [hcall, System.goto_of_ne s phase hne]

variable {allow_global : ℕ → Bool} {s' : System}

/-- **Every step makes one of the four changes.** -/
theorem Step.change (hsound : ∀ l, (s.lifecycles l).Sound) (h : Step allow_global s event s') :
    Change s event s' := by
  cases h with
  | activate | deactivate => exact .of_eq rfl rfl rfl rfl rfl
  | publish _ _ _ _ hop =>
    rw [State.publish_spec hop]
    exact .of_set rfl rfl (fun _ => rfl) (fun _ => rfl) rfl rfl rfl
  | unpublish _ _ _ hop =>
    refine .of_set rfl ?_ (State.try_unpublish_counts hop) (fun _ => rfl) rfl rfl rfl
    rw [(State.try_unpublish_spec hop).2]
    rfl
  | publish_image _ _ _ _ _ hop =>
    obtain ⟨-, -, rfl⟩ := State.publish_image_spec hop
    exact .of_set rfl rfl (fun _ => rfl) (fun _ => rfl) rfl rfl rfl
  | register l _ _ _ _ _ _ _ _ _ hop =>
    rcases State.register_cases (hsound l).images hop with ⟨rfl, rfl, htakes⟩ |
      ⟨entry, _, rfl, hsequence, rfl, -, htakes, rfl, -⟩
    · refine .of_set rfl ?_ ?_ (fun _ => rfl) rfl rfl rfl
      · rw [State.pending, State.pending, htakes.entries]
      · intro d
        rw [htakes.active_callbacks]
    · refine .registered l entry hsequence ?_ ?_ ?_ (fun _ => rfl) rfl rfl rfl
      · simp only [System.set_self]
        rw [pending_push, State.pending, State.pending, htakes.entries]
      · intro l' hne
        simp only [System.set_of_ne s _ hne]
      · exact s.set_forall _ (P := fun l' st => ∀ d, count st.active_callbacks d =
          count (s.lifecycles l').active_callbacks d) (fun _ _ => rfl)
          fun d => by rw [← htakes.active_callbacks]
  | register_thread l _ _ _ hop =>
    have htakes := State.register_thread_takes (hsound l).images hop
    refine .of_set rfl ?_ ?_ (fun _ => rfl) rfl rfl rfl
    · rw [State.pending, State.pending, htakes.entries]
    · intro d
      rw [htakes.active_callbacks]
  | complete_thread l _ _ hop =>
    have htakes := State.complete_thread_destructor_takes (hsound l).images hop
    refine .of_set rfl ?_ ?_ (fun _ => rfl) rfl rfl rfl
    · rw [State.pending, State.pending, htakes.entries]
    · intro d
      rw [htakes.active_callbacks]
  | finalize _ _ _ hcall | no_match _ _ _ hcall | again _ _ _ _ _ hcall
  | disappeared _ _ _ _ _ hcall | finalize_all _ hcall | read_active _ hcall | scan _ _ _ _ _ hcall
  | nothing_global _ _ hcall =>
    exact .quiet (fun _ => rfl) (fun _ _ => rfl) (runs_goto rfl (by rw [hcall]; rfl)) rfl rfl rfl
  | finalize_image _ _ _ _ _ _ hcall hop =>
    obtain ⟨before, image, after, -, -, -, -, -, rfl⟩ := State.begin_finalize_image_spec hop
    exact .of_set rfl rfl (fun _ => rfl) (runs_goto rfl (by rw [hcall]; rfl)) rfl rfl rfl
  | pick _ _ _ _ _ hcall _ hop =>
    obtain ⟨before, after, hentries, -, -, hstate⟩ := State.take_latest_matching_spec hop
    exact .of_take hentries hstate rfl rfl (by rw [hcall]; rfl) rfl rfl rfl rfl
  | complete _ _ _ _ _ hcall hop | complete_global _ _ _ _ hcall hop =>
    exact .of_complete hop rfl rfl (by rw [hcall]; rfl) rfl rfl rfl rfl
  | retain _ _ _ hcall | retain_image _ _ _ _ _ hcall =>
    exact .of_set rfl (State.pending_retain _) (fun _ => rfl) (runs_goto rfl (by rw [hcall]; rfl))
      rfl rfl rfl
  | finalized_image _ _ _ _ _ _ hcall hop =>
    obtain ⟨-, before, image, after, _, -, -, -, -, rfl⟩ := State.quiesce_done hop
    exact .of_set rfl rfl (fun _ => rfl) (runs_goto rfl (by rw [hcall]; rfl)) rfl rfl rfl
  | pick_global _ _ _ _ _ hcall hop =>
    obtain ⟨before, after, hentries, -, hstate⟩ := State.take_entry_spec hop
    exact .of_take hentries hstate rfl rfl (by rw [hcall]; rfl) rfl rfl rfl rfl

end Changes

/-! ## Images that are being finalized -/

/-- Every lifecycle is sound, every call of `finalize_image` finds what it relies on, and no two of
them have the same image. -/
structure Finalizing (s : System) : Prop where
  sound : ∀ l, (s.lifecycles l).Sound
  finalizes : ∀ c l start stop handles, (s.call c).finalizes = some (l, start, stop, handles) →
    (s.lifecycles l).Finalizes start stop handles
  alone : ∀ c c' l start stop handles handles',
    (s.call c).finalizes = some (l, start, stop, handles) →
    (s.call c').finalizes = some (l, start, stop, handles') → c = c'

section Images

variable {s s' : System} {event : Event} {c l : ℕ} {state : State} {allow_global : ℕ → Bool}

theorem Finalizing.new : Finalizing System.new := by
  refine ⟨fun _ => State.new_sound, ?_, ?_⟩
  · intro c l start stop handles h
    cases h
  · intro c c' l start stop handles handles' h
    cases h

section

variable (h : Finalizing s) (hlifecycles : s'.lifecycles = (s.set l state).lifecycles)
include h hlifecycles

/-- A step on one lifecycle by which no call takes up an image. -/
theorem Finalizing.update (hsound : state.Sound)
    (hkeeps : ∀ c start stop handles, (s'.call c).finalizes = some (l, start, stop, handles) →
      (s.lifecycles l).Finalizes start stop handles → state.Finalizes start stop handles)
    (hcalls : ∀ c x, (s'.call c).finalizes = some x → (s.call c).finalizes = some x) :
    Finalizing s' := by
  refine ⟨?_, ?_, ?_⟩
  · rw [hlifecycles]
    exact s.set_forall state (P := fun _ st => st.Sound) h.sound hsound
  · intro c l' start stop handles hc
    have hold := h.finalizes c l' start stop handles (hcalls c _ hc)
    rw [hlifecycles]
    by_cases hl : l' = l
    · rw [hl] at hold hc ⊢
      rw [System.set_self]
      exact hkeeps c start stop handles hc hold
    · rwa [System.set_of_ne s state hl]
  · intro c c' l' start stop handles handles' hc hc'
    exact h.alone c c' l' start stop handles handles' (hcalls c _ hc) (hcalls c' _ hc')

theorem Finalizing.grow (hgrow : (s.lifecycles l).Grows state) (hwell : WellFormed state.images)
    (hcalls : ∀ c x, (s'.call c).finalizes = some x → (s.call c).finalizes = some x) :
    Finalizing s' :=
  h.update hlifecycles ((h.sound l).grow hgrow hwell)
    (fun _ _ _ _ _ hfinal => hfinal.grow hgrow hwell) hcalls

end

/-- A step that changes no lifecycle. -/
theorem Finalizing.same (h : Finalizing s) (hlifecycles : s'.lifecycles = s.lifecycles)
    (hcalls : ∀ c x, (s'.call c).finalizes = some x → (s.call c).finalizes = some x) :
    Finalizing s' := by
  refine ⟨hlifecycles ▸ h.sound, ?_, ?_⟩
  · intro c l start stop handles hc
    rw [hlifecycles]
    exact h.finalizes c l start stop handles (hcalls c _ hc)
  · intro c c' l start stop handles handles' hc hc'
    exact h.alone c c' l start stop handles handles' (hcalls c _ hc) (hcalls c' _ hc')

/-- The image of a call that moves on within `finalize_image`, or leaves it. -/
theorem finalizes_goto {phase : Phase} (hcall : s'.call = (s.goto c phase).call)
    (h : ∀ x, phase.finalizes = some x → (s.call c).finalizes = some x) (c' : ℕ)
    (x : ℕ × ℕ × ℕ × Finset ℕ) (hc' : (s'.call c').finalizes = some x) :
    (s.call c').finalizes = some x := by
  rw [hcall] at hc'
  by_cases heq : c' = c
  · rw [heq, System.goto_self] at hc'
    rw [heq]
    exact h x hc'
  · rwa [System.goto_of_ne s phase heq] at hc'

/-- **A call takes up an image.** No other call has it, because it was not being finalized. -/
theorem Finalizing.begin_image (h : Finalizing s) {start stop : ℕ} {handles : Finset ℕ}
    (hop : (s.lifecycles l).begin_finalize_image start stop = .ok (handles, state)) :
    Finalizing ((s.set l state).goto c (.Matching l (.FinalizeImage start stop handles))) := by
  have hwell := (h.sound l).images
  obtain ⟨hgrow, hwell'⟩ := State.begin_finalize_image_grows hwell hop
  have hsound := (h.sound l).grow hgrow hwell'
  obtain ⟨_, image, _, himages, hstart, hstop, hflag, hhandles, hstate⟩ :=
    State.begin_finalize_image_spec hop
  have hmem : image ∈ (s.lifecycles l).images := by
    rw [himages]
    simp
  have hnew : state.Finalizes start stop handles := by
    have hin : { image with finalizing := true } ∈ state.images := by
      rw [hstate]
      simp
    have := hsound.finalizes hin rfl
    rw [← hstart, ← hstop, ← hhandles]
    exact this
  -- a call that had this image would have set its flag
  have hnobody : ∀ c' handles', (s.call c').finalizes ≠ some (l, start, stop, handles') := by
    intro c' handles' hc'
    obtain ⟨other, hother, _, _, hflag'⟩ := (h.finalizes c' l _ _ _ hc').image
    have hrange := hwell.ranges image hmem
    have hcontains : image.contains start = true := by
      rw [PublishedImage.contains_iff]
      omega
    have hcontains' : other.contains start = true := by
      rw [PublishedImage.contains_iff]
      omega
    have heq := hwell.unique hmem hother hcontains hcontains'
    rw [← heq, hflag] at hflag'
    cases hflag'
  refine ⟨?_, ?_, ?_⟩
  · exact s.set_forall state (P := fun _ st => st.Sound) h.sound hsound
  · intro c' l' start' stop' handles' hc'
    rw [System.goto_lifecycles]
    by_cases heq : c' = c
    · rw [heq, System.goto_self] at hc'
      cases hc'
      rwa [System.set_self]
    · rw [System.goto_of_ne _ _ heq] at hc'
      have hold := h.finalizes c' l' start' stop' handles' hc'
      by_cases hl : l' = l
      · rw [hl] at hold ⊢
        rw [System.set_self]
        exact hold.grow hgrow hwell'
      · rwa [System.set_of_ne s state hl]
  · intro c₁ c₂ l' start' stop' handles₁ handles₂ h₁ h₂
    have hother : ∀ c' handles', c' ≠ c →
        (((s.set l state).goto c (.Matching l (.FinalizeImage start stop handles))).call c').finalizes =
          some (l', start', stop', handles') →
        (s.call c').finalizes = some (l', start', stop', handles') := by
      intro c' handles' hne hc'
      rwa [System.goto_of_ne _ _ hne] at hc'
    by_cases hc₁ : c₁ = c <;> by_cases hc₂ : c₂ = c
    · rw [hc₁, hc₂]
    · rw [hc₁, System.goto_self] at h₁
      cases h₁
      exact absurd (hother c₂ handles₂ hc₂ h₂) (hnobody c₂ handles₂)
    · rw [hc₂, System.goto_self] at h₂
      cases h₂
      exact absurd (hother c₁ handles₁ hc₁ h₁) (hnobody c₁ handles₁)
    · exact h.alone c₁ c₂ l' start' stop' handles₁ handles₂ (hother c₁ _ hc₁ h₁) (hother c₂ _ hc₂ h₂)

/-- **A call gives up its image**, which is gone. -/
theorem Finalizing.end_image (h : Finalizing s) {start stop : ℕ} {handles : Finset ℕ}
    (hcall : s.call c = .Quiescing l start stop handles)
    (hop : (s.lifecycles l).quiesce start stop handles = .Done state) :
    Finalizing ((s.set l state).goto c .Idle) := by
  have hmine : (s.call c).finalizes = some (l, start, stop, handles) := by rw [hcall]; rfl
  refine h.update rfl ((h.sound l).quiesce (h.finalizes c l start stop handles hmine) hop) ?_
    (finalizes_goto rfl fun x hx => nomatch hx)
  intro c' start' stop' handles' hc' hfinal
  refine hfinal.quiesce hop ?_
  rintro ⟨rfl, rfl⟩
  -- that would be this call, which is idle now
  by_cases heq : c' = c
  · rw [heq, System.goto_self] at hc'
    cases hc'
  · rw [System.goto_of_ne _ _ heq] at hc'
    exact heq (h.alone c' c l start' stop' handles' handles hc' hmine)

theorem Finalizing.step (h : Finalizing s) (hstep : Step allow_global s event s') : Finalizing s' := by
  have hsame : ∀ c (x : ℕ × ℕ × ℕ × Finset ℕ), (s.call c).finalizes = some x →
    (s.call c).finalizes = some x := fun _ _ hx => hx
  -- a call that stays in its job keeps the image, if it has one
  have hkeeps : ∀ {c} {phase : Phase}, phase.finalizes = (s.call c).finalizes →
      ∀ x, phase.finalizes = some x → (s.call c).finalizes = some x := fun heq _ hx => heq ▸ hx
  cases hstep with
  | activate | deactivate => exact h.same rfl hsame
  | publish l _ _ _ hop =>
    refine h.grow rfl (State.publish_grows hop) ?_ hsame
    rw [State.publish_spec hop]
    exact (h.sound l).images
  | unpublish l _ _ hop =>
    exact h.update rfl ((h.sound l).unpublish hop) (fun _ _ _ _ _ hfinal => hfinal.unpublish hop) hsame
  | publish_image l _ _ _ _ hop =>
    exact h.grow rfl (State.publish_image_grows hop)
      (State.publish_image_wellFormed (h.sound l).images hop) hsame
  | register l _ _ _ _ _ _ _ _ _ hop =>
    obtain ⟨hgrow, hwell⟩ := State.register_grows (h.sound l).images hop
    exact h.grow rfl hgrow hwell hsame
  | register_thread l _ _ _ hop =>
    have htakes := State.register_thread_takes (h.sound l).images hop
    exact h.grow rfl htakes.grows htakes.wellFormed hsame
  | complete_thread l _ _ hop =>
    have htakes := State.complete_thread_destructor_takes (h.sound l).images hop
    exact h.grow rfl htakes.grows htakes.wellFormed hsame
  | finalize | disappeared | finalize_all | read_active | scan | nothing_global =>
    exact h.same rfl (finalizes_goto rfl fun x hx => nomatch hx)
  | finalize_image _ _ _ _ _ _ _ hop => exact h.begin_image hop
  | pick _ l job _ _ hcall _ hop =>
    obtain ⟨before, after, hentries, -, -, rfl⟩ := State.take_latest_matching_spec hop
    exact h.grow rfl (State.take_grows hentries) (h.sound l).images
      (finalizes_goto rfl (hkeeps (by rw [hcall]; cases job <;> rfl)))
  | no_match _ _ job hcall =>
    exact h.same rfl (finalizes_goto rfl (hkeeps (by rw [hcall]; cases job <;> rfl)))
  | complete _ l job _ state hcall hop =>
    obtain ⟨counts, hcounts, hstate⟩ := Option.map_eq_some_iff.mp hop
    have hwell : WellFormed state.images := by
      rw [← hstate]
      exact (h.sound l).images
    exact h.grow rfl (State.complete_callback_grows hop) hwell
      (finalizes_goto rfl (hkeeps (by rw [hcall]; cases job <;> rfl)))
  | retain _ l =>
    exact h.grow rfl (State.retain_grows _) (h.sound l).images
      (finalizes_goto rfl fun x hx => nomatch hx)
  | retain_image _ l _ _ _ hcall =>
    exact h.grow rfl (State.retain_grows _) (h.sound l).images
      (finalizes_goto rfl (hkeeps (by rw [hcall]; rfl)))
  | again _ _ _ _ _ hcall => exact h.same rfl (finalizes_goto rfl (hkeeps (by rw [hcall]; rfl)))
  | finalized_image _ _ _ _ _ _ hcall hop => exact h.end_image hcall hop
  | pick_global _ _ best _ _ _ hop =>
    obtain ⟨before, after, hentries, -, rfl⟩ := State.take_entry_spec hop
    exact h.grow rfl (State.take_grows hentries) (h.sound best.lifecycle).images
      (finalizes_goto rfl fun x hx => nomatch hx)
  | complete_global _ l _ state _ hop =>
    obtain ⟨counts, hcounts, hstate⟩ := Option.map_eq_some_iff.mp hop
    have hwell : WellFormed state.images := by
      rw [← hstate]
      exact (h.sound l).images
    exact h.grow rfl (State.complete_callback_grows hop) hwell
      (finalizes_goto rfl fun x hx => nomatch hx)

end Images

/-! ## Sequence numbers -/

section Sequences

variable {s s' : System} {event : Event} {es : List Event}

theorem called_append (es : List Event) (event : Event) :
    called (es ++ [event]) = called es ++ event.called.toList := by
  simp only [called, List.filterMap_append]
  cases h : event.called <;> simp [h]

theorem accepted_append (es : List Event) (event : Event) :
    accepted (es ++ [event]) = accepted es ++ event.accepted.toList := by
  simp only [accepted, List.filterMap_append]
  cases h : event.accepted <;> simp [h]

/-- What was accepted has increasing sequence numbers; some of it is pending, in order, and some was
called, once. -/
structure Sequences (es : List Event) (s : System) : Prop where
  increasing : ((accepted es).map Entry.sequence).Pairwise (· < ·)
  below : ∀ e ∈ accepted es, e.sequence < s.next_sequence
  pending : ∀ l, ∀ e ∈ (s.lifecycles l).pending, e ∈ accepted es
  sorted : ∀ l, ((s.lifecycles l).pending.map Entry.sequence).Pairwise (· < ·)
  separate : ∀ l l', ∀ e ∈ (s.lifecycles l).pending, ∀ e' ∈ (s.lifecycles l').pending,
    e.sequence = e'.sequence → l = l'
  called : ∀ e ∈ Dso.called es, e ∈ accepted es
  gone : ∀ e ∈ Dso.called es, ∀ l, ∀ e' ∈ (s.lifecycles l).pending, e'.sequence ≠ e.sequence
  once : ((Dso.called es).map Entry.sequence).Nodup

theorem Sequences.new : Sequences [] System.new := by
  constructor <;> simp [accepted, Dso.called, System.new, State.new, State.pending]

section

variable (h : Sequences es s)
include h

/-- Nothing is registered or taken. -/
theorem Sequences.quiet (hpending : ∀ l, (s'.lifecycles l).pending = (s.lifecycles l).pending)
    (hnext : s'.next_sequence = s.next_sequence) (hcalled : event.called = none)
    (haccepted : event.accepted = none) : Sequences (es ++ [event]) s' := by
  have hc : Dso.called (es ++ [event]) = Dso.called es := by simp [called_append, hcalled]
  have ha : accepted (es ++ [event]) = accepted es := by simp [accepted_append, haccepted]
  constructor
  · rw [ha]
    exact h.increasing
  · rw [ha, hnext]
    exact h.below
  · intro l
    rw [ha, hpending]
    exact h.pending l
  · intro l
    rw [hpending]
    exact h.sorted l
  · intro l l'
    rw [hpending, hpending]
    exact h.separate l l'
  · rw [hc, ha]
    exact h.called
  · intro e he l
    rw [hc] at he
    rw [hpending]
    exact h.gone e he l
  · rw [hc]
    exact h.once

/-- **An entry is registered** under a number above all others. -/
theorem Sequences.registered {l : ℕ} {entry : Entry} (hsequence : entry.sequence = s.next_sequence)
    (hpending : (s'.lifecycles l).pending = (s.lifecycles l).pending ++ [entry])
    (hothers : ∀ l', l' ≠ l → (s'.lifecycles l').pending = (s.lifecycles l').pending)
    (hnext : s'.next_sequence = s.next_sequence + 1) (hcalled : event.called = none)
    (haccepted : event.accepted = some entry) : Sequences (es ++ [event]) s' := by
  have hc : Dso.called (es ++ [event]) = Dso.called es := by simp [called_append, hcalled]
  have ha : accepted (es ++ [event]) = accepted es ++ [entry] := by
    simp [accepted_append, haccepted]
  -- what is pending now was pending, or is the new entry, here
  have hcases : ∀ l', ∀ e ∈ (s'.lifecycles l').pending,
      e ∈ (s.lifecycles l').pending ∨ (l' = l ∧ e = entry) := by
    intro l' e he
    by_cases hl : l' = l
    · rw [hl, hpending, List.mem_append, List.mem_singleton] at he
      rw [hl]
      exact he.imp id fun heq => ⟨rfl, heq⟩
    · rw [hothers l' hl] at he
      exact .inl he
  have hlow : ∀ l', ∀ e ∈ (s.lifecycles l').pending, e.sequence < entry.sequence := by
    intro l' e he
    rw [hsequence]
    exact h.below e (h.pending l' e he)
  constructor
  · rw [ha, List.map_append, List.pairwise_append]
    refine ⟨h.increasing, List.pairwise_singleton _ _, ?_⟩
    intro a hma b hmb
    obtain ⟨e, he, rfl⟩ := List.mem_map.mp hma
    rw [List.mem_singleton.mp hmb, hsequence]
    exact h.below e he
  · intro e he
    rw [ha, List.mem_append, List.mem_singleton] at he
    rw [hnext]
    rcases he with he | rfl
    · exact Nat.lt_succ_of_lt (h.below e he)
    · omega
  · intro l' e he
    rw [ha, List.mem_append, List.mem_singleton]
    exact (hcases l' e he).imp (h.pending l' e) fun hnew => hnew.2
  · intro l'
    by_cases hl : l' = l
    · rw [hl, hpending, List.map_append, List.pairwise_append]
      refine ⟨h.sorted l, List.pairwise_singleton _ _, ?_⟩
      intro a hma b hmb
      obtain ⟨e, he, rfl⟩ := List.mem_map.mp hma
      rw [List.mem_singleton.mp hmb]
      exact hlow l e he
    · rw [hothers l' hl]
      exact h.sorted l'
  · intro l₁ l₂ e₁ h₁ e₂ h₂ heq
    rcases hcases l₁ e₁ h₁ with hold₁ | ⟨hl₁, rfl⟩ <;> rcases hcases l₂ e₂ h₂ with hold₂ | ⟨hl₂, rfl⟩
    · exact h.separate l₁ l₂ e₁ hold₁ e₂ hold₂ heq
    · have := hlow l₁ e₁ hold₁
      omega
    · have := hlow l₂ e₂ hold₂
      omega
    · rw [hl₁, hl₂]
  · intro e he
    rw [hc] at he
    rw [ha]
    exact List.mem_append_left _ (h.called e he)
  · intro e he l' e' he' heq
    rw [hc] at he
    rcases hcases l' e' he' with hold | ⟨-, rfl⟩
    · exact h.gone e he l' e' hold heq
    · have := h.below e (h.called e he)
      omega
  · rw [hc]
    exact h.once

/-- **An entry is taken.** Its number is nowhere pending any more, and was not called before. -/
theorem Sequences.taken {l : ℕ} {entry : Entry} {before after : List Entry}
    (hbefore : (s.lifecycles l).pending = before ++ entry :: after)
    (hpending : (s'.lifecycles l).pending = before ++ after)
    (hothers : ∀ l', l' ≠ l → (s'.lifecycles l').pending = (s.lifecycles l').pending)
    (hnext : s'.next_sequence = s.next_sequence) (hcalled : event.called = some entry)
    (haccepted : event.accepted = none) : Sequences (es ++ [event]) s' := by
  have hc : Dso.called (es ++ [event]) = Dso.called es ++ [entry] := by
    simp [called_append, hcalled]
  have ha : accepted (es ++ [event]) = accepted es := by simp [accepted_append, haccepted]
  have hmem : entry ∈ (s.lifecycles l).pending := by
    rw [hbefore]
    simp
  have hsub : ∀ l', (s'.lifecycles l').pending.Sublist (s.lifecycles l').pending := by
    intro l'
    by_cases hl : l' = l
    · rw [hl, hpending, hbefore]
      exact (List.Sublist.refl before).append (List.sublist_cons_self entry after)
    · rw [hothers l' hl]
  -- in its own lifecycle the numbers differ, and no other lifecycle has it
  have hleft : ∀ l', ∀ e ∈ (s'.lifecycles l').pending, e.sequence ≠ entry.sequence := by
    intro l' e he heq
    have hl := h.separate l' l e ((hsub l').mem he) entry hmem heq
    rw [hl, hpending, List.mem_append] at he
    have hsorted := h.sorted l
    rw [hbefore, List.map_append, List.map_cons, List.pairwise_append,
      List.pairwise_cons] at hsorted
    rcases he with he | he
    · have := hsorted.2.2 _ (List.mem_map_of_mem he) entry.sequence (by simp)
      omega
    · have := hsorted.2.1.1 _ (List.mem_map_of_mem he)
      omega
  constructor
  · rw [ha]
    exact h.increasing
  · rw [ha, hnext]
    exact h.below
  · intro l' e he
    rw [ha]
    exact h.pending l' e ((hsub l').mem he)
  · intro l'
    exact (h.sorted l').sublist ((hsub l').map _)
  · intro l₁ l₂ e₁ h₁ e₂ h₂
    exact h.separate l₁ l₂ e₁ ((hsub l₁).mem h₁) e₂ ((hsub l₂).mem h₂)
  · intro e he
    rw [hc, List.mem_append, List.mem_singleton] at he
    rw [ha]
    rcases he with he | rfl
    · exact h.called e he
    · exact h.pending l e hmem
  · intro e he l' e' he'
    rw [hc, List.mem_append, List.mem_singleton] at he
    rcases he with he | rfl
    · exact h.gone e he l' e' ((hsub l').mem he')
    · exact hleft l' e' he'
  · rw [hc, List.map_append, List.nodup_append']
    refine ⟨h.once, List.nodup_singleton _, ?_⟩
    intro q hq hlast
    obtain ⟨e, he, rfl⟩ := List.mem_map.mp hq
    exact h.gone e he l entry hmem (List.mem_singleton.mp hlast).symm

theorem Sequences.change (hchange : Change s event s') :
    Sequences (es ++ [event]) s' := by
  cases hchange with
  | quiet hpending _ _ hnext hcalled haccepted
  | completed _ _ _ hpending _ _ _ _ _ hnext hcalled haccepted =>
    exact h.quiet hpending hnext hcalled haccepted
  | registered _ _ hsequence hpending hothers _ _ hnext hcalled haccepted =>
    exact h.registered hsequence hpending hothers hnext hcalled haccepted
  | taken _ _ _ _ _ hbefore hpending hothers _ _ _ _ _ hnext hcalled haccepted =>
    exact h.taken hbefore hpending hothers hnext hcalled haccepted

end

end Sequences

/-! ## Running destructors -/

/-- A call is running a destructor of the handle. -/
def Phase.RunsHandle (phase : Phase) (l dso : ℕ) : Prop :=
  ∃ entry, phase.runs = some (l, entry) ∧ entry.dso = dso

/-- The count of a handle is the number of calls that run a destructor of it. -/
def Counted (s : System) : Prop :=
  ∀ l dso, ∃ calls : Finset ℕ, (∀ c, c ∈ calls ↔ (s.call c).RunsHandle l dso) ∧
    count (s.lifecycles l).active_callbacks dso = calls.card

section Counts

variable {s s' : System} {event : Event} {c l dso : ℕ}

theorem Counted.new : Counted System.new := by
  intro l dso
  refine ⟨∅, ?_, count_empty dso⟩
  intro c
  refine iff_of_false (Finset.notMem_empty c) ?_
  rintro ⟨_, h, -⟩
  cases h

theorem Phase.runsHandle_congr {phase phase' : Phase} (h : phase'.runs = phase.runs) :
    phase'.RunsHandle l dso ↔ phase.RunsHandle l dso := by
  rw [Phase.RunsHandle, Phase.RunsHandle, h]

theorem Phase.runsHandle_iff {phase : Phase} {l' : ℕ} {entry : Entry}
    (h : phase.runs = some (l', entry)) : phase.RunsHandle l dso ↔ l = l' ∧ dso = entry.dso := by
  constructor
  · rintro ⟨e, he, rfl⟩
    rw [h, Option.some.injEq, Prod.mk.injEq] at he
    exact ⟨he.1.symm, by rw [he.2]⟩
  · rintro ⟨rfl, rfl⟩
    exact ⟨entry, h, rfl⟩

theorem Phase.not_runsHandle {phase : Phase} (h : phase.runs = none) : ¬ phase.RunsHandle l dso := by
  rintro ⟨_, he, -⟩
  rw [h] at he
  cases he

/-- One call starts or ends a destructor of one handle; `calls'` are then the calls that run one. -/
theorem Counted.of_others (h : Counted s) {c l : ℕ} {entry : Entry}
    (hcount : ∀ l' d, ¬ (l' = l ∧ d = entry.dso) →
      count (s'.lifecycles l').active_callbacks d = count (s.lifecycles l').active_callbacks d)
    (hother : ∀ l' d, ¬ (l' = l ∧ d = entry.dso) →
      ((s'.call c).RunsHandle l' d ↔ (s.call c).RunsHandle l' d))
    (hruns : ∀ c', c' ≠ c → (s'.call c').runs = (s.call c').runs)
    (hself : ∀ calls : Finset ℕ, (∀ c', c' ∈ calls ↔ (s.call c').RunsHandle l entry.dso) →
      count (s.lifecycles l).active_callbacks entry.dso = calls.card →
      ∃ calls' : Finset ℕ, (∀ c', c' ∈ calls' ↔ (s'.call c').RunsHandle l entry.dso) ∧
        count (s'.lifecycles l).active_callbacks entry.dso = calls'.card) : Counted s' := by
  intro l' d
  obtain ⟨calls, hcalls, hcard⟩ := h l' d
  by_cases hhere : l' = l ∧ d = entry.dso
  · obtain ⟨rfl, rfl⟩ := hhere
    exact hself calls hcalls hcard
  · refine ⟨calls, ?_, (hcount l' d hhere).trans hcard⟩
    intro c'
    rw [hcalls]
    by_cases hc : c' = c
    · rw [hc]
      exact (hother l' d hhere).symm
    · exact (Phase.runsHandle_congr (hruns c' hc)).symm

theorem Counted.change (h : Counted s) (hchange : Change s event s') : Counted s' := by
  have hsame : (∀ l d, count (s'.lifecycles l).active_callbacks d =
      count (s.lifecycles l).active_callbacks d) →
      (∀ c, (s'.call c).runs = (s.call c).runs) → Counted s' := by
    intro hcount hruns l d
    obtain ⟨calls, hcalls, hcard⟩ := h l d
    refine ⟨calls, ?_, (hcount l d).trans hcard⟩
    intro c
    rw [hcalls, Phase.runsHandle_congr (hruns c)]
  cases hchange with
  | quiet _ hcount hruns => exact hsame hcount hruns
  | registered _ _ _ _ _ hcount hruns => exact hsame hcount hruns
  | taken c _ entry _ _ _ _ _ hself hcount hidle hrun hruns =>
    refine h.of_others hcount ?_ hruns ?_
    · intro l' d hne
      exact iff_of_false (fun hd => hne ((Phase.runsHandle_iff hrun).mp hd))
        (Phase.not_runsHandle hidle)
    · intro calls hcalls hcard
      refine ⟨insert c calls, ?_, ?_⟩
      · intro c'
        by_cases hc : c' = c
        · rw [hc]
          exact iff_of_true (Finset.mem_insert_self _ _) ⟨entry, hrun, rfl⟩
        · rw [Finset.mem_insert, hcalls, Phase.runsHandle_congr (hruns c' hc)]
          simp [hc]
      · have hnot : c ∉ calls := by
          rw [hcalls]
          exact Phase.not_runsHandle hidle
        rw [Finset.card_insert_of_notMem hnot, hself, hcard]
  | completed c _ entry _ _ hcount hrun hidle hruns =>
    refine h.of_others hcount ?_ hruns ?_
    · intro l' d hne
      exact iff_of_false (Phase.not_runsHandle hidle)
        (fun hd => hne ((Phase.runsHandle_iff hrun).mp hd))
    · intro calls hcalls hcard
      refine ⟨calls.erase c, ?_, ?_⟩
      · intro c'
        by_cases hc : c' = c
        · rw [hc]
          exact iff_of_false (Finset.notMem_erase _ _) (Phase.not_runsHandle hidle)
        · rw [Finset.mem_erase, hcalls, Phase.runsHandle_congr (hruns c' hc)]
          simp [hc]
      · have hin : c ∈ calls := (hcalls c).mpr ⟨entry, hrun, rfl⟩
        rw [Finset.card_erase_of_mem hin]
        omega

/-- A handle of which nothing is counted has no destructor running. -/
theorem Counted.not_runs (h : Counted s) (hzero : count (s.lifecycles l).active_callbacks dso = 0)
    (c : ℕ) : ¬ (s.call c).RunsHandle l dso := by
  obtain ⟨_, hcalls, hcard⟩ := h l dso
  rw [← hcalls, Finset.card_eq_zero.mp (hcard.symm.trans hzero)]
  exact Finset.notMem_empty c

end Counts

end DarwinArt.Dso
