/-
`pthread_once` of the guest's libc: `darwin_art_bionic_pthread_once` of the pthread provider.

A control is one word of guest memory. Its state is kept twice: in the word, where the guest
sees it, and in an entry of the side table `once_controls`, which is found by the address of the
word. A call reads the word, finds or makes the entry, and goes on by the entry alone: it waits
while another call runs the routine, returns where the routine has run, and runs it otherwise.

A lifetime of a control begins when `PTHREAD_ONCE_INIT` is stored at its address. The store
writes the word and cannot write the entry, and no entry is ever taken out of the table. So a
lifetime at an address that has been a control before begins with an entry that says the routine
has run (`Stage.Stale`): its calls return at once and nothing is run.

A control is always at one of a few stages (`Control`), and `Control.next` says what a step of a
call does to the stage. `OnceRuns` puts this together for whole runs.

## What is modelled

Calls have numbers, and a call that returned frees its number; a routine that calls
`pthread_once` itself does so under another number. Each lock's critical section is one step,
but for the two in which the entry is written before the word: the word can be read in between.
A wait may end at any time. Storing over a control that is in use is not allowed. The debug
output is left out, and so is `provider_reset`, which clears the table of a process without
threads.
-/
import DarwinArt.Lib.Run
import Mathlib.Data.Int.Notation

set_option autoImplicit false

namespace DarwinArt.Pthread.Once

open Lib

open Function

/-! ## The state -/

def kOnceNotStarted : ℤ := 0

def kOnceUnderway : ℤ := 1

def kOnceComplete : ℤ := 2

def kAndroidEinval : ℕ := 22

/-- `OnceEntry::state`. -/
inductive OnceState
  | NotStarted
  | Underway
  | Complete
deriving DecidableEq

/-- `OnceEntry`: its state, and the call that holds its mutex. -/
structure Entry where
  state : OnceState
  holder : Option ℕ
deriving DecidableEq

/-- The arguments of a call, and the lifetime of its control in which it was made. -/
structure Call where
  once : ℕ
  routine : ℕ
  life : ℕ
deriving DecidableEq

/-- How far a call has come. -/
inductive Pc
  /-- the arguments have been checked -/
  | Entered
  /-- the word has been read -/
  | Loaded (visible : ℤ)
  /-- the entry is known, and its mutex is wanted -/
  | Testing
  /-- in `condition.wait` -/
  | Waiting
  /-- the mutex is held and the entry says `Underway`, the word not yet -/
  | Marking
  | Starting
  | Running
  /-- the routine has returned, and the mutex is wanted -/
  | Returned
  /-- the mutex is held and the entry says `Complete`, the word not yet -/
  | Publishing
  | Leaving (result : ℕ)
deriving DecidableEq

/-- The guest's memory, the table of the provider and the calls. `life` counts the lifetimes
that have begun at an address. -/
structure State where
  word : ℕ → ℤ
  once_controls : ℕ → Option Entry
  calls : ℕ → Option (Call × Pc)
  life : ℕ → ℕ

/-- Memory with these contents, and nothing else yet. -/
def State.new (word : ℕ → ℤ) : State := ⟨word, fun _ => none, fun _ => none, fun _ => 0⟩

/-- What can be told of a step from outside. `Init` carries the number of the lifetime that
begins, and whether the table had no entry for the address. -/
inductive Event
  | Init (once life : ℕ) (fresh : Bool)
  | Invalid
  | Silent
  | Run (c : ℕ) (call : Call)
  | Ran (c : ℕ) (call : Call)
  | Return (c : ℕ) (call : Call) (result : ℕ)
deriving DecidableEq

namespace State

def goto (s : State) (c : ℕ) (call : Call) (pc : Pc) : State :=
  { s with calls := Function.update s.calls c (some (call, pc)) }

def store (s : State) (once : ℕ) (value : ℤ) : State :=
  { s with word := Function.update s.word once value }

def set_entry (s : State) (once : ℕ) (entry : Entry) : State :=
  { s with once_controls := Function.update s.once_controls once (some entry) }

/-- The next step of a call in `darwin_art_bionic_pthread_once`; `none` where it is blocked. -/
def next (s : State) (c : ℕ) : Option (Event × State) :=
  match s.calls c with
  | none => none
  | some (call, .Entered) =>
    let visible := s.word call.once
    if visible = kOnceComplete then some (.Silent, s.goto c call (.Leaving 0))
    else if visible ≠ kOnceNotStarted ∧ visible ≠ kOnceUnderway then
      some (.Silent, s.goto c call (.Leaving kAndroidEinval))
    else some (.Silent, s.goto c call (.Loaded visible))
  | some (call, .Loaded visible) =>
    match s.once_controls call.once with
    | none =>
      if visible ≠ kOnceNotStarted then some (.Silent, s.goto c call (.Leaving kAndroidEinval))
      else some (.Silent, (s.set_entry call.once ⟨.NotStarted, none⟩).goto c call .Testing)
    | some _ => some (.Silent, s.goto c call .Testing)
  | some (call, .Testing) =>
    match s.once_controls call.once with
    | some ⟨.Underway, none⟩ => some (.Silent, s.goto c call .Waiting)
    | some ⟨.Complete, none⟩ => some (.Silent, s.goto c call (.Leaving 0))
    | some ⟨.NotStarted, none⟩ =>
      some (.Silent, (s.set_entry call.once ⟨.Underway, some c⟩).goto c call .Marking)
    | _ => none
  | some (call, .Waiting) => some (.Silent, s.goto c call .Testing)
  | some (call, .Marking) =>
    match s.once_controls call.once with
    | none => none
    | some entry =>
      some (.Silent, ((s.store call.once kOnceUnderway).set_entry call.once
        { entry with holder := none }).goto c call .Starting)
  | some (call, .Starting) => some (.Run c call, s.goto c call .Running)
  | some (call, .Running) => some (.Ran c call, s.goto c call .Returned)
  | some (call, .Returned) =>
    match s.once_controls call.once with
    | some ⟨_, none⟩ =>
      some (.Silent, (s.set_entry call.once ⟨.Complete, some c⟩).goto c call .Publishing)
    | _ => none
  | some (call, .Publishing) =>
    match s.once_controls call.once with
    | none => none
    | some entry =>
      some (.Silent, ((s.store call.once kOnceComplete).set_entry call.once
        { entry with holder := none }).goto c call (.Leaving 0))
  | some (call, .Leaving result) =>
    some (.Return c call result, { s with calls := Function.update s.calls c none })

/-- `PTHREAD_ONCE_INIT` is stored. -/
def init (s : State) (once : ℕ) : State :=
  { s.store once kOnceNotStarted with life := Function.update s.life once (s.life once + 1) }

end State

/-- A step: a lifetime begins, a call is made, or a call goes on. -/
inductive Step (s : State) : Event → State → Prop
  | init {once : ℕ}
      (hquiet : ∀ c call pc, s.calls c = some (call, pc) → call.once ≠ once) :
      Step s (.Init once (s.life once + 1) (s.once_controls once).isNone) (s.init once)
  /-- a null control or a null routine -/
  | invalid {once routine : ℕ} (hnull : once = 0 ∨ routine = 0) : Step s .Invalid s
  | enter {c once routine : ℕ} (hfree : s.calls c = none) (honce : once ≠ 0)
      (hroutine : routine ≠ 0) (hlive : 0 < s.life once) :
      Step s .Silent (s.goto c ⟨once, routine, s.life once⟩ .Entered)
  | go {c : ℕ} {e : Event} {s' : State} (hnext : s.next c = some (e, s')) : Step s e s'

/-! ## The property -/

/-- The routine of a call of this lifetime is entered. -/
def is_run (once life : ℕ) : Event → Bool
  | .Run _ call => call.once = once ∧ call.life = life
  | _ => false

/-- It returns. -/
def is_ran (once life : ℕ) : Event → Bool
  | .Ran _ call => call.once = once ∧ call.life = life
  | _ => false

/-- **Once per lifetime**: no lifetime has a second run, and a call returns 0 after the run of its
lifetime has returned. -/
structure OncePerLifetime (es : List Event) : Prop where
  once : ∀ a n, es.countP (is_run a n) ≤ 1
  after : ∀ es₁ c call result es₂, es = es₁ ++ .Return c call result :: es₂ → result = 0 ∧
    es₁.countP (is_run call.once call.life) = 1 ∧ es₁.countP (is_ran call.once call.life) = 1

/-- Some call of the control goes on, and not only from one wait to the next. -/
def Proceeds (s : State) (once : ℕ) : Prop :=
  ∃ c call pc, s.calls c = some (call, pc) ∧ call.once = once ∧ (s.next c).isSome = true ∧
    (pc = .Waiting → ∀ entry, s.once_controls once = some entry → entry.state ≠ .Underway)

/-! ## The stages of a lifetime -/

/-- The call has been chosen to run the routine. -/
def Pc.leads : Pc → Bool
  | .Marking | .Starting | .Running | .Returned | .Publishing => true
  | _ => false

/-- Where a lifetime is: nobody has looked yet, the entry has been made, a call runs the routine,
it has run. The last is a lifetime that begins with the entry of an earlier one. -/
inductive Stage
  | Absent
  | Fresh
  | Led (c : ℕ) (pc : Pc)
  | Done
  | Stale
deriving DecidableEq

namespace Stage

def entry : Stage → Option Entry
  | Absent => none
  | Fresh => some ⟨.NotStarted, none⟩
  | Led c .Marking => some ⟨.Underway, some c⟩
  | Led c .Publishing => some ⟨.Complete, some c⟩
  | Led _ _ => some ⟨.Underway, none⟩
  | Done | Stale => some ⟨.Complete, none⟩

def word : Stage → ℤ
  | Absent | Fresh | Led _ .Marking | Stale => 0
  | Led _ _ => 1
  | Done => 2

def runs : Stage → ℕ
  | Led _ .Running | Led _ .Returned | Led _ .Publishing | Done => 1
  | _ => 0

def rans : Stage → ℕ
  | Led _ .Returned | Led _ .Publishing | Done => 1
  | _ => 0

/-- Calls return only here. -/
def returns : Stage → Bool
  | Done | Stale => true
  | _ => false

/-- Where a call of the lifetime can be. -/
def allows (stage : Stage) (c : ℕ) (pc : Pc) : Prop :=
  match stage with
  | Absent => pc = .Entered ∨ pc = .Loaded 0
  | Fresh => pc = .Entered ∨ pc = .Loaded 0 ∨ pc = .Testing
  | Led c' pc' => if c = c' then pc = pc'
    else pc = .Entered ∨ pc = .Loaded 0 ∨ pc = .Loaded 1 ∨ pc = .Testing ∨ pc = .Waiting
  | Done => pc = .Entered ∨ pc = .Loaded 0 ∨ pc = .Loaded 1 ∨ pc = .Testing ∨ pc = .Waiting ∨
    pc = .Leaving 0
  | Stale => pc = .Entered ∨ pc = .Loaded 0 ∨ pc = .Testing ∨ pc = .Leaving 0

theorem allows_leader (c : ℕ) (pc : Pc) : (Led c pc).allows c pc := by
  simp [allows]

/-- The call that a stage cannot be without. -/
def Present (s : State) (a : ℕ) : Stage → Prop
  | Fresh => ∃ c call, s.calls c = some (call, .Testing) ∧ call.once = a
  | Led c pc => pc.leads = true ∧ ∃ call, s.calls c = some (call, pc) ∧ call.once = a
  | _ => True

end Stage

/-- A control is at this stage of its lifetime. -/
structure Control (s : State) (a : ℕ) (stage : Stage) : Prop where
  entry : s.once_controls a = stage.entry
  word : s.word a = stage.word
  calls : ∀ c call pc, s.calls c = some (call, pc) → call.once = a →
    stage.allows c pc ∧ call.life = s.life a
  present : stage.Present s a

/-- What a step of a call does to the stage, as far as it can be told from outside. -/
inductive Moves (c : ℕ) (call : Call) : Stage → Event → Stage → Prop
  | silent {stage stage' : Stage} (hruns : stage'.runs = stage.runs) (hrans : stage'.rans = stage.rans)
      (hreturns : stage.returns = true → stage'.returns = true)
      (hstale : stage' = .Stale ↔ stage = .Stale) : Moves c call stage .Silent stage'
  | run : Moves c call (.Led c .Starting) (.Run c call) (.Led c .Running)
  | ran : Moves c call (.Led c .Running) (.Ran c call) (.Led c .Returned)
  | returned {stage : Stage} (hreturns : stage.returns = true) :
      Moves c call stage (.Return c call 0) stage

section Steps

variable {s s' : State} {a c : ℕ} {call : Call} {pc : Pc} {stage stage' : Stage} {e : Event}

variable {x : Option (Call × Pc)} {pc' : Pc}

section

variable (h : Control s a stage) (hcall : s.calls c = some (call, pc)) (honce : call.once = a)
include h hcall honce

/-- A step of one call, seen from its control. -/
theorem Control.move (hcalls : s'.calls = Function.update s.calls c x)
    (hx : ∀ call' pc', x = some (call', pc') → call' = call ∧ stage'.allows c pc')
    (hothers : ∀ c' pc', c' ≠ c → stage.allows c' pc' → stage'.allows c' pc')
    (hentry : s'.once_controls a = stage'.entry) (hword : s'.word a = stage'.word)
    (hlife : s'.life a = s.life a) (hpresent : stage'.Present s' a) : Control s' a stage' := by
  refine ⟨hentry, hword, fun c' call' pc' hcall' honce' => ?_, hpresent⟩
  rw [hcalls] at hcall'
  rw [hlife]
  by_cases hc : c' = c
  · rw [hc, update_self] at hcall'
    obtain ⟨hsame, hallows⟩ := hx call' pc' hcall'
    rw [hc, hsame]
    exact ⟨hallows, (h.calls c call pc hcall honce).2⟩
  · rw [update_of_ne hc] at hcall'
    obtain ⟨hallows, hlife'⟩ := h.calls c' call' pc' hcall' honce'
    exact ⟨hothers c' pc' hc hallows, hlife'⟩

/-- A call that does not carry its stage goes on. -/
theorem Control.follow (hx : ∀ call' pc', x = some (call', pc') → call' = call ∧ stage.allows c pc')
    (hfollows : pc.leads = false) (htester : stage = .Fresh → pc ≠ .Testing) :
    Control { s with calls := update s.calls c x } a stage := by
  refine h.move hcall honce rfl hx (fun _ _ _ h => h) h.entry h.word rfl ?_
  -- the call that the stage needs is another one
  have hpresent := h.present
  cases stage with
  | Fresh =>
    obtain ⟨c', call', hcall', honce'⟩ := hpresent
    refine ⟨c', call', ?_, honce'⟩
    show update s.calls c x c' = _
    rw [update_of_ne]
    · exact hcall'
    · intro hc
      rw [hc, hcall] at hcall'
      exact htester rfl (Prod.mk.inj (Option.some.inj hcall')).2
  | Led c' =>
    obtain ⟨hleads, call', hcall', honce'⟩ := hpresent
    refine ⟨hleads, call', ?_, honce'⟩
    show update s.calls c x c' = _
    rw [update_of_ne]
    · exact hcall'
    · intro hc
      rw [hc, hcall] at hcall'
      rw [← (Prod.mk.inj (Option.some.inj hcall')).2, hfollows] at hleads
      cases hleads
  | _ => trivial

end

/-- Nothing is told of a step that leaves the stage alone. -/
theorem Moves.same (c : ℕ) (call : Call) (stage : Stage) : Moves c call stage .Silent stage :=
  .silent rfl rfl id Iff.rfl

/-- The call that leads is the one the stage names. -/
theorem Control.leader (h : Control s a stage) (hcall : s.calls c = some (call, pc))
    (honce : call.once = a) (hleads : pc.leads = true) : stage = .Led c pc := by
  have hallows := (h.calls c call pc hcall honce).1
  cases stage with
  | Led =>
    simp only [Stage.allows] at hallows
    split at hallows
    · next hc => rw [hc, hallows]
    · rcases hallows with rfl | rfl | rfl | rfl | rfl <;> cases hleads
  | Absent => rcases hallows with rfl | rfl <;> cases hleads
  | Fresh => rcases hallows with rfl | rfl | rfl <;> cases hleads
  | Done => rcases hallows with rfl | rfl | rfl | rfl | rfl | rfl <;> cases hleads
  | Stale => rcases hallows with rfl | rfl | rfl | rfl <;> cases hleads

/-- The other calls do not lead. -/
theorem Control.follower {c' : ℕ} (h : Control s a (.Led c' pc'))
    (hcall : s.calls c = some (call, pc)) (honce : call.once = a) (hfollows : pc.leads = false) :
    c ≠ c' := by
  intro hc
  obtain ⟨hleads, -⟩ := h.present
  have hallows := (h.calls c call pc hcall honce).1
  simp only [Stage.allows, if_pos hc] at hallows
  rw [← hallows, hfollows] at hleads
  cases hleads

/-- The call that leads goes on, and so does the stage. -/
theorem Control.lead (h : Control s a (.Led c pc)) (hcall : s.calls c = some (call, pc))
    (honce : call.once = a) (hleads : pc'.leads = true)
    (hcalls : s'.calls = Function.update s.calls c (some (call, pc')))
    (hentry : s'.once_controls a = (Stage.Led c pc').entry)
    (hword : s'.word a = (Stage.Led c pc').word) (hlife : s'.life a = s.life a) :
    Control s' a (.Led c pc') := by
  refine h.move hcall honce hcalls ?_ ?_ hentry hword hlife ⟨hleads, call, ?_, honce⟩
  · intro call' pc'' hx
    cases hx
    exact ⟨rfl, Stage.allows_leader c pc'⟩
  · intro c' pc'' hc hallows
    simp only [Stage.allows, if_neg hc] at hallows ⊢
    exact hallows
  · rw [hcalls, update_self]

/-- A call in a control that follows, wherever its stage lets it go. -/
theorem goto_allowed (h : stage.allows c pc') :
    ∀ call' pc'', some (call, pc') = some (call', pc'') → call' = call ∧ stage.allows c pc'' := by
  intro call' pc'' hx
  cases hx
  exact ⟨rfl, h⟩

/-! ## One step of a call -/

section

variable (h : Control s a stage)
include h

/-- Reading the word: it says 2 where the routine has run, and otherwise 0 or 1. -/
theorem Control.entered (hcall : s.calls c = some (call, .Entered))
    (honce : call.once = a) (hnext : s.next c = some (e, s')) :
    e = .Silent ∧ Control s' a stage := by
  have hallows := (h.calls c call _ hcall honce).1
  simp only [State.next, hcall, honce, h.word] at hnext
  have hgoto : ∀ pc', stage.allows c pc' → s.goto c call pc' = s' → Control s' a stage := by
    rintro pc' hallows rfl
    exact h.follow hcall honce (goto_allowed hallows) rfl (fun _ => nofun)
  cases stage with
  | Done =>
    rw [if_pos (by decide)] at hnext
    obtain ⟨rfl, hs'⟩ := Prod.mk.inj (Option.some.inj hnext)
    exact ⟨rfl, hgoto (.Leaving 0) (by simp [Stage.allows]) hs'⟩
  | Led c' pc' =>
    have hc := h.follower hcall honce rfl
    have hword : (Stage.Led c' pc').word = 0 ∨ (Stage.Led c' pc').word = 1 := by
      cases pc' <;> simp [Stage.word]
    rcases hword with hword | hword
    · rw [hword, if_neg (by decide), if_neg (by decide)] at hnext
      obtain ⟨rfl, hs'⟩ := Prod.mk.inj (Option.some.inj hnext)
      exact ⟨rfl, hgoto (.Loaded 0) (by simp [Stage.allows, hc]) hs'⟩
    · rw [hword, if_neg (by decide), if_neg (by decide)] at hnext
      obtain ⟨rfl, hs'⟩ := Prod.mk.inj (Option.some.inj hnext)
      exact ⟨rfl, hgoto (.Loaded 1) (by simp [Stage.allows, hc]) hs'⟩
  | _ =>
    rw [if_neg (by decide), if_neg (by decide)] at hnext
    obtain ⟨rfl, hs'⟩ := Prod.mk.inj (Option.some.inj hnext)
    exact ⟨rfl, hgoto (.Loaded 0) (by simp [Stage.allows]) hs'⟩

/-- Looking for the entry: the first call of a lifetime makes it. -/
theorem Control.loaded {visible : ℤ}
    (hcall : s.calls c = some (call, .Loaded visible)) (honce : call.once = a)
    (hnext : s.next c = some (e, s')) :
    e = .Silent ∧ ∃ stage', Control s' a stage' ∧ Moves c call stage .Silent stage' := by
  have hallows := (h.calls c call _ hcall honce).1
  simp only [State.next, hcall, honce, h.entry] at hnext
  cases stage with
  | Absent =>
    have hvisible : visible = 0 := by
      rcases hallows with hpc | hpc
      · cases hpc
      · exact Pc.Loaded.inj hpc
    rw [hvisible] at hnext
    cases hnext
    refine ⟨rfl, .Fresh, h.move hcall honce rfl (goto_allowed (by simp [Stage.allows])) ?_ ?_ h.word
      rfl ⟨c, call, ?_, honce⟩, .silent rfl rfl nofun (by simp)⟩
    · rintro c' pc' - (rfl | rfl)
      · exact .inl rfl
      · exact .inr (.inl rfl)
    · exact update_self ..
    · exact update_self ..
  | Led c' pc' =>
    have hc := h.follower hcall honce rfl
    have hentry : ∃ entry, (Stage.Led c' pc').entry = some entry := by
      cases pc' <;> exact ⟨_, rfl⟩
    obtain ⟨entry, hentry⟩ := hentry
    rw [hentry] at hnext
    cases hnext
    exact ⟨rfl, _, h.follow hcall honce (goto_allowed (by simp [Stage.allows, hc])) rfl
      (fun _ => nofun), .same c call _⟩
  | _ =>
    cases hnext
    exact ⟨rfl, _, h.follow hcall honce (goto_allowed (by simp [Stage.allows])) rfl
      (fun _ => nofun), .same c call _⟩

/-- Looking at the entry: the first call to do so runs the routine. -/
theorem Control.testing (hcall : s.calls c = some (call, .Testing))
    (honce : call.once = a) (hnext : s.next c = some (e, s')) :
    e = .Silent ∧ ∃ stage', Control s' a stage' ∧ Moves c call stage .Silent stage' := by
  have hallows := (h.calls c call _ hcall honce).1
  simp only [State.next, hcall, honce, h.entry] at hnext
  cases stage with
  | Absent => exact absurd hallows (by simp [Stage.allows])
  | Fresh =>
    cases hnext
    refine ⟨rfl, .Led c .Marking, h.move hcall honce rfl
      (goto_allowed (Stage.allows_leader c .Marking)) ?_ ?_ h.word rfl ⟨rfl, call, ?_, honce⟩,
      .silent rfl rfl nofun (by simp)⟩
    · intro c' pc' hc hallows
      simp only [Stage.allows, if_neg hc] at hallows ⊢
      rcases hallows with rfl | rfl | rfl <;> simp
    · exact update_self ..
    · exact update_self ..
  | Led _ pc' =>
    have hc := h.follower hcall honce rfl
    -- the mutex is free, so the leader is neither marking nor publishing
    have hwait : e = .Silent ∧ s.goto c call .Waiting = s' := by
      cases pc' <;> simp [Stage.entry] at hnext <;>
        exact ⟨hnext.1.symm, hnext.2⟩
    obtain ⟨rfl, rfl⟩ := hwait
    exact ⟨rfl, _, h.follow hcall honce (goto_allowed (by simp [Stage.allows, hc])) rfl
      nofun, .same c call _⟩
  | Done | Stale =>
    cases hnext
    exact ⟨rfl, _, h.follow hcall honce (goto_allowed (by simp [Stage.allows])) rfl nofun,
      .same c call _⟩

/-- **One step of a call.** Its control stays at a stage, and what is told of the step fits. -/
theorem Control.next (hcall : s.calls c = some (call, pc))
    (honce : call.once = a) (hnext : s.next c = some (e, s')) :
    ∃ stage', Control s' a stage' ∧ Moves c call stage e stage' := by
  cases pc with
  | Entered =>
    obtain ⟨rfl, h'⟩ := h.entered hcall honce hnext
    exact ⟨stage, h', .same c call stage⟩
  | Loaded =>
    obtain ⟨rfl, h'⟩ := h.loaded hcall honce hnext
    exact h'
  | Testing =>
    obtain ⟨rfl, h'⟩ := h.testing hcall honce hnext
    exact h'
  | Waiting =>
    have hallows := (h.calls c call _ hcall honce).1
    unfold State.next at hnext
    rw [hcall] at hnext
    cases hnext
    have hback : stage.allows c .Testing ∧ stage ≠ .Fresh := by
      cases stage with
      | Led =>
        have hc := h.follower hcall honce rfl
        exact ⟨by simp [Stage.allows, hc], nofun⟩
      | Done => exact ⟨by simp [Stage.allows], nofun⟩
      | _ => exact absurd hallows (by simp [Stage.allows])
    exact ⟨stage, h.follow hcall honce (goto_allowed hback.1) rfl
      (fun hfresh => absurd hfresh hback.2), .same c call stage⟩
  | Marking =>
    obtain rfl := h.leader hcall honce rfl
    simp only [State.next, hcall, honce, h.entry] at hnext
    cases hnext
    exact ⟨.Led c .Starting, h.lead hcall honce rfl rfl (update_self ..)
      (update_self ..) rfl, .silent rfl rfl nofun (by simp)⟩
  | Starting =>
    obtain rfl := h.leader hcall honce rfl
    unfold State.next at hnext
    rw [hcall] at hnext
    cases hnext
    exact ⟨.Led c .Running, h.lead hcall honce rfl rfl h.entry h.word rfl, .run⟩
  | Running =>
    obtain rfl := h.leader hcall honce rfl
    unfold State.next at hnext
    rw [hcall] at hnext
    cases hnext
    exact ⟨.Led c .Returned, h.lead hcall honce rfl rfl h.entry h.word rfl, .ran⟩
  | Returned =>
    obtain rfl := h.leader hcall honce rfl
    simp only [State.next, hcall, honce, h.entry] at hnext
    cases hnext
    exact ⟨.Led c .Publishing, h.lead hcall honce rfl rfl (update_self ..) h.word rfl,
      .silent rfl rfl nofun (by simp)⟩
  | Publishing =>
    obtain rfl := h.leader hcall honce rfl
    simp only [State.next, hcall, honce, h.entry] at hnext
    cases hnext
    refine ⟨.Done, h.move hcall honce rfl (goto_allowed (by simp [Stage.allows])) ?_
      (update_self ..) (update_self ..) rfl trivial,
      .silent rfl rfl (fun _ => rfl) (by simp)⟩
    intro c' pc' hc hallows
    simp only [Stage.allows, if_neg hc] at hallows ⊢
    tauto
  | Leaving result =>
    have hallows := (h.calls c call _ hcall honce).1
    unfold State.next at hnext
    rw [hcall] at hnext
    cases hnext
    have hends : result = 0 ∧ stage.returns = true := by
      cases stage with
      | Led =>
        have hc := h.follower hcall honce rfl
        simp [Stage.allows, hc] at hallows
      | Done | Stale => exact ⟨by simpa [Stage.allows] using hallows, rfl⟩
      | _ => exact absurd hallows (by simp [Stage.allows])
    obtain ⟨rfl, hreturns⟩ := hends
    refine ⟨stage, h.follow hcall honce (fun _ _ hx => nomatch hx) rfl (fun _ => nofun),
      .returned hreturns⟩

end

/-- What a step of a call leaves alone: the other controls and the other calls. -/
structure Apart (s : State) (c : ℕ) (call : Call) (s' : State) : Prop where
  controls : ∀ b, b ≠ call.once → s'.once_controls b = s.once_controls b ∧ s'.word b = s.word b
  life : s'.life = s.life
  calls : ∃ x, s'.calls = Function.update s.calls c x ∧
    ∀ call' pc', x = some (call', pc') → call' = call

/-- A step that ends in a `goto`, after changes to the control of the call only. -/
theorem apart_goto {t : State} {e' : Event} (hcontrols : ∀ b, b ≠ call.once →
    t.once_controls b = s.once_controls b ∧ t.word b = s.word b) (hlife : t.life = s.life)
    (hcalls : t.calls = s.calls) (hnext : some (e', t.goto c call pc) = some (e, s')) :
    Apart s c call s' := by
  cases hnext
  refine ⟨hcontrols, hlife, some (call, pc), ?_, fun _ _ hx => ?_⟩
  · show update t.calls c _ = _
    rw [hcalls]
  · exact (Prod.mk.inj (Option.some.inj hx)).1.symm

theorem apart_next (hcall : s.calls c = some (call, pc)) (hnext : s.next c = some (e, s')) :
    Apart s c call s' := by
  have hsame : ∀ b, b ≠ call.once → s.once_controls b = s.once_controls b ∧ s.word b = s.word b :=
    fun _ _ => ⟨rfl, rfl⟩
  have hentry : ∀ entry, ∀ b, b ≠ call.once →
      (s.set_entry call.once entry).once_controls b = s.once_controls b ∧
        (s.set_entry call.once entry).word b = s.word b :=
    fun entry b hb => ⟨update_of_ne hb .., rfl⟩
  have hboth : ∀ value entry, ∀ b, b ≠ call.once →
      ((s.store call.once value).set_entry call.once entry).once_controls b = s.once_controls b ∧
        ((s.store call.once value).set_entry call.once entry).word b = s.word b :=
    fun value entry b hb => ⟨update_of_ne hb .., update_of_ne hb ..⟩
  simp only [State.next, hcall] at hnext
  cases pc with
  | Entered =>
    dsimp only at hnext
    split at hnext
    · exact apart_goto hsame rfl rfl hnext
    split at hnext
    · exact apart_goto hsame rfl rfl hnext
    · exact apart_goto hsame rfl rfl hnext
  | Loaded =>
    dsimp only at hnext
    split at hnext
    · split at hnext
      · exact apart_goto hsame rfl rfl hnext
      · exact apart_goto (hentry _) rfl rfl hnext
    · exact apart_goto hsame rfl rfl hnext
  | Testing =>
    dsimp only at hnext
    split at hnext
    · exact apart_goto hsame rfl rfl hnext
    · exact apart_goto hsame rfl rfl hnext
    · exact apart_goto (hentry _) rfl rfl hnext
    · cases hnext
  | Waiting | Starting | Running =>
    exact apart_goto hsame rfl rfl hnext
  | Marking | Publishing =>
    dsimp only at hnext
    split at hnext
    · cases hnext
    · exact apart_goto (hboth _ _) rfl rfl hnext
  | Returned =>
    dsimp only at hnext
    split at hnext
    · exact apart_goto (hentry _) rfl rfl hnext
    · cases hnext
  | Leaving =>
    cases hnext
    exact ⟨hsame, rfl, none, rfl, fun _ _ hx => nomatch hx⟩

/-- A control that a step has nothing to do with. -/
theorem Control.frame {b : ℕ} (h : Control s b stage)
    (hentry : s'.once_controls b = s.once_controls b) (hword : s'.word b = s.word b)
    (hlife : s'.life b = s.life b) (hcalls : s'.calls = Function.update s.calls c x)
    (hold : ∀ call pc, s.calls c = some (call, pc) → call.once ≠ b)
    (hnew : ∀ call pc, x = some (call, pc) → call.once ≠ b) : Control s' b stage := by
  -- the calls of this control are what they were
  have hsame : ∀ c' call' pc', call'.once = b →
      (s'.calls c' = some (call', pc') ↔ s.calls c' = some (call', pc')) := by
    intro c' call' pc' honce
    rw [hcalls]
    by_cases hc : c' = c
    · rw [hc, update_self]
      exact iff_of_false (fun hx => hnew _ _ hx honce) (fun hx => hold _ _ hx honce)
    · rw [update_of_ne hc]
  refine ⟨hentry.trans h.entry, hword.trans h.word, fun c' call' pc' hcall honce => ?_, ?_⟩
  · rw [hlife]
    exact h.calls c' call' pc' ((hsame c' call' pc' honce).mp hcall) honce
  · have hpresent := h.present
    cases stage with
    | Fresh =>
      obtain ⟨c', call', hcall, honce⟩ := hpresent
      exact ⟨c', call', (hsame c' call' _ honce).mpr hcall, honce⟩
    | Led c' =>
      obtain ⟨hleads, call', hcall, honce⟩ := hpresent
      exact ⟨hleads, call', (hsame c' call' _ honce).mpr hcall, honce⟩
    | _ => trivial

/-- A lifetime begins: fresh where the table has no entry, stale where it has one. -/
theorem Control.begin (h : Control s a stage)
    (hquiet : ∀ c call pc, s.calls c = some (call, pc) → call.once ≠ a) :
    ∃ stage', Control (s.init a) a stage' ∧ stage'.runs = 0 ∧ stage'.rans = 0 ∧
      decide (stage' ≠ .Stale) = (s.once_controls a).isNone := by
  have hcalls : ∀ stage' : Stage, ∀ c call pc, (s.init a).calls c = some (call, pc) →
      call.once = a → stage'.allows c pc ∧ call.life = (s.init a).life a :=
    fun _ c call pc hcall honce => absurd honce (hquiet c call pc hcall)
  have hword : (s.init a).word a = 0 := update_self ..
  have hentry := h.entry
  cases stage with
  | Absent =>
    refine ⟨.Absent, ⟨hentry, hword, hcalls _, trivial⟩, rfl, rfl, ?_⟩
    rw [hentry]
    rfl
  | Fresh =>
    obtain ⟨c, call, hcall, honce⟩ := h.present
    exact absurd honce (hquiet c call _ hcall)
  | Led c =>
    obtain ⟨-, call, hcall, honce⟩ := h.present
    exact absurd honce (hquiet c call _ hcall)
  | Done | Stale =>
    refine ⟨.Stale, ⟨hentry, hword, hcalls _, trivial⟩, rfl, rfl, ?_⟩
    rw [hentry]
    rfl

/-- A call is made. -/
theorem Control.enter (h : Control s a stage) (hfree : s.calls c = none) {routine : ℕ} :
    Control (s.goto c ⟨a, routine, s.life a⟩ .Entered) a stage := by
  -- the call that the stage needs is under way, so it is not this one
  have hother : ∀ c' call' pc', s.calls c' = some (call', pc') → c' ≠ c := by
    rintro c' call' pc' hcall rfl
    rw [hfree] at hcall
    cases hcall
  have hkept : ∀ c' call' pc', s.calls c' = some (call', pc') →
      (s.goto c ⟨a, routine, s.life a⟩ .Entered).calls c' = some (call', pc') := by
    intro c' call' pc' hcall
    show update s.calls c _ c' = _
    rwa [update_of_ne (hother c' call' pc' hcall)]
  refine ⟨h.entry, h.word, fun c' call' pc' hcall honce => ?_, ?_⟩
  · have hcall : update s.calls c _ c' = some (call', pc') := hcall
    by_cases hc : c' = c
    · rw [hc, update_self] at hcall
      cases hcall
      refine ⟨?_, rfl⟩
      cases stage with
      | Led =>
        obtain ⟨-, _, hcall'', -⟩ := h.present
        have hne := hother _ _ _ hcall''
        rw [hc]
        simp [Stage.allows, Ne.symm hne]
      | _ => exact .inl rfl
    · rw [update_of_ne hc] at hcall
      exact h.calls c' call' pc' hcall honce
  · have hpresent := h.present
    cases stage with
    | Fresh =>
      obtain ⟨c', call', hcall, honce⟩ := hpresent
      exact ⟨c', call', hkept _ _ _ hcall, honce⟩
    | Led =>
      obtain ⟨hleads, call', hcall, honce⟩ := hpresent
      exact ⟨hleads, call', hkept _ _ _ hcall, honce⟩
    | _ => trivial

/-- **Nobody is stuck.** -/
theorem Control.proceeds (h : Control s a stage) (hcall : s.calls c = some (call, pc))
    (honce : call.once = a) : Proceeds s a := by
  have hallows := (h.calls c call pc hcall honce).1
  have hentry := h.entry
  cases stage with
  | Absent =>
    refine ⟨c, call, pc, hcall, honce, ?_, ?_⟩
    · unfold State.next
      rw [hcall]
      rcases hallows with rfl | rfl
      · dsimp only
        split
        · rfl
        split <;> rfl
      · dsimp only
        rw [honce, hentry]
        rfl
    · rcases hallows with rfl | rfl <;> exact nofun
  | Fresh =>
    obtain ⟨c', call', hcall', honce'⟩ := h.present
    refine ⟨c', call', .Testing, hcall', honce', ?_, nofun⟩
    simp only [State.next, hcall', honce', hentry]
    rfl
  | Led c' pc' =>
    obtain ⟨hleads, call', hcall', honce'⟩ := h.present
    refine ⟨c', call', pc', hcall', honce', ?_, ?_⟩
    · unfold State.next
      rw [hcall']
      cases pc' with
      | Starting | Running => rfl
      | Marking | Returned | Publishing =>
        dsimp only
        rw [honce', hentry]
        rfl
      | _ => cases hleads
    · rintro rfl
      cases hleads
  | Done | Stale =>
    refine ⟨c, call, pc, hcall, honce, ?_, fun _ entry hsome => ?_⟩
    · unfold State.next
      rw [hcall]
      repeat' rcases hallows with rfl | hallows
      all_goals dsimp only
      · rw [honce, h.word]
        rfl
      all_goals
        try rw [honce, hentry]
        rfl
    · rw [hentry] at hsome
      cases hsome
      exact nofun

end Steps

end DarwinArt.Pthread.Once
