/-
Mutexes and condition variables of the guest's libc: the side tables of the pthread provider.

A guest mutex is a few bytes of guest memory, with no room for a host mutex. The provider keeps an
entry for it, which holds the host object, and finds the entry by the address: in a cache of the
thread, or else in a table of the process. Conditions are kept in the same way. Addresses are used
again, so an entry has a lifecycle, and the bytes say whether the guest object was destroyed; an
entry that is destroyed is passed over, unless the bytes say that the object is destroyed too.

`pthread_mutex_init` marks the entry it finds as destroyed and makes a new one. `pthread_cond_init`
writes the bytes and looks the address up like every other operation, so it takes over an entry
that was left alive.

## What is modelled

Every operation on mutexes and conditions, one step for each critical section and each access to a
cache. What differs between the two tables is a parameter (`Family`). The host's answer where a
host object is made or destroyed is an argument of the step; a host operation may return at any
time. `trace` says whether `DARWIN_ART_PTHREAD_TRACE` is set, where that changes the result.

The bytes of an object are its state word and a number for the rest, 0 if they are all zero; only
the count of the waiters is ever written there. The bytes of a mutex and of a condition at the same
address are kept apart: a lifetime begins with writing all of them.

The lifetimes of an object are counted, and an entry carries the lifetime it was made in. An object
is used in its lifetime only (`Step`): operations are called while it is alive, and when a lifetime
begins, or ends with a destroy, no other operation on the object is in progress. Timeouts, what is
written to a log, and `provider_reset` are left out.
-/
import DarwinArt.Lib.Run
import Mathlib.Algebra.Group.Nat.Defs

set_option autoImplicit false

namespace DarwinArt.Pthread.SideTable

open Lib

/-! ## Guest objects -/

def kAndroidEbusy : ℕ := 16

def kAndroidEinval : ℕ := 22

def kAndroidEnotsup : ℕ := 95

def kAndroidEnomem : ℕ := 12

def kAndroidMutexDestroyed : ℕ := 0xffff

def kAndroidMutexSharedMask : ℕ := 0x2000

def kAndroidMutexTypeShift : ℕ := 14

def kAndroidMutexAttrTypeMask : ℕ := 0x000f

def kAndroidMutexAttrSharedMask : ℕ := 0x0010

def kAndroidMutexAttrProtocolMask : ℕ := 0x0020

def kAndroidMutexAttrKnownMask : ℕ := 0x003f

def kAndroidCondSharedMask : ℕ := 0x0001

def kAndroidCondClockMask : ℕ := 0x0002

def kAndroidCondCounterStep : ℕ := 0x0004

def kAndroidCondDestroyed : ℕ := 0xdeadc04d

inductive Family
  | Mutex
  | Cond
deriving DecidableEq

structure Object where
  family : Family
  address : ℕ
deriving DecidableEq

/-- What an initializer chooses: the kind of a mutex, or the clock of a condition. -/
inductive Setting
  | Normal
  | Recursive
  | Errorcheck
  | Realtime
  | Monotonic
deriving DecidableEq

/-- The bytes of an object. -/
structure Guest where
  state : ℕ
  rest : ℕ
deriving DecidableEq

/-- The state word of an object that was destroyed. -/
def Family.destroyed : Family → ℕ
  | .Mutex => kAndroidMutexDestroyed
  | .Cond => kAndroidCondDestroyed

def Setting.family : Setting → Family
  | .Normal | .Recursive | .Errorcheck => .Mutex
  | .Realtime | .Monotonic => .Cond

/-- The bytes that an initializer writes. -/
def Setting.bytes : Setting → Guest
  | .Normal => ⟨0, 0⟩
  | .Recursive => ⟨1 <<< kAndroidMutexTypeShift, 0⟩
  | .Errorcheck => ⟨2 <<< kAndroidMutexTypeShift, 0⟩
  | .Realtime => ⟨0, 0⟩
  | .Monotonic => ⟨kAndroidCondClockMask, 0⟩

/-- `MutexEntry::Kind` of a type. -/
def mutex_kind : ℕ → Option Setting
  | 0 => some .Normal
  | 1 => some .Recursive
  | 2 => some .Errorcheck
  | _ => none

/-- The checks of `FindOrCreateMutex` on the bytes of a mutex that has no entry. -/
def mutex_setting (guest : Guest) : Except ℕ Setting :=
  let visible := guest.state
  if visible = kAndroidMutexDestroyed then .error kAndroidEbusy
  else if visible &&& kAndroidMutexSharedMask ≠ 0 then .error kAndroidEnotsup
  else
    match mutex_kind (visible >>> kAndroidMutexTypeShift) with
    | none => .error kAndroidEnotsup
    | some kind =>
      if visible ≠ (visible >>> kAndroidMutexTypeShift) <<< kAndroidMutexTypeShift then
        .error kAndroidEinval
      else if guest.rest ≠ 0 then .error kAndroidEinval
      else .ok kind

/-- The checks of `FindOrCreateCond` on the bytes of a condition that has no entry. -/
def cond_setting (guest : Guest) : Except ℕ Setting :=
  let visible := guest.state
  if visible = kAndroidCondDestroyed then .error kAndroidEbusy
  else if visible &&& kAndroidCondSharedMask ≠ 0 then .error kAndroidEnotsup
  else if (kAndroidCondSharedMask ||| kAndroidCondClockMask) < visible then .error kAndroidEinval
  else if guest.rest ≠ 0 then .error kAndroidEinval
  else if visible &&& kAndroidCondClockMask ≠ 0 then .ok .Monotonic
  else .ok .Realtime

def Family.setting : Family → Guest → Except ℕ Setting
  | .Mutex => mutex_setting
  | .Cond => cond_setting

/-- `ParseAndroidMutexAttributes`; the attributes are an `int64_t`, here without its sign. -/
def parse_mutex_attributes : Option ℕ → Except ℕ Setting
  | none => .ok .Normal
  | some value =>
    if value = 2 ^ 64 - 1 then .error kAndroidEinval
    else if value &&& kAndroidMutexAttrSharedMask ≠ 0 ∨
        value &&& kAndroidMutexAttrProtocolMask ≠ 0 then .error kAndroidEnotsup
    else if kAndroidMutexAttrKnownMask < value then .error kAndroidEinval
    else
      match mutex_kind (value &&& kAndroidMutexAttrTypeMask) with
      | none => .error kAndroidEinval
      | some kind => .ok kind

/-- The attributes of `pthread_cond_init`, a `uint32_t`. -/
def parse_cond_attributes : Option ℕ → Except ℕ Setting
  | none => .ok .Realtime
  | some visible =>
    if visible = 2 ^ 32 - 1 ∨ (kAndroidCondSharedMask ||| kAndroidCondClockMask) < visible then
      .error kAndroidEinval
    else if visible &&& kAndroidCondSharedMask ≠ 0 then .error kAndroidEnotsup
    else if visible &&& kAndroidCondClockMask ≠ 0 then .ok .Monotonic
    else .ok .Realtime

def Family.parse_attributes : Family → Option ℕ → Except ℕ Setting
  | .Mutex => parse_mutex_attributes
  | .Cond => parse_cond_attributes

/-! ## Entries and calls -/

inductive Lifecycle
  | Alive
  | Destroying
  | Destroyed
deriving DecidableEq

/-- `MutexEntry` and `CondEntry`, with the object and the lifetime they were made for. A mutex has
no waiters. -/
structure Entry where
  lifecycle : Lifecycle
  active_operations : ℕ
  waiters : ℕ
  setting : Setting
  object : Object
  life : ℕ
deriving DecidableEq

inductive Action
  | Init (o : Object) (setting : Setting)
  | Lock (mutex : ℕ)
  | Trylock (mutex : ℕ)
  | Unlock (mutex : ℕ)
  | Wait (cond mutex : ℕ)
  | Signal (cond : ℕ)
  | Broadcast (cond : ℕ)
  | Destroy (o : Object)
deriving DecidableEq

/-- The objects of a call, in the order in which it looks them up. -/
def Action.objects : Action → List Object
  | .Init o _ | .Destroy o => [o]
  | .Lock mutex | .Trylock mutex | .Unlock mutex => [⟨.Mutex, mutex⟩]
  | .Wait cond mutex => [⟨.Cond, cond⟩, ⟨.Mutex, mutex⟩]
  | .Signal cond | .Broadcast cond => [⟨.Cond, cond⟩]

/-- How far a call has come. The entries that were looked up are in the order of the objects. -/
inductive Phase
  /-- `pthread_mutex_init` wants the lock of the table, `pthread_cond_init` is to write the bytes -/
  | Initializing
  /-- the first of `todo` is to be looked up in the cache -/
  | Looking (todo : List Object) (found : List ℕ)
  /-- it is not in the cache -/
  | Searching (o : Object) (todo : List Object) (found : List ℕ)
  | Beginning (found : List ℕ)
  /-- `CondWait` is to write the count of the waiters -/
  | Announcing (found : List ℕ)
  | Operating (found : List ℕ)
  /-- `pthread_mutex_destroy` waits for operations to end -/
  | Draining (e : ℕ)
  /-- a host object is being destroyed -/
  | Destroying (e : ℕ)
  | Leaving (result : ℕ)
deriving DecidableEq

structure Call where
  action : Action
  phase : Phase
deriving DecidableEq

/-- What the guest knows of an object. -/
inductive Status
  /-- it has had no lifetime -/
  | Unused
  | Initializing
  | Alive
  /-- its last lifetime has ended with a destroy -/
  | Destroyed
  /-- its last initialization has failed -/
  | Failed
deriving DecidableEq

/-- The bytes of the guest, the entries and their number, the tables, the caches and the calls of
the threads, and for each object its status and the number of its last lifetime. -/
structure State where
  guest : Object → Guest
  entries : ℕ → Entry
  made : ℕ
  table : Object → Option ℕ
  cache : ℕ → Object → Option ℕ
  calls : ℕ → Option Call
  status : Object → Status
  life : Object → ℕ

/-- Memory with these contents, and nothing else yet. -/
def State.new (guest : Object → Guest) : State where
  guest := guest
  entries _ := ⟨.Destroyed, 0, 0, .Normal, ⟨.Mutex, 0⟩, 0⟩
  made := 0
  table _ := none
  cache _ _ := none
  calls _ := none
  status _ := .Unused
  life _ := 0

/-- What can be told of a step from outside: a lifetime begins with a setting, an operation in a
lifetime acts on an entry, which has a setting, or a lifetime ends with a destroy. -/
inductive Told
  | Silent
  | Begin (o : Object) (life : ℕ) (setting : Setting)
  | Act (o : Object) (life : ℕ) (e : ℕ) (setting : Setting)
  | End (o : Object)
deriving DecidableEq

namespace State

section

variable (s : State) (t : ℕ) (action : Action) (o : Object)

def goto (phase : Phase) : State :=
  { s with calls := Function.update s.calls t (some ⟨action, phase⟩) }

def set_guest (guest : Guest) : State :=
  { s with guest := Function.update s.guest o guest }

def set_entry (e : ℕ) (entry : Entry) : State :=
  { s with entries := Function.update s.entries e entry }

def set_status (status : Status) : State :=
  { s with status := Function.update s.status o status }

def set_lifecycle (e : ℕ) (lifecycle : Lifecycle) : State :=
  s.set_entry e { s.entries e with lifecycle := lifecycle }

/-- `std::make_shared`, and the entry is put into the table. -/
def install (setting : Setting) : State :=
  { s with
    entries := Function.update s.entries s.made ⟨.Alive, 0, 0, setting, o, s.life o⟩
    made := s.made + 1
    table := Function.update s.table o (some s.made) }

def remember (e : ℕ) : State :=
  { s with cache := Function.update s.cache t (Function.update (s.cache t) o (some e)) }

/-- An entry that a lookup does not pass over. -/
def serves (e : ℕ) : Bool :=
  (s.entries e).lifecycle ≠ .Destroyed ∨ (s.guest o).state = o.family.destroyed

/-- A call goes on with an entry that was looked up. -/
def take (e : ℕ) (todo : List Object) (found : List ℕ) : Told × State :=
  (.Act o (s.life o) e (s.entries e).setting, s.goto t action (.Looking todo (found ++ [e])))

/-- `FindOrCreateMutex` and `FindOrCreateCond`, the lookup in the cache of the thread. -/
def look (todo : List Object) (found : List ℕ) : Told × State :=
  match (s.cache t o).filter (s.serves o) with
  | some e => s.take t action o e todo found
  | none => (.Silent, s.goto t action (.Searching o todo found))

/-- `FindOrCreateMutex` and `FindOrCreateCond`, the part under the lock of the table. Where the host
object cannot be made, the call fails only if `trace` is set; otherwise a mutex is left with the
kind of a new entry. -/
def search (trace host : Bool) (t : ℕ) (action : Action) (o : Object)
    (todo : List Object) (found : List ℕ) : Told × State :=
  match (s.table o).filter (s.serves o) with
  | some e => (s.remember t o e).take t action o e todo found
  | none =>
    match o.family.setting (s.guest o) with
    | .error errno => (.Silent, s.goto t action (.Leaving errno))
    | .ok setting =>
      if ¬ host ∧ trace then (.Silent, s.goto t action (.Leaving kAndroidEnomem))
      else
        let setting := if ¬ host ∧ o.family = .Mutex then .Normal else setting
        ((s.install o setting).remember t o s.made).take t action o s.made todo found

/-- The entry in the table is marked as destroyed. -/
def retire : State :=
  match s.table o with
  | none => s
  | some e => s.set_lifecycle e .Destroyed

/-- `darwin_art_bionic_pthread_mutex_init` under the lock of the table. -/
def mutex_init (host : Bool) (t : ℕ) (o : Object) (setting : Setting) : Told × State :=
  let s := s.retire o
  if ¬ host then (.Silent, s.goto t (.Init o setting) (.Leaving kAndroidEnomem))
  else
    (.Act o (s.life o) s.made setting,
      ((s.install o setting).set_guest o setting.bytes).goto t (.Init o setting) (.Leaving 0))

/-- `WithLiveMutex` up to the operation; `none` while it waits. -/
def begin_mutex (permit_while_destroying : Bool) (e : ℕ) : Option State :=
  let entry := s.entries e
  if ¬ permit_while_destroying ∧ entry.lifecycle = .Destroying then none
  else if entry.lifecycle = .Destroyed then some (s.goto t action (.Leaving kAndroidEbusy))
  else
    some ((s.set_entry e { entry with active_operations := entry.active_operations + 1 }).goto t
      action (.Operating [e]))

/-- `BeginCondWait`. -/
def begin_wait (cond mutex : ℕ) : State :=
  if (s.entries cond).lifecycle ≠ .Alive ∨ (s.entries mutex).lifecycle ≠ .Alive then
    s.goto t action (.Leaving kAndroidEbusy)
  else
    let s := s.set_entry cond { s.entries cond with
      active_operations := (s.entries cond).active_operations + 1
      waiters := (s.entries cond).waiters + 1 }
    (s.set_entry mutex { s.entries mutex with
      active_operations := (s.entries mutex).active_operations + 1 }).goto t action
        (.Announcing [cond, mutex])

/-- `CondPulse` up to the host's signal. -/
def begin_pulse (e : ℕ) : State :=
  let entry := s.entries e
  if entry.lifecycle ≠ .Alive then s.goto t action (.Leaving kAndroidEbusy)
  else
    let s := s.set_entry e { entry with active_operations := entry.active_operations + 1 }
    let guest := s.guest o
    let s :=
      if entry.waiters ≠ 0 then
        s.set_guest o { guest with state := (guest.state + kAndroidCondCounterStep) % 2 ^ 32 }
      else s
    s.goto t action (.Operating [e])

/-- `pthread_mutex_destroy` and `pthread_cond_destroy` up to the host's; `none` while it waits. -/
def begin_destroy (e : ℕ) : Option State :=
  let entry := s.entries e
  match o.family with
  | .Mutex =>
    if entry.lifecycle = .Destroying then none
    else if entry.lifecycle = .Destroyed then
      some (s.goto t (.Destroy o) (.Leaving kAndroidEbusy))
    else some ((s.set_lifecycle e .Destroying).goto t (.Destroy o) (.Draining e))
  | .Cond =>
    if entry.lifecycle ≠ .Alive then some (s.goto t (.Destroy o) (.Leaving kAndroidEbusy))
    else if entry.active_operations ≠ 0 ∨ entry.waiters ≠ 0 then
      some (s.goto t (.Destroy o) (.Leaving kAndroidEbusy))
    else some ((s.set_lifecycle e .Destroying).goto t (.Destroy o) (.Destroying e))

/-- The host has destroyed its object, or refused to. -/
def end_destroy (host : Bool) (t : ℕ) (o : Object) (e : ℕ) : Told × State :=
  if host then
    (.End o, (((s.set_lifecycle e .Destroyed).set_guest o
      { state := o.family.destroyed
        rest := if o.family = .Cond then 0 else (s.guest o).rest }).set_status o .Destroyed).goto t
          (.Destroy o) (.Leaving 0))
  else (.Silent, (s.set_lifecycle e .Alive).goto t (.Destroy o) (.Leaving kAndroidEbusy))

/-- The end of `WithLiveMutex` and of `CondPulse`. -/
def end_operation (e : ℕ) : State :=
  (s.set_entry e { s.entries e with
    active_operations := (s.entries e).active_operations - 1 }).goto t action (.Leaving 0)

/-- `EndCondWait`. -/
def end_wait (cond mutex : ℕ) : State :=
  let s := s.set_entry cond { s.entries cond with
    active_operations := (s.entries cond).active_operations - 1
    waiters := (s.entries cond).waiters - 1 }
  let s := s.set_entry mutex { s.entries mutex with
    active_operations := (s.entries mutex).active_operations - 1 }
  (s.set_guest o { s.guest o with rest := (s.entries cond).waiters }).goto t action (.Leaving 0)

/-- A call begins to use what it has looked up; `none` while it waits. -/
def begin_action (found : List ℕ) : Option State :=
  match action, found with
  | .Init _ _, [_] => some (s.goto t action (.Leaving 0))
  | .Lock _, [e] => s.begin_mutex t action false e
  | .Trylock _, [e] => s.begin_mutex t action false e
  | .Unlock _, [e] => s.begin_mutex t action true e
  | .Wait _ _, [cond, mutex] => some (s.begin_wait t action cond mutex)
  | .Signal c, [e] => some (s.begin_pulse t action ⟨.Cond, c⟩ e)
  | .Broadcast c, [e] => some (s.begin_pulse t action ⟨.Cond, c⟩ e)
  | .Destroy o, [e] => s.begin_destroy t o e
  | _, _ => none

/-- The host operation of a call has returned. -/
def end_action (found : List ℕ) : Option State :=
  match action, found with
  | .Wait c _, [cond, mutex] => some (s.end_wait t action ⟨.Cond, c⟩ cond mutex)
  | _, [e] => some (s.end_operation t action e)
  | _, _ => none

/-- A call returns. The lifetime that an initialization has begun can be used now. -/
def leave (result : ℕ) : State :=
  let s := { s with calls := Function.update s.calls t none }
  match action with
  | .Init o _ => s.set_status o (if result = 0 then .Alive else .Failed)
  | _ => s

end

/-- The next step of the call that a thread is in; `none` where it waits. -/
def next (s : State) (trace host : Bool) (t : ℕ) : Option (Told × State) :=
  match s.calls t with
  | none => none
  | some ⟨action, .Initializing⟩ =>
    match action with
    | .Init o setting =>
      match o.family with
      | .Mutex => some (s.mutex_init host t o setting)
      | .Cond => some (.Silent, (s.set_guest o setting.bytes).goto t action (.Looking [o] []))
    | _ => none
  | some ⟨action, .Looking (o :: todo) found⟩ =>
    some (s.look t action o todo found)
  | some ⟨action, .Searching o todo found⟩ => some (s.search trace host t action o todo found)
  | some ⟨action, .Looking [] found⟩ => some (.Silent, s.goto t action (.Beginning found))
  | some ⟨action, .Beginning found⟩ => (s.begin_action t action found).map fun s => (.Silent, s)
  | some ⟨action, .Announcing found⟩ =>
    match action, found with
    | .Wait c _, [cond, mutex] =>
      some (.Silent, (s.set_guest ⟨.Cond, c⟩ { s.guest ⟨.Cond, c⟩ with
        rest := (s.entries cond).waiters }).goto t action (.Operating [cond, mutex]))
    | _, _ => none
  | some ⟨action, .Operating found⟩ => (s.end_action t action found).map fun s => (.Silent, s)
  | some ⟨action, .Draining e⟩ =>
    if (s.entries e).active_operations ≠ 0 then none
    else some (.Silent, s.goto t action (.Destroying e))
  | some ⟨.Destroy o, .Destroying e⟩ => some (s.end_destroy host t o e)
  | some ⟨_, .Destroying _⟩ => none
  | some ⟨action, .Leaving result⟩ => some (.Silent, s.leave t action result)

/-- No thread but `t` has a call on the object in progress. -/
def Alone (s : State) (t : ℕ) (o : Object) : Prop :=
  ∀ u call, s.calls u = some call → o ∈ call.action.objects → u = t

/-- No thread has a call on the object in progress. -/
def Free (s : State) (o : Object) : Prop :=
  ∀ u call, s.calls u = some call → o ∉ call.action.objects

/-- A lifetime begins. -/
def begin_life (s : State) (o : Object) (status : Status) : State :=
  { s with
    status := Function.update s.status o status
    life := Function.update s.life o (s.life o + 1) }

end State

inductive Op
  /-- the guest writes the bytes of a static initializer -/
  | Static (o : Object) (setting : Setting)
  | Init (t : ℕ) (o : Object) (attributes : Option ℕ)
  | Call (t : ℕ) (action : Action)
  | Go (t : ℕ) (host : Bool)
deriving DecidableEq

/-- A step, the state it is taken in, and what is told of it. -/
structure Event where
  before : State
  op : Op
  told : Told

/-- The threads take their steps in any order, and no object is used outside its lifetimes. -/
inductive Step (trace : Bool) : State → Event → State → Prop
  | static {s : State} {o : Object} {setting : Setting} (hfamily : setting.family = o.family)
      (hstatus : s.status o = .Unused ∨ s.status o = .Destroyed) (hfree : s.Free o) :
      Step trace s ⟨s, .Static o setting, .Begin o (s.life o + 1) setting⟩
        ((s.begin_life o .Alive).set_guest o setting.bytes)
  | init {s : State} {t : ℕ} {o : Object} {attributes : Option ℕ} {setting : Setting}
      (hidle : s.calls t = none) (hparse : o.family.parse_attributes attributes = .ok setting)
      (hfree : s.Free o) :
      Step trace s ⟨s, .Init t o attributes, .Begin o (s.life o + 1) setting⟩
        ((s.begin_life o .Initializing).goto t (.Init o setting) .Initializing)
  /-- attributes that are refused change nothing -/
  | refused {s : State} {t : ℕ} {o : Object} {attributes : Option ℕ} {errno : ℕ}
      (hparse : o.family.parse_attributes attributes = .error errno) :
      Step trace s ⟨s, .Init t o attributes, .Silent⟩ s
  | call {s : State} {t : ℕ} {action : Action} (hidle : s.calls t = none)
      (haction : ∀ o setting, action ≠ .Init o setting)
      (halive : ∀ o ∈ action.objects, s.status o = .Alive) :
      Step trace s ⟨s, .Call t action, .Silent⟩ (s.goto t action (.Looking action.objects []))
  | go {s s' : State} {t : ℕ} {host : Bool} {told : Told}
      (hnext : s.next trace host t = some (told, s'))
      (halone : ∀ o, told = .End o → s.Alone t o) :
      Step trace s ⟨s, .Go t host, told⟩ s'

end DarwinArt.Pthread.SideTable
