/-
Reads and writes of sockets through the descriptor broker: `darwin_art_fd_broker_read` and
`darwin_art_fd_broker_write`.

Both go through `DispatchOne`: a lease on the descriptor is taken under the broker's mutex, the
provider is called, and the lease is given back. The provider is called with the description's
`io_mutex` held, which is there for the file offset. A socket has no offset, but its provider
waits in `recv` and `send`, and it waits with the lock. So a write finds the lock taken by a read
that waits for data, and waits itself although it could send at once.

## What is modelled

Pairs of connected sockets, each socket with one open description in a broker of its own, and any
number of threads that read and write them; a duplicate of a descriptor names the same
description. A read waits while its queue is empty, and a write waits while the queue of the other
end is full. No descriptor is closed here, so that `AcquireLocked` succeeds; the counts of the
leases are left out, and so is what the provider writes to a log.
-/
import DarwinArt.Lib.Run

set_option autoImplicit false

namespace DarwinArt.Fd.SocketIo

open Lib

open Function

/-! ## The state -/

/-- The two ends of a connection. -/
inductive Side
  | Local
  | Remote
deriving DecidableEq

def Side.other : Side → Side
  | .Local => .Remote
  | .Remote => .Local

/-- An open description of a connected socket. -/
structure Description where
  pair : ℕ
  side : Side
deriving DecidableEq

/-- The description at the other end. -/
def Description.other (d : Description) : Description := ⟨d.pair, d.side.other⟩

inductive Request
  | Read (count : ℕ)
  | Write (bytes : List UInt8)
deriving DecidableEq

structure Call where
  description : Description
  request : Request
deriving DecidableEq

/-- How far a call has come in `DispatchOne`. -/
inductive Pc
  /-- the arguments have been checked -/
  | Acquiring
  /-- the lease is taken, and `io_mutex` is wanted -/
  | Locking
  /-- in the provider, which has moved this many bytes -/
  | Calling (moved : ℕ)
  /-- the provider has returned this value -/
  | Unlocking (value : ℕ)
  | Releasing (value : ℕ)
deriving DecidableEq

/-- The call holds the `io_mutex` of its description. -/
def Pc.holds : Pc → Bool
  | .Calling _ | .Unlocking _ => true
  | .Acquiring | .Locking | .Releasing _ => false

/-- `queue d` are the bytes that have been sent to `d` and not been read, `io_mutex d` is the
thread that holds the lock, and `calls t` is the call that the thread `t` is in. -/
structure State where
  queue : Description → List UInt8
  io_mutex : Description → Option ℕ
  calls : ℕ → Option (Call × Pc)

def State.new : State := ⟨fun _ => [], fun _ => none, fun _ => none⟩

namespace State

def goto (s : State) (t : ℕ) (call : Call) (pc : Pc) : State :=
  { s with calls := Function.update s.calls t (some (call, pc)) }

def finish (s : State) (t : ℕ) : State :=
  { s with calls := Function.update s.calls t none }

def set_lock (s : State) (d : Description) (holder : Option ℕ) : State :=
  { s with io_mutex := Function.update s.io_mutex d holder }

def set_queue (s : State) (d : Description) (bytes : List UInt8) : State :=
  { s with queue := Function.update s.queue d bytes }

/-- The room in the queue that `d` sends to. -/
def room (s : State) (capacity : ℕ) (d : Description) : ℕ :=
  capacity - (s.queue d.other).length

/-- The provider of a socket: `recv` waits for data and takes what there is, `send` waits for
room as often as it must until all its bytes are sent. -/
def provide (s : State) (capacity t : ℕ) (call : Call) (moved : ℕ) : Option State :=
  match call.request with
  | .Read count =>
    let bytes := s.queue call.description
    if bytes = [] then none
    else some ((s.set_queue call.description (bytes.drop count)).goto t call
      (.Unlocking (bytes.take count).length))
  | .Write bytes =>
    let rest := bytes.drop moved
    let room := s.room capacity call.description
    if rest = [] then some (s.goto t call (.Unlocking moved))
    else if room = 0 then none
    else some ((s.set_queue call.description.other
      (s.queue call.description.other ++ rest.take room)).goto t call
        (.Calling (moved + (rest.take room).length)))

/-- The next step of the call that a thread is in; `none` where it waits. -/
def next (s : State) (capacity t : ℕ) : Option State :=
  match s.calls t with
  | none => none
  | some (call, .Acquiring) => some (s.goto t call .Locking)
  | some (call, .Locking) =>
    match s.io_mutex call.description with
    | some _ => none
    | none => some ((s.set_lock call.description (some t)).goto t call (.Calling 0))
  | some (call, .Calling moved) => s.provide capacity t call moved
  | some (call, .Unlocking value) =>
    some ((s.set_lock call.description none).goto t call (.Releasing value))
  | some (_, .Releasing _) => some (s.finish t)

end State

inductive Op
  /-- a thread calls `read` or `write` -/
  | Call (t : ℕ) (call : Call)
  /-- a thread goes on with its call -/
  | Go (t : ℕ)
deriving DecidableEq

/-- A step, and the state it is taken in. -/
structure Event where
  before : State
  op : Op

/-- The threads take their steps in any order. -/
inductive Step (capacity : ℕ) : State → Event → State → Prop
  | call {s : State} {t : ℕ} {call : Call} (hidle : s.calls t = none) :
      Step capacity s ⟨s, .Call t call⟩ (s.goto t call .Acquiring)
  | go {s s' : State} {t : ℕ} (hnext : s.next capacity t = some s') :
      Step capacity s ⟨s, .Go t⟩ s'

/-! ## Waiting -/

/-- A read holds the lock of its description and waits for data. -/
def WaitsForData (s : State) (t : ℕ) (d : Description) : Prop :=
  s.queue d = [] ∧ ∃ count moved, s.calls t = some (⟨d, .Read count⟩, .Calling moved)

/-- A write waits for the lock of its description, which a read holds that waits for data, and
there is room for what it has to send. -/
def HeldUp (capacity : ℕ) (s : State) : Prop :=
  ∃ t bytes u d, s.calls t = some (⟨d, .Write bytes⟩, .Locking) ∧ s.io_mutex d = some u ∧
    WaitsForData s u d ∧ (s.queue d.other).length < capacity

/-- Both ends of a connection are read and written, nothing is under way between them, and every
thread at either end waits. -/
structure Stuck (capacity : ℕ) (s : State) (pair : ℕ) : Prop where
  empty : ∀ side, s.queue ⟨pair, side⟩ = []
  reads : ∀ side, ∃ t count pc, s.calls t = some (⟨⟨pair, side⟩, .Read count⟩, pc)
  writes : ∀ side, ∃ t bytes pc, s.calls t = some (⟨⟨pair, side⟩, .Write bytes⟩, pc)
  wait : ∀ t call pc, s.calls t = some (call, pc) → call.description.pair = pair →
    s.next capacity t = none

/-- No write is called while a read of the description waits for data, and no read takes the lock
of an empty socket while a write of the description is in progress. -/
def Event.Apart (e : Event) : Prop :=
  match e.op with
  | .Call _ ⟨d, .Write _⟩ => ∀ u, ¬ WaitsForData e.before u d
  | .Call _ ⟨_, .Read _⟩ => True
  | .Go t => ∀ d count, e.before.calls t = some (⟨d, .Read count⟩, .Locking) →
      e.before.queue d = [] → ∀ u bytes pc, e.before.calls u ≠ some (⟨d, .Write bytes⟩, pc)

/-! ## What a step does -/

section Steps

variable {s s' : State} {capacity t u : ℕ} {call : Call} {pc : Pc} {d : Description}

@[simp] theorem goto_calls_self : (s.goto t call pc).calls t = some (call, pc) :=
  update_self ..

theorem goto_calls_ne (h : u ≠ t) : (s.goto t call pc).calls u = s.calls u :=
  update_of_ne h ..

/-- A call that is found after one has gone on is that one, or was there. -/
theorem goto_calls_cases {c : Call} {p : Pc} (h : (s.goto t call pc).calls u = some (c, p)) :
    (u = t ∧ c = call ∧ p = pc) ∨ (u ≠ t ∧ s.calls u = some (c, p)) := by
  by_cases hut : u = t
  · rw [hut, goto_calls_self] at h
    cases h
    exact .inl ⟨hut, rfl, rfl⟩
  · rw [goto_calls_ne hut] at h
    exact .inr ⟨hut, h⟩

@[simp] theorem finish_calls_self : (s.finish t).calls t = none := update_self ..

theorem finish_calls_ne (h : u ≠ t) : (s.finish t).calls u = s.calls u :=
  update_of_ne h ..

/-- What a step of the provider does: a read takes from its queue, a write adds to the other
end's, and the lock stays where it is. -/
theorem provide_cases {moved : ℕ} (h : s.provide capacity t call moved = some s') :
    ∃ x bytes pc', s' = (s.set_queue x bytes).goto t call pc' ∧ pc'.holds = true ∧
      (bytes = [] → s.queue x = [] ∨
        (x = call.description ∧ ∃ value, pc' = .Unlocking value)) := by
  unfold State.provide at h
  split at h
  next count hrequest =>
    dsimp only at h
    split at h
    · cases h
    · cases h
      exact ⟨_, _, _, rfl, rfl, fun _ => .inr ⟨rfl, _, rfl⟩⟩
  next bytes hrequest =>
    dsimp only at h
    split at h
    · -- nothing is left to send: the queues stay as they are
      injection h with h
      refine ⟨call.description, s.queue call.description, .Unlocking moved, ?_, rfl, .inl⟩
      rw [← h, State.set_queue, update_eq_self]
    · split at h
      · cases h
      · cases h
        refine ⟨_, _, _, rfl, rfl, fun hnil => .inl ?_⟩
        exact (List.append_eq_nil_iff.mp hnil).1

/-- Where a call in progress waits. -/
theorem next_eq_none (hcall : s.calls t = some (call, pc)) (h : s.next capacity t = none) :
    (pc = .Locking ∧ ∃ u, s.io_mutex call.description = some u) ∨
      ∃ moved, pc = .Calling moved ∧ s.provide capacity t call moved = none := by
  unfold State.next at h
  rw [hcall] at h
  cases pc with
  | Locking =>
    cases hlock : s.io_mutex call.description with
    | none => simp [hlock] at h
    | some u => exact .inl ⟨rfl, u, rfl⟩
  | Calling moved => exact .inr ⟨moved, rfl, h⟩
  | Acquiring => cases h
  | Unlocking => cases h
  | Releasing => cases h

/-- The provider of an empty pair waits for data only: there is room for any write. -/
theorem provide_eq_none {moved : ℕ} (hcapacity : 0 < capacity)
    (hother : s.queue call.description.other = []) (h : s.provide capacity t call moved = none) :
    s.queue call.description = [] ∧ ∃ count, call.request = .Read count := by
  have hroom : s.room capacity call.description ≠ 0 := by
    unfold State.room
    rw [hother, List.length_nil]
    omega
  unfold State.provide at h
  split at h
  next count hrequest =>
    dsimp only at h
    split at h
    next hnil => exact ⟨hnil, count, hrequest⟩
    · cases h
  next bytes hrequest =>
    dsimp only at h
    rw [if_neg hroom] at h
    split at h <;> cases h

end Steps

/-! ## The invariant -/

/-- The lock of a description is held by the call that is inside, and no write wants it while
that call waits for data. -/
structure Inv (s : State) : Prop where
  holder : ∀ d t, s.io_mutex d = some t → ∃ call pc, s.calls t = some (call, pc) ∧
    call.description = d ∧ pc.holds = true
  held : ∀ t call pc, s.calls t = some (call, pc) → pc.holds = true →
    s.io_mutex call.description = some t
  apart : ∀ t u d bytes pc, WaitsForData s t d → s.calls u = some (⟨d, .Write bytes⟩, pc) →
    pc ≠ .Acquiring ∧ pc ≠ .Locking

namespace Inv

variable {s s' : State} {capacity t u : ℕ} {call : Call} {pc pc' : Pc} {d : Description}

/-- A thread that does not hold a lock is not one that does. -/
theorem ne_of_holds {v : ℕ} {c : Call} {p : Pc} (hcall : s.calls t = some (call, pc))
    (hpc : pc.holds = false) (hv : s.calls v = some (c, p)) (hp : p.holds = true) : v ≠ t := by
  rintro rfl
  rw [hcall] at hv
  cases hv
  rw [hpc] at hp
  cases hp

theorem new : Inv State.new where
  holder _ _ h := nomatch h
  held _ _ _ h := nomatch h
  apart _ _ _ _ _ _ h := nomatch h

section

variable (hinv : Inv s)
include hinv

/-- A call is made: it is outside the lock, and if it is a write, no read waits. -/
theorem enter (hidle : s.calls t = none)
    (hapart : (⟨s, .Call t call⟩ : Event).Apart) : Inv (s.goto t call .Acquiring) := by
  have hne : ∀ v c p, s.calls v = some (c, p) → v ≠ t := by
    rintro v c p hv rfl
    rw [hidle] at hv
    cases hv
  have hold : ∀ v c p, (s.goto t call .Acquiring).calls v = some (c, p) → p ≠ .Acquiring →
      s.calls v = some (c, p) := by
    intro v c p hv hp
    rcases goto_calls_cases hv with ⟨-, -, rfl⟩ | ⟨-, hv⟩
    · exact absurd rfl hp
    · exact hv
  refine ⟨fun d v hlock => ?_, fun v c p hv hp => ?_, fun v w d bytes p hwait hw => ?_⟩
  · obtain ⟨c, p, hv, hd, hp⟩ := hinv.holder d v hlock
    exact ⟨c, p, by rwa [goto_calls_ne (hne v c p hv)], hd, hp⟩
  · refine hinv.held v c p (hold v c p hv ?_) hp
    rintro rfl
    cases hp
  · obtain ⟨hnil, count, moved, hv⟩ := hwait
    have hwait : WaitsForData s v d := ⟨hnil, count, moved, hold v _ _ hv nofun⟩
    rcases goto_calls_cases hw with ⟨-, rfl, -⟩ | ⟨-, hw⟩
    · -- the new call is a write of this description, while a read waits
      exact absurd hwait (hapart v)
    · exact hinv.apart v w d bytes p hwait hw

/-- A call goes on without taking the lock or giving it back, and does not begin to wait. -/
theorem move (hcall : s.calls t = some (call, pc)) (hholds : pc'.holds = pc.holds)
    (hwants : pc' = .Locking → pc = .Acquiring) (hacquiring : pc' ≠ .Acquiring)
    {x : Description} {bytes : List UInt8}
    (hqueue : bytes = [] → s.queue x = [] ∨ (s.io_mutex x = some t ∧ ∀ moved, pc' ≠ .Calling moved))
    (hcalling : ∀ moved, pc' = .Calling moved → ∃ moved', pc = .Calling moved') :
    Inv ((s.set_queue x bytes).goto t call pc') := by
  have hother : ∀ v, v ≠ t → ((s.set_queue x bytes).goto t call pc').calls v = s.calls v :=
    fun v hv => goto_calls_ne hv
  refine ⟨fun d v hlock => ?_, fun v c p hv hp => ?_, fun v w d data p hwait hw => ?_⟩
  · obtain ⟨c, p, hv, hd, hp⟩ := hinv.holder d v hlock
    by_cases hvt : v = t
    · rw [hvt, hcall] at hv
      cases hv
      exact ⟨call, pc', by rw [hvt, goto_calls_self], hd, hholds.trans hp⟩
    · exact ⟨c, p, by rwa [hother v hvt], hd, hp⟩
  · rcases goto_calls_cases hv with ⟨rfl, rfl, rfl⟩ | ⟨-, hv⟩
    · exact hinv.held v c pc hcall (by rw [← hholds, hp])
    · exact hinv.held v c p hv hp
  · -- the read that waits now has waited before
    obtain ⟨hnil, count, moved, hv⟩ := hwait
    have hbefore : ∃ moved', s.calls v = some (⟨d, .Read count⟩, .Calling moved') := by
      rcases goto_calls_cases hv with ⟨rfl, rfl, hpc⟩ | ⟨-, hv⟩
      · obtain ⟨moved', rfl⟩ := hcalling moved hpc.symm
        exact ⟨moved', hcall⟩
      · exact ⟨moved, hv⟩
    obtain ⟨moved', hv'⟩ := hbefore
    have hempty : s.queue d = [] := by
      by_cases hx : d = x
      · rw [hx] at hnil
        have hbytes : bytes = [] := by
          rw [← hnil]
          exact (update_self x bytes s.queue).symm
        rcases hqueue hbytes with hempty | ⟨hlock, hpc⟩
        · rw [hx, hempty]
        · -- the call that emptied the queue held the lock, so it is the one that waits
          have hheld : s.io_mutex d = some v := hinv.held v _ _ hv' rfl
          rw [hx, hlock] at hheld
          injection hheld with hvt
          rw [← hvt, goto_calls_self] at hv
          injection hv with hv
          exact absurd (congrArg Prod.snd hv) (hpc moved)
      · rwa [show ((s.set_queue x bytes).goto t call pc').queue d = s.queue d from
          update_of_ne hx ..] at hnil
    have hwait : WaitsForData s v d := ⟨hempty, count, moved', hv'⟩
    rcases goto_calls_cases hw with ⟨rfl, rfl, rfl⟩ | ⟨-, hw⟩
    · exact ⟨hacquiring, fun h => (hinv.apart v w d data pc hwait hcall).1 (hwants h)⟩
    · exact hinv.apart v w d data p hwait hw

/-- A call takes the lock. A read does so with data to take, or while no write is there. -/
theorem lock (hcall : s.calls t = some (call, .Locking))
    (hfree : s.io_mutex call.description = none) (hapart : (⟨s, .Go t⟩ : Event).Apart) :
    Inv ((s.set_lock call.description (some t)).goto t call (.Calling 0)) := by
  refine ⟨fun d v hlock => ?_, fun v c p hv hp => ?_, fun v w d data p hwait hw => ?_⟩
  · by_cases hd : d = call.description
    · rw [hd] at hlock
      have hvt : some t = some v := by
        rw [← hlock]
        exact (update_self call.description (some t) s.io_mutex).symm
      injection hvt with hvt
      exact ⟨call, .Calling 0, by rw [← hvt, goto_calls_self], hd.symm, rfl⟩
    · rw [show ((s.set_lock call.description (some t)).goto t call (.Calling 0)).io_mutex d =
        s.io_mutex d from update_of_ne hd ..] at hlock
      obtain ⟨c, p, hv, hc, hp⟩ := hinv.holder d v hlock
      have hvt := ne_of_holds hcall rfl hv hp
      exact ⟨c, p, by rw [goto_calls_ne hvt]; exact hv, hc, hp⟩
  · rcases goto_calls_cases hv with ⟨rfl, rfl, -⟩ | ⟨-, hv⟩
    · exact update_self ..
    · have hlock := hinv.held v c p hv hp
      have hne : c.description ≠ call.description := by
        intro hd
        rw [hd, hfree] at hlock
        cases hlock
      rw [← hlock]
      exact update_of_ne hne ..
  · obtain ⟨hnil, count, moved, hv⟩ := hwait
    have hnil : s.queue d = [] := hnil
    rcases goto_calls_cases hv with ⟨rfl, hc, -⟩ | ⟨-, hv⟩
    · -- the read begins to wait: there is no write of the description
      rw [← hc] at hcall
      rcases goto_calls_cases hw with ⟨-, hc', -⟩ | ⟨-, hw⟩
      · exact nomatch hc.trans hc'.symm
      · exact absurd hw (hapart d count hcall hnil w data p)
    · rcases goto_calls_cases hw with ⟨-, -, rfl⟩ | ⟨-, hw⟩
      · exact ⟨nofun, nofun⟩
      · exact hinv.apart v w d data p ⟨hnil, count, moved, hv⟩ hw

/-- A call gives the lock back. -/
theorem unlock {value : ℕ} (hcall : s.calls t = some (call, .Unlocking value)) :
    Inv ((s.set_lock call.description none).goto t call (.Releasing value)) := by
  have hlock : s.io_mutex call.description = some t := hinv.held t call _ hcall rfl
  refine ⟨fun d v hv => ?_, fun v c p hv hp => ?_, fun v w d data p hwait hw => ?_⟩
  · have hd : d ≠ call.description := by
      rintro rfl
      rw [show ((s.set_lock call.description none).goto t call (.Releasing value)).io_mutex
        call.description = none from update_self ..] at hv
      cases hv
    rw [show ((s.set_lock call.description none).goto t call (.Releasing value)).io_mutex d =
      s.io_mutex d from update_of_ne hd ..] at hv
    obtain ⟨c, p, hcalls, hc, hp⟩ := hinv.holder d v hv
    have hvt : v ≠ t := by
      rintro rfl
      rw [hcall] at hcalls
      injection hcalls with hcalls
      exact hd (hc.symm.trans (congrArg (·.1.description) hcalls).symm)
    exact ⟨c, p, by rw [goto_calls_ne hvt]; exact hcalls, hc, hp⟩
  · rcases goto_calls_cases hv with ⟨-, -, rfl⟩ | ⟨hvt, hv⟩
    · cases hp
    · have hheld := hinv.held v c p hv hp
      have hne : c.description ≠ call.description := by
        intro hd
        rw [hd, hlock] at hheld
        exact hvt (Option.some.inj hheld).symm
      rw [← hheld]
      exact update_of_ne hne ..
  · obtain ⟨hnil, count, moved, hv⟩ := hwait
    rcases goto_calls_cases hv with ⟨-, -, hpc⟩ | ⟨-, hv⟩
    · cases hpc
    rcases goto_calls_cases hw with ⟨-, -, rfl⟩ | ⟨-, hw⟩
    · exact ⟨nofun, nofun⟩
    · exact hinv.apart v w d data p ⟨hnil, count, moved, hv⟩ hw

/-- A call returns. -/
theorem finish {value : ℕ} (hcall : s.calls t = some (call, .Releasing value)) :
    Inv (s.finish t) := by
  have hold : ∀ v c p, (s.finish t).calls v = some (c, p) → s.calls v = some (c, p) := by
    intro v c p hv
    by_cases hvt : v = t
    · rw [hvt, finish_calls_self] at hv
      cases hv
    · rwa [finish_calls_ne hvt] at hv
  refine ⟨fun d v hlock => ?_, fun v c p hv hp => hinv.held v c p (hold v c p hv) hp,
    fun v w d data p hwait hw => ?_⟩
  · obtain ⟨c, p, hv, hc, hp⟩ := hinv.holder d v hlock
    have hvt := ne_of_holds hcall rfl hv hp
    exact ⟨c, p, by rwa [finish_calls_ne hvt], hc, hp⟩
  · obtain ⟨hnil, count, moved, hv⟩ := hwait
    exact hinv.apart v w d data p ⟨hnil, count, moved, hold _ _ _ hv⟩ (hold _ _ _ hw)

/-- **Every step keeps the invariant**, if reads and writes stay apart. -/
theorem step {e : Event} (hstep : Step capacity s e s') (hapart : e.Apart) :
    Inv s' := by
  cases hstep with
  | call hidle => exact hinv.enter hidle hapart
  | @go _ t hnext =>
    have hsame : ∀ x, s.set_queue x (s.queue x) = s := fun x => by
      rw [State.set_queue, update_eq_self]
    unfold State.next at hnext
    split at hnext
    · cases hnext
    next call hcall =>
      cases hnext
      rw [← hsame call.description]
      have hfree : Pc.Locking.holds = Pc.Acquiring.holds := rfl
      exact hinv.move hcall hfree (fun _ => rfl) nofun .inl nofun
    next call hcall =>
      split at hnext
      · cases hnext
      next hfree =>
        cases hnext
        exact hinv.lock hcall hfree hapart
    next call moved hcall =>
      obtain ⟨x, _, pc', rfl, hholds, hqueue⟩ := provide_cases hnext
      have hlocked : pc' ≠ .Locking := by
        rintro rfl
        cases hholds
      have hbegun : pc' ≠ .Acquiring := by
        rintro rfl
        cases hholds
      refine hinv.move hcall hholds (fun h => absurd h hlocked) hbegun (fun hnil => ?_)
        fun _ _ => ⟨moved, rfl⟩
      rcases hqueue hnil with hempty | ⟨rfl, value, rfl⟩
      · exact .inl hempty
      · exact .inr ⟨hinv.held t call _ hcall rfl, nofun⟩
    next call value hcall =>
      cases hnext
      exact hinv.unlock hcall
    next call value hcall =>
      cases hnext
      exact hinv.finish hcall

theorem not_held_up : ¬ HeldUp capacity s := by
  rintro ⟨t, bytes, u, d, hwrite, -, hwait, -⟩
  exact (hinv.apart u t d bytes .Locking hwait hwrite).2 rfl

/-- The write at one end waits for the lock, as there is room. What holds the lock waits too, so
it waits for data; but then the write is not there. -/
theorem not_stuck (hcapacity : 0 < capacity) {pair : ℕ} :
    ¬ Stuck capacity s pair := by
  intro hstuck
  obtain ⟨w, bytes, pc, hw⟩ := hstuck.writes .Local
  have hdata : ∀ call pc t moved, s.calls t = some (call, pc) → call.description.pair = pair →
      s.provide capacity t call moved = none →
      s.queue call.description = [] ∧ ∃ count, call.request = .Read count := by
    intro call pc t moved hcall hpair hnone
    refine provide_eq_none hcapacity ?_ hnone
    rw [Description.other, hpair]
    exact hstuck.empty _
  rcases next_eq_none hw (hstuck.wait w _ pc hw rfl) with ⟨hpc, u, hlock⟩ | ⟨moved, -, hnone⟩
  · obtain ⟨call, pc', hu, hd, hholds⟩ := hinv.holder _ u hlock
    have hpair : call.description.pair = pair := by rw [hd]
    rcases next_eq_none hu (hstuck.wait u call pc' hu hpair) with ⟨rfl, -⟩ | ⟨moved, rfl, hnone⟩
    · cases hholds
    · obtain ⟨hnil, count, hread⟩ := hdata call _ u moved hu hpair hnone
      have hd : call.description = ⟨pair, .Local⟩ := hd
      have hcall : call = ⟨⟨pair, .Local⟩, .Read count⟩ := by rw [← hd, ← hread]
      rw [hd] at hnil
      rw [hcall] at hu
      exact (hinv.apart u w _ bytes pc ⟨hnil, count, moved, hu⟩ hw).2 hpc
  · obtain ⟨-, count, hread⟩ := hdata _ pc w moved hw rfl hnone
    cases hread

end

end Inv

/-! ## Whole runs -/

/-- **Apart, no read holds up a write.** In every run in which no write is called while a read of
its description waits for data, and no read begins to wait while a write is in progress, no write
waits behind a read with room to send, and two peers never all wait on empty queues. -/
theorem apart_never_held_up {capacity : ℕ} (hcapacity : 0 < capacity) {es : List Event} {s : State}
    (hrun : Run (Step capacity) State.new es s) (hapart : ∀ e ∈ es, e.Apart) :
    ¬ HeldUp capacity s ∧ ∀ pair, ¬ Stuck capacity s pair := by
  have hinv : Inv s :=
    Run.invariant_while Inv Inv.new (fun _ _ _ _ _ ht hstep => ht.step hstep) hrun hapart
  exact ⟨hinv.not_held_up, fun _ => hinv.not_stuck hcapacity⟩

/-! ## Two peers -/

/-- The two ends of the connection 0. -/
def near : Description := ⟨0, .Local⟩

def far : Description := ⟨0, .Remote⟩

/-- Both ends of the connection are read by a thread that waits for data, and written by one that
waits for the lock. -/
def deadlocked : State where
  queue _ := []
  io_mutex d := if d = near then some 0 else if d = far then some 1 else none
  calls
    | 0 => some (⟨near, .Read 1⟩, .Calling 0)
    | 1 => some (⟨far, .Read 1⟩, .Calling 0)
    | 2 => some (⟨near, .Write [7]⟩, .Locking)
    | 3 => some (⟨far, .Write [7]⟩, .Locking)
    | _ => none

/-- **Two peers that wait for each other.** Each calls a read in one thread and, when that waits
for data, a write in another. All four wait, with nothing in either queue, and nobody goes on. -/
theorem readers_hold_up_writers :
    ∃ es s, Run (Step 1) State.new es s ∧ HeldUp 1 s ∧ Stuck 1 s 0 ∧ ∀ t, s.next 1 t = none := by
  have hrun : ∃ es s, Run (Step 1) State.new es s ∧ (∀ e ∈ es, True) ∧
      s = deadlocked := by
    refine Run.exists_labels_cons (@Step.call _ _ 0 ⟨near, .Read 1⟩ rfl) trivial ?_
    refine Run.exists_labels_cons (.go (t := 0) rfl) trivial ?_
    refine Run.exists_labels_cons (.go (t := 0) rfl) trivial ?_
    refine Run.exists_labels_cons (@Step.call _ _ 1 ⟨far, .Read 1⟩ rfl) trivial ?_
    refine Run.exists_labels_cons (.go (t := 1) rfl) trivial ?_
    refine Run.exists_labels_cons (.go (t := 1) rfl) trivial ?_
    refine Run.exists_labels_cons (@Step.call _ _ 2 ⟨near, .Write [7]⟩ rfl) trivial ?_
    refine Run.exists_labels_cons (.go (t := 2) rfl) trivial ?_
    refine Run.exists_labels_cons (@Step.call _ _ 3 ⟨far, .Write [7]⟩ rfl) trivial ?_
    refine Run.exists_labels_cons (.go (t := 3) rfl) trivial ?_
    refine ⟨_, _, Run.nil _, nofun, ?_⟩
    simp only [deadlocked, State.goto, State.set_lock, State.new, State.mk.injEq, true_and]
    constructor
    · funext d
      by_cases hnear : d = near
      · rw [hnear]
        rfl
      · by_cases hfar : d = far
        · rw [hfar]
          rfl
        · rw [if_neg hnear, if_neg hfar, update_of_ne hfar, update_of_ne hnear]
    · funext t
      match t with
      | 0 | 1 | 2 | 3 | t + 4 => rfl
  obtain ⟨es, s, hrun, -, rfl⟩ := hrun
  have hnone : ∀ t, deadlocked.next 1 t = none := by
    intro t
    match t with
    | 0 | 1 | 2 | 3 | t + 4 => rfl
  refine ⟨es, deadlocked, hrun, ?_, ⟨fun _ => rfl, ?_, ?_, fun t _ _ _ _ => hnone t⟩, hnone⟩
  · exact ⟨2, [7], 0, near, rfl, rfl, ⟨rfl, 1, 0, rfl⟩, Nat.one_pos⟩
  · rintro (_ | _)
    · exact ⟨0, 1, .Calling 0, rfl⟩
    · exact ⟨1, 1, .Calling 0, rfl⟩
  · rintro (_ | _)
    · exact ⟨2, [7], .Locking, rfl⟩
    · exact ⟨3, [7], .Locking, rfl⟩

/-- A read and a write of one description at the same time: the read has data to take. -/
theorem reader_with_data_holds_up_nobody :
    ∃ es s, Run (Step 1) State.new es s ∧ (∀ e ∈ es, e.Apart) ∧
      (s.calls 1 = some (⟨near, .Read 1⟩, .Calling 0) ∧
        s.calls 2 = some (⟨near, .Write [9]⟩, .Locking)) ∧
      ¬ HeldUp 1 s ∧ ∀ pair, ¬ Stuck 1 s pair := by
  have hrun : ∃ es s, Run (Step 1) State.new es s ∧ (∀ e ∈ es, e.Apart) ∧
      (s.calls 1 = some (⟨near, .Read 1⟩, .Calling 0) ∧
        s.calls 2 = some (⟨near, .Write [9]⟩, .Locking)) := by
    refine Run.exists_labels_cons (@Step.call _ _ 0 ⟨far, .Write [7]⟩ rfl) ?_ ?_
    · rintro u ⟨-, _, _, h⟩
      cases h
    refine Run.exists_labels_cons (.go (t := 0) rfl) nofun ?_
    refine Run.exists_labels_cons (.go (t := 0) rfl) nofun ?_
    refine Run.exists_labels_cons (.go (t := 0) rfl) nofun ?_
    refine Run.exists_labels_cons (@Step.call _ _ 1 ⟨near, .Read 1⟩ rfl) trivial ?_
    refine Run.exists_labels_cons (@Step.call _ _ 2 ⟨near, .Write [9]⟩ rfl) ?_ ?_
    · rintro u ⟨h, -⟩
      cases h
    refine Run.exists_labels_cons (.go (t := 1) rfl) nofun ?_
    refine Run.exists_labels_cons (.go (t := 1) rfl) ?_ ?_
    · intro d count hcall hnil
      cases hcall
      cases hnil
    refine Run.exists_labels_cons (.go (t := 2) rfl) nofun ?_
    exact ⟨_, _, Run.nil _, nofun, rfl, rfl⟩
  obtain ⟨es, s, hrun, hapart, hcalls⟩ := hrun
  exact ⟨es, s, hrun, hapart, hcalls, apart_never_held_up Nat.one_pos hrun hapart⟩

end DarwinArt.Fd.SocketIo
