/-
The receive queue of one process: `transaction_queue.rs`.

Incoming work waits in `pending` in the order it was enqueued. A thread that reads takes
the first entry it may take, whatever stands before it (`deliverable`); the buffer of a
delivered entry stays in `delivered` until the client frees it.

The receive allocation behind an entry is made by the arena; here it is the answer an
`enqueue` is given. A read is given the length of the buffer it may fill and returns the
record it wrote there.
-/
import DarwinArt.Binder.Thread

set_option autoImplicit false

namespace DarwinArt.Binder

open Lib Lib.ListEdit

/-- What a record shows of an `OwnedTransaction`: its address and its layout. -/
structure Allocation where
  buffer_address : ℕ
  data_size : ℕ
  offsets_size : ℕ
  offsets_address : ℕ
deriving DecidableEq

structure Header where
  reply : Bool
  target_pointer : UInt64
  target_cookie : UInt64
  code : UInt32
  flags : UInt32
  sender_pid : Int32
  sender_euid : UInt32
deriving DecidableEq

structure Route where
  call : Option CallId
  target_thread : Option UInt64
  deferred_completion : Bool
deriving DecidableEq

/-- `Pending`: an entry of the queue. -/
structure Pending where
  allocation : Allocation
  header : Header
  route : Route
deriving DecidableEq

/-- `Delivery`: what one read did. -/
structure Delivery where
  bytes : ℕ
  call : Option CallId
  reply : Bool
  completion : Bool
deriving DecidableEq

/-- `Next`: what a read would take. -/
structure Next where
  call : Option CallId
  reply : Bool
deriving DecidableEq

/-- The record a read wrote into the buffer. -/
inductive Record
  | TransactionComplete
  | Transaction (header : Header) (allocation : Allocation)
deriving DecidableEq

def RECORD_SIZE : ℕ := 4 + 64

structure Queue where
  pending : List Pending
  delivered : Map ℕ Allocation

namespace Queue

/-- `transaction_queue::Error`, but for the errors of the arena. -/
inductive Error
  | Allocation (errno : ℕ)
  | UnknownBuffer
  | DuplicateBuffer
  | OutOfMemory
deriving DecidableEq

/-- `Queue::new` over a mapping that could be made. -/
def new : Queue := ⟨[], ∅⟩

/-- `enqueue_routed_with_fds`, with the arena's answer. -/
def enqueue_routed (q : Queue) (allocation : Except Error Allocation) (header : Header)
    (route : Route) : Except Error ℕ × Queue :=
  match allocation with
  | .error e => (.error e, q)
  | .ok allocation =>
    (.ok allocation.buffer_address,
      { q with pending := q.pending ++ [⟨allocation, header, route⟩] })

/-- `deliverable`: targeted work goes to its thread, one-way work to a thread that may take
process work. -/
def deliverable (thread_id : UInt64) (accept_async : Bool) (pending : Pending) : Bool :=
  match pending.route.target_thread with
  | some id => id = thread_id
  | none => accept_async ∨ pending.header.reply ∨ pending.header.flags &&& 1 = 0

section

variable (q : Queue) (thread_id : UInt64) (accept_async : Bool)

def next_route : Option Next :=
  (q.pending.find? (deliverable thread_id accept_async)).map fun pending =>
    ⟨pending.route.call, pending.header.reply⟩

/-- The completion of this entry has been returned. -/
def complete (pending : Pending) : Pending :=
  { pending with route := { pending.route with deferred_completion := false } }

def read_for_thread (output : ℕ)
    (memory : Bool) : Except Error (Option (Delivery × Record)) × Queue :=
  match q.pending.find? (deliverable thread_id accept_async) with
  | none => (.ok none, q)
  | some pending =>
    if pending.route.deferred_completion then
      if output < 4 then (.ok none, q)
      else
        (.ok (some (⟨4, pending.route.call, true, true⟩, .TransactionComplete)),
          { q with pending := modifyFirst (deliverable thread_id accept_async) complete q.pending })
    else if output < RECORD_SIZE then (.ok none, q)
    else if ¬ memory then (.error .OutOfMemory, q)
    else
      let address := pending.allocation.buffer_address
      let q' : Queue :=
        ⟨q.pending.eraseP (deliverable thread_id accept_async),
          q.delivered.insert address pending.allocation⟩
      if q.delivered.contains address then (.error .DuplicateBuffer, q')
      else
        (.ok (some (⟨RECORD_SIZE, pending.route.call, pending.header.reply, false⟩,
          .Transaction pending.header pending.allocation)), q')

def free (address : ℕ) : Except Error Unit × Queue :=
  if q.delivered.contains address then (.ok (), { q with delivered := q.delivered.erase address })
  else (.error .UnknownBuffer, q)

/-! ## What one read does -/

/-- **One read.** It leaves the queue as it is, marks the completion of the first entry the
thread may take, or takes that entry out. -/
theorem read_for_thread_cases (output : ℕ) (memory : Bool) :
    ((q.read_for_thread thread_id accept_async output memory).2 = q ∧
      ∀ d, (q.read_for_thread thread_id accept_async output memory).1 ≠ .ok (some d)) ∨
    ∃ before pending after,
      q.pending = before ++ pending :: after ∧
      (∀ p ∈ before, deliverable thread_id accept_async p = false) ∧
      deliverable thread_id accept_async pending = true ∧
      ((pending.route.deferred_completion = true ∧
          (q.read_for_thread thread_id accept_async output memory).1 =
            .ok (some (⟨4, pending.route.call, true, true⟩, .TransactionComplete)) ∧
          (q.read_for_thread thread_id accept_async output memory).2.pending =
            before ++ complete pending :: after) ∨
        (pending.route.deferred_completion = false ∧
          ((q.read_for_thread thread_id accept_async output memory).1 = .error .DuplicateBuffer ∨
            (q.read_for_thread thread_id accept_async output memory).1 =
              .ok (some (⟨RECORD_SIZE, pending.route.call, pending.header.reply, false⟩,
                .Transaction pending.header pending.allocation))) ∧
          (q.read_for_thread thread_id accept_async output memory).2.pending =
            before ++ after)) := by
  cases hfind : q.pending.find? (deliverable thread_id accept_async) with
  | none =>
    left
    simp [read_for_thread, hfind]
  | some pending =>
    obtain ⟨before, after, hsplit, hbefore, hp, herase⟩ := find_eraseP hfind
    by_cases hcomplete : pending.route.deferred_completion = true
    · by_cases hroom : output < 4
      · left
        simp [read_for_thread, hfind, hcomplete, hroom]
      · right
        refine ⟨before, pending, after, hsplit, hbefore, hp, Or.inl ⟨hcomplete, ?_, ?_⟩⟩
        · simp [read_for_thread, hfind, hcomplete, hroom]
        · simp only [read_for_thread, hfind, hcomplete, hroom, if_true, if_false]
          rw [hsplit, modifyFirst_split complete hbefore hp]
    · by_cases hroom : output < RECORD_SIZE
      · left
        simp [read_for_thread, hfind, hcomplete, hroom]
      · by_cases hmemory : memory = true
        · right
          refine ⟨before, pending, after, hsplit, hbefore, hp,
            Or.inr ⟨by simpa using hcomplete, ?_, ?_⟩⟩
          · simp only [read_for_thread, hfind, hcomplete, hroom, hmemory]
            by_cases hdup : q.delivered.contains pending.allocation.buffer_address = true
            · exact Or.inl (by simp [hdup])
            · exact Or.inr (by simp [hdup])
          · simp only [read_for_thread, hfind, hcomplete, hroom, hmemory]
            by_cases hdup : q.delivered.contains pending.allocation.buffer_address = true
            · simp [hdup, herase]
            · simp [hdup, herase]
        · left
          simp [read_for_thread, hfind, hcomplete, hroom, hmemory]

end

end Queue

end DarwinArt.Binder
