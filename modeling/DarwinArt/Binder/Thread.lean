/-
One Binder-calling thread: `thread.rs` and `thread/transactions.rs`.

A thread keeps a stack of the calls it waits for (`outgoing`), a stack of the calls it
serves (`incoming`), and a queue of records its next reads will return (`local_work`). A
synchronous call occupies one stack entry and, in `local_work`, the slots its two terminal
records will be written to, so that a later failure never has to allocate. Fifteen
operations move those two lists together.

## What is modelled

The **release** build: `debug_assert!` and its relatives evaluate nothing, so an effect in
the argument of one does not happen. `read_local_work` has such an argument.

Fallible operations return their result together with the thread they leave behind, so
that what a failed call does to the thread is part of the model. The answer of the
allocator (`try_reserve`) is an argument. The `work_signal` is a wake-up hint that no
operation reads, and is left out.
-/
import DarwinArt.Lib.Checked
import DarwinArt.Lib.Run
import DarwinArt.Binder.AuthorityProtocol

set_option autoImplicit false

namespace DarwinArt.Binder

open Lib Lib.ListEdit

/-! ## The data -/

def BR_TRANSACTION_COMPLETE : UInt32 := 0x00007206

def BR_DEAD_REPLY : UInt32 := 0x00007205

def BR_FAILED_REPLY : UInt32 := 0x00007211

/-- `CallId`: routed inside one registry, or allocated by the routing authority. -/
inductive CallId
  | Local (serial : ℕ)
  | Remote (token : CallToken)
deriving DecidableEq

structure RemoteSubmission where
  serial : ℕ
deriving DecidableEq

structure RemoteReplySubmission where
  serial : ℕ
deriving DecidableEq

inductive OutgoingCall
  | Pending (submission : RemoteSubmission)
  | Rejected (submission : RemoteSubmission)
  | Active (call : CallId)
deriving DecidableEq

inductive IncomingCall
  | Active (call : CallId)
  | CallerDead (call : CallId)
  | PendingReply (submission : RemoteReplySubmission) (call : CallId)
deriving DecidableEq

inductive LocalWork
  | TransactionComplete (call : Option CallId)
  | DeadReply (call : CallId)
  | ReservedTerminal (call : CallId)
  | PendingRemote (submission : RemoteSubmission)
  | RejectedRemote (submission : RemoteSubmission) (synchronous : Bool)
      (reason : TransactionFailure)
  | PendingRemoteReply (submission : RemoteReplySubmission)
deriving DecidableEq

inductive Looper
  | None | Registered | Entered | Exited
deriving DecidableEq, Repr

/-- `Thread`. Both stacks grow at the end of the list, as the source's vectors do. -/
structure Thread where
  looper : Looper
  id : UInt64
  outgoing : List OutgoingCall
  incoming : List IncomingCall
  local_work : List LocalWork
  next_remote_submission : ℕ
deriving DecidableEq

namespace Thread

/-- The part of `thread::Error` that the stack operations return. -/
inductive Error
  | OutOfMemory
  | InvalidReplyStack
  | InvalidOutgoingReply
  | SubmissionIdsExhausted
deriving DecidableEq, Repr

def new (id : UInt64) : Option Thread :=
  if id ≠ 0 then some ⟨.None, id, [], [], [], 0⟩ else none

section

variable (s : Thread) (call : CallId)

def is_looper : Bool :=
  s.looper = .Registered ∨ s.looper = .Entered

def can_wait_for_process_work : Bool :=
  s.is_looper ∧ s.outgoing.isEmpty ∧ s.incoming.isEmpty ∧ s.local_work.isEmpty

def last_outgoing : Option CallId :=
  match s.outgoing.getLast? with
  | some (.Active call) => some call
  | some (.Pending _) | some (.Rejected _) | none => none

/-! ## Local submissions -/

/-- `reserve_submission`: nothing but the allocator can refuse, and nothing changes. -/
def reserve_submission (_synchronous memory : Bool) : Except Error Unit :=
  if memory then .ok () else .error .OutOfMemory

/-- `SubmissionReservation::commit`. That `call` agrees with the reservation's
`synchronous` is only a debug assertion. -/
def commit (call : Option CallId) : Thread :=
  match call with
  | some call =>
    { s with
      outgoing := s.outgoing ++ [.Active call]
      local_work := s.local_work ++ [.ReservedTerminal call] ++ [.ReservedTerminal call] }
  | none => { s with local_work := s.local_work ++ [.TransactionComplete none] }

/-! ## Incoming calls -/

def accept_incoming : Thread :=
  { s with incoming := s.incoming ++ [.Active call] }

def finish_incoming : Except Error Unit × Thread :=
  if s.incoming.getLast? ≠ some (.Active call) then (.error .InvalidReplyStack, s)
  else (.ok (), { s with incoming := s.incoming.dropLast })

/-- Does this entry of `incoming` serve `call`? -/
def serves : IncomingCall → Bool
  | .Active entry | .CallerDead entry | .PendingReply _ entry => entry = call

/-- `cancel_incoming`: the caller died. `rposition` looks from the top of the stack. -/
def cancel_incoming : Bool × Thread :=
  match s.incoming.reverse.findIdx? (serves call) with
  | none => (false, s)
  | some fromTop =>
    let position := s.incoming.length - 1 - fromTop
    match s.incoming[position]? with
    | some (.Active (.Remote _)) =>
      (true, { s with incoming := s.incoming.set position (.CallerDead call) })
    | some (.CallerDead _) => (false, s)
    -- the reply already submitted stays until the authority accepts it
    | some (.PendingReply _ _) => (true, s)
    | some (.Active (.Local _)) => (false, s)
    | none => (false, s)

/-! ## Outgoing calls -/

def validate_outgoing : Except Error Unit :=
  if s.last_outgoing = some call then .ok () else .error .InvalidOutgoingReply

def finish_outgoing : Except Error Unit × Thread :=
  if s.last_outgoing ≠ some call then (.error .InvalidOutgoingReply, s)
  else
    (.ok (), { s with
      outgoing := s.outgoing.dropLast
      local_work := s.local_work.filter (fun work => work ≠ .ReservedTerminal call) })

/-- The records `read_local_work` may return now. -/
def visible : LocalWork → Bool
  | .TransactionComplete none => true
  | .TransactionComplete (some call) => s.last_outgoing = some call
  | .DeadReply call => s.last_outgoing = some call
  | .RejectedRemote submission synchronous _ =>
    ¬ synchronous ∨ s.outgoing.getLast? = some (.Rejected submission)
  | .ReservedTerminal _ | .PendingRemote _ | .PendingRemoteReply _ => false

/-- The `BR_*` word of a rejected submission. -/
def rejection_command : TransactionFailure → UInt32
  | .DeadReply => BR_DEAD_REPLY
  | .FailedReply => BR_FAILED_REPLY

/-- `read_local_work` into a buffer of `output` bytes. `some command` stands for the four
bytes written, `none` for the answer `0`. `position` and `remove` take the first visible
record out of the queue.

The pop of a synchronous rejection stands inside a `debug_assert_eq!`, and so is not in
the release build. -/
def read_local_work (output : ℕ) : Option UInt32 × Thread :=
  if s.local_work.isEmpty ∨ output < 4 then (none, s)
  else
    match s.local_work.find? s.visible with
    | none => (none, s)
    | some work =>
      let s' := { s with local_work := s.local_work.eraseP s.visible }
      match work with
      | .TransactionComplete _ => (some BR_TRANSACTION_COMPLETE, s')
      | .DeadReply _ => (some BR_DEAD_REPLY, { s' with outgoing := s.outgoing.dropLast })
      | .RejectedRemote _ _ reason => (some (rejection_command reason), s')
      -- `unreachable!`: never visible
      | .ReservedTerminal _ | .PendingRemote _ | .PendingRemoteReply _ => (none, s')

/-- `enqueue_dead_reply`: of the two reserved slots the first becomes the completion, the
second the dead reply. -/
def enqueue_dead_reply : Except Error Unit × Thread :=
  if ¬ s.outgoing.contains (.Active call) then (.error .InvalidOutgoingReply, s)
  else if s.local_work.count (.ReservedTerminal call) ≠ 2 then (.error .InvalidOutgoingReply, s)
  else
    (.ok (), { s with
      local_work := (s.local_work.replace (.ReservedTerminal call)
        (.TransactionComplete (some call))).replace (.ReservedTerminal call) (.DeadReply call) })

/-- The calls of the authority that an outgoing entry waits for. -/
def authority_call : OutgoingCall → Option CallId
  | .Active (.Remote call) => some (.Remote call)
  | .Active (.Local _) | .Pending _ | .Rejected _ => none

/-- The loop of `fail_remote_authority`, which stops at the first error. -/
def enqueue_dead_replies (s : Thread) : List CallId → Except Error Unit × Thread
  | [] => (.ok (), s)
  | call :: calls =>
    match s.enqueue_dead_reply call with
    | (.error e, s') => (.error e, s')
    | (.ok (), s') => s'.enqueue_dead_replies calls

def fail_remote_authority : Except Error Unit × Thread :=
  s.enqueue_dead_replies (s.outgoing.filterMap authority_call)

/-! ## Submissions to the authority -/

def begin_remote_submission (synchronous memory : Bool) : Except Error RemoteSubmission × Thread :=
  match checked_add 64 s.next_remote_submission 1 with
  | none => (.error .SubmissionIdsExhausted, s)
  | some serial =>
    if ¬ memory then (.error .OutOfMemory, s)
    else
      let token : RemoteSubmission := ⟨serial⟩
      let s := { s with next_remote_submission := serial }
      let s :=
        if synchronous then
          { s with
            outgoing := s.outgoing ++ [.Pending token]
            local_work := s.local_work ++ [.PendingRemote token] }
        else s
      (.ok token, { s with local_work := s.local_work ++ [.PendingRemote token] })

/-- `commit_remote_submission`. `count` is what the scan over `local_work` finds; its
third hit is the same error as a count that does not fit the call, so the positions
assigned to are all the positions found. -/
def commit_remote_submission (token : RemoteSubmission) (call : Option CallToken) :
    Except Error Unit × Thread :=
  let count := s.local_work.count (.PendingRemote token)
  match call with
  | some call =>
    if count = 2 ∧ s.outgoing.contains (.Pending token) then
      (.ok (), { s with
        outgoing := s.outgoing.replace (.Pending token) (.Active (.Remote call))
        local_work := replaceAll (.PendingRemote token) (.ReservedTerminal (.Remote call))
          s.local_work })
    else (.error .InvalidOutgoingReply, s)
  | none =>
    if count = 1 ∧ ¬ s.outgoing.contains (.Pending token) then
      (.ok (), { s with
        local_work := replaceAll (.PendingRemote token) (.TransactionComplete none) s.local_work })
    else (.error .InvalidOutgoingReply, s)

/-- The slots found and the stack entry found belong together: `(1, None) | (2, Some(_))`. -/
def slots_match (token : RemoteSubmission) : Bool :=
  let count := s.local_work.count (.PendingRemote token)
  let outgoing := s.outgoing.contains (.Pending token)
  (count = 1 ∧ ¬ outgoing) ∨ (count = 2 ∧ outgoing)

/-- `abort_remote_submission`: both lists are changed before the check that may fail. -/
def abort_remote_submission (token : RemoteSubmission) : Except Error Unit × Thread :=
  let s' := { s with
    local_work := s.local_work.filter (fun work => work ≠ .PendingRemote token)
    outgoing := s.outgoing.erase (.Pending token) }
  if s.slots_match token then (.ok (), s') else (.error .InvalidOutgoingReply, s')

/-- `reject_remote_submission`: the first slot becomes the report, the second goes. -/
def reject_remote_submission (token : RemoteSubmission)
    (reason : TransactionFailure) : Except Error Unit × Thread :=
  if ¬ s.slots_match token then (.error .InvalidOutgoingReply, s)
  else
    let synchronous := s.outgoing.contains (.Pending token)
    (.ok (), { s with
      local_work := (s.local_work.replace (.PendingRemote token)
        (.RejectedRemote token synchronous reason)).erase (.PendingRemote token)
      outgoing := s.outgoing.replace (.Pending token) (.Rejected token) })

/-! ## Replies through the authority -/

/-- `begin_remote_reply` from the point where the call it answers is known. -/
def submit_remote_reply (call : CallToken) (memory : Bool) :
    Except Error (Option (RemoteReplySubmission × CallToken)) × Thread :=
  match checked_add 64 s.next_remote_submission 1 with
  | none => (.error .SubmissionIdsExhausted, s)
  | some serial =>
    if ¬ memory then (.error .OutOfMemory, s)
    else
      let submission : RemoteReplySubmission := ⟨serial⟩
      (.ok (some (submission, call)), { s with
        next_remote_submission := serial
        incoming := s.incoming.dropLast ++ [.PendingReply submission (.Remote call)]
        local_work := s.local_work ++ [.PendingRemoteReply submission] })

def begin_remote_reply (memory : Bool) :
    Except Error (Option (RemoteReplySubmission × CallToken)) × Thread :=
  match s.incoming.getLast? with
  | some (.Active (.Remote call)) | some (.CallerDead (.Remote call)) =>
    s.submit_remote_reply call memory
  | some (.Active (.Local _)) => (.ok none, s)
  | some (.CallerDead (.Local _)) | some (.PendingReply _ _) | none =>
    (.error .InvalidReplyStack, s)

def commit_remote_reply (submission : RemoteReplySubmission) (call : CallToken) :
    Except Error Unit × Thread :=
  if s.incoming.getLast? ≠ some (.PendingReply submission (.Remote call)) then
    (.error .InvalidReplyStack, s)
  else if ¬ s.local_work.contains (.PendingRemoteReply submission) then
    (.error .InvalidReplyStack, s)
  else
    (.ok (), { s with
      incoming := s.incoming.dropLast
      local_work := s.local_work.replace (.PendingRemoteReply submission)
        (.TransactionComplete none) })

/-- `abort_remote_reply`: the slots go before their number is checked. -/
def abort_remote_reply (submission : RemoteReplySubmission) (call : CallToken) :
    Except Error Unit × Thread :=
  if s.incoming.getLast? ≠ some (.PendingReply submission (.Remote call)) then
    (.error .InvalidReplyStack, s)
  else
    let s' := { s with
      local_work := s.local_work.filter (fun work => work ≠ .PendingRemoteReply submission) }
    if s.local_work.count (.PendingRemoteReply submission) ≠ 1 then (.error .InvalidReplyStack, s')
    else
      (.ok (), { s' with
        incoming := s.incoming.dropLast ++ [.Active (.Remote call)] })

end

end Thread
end DarwinArt.Binder
