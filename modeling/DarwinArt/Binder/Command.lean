/-
The framing of the Binder write stream: `command.rs`.

A record is a command word and a payload whose size the word itself carries. A word is
looked up in the table of commands, so a forged size or direction is an unknown command.
-/
import Mathlib.Data.List.Basic

set_option autoImplicit false

namespace DarwinArt.Binder

/-! ## Little-endian words -/

/-- `u32::to_le_bytes`. -/
def to_le_bytes32 (x : UInt32) : List UInt8 :=
  [x.toUInt8, (x >>> 8).toUInt8, (x >>> 16).toUInt8, (x >>> 24).toUInt8]

/-- `u64::to_le_bytes`. -/
def to_le_bytes64 (x : UInt64) : List UInt8 :=
  [x.toUInt8, (x >>> 8).toUInt8, (x >>> 16).toUInt8, (x >>> 24).toUInt8,
    (x >>> 32).toUInt8, (x >>> 40).toUInt8, (x >>> 48).toUInt8, (x >>> 56).toUInt8]

/-- `u32::from_le_bytes` of the first four bytes, if there are that many. -/
def from_le_bytes32 : List UInt8 → Option UInt32
  | a :: b :: c :: d :: _ =>
    some (a.toUInt32 ||| (b.toUInt32 <<< 8) ||| (c.toUInt32 <<< 16) ||| (d.toUInt32 <<< 24))
  | _ => none

namespace Command

/-- `Kind`, in the order of the source: a kind's number is its position. -/
inductive Kind
  | Transaction
  | Reply
  | AcquireResult
  | FreeBuffer
  | Increfs
  | Acquire
  | Release
  | Decrefs
  | IncrefsDone
  | AcquireDone
  | AttemptAcquire
  | RegisterLooper
  | EnterLooper
  | ExitLooper
  | RequestDeath
  | ClearDeath
  | DeadBinderDone
  | TransactionSg
  | ReplySg
  | RequestFreeze
  | ClearFreeze
  | FreezeDone
deriving DecidableEq, Repr

def KINDS : List Kind :=
  [.Transaction, .Reply, .AcquireResult, .FreeBuffer, .Increfs, .Acquire, .Release, .Decrefs,
    .IncrefsDone, .AcquireDone, .AttemptAcquire, .RegisterLooper, .EnterLooper, .ExitLooper,
    .RequestDeath, .ClearDeath, .DeadBinderDone, .TransactionSg, .ReplySg, .RequestFreeze,
    .ClearFreeze, .FreezeDone]

def Kind.payload_size : Kind → ℕ
  | .Transaction | .Reply => 64
  | .TransactionSg | .ReplySg => 72
  | .IncrefsDone | .AcquireDone => 16
  | .RequestDeath | .ClearDeath | .RequestFreeze | .ClearFreeze => 12
  | .FreeBuffer | .AttemptAcquire | .DeadBinderDone | .FreezeDone => 8
  | .RegisterLooper | .EnterLooper | .ExitLooper => 0
  | _ => 4

/-- `word`: direction, size, the byte `c` and the number. -/
def Kind.word (kind : Kind) : UInt32 :=
  let size := UInt32.ofNat kind.payload_size
  let direction : UInt32 := if size = 0 then 0 else (1 : UInt32) <<< 30
  direction ||| (size <<< 16) ||| 0x6300 ||| UInt32.ofNat (KINDS.idxOf kind)

inductive DecodeError
  | Truncated
  | UnknownCommand (word : UInt32)
deriving DecidableEq

/-- `decode`: one record, and its size. -/
def decode (input : List UInt8) : Except DecodeError ((Kind × List UInt8) × ℕ) :=
  match from_le_bytes32 input with
  | none => .error .Truncated
  | some word =>
    match KINDS.find? (fun kind => kind.word = word) with
    | none => .error (.UnknownCommand word)
    | some kind =>
      let end_ := 4 + kind.payload_size
      if input.length < end_ then .error .Truncated
      else .ok ((kind, (input.take end_).drop 4), end_)

end Command

end DarwinArt.Binder
