/-
The values of the authority protocol: `authority_protocol/types.rs`.

Four kinds of token name what the profile-wide routing authority hands out. The source
makes them with one macro, `token!`, so here they are one structure over a kind; a token
is a nonzero 64-bit number, and both halves of that are fields.

Numbers that the code only stores and compares keep their machine type (`UInt32`,
`UInt64`, `Int32`). Numbers it counts with are `ℕ`, with the bound stated.
-/
import DarwinArt.Lib.Map

set_option autoImplicit false

namespace DarwinArt.Binder

open Lib

/-! ## Tokens -/

/-- The four instances of `token!`. -/
inductive TokenKind
  | Connection | LocalNode | Call | Transfer
deriving DecidableEq, Repr

/-- `token!`: a nonzero `u64`. -/
@[ext]
structure Token (kind : TokenKind) where
  raw : ℕ
  nonzero : raw ≠ 0
  fits : raw < 2 ^ 64
deriving DecidableEq

abbrev ConnectionToken := Token .Connection
abbrev LocalNodeToken := Token .LocalNode
abbrev CallToken := Token .Call
abbrev TransferToken := Token .Transfer

instance (kind : TokenKind) : Key (Token kind) where
  code t := [t.raw]
  code_injective := by
    intro a b h
    exact Token.ext (List.head_eq_of_cons_eq h)

instance transOrdConnection : Std.TransOrd ConnectionToken := inferInstance

instance transOrdLocalNode : Std.TransOrd LocalNodeToken := inferInstance

instance transOrdCall : Std.TransOrd CallToken := inferInstance

theorem Token.one_fits : 1 < 2 ^ 64 := by decide

theorem Token.two_nonzero : 2 ≠ 0 := by decide

theorem Token.two_fits : 2 < 2 ^ 64 := by decide

/-- `from_nonzero`. Its argument is a `u64`, so the second test never fails on what the
source can pass. -/
def Token.from_nonzero {kind : TokenKind} (raw : ℕ) : Option (Token kind) :=
  if h : raw ≠ 0 ∧ raw < 2 ^ 64 then some ⟨raw, h.1, h.2⟩ else none

@[simp] theorem Token.from_nonzero_raw {kind : TokenKind} (t : Token kind) :
    Token.from_nonzero t.raw = some t :=
  dif_pos ⟨t.nonzero, t.fits⟩

/-- The token after `previous`: `previous.checked_add(1)`, then `from_nonzero(..).unwrap()`,
which cannot fail on a sum that did not wrap. -/
def Token.after {kind : TokenKind} (previous : ℕ) : Option (Token kind) :=
  if h : previous + 1 < 2 ^ 64 then some ⟨previous + 1, Nat.succ_ne_zero _, h⟩ else none

theorem Token.after_eq_some {kind : TokenKind} {previous : ℕ} {t : Token kind}
    (h : Token.after previous = some t) : t.raw = previous + 1 := by
  unfold Token.after at h
  split at h
  · rw [← Option.some.inj h]
  · cases h

/-! ## Messages -/

inductive TransactionFailure
  | DeadReply | FailedReply
deriving DecidableEq, Repr

@[ext]
structure NodeToken where
  owner : ConnectionToken
  localNode : LocalNodeToken
deriving DecidableEq

instance : Key NodeToken where
  code n := [n.owner.raw, n.localNode.raw]
  code_injective := by
    intro a b h
    simp only [List.cons.injEq, and_true] at h
    exact NodeToken.ext (Token.ext h.1) (Token.ext h.2)

/-- `Message`: requests of a connection, the authority's answers, and its events. -/
inductive Message
  | OpenConnection
  | PublishNode (localNode : LocalNodeToken)
  | SetContextManager (localNode : LocalNodeToken)
  | GetContextManager
  | RouteTransaction (target : NodeToken) (caller_thread : UInt64) (transfer : TransferToken)
      (code flags : UInt32)
  | CompleteReply (call : CallToken) (transfer : TransferToken) (code flags : UInt32)
  | RequestDeath (target : NodeToken) (cookie : UInt64)
  | ClearDeath (target : NodeToken) (cookie : UInt64)
  | CloseConnection
  | ConnectionOpened (connection : ConnectionToken) (android_uid : UInt32)
  | NodePublished (node : NodeToken)
  | ContextManagerSet (node : NodeToken)
  | ContextManagerFound (node : Option NodeToken)
  | RouteAccepted (call : Option CallToken)
  | RouteRejected (reason : TransactionFailure)
  | ReplyAccepted (call : CallToken)
  | DeathRequested
  | DeathCleared
  | DeliverTransaction (call : Option CallToken) (sender : ConnectionToken) (sender_pid : Int32)
      (sender_euid : UInt32) (target : LocalNodeToken) (caller_thread : UInt64)
      (transfer : TransferToken) (code flags : UInt32)
  | DeliverReply (call : CallToken) (source : ConnectionToken) (sender_pid : Int32)
      (sender_euid : UInt32) (target_thread : UInt64) (transfer : TransferToken)
      (code flags : UInt32)
  | TargetDead (call : CallToken) (target_thread : UInt64)
  | CallerDead (call : CallToken)
  | NodeDead (cookie : UInt64)
deriving DecidableEq

end DarwinArt.Binder
