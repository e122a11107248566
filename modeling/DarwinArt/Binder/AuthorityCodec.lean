/-
The wire format of the authority protocol: `authority_protocol/codec.rs`.

A message is a header of sixteen bytes and a payload of at most fifty-six. `payload` writes the
fields of each message and `parse` reads them back at offsets of its own, so the two agree only
by what is proved here: they are inverse to each other, in both directions, and so are `encode`
and `decode` on the stream.

A stream is the bytes still to be read. `Read::read_exact` fails on it only for want of bytes,
so that is the only I/O error.
-/
import DarwinArt.Lib.Fallible
import DarwinArt.Binder.AuthorityProtocol

set_option autoImplicit false

namespace DarwinArt.Binder.AuthorityCodec

open Lib

/-! ## The format -/

/-- `MAGIC`: `DABND001`. -/
def MAGIC : List UInt8 := [0x44, 0x41, 0x42, 0x4e, 0x44, 0x30, 0x30, 0x31]

def VERSION : UInt16 := 5

def HEADER_BYTES : ℕ := 16

def MAX_PAYLOAD_BYTES : ℕ := 56

/-- The operation constants. -/
inductive Operation
  | OPEN | PUBLISH_NODE | ROUTE_TRANSACTION | COMPLETE_REPLY | CLOSE | SET_CONTEXT_MANAGER
  | GET_CONTEXT_MANAGER | REQUEST_DEATH | CLEAR_DEATH
  | OPENED | NODE_PUBLISHED | ROUTE_ACCEPTED | DELIVER_TRANSACTION | DELIVER_REPLY | TARGET_DEAD
  | CALLER_DEAD | CONTEXT_MANAGER_SET | CONTEXT_MANAGER_FOUND | REPLY_ACCEPTED | DEATH_REQUESTED
  | DEATH_CLEARED | NODE_DEAD | ROUTE_REJECTED
deriving DecidableEq, Repr

/-- Their values. -/
def Operation.code : Operation → UInt16
  | OPEN => 1
  | PUBLISH_NODE => 2
  | ROUTE_TRANSACTION => 3
  | COMPLETE_REPLY => 4
  | CLOSE => 5
  | SET_CONTEXT_MANAGER => 6
  | GET_CONTEXT_MANAGER => 7
  | REQUEST_DEATH => 8
  | CLEAR_DEATH => 9
  | OPENED => 0x8001
  | NODE_PUBLISHED => 0x8002
  | ROUTE_ACCEPTED => 0x8003
  | DELIVER_TRANSACTION => 0x8004
  | DELIVER_REPLY => 0x8005
  | TARGET_DEAD => 0x8006
  | CALLER_DEAD => 0x8007
  | CONTEXT_MANAGER_SET => 0x8008
  | CONTEXT_MANAGER_FOUND => 0x8009
  | REPLY_ACCEPTED => 0x800a
  | DEATH_REQUESTED => 0x800b
  | DEATH_CLEARED => 0x800c
  | NODE_DEAD => 0x800d
  | ROUTE_REJECTED => 0x800e

/-- The arms of `parse`, in its order. -/
def Operation.all : List Operation :=
  [OPEN, PUBLISH_NODE, SET_CONTEXT_MANAGER, GET_CONTEXT_MANAGER, ROUTE_TRANSACTION,
    COMPLETE_REPLY, REQUEST_DEATH, CLEAR_DEATH, CLOSE, OPENED, NODE_PUBLISHED,
    CONTEXT_MANAGER_SET, CONTEXT_MANAGER_FOUND, ROUTE_ACCEPTED, ROUTE_REJECTED, REPLY_ACCEPTED,
    DEATH_REQUESTED, DEATH_CLEARED, DELIVER_TRANSACTION, DELIVER_REPLY, TARGET_DEAD, CALLER_DEAD,
    NODE_DEAD]

/-- The arm that a number of the wire selects. -/
def Operation.of_code (code : UInt16) : Option Operation :=
  Operation.all.find? fun operation => operation.code == code

theorem Operation.of_code_code (operation : Operation) :
    Operation.of_code operation.code = some operation := by
  cases operation <;> decide

variable {operation : Operation} {l : List UInt8} {offset : ℕ} {m : Message} {raw : UInt64}
  {bytes : List UInt8}

theorem Operation.code_of_code {code : UInt16}
    (h : Operation.of_code code = some operation) : operation.code = code := by
  have hfound := List.find?_some h
  exact beq_iff_eq.mp hfound

inductive DecodeError
  | Io | BadMagic | UnsupportedVersion | Oversized | UnknownOperation | WrongPayloadSize
  | ZeroToken | InvalidOptionalToken | InvalidTransactionFailure
deriving DecidableEq, Repr

/-! ## Fields -/

/-- `get` of a token. -/
def get {kind : TokenKind} (t : Token kind) : UInt64 := UInt64.ofNat t.raw

/-- `push`: the bytes that it appends. -/
def push {α : Type} [LeBytes α] (field : α) : List UInt8 := toBytes field

def exact (bytes : List UInt8) (expected : ℕ) : Except DecodeError Unit :=
  ensure (bytes.length = expected) .WrongPayloadSize

def read_u64 (bytes : List UInt8) (offset : ℕ) : UInt64 := readAt UInt64 bytes offset

def read_u32 (bytes : List UInt8) (offset : ℕ) : UInt32 := readAt UInt32 bytes offset

def read_i32 (bytes : List UInt8) (offset : ℕ) : Int32 := readAt Int32 bytes offset

/-- `read_exact::<8>`, the only instance. -/
def read_exact (bytes : List UInt8) : Except DecodeError UInt64 := do
  exact bytes 8
  return read_u64 bytes 0

def token {kind : TokenKind} (raw : UInt64) : Except DecodeError (Token kind) :=
  match Token.from_nonzero raw.toNat with
  | some t => .ok t
  | none => .error .ZeroToken

def optional_token {kind : TokenKind} (raw : UInt64) :
    Except DecodeError (Option (Token kind)) :=
  if raw = 0 then .ok none
  else
    match Token.from_nonzero raw.toNat with
    | some t => .ok (some t)
    | none => .error .InvalidOptionalToken

/-! ## Payloads -/

def payload : Message → Operation × List UInt8
  | .OpenConnection => (.OPEN, [])
  | .PublishNode localNode => (.PUBLISH_NODE, push (get localNode))
  | .SetContextManager localNode => (.SET_CONTEXT_MANAGER, push (get localNode))
  | .GetContextManager => (.GET_CONTEXT_MANAGER, [])
  | .RouteTransaction target caller_thread transfer code flags =>
    (.ROUTE_TRANSACTION, push (get target.owner) ++ push (get target.localNode)
      ++ push caller_thread ++ push (get transfer) ++ push code ++ push flags)
  | .CompleteReply call transfer code flags =>
    (.COMPLETE_REPLY, push (get call) ++ push (get transfer) ++ push code ++ push flags)
  | .RequestDeath target cookie =>
    (.REQUEST_DEATH, push (get target.owner) ++ push (get target.localNode) ++ push cookie)
  | .ClearDeath target cookie =>
    (.CLEAR_DEATH, push (get target.owner) ++ push (get target.localNode) ++ push cookie)
  | .CloseConnection => (.CLOSE, [])
  | .ConnectionOpened connection android_uid =>
    (.OPENED, push (get connection) ++ push android_uid)
  | .NodePublished node => (.NODE_PUBLISHED, push (get node.owner) ++ push (get node.localNode))
  | .ContextManagerSet node =>
    (.CONTEXT_MANAGER_SET, push (get node.owner) ++ push (get node.localNode))
  | .ContextManagerFound node =>
    (.CONTEXT_MANAGER_FOUND, push (node.elim (0 : UInt64) fun node => get node.owner)
      ++ push (node.elim (0 : UInt64) fun node => get node.localNode))
  | .RouteAccepted call => (.ROUTE_ACCEPTED, push (call.elim (0 : UInt64) get))
  | .RouteRejected reason =>
    (.ROUTE_REJECTED, push (match reason with
      | .DeadReply => (1 : UInt32)
      | .FailedReply => (2 : UInt32)))
  | .ReplyAccepted call => (.REPLY_ACCEPTED, push (get call))
  | .DeathRequested => (.DEATH_REQUESTED, [])
  | .DeathCleared => (.DEATH_CLEARED, [])
  | .DeliverTransaction call sender sender_pid sender_euid target caller_thread transfer code
      flags =>
    (.DELIVER_TRANSACTION, push (call.elim (0 : UInt64) get) ++ push (get sender)
      ++ push sender_pid ++ push sender_euid ++ push (get target) ++ push caller_thread
      ++ push (get transfer) ++ push code ++ push flags)
  | .DeliverReply call source sender_pid sender_euid target_thread transfer code flags =>
    (.DELIVER_REPLY, push (get call) ++ push (get source) ++ push sender_pid
      ++ push sender_euid ++ push target_thread ++ push (get transfer) ++ push code ++ push flags)
  | .TargetDead call target_thread => (.TARGET_DEAD, push (get call) ++ push target_thread)
  | .CallerDead call => (.CALLER_DEAD, push (get call))
  | .NodeDead cookie => (.NODE_DEAD, push cookie)

/-- The arm of `parse` for an operation. -/
def parse_operation (operation : Operation) (bytes : List UInt8) :
    Except DecodeError Message :=
  match operation with
  | .OPEN => do
    exact bytes 0
    return .OpenConnection
  | .PUBLISH_NODE => do return .PublishNode (← token (← read_exact bytes))
  | .SET_CONTEXT_MANAGER => do return .SetContextManager (← token (← read_exact bytes))
  | .GET_CONTEXT_MANAGER => do
    exact bytes 0
    return .GetContextManager
  | .ROUTE_TRANSACTION => do
    exact bytes 40
    return .RouteTransaction ⟨← token (read_u64 bytes 0), ← token (read_u64 bytes 8)⟩
      (read_u64 bytes 16) (← token (read_u64 bytes 24)) (read_u32 bytes 32) (read_u32 bytes 36)
  | .COMPLETE_REPLY => do
    exact bytes 24
    return .CompleteReply (← token (read_u64 bytes 0)) (← token (read_u64 bytes 8))
      (read_u32 bytes 16) (read_u32 bytes 20)
  | .REQUEST_DEATH => do
    exact bytes 24
    return .RequestDeath ⟨← token (read_u64 bytes 0), ← token (read_u64 bytes 8)⟩
      (read_u64 bytes 16)
  | .CLEAR_DEATH => do
    exact bytes 24
    return .ClearDeath ⟨← token (read_u64 bytes 0), ← token (read_u64 bytes 8)⟩
      (read_u64 bytes 16)
  | .CLOSE => do
    exact bytes 0
    return .CloseConnection
  | .OPENED => do
    exact bytes 12
    return .ConnectionOpened (← token (read_u64 bytes 0)) (read_u32 bytes 8)
  | .NODE_PUBLISHED => do
    exact bytes 16
    return .NodePublished ⟨← token (read_u64 bytes 0), ← token (read_u64 bytes 8)⟩
  | .CONTEXT_MANAGER_SET => do
    exact bytes 16
    return .ContextManagerSet ⟨← token (read_u64 bytes 0), ← token (read_u64 bytes 8)⟩
  | .CONTEXT_MANAGER_FOUND => do
    exact bytes 16
    let owner := read_u64 bytes 0
    let localNode := read_u64 bytes 8
    if owner = 0 ∧ localNode = 0 then return .ContextManagerFound none
    else if owner = 0 ∨ localNode = 0 then throw .InvalidOptionalToken
    else return .ContextManagerFound (some ⟨← token owner, ← token localNode⟩)
  | .ROUTE_ACCEPTED => do return .RouteAccepted (← optional_token (← read_exact bytes))
  | .ROUTE_REJECTED => do
    exact bytes 4
    let reason := read_u32 bytes 0
    if reason = 1 then return .RouteRejected .DeadReply
    else if reason = 2 then return .RouteRejected .FailedReply
    else throw .InvalidTransactionFailure
  | .REPLY_ACCEPTED => do return .ReplyAccepted (← token (← read_exact bytes))
  | .DEATH_REQUESTED => do
    exact bytes 0
    return .DeathRequested
  | .DEATH_CLEARED => do
    exact bytes 0
    return .DeathCleared
  | .DELIVER_TRANSACTION => do
    exact bytes 56
    return .DeliverTransaction (← optional_token (read_u64 bytes 0)) (← token (read_u64 bytes 8))
      (read_i32 bytes 16) (read_u32 bytes 20) (← token (read_u64 bytes 24)) (read_u64 bytes 32)
      (← token (read_u64 bytes 40)) (read_u32 bytes 48) (read_u32 bytes 52)
  | .DELIVER_REPLY => do
    exact bytes 48
    return .DeliverReply (← token (read_u64 bytes 0)) (← token (read_u64 bytes 8))
      (read_i32 bytes 16) (read_u32 bytes 20) (read_u64 bytes 24) (← token (read_u64 bytes 32))
      (read_u32 bytes 40) (read_u32 bytes 44)
  | .TARGET_DEAD => do
    exact bytes 16
    return .TargetDead (← token (read_u64 bytes 0)) (read_u64 bytes 8)
  | .CALLER_DEAD => do return .CallerDead (← token (← read_exact bytes))
  | .NODE_DEAD => do return .NodeDead (← read_exact bytes)

def parse (operation : UInt16) (bytes : List UInt8) : Except DecodeError Message :=
  match Operation.of_code operation with
  | some operation => parse_operation operation bytes
  | none => .error .UnknownOperation

/-! ## The stream -/

/-- `encode`: the bytes that it writes. -/
def encode (message : Message) : List UInt8 :=
  let (operation, payload) := payload message
  MAGIC ++ toBytes VERSION ++ toBytes operation.code ++ toLe 4 payload.length ++ payload

/-- `Read::read_exact`: the bytes read and those that remain. -/
def read_stream (length : ℕ) (input : List UInt8) :
    Except DecodeError (List UInt8 × List UInt8) := do
  ensure (length ≤ input.length) .Io
  return (input.take length, input.drop length)

/-- `decode`: the message and what remains of the stream. -/
def decode (input : List UInt8) : Except DecodeError (Message × List UInt8) := do
  let (header, input) ← read_stream HEADER_BYTES input
  ensure (slice header 0 8 = MAGIC) .BadMagic
  ensure (readAt UInt16 header 8 = VERSION) .UnsupportedVersion
  let operation := readAt UInt16 header 10
  let length := readLe 4 header 12
  ensure (length ≤ MAX_PAYLOAD_BYTES) .Oversized
  let (payload, input) ← read_stream length input
  return (← parse operation payload, input)

/-- A reader that decodes `n` messages, one after the other. -/
def decode_many : ℕ → List UInt8 → Except DecodeError (List Message × List UInt8)
  | 0, input => .ok ([], input)
  | n + 1, input => do
    let (message, input) ← decode input
    let (messages, input) ← decode_many n input
    return (message :: messages, input)

/-! ## Fields are read as they were pushed -/

section Fields

variable {kind : TokenKind}

theorem get_toNat (t : Token kind) : (get t).toNat = t.raw :=
  UInt64.toNat_ofNat_of_lt' t.fits

theorem get_ne_zero (t : Token kind) : get t ≠ 0 := by
  intro h
  apply t.nonzero
  rw [← get_toNat t, h]
  rfl

/-- The tokens of a number are that of which it is the `get`. -/
theorem from_nonzero_eq_some {t : Token kind} :
    Token.from_nonzero raw.toNat = some t ↔ raw = get t := by
  unfold Token.from_nonzero
  constructor
  · intro h
    split at h
    · cases h
      exact UInt64.ofNat_toNat.symm
    · cases h
  · intro h
    subst h
    rw [dif_pos ⟨by rw [get_toNat]; exact t.nonzero, by rw [get_toNat]; exact t.fits⟩]
    exact congrArg some (Token.ext (get_toNat t))

theorem token_eq_ok {t : Token kind} : token raw = .ok t ↔ raw = get t := by
  rw [← from_nonzero_eq_some]
  unfold token
  cases Token.from_nonzero raw.toNat <;> simp

theorem optional_token_eq_ok {t : Option (Token kind)} :
    optional_token raw = .ok t ↔ raw = t.elim 0 get := by
  unfold optional_token
  by_cases hzero : raw = 0
  · rw [if_pos hzero, hzero]
    cases t with
    | none => exact iff_of_true rfl rfl
    | some t => exact iff_of_false (by simp) (get_ne_zero t).symm
  · rw [if_neg hzero]
    cases t with
    | none =>
      refine iff_of_false ?_ hzero
      cases (Token.from_nonzero raw.toNat : Option (Token kind)) <;> simp
    | some t =>
      rw [show (some t).elim 0 get = get t from rfl, ← from_nonzero_eq_some]
      cases (Token.from_nonzero raw.toNat : Option (Token kind)) <;> simp

theorem token_get (t : Token kind) : token (get t) = .ok t := token_eq_ok.mpr rfl

theorem optional_token_elim (t : Option (Token kind)) :
    optional_token (t.elim 0 get) = .ok t :=
  optional_token_eq_ok.mpr rfl

end Fields

section Reads

variable {α : Type} [LeBytes α]

-- `readAt_skip` at the widths of the format, so that a literal offset counts down.
theorem readAt_skip_u64 (x : UInt64) (l : List UInt8) (offset : ℕ) :
    readAt α (push x ++ l) (offset + 8) = readAt α l offset :=
  readAt_skip x l offset

theorem readAt_skip_u32 (x : UInt32) (l : List UInt8) (offset : ℕ) :
    readAt α (push x ++ l) (offset + 4) = readAt α l offset :=
  readAt_skip x l offset

theorem readAt_skip_i32 (x : Int32) (l : List UInt8) (offset : ℕ) :
    readAt α (push x ++ l) (offset + 4) = readAt α l offset :=
  readAt_skip x l offset

theorem readAt_push (x : α) (l : List UInt8) : readAt α (push x ++ l) 0 = x :=
  readAt_toBytes x l

theorem readAt_push_end (x : α) : readAt α (push x) 0 = x := readAt_toBytes_end x

end Reads

theorem length_push_u64 (x : UInt64) : (push x).length = 8 := length_toBytes x

theorem length_push_u32 (x : UInt32) : (push x).length = 4 := length_toBytes x

theorem length_push_i32 (x : Int32) : (push x).length = 4 := length_toBytes x

theorem push_read_u64 (h : offset + 8 ≤ l.length) :
    push (read_u64 l offset) = slice l offset (offset + 8) :=
  toBytes_readAt h

theorem push_read_u32 (h : offset + 4 ≤ l.length) :
    push (read_u32 l offset) = slice l offset (offset + 4) :=
  toBytes_readAt h

theorem push_read_i32 (h : offset + 4 ≤ l.length) :
    push (read_i32 l offset) = slice l offset (offset + 4) :=
  toBytes_readAt h

/-- The two numbers of a node. -/
theorem push_read_node (h : l.length = 16) :
    push (read_u64 l 0) ++ push (read_u64 l 8) = l := by
  rw [push_read_u64 (by omega), push_read_u64 (by omega), slice_append_slice l (by omega)
    (by omega), slice_all h]

theorem exact_eq_ok {expected : ℕ} {u : Unit} :
    exact bytes expected = .ok u ↔ bytes.length = expected :=
  ensure_eq_ok

theorem exact_of {expected : ℕ} (h : bytes.length = expected) :
    exact bytes expected = .ok () :=
  ensure_of _ h

theorem read_exact_eq_ok {x : UInt64} :
    read_exact bytes = .ok x ↔ bytes.length = 8 ∧ read_u64 bytes 0 = x := by
  unfold read_exact
  rw [bind_eq_ok]
  constructor
  · rintro ⟨_, hlen, hx⟩
    exact ⟨exact_eq_ok.mp hlen, Except.ok.inj hx⟩
  · rintro ⟨hlen, rfl⟩
    exact ⟨(), exact_eq_ok.mpr hlen, rfl⟩

theorem read_exact_push (x : UInt64) : read_exact (push x) = .ok x :=
  read_exact_eq_ok.mpr ⟨length_push_u64 x, readAt_push_end x⟩

/-! ## Payloads are parsed as they were written -/

/-- What `parse` makes of the payload of a message is the message. Each field is read behind the
fields pushed before it, which the offset counts. -/
theorem parse_payload (m : Message) : parse_operation (payload m).1 (payload m).2 = .ok m := by
  have hnode (node : NodeToken) : get node.owner ≠ 0 ∧ get node.localNode ≠ 0 :=
    ⟨get_ne_zero _, get_ne_zero _⟩
  cases m
  case ContextManagerFound node =>
    cases node with
    | none => rfl
    | some node =>
      simp only [payload, parse_operation, Option.elim_some, exact_of, read_u64, readAt_skip_u64,
        readAt_push, readAt_push_end, List.length_append, length_push_u64, ok_bind, token_get,
        hnode node, false_and, or_self, if_false]
      rfl
  case RouteRejected reason => cases reason <;> rfl
  all_goals
    simp only [payload, parse_operation, exact_of, read_exact_push, token_get,
      optional_token_elim, read_u64, read_u32, read_i32, List.append_assoc,
      readAt_skip_u64, readAt_skip_u32, readAt_skip_i32, readAt_push, readAt_push_end,
      List.length_append, List.length_nil, length_push_u64, length_push_u32, length_push_i32,
      ok_bind]
    rfl

/-- A payload that `parse` accepts is that of the message it makes of it. -/
theorem payload_of_parse
    (h : parse_operation operation bytes = .ok m) : payload m = (operation, bytes) := by
  cases operation <;>
    simp only [parse_operation, bind_eq_ok, exact_eq_ok, read_exact_eq_ok,
      token_eq_ok, optional_token_eq_ok] at h
  -- no fields
  case OPEN | GET_CONTEXT_MANAGER | CLOSE | DEATH_REQUESTED | DEATH_CLEARED =>
    obtain ⟨_, hlen, hm⟩ := h
    rw [← Except.ok.inj hm, List.eq_nil_of_length_eq_zero hlen]
    rfl
  -- one number
  case PUBLISH_NODE | SET_CONTEXT_MANAGER | REPLY_ACCEPTED | CALLER_DEAD | ROUTE_ACCEPTED =>
    obtain ⟨_, ⟨hlen, rfl⟩, t, ht, hm⟩ := h
    rw [← Except.ok.inj hm, payload, ← ht, push_read_u64 hlen.ge, slice_all hlen]
  case NODE_DEAD =>
    obtain ⟨_, ⟨hlen, rfl⟩, hm⟩ := h
    rw [← Except.ok.inj hm, payload, push_read_u64 hlen.ge, slice_all hlen]
  case ROUTE_REJECTED =>
    obtain ⟨_, hlen, h⟩ := h
    have hbytes : push (read_u32 bytes 0) = bytes := by
      rw [push_read_u32 hlen.ge, slice_all hlen]
    split at h
    · rw [← Except.ok.inj h, ← hbytes, ‹read_u32 bytes 0 = 1›]
      rfl
    · split at h
      · rw [← Except.ok.inj h, ← hbytes, ‹read_u32 bytes 0 = 2›]
        rfl
      · cases h
  -- a node
  case NODE_PUBLISHED | CONTEXT_MANAGER_SET =>
    obtain ⟨_, hlen, owner, howner, localNode, hlocal, hm⟩ := h
    rw [← Except.ok.inj hm, payload, ← howner, ← hlocal, push_read_node hlen]
  case CONTEXT_MANAGER_FOUND =>
    obtain ⟨_, hlen, h⟩ := h
    split at h
    · rename_i hzero
      rw [← Except.ok.inj h, ← push_read_node hlen, hzero.1, hzero.2]
      rfl
    · split at h
      · cases h
      · simp only [bind_eq_ok, token_eq_ok] at h
        obtain ⟨owner, howner, localNode, hlocal, hm⟩ := h
        rw [← Except.ok.inj hm, payload, Option.elim_some, Option.elim_some, ← howner, ← hlocal,
          push_read_node hlen]
  -- the rest, field by field
  case' REQUEST_DEATH | CLEAR_DEATH =>
    obtain ⟨_, hlen, owner, howner, localNode, hlocal, hm⟩ := h
    rw [← Except.ok.inj hm, payload, ← howner, ← hlocal]
  case' TARGET_DEAD =>
    obtain ⟨_, hlen, call, hcall, hm⟩ := h
    rw [← Except.ok.inj hm, payload, ← hcall]
  case' OPENED =>
    obtain ⟨_, hlen, _, hconnection, hm⟩ := h
    rw [← Except.ok.inj hm, payload, ← hconnection]
  case' COMPLETE_REPLY =>
    obtain ⟨_, hlen, call, hcall, transfer, htransfer, hm⟩ := h
    rw [← Except.ok.inj hm, payload, ← hcall, ← htransfer]
  case' ROUTE_TRANSACTION =>
    obtain ⟨_, hlen, owner, howner, localNode, hlocal, transfer, htransfer, hm⟩ := h
    rw [← Except.ok.inj hm, payload, ← howner, ← hlocal, ← htransfer]
  case' DELIVER_REPLY =>
    obtain ⟨_, hlen, call, hcall, _, hsource, transfer, htransfer, hm⟩ := h
    rw [← Except.ok.inj hm, payload, ← hcall, ← hsource, ← htransfer]
  case' DELIVER_TRANSACTION =>
    obtain ⟨_, hlen, call, hcall, _, hsender, _, htarget, transfer, htransfer, hm⟩ := h
    rw [← Except.ok.inj hm, payload, ← hcall, ← hsender, ← htarget, ← htransfer]
  all_goals
    simp (disch := omega) only [push_read_u64, push_read_u32, push_read_i32, slice_append_slice,
      slice_all]

/-- No payload is longer than the reader's buffer. -/
theorem length_payload (m : Message) : (payload m).2.length ≤ MAX_PAYLOAD_BYTES := by
  cases m <;>
    simp [payload, MAX_PAYLOAD_BYTES, length_push_u64, length_push_u32, length_push_i32]

/-! ## The stream is decoded as it was encoded -/

theorem parse_eq_ok {code : UInt16} :
    parse code bytes = .ok m ↔ (payload m).1.code = code ∧ (payload m).2 = bytes := by
  unfold parse
  constructor
  · intro h
    split at h
    · rw [payload_of_parse h]
      exact ⟨Operation.code_of_code ‹_›, rfl⟩
    · cases h
  · rintro ⟨rfl, rfl⟩
    rw [Operation.of_code_code]
    exact parse_payload m

theorem read_stream_append {n : ℕ} {p : List UInt8} (rest : List UInt8) (h : p.length = n) :
    read_stream n (p ++ rest) = .ok (p, rest) := by
  unfold read_stream
  rw [ensure_of _ (by rw [List.length_append]; omega), ok_bind, List.take_left' h,
    List.drop_left' h]
  rfl

theorem read_stream_eq_ok {n : ℕ} {input p rest : List UInt8}
    (h : read_stream n input = .ok (p, rest)) : input = p ++ rest ∧ p.length = n := by
  unfold read_stream at h
  obtain ⟨_, hlen, h⟩ := bind_eq_ok.mp h
  have hlen := ensure_eq_ok.mp hlen
  injection Except.ok.inj h with hp hrest
  subst hp hrest
  exact ⟨(List.take_append_drop n input).symm, by rw [List.length_take]; omega⟩

/-- The header of a message. -/
def header (operation : Operation) (length : ℕ) : List UInt8 :=
  MAGIC ++ (toBytes VERSION ++ (toBytes operation.code ++ toLe 4 length))

theorem encode_eq (m : Message) :
    encode m = header (payload m).1 (payload m).2.length ++ (payload m).2 := by
  simp only [encode, header, List.append_assoc]

theorem length_header (operation : Operation) (length : ℕ) :
    (header operation length).length = HEADER_BYTES := by
  simp only [header, List.length_append, length_toBytes, length_toLe]
  rfl

/-- What stands in a header. -/
theorem header_fields (operation : Operation) {length : ℕ} (h : length ≤ MAX_PAYLOAD_BYTES) :
    slice (header operation length) 0 8 = MAGIC ∧
    readAt UInt16 (header operation length) 8 = VERSION ∧
    readAt UInt16 (header operation length) 10 = operation.code ∧
    readLe 4 (header operation length) 12 = length := by
  have hlength : length < 256 ^ 4 := lt_of_le_of_lt h (by decide)
  refine ⟨slice_first _ rfl, ?_, ?_, ?_⟩
  · exact (readAt_append_right MAGIC _ 0).trans (readAt_toBytes _ _)
  · refine (readAt_append_right MAGIC _ 2).trans ?_
    exact (readAt_skip VERSION _ 0).trans (readAt_toBytes _ _)
  · refine (readLe_append_right 4 MAGIC _ 4).trans ?_
    refine (readLe_skip 4 2 _ _ 2).trans ?_
    refine (readLe_skip 4 2 _ _ 0).trans ?_
    rw [← List.append_nil (toLe 4 length), readLe_toLe [] hlength]

/-- A header with such fields is the header. -/
theorem header_of_fields (hlen : bytes.length = HEADER_BYTES) (hmagic : slice bytes 0 8 = MAGIC)
    (hversion : readAt UInt16 bytes 8 = VERSION)
    (hoperation : readAt UInt16 bytes 10 = operation.code) :
    bytes = header operation (readLe 4 bytes 12) := by
  have hlen : bytes.length = 16 := hlen
  have h8 : toBytes VERSION = slice bytes 8 10 := by
    rw [← hversion]
    exact toBytes_readAt (hlen ▸ by decide)
  have h10 : toBytes operation.code = slice bytes 10 12 := by
    rw [← hoperation]
    exact toBytes_readAt (hlen ▸ by decide)
  have h12 : toLe 4 (readLe 4 bytes 12) = slice bytes 12 16 := toLe_readLe hlen.ge
  rw [header, ← hmagic, h8, h10, h12]
  simp (disch := omega) only [slice_append_slice, slice_all]

/-- Decoding an encoded message gives the message and leaves what stood behind it. -/
theorem decode_encode (m : Message) (rest : List UInt8) :
    decode (encode m ++ rest) = .ok (m, rest) := by
  have hlen := length_payload m
  obtain ⟨hmagic, hversion, hoperation, hlength⟩ := header_fields (payload m).1 hlen
  have hheader := length_header (payload m).1 (payload m).2.length
  simp only [decode, encode_eq, List.append_assoc, read_stream_append _ hheader, ok_bind]
  rw [ensure_of _ hmagic, ensure_of _ hversion, hoperation, hlength, ensure_of _ hlen, ok_bind,
    ok_bind, ok_bind, read_stream_append _ rfl, ok_bind]
  dsimp only
  rw [parse_eq_ok.mpr ⟨rfl, rfl⟩, ok_bind]
  rfl

/-- What was consumed to decode a message is its encoding. -/
theorem encode_of_decode {input rest : List UInt8}
    (h : decode input = .ok (m, rest)) : input = encode m ++ rest := by
  unfold decode at h
  obtain ⟨⟨_, _⟩, hread, h⟩ := bind_eq_ok.mp h
  obtain ⟨hinput, hlen⟩ := read_stream_eq_ok hread
  obtain ⟨_, hmagic, h⟩ := bind_eq_ok.mp h
  obtain ⟨_, hversion, h⟩ := bind_eq_ok.mp h
  obtain ⟨_, _, h⟩ := bind_eq_ok.mp h
  obtain ⟨⟨_, _⟩, hread, h⟩ := bind_eq_ok.mp h
  obtain ⟨hinput', hbody⟩ := read_stream_eq_ok hread
  obtain ⟨_, hparse, h⟩ := bind_eq_ok.mp h
  obtain ⟨rfl, rfl⟩ := Prod.mk.inj (Except.ok.inj h)
  obtain ⟨hoperation, hpayload⟩ := parse_eq_ok.mp hparse
  have hheader := header_of_fields hlen (ensure_eq_ok.mp hmagic) (ensure_eq_ok.mp hversion)
    hoperation.symm
  rw [hinput, hinput', encode_eq, hpayload, hbody, ← hheader, List.append_assoc]

theorem decode_many_encode (ms : List Message) (rest : List UInt8) :
    decode_many ms.length (ms.flatMap encode ++ rest) = .ok (ms, rest) := by
  induction ms with
  | nil => rfl
  | cons _ _ ih =>
    rw [List.length_cons, decode_many, List.flatMap_cons, List.append_assoc, decode_encode,
      ok_bind]
    dsimp only
    rw [ih, ok_bind]
    rfl

/-- The codec is a bijection between the messages and the strings it accepts. An encoded message
decodes to itself wherever it stands in a stream and nothing behind it is consumed; so encoded
messages in a row decode to the same messages in that order; and whatever is decoded was
consumed as its encoding. -/
theorem codec_bijective :
    (∀ (m : Message) (rest : List UInt8), decode (encode m ++ rest) = .ok (m, rest)) ∧
    (∀ (ms : List Message) (rest : List UInt8),
      decode_many ms.length (ms.flatMap encode ++ rest) = .ok (ms, rest)) ∧
    (∀ (input rest : List UInt8) (m : Message),
      decode input = .ok (m, rest) → input = encode m ++ rest) :=
  ⟨decode_encode, decode_many_encode, fun _ _ _ => encode_of_decode⟩

end DarwinArt.Binder.AuthorityCodec
