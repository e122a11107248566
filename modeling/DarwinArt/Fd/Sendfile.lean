/-
`darwin_art_fd_broker_sendfile`: a copy in chunks from a file to a file or a socket.

A round reads a chunk, by which the input moves on, and writes it. A write that takes less than the
chunk ends the copy with the bytes that were written, and the rest of the chunk stays read: the
input has moved further than was reported. A round that fails makes the result `-1`, also when
rounds before it have written.

The leases on the two descriptors are arguments. A provider is what its calls answer, round by
round.
-/
import DarwinArt.Lib.Fallible

set_option autoImplicit false

namespace DarwinArt.Fd.Sendfile

open Lib

inductive Status
  | INVALID_ARGUMENT
  | STALE
  | WRONG_KIND
  | UNSUPPORTED
deriving DecidableEq

inductive Kind
  | FS_FILE
  | FS_RANDOM
  | STDIO
  | SOCKET
  | EPOLL
  | PIPE
  | BINDER
deriving DecidableEq

/-- What a lease gives: the description, and whether its owner can be called. -/
structure Lease where
  description : ℕ
  kind : Kind
  callable : Bool

def kCopyChunk : ℕ := 4096

/-- `static_cast<size_t>(-1)`. -/
def FAILED : ℕ := 2 ^ 64 - 1

/-- The answers of the providers in each round, with `*error` after the call: of a read to the size
of the buffer, of a write to the size of what it is given. An answer beyond that is refused, and
counts as one that moved nothing. -/
structure Calls where
  read : ℕ → ℕ → ℤ × ℕ
  write : ℕ → ℕ → ℤ × ℕ

/-- The input's offset, what the output has received, the variables of the loop, and its rounds. -/
structure Progress where
  offset : ℕ
  output : List UInt8
  transferred : ℕ
  error : ℕ
  rounds : ℕ
deriving DecidableEq

def Progress.fail (s : Progress) (error : ℕ) : Progress :=
  { s with transferred := FAILED, error := error }

/-- The bytes of the input from an offset on. -/
def bytes (input : ℕ → UInt8) (start n : ℕ) : List UInt8 := (List.range' start n).map input

/-- A write of what was read: `w` of the `given` bytes are accepted. -/
def Progress.write (s : Progress) (input : ℕ → UInt8) (given : ℕ) (w : ℤ) : Progress where
  offset := s.offset + given
  output := s.output ++ bytes input s.offset w.toNat
  transferred := s.transferred + w.toNat
  error := s.error
  rounds := s.rounds + 1

/-- The loop. -/
def copy (calls : Calls) (callable : Bool) (input : ℕ → UInt8) (count : ℕ) (s : Progress) : Progress :=
  if s.transferred < count then
    let requested := min kCopyChunk (count - s.transferred)
    let r := calls.read s.rounds requested
    let given := r.1.toNat
    let w := calls.write s.rounds given
    if callable = false then s.fail 9
    else if r.1 > requested then s.fail 5
    else if r.1 < 0 then s.fail r.2
    else if r.1 = 0 then s
    else if w.1 > r.1 then (s.write input given (-1)).fail 5
    else if w.1 < 0 then (s.write input given w.1).fail w.2
    else if w.1 < r.1 then s.write input given w.1
    else copy calls callable input count (s.write input given w.1)
  else s
termination_by count - s.transferred
decreasing_by
  show count - (s.transferred + w.1.toNat) < count - s.transferred
  omega

/-- `SetResult` of what the loop leaves. -/
def Progress.value (s : Progress) : ℤ :=
  if s.transferred = FAILED then -1
  else if s.transferred < 2 ^ 63 then s.transferred else s.transferred - 2 ^ 64

def sendfile (out_lease in_lease : Except Status Lease) (calls : Calls) (input : ℕ → UInt8)
    (offset : ℕ) (output : List UInt8) (count : UInt64) : Except Status Progress := do
  let source ← in_lease
  let target ← out_lease
  ensure (target.kind = .FS_FILE ∨ target.kind = .SOCKET) .WRONG_KIND
  ensure (source.description ≠ target.description) .UNSUPPORTED
  return copy calls (source.callable && target.callable) input count.toNat ⟨offset, output, 0, 0, 0⟩

/-! ## The copy -/

/-- From round `i` on, with `t` bytes copied: the first round that does not write all it has read is
at the end of the file, or it is the first of all, and a provider fails or answers more than it was
asked. -/
def Calls.Even (calls : Calls) (count i t : ℕ) : Prop :=
  t < count →
    let n := min kCopyChunk (count - t)
    let r := (calls.read i n).1
    let w := (calls.write i r.toNat).1
    if 0 < r ∧ r ≤ n ∧ w = r then calls.Even count (i + 1) (t + r.toNat)
    else r = 0 ∨ i = 0 ∧ (r < 0 ∨ n < r ∨ w < 0 ∨ r < w)
termination_by count - t
decreasing_by
  show count - (t + r.toNat) < count - t
  omega

/-- What is reported stands in the output. -/
def Progress.Reports (input : ℕ → UInt8) (start : ℕ) (output : List UInt8) (s : Progress) : Prop :=
  0 ≤ s.value → s.output = output ++ bytes input start s.value.toNat

/-- The input has moved by what is reported, and `-1` is reported only where nothing was written. -/
def Progress.Exact (start : ℕ) (output : List UInt8) (s : Progress) : Prop :=
  (0 ≤ s.value → s.offset = start + s.value.toNat) ∧ (s.value = -1 → s.output = output)

/-- What holds whenever the loop goes on: what was read stands in the output. -/
structure Copied (callable : Bool) (input : ℕ → UInt8) (start : ℕ) (output : List UInt8)
    (s : Progress) : Prop where
  output : s.output = output ++ bytes input start s.transferred
  offset : s.offset = start + s.transferred
  first : s.rounds = 0 ↔ s.transferred = 0
  called : callable = false → s.rounds = 0

section Copy

variable {calls : Calls} {callable : Bool} {input : ℕ → UInt8} {start count : ℕ}
  {output : List UInt8} {s : Progress}

theorem Progress.value_fail (error : ℕ) : (s.fail error).value = -1 := if_pos rfl

theorem Progress.transferred_of_value (hbound : s.transferred < 2 ^ 64) (h : 0 ≤ s.value) :
    s.value.toNat = s.transferred := by
  unfold Progress.value at h ⊢
  split_ifs at h ⊢ <;> omega

theorem Progress.reports_fail (error : ℕ) : (s.fail error).Reports input start output := by
  intro hnonneg
  rw [Progress.value_fail] at hnonneg
  omega

theorem Progress.value_nonneg (h : s.transferred < 2 ^ 63) : 0 ≤ s.value := by
  unfold Progress.value FAILED
  split_ifs <;> omega

/-- A failure is exact just in the first round. -/
theorem Copied.exact_fail_iff {t : Progress} (h : Copied callable input start output s)
    (ht : t.output = s.output) (error : ℕ) : (t.fail error).Exact start output ↔ s.rounds = 0 := by
  have hwritten : (t.fail error).output = output ↔ s.transferred = 0 := by
    show t.output = output ↔ _
    rw [ht, h.output]
    simp [bytes]
  rw [Progress.Exact, Progress.value_fail, hwritten, h.first]
  simp

section

variable (h : Copied callable input start output s) (hle : s.transferred ≤ count)
include h

/-- A write, of whatever length. -/
theorem Copied.write_output (given : ℕ) (w : ℤ) : (s.write input given w).output =
    output ++ bytes input start (s.write input given w).transferred := by
  simp only [Progress.write]
  rw [h.output, h.offset, List.append_assoc, bytes, bytes, bytes, ← List.map_append,
    List.range'_append_1]

include hle

theorem Copied.reports (hcount : count < 2 ^ 64) : s.Reports input start output := by
  intro hnonneg
  rw [Progress.transferred_of_value (hle.trans_lt hcount) hnonneg]
  exact h.output

theorem Copied.exact (hcount : count < FAILED) : s.Exact start output := by
  unfold FAILED at hcount
  refine ⟨fun hnonneg => ?_, fun hfailed => ?_⟩
  · rw [Progress.transferred_of_value (by omega) hnonneg]
    exact h.offset
  · unfold Progress.value FAILED at hfailed
    split_ifs at hfailed <;> omega

end

/-- The result of the loop from round `i` on, with `t` bytes copied: it is exact just where the
answers are even. -/
structure Progress.Right (calls : Calls) (callable : Bool) (input : ℕ → UInt8) (start count : ℕ)
    (output : List UInt8) (i t : ℕ) (s : Progress) : Prop where
  reports : s.Reports input start output
  exact : count < FAILED → (callable = true → calls.Even count i t) → s.Exact start output
  even : count < 2 ^ 63 → s.Exact start output → callable = true → calls.Even count i t

/-- A failure, which the answers of the round tell. -/
theorem Copied.fail_right {t : Progress} (h : Copied callable input start output s)
    (ht : t.output = s.output) (error : ℕ)
    (hiff : callable = true → (calls.Even count s.rounds s.transferred ↔ s.rounds = 0)) :
    (t.fail error).Right calls callable input start count output s.rounds s.transferred := by
  have hfirst : (callable = true → calls.Even count s.rounds s.transferred) ↔ s.rounds = 0 := by
    cases callable with
    | false => simpa using h.called rfl
    | true => simpa using hiff rfl
  have hexact := h.exact_fail_iff ht error
  exact ⟨Progress.reports_fail error, fun _ heven => hexact.mpr (hfirst.mp heven),
    fun _ hyes => hfirst.mpr (hexact.mp hyes)⟩

/-- **The loop.** It goes on only after rounds that wrote all they had read. -/
theorem Copied.run (h : Copied callable input start output s) (hle : s.transferred ≤ count)
    (hcount : count < 2 ^ 64) :
    (copy calls callable input count s).Right calls callable input start count output s.rounds
      s.transferred := by
  induction hsteps : count - s.transferred using Nat.strong_induction_on generalizing s with
  | _ _ ih =>
  rw [copy]
  by_cases hlt : s.transferred < count
  swap
  · rw [if_neg hlt]
    refine ⟨h.reports hle hcount, fun hbound _ => h.exact hle hbound, fun _ _ _ => ?_⟩
    rw [Calls.Even]
    exact fun hlt' => absurd hlt' hlt
  have heven := iff_of_eq (Calls.Even.eq_def calls count s.rounds s.transferred)
  simp only [hlt, true_implies] at heven
  have hasked : min kCopyChunk (count - s.transferred) ≤ count - s.transferred := min_le_right _ _
  rw [if_pos hlt]
  dsimp only
  generalize min kCopyChunk (count - s.transferred) = n at heven hasked ⊢
  generalize calls.read s.rounds n = r at heven ⊢
  generalize calls.write s.rounds r.1.toNat = w at heven ⊢
  split_ifs with hnot hmore hneg hzero hover hrefused hshort
  · exact h.fail_right rfl 9 fun hcallable => absurd (hcallable.symm.trans hnot) (by decide)
  · refine h.fail_right rfl 5 fun _ => ?_
    rw [heven, if_neg (by omega)]
    omega
  · refine h.fail_right rfl r.2 fun _ => ?_
    rw [heven, if_neg (by omega)]
    omega
  · refine ⟨h.reports hle hcount, fun hbound _ => h.exact hle hbound, fun _ _ _ => ?_⟩
    rw [heven, if_neg (by omega)]
    exact .inl hzero
  · refine h.fail_right (List.append_nil s.output) 5 fun _ => ?_
    rw [heven, if_neg (by omega)]
    omega
  · refine h.fail_right ?_ w.2 fun _ => ?_
    · simp [Progress.write, bytes, Int.toNat_of_nonpos (Int.le_of_lt hrefused)]
    · rw [heven, if_neg (by omega)]
      omega
  · -- a write that takes less than was read
    have hbound : (s.write input r.1.toNat w.1).transferred < count := by
      simp only [Progress.write]
      omega
    refine ⟨fun hnonneg => ?_, fun _ hyes => ?_, fun hsmall hexact => ?_⟩
    · rw [Progress.transferred_of_value (hbound.trans hcount) hnonneg]
      exact h.write_output r.1.toNat w.1
    · have hno := heven.mp (hyes (Bool.eq_true_of_not_eq_false hnot))
      rw [if_neg (by omega)] at hno
      omega
    · have hnonneg := Progress.value_nonneg (hbound.trans hsmall)
      have hoffset : s.offset + r.1.toNat = _ := hexact.1 hnonneg
      rw [Progress.transferred_of_value (hbound.trans hcount) hnonneg, h.offset] at hoffset
      simp only [Progress.write] at hoffset
      omega
  · -- all is written: the next round
    have hw : w.1 = r.1 := by omega
    rw [if_pos (by omega), ← hw] at heven
    have hnext := ih _ (by simp only [Progress.write]; omega) (s := s.write input r.1.toNat w.1)
      ⟨h.write_output r.1.toNat w.1, ?_, ?_, fun hnot' => absurd hnot' hnot⟩ ?_ rfl
    · exact ⟨hnext.reports, fun hbound hyes => hnext.exact hbound fun hc => heven.mp (hyes hc),
        fun hbound hexact hc => heven.mpr (hnext.even hbound hexact hc)⟩
    · show s.offset + r.1.toNat = start + (s.transferred + w.1.toNat)
      have := h.offset
      omega
    · simp only [Progress.write]
      omega
    · show s.transferred + w.1.toNat ≤ count
      omega

end Copy

/-- **What `sendfile` reports.** The output has received the bytes it reports, in order. The input
has moved by exactly these, and `-1` is reported only where nothing was written, if the answers of
the providers are even; and for a count that a result can report, only if they are. -/
theorem sendfile_exact_iff {source target : Lease} {calls : Calls} {input : ℕ → UInt8} {start : ℕ}
    {count : UInt64} {output : List UInt8} {s : Progress}
    (h : sendfile (.ok target) (.ok source) calls input start output count = .ok s) :
    s.Right calls (source.callable && target.callable) input start count.toNat output 0 0 := by
  simp only [sendfile, bind_eq_ok, pure_eq_ok] at h
  obtain ⟨_, hsource, _, htarget, -, -, -, -, rfl⟩ := h
  cases hsource
  cases htarget
  have hstart : Copied (source.callable && target.callable) input start output
      ⟨start, output, 0, 0, 0⟩ := ⟨by simp [bytes], rfl, Iff.rfl, fun _ => rfl⟩
  exact hstart.run (Nat.zero_le _) count.toNat_lt

/-- Two bytes of a file for a socket. -/
def send_two (calls : Calls) : Except Status Progress :=
  sendfile (.ok ⟨2, .SOCKET, true⟩) (.ok ⟨1, .FS_FILE, true⟩) calls (fun _ => 7) 0 [] 2

theorem send_two_exact : ∃ s, send_two ⟨fun _ n => (n, 0), fun _ n => (n, 0)⟩ = .ok s ∧
    s.value = 2 ∧ s.output = [7, 7] ∧ s.offset = 2 := by
  have hresult : send_two ⟨fun _ n => (n, 0), fun _ n => (n, 0)⟩ = .ok ⟨2, [7, 7], 2, 0, 1⟩ := by
    decide +kernel
  have heven : Calls.Even ⟨fun _ n => (n, 0), fun _ n => (n, 0)⟩ 2 0 0 := by
    rw [Calls.Even]
    intro _
    dsimp only
    rw [if_pos (by decide), Calls.Even]
    exact fun hlt => absurd hlt (by decide)
  have hright := sendfile_exact_iff hresult
  exact ⟨_, hresult, rfl, hright.reports (by decide),
    (hright.exact (by decide) fun _ => heven).1 (by decide)⟩

/-- A write takes one byte of two, and the file has moved by two. A read fails after a byte was
written, and the byte is not reported. -/
theorem send_two_inexact :
    (∃ s, send_two ⟨fun _ n => (n, 0), fun _ _ => (1, 0)⟩ = .ok s ∧ s.value = 1 ∧ s.offset = 2) ∧
    ∃ s, send_two ⟨fun i _ => if i = 0 then (1, 0) else (-1, 5), fun _ n => (n, 0)⟩ = .ok s ∧
      s.value = -1 ∧ s.output = [7] := by
  refine ⟨⟨⟨2, [7], 1, 0, 1⟩, ?_, rfl, rfl⟩, ⟨⟨1, [7], FAILED, 5, 1⟩, ?_, rfl, rfl⟩⟩
  · decide +kernel
  · decide +kernel

end DarwinArt.Fd.Sendfile
