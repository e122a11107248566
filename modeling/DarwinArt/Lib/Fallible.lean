/-
Computations that can fail.

A function of a fallible language is a chain of steps in `Except`. What is proved about such a
chain is proved by taking it apart: a chain that succeeds is a chain whose every step did
(`bind_eq_ok`), and a check that succeeds is a condition that holds (`ensure_eq_ok`).

A step may also panic, by indexing outside what it indexes. `Fault` tells a panic from a
reported error, `indexRange` is the indexing, and `Safe` says that a computation does not
panic; `Safe.bind` composes it.
-/
import DarwinArt.Lib.Bytes

set_option autoImplicit false

namespace DarwinArt.Lib

universe u v

variable {ε : Type u} {α β : Type v}

/-- A condition without which the computation fails. -/
def ensure (p : Prop) [Decidable p] (error : ε) : Except ε Unit :=
  if p then .ok () else .error error

theorem ensure_eq_ok {p : Prop} [Decidable p] {error : ε} {u : Unit} :
    ensure p error = .ok u ↔ p := by
  unfold ensure
  by_cases hp : p
  · rw [if_pos hp]
    exact iff_of_true rfl hp
  · rw [if_neg hp]
    exact iff_of_false (by simp) hp

theorem ensure_of {p : Prop} [Decidable p] (error : ε) (h : p) : ensure p error = .ok () :=
  if_pos h

/-- A chain succeeds exactly when its first step and the rest do. -/
theorem bind_eq_ok {x : Except ε α} {f : α → Except ε β} {b : β} :
    x >>= f = .ok b ↔ ∃ a, x = .ok a ∧ f a = .ok b := by
  cases x with
  | error =>
    constructor
    · intro h
      exact nomatch h
    · rintro ⟨_, hx, _⟩
      exact nomatch hx
  | ok a =>
    constructor
    · intro h
      exact ⟨a, rfl, h⟩
    · rintro ⟨_, hx, h⟩
      rwa [← Except.ok.inj hx] at h

/-- A chain fails with an error only where a step does. -/
theorem bind_ne_error {x : Except ε α} {f : α → Except ε β} {e : ε} (hx : x ≠ .error e)
    (hf : ∀ a, x = .ok a → f a ≠ .error e) : x >>= f ≠ .error e := by
  cases x with
  | error =>
    intro h
    injection h with h
    exact hx (congrArg Except.error h)
  | ok a => exact hf a rfl

theorem pure_eq_ok {a b : α} : (pure a : Except ε α) = .ok b ↔ a = b := by
  exact ⟨Except.ok.inj, congrArg Except.ok⟩

@[simp] theorem ok_bind (a : α) (f : α → Except ε β) : (Except.ok a >>= f) = f a := rfl

/-- `ok_or`. -/
def okOr (x : Option α) (error : ε) : Except ε α :=
  match x with
  | some a => .ok a
  | none => .error error

theorem okOr_eq_ok {x : Option α} {error : ε} {a : α} :
    okOr x error = .ok a ↔ x = some a := by
  cases x <;> simp [okOr]

theorem mapError_eq_ok {δ : Type u} {x : Except ε α} {f : ε → δ} {a : α} :
    x.mapError f = .ok a ↔ x = .ok a := by
  cases x <;> simp [Except.mapError]

/-! ## Panics -/

/-- How a computation fails. -/
inductive Fault (ε : Type u)
  | Panic
  | Fail (error : ε)
deriving DecidableEq

/-- The same failure under another error type. -/
def Fault.map {δ : Type u} (f : ε → δ) : Fault ε → Fault δ
  | Panic => Panic
  | Fail error => Fail (f error)

/-- A computation that does not panic. -/
def Safe (x : Except (Fault ε) α) : Prop := x ≠ .error .Panic

theorem Safe.ok (a : α) : Safe (.ok a : Except (Fault ε) α) := by
  intro h
  exact nomatch h

theorem Safe.of_ok {x : Except (Fault ε) α} {a : α} (h : x = .ok a) : Safe x := by
  rw [h]
  exact Safe.ok a

theorem Safe.ensure (p : Prop) [Decidable p] (error : ε) :
    Safe (Lib.ensure p (Fault.Fail error)) := by
  unfold Lib.ensure
  by_cases hp : p
  · rw [if_pos hp]
    exact Safe.ok ()
  · rw [if_neg hp]
    intro h
    exact nomatch h

theorem Safe.okOr (x : Option α) (error : ε) : Safe (Lib.okOr x (Fault.Fail error)) := by
  cases x with
  | none =>
    intro h
    exact nomatch h
  | some a => exact Safe.ok a

theorem Safe.bind {x : Except (Fault ε) α} {f : α → Except (Fault ε) β} (hx : Safe x)
    (hf : ∀ a, x = .ok a → Safe (f a)) : Safe (x >>= f) :=
  bind_ne_error hx hf

theorem Safe.ensure_bind {p : Prop} [Decidable p] {error : ε} {γ : Type}
    {f : Unit → Except (Fault ε) γ} (hf : p → Safe (f ())) :
    Safe (Lib.ensure p (Fault.Fail error) >>= f) :=
  Safe.bind (Safe.ensure p error) fun _ hp => hf (ensure_eq_ok.mp hp)

theorem Safe.okOr_bind {x : Option α} {error : ε} {f : α → Except (Fault ε) β}
    (hf : ∀ a, x = some a → Safe (f a)) : Safe (Lib.okOr x (Fault.Fail error) >>= f) :=
  Safe.bind (Safe.okOr x error) fun a ha => hf a (okOr_eq_ok.mp ha)

/-- An error of a computation that cannot panic is reported. -/
theorem Safe.mapError {δ : Type u} (x : Except ε α) (f : ε → δ) :
    Safe (x.mapError fun e => Fault.Fail (f e)) := by
  cases x with
  | error =>
    intro h
    exact nomatch h
  | ok a => exact Safe.ok a

theorem Safe.mapFault {δ : Type u} {x : Except (Fault ε) α} (hx : Safe x) (f : ε → δ) :
    Safe (x.mapError (Fault.map f)) := by
  cases x with
  | error e =>
    cases e with
    | Panic => exact absurd rfl hx
    | Fail =>
      intro h
      exact nomatch h
  | ok a => exact Safe.ok a

/-! ## Indexing -/

section Indexing

variable {γ : Type v}

/-- `l[start..stop]`, which panics outside of `l`. -/
def indexRange (l : List γ) (start stop : ℕ) : Except (Fault ε) (List γ) :=
  if start ≤ stop ∧ stop ≤ l.length then .ok (slice l start stop) else .error .Panic

theorem indexRange_of {l : List γ} {start stop : ℕ} (h : start ≤ stop) (h' : stop ≤ l.length) :
    (indexRange l start stop : Except (Fault ε) (List γ)) = .ok (slice l start stop) :=
  if_pos ⟨h, h'⟩

theorem indexRange_eq_ok {l s : List γ} {start stop : ℕ} :
    (indexRange l start stop : Except (Fault ε) (List γ)) = .ok s ↔
      (start ≤ stop ∧ stop ≤ l.length) ∧ s = slice l start stop := by
  unfold indexRange
  by_cases h : start ≤ stop ∧ stop ≤ l.length
  · rw [if_pos h, Except.ok.injEq]
    exact ⟨fun heq => ⟨h, heq.symm⟩, fun heq => heq.2.symm⟩
  · rw [if_neg h]
    exact iff_of_false (by simp) fun heq => h heq.1

theorem Safe.index_bind {l : List γ} {start stop : ℕ} {f : List γ → Except (Fault ε) β}
    (h : start ≤ stop) (h' : stop ≤ l.length) (hf : Safe (f (slice l start stop))) :
    Safe (Lib.indexRange l start stop >>= f) := by
  rwa [indexRange_of h h']

/-- `l[start..][..source.len()].copy_from_slice(source)`: the list with `source` in place of what
stood there. It panics outside of `l`. -/
def overwrite (l : List γ) (start : ℕ) (source : List γ) : Except (Fault ε) (List γ) :=
  if start + source.length ≤ l.length then
    .ok (l.take start ++ source ++ l.drop (start + source.length))
  else .error .Panic

/-- A write behind what was written, `gap` places further on. -/
theorem overwrite_replicate (p : List γ) (z : γ) {n start : ℕ} (gap rest : ℕ) {source : List γ}
    (hstart : start = p.length + gap) (hn : n = gap + source.length + rest) :
    (overwrite (p ++ List.replicate n z) start source : Except (Fault ε) (List γ)) =
      .ok (p ++ List.replicate gap z ++ source ++ List.replicate rest z) := by
  have hlen : (p ++ List.replicate gap z).length = start := by
    rw [List.length_append, List.length_replicate, hstart]
  have hsplit : p ++ List.replicate n z
      = (p ++ List.replicate gap z)
        ++ (List.replicate source.length z ++ List.replicate rest z) := by
    rw [hn, List.append_assoc, ← List.append_assoc (List.replicate gap z),
      List.replicate_append_replicate, List.replicate_append_replicate]
  unfold overwrite
  rw [if_pos (by simp only [List.length_append, List.length_replicate]; omega), hsplit]
  congr 1
  rw [← hlen, List.take_left, List.drop_length_add_append]
  congr 1
  exact List.drop_left' (List.length_replicate ..)

end Indexing

end DarwinArt.Lib
