/-
Finite runs of a labelled step relation, and the two inductions every safety
statement of this development goes through: an invariant of the state alone, and
an invariant of the state together with the labels seen so far.

Nothing here knows what a state or a label is. A component instantiates `Run` at
its own step relation, proves one step lemma, and gets the statement about whole
runs from `Run.invariant` or `Run.history`.
-/
import DarwinArt.Lib.ListEdit

set_option autoImplicit false

namespace DarwinArt.Lib

/-- An element of a list that is longer by one is the last one, or was there before. -/
theorem split_snoc {α : Type*} {l l₁ l₂ : List α} {a x : α} (h : l ++ [a] = l₁ ++ x :: l₂) :
    (l₁ = l ∧ x = a) ∨ ∃ l₂', l = l₁ ++ x :: l₂' := by
  rcases List.eq_nil_or_concat l₂ with hnil | ⟨l₂', y, hconcat⟩
  · rw [hnil] at h
    obtain ⟨hl, hx⟩ := List.append_inj' h rfl
    exact Or.inl ⟨hl.symm, (List.singleton_inj.mp hx).symm⟩
  · rw [hconcat, List.concat_eq_append, ← List.cons_append, ← List.append_assoc] at h
    exact Or.inr ⟨l₂', (List.append_inj' h rfl).1⟩

theorem mem_snoc {α : Type*} {l : List α} {a x : α} (h : x ∈ l ++ [a]) : x ∈ l ∨ x = a :=
  (List.mem_append.mp h).imp_right List.mem_singleton.mp

/-- A finite run: `Run step s es t` says the labels `es`, in order, lead from `s` to
`t`. Built at the right end, because what a component has to prove is about the
**last** step of a run whose history is already known. -/
inductive Run {σ ε : Type*} (step : σ → ε → σ → Prop) : σ → List ε → σ → Prop
  | nil (s : σ) : Run step s [] s
  | snoc {s t u : σ} {es : List ε} {e : ε} :
      Run step s es t → step t e u → Run step s (es ++ [e]) u

namespace Run

variable {σ ε ρ : Type*} {step : σ → ε → σ → Prop} {s t : σ} {es fs : List ε} {e : ε}
  {P : σ → Prop}

/-- **The history rule.** A property of the labels so far and the state that holds at
the start and is kept by each step holds at the end of every run. -/
theorem history (P : List ε → σ → Prop) (h0 : P [] s)
    (hstep : ∀ es t e u, Run step s es t → P es t → step t e u → P (es ++ [e]) u)
    (hrun : Run step s es t) : P es t := by
  induction hrun with
  | nil => exact h0
  | snoc hrun hlast ih => exact hstep _ _ _ _ hrun ih hlast

/-- **The invariant rule**: `history` for a property of the state alone. -/
theorem invariant (P : σ → Prop) (h0 : P s)
    (hstep : ∀ t e u, P t → step t e u → P u) (hrun : Run step s es t) : P t :=
  history (fun _ => P) h0 (fun _ t e u _ ht he => hstep t e u ht he) hrun

/-- The history rule for what each step makes true of its label under an invariant. -/
theorem each (P : σ → Prop) {Q : ε → Prop} (h0 : P s)
    (hstep : ∀ t e u, P t → step t e u → P u ∧ Q e) (hrun : Run step s es t) :
    P t ∧ ∀ e ∈ es, Q e := by
  refine history (fun es t => P t ∧ ∀ e ∈ es, Q e) ⟨h0, nofun⟩ (fun es t e u _ ht he => ?_) hrun
  obtain ⟨hu, hq⟩ := hstep t e u ht.1 he
  refine ⟨hu, fun x hx => ?_⟩
  rcases mem_snoc hx with hx | rfl
  · exact ht.2 x hx
  · exact hq

/-- The invariant rule along runs all of whose labels have a property. -/
theorem invariant_while {Q : ε → Prop} (P : σ → Prop) (h0 : P s)
    (hstep : ∀ es t e u, Run step s es t → P t → step t e u → Q e → P u) (hrun : Run step s es t)
    (hall : ∀ e ∈ es, Q e) : P t := by
  refine history (fun es t => (∀ e ∈ es, Q e) → P t) (fun _ => h0) (fun es t e u hrun ih he h => ?_)
    hrun hall
  have ht := ih fun x hx => h x (List.mem_append_left _ hx)
  exact hstep es t e u hrun ht he (h e (List.mem_append_right _ List.mem_cons_self))

/-- Runs compose. -/
theorem append {s t u : σ} (h₁ : Run step s es t) (h₂ : Run step t fs u) :
    Run step s (es ++ fs) u := by
  induction h₂ with
  | nil => simpa using h₁
  | snoc _ hlast ih =>
    rw [← List.append_assoc]
    exact snoc ih hlast

/-- A single step is a run of one label. -/
theorem single (h : step s e t) : Run step s [e] t := by
  simpa using snoc (Run.nil s) h

/-- A step in front of a run: the way in for a concrete run, one label at a time. -/
theorem exists_cons (h : step s e t) (hrun : ∃ u, Run step t es u) :
    ∃ u, Run step s (e :: es) u := by
  obtain ⟨u, hrun⟩ := hrun
  exact ⟨u, append (single h) hrun⟩

/-- The same with a fact about the state in which the run ends. -/
theorem exists_cons_and (h : step s e t)
    (hrun : ∃ u, Run step t es u ∧ P u) : ∃ u, Run step s (e :: es) u ∧ P u := by
  obtain ⟨u, hrun, hu⟩ := hrun
  exact ⟨u, append (single h) hrun, hu⟩

/-- The same where the labels are not named, but each has a property. -/
theorem exists_labels_cons {Q : ε → Prop} (h : step s e t)
    (he : Q e) (hrun : ∃ es u, Run step t es u ∧ (∀ x ∈ es, Q x) ∧ P u) :
    ∃ es u, Run step s es u ∧ (∀ x ∈ es, Q x) ∧ P u := by
  obtain ⟨es, u, hrun, hes, hu⟩ := hrun
  exact ⟨e :: es, u, append (single h) hrun, List.forall_mem_cons.mpr ⟨he, hes⟩, hu⟩

/-- The last step of a run. -/
theorem last {s u : σ} (h : Run step s (es ++ [e]) u) :
    ∃ t, Run step s es t ∧ step t e u := by
  generalize hfs : es ++ [e] = fs at h
  cases h with
  | nil => simp at hfs
  | snoc hrun hlast =>
    obtain ⟨rfl, he⟩ := List.append_inj' hfs rfl
    rw [List.singleton_inj.mp he]
    exact ⟨_, hrun, hlast⟩

/-- A run passes through a state after each of its prefixes. -/
theorem through {fs es : List ε} (hfs : fs <+: es) (h : Run step s es t) :
    ∃ u, Run step s fs u := by
  induction h with
  | nil =>
    rw [List.prefix_nil.mp hfs]
    exact ⟨_, Run.nil s⟩
  | @snoc _ u es e hrun hlast ih =>
    rcases List.prefix_concat_iff.mp hfs with rfl | hfs
    · exact ⟨u, snoc hrun hlast⟩
    · exact ih hfs

/-- The run before one of its labels, and the step of that label. -/
theorem at_label (h : Run step s (es ++ e :: fs) t) :
    ∃ u v, Run step s es u ∧ step u e v := by
  have hpre : es ++ [e] <+: es ++ e :: fs := ⟨fs, by simp⟩
  obtain ⟨v, hrun⟩ := through hpre h
  obtain ⟨u, hrun, hstep⟩ := last hrun
  exact ⟨u, v, hrun, hstep⟩

/-- If a label determines the step, the labels of a run determine where it ends. -/
theorem functional (hdet : ∀ s e t t', step s e t → step s e t' → t = t') {s t t' : σ}
    (h : Run step s es t) (h' : Run step s es t') : t = t' := by
  induction h generalizing t' with
  | nil =>
    generalize hes : [] = es at h'
    cases h' with
    | nil => rfl
    | snoc => simp at hes
  | snoc _ hlast ih =>
    obtain ⟨u, hrun', hlast'⟩ := last h'
    rw [← ih hrun'] at hlast'
    exact hdet _ _ _ _ hlast hlast'

/-- The states and labels a deterministic operation goes through on a list of
arguments, each label carrying the result the operation returned. -/
def trace {α : Type*} (exec : σ → α → ρ × σ) : σ → List α → List (α × ρ) × σ
  | s, [] => ([], s)
  | s, a :: as =>
    let (r, s') := exec s a
    let (es, t) := trace exec s' as
    ((a, r) :: es, t)

/-- The trace of a deterministic operation is a run of its step relation: the way in
for a concrete run, which is then an evaluation. -/
theorem of_trace {α : Type*} (exec : σ → α → ρ × σ) (as : List α) (s : σ) :
    Run (fun s (e : α × ρ) t => exec s e.1 = (e.2, t)) s (trace exec s as).1
      (trace exec s as).2 := by
  induction as generalizing s with
  | nil => exact Run.nil s
  | cons a as ih => exact append (single (e := (a, (exec s a).1)) rfl) (ih (exec s a).2)

/-- The labels and the last state of an operation that may be impossible, on a list of
arguments; `label` is the label of an argument in a state. -/
def collect {α : Type*} (exec : σ → α → Option (ρ × σ)) (label : σ → α → ε) :
    σ → List α → Option (List ε × σ)
  | s, [] => some ([], s)
  | s, a :: as =>
    match exec s a with
    | none => none
    | some (_, s') =>
      match collect exec label s' as with
      | none => none
      | some (es, t) => some (label s a :: es, t)

/-- What is collected is a run. -/
theorem of_collect {α : Type*} {exec : σ → α → Option (ρ × σ)} {label : σ → α → ε}
    (hstep : ∀ s a r t, exec s a = some (r, t) → step s (label s a) t) {as : List α}
    (h : collect exec label s as = some (es, t)) : Run step s es t := by
  induction as generalizing s es with
  | nil =>
    obtain ⟨rfl, rfl⟩ := Prod.mk.inj (Option.some.inj h)
    exact Run.nil s
  | cons a _ ih =>
    unfold collect at h
    split at h
    · cases h
    next r s' hexec =>
    split at h
    · cases h
    next es' t' hrest =>
    cases h
    exact append (single (hstep s a r s' hexec)) (ih hrest)

end Run

end DarwinArt.Lib
