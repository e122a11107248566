/-
Whole runs of `pthread_once`.

What has been told of a lifetime is kept as a `Record`: that it began, the runs of its routines
and the calls that returned. `Lived` says that every lifetime so far has a record that fits a
stage, and that the last one of each control is at that stage; every step keeps it. The rest is
read off the records: `once_per_lifetime_iff`.
-/
import DarwinArt.Pthread.Once

set_option autoImplicit false

namespace DarwinArt.Pthread.Once

open Lib

/-! ## The record of a lifetime -/

/-- The lifetime that an event belongs to. -/
def Event.about : Event → Option (ℕ × ℕ)
  | .Init once life _ => some (once, life)
  | .Run _ call | .Ran _ call | .Return _ call _ => some (call.once, call.life)
  | .Invalid | .Silent => none

/-- What has been told of a lifetime fits its stage. -/
structure Record (es : List Event) (a n : ℕ) (stage : Stage) : Prop where
  began : .Init a n (decide (stage ≠ .Stale)) ∈ es
  begins : ∀ fresh, .Init a n fresh ∈ es → fresh = decide (stage ≠ .Stale)
  runs : es.countP (is_run a n) = stage.runs
  rans : es.countP (is_ran a n) = stage.rans
  after : ∀ es₁ c call result es₂, es = es₁ ++ .Return c call result :: es₂ → call.once = a →
    call.life = n → result = 0 ∧ (stage ≠ .Stale →
      es₁.countP (is_run a n) = 1 ∧ es₁.countP (is_ran a n) = 1)

section Records

variable {es : List Event} {e : Event} {a n : ℕ} {stage stage' : Stage}

theorem countP_snoc (p : Event → Bool) :
    (es ++ [e]).countP p = es.countP p + if p e then 1 else 0 := by
  rw [List.countP_append, List.countP_singleton]

/-- Events of other lifetimes do not count. -/
theorem not_is_run (h : e.about ≠ some (a, n)) : is_run a n e = false ∧ is_ran a n e = false := by
  cases e with
  | Run =>
    refine ⟨?_, rfl⟩
    simp only [is_run, decide_eq_false_iff_not]
    rintro ⟨rfl, rfl⟩
    exact h rfl
  | Ran =>
    refine ⟨rfl, ?_⟩
    simp only [is_ran, decide_eq_false_iff_not]
    rintro ⟨rfl, rfl⟩
    exact h rfl
  | _ => exact ⟨rfl, rfl⟩

section

variable (h : Record es a n stage)
include h

/-- An event that does not begin the lifetime. -/
theorem Record.begins_snoc (he : ∀ fresh, e ≠ .Init a n fresh) :
    ∀ fresh, .Init a n fresh ∈ es ++ [e] → fresh = decide (stage ≠ .Stale) := by
  intro fresh hmem
  rcases mem_snoc hmem with hmem | hmem
  · exact h.begins fresh hmem
  · exact absurd (hmem).symm (he fresh)

/-- An event of another lifetime. -/
theorem Record.other (he : e.about ≠ some (a, n)) :
    Record (es ++ [e]) a n stage := by
  obtain ⟨hrun, hran⟩ := not_is_run he
  refine ⟨List.mem_append_left _ h.began, h.begins_snoc fun fresh heq => ?_, ?_, ?_, ?_⟩
  · rw [heq] at he
    exact absurd rfl he
  · rw [countP_snoc, hrun]
    exact h.runs
  · rw [countP_snoc, hran]
    exact h.rans
  · intro es₁ c call result es₂ hsplit honce hlife
    rcases split_snoc hsplit with ⟨-, hx⟩ | ⟨es₂', hes⟩
    · rw [← hx, Event.about, honce, hlife] at he
      exact absurd rfl he
    · exact h.after es₁ c call result es₂' hes honce hlife

/-- An event that is no return leaves what was said about the returns. -/
theorem Record.after_snoc (hstale : stage' = .Stale ↔ stage = .Stale)
    (he : ∀ c call result, e ≠ .Return c call result) :
    ∀ es₁ c call result es₂, es ++ [e] = es₁ ++ .Return c call result :: es₂ → call.once = a →
      call.life = n → result = 0 ∧ (stage' ≠ .Stale →
        es₁.countP (is_run a n) = 1 ∧ es₁.countP (is_ran a n) = 1) := by
  intro es₁ c call result es₂ hsplit honce hlife
  rcases split_snoc hsplit with ⟨-, hx⟩ | ⟨es₂', hes⟩
  · exact absurd hx.symm (he c call result)
  · obtain ⟨hresult, hcounts⟩ := h.after es₁ c call result es₂' hes honce hlife
    exact ⟨hresult, fun hfresh => hcounts fun hold => hfresh (hstale.mpr hold)⟩

/-- **A step of a call is written down.** -/
theorem Record.moves {c : ℕ} {call : Call} (honce : call.once = a)
    (hlife : call.life = n) (hmove : Moves c call stage e stage') :
    Record (es ++ [e]) a n stage' := by
  have hrun : is_run a n (.Run c call) = true := by simp [is_run, honce, hlife]
  have hran : is_ran a n (.Ran c call) = true := by simp [is_ran, honce, hlife]
  cases hmove with
  | silent hruns hrans _ hstale =>
    have hbegan : decide (stage' ≠ .Stale) = decide (stage ≠ .Stale) := by
      rw [decide_eq_decide, ne_eq, ne_eq, hstale]
    refine ⟨?_, ?_, ?_, ?_, h.after_snoc hstale nofun⟩
    · rw [hbegan]
      exact List.mem_append_left _ h.began
    · rw [hbegan]
      exact h.begins_snoc nofun
    · rw [countP_snoc, hruns]
      exact h.runs
    · rw [countP_snoc, hrans]
      exact h.rans
  | run =>
    refine ⟨List.mem_append_left _ h.began, h.begins_snoc nofun, ?_, ?_,
      h.after_snoc (by simp) nofun⟩
    · rw [countP_snoc, h.runs, hrun]
      rfl
    · rw [countP_snoc, h.rans]
      rfl
  | ran =>
    refine ⟨List.mem_append_left _ h.began, h.begins_snoc nofun, ?_, ?_,
      h.after_snoc (by simp) nofun⟩
    · rw [countP_snoc, h.runs]
      rfl
    · rw [countP_snoc, h.rans, hran]
      rfl
  | returned hreturns =>
    refine ⟨List.mem_append_left _ h.began, h.begins_snoc nofun, ?_, ?_, ?_⟩
    · rw [countP_snoc]
      exact h.runs
    · rw [countP_snoc]
      exact h.rans
    · intro es₁ c' call' result es₂ hsplit honce' hlife'
      rcases split_snoc hsplit with ⟨hes, hx⟩ | ⟨es₂', hes⟩
      · obtain ⟨-, -, rfl⟩ := Event.Return.inj hx
        refine ⟨rfl, fun hfresh => ?_⟩
        rw [hes, h.runs, h.rans]
        cases stage with
        | Done => exact ⟨rfl, rfl⟩
        | Stale => exact absurd rfl hfresh
        | _ => cases hreturns
      · exact h.after es₁ c' call' result es₂' hes honce' hlife'

end

/-- A lifetime begins. -/
theorem Record.begin (hnone : ∀ x ∈ es, x.about ≠ some (a, n)) (hruns : stage.runs = 0)
    (hrans : stage.rans = 0) :
    Record (es ++ [.Init a n (decide (stage ≠ .Stale))]) a n stage := by
  refine ⟨List.mem_append_right _ List.mem_cons_self, ?_, ?_, ?_, ?_⟩
  · intro fresh hmem
    rcases mem_snoc hmem with hmem | hmem
    · exact absurd rfl (hnone _ hmem)
    · exact (Event.Init.inj (hmem)).2.2
  · rw [countP_snoc, hruns, List.countP_eq_zero.mpr fun x hx => ?_]
    · rfl
    · rw [(not_is_run (hnone x hx)).1]
      exact Bool.false_ne_true
  · rw [countP_snoc, hrans, List.countP_eq_zero.mpr fun x hx => ?_]
    · rfl
    · rw [(not_is_run (hnone x hx)).2]
      exact Bool.false_ne_true
  · intro es₁ c call result es₂ hsplit honce hlife
    rcases split_snoc hsplit with ⟨-, hx⟩ | ⟨es₂', hes⟩
    · cases hx
    · refine absurd ?_ (hnone (.Return c call result) ?_)
      · rw [Event.about, honce, hlife]
      · rw [hes]
        exact List.mem_append_right _ List.mem_cons_self

end Records

/-! ## Runs -/

/-- Every lifetime has its record, and the last one of a control its stage. -/
structure Lived (es : List Event) (s : State) : Prop where
  current : ∀ a, 0 < s.life a → ∃ stage, Control s a stage ∧ Record es a (s.life a) stage
  past : ∀ a n, 0 < n → n < s.life a → ∃ stage, Record es a n stage
  never : ∀ a n, n = 0 ∨ s.life a < n → ∀ e ∈ es, e.about ≠ some (a, n)
  unborn : ∀ a, s.life a = 0 → s.once_controls a = none ∧
    ∀ c call pc, s.calls c = some (call, pc) → call.once ≠ a

section Runs

variable {es : List Event} {e : Event} {s s' : State}

theorem lived_new (word : ℕ → ℤ) : Lived [] (State.new word) := by
  constructor
  · exact fun a h => absurd h (Nat.lt_irrefl 0)
  · exact fun a n _ h => absurd h (Nat.not_lt_zero n)
  · exact fun _ _ _ e he => absurd he List.not_mem_nil
  · exact fun a _ => ⟨rfl, fun c call pc h => nomatch h⟩

section

variable (h : Lived es s)
include h

/-- The records of the lifetimes that a step is not about. -/
theorem Lived.never_snoc (hlife : ∀ a, s.life a ≤ s'.life a)
    (he : ∀ a n, e.about = some (a, n) → 0 < n ∧ n ≤ s'.life a) :
    ∀ a n, n = 0 ∨ s'.life a < n → ∀ x ∈ es ++ [e], x.about ≠ some (a, n) := by
  intro a n hn x hx
  rcases mem_snoc hx with hx | hx
  · refine h.never a n ?_ x hx
    have := hlife a
    omega
  · rw [hx]
    intro habout
    have := he a n habout
    omega

/-- A lifetime begins. -/
theorem Lived.init {a : ℕ} (hquiet : ∀ c call pc, s.calls c = some (call, pc) → call.once ≠ a) :
    Lived (es ++ [.Init a (s.life a + 1) (s.once_controls a).isNone]) (s.init a) := by
  have hlife : (s.init a).life a = s.life a + 1 := Function.update_self ..
  have hother : ∀ b, b ≠ a → (s.init a).life b = s.life b :=
    fun b hb => Function.update_of_ne hb ..
  have habout : ∀ b n, (b, n) ≠ (a, s.life a + 1) →
      (Event.Init a (s.life a + 1) (s.once_controls a).isNone).about ≠ some (b, n) :=
    fun b n hne heq => hne (Option.some.inj heq).symm
  constructor
  · intro b hb
    by_cases hba : b = a
    · -- the control itself
      rw [hba, hlife]
      have hbegin : ∃ stage', Control (s.init a) a stage' ∧ stage'.runs = 0 ∧ stage'.rans = 0 ∧
          decide (stage' ≠ .Stale) = (s.once_controls a).isNone := by
        rcases Nat.eq_zero_or_pos (s.life a) with hzero | hpos
        · have hnone := (h.unborn a hzero).1
          refine ⟨.Absent, ⟨hnone, Function.update_self .., ?_, trivial⟩, rfl, rfl, ?_⟩
          · exact fun c call pc hcall honce => absurd honce (hquiet c call pc hcall)
          · rw [hnone]
            rfl
        · obtain ⟨stage, hcontrol, -⟩ := h.current a hpos
          exact hcontrol.begin hquiet
      obtain ⟨stage', hcontrol, hruns, hrans, hfresh⟩ := hbegin
      refine ⟨stage', hcontrol, ?_⟩
      rw [← hfresh]
      exact .begin (h.never a _ (.inr (Nat.lt_succ_self _))) hruns hrans
    · rw [hother b hba] at hb ⊢
      obtain ⟨stage, hcontrol, hrecord⟩ := h.current b hb
      refine ⟨stage, ⟨hcontrol.entry, ?_, ?_, ?_⟩,
        hrecord.other (habout b _ fun heq => hba (Prod.mk.inj heq).1)⟩
      · exact (Function.update_of_ne hba ..).trans hcontrol.word
      · rw [hother b hba]
        exact hcontrol.calls
      · cases stage <;> exact hcontrol.present
  · intro b n hpos hlt
    by_cases hba : b = a
    · rw [hba, hlife] at hlt
      rw [hba]
      have hne : (a, n) ≠ (a, s.life a + 1) := fun heq => by
        have := (Prod.mk.inj heq).2
        omega
      rcases Nat.lt_or_ge n (s.life a) with hold | hlast
      · obtain ⟨stage, hrecord⟩ := h.past a n hpos hold
        exact ⟨stage, hrecord.other (habout a n hne)⟩
      · -- the lifetime that ends
        have hn : n = s.life a := by omega
        obtain ⟨stage, -, hrecord⟩ := h.current a (by omega)
        rw [← hn] at hrecord
        exact ⟨stage, hrecord.other (habout a n hne)⟩
    · rw [hother b hba] at hlt
      obtain ⟨stage, hrecord⟩ := h.past b n hpos hlt
      exact ⟨stage, hrecord.other (habout b n fun heq => hba (Prod.mk.inj heq).1)⟩
  · refine h.never_snoc (fun b => ?_) fun b n heq => ?_
    · by_cases hba : b = a
      · rw [hba, hlife]
        omega
      · exact Nat.le_of_eq (hother b hba).symm
    · cases heq
      rw [hlife]
      omega
  · intro b hzero
    have hba : b ≠ a := by
      rintro rfl
      omega
    rw [hother b hba] at hzero
    exact h.unborn b hzero

/-- A call is made. -/
theorem Lived.enter {c once routine : ℕ} (hfree : s.calls c = none) (hlive : 0 < s.life once) :
    Lived (es ++ [.Silent]) (s.goto c ⟨once, routine, s.life once⟩ .Entered) := by
  have habout : ∀ a n, Event.Silent.about ≠ some (a, n) := fun _ _ => nofun
  constructor
  · intro a ha
    obtain ⟨stage, hcontrol, hrecord⟩ := h.current a ha
    refine ⟨stage, ?_, hrecord.other (habout a _)⟩
    by_cases hsame : a = once
    · rw [hsame] at hcontrol ⊢
      exact hcontrol.enter hfree
    · refine hcontrol.frame rfl rfl rfl rfl ?_ ?_
      · intro call pc hcall
        rw [hfree] at hcall
        cases hcall
      · intro call pc hx
        rw [← (Prod.mk.inj (Option.some.inj hx)).1]
        exact Ne.symm hsame
  · intro a n hpos hlt
    obtain ⟨stage, hrecord⟩ := h.past a n hpos hlt
    exact ⟨stage, hrecord.other (habout a n)⟩
  · exact h.never_snoc (fun _ => Nat.le_refl _) fun a n heq => absurd heq (habout a n)
  · intro a hzero
    refine ⟨(h.unborn a hzero).1, fun c' call pc hcall => ?_⟩
    have hcall : Function.update s.calls c _ c' = some (call, pc) := hcall
    by_cases hc : c' = c
    · rw [hc, Function.update_self] at hcall
      rw [← (Prod.mk.inj (Option.some.inj hcall)).1]
      rintro rfl
      have hzero : s.life once = 0 := hzero
      omega
    · rw [Function.update_of_ne hc] at hcall
      exact (h.unborn a hzero).2 c' call pc hcall

/-- A call goes on. -/
theorem Lived.go {c : ℕ} (hnext : s.next c = some (e, s')) :
    Lived (es ++ [e]) s' := by
  obtain ⟨call, pc, hcall⟩ : ∃ call pc, s.calls c = some (call, pc) := by
    cases hcall : s.calls c with
    | none =>
      unfold State.next at hnext
      rw [hcall] at hnext
      cases hnext
    | some x => exact ⟨x.1, x.2, rfl⟩
  obtain ⟨hcontrols, hlife, x, hcalls, hx⟩ := apart_next hcall hnext
  have hpos : 0 < s.life call.once := by
    rcases Nat.eq_zero_or_pos (s.life call.once) with hzero | hpos
    · exact absurd rfl ((h.unborn _ hzero).2 c call pc hcall)
    · exact hpos
  obtain ⟨stage, hcontrol, hrecord⟩ := h.current call.once hpos
  obtain ⟨stage', hcontrol', hmove⟩ := hcontrol.next hcall rfl hnext
  have hcurrent := (hcontrol.calls c call pc hcall rfl).2
  have habout : ∀ a n, e.about = some (a, n) → a = call.once ∧ n = s.life call.once := by
    intro a n heq
    rw [← hcurrent]
    cases hmove with
    | silent => cases heq
    | run | ran | returned =>
      cases heq
      exact ⟨rfl, rfl⟩
  constructor
  · intro a ha
    rw [hlife] at ha ⊢
    by_cases hsame : a = call.once
    · rw [hsame]
      exact ⟨stage', hcontrol', hrecord.moves rfl hcurrent hmove⟩
    · obtain ⟨stage₁, hcontrol₁, hrecord₁⟩ := h.current a ha
      refine ⟨stage₁, hcontrol₁.frame (hcontrols a hsame).1 (hcontrols a hsame).2
        (congrFun hlife a) hcalls ?_ ?_, hrecord₁.other fun heq => hsame (habout _ _ heq).1⟩
      · intro call' pc' hcall'
        rw [hcall] at hcall'
        rw [← (Prod.mk.inj (Option.some.inj hcall')).1]
        exact Ne.symm hsame
      · intro call' pc' hcall'
        rw [hx call' pc' hcall']
        exact Ne.symm hsame
  · intro a n hn hlt
    rw [hlife] at hlt
    obtain ⟨stage₁, hrecord₁⟩ := h.past a n hn hlt
    refine ⟨stage₁, hrecord₁.other fun heq => ?_⟩
    obtain ⟨rfl, rfl⟩ := habout _ _ heq
    exact Nat.lt_irrefl _ hlt
  · refine h.never_snoc (fun a => Nat.le_of_eq (congrFun hlife a).symm) fun a n heq => ?_
    obtain ⟨rfl, rfl⟩ := habout a n heq
    rw [hlife]
    exact ⟨hpos, Nat.le_refl _⟩
  · intro a hzero
    rw [hlife] at hzero
    have hne : a ≠ call.once := by
      rintro rfl
      omega
    refine ⟨(hcontrols a hne).1.trans (h.unborn a hzero).1, fun c' call' pc' hcall' => ?_⟩
    rw [hcalls] at hcall'
    by_cases hc : c' = c
    · rw [hc, Function.update_self] at hcall'
      rw [hx call' pc' hcall']
      exact Ne.symm hne
    · rw [Function.update_of_ne hc] at hcall'
      exact (h.unborn a hzero).2 c' call' pc' hcall'

/-- **Every step is written down.** -/
theorem Lived.step (hstep : Step s e s') : Lived (es ++ [e]) s' := by
  cases hstep with
  | init hquiet => exact h.init hquiet
  | invalid =>
    have habout : ∀ a n, Event.Invalid.about ≠ some (a, n) := fun _ _ => nofun
    refine ⟨fun a ha => ?_, fun a n hpos hlt => ?_, ?_, h.unborn⟩
    · obtain ⟨stage, hcontrol, hrecord⟩ := h.current a ha
      exact ⟨stage, hcontrol, hrecord.other (habout a _)⟩
    · obtain ⟨stage, hrecord⟩ := h.past a n hpos hlt
      exact ⟨stage, hrecord.other (habout a n)⟩
    · exact h.never_snoc (fun _ => Nat.le_refl _) fun a n heq => absurd heq (habout a n)
  | enter hfree _ _ hlive => exact h.enter hfree hlive
  | go hnext => exact h.go hnext

/-- The record of a lifetime that something has been told of. -/
theorem Lived.record {x : Event} (hx : x ∈ es) {a n : ℕ}
    (habout : x.about = some (a, n)) : ∃ stage, Record es a n stage := by
  rcases Nat.eq_zero_or_pos n with hzero | hpos
  · exact absurd habout (h.never a n (.inl hzero) x hx)
  rcases Nat.lt_trichotomy n (s.life a) with hlt | heq | hgt
  · exact h.past a n hpos hlt
  · obtain ⟨stage, -, hrecord⟩ := h.current a (by omega)
    rw [← heq] at hrecord
    exact ⟨stage, hrecord⟩
  · exact absurd habout (h.never a n (.inr hgt) x hx)

end

/-- **`pthread_once` runs its routine once per lifetime, but for stale lifetimes.** In every run,
with any number of calls on any controls, a lifetime has at most one run of a routine and every
call returns 0 after that run has returned, exactly if every call that returned was made in a
lifetime that began without an entry in the table. No call is ever stuck. -/
theorem once_per_lifetime_iff {word : ℕ → ℤ} (hrun : Run Step (State.new word) es s) :
    (OncePerLifetime es ↔ ∀ c call result, .Return c call result ∈ es →
      .Init call.once call.life true ∈ es) ∧
      ∀ c call pc, s.calls c = some (call, pc) → Proceeds s call.once := by
  have hlived : Lived es s := Run.history Lived (lived_new word)
    (fun _ _ _ _ _ h hstep => h.step hstep) hrun
  refine ⟨⟨fun honce c call result hmem => ?_, fun hfresh => ⟨fun a n => ?_, ?_⟩⟩, ?_⟩
  · -- a call has returned after a run, so its lifetime is not stale
    obtain ⟨stage, hrecord⟩ := hlived.record hmem rfl
    obtain ⟨es₁, es₂, hsplit⟩ := List.append_of_mem hmem
    have hruns := (honce.after es₁ c call result es₂ hsplit).2.1
    have hbegan := hrecord.began
    have hstale : stage ≠ .Stale := by
      rintro rfl
      have hzero : es.countP (is_run call.once call.life) = 0 := hrecord.runs
      rw [hsplit, List.countP_append, hruns] at hzero
      omega
    rwa [decide_eq_true hstale] at hbegan
  · by_cases hsome : ∃ x ∈ es, is_run a n x = true
    · obtain ⟨x, hx, hrunx⟩ := hsome
      have habout : x.about = some (a, n) := by
        by_contra hne
        rw [(not_is_run hne).1] at hrunx
        cases hrunx
      obtain ⟨stage, hrecord⟩ := hlived.record hx habout
      rw [hrecord.runs]
      unfold Stage.runs
      split <;> omega
    · rw [List.countP_eq_zero.mpr]
      · exact Nat.zero_le 1
      · exact fun x hx hrunx => hsome ⟨x, hx, hrunx⟩
  · intro es₁ c call result es₂ hsplit
    have hmem : .Return c call result ∈ es := by
      rw [hsplit]
      exact List.mem_append_right _ List.mem_cons_self
    obtain ⟨stage, hrecord⟩ := hlived.record hmem rfl
    obtain ⟨hresult, hcounts⟩ := hrecord.after es₁ c call result es₂ hsplit rfl rfl
    refine ⟨hresult, hcounts ?_⟩
    exact of_decide_eq_true (hrecord.begins true (hfresh c call result hmem)).symm
  · intro c call pc hcall
    have hpos : 0 < s.life call.once := by
      rcases Nat.eq_zero_or_pos (s.life call.once) with hzero | hpos
      · exact absurd rfl ((hlived.unborn _ hzero).2 c call pc hcall)
      · exact hpos
    obtain ⟨stage, hcontrol, -⟩ := hlived.current call.once hpos
    exact hcontrol.proceeds hcall rfl

/-- **Stale lifetimes too**: no call returns an error, and one call at a time leads at a control. -/
theorem calls_succeed_and_one_leads {word : ℕ → ℤ} (hrun : Run Step (State.new word) es s) :
    (∀ c call result, .Return c call result ∈ es → result = 0) ∧
    ∀ c call pc c' call' pc', s.calls c = some (call, pc) → s.calls c' = some (call', pc') →
      call'.once = call.once → pc.leads = true → pc'.leads = true → c' = c := by
  have hlived : Lived es s := Run.history Lived (lived_new word)
    (fun _ _ _ _ _ h hstep => h.step hstep) hrun
  refine ⟨fun c call result hmem => ?_, fun c call pc c' _ _ hcall hcall' honce hleads hleads' => ?_⟩
  · obtain ⟨_, hrecord⟩ := hlived.record hmem rfl
    obtain ⟨_, _, hsplit⟩ := List.append_of_mem hmem
    exact (hrecord.after _ c call result _ hsplit rfl rfl).1
  · rcases Nat.eq_zero_or_pos (s.life call.once) with hzero | hpos
    · exact absurd rfl ((hlived.unborn _ hzero).2 c call pc hcall)
    obtain ⟨_, hcontrol, -⟩ := hlived.current call.once hpos
    have hled := (hcontrol.leader hcall' honce hleads').symm.trans (hcontrol.leader hcall rfl hleads)
    exact (Stage.Led.inj hled).1

end Runs

/-! ## Two lifetimes of one address -/

/-- The routine 1 is run for the control at 16, which is new. -/
def first_life : List Event :=
  [.Init 16 1 true, .Silent, .Silent, .Silent, .Silent, .Silent, .Run 0 ⟨16, 1, 1⟩,
    .Ran 0 ⟨16, 1, 1⟩, .Silent, .Silent, .Return 0 ⟨16, 1, 1⟩ 0]

/-- The control at 16 is initialised again, and called with the routine 2. -/
def second_life : List Event :=
  [.Init 16 2 false, .Silent, .Silent, .Silent, .Silent, .Return 0 ⟨16, 2, 2⟩ 0]

theorem lives_run : ∃ s, Run Step (State.new fun _ => 0) (first_life ++ second_life) s := by
  refine Run.exists_cons (.init fun _ _ _ h => nomatch h) ?_
  refine Run.exists_cons (@Step.enter _ 0 16 1 rfl (by decide) (by decide) (by decide)) ?_
  iterate 9 refine Run.exists_cons (.go (c := 0) rfl) ?_
  refine Run.exists_cons (@Step.init _ 16 ?_) ?_
  · -- the only call has returned
    intro c call pc hcall
    by_cases hc : c = 0
    · rw [hc] at hcall
      cases hcall
    · simp [State.goto, State.set_entry, State.store, State.init, State.new, Function.update,
        hc] at hcall
  refine Run.exists_cons (@Step.enter _ 0 16 2 rfl (by decide) (by decide) (by decide)) ?_
  iterate 4 refine Run.exists_cons (.go (c := 0) rfl) ?_
  exact ⟨_, Run.nil _⟩

/-- **The second lifetime runs nothing**: its call returns 0, and its routine is not called. -/
theorem reused_control_runs_nothing :
    ∃ s, Run Step (State.new fun _ => 0) (first_life ++ second_life) s ∧
      .Return 0 ⟨16, 2, 2⟩ 0 ∈ first_life ++ second_life ∧
      (first_life ++ second_life).countP (is_run 16 2) = 0 ∧
      ¬ OncePerLifetime (first_life ++ second_life) := by
  obtain ⟨s, hrun⟩ := lives_run
  refine ⟨s, hrun, by decide, by decide, fun honce => ?_⟩
  have hruns := (honce.after (first_life ++ second_life.take 5) 0 ⟨16, 2, 2⟩ 0 [] rfl).2.1
  exact absurd hruns (by decide)

/-- The first lifetime is as it should be. -/
theorem new_control_runs_once :
    (∃ s, Run Step (State.new fun _ => 0) first_life s) ∧ OncePerLifetime first_life := by
  obtain ⟨_, hlives⟩ := lives_run
  obtain ⟨s, hrun⟩ := hlives.through (List.prefix_append first_life second_life)
  refine ⟨⟨s, hrun⟩, (once_per_lifetime_iff hrun).1.mpr fun c call result hmem => ?_⟩
  simp only [first_life, List.mem_cons, reduceCtorEq, false_or, List.not_mem_nil, or_false,
    Event.Return.injEq] at hmem
  obtain ⟨-, rfl, -⟩ := hmem
  exact List.mem_cons_self

theorem both_lives_succeed : ∃ s, Run Step (State.new fun _ => 0) (first_life ++ second_life) s ∧
    ∀ c call result, .Return c call result ∈ first_life ++ second_life → result = 0 := by
  obtain ⟨s, hrun⟩ := lives_run
  exact ⟨s, hrun, (calls_succeed_and_one_leads hrun).1⟩

end DarwinArt.Pthread.Once
