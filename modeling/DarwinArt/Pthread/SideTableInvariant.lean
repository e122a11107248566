/-
The side tables: what is to be shown of a run, and the invariant that shows it.

In its lifetime an object has an entry of that lifetime in the table, or none yet (`Held`,
`Blank`), and in the second case the table has at most an entry that is destroyed. That is all a
lookup needs to know: it finds the entry of the lifetime, or makes it. There are two ways out.
`pthread_cond_init` over an entry that was left alive finds that entry (`Event.Adopts`); and a
mutex whose host object cannot be made gets an entry of the normal kind (`Event.Misfits`).

A step is about one object, or leaves every object with what it has. `Frame` and `Tweak` say so for
the state, and `Keeps` what follows for the objects and the calls.
-/
import DarwinArt.Pthread.SideTable

set_option autoImplicit false

namespace DarwinArt.Pthread.SideTable

open Lib

/-! ## The statement -/

/-- All operations of a lifetime act on one entry, which no other lifetime acts on and which has
the setting that the lifetime began with. -/
structure Faithful (es : List Event) : Prop where
  same : ∀ x ∈ es, ∀ y ∈ es, ∀ o n e e' k k', x.told = .Act o n e k → y.told = .Act o n e' k' →
    e = e'
  own : ∀ x ∈ es, ∀ y ∈ es, ∀ o o' n n' e k k', x.told = .Act o n e k →
    y.told = .Act o' n' e k' → o = o' ∧ n = n'
  begun : ∀ x ∈ es, ∀ o n e k, x.told = .Act o n e k → ∃ y ∈ es, ∃ k', y.told = .Begin o n k'
  setting : ∀ x ∈ es, ∀ y ∈ es, ∀ o n e k k', x.told = .Act o n e k → y.told = .Begin o n k' →
    k = k'

/-- `pthread_cond_init` looks its address up, and finds an entry that is not destroyed. -/
def Event.Adopts (x : Event) : Prop :=
  ∃ t host o setting e, x.op = .Go t host ∧ (x.before.entries e).lifecycle ≠ .Destroyed ∧
    ((∃ todo found, x.before.calls t = some ⟨.Init o setting, .Looking (o :: todo) found⟩ ∧
        x.before.cache t o = some e) ∨
      ∃ todo found, x.before.calls t = some ⟨.Init o setting, .Searching o todo found⟩ ∧
        x.before.table o = some e)

/-- A mutex has no entry and is not of the normal kind, and its host object cannot be made. Where
`DARWIN_ART_PTHREAD_TRACE` is set that is an error. -/
def Event.Misfits (trace : Bool) (x : Event) : Prop :=
  trace = false ∧ ∃ t action o todo found setting, x.op = .Go t false ∧
    x.before.calls t = some ⟨action, .Searching o todo found⟩ ∧
    (x.before.table o).filter (x.before.serves o) = none ∧
    o.family.setting (x.before.guest o) = .ok setting ∧ o.family = .Mutex ∧ setting ≠ .Normal

/-! ## Bytes -/

/-- Bytes that say the object is not destroyed, and that will go on saying so. The state of a
condition is counted up by an even number. -/
def Sane (o : Object) (guest : Guest) : Prop :=
  match o.family with
  | .Mutex => guest.state ≠ kAndroidMutexDestroyed
  | .Cond => guest.state % 2 = 0

variable {o : Object} {attributes : Option ℕ} {setting : Setting} {phase : Phase} {action : Action}

theorem Sane.ne_destroyed {guest : Guest} (h : Sane o guest) :
    guest.state ≠ o.family.destroyed := by
  unfold Sane at h
  cases hfamily : o.family with
  | Mutex =>
    rwa [hfamily] at h
  | Cond =>
    rw [hfamily] at h
    intro heq
    rw [heq] at h
    exact absurd h (by decide)

theorem sane_bytes (h : setting.family = o.family) :
    Sane o setting.bytes := by
  unfold Sane
  rw [← h]
  cases setting <;> simp [Setting.family, Setting.bytes, kAndroidMutexDestroyed,
    kAndroidMutexTypeShift, kAndroidCondClockMask]

/-- The bytes of an initializer are read back. -/
theorem setting_bytes (h : setting.family = o.family) :
    o.family.setting setting.bytes = .ok setting := by
  rw [← h]
  cases setting <;> rfl

theorem mutex_kind_family {type : ℕ} {kind : Setting} (h : mutex_kind type = some kind) :
    kind.family = .Mutex := by
  unfold mutex_kind at h
  split at h
  case h_4 => contradiction
  all_goals
    cases h
    rfl

theorem parse_mutex_family
    (h : parse_mutex_attributes attributes = .ok setting) : setting.family = .Mutex := by
  cases attributes with
  | none =>
    cases h
    rfl
  | some =>
    dsimp only [parse_mutex_attributes] at h
    split_ifs at h
    split at h
    next => contradiction
    next kind hkind =>
      cases h
      exact mutex_kind_family hkind

theorem parse_cond_family
    (h : parse_cond_attributes attributes = .ok setting) : setting.family = .Cond := by
  cases attributes with
  | none =>
    cases h
    rfl
  | some =>
    dsimp only [parse_cond_attributes] at h
    split_ifs at h
    all_goals
      cases h
      rfl

/-- Attributes choose a setting of their own family. -/
theorem parse_family {f : Family}
    (h : f.parse_attributes attributes = .ok setting) : setting.family = f := by
  cases f with
  | Mutex => exact parse_mutex_family h
  | Cond => exact parse_cond_family h

/-! ## The invariant -/

/-- The object has an entry of its lifetime. -/
structure Held (s : State) (o : Object) (e : ℕ) : Prop where
  table : s.table o = some e
  life : (s.entries e).life = s.life o
  undestroyed : (s.entries e).lifecycle ≠ .Destroyed
  sane : Sane o (s.guest o)

/-- The lifetime of the object has no entry yet. -/
structure Unmade (es : List Event) (s : State) (o : Object) (setting : Setting) : Prop where
  family : setting.family = o.family
  begun : ∃ x ∈ es, x.told = .Begin o (s.life o) setting
  unmade : ∀ e < s.made, (s.entries e).object = o → (s.entries e).life ≠ s.life o

/-- The same, and the bytes are those of the initializer. -/
structure Blank (es : List Event) (s : State) (o : Object) (setting : Setting) : Prop
    extends Unmade es s o setting where
  bytes : s.guest o = setting.bytes

/-- What the table has for the object is destroyed. -/
def Retired (s : State) (o : Object) : Prop :=
  ∀ e, s.table o = some e → (s.entries e).lifecycle = .Destroyed

/-- What the status of an object says about its entry. -/
def Placed (es : List Event) (s : State) (o : Object) : Prop :=
  match s.status o with
  | .Unused | .Destroyed => Retired s o
  | .Alive => (∃ e, Held s o e) ∨ ∃ setting, Blank es s o setting ∧ Retired s o
  | .Initializing | .Failed => True

/-- What an initialization has done. -/
def Starting (es : List Event) (s : State) (o : Object) (setting : Setting) : Phase → Prop
  | .Initializing => Unmade es s o setting
  | .Looking todo found =>
    (todo = [o] ∧ found = [] ∧ Blank es s o setting) ∨ ∃ e, todo = [] ∧ found = [e] ∧ Held s o e
  | .Searching o' todo found => o' = o ∧ todo = [] ∧ found = [] ∧ Blank es s o setting
  | .Beginning found => ∃ e, found = [e] ∧ Held s o e
  | .Leaving result => result = 0 → ∃ e, Held s o e
  | _ => False

/-- What another call has found. -/
def Working (s : State) (action : Action) : Phase → Prop
  | .Looking todo found => ∃ looked, action.objects = looked ++ todo ∧
      List.Forall₂ (Held s) looked found
  | .Searching o todo found => ∃ looked, action.objects = looked ++ o :: todo ∧
      List.Forall₂ (Held s) looked found
  | .Beginning found | .Announcing found | .Operating found =>
    List.Forall₂ (Held s) action.objects found
  | .Draining e | .Destroying e => ∃ o, action = .Destroy o ∧ Held s o e
  | .Initializing => False
  | .Leaving _ => True

def Phase.left : Phase → Bool
  | .Leaving _ => true
  | _ => false

/-- A call in progress: an initialization of an object that is being initialized, or a call on
objects that are alive until it is done. -/
structure Going (es : List Event) (s : State) (call : Call) : Prop where
  starting : ∀ o setting, call.action = .Init o setting →
    s.status o = .Initializing ∧ Starting es s o setting call.phase
  working : (∀ o setting, call.action ≠ .Init o setting) → call.phase.left = false →
    (∀ o ∈ call.action.objects, s.status o = .Alive) ∧ Working s call.action call.phase

/-- The entries, and what has been told about them. -/
structure Heap (es : List Event) (s : State) : Prop where
  table : ∀ o e, s.table o = some e → e < s.made ∧ (s.entries e).object = o
  cache : ∀ t o e, s.cache t o = some e → e < s.made ∧ (s.entries e).object = o ∧
    ((s.entries e).lifecycle = .Destroyed ∨ s.table o = some e)
  inj : ∀ e < s.made, ∀ e' < s.made, (s.entries e).object = (s.entries e').object →
    (s.entries e).life = (s.entries e').life → e = e'
  life_le : ∀ e < s.made, (s.entries e).life ≤ s.life (s.entries e).object
  acts : ∀ x ∈ es, ∀ o n e k, x.told = .Act o n e k → e < s.made ∧ (s.entries e).object = o ∧
    (s.entries e).life = n ∧ (s.entries e).setting = k
  acted : ∀ e < s.made, ∃ x ∈ es,
    x.told = .Act (s.entries e).object (s.entries e).life e (s.entries e).setting
  begun : ∀ e < s.made, ∃ x ∈ es,
    x.told = .Begin (s.entries e).object (s.entries e).life (s.entries e).setting
  begins : ∀ x ∈ es, ∀ o n k, x.told = .Begin o n k → n ≤ s.life o
  begins_once : ∀ x ∈ es, ∀ y ∈ es, ∀ o n k k', x.told = .Begin o n k → y.told = .Begin o n k' →
    k = k'

structure Inv (es : List Event) (s : State) : Prop where
  heap : Heap es s
  placed : ∀ o, Placed es s o
  going : ∀ t call, s.calls t = some call → Going es s call
  single : ∀ t u o k k' p p', s.calls t = some ⟨.Init o k, p⟩ → s.calls u = some ⟨.Init o k', p'⟩ →
    t = u

theorem Heap.faithful {es : List Event} {s : State} (h : Heap es s) : Faithful es := by
  refine ⟨fun x hx y hy o n e e' k k' hxa hya => ?_,
    fun x hx y hy o o' n n' e k k' hxa hya => ?_, fun x hx o n e k hxa => ?_,
    fun x hx y hy o n e k k' hxa hyb => ?_⟩
  · obtain ⟨hlt, ho, hn, -⟩ := h.acts x hx o n e k hxa
    obtain ⟨hlt', ho', hn', -⟩ := h.acts y hy o n e' k' hya
    exact h.inj e hlt e' hlt' (ho.trans ho'.symm) (hn.trans hn'.symm)
  · obtain ⟨-, ho, hn, -⟩ := h.acts x hx o n e k hxa
    obtain ⟨-, ho', hn', -⟩ := h.acts y hy o' n' e k' hya
    exact ⟨ho.symm.trans ho', hn.symm.trans hn'⟩
  · obtain ⟨hlt, rfl, rfl, -⟩ := h.acts x hx o n e k hxa
    obtain ⟨y, hy, hyb⟩ := h.begun e hlt
    exact ⟨y, hy, _, hyb⟩
  · obtain ⟨hlt, rfl, rfl, rfl⟩ := h.acts x hx o n e k hxa
    obtain ⟨z, hz, hzb⟩ := h.begun e hlt
    exact h.begins_once z hz y hy _ _ _ _ hzb hyb

/-! ## Updates -/

namespace State

variable (s : State) {o p : Object} {e e' : ℕ} {t u : ℕ}

theorem set_entry_self (entry : Entry) : (s.set_entry e entry).entries e = entry := by
  simp [set_entry]

theorem set_entry_of_ne (h : e' ≠ e) (entry : Entry) :
    (s.set_entry e entry).entries e' = s.entries e' := by
  simp [set_entry, h]

theorem set_guest_self (guest : Guest) : (s.set_guest o guest).guest o = guest := by
  simp [set_guest]

theorem set_guest_of_ne (h : p ≠ o) (guest : Guest) :
    (s.set_guest o guest).guest p = s.guest p := by
  simp [set_guest, h]

theorem set_status_self (status : Status) : (s.set_status o status).status o = status := by
  simp [set_status]

theorem set_status_of_ne (h : p ≠ o) (status : Status) :
    (s.set_status o status).status p = s.status p := by
  simp [set_status, h]

theorem install_entry_self (setting : Setting) :
    (s.install o setting).entries s.made = ⟨.Alive, 0, 0, setting, o, s.life o⟩ := by
  simp [install]

theorem install_entry_of_lt (h : e < s.made) (setting : Setting) :
    (s.install o setting).entries e = s.entries e := by
  simp [install, Nat.ne_of_lt h]

theorem install_table_self (setting : Setting) :
    (s.install o setting).table o = some s.made := by
  simp [install]

theorem install_table_of_ne (h : p ≠ o) (setting : Setting) :
    (s.install o setting).table p = s.table p := by
  simp [install, h]

theorem begin_life_self (status : Status) : (s.begin_life o status).life o = s.life o + 1 := by
  simp [begin_life]

theorem begin_life_of_ne (h : p ≠ o) (status : Status) :
    (s.begin_life o status).life p = s.life p := by
  simp [begin_life, h]

theorem begin_status_self (status : Status) : (s.begin_life o status).status o = status := by
  simp [begin_life]

theorem begin_status_of_ne (h : p ≠ o) (status : Status) :
    (s.begin_life o status).status p = s.status p := by
  simp [begin_life, h]

/-- The calls after a thread went on with its call. -/
theorem goto_calls {call : Call} (h : (s.goto t action phase).calls u = some call) :
    (u = t ∧ call = ⟨action, phase⟩) ∨ (u ≠ t ∧ s.calls u = some call) := by
  by_cases hu : u = t
  · rw [hu] at h
    exact .inl ⟨hu, by simpa [goto] using h.symm⟩
  · exact .inr ⟨hu, by simpa [goto, hu] using h⟩

end State

/-! ## What a step leaves as it is -/

/-- Nothing is added, and an entry is the same but for its counters; it may get destroyed. -/
structure Alike (s s' : State) : Prop where
  table : s'.table = s.table
  made : s'.made = s.made
  life : s'.life = s.life
  object : ∀ e, (s'.entries e).object = (s.entries e).object
  born : ∀ e, (s'.entries e).life = (s.entries e).life
  setting : ∀ e, (s'.entries e).setting = (s.entries e).setting
  destroyed : ∀ e, (s.entries e).lifecycle = .Destroyed → (s'.entries e).lifecycle = .Destroyed

/-- Neither does an entry get destroyed, and bytes are written only at an object that has an entry
of its lifetime. -/
structure Tweak (s s' : State) : Prop extends Alike s s' where
  status : s'.status = s.status
  undestroyed : ∀ e, (s'.entries e).lifecycle = .Destroyed → (s.entries e).lifecycle = .Destroyed
  guest : ∀ o, s'.guest o = s.guest o ∨
    (∃ e, s.table o = some e ∧ (s.entries e).life = s.life o) ∧ Sane o (s'.guest o)

/-- A step about one object leaves the other objects as they are. -/
structure Frame (s s' : State) (o : Object) : Prop where
  guest : ∀ p, p ≠ o → s'.guest p = s.guest p
  table : ∀ p, p ≠ o → s'.table p = s.table p
  status : ∀ p, p ≠ o → s'.status p = s.status p
  life : ∀ p, p ≠ o → s'.life p = s.life p
  entries : ∀ e < s.made, (s.entries e).object ≠ o → s'.entries e = s.entries e
  object : ∀ e < s.made, (s'.entries e).object = (s.entries e).object
  added : ∀ e < s'.made, e < s.made ∨ (s'.entries e).object = o

/-- What is kept of the objects in `Q` and, for those that may have no entry yet, of those in
`P`. -/
structure Keeps (Q P : Object → Prop) (es : List Event) (s : State) (es' : List Event)
    (s' : State) : Prop where
  status : ∀ o, Q o → s'.status o = s.status o
  held : ∀ o e, Q o → Held s o e → Held s' o e
  unmade : ∀ o setting, P o → Unmade es s o setting →
    Unmade es' s' o setting ∧ s'.guest o = s.guest o
  retired : ∀ o, P o → Retired s o → Retired s' o
  sub : ∀ o, P o → Q o

section Keeps

variable {Q P : Object → Prop} {es es' : List Event} {s s' : State}

section

variable (h : Keeps Q P es s es' s')
include h

theorem Keeps.blank (ho : P o) (hblank : Blank es s o setting) : Blank es' s' o setting := by
  obtain ⟨hunmade, hguest⟩ := h.unmade o setting ho hblank.toUnmade
  exact ⟨hunmade, hguest.trans hblank.bytes⟩

theorem Keeps.placed (ho : P o) (hplaced : Placed es s o) :
    Placed es' s' o := by
  unfold Placed at hplaced ⊢
  rw [h.status o (h.sub o ho)]
  split at hplaced
  next => exact h.retired o ho hplaced
  next => exact h.retired o ho hplaced
  next =>
    rcases hplaced with ⟨e, hheld⟩ | ⟨setting, hblank, hretired⟩
    · exact .inl ⟨e, h.held o e (h.sub o ho) hheld⟩
    · exact .inr ⟨setting, h.blank ho hblank, h.retired o ho hretired⟩
  next => trivial
  next => trivial

theorem Keeps.starting (ho : P o) (hstarting : Starting es s o setting phase) :
    Starting es' s' o setting phase := by
  have hheld : ∀ e, Held s o e → Held s' o e := fun e => h.held o e (h.sub o ho)
  cases phase with
  | Initializing => exact (h.unmade o setting ho hstarting).1
  | Looking =>
    rcases hstarting with ⟨htodo, hfound, hblank⟩ | ⟨e, htodo, hfound, he⟩
    · exact .inl ⟨htodo, hfound, h.blank ho hblank⟩
    · exact .inr ⟨e, htodo, hfound, hheld e he⟩
  | Searching =>
    obtain ⟨heq, htodo, hfound, hblank⟩ := hstarting
    exact ⟨heq, htodo, hfound, h.blank ho hblank⟩
  | Beginning =>
    obtain ⟨e, hfound, he⟩ := hstarting
    exact ⟨e, hfound, hheld e he⟩
  | Leaving =>
    intro hresult
    obtain ⟨e, he⟩ := hstarting hresult
    exact ⟨e, hheld e he⟩
  | Announcing | Operating | Draining | Destroying => exact hstarting.elim

theorem Keeps.forall₂ {objects : List Object} {found : List ℕ}
    (hQ : ∀ o ∈ objects, Q o) (hfound : List.Forall₂ (Held s) objects found) :
    List.Forall₂ (Held s') objects found := by
  induction hfound with
  | nil => exact .nil
  | @cons o e objects found hheld _ ih =>
    refine .cons (h.held o e (hQ o List.mem_cons_self) hheld) (ih ?_)
    intro p hp
    exact hQ p (List.mem_cons_of_mem o hp)

theorem Keeps.working (hQ : ∀ o ∈ action.objects, Q o) (hworking : Working s action phase) :
    Working s' action phase := by
  cases phase with
  | Looking todo =>
    obtain ⟨looked, hobjects, hfound⟩ := hworking
    refine ⟨looked, hobjects, h.forall₂ (fun o ho => hQ o ?_) hfound⟩
    rw [hobjects]
    exact List.mem_append_left todo ho
  | Searching o' todo =>
    obtain ⟨looked, hobjects, hfound⟩ := hworking
    refine ⟨looked, hobjects, h.forall₂ (fun o ho => hQ o ?_) hfound⟩
    rw [hobjects]
    exact List.mem_append_left (o' :: todo) ho
  | Beginning | Announcing | Operating => exact h.forall₂ hQ hworking
  | Draining e | Destroying e =>
    obtain ⟨o, rfl, he⟩ := hworking
    exact ⟨o, rfl, h.held o e (hQ o (List.mem_singleton.mpr rfl)) he⟩
  | Initializing => exact hworking
  | Leaving => trivial

theorem Keeps.going {call : Call} (hP : ∀ o setting, call.action = .Init o setting → P o)
    (hQ : call.phase.left = false → ∀ o ∈ call.action.objects, Q o) (hgoing : Going es s call) :
    Going es' s' call := by
  refine ⟨fun o setting haction => ?_, fun haction hleft => ?_⟩
  · obtain ⟨hstatus, hstarting⟩ := hgoing.starting o setting haction
    have ho : P o := hP o setting haction
    rw [h.status o (h.sub o ho)]
    exact ⟨hstatus, h.starting ho hstarting⟩
  · obtain ⟨hstatus, hworking⟩ := hgoing.working haction hleft
    refine ⟨fun o ho => ?_, h.working (hQ hleft) hworking⟩
    rw [h.status o (hQ hleft o ho)]
    exact hstatus o ho

end

/-- The invariant after a step: the calls that go on as before keep what they have. -/
theorem Inv.rebuild (h : Inv es s) (hkeeps : Keeps Q P es s es' s') (hheap : Heap es' s')
    (hplaced : ∀ o, ¬ P o → Placed es' s' o)
    (hgoing : ∀ u call, s'.calls u = some call → Going es' s' call ∨ (s.calls u = some call ∧
      (∀ o setting, call.action = .Init o setting → P o) ∧
      (call.phase.left = false → ∀ o ∈ call.action.objects, Q o)))
    (hsingle : ∀ t u o k k' p p', s'.calls t = some ⟨.Init o k, p⟩ →
      s'.calls u = some ⟨.Init o k', p'⟩ → t = u) : Inv es' s' := by
  refine ⟨hheap, fun o => ?_, fun u call hcall => ?_, hsingle⟩
  · by_cases ho : P o
    · exact hkeeps.placed ho (h.placed o)
    · exact hplaced o ho
  · rcases hgoing u call hcall with hgoing | ⟨hbefore, hP, hQ⟩
    · exact hgoing
    · exact hkeeps.going hP hQ (h.going u call hbefore)

end Keeps

section Frames

variable {es : List Event} {x : Event} {s s' s'' : State} {o : Object}

theorem begun_snoc {told : Told} (h : ∃ y ∈ es, y.told = told) : ∃ y ∈ es ++ [x], y.told = told := by
  obtain ⟨y, hy, htold⟩ := h
  exact ⟨y, List.mem_append_left [x] hy, htold⟩

variable {e : ℕ} {p : Object}

theorem Held.lt (h : Heap es s) (hheld : Held s o e) :
    e < s.made ∧ (s.entries e).object = o :=
  h.table o e hheld.table

/-- An object has an entry of its lifetime, or it has none. -/
theorem Unmade.not_held (h : Heap es s) (hunmade : Unmade es s o setting)
    (e : ℕ) : ¬ Held s o e := by
  intro hheld
  obtain ⟨hlt, hobject⟩ := hheld.lt h
  exact hunmade.unmade e hlt hobject hheld.life

theorem Tweak.keeps (h : Heap es s) (htweak : Tweak s s') :
    Keeps (fun _ => True) (fun _ => True) es s (es ++ [x]) s' := by
  refine ⟨fun o _ => congrFun htweak.status o, fun o e _ hheld => ?_, fun o setting _ hunmade => ?_,
    fun o _ hretired e he => ?_, fun o _ => trivial⟩
  · refine ⟨?_, ?_, fun hdestroyed => hheld.undestroyed (htweak.undestroyed e hdestroyed), ?_⟩
    · rw [htweak.table]
      exact hheld.table
    · rw [htweak.born, htweak.life]
      exact hheld.life
    · rcases htweak.guest o with hguest | ⟨-, hsane⟩
      · rw [hguest]
        exact hheld.sane
      · exact hsane
  · refine ⟨⟨hunmade.family, ?_, fun e he hobject => ?_⟩, ?_⟩
    · rw [htweak.life]
      exact begun_snoc hunmade.begun
    · rw [htweak.made] at he
      rw [htweak.object] at hobject
      rw [htweak.born, htweak.life]
      exact hunmade.unmade e he hobject
    · rcases htweak.guest o with hguest | ⟨⟨e, he, hlife⟩, -⟩
      · exact hguest
      · obtain ⟨hlt, hobject⟩ := h.table o e he
        exact absurd hlife (hunmade.unmade e hlt hobject)
  · rw [htweak.table] at he
    exact htweak.destroyed e (hretired e he)

theorem Tweak.refl (s : State) : Tweak s s where
  table := rfl
  made := rfl
  life := rfl
  object _ := rfl
  born _ := rfl
  setting _ := rfl
  destroyed _ h := h
  status := rfl
  undestroyed _ h := h
  guest _ := .inl rfl

theorem Tweak.trans (h : Tweak s s') (h' : Tweak s' s'') : Tweak s s'' where
  table := h'.table.trans h.table
  made := h'.made.trans h.made
  life := h'.life.trans h.life
  object e := (h'.object e).trans (h.object e)
  born e := (h'.born e).trans (h.born e)
  setting e := (h'.setting e).trans (h.setting e)
  destroyed e hdestroyed := h'.destroyed e (h.destroyed e hdestroyed)
  status := h'.status.trans h.status
  undestroyed e hdestroyed := h.undestroyed e (h'.undestroyed e hdestroyed)
  guest o := by
    rcases h'.guest o with hguest | ⟨⟨e, he, hlife⟩, hsane⟩
    · rw [hguest]
      exact h.guest o
    · rw [h.table] at he
      rw [h.born, h.life] at hlife
      exact .inr ⟨⟨e, he, hlife⟩, hsane⟩

/-- Counters are counted, or a destroy begins or is given up. -/
theorem Tweak.set_entry {entry : Entry} (hobject : entry.object = (s.entries e).object)
    (hborn : entry.life = (s.entries e).life) (hsetting : entry.setting = (s.entries e).setting)
    (hlifecycle : entry.lifecycle = .Destroyed ↔ (s.entries e).lifecycle = .Destroyed) :
    Tweak s (s.set_entry e entry) := by
  have hentries : ∀ e', (s.set_entry e entry).entries e' = s.entries e' ∨
      (e' = e ∧ (s.set_entry e entry).entries e' = entry) := by
    intro e'
    by_cases heq : e' = e
    · rw [heq]
      exact .inr ⟨rfl, s.set_entry_self entry⟩
    · exact .inl (s.set_entry_of_ne heq entry)
  refine ⟨⟨rfl, rfl, rfl, fun e' => ?_, fun e' => ?_, fun e' => ?_, fun e' h => ?_⟩, rfl,
    fun e' h => ?_, fun _ => .inl rfl⟩
  all_goals rcases hentries e' with heq | ⟨rfl, heq⟩
  all_goals first | rw [heq] at h | rw [heq]
  all_goals first
    | assumption
    | exact hlifecycle.mpr h
    | exact hlifecycle.mp h

/-- And then bytes are written. -/
theorem Tweak.set_guest (h : Tweak s s') {guest : Guest} (hheld : Held s o e)
    (hsane : Sane o guest) : Tweak s (s'.set_guest o guest) := by
  refine { h with guest := fun p => ?_ }
  rcases eq_or_ne p o with rfl | hp
  · refine .inr ⟨⟨e, hheld.table, hheld.life⟩, ?_⟩
    rwa [s'.set_guest_self]
  · rw [s'.set_guest_of_ne hp]
    exact h.guest p

theorem Frame.held (h : Heap es s) (hframe : Frame s s' o) (hp : p ≠ o)
    (hheld : Held s p e) : Held s' p e := by
  obtain ⟨hlt, hobject⟩ := hheld.lt h
  have hentry : s'.entries e = s.entries e := hframe.entries e hlt (by rw [hobject]; exact hp)
  refine ⟨?_, ?_, ?_, ?_⟩
  · rw [hframe.table p hp]
    exact hheld.table
  · rw [hentry, hframe.life p hp]
    exact hheld.life
  · rw [hentry]
    exact hheld.undestroyed
  · rw [hframe.guest p hp]
    exact hheld.sane

theorem Frame.unmade (hframe : Frame s s' o) (hp : p ≠ o)
    (hunmade : Unmade es s p setting) : Unmade (es ++ [x]) s' p setting := by
  refine ⟨hunmade.family, ?_, fun e he hobject => ?_⟩
  · rw [hframe.life p hp]
    exact begun_snoc hunmade.begun
  · rcases hframe.added e he with hlt | hadded
    · rw [hframe.object e hlt] at hobject
      rw [hframe.entries e hlt (by rw [hobject]; exact hp), hframe.life p hp]
      exact hunmade.unmade e hlt hobject
    · exact absurd (hobject.symm.trans hadded) hp

section

variable (h : Heap es s) (hframe : Frame s s' o)
include h hframe

theorem Frame.retired (hp : p ≠ o) (hretired : Retired s p) : Retired s' p := by
  intro e he
  rw [hframe.table p hp] at he
  obtain ⟨hlt, hobject⟩ := h.table p e he
  rw [hframe.entries e hlt (by rw [hobject]; exact hp)]
  exact hretired e he

theorem Frame.keeps :
    Keeps (· ≠ o) (· ≠ o) es s (es ++ [x]) s' :=
  ⟨fun p hp => hframe.status p hp, fun _ _ hp => hframe.held h hp,
    fun p _ hp hunmade => ⟨hframe.unmade hp hunmade, hframe.guest p hp⟩,
    fun _ hp => hframe.retired h hp, fun _ hp => hp⟩

/-- The same, where the object had no entry of its lifetime. -/
theorem Frame.keeps_all (hstatus : s'.status o = s.status o) (hunmade : Unmade es s o setting) :
    Keeps (fun _ => True) (· ≠ o) es s (es ++ [x]) s' := by
  refine ⟨fun p _ => ?_, fun p e _ hheld => ?_, (hframe.keeps h).unmade,
    fun _ hp => hframe.retired h hp, fun _ _ => trivial⟩
  · by_cases hp : p = o
    · rwa [hp]
    · exact hframe.status p hp
  · by_cases hp : p = o
    · rw [hp] at hheld
      exact absurd hheld (hunmade.not_held h e)
    · exact hframe.held h hp hheld

end

end Frames

/-! ## The entries after a step -/

section Heap

variable {es : List Event} {x : Event} {s s' : State} {o : Object} {setting : Setting}

theorem Heap.alike (h : Heap es s) (halike : Alike s s') (hcache : s'.cache = s.cache) :
    Heap es s' where
  table o e he := by
    rw [halike.table] at he
    rw [halike.made, halike.object]
    exact h.table o e he
  cache t o e he := by
    rw [hcache] at he
    obtain ⟨hlt, hobject, hplace⟩ := h.cache t o e he
    rw [halike.made, halike.object, halike.table]
    exact ⟨hlt, hobject, hplace.imp_left (halike.destroyed e)⟩
  inj e he e' he' := by
    rw [halike.made] at he he'
    rw [halike.object, halike.object, halike.born, halike.born]
    exact h.inj e he e' he'
  life_le e he := by
    rw [halike.made] at he
    rw [halike.born, halike.object, halike.life]
    exact h.life_le e he
  acts y hy o n e k htold := by
    rw [halike.made, halike.object, halike.born, halike.setting]
    exact h.acts y hy o n e k htold
  acted e he := by
    rw [halike.made] at he
    rw [halike.object, halike.born, halike.setting]
    exact h.acted e he
  begun e he := by
    rw [halike.made] at he
    rw [halike.object, halike.born, halike.setting]
    exact h.begun e he
  begins y hy o n k htold := by
    rw [halike.life]
    exact h.begins y hy o n k htold
  begins_once := h.begins_once

/-- An event that begins no lifetime is none of those that do. -/
theorem mem_of_begin (hbegin : ∀ o n k, x.told ≠ .Begin o n k) {y : Event} (hy : y ∈ es ++ [x])
    {n : ℕ} (htold : y.told = .Begin o n setting) : y ∈ es := by
  rcases mem_snoc hy with hy | hy
  · exact hy
  · rw [hy] at htold
    exact absurd htold (hbegin o n setting)

section

variable (h : Heap es s)
include h

/-- An event that begins no lifetime, and acts on an entry only as the entry says. -/
theorem Heap.snoc (hbegin : ∀ o n k, x.told ≠ .Begin o n k)
    (hact : ∀ o n e k, x.told = .Act o n e k → e < s.made ∧ (s.entries e).object = o ∧
      (s.entries e).life = n ∧ (s.entries e).setting = k) : Heap (es ++ [x]) s where
  table := h.table
  cache := h.cache
  inj := h.inj
  life_le := h.life_le
  acts y hy o n e k htold := by
    rcases mem_snoc hy with hy | hy
    · exact h.acts y hy o n e k htold
    · rw [hy] at htold
      exact hact o n e k htold
  acted e he := begun_snoc (h.acted e he)
  begun e he := begun_snoc (h.begun e he)
  begins y hy o n k htold := h.begins y (mem_of_begin hbegin hy htold) o n k htold
  begins_once y hy z hz o n k k' hytold hztold :=
    h.begins_once y (mem_of_begin hbegin hy hytold) z (mem_of_begin hbegin hz hztold) o n k k'
      hytold hztold

theorem Heap.silent (htold : x.told = .Silent) : Heap (es ++ [x]) s := by
  refine h.snoc (fun o n k => ?_) (fun o n e k hact => ?_)
  · rw [htold]
    exact nofun
  · rw [htold] at hact
    contradiction

theorem Heap.end (htold : x.told = .End o) : Heap (es ++ [x]) s := by
  refine h.snoc (fun o n k => ?_) (fun o n e k hact => ?_)
  · rw [htold]
    exact nofun
  · rw [htold] at hact
    contradiction

/-- An operation acts on the entry of the lifetime. -/
theorem Heap.act {e : ℕ} (hheld : Held s o e)
    (htold : x.told = .Act o (s.life o) e (s.entries e).setting) : Heap (es ++ [x]) s := by
  refine h.snoc (fun o n k => ?_) (fun o' n e' k hact => ?_)
  · rw [htold]
    exact nofun
  · rw [htold] at hact
    injection hact with ho hn he hk
    obtain ⟨hlt, hobject⟩ := hheld.lt h
    rw [← ho, ← hn, ← he, ← hk]
    exact ⟨hlt, hobject, hheld.life, rfl⟩

theorem Heap.remember {e : ℕ} (he : s.table o = some e) (t : ℕ) :
    Heap es (s.remember t o e) := by
  refine { h with cache := ?_ }
  intro u p e' hcache
  by_cases hu : u = t
  · by_cases hp : p = o
    · have heq : e' = e := by
        rw [hu, hp] at hcache
        simpa [State.remember] using hcache.symm
      rw [heq, hp]
      exact ⟨(h.table o e he).1, (h.table o e he).2, .inr he⟩
    · refine h.cache u p e' ?_
      rw [hu] at hcache ⊢
      simpa [State.remember, hp] using hcache
  · refine h.cache u p e' ?_
    simpa [State.remember, hu] using hcache

/-- A new entry, of a lifetime that has none. -/
theorem Heap.install (hunmade : Unmade es s o setting) (hretired : Retired s o)
    (htold : x.told = .Act o (s.life o) s.made setting) :
    Heap (es ++ [x]) (s.install o setting) := by
  have hcases : ∀ e, e < (s.install o setting).made → e < s.made ∨ e = s.made :=
    fun e he => Nat.lt_succ_iff_lt_or_eq.mp he
  have hnew : (s.install o setting).entries s.made = ⟨.Alive, 0, 0, setting, o, s.life o⟩ :=
    s.install_entry_self setting
  have hold : ∀ e, e < s.made → (s.install o setting).entries e = s.entries e :=
    fun e he => s.install_entry_of_lt he setting
  have hbegin : ∀ p n k, x.told ≠ .Begin p n k := by
    rw [htold]
    exact fun _ _ _ => nofun
  -- a new entry and an old one of the object differ in their lifetimes
  have hdiffer : ∀ e, e < s.made → (s.entries e).object = o → (s.entries e).life ≠ s.life o :=
    hunmade.unmade
  refine
    { table := fun p e he => ?_
      cache := fun t p e he => ?_
      inj := fun e he e' he' hobject hborn => ?_
      life_le := fun e he => ?_
      acts := fun y hy p n e k hact => ?_
      acted := fun e he => ?_
      begun := fun e he => ?_
      begins := fun y hy p n k hytold => h.begins y (mem_of_begin hbegin hy hytold) p n k hytold
      begins_once := fun y hy z hz p n k k' hytold hztold =>
        h.begins_once y (mem_of_begin hbegin hy hytold) z (mem_of_begin hbegin hz hztold) p n k k'
          hytold hztold }
  · by_cases hp : p = o
    · rw [hp, s.install_table_self] at he
      injection he with he
      rw [← he, hnew, hp]
      exact ⟨Nat.lt_succ_self _, rfl⟩
    · rw [s.install_table_of_ne hp] at he
      obtain ⟨hlt, hobject⟩ := h.table p e he
      rw [hold e hlt]
      exact ⟨Nat.lt_succ_of_lt hlt, hobject⟩
  · obtain ⟨hlt, hobject, hplace⟩ := h.cache t p e he
    rw [hold e hlt]
    refine ⟨Nat.lt_succ_of_lt hlt, hobject, hplace.elim .inl fun htable => ?_⟩
    by_cases hp : p = o
    · rw [hp] at htable
      exact .inl (hretired e htable)
    · rw [s.install_table_of_ne hp]
      exact .inr htable
  · rcases hcases e he with hlt | rfl <;> rcases hcases e' he' with hlt' | rfl
    · rw [hold e hlt, hold e' hlt'] at hobject hborn
      exact h.inj e hlt e' hlt' hobject hborn
    · rw [hold e hlt, hnew] at hobject hborn
      exact absurd hborn (hdiffer e hlt hobject)
    · rw [hnew, hold e' hlt'] at hobject hborn
      exact absurd hborn.symm (hdiffer e' hlt' hobject.symm)
    · rfl
  · rcases hcases e he with hlt | rfl
    · rw [hold e hlt]
      exact h.life_le e hlt
    · rw [hnew]
      exact Nat.le_refl _
  · rcases mem_snoc hy with hy | hy
    · obtain ⟨hlt, hfacts⟩ := h.acts y hy p n e k hact
      rw [hold e hlt]
      exact ⟨Nat.lt_succ_of_lt hlt, hfacts⟩
    · rw [hy, htold] at hact
      injection hact with ho hn he hk
      rw [← ho, ← hn, ← he, ← hk, hnew]
      exact ⟨Nat.lt_succ_self _, rfl, rfl, rfl⟩
  · rcases hcases e he with hlt | rfl
    · rw [hold e hlt]
      exact begun_snoc (h.acted e hlt)
    · rw [hnew]
      exact ⟨x, List.mem_append_right es (List.mem_singleton.mpr rfl), htold⟩
  · rcases hcases e he with hlt | rfl
    · rw [hold e hlt]
      exact begun_snoc (h.begun e hlt)
    · rw [hnew]
      exact begun_snoc hunmade.begun

/-- A lifetime begins. -/
theorem Heap.begin_life (status : Status) (htold : x.told = .Begin o (s.life o + 1) setting) :
    Heap (es ++ [x]) (s.begin_life o status) := by
  have hlife : ∀ p, s.life p ≤ (s.begin_life o status).life p := by
    intro p
    by_cases hp : p = o
    · rw [hp, s.begin_life_self]
      exact Nat.le_succ _
    · exact Nat.le_of_eq (s.begin_life_of_ne hp status).symm
  -- a lifetime that had begun before is not this one
  have hfresh : ∀ y ∈ es, ∀ k, y.told ≠ .Begin o (s.life o + 1) k := by
    intro y hy k hytold
    exact absurd (h.begins y hy o _ k hytold) (Nat.not_succ_le_self _)
  have hcases : ∀ y ∈ es ++ [x], ∀ p n k, y.told = .Begin p n k →
      y ∈ es ∨ (p = o ∧ n = s.life o + 1 ∧ k = setting) := by
    intro y hy p n k hytold
    rcases mem_snoc hy with hy | hy
    · exact .inl hy
    · rw [hy, htold] at hytold
      injection hytold with ho hn hk
      exact .inr ⟨ho.symm, hn.symm, hk.symm⟩
  refine
    { table := h.table
      cache := h.cache
      inj := h.inj
      life_le := fun e he => Nat.le_trans (h.life_le e he) (hlife _)
      acts := fun y hy p n e k hact => ?_
      acted := fun e he => begun_snoc (h.acted e he)
      begun := fun e he => begun_snoc (h.begun e he)
      begins := fun y hy p n k hytold => ?_
      begins_once := fun y hy z hz p n k k' hytold hztold => ?_ }
  · rcases mem_snoc hy with hy | hy
    · exact h.acts y hy p n e k hact
    · rw [hy, htold] at hact
      contradiction
  · rcases hcases y hy p n k hytold with hy | ⟨hp, hn, -⟩
    · exact Nat.le_trans (h.begins y hy p n k hytold) (hlife p)
    · rw [hp, hn]
      exact Nat.le_of_eq (s.begin_life_self status).symm
  · rcases hcases y hy p n k hytold with hy | ⟨rfl, rfl, hk⟩
    · rcases hcases z hz p n k' hztold with hz | ⟨rfl, rfl, -⟩
      · exact h.begins_once y hy z hz p n k k' hytold hztold
      · exact absurd hytold (hfresh y hy k)
    · rcases hcases z hz p _ k' hztold with hz | ⟨-, -, hk'⟩
      · exact absurd hztold (hfresh z hz k')
      · exact hk.trans hk'.symm

end

end Heap

end DarwinArt.Pthread.SideTable
