/-
Whole runs of the side tables: which entry the operations of a lifetime act on.

A step that neither adopts an entry nor misfits one keeps the invariant. One that does breaks the
statement at once, and for good: what was told of a step stays told.
-/
import DarwinArt.Pthread.SideTableSteps

set_option autoImplicit false

namespace DarwinArt.Pthread.SideTable

open Lib

section Steps

variable {es : List Event} {x : Event} {s s' : State} {t e : ℕ} {o : Object} {setting : Setting}
  {trace host : Bool}

variable {told : Told} {fs : List Event}

/-- A step that neither adopts an entry nor misfits one keeps the invariant. -/
theorem Inv.go (h : Inv es s) (hnext : s.next trace host t = some (told, s'))
    (halone : ∀ o, told = .End o → s.Alone t o) (hadopts : ¬ Event.Adopts ⟨s, .Go t host, told⟩)
    (hmisfits : ¬ Event.Misfits trace ⟨s, .Go t host, told⟩) :
    Inv (es ++ [⟨s, .Go t host, told⟩]) s' := by
  unfold State.next at hnext
  split at hnext
  next => contradiction
  next action hcall =>
    split at hnext
    next o setting =>
      split at hnext
      next =>
        injection hnext with hnext
        obtain ⟨htold, hs⟩ := Prod.mk.inj hnext
        rw [← hs]
        exact h.mutex_init hcall htold.symm
      next =>
        cases hnext
        exact h.cond_init hcall rfl
    next => contradiction
  next action o todo found hcall =>
    exact h.look hcall (Option.some.inj hnext) hadopts
  next action o todo found hcall => exact h.search hcall (Option.some.inj hnext) hadopts hmisfits
  next action found hcall =>
    cases hnext
    exact h.looked_all hcall rfl
  next action found hcall =>
    obtain ⟨s'', hnext, heq⟩ := Option.map_eq_some_iff.mp hnext
    cases heq
    exact h.begin_action hcall hnext rfl
  next action found hcall =>
    split at hnext
    next =>
      cases hnext
      exact h.announce hcall rfl
    next => contradiction
  next action found hcall =>
    obtain ⟨s'', hnext, heq⟩ := Option.map_eq_some_iff.mp hnext
    cases heq
    exact h.end_action hcall hnext rfl
  next action e hcall =>
    split at hnext
    next => contradiction
    next =>
      cases hnext
      exact h.drained hcall rfl
  next o e hcall =>
    injection hnext with hnext
    obtain ⟨htold, hs⟩ := Prod.mk.inj hnext
    rw [← hs]
    exact h.end_destroy hcall htold.symm halone
  next => contradiction
  next action result hcall =>
    cases hnext
    exact h.leave hcall rfl

theorem serves_of_undestroyed (h : (s.entries e).lifecycle ≠ .Destroyed) : s.serves o e = true :=
  decide_eq_true (.inl h)

/-- An operation on an entry of another lifetime. -/
theorem Heap.unfaithful (h : Heap es s) (hunmade : Unmade es s o setting) (he : e < s.made)
    (hobject : (s.entries e).object = o) {k : Setting} (htold : x.told = .Act o (s.life o) e k)
    (hfs : es ++ [x] ⊆ fs) : ¬ Faithful fs := by
  intro hfaithful
  obtain ⟨y, hy, hytold⟩ := h.acted e he
  have hown := hfaithful.own y (hfs (List.mem_append_left [x] hy)) x
    (hfs (List.mem_append_right es (List.mem_singleton.mpr rfl))) _ _ _ _ _ _ _ hytold htold
  exact hunmade.unmade e he hobject hown.2

/-- An initialization that adopts an entry acts on the entry of another lifetime. -/
theorem Inv.unfaithful_of_adopts (h : Inv es s) (hnext : s.next trace host t = some (told, s'))
    (hadopts : Event.Adopts ⟨s, .Go t host, told⟩)
    (hfs : es ++ [⟨s, .Go t host, told⟩] ⊆ fs) : ¬ Faithful fs := by
  obtain ⟨u, host', o, setting, e, hop, hlifecycle, hplace⟩ := hadopts
  cases hop
  have hserves : s.serves o e = true := serves_of_undestroyed hlifecycle
  rcases hplace with ⟨todo, found, hcall, hcache⟩ | ⟨todo, found, hcall, htable⟩
  · obtain ⟨-, hstarting⟩ := (h.going t _ hcall).starting o setting rfl
    rcases hstarting with ⟨-, -, hblank⟩ | ⟨e', htodo, -⟩
    · obtain ⟨hlt, hobject, -⟩ := h.heap.cache t o e hcache
      have hlook : s.look t (.Init o setting) o todo found =
          s.take t (.Init o setting) o e todo found := by
        unfold State.look
        rw [Option.filter_eq_some_iff.mpr ⟨hcache, hserves⟩]
      unfold State.next at hnext
      rw [hcall] at hnext
      have htold : (s.look t (.Init o setting) o todo found).1 = told :=
        congrArg Prod.fst (Option.some.inj hnext)
      rw [hlook] at htold
      exact h.heap.unfaithful hblank.toUnmade hlt hobject htold.symm hfs
    · cases htodo
  · obtain ⟨-, -, -, -, hblank⟩ := (h.going t _ hcall).starting o setting rfl
    obtain ⟨hlt, hobject⟩ := h.heap.table o e htable
    have hsearch : s.search trace host t (.Init o setting) o todo found =
        (s.remember t o e).take t (.Init o setting) o e todo found := by
      unfold State.search
      rw [Option.filter_eq_some_iff.mpr ⟨htable, hserves⟩]
    unfold State.next at hnext
    rw [hcall] at hnext
    have htold : (s.search trace host t (.Init o setting) o todo found).1 = told :=
      congrArg Prod.fst (Option.some.inj hnext)
    rw [hsearch] at htold
    exact h.heap.unfaithful hblank.toUnmade hlt hobject htold.symm hfs

/-- A mutex that misfits has another kind than its initializer said. -/
theorem Inv.unfaithful_of_misfits (h : Inv es s) (hnext : s.next trace host t = some (told, s'))
    (hmisfits : Event.Misfits trace ⟨s, .Go t host, told⟩)
    (hfs : es ++ [⟨s, .Go t host, told⟩] ⊆ fs) : ¬ Faithful fs := by
  obtain ⟨htrace, u, action, o, todo, found, setting, hop, hcall, hnone, hsetting, hfamily, hne⟩ :=
    hmisfits
  injection hop with hu hhost
  subst hu hhost htrace
  obtain ⟨-, k, hblank⟩ := h.unfound hcall hnone
  have hk : k = setting := by
    have hbytes := setting_bytes hblank.family
    rw [← hblank.bytes, hsetting] at hbytes
    injection hbytes with hbytes
    exact hbytes.symm
  have hsearch : (s.search false false t action o todo found).1 =
      .Act o (s.life o) s.made .Normal := by
    unfold State.search
    rw [hnone, hsetting]
    simp [hfamily, State.take, State.remember, State.install]
  unfold State.next at hnext
  rw [hcall] at hnext
  have htold : (s.search false false t action o todo found).1 = told :=
    congrArg Prod.fst (Option.some.inj hnext)
  rw [hsearch] at htold
  intro hfaithful
  obtain ⟨y, hy, hytold⟩ := hblank.begun
  have hnormal := hfaithful.setting ⟨s, .Go t false, told⟩
    (hfs (List.mem_append_right es (List.mem_singleton.mpr rfl))) y
    (hfs (List.mem_append_left _ hy)) o (s.life o) s.made .Normal k htold.symm hytold
  exact hne (hk.symm.trans hnormal.symm)

/-- A step that adopts or misfits is the step of a call. -/
theorem Step.go_of_bad (hstep : Step trace s x s') (hbad : x.Adopts ∨ x.Misfits trace) :
    ∃ t host told, s.next trace host t = some (told, s') ∧ x = ⟨s, .Go t host, told⟩ := by
  have hop : ∃ t host, x.op = .Go t host := by
    rcases hbad with ⟨t, host, _, _, _, hop, -⟩ | ⟨-, t, _, _, _, _, _, hop, -⟩
    · exact ⟨t, host, hop⟩
    · exact ⟨t, false, hop⟩
  obtain ⟨t, host, hop⟩ := hop
  cases hstep with
  | go hnext => exact ⟨_, _, _, hnext, rfl⟩
  | static | init | refused | call => cases hop

theorem Inv.step (h : Inv es s) (hstep : Step trace s x s') (hadopts : ¬ x.Adopts)
    (hmisfits : ¬ x.Misfits trace) : Inv (es ++ [x]) s' := by
  cases hstep with
  | static hfamily hstatus hfree => exact h.static hfamily hstatus hfree rfl
  | init _ hparse hfree => exact h.init (parse_family hparse) hfree rfl
  | refused =>
    refine ⟨h.heap.silent ?_, fun o => ?_, fun t call hcall => ?_, h.single⟩
    · rfl
    · exact ((Tweak.refl s).keeps h.heap).placed trivial (h.placed o)
    · exact ((Tweak.refl s).keeps h.heap).going (fun _ _ _ => trivial) (fun _ _ _ => trivial)
        (h.going t call hcall)
  | call _ haction halive => exact h.call haction halive rfl
  | go hnext halone => exact h.go hnext halone hadopts hmisfits

theorem heap_new (guest : Object → Guest) : Heap [] (State.new guest) where
  table _ _ h := nomatch h
  cache _ _ _ h := nomatch h
  inj _ he := absurd he (Nat.not_lt_zero _)
  life_le _ he := absurd he (Nat.not_lt_zero _)
  acts _ hx := absurd hx List.not_mem_nil
  acted _ he := absurd he (Nat.not_lt_zero _)
  begun _ he := absurd he (Nat.not_lt_zero _)
  begins _ hx := absurd hx List.not_mem_nil
  begins_once _ hx := absurd hx List.not_mem_nil

theorem inv_new (guest : Object → Guest) : Inv [] (State.new guest) where
  heap := heap_new guest
  placed _ := Placed.of_retired (.inl rfl) fun _ h => nomatch h
  going _ _ h := nomatch h
  single _ _ _ _ _ _ _ h := nomatch h

/-- The run so far is good and keeps the invariant, or it will never be faithful again. -/
theorem run_inv {guest : Object → Guest} (hrun : Run (Step trace) (State.new guest) es s) :
    ((∀ x ∈ es, ¬ x.Adopts ∧ ¬ x.Misfits trace) ∧ Inv es s) ∨
      ((∃ x ∈ es, x.Adopts ∨ x.Misfits trace) ∧ ∀ fs, es ⊆ fs → ¬ Faithful fs) := by
  refine Run.history (fun es s => ((∀ x ∈ es, ¬ x.Adopts ∧ ¬ x.Misfits trace) ∧ Inv es s) ∨
    ((∃ x ∈ es, x.Adopts ∨ x.Misfits trace) ∧ ∀ fs, es ⊆ fs → ¬ Faithful fs))
    (.inl ⟨List.forall_mem_nil _, inv_new guest⟩) ?_ hrun
  intro es s x s' _ ih hstep
  have hlast : x ∈ es ++ [x] := List.mem_append_right es (List.mem_singleton.mpr rfl)
  rcases ih with ⟨hgood, hinv⟩ | ⟨⟨y, hy, hbad⟩, hnever⟩
  · by_cases hbad : x.Adopts ∨ x.Misfits trace
    · refine .inr ⟨⟨x, hlast, hbad⟩, fun fs hfs => ?_⟩
      obtain ⟨t, host, told, hnext, rfl⟩ := hstep.go_of_bad hbad
      rcases hbad with hadopts | hmisfits
      · exact hinv.unfaithful_of_adopts hnext hadopts hfs
      · exact hinv.unfaithful_of_misfits hnext hmisfits hfs
    · push Not at hbad
      refine .inl ⟨fun y hy => ?_, hinv.step hstep hbad.1 hbad.2⟩
      rcases mem_snoc hy with hy | hy
      · exact hgood y hy
      · rwa [hy]
  · exact .inr ⟨⟨y, List.mem_append_left [x] hy, hbad⟩,
      fun fs hfs => hnever fs fun z hz => hfs (List.mem_append_left [x] hz)⟩

end Steps

/-- **One entry for each lifetime.** In every run, the operations of each lifetime act on one entry,
which no other lifetime uses and which has the kind or the clock that the initializer gave, exactly
if no initialization of a condition finds an entry that is alive, and no host mutex of another kind
than the normal one cannot be made. -/
theorem faithful_iff_no_adoption_no_misfit {trace : Bool} {guest : Object → Guest}
    {es : List Event} {s : State} (hrun : Run (Step trace) (State.new guest) es s) :
    Faithful es ↔ ∀ x ∈ es, ¬ x.Adopts ∧ ¬ x.Misfits trace := by
  rcases run_inv hrun with ⟨hgood, hinv⟩ | ⟨⟨x, hx, hbad⟩, hnever⟩
  · exact iff_of_true hinv.heap.faithful hgood
  · refine iff_of_false (hnever es (List.Subset.refl es)) fun hgood => ?_
    rcases hbad with hadopts | hmisfits
    · exact (hgood x hx).1 hadopts
    · exact (hgood x hx).2 hmisfits

theorem told_of_map {es : List Event} {told : List Told} (h : es.map Event.told = told) {a : Told}
    (ha : a ∈ told) : ∃ x ∈ es, x.told = a := by
  rw [← h] at ha
  exact List.mem_map.mp ha

/-! ### Runs of one thread -/

section Solo

variable {Q : Event → Prop} {s s' : State} {told : Told} {rest : List Told}

/-- A run from a state, of which each step has a property, and what is told of it. -/
def Plays (Q : Event → Prop) (s : State) (told : List Told) : Prop :=
  ∃ es s', Run (Step false) s es s' ∧ (∀ x ∈ es, Q x) ∧ es.map Event.told = told

theorem Plays.nil (Q : Event → Prop) (s : State) : Plays Q s [] :=
  ⟨[], s, Run.nil s, List.forall_mem_nil Q, rfl⟩

theorem Plays.cons {x : Event} (hstep : Step false s x s') (hx : Q x) (h : Plays Q s' rest) :
    Plays Q s (x.told :: rest) := by
  obtain ⟨es, s'', hrun, hes, hrest⟩ := h
  exact ⟨x :: es, s'', Run.append (Run.single hstep) hrun, List.forall_mem_cons.mpr ⟨hx, hes⟩,
    congrArg (x.told :: ·) hrest⟩

theorem Plays.go (host : Bool) (hnext : s.next false host 0 = some (told, s'))
    (hend : ∀ o, told ≠ .End o) (hx : Q ⟨s, .Go 0 host, told⟩) (h : Plays Q s' rest) :
    Plays Q s (told :: rest) := by
  have hstep : Step false s ⟨s, .Go 0 host, told⟩ s' := .go hnext fun o h => absurd h (hend o)
  exact h.cons hstep hx

theorem free_of_idle (hidle : ∀ u, s.calls u = none) (o : Object) : s.Free o := by
  intro u call hcall
  rw [hidle u] at hcall
  contradiction

theorem Plays.init (o : Object) (attributes : Option ℕ) {setting : Setting}
    (hidle : ∀ u, s.calls u = none) (hparse : o.family.parse_attributes attributes = .ok setting)
    (hx : Q ⟨s, .Init 0 o attributes, .Begin o (s.life o + 1) setting⟩)
    (h : Plays Q ((s.begin_life o .Initializing).goto 0 (.Init o setting) .Initializing) rest) :
    Plays Q s (.Begin o (s.life o + 1) setting :: rest) := by
  have hstep : Step false s ⟨s, .Init 0 o attributes, .Begin o (s.life o + 1) setting⟩ _ :=
    .init (hidle 0) hparse (free_of_idle hidle o)
  exact h.cons hstep hx

/-- The bytes of a static initializer are written, and thread 0 calls an operation. -/
theorem Plays.static_call (o : Object) (setting : Setting) (action : Action)
    (hidle : ∀ u, s.calls u = none) (hfamily : setting.family = o.family)
    (hstatus : s.status o = .Unused) (haction : ∀ p k, action ≠ .Init p k)
    (hobjects : action.objects = [o])
    (hx : ∀ s op told, (∀ t host, op ≠ .Go t host) → Q ⟨s, op, told⟩)
    (h : Plays Q (((s.begin_life o .Alive).set_guest o setting.bytes).goto 0 action
      (.Looking action.objects [])) rest) :
    Plays Q s (.Begin o (s.life o + 1) setting :: .Silent :: rest) := by
  have hstep : Step false s ⟨s, .Static o setting, .Begin o (s.life o + 1) setting⟩ _ :=
    .static hfamily (.inl hstatus) (free_of_idle hidle o)
  have hcall : Step false ((s.begin_life o .Alive).set_guest o setting.bytes)
      ⟨(s.begin_life o .Alive).set_guest o setting.bytes, .Call 0 action, .Silent⟩
      (((s.begin_life o .Alive).set_guest o setting.bytes).goto 0 action
        (.Looking action.objects [])) := by
    refine .call (hidle 0) haction fun p hp => ?_
    rw [hobjects] at hp
    rw [List.mem_singleton.mp hp]
    exact s.begin_status_self .Alive
  exact (h.cons hcall (hx _ _ _ nofun)).cons hstep (hx _ _ _ nofun)

end Solo

/-- A condition and a mutex. -/
def condition : Object := ⟨.Cond, 0⟩

def mutex : Object := ⟨.Mutex, 0⟩

/-- A condition is initialized twice, the second time with another clock. -/
theorem plays_init_twice : Plays (fun _ => True) (State.new fun _ => ⟨0, 0⟩)
    [.Begin condition 1 .Realtime, .Silent, .Silent, .Act condition 1 0 .Realtime, .Silent, .Silent,
      .Silent, .Begin condition 2 .Monotonic, .Silent, .Act condition 2 0 .Realtime] := by
  refine Plays.init condition none (fun _ => rfl) rfl trivial ?_
  iterate 6 refine Plays.go true rfl nofun trivial ?_
  refine Plays.init condition (some kAndroidCondClockMask) ?_ rfl trivial ?_
  · intro u
    cases u <;> rfl
  iterate 2 refine Plays.go true rfl nofun trivial ?_
  exact Plays.nil _ _

/-- A recursive mutex is locked, and its host object cannot be made. -/
theorem plays_lock_unmade : Plays (fun _ => True) (State.new fun _ => ⟨0, 0⟩)
    [.Begin mutex 1 .Recursive, .Silent, .Silent, .Act mutex 1 0 .Normal] := by
  refine Plays.static_call mutex .Recursive (.Lock 0) (fun _ => rfl) rfl rfl nofun rfl
    (fun _ _ _ _ => trivial) ?_
  refine Plays.go true rfl nofun trivial ?_
  refine Plays.go false rfl nofun trivial ?_
  exact Plays.nil _ _

/-- A condition that is initialized again keeps its entry and its clock; and where no host mutex
can be made, a recursive mutex becomes a normal one. -/
theorem conditions_are_adopted_and_mutexes_misfit :
    (∃ es s, Run (Step false) (State.new fun _ => ⟨0, 0⟩) es s ∧
      es.map Event.told = [.Begin condition 1 .Realtime, .Silent, .Silent,
        .Act condition 1 0 .Realtime, .Silent, .Silent, .Silent, .Begin condition 2 .Monotonic,
        .Silent, .Act condition 2 0 .Realtime] ∧ ¬ Faithful es) ∧
    ∃ es s, Run (Step false) (State.new fun _ => ⟨0, 0⟩) es s ∧
      es.map Event.told = [.Begin mutex 1 .Recursive, .Silent, .Silent,
        .Act mutex 1 0 .Normal] ∧ ¬ Faithful es := by
  constructor
  · obtain ⟨es, s, hrun, -, htold⟩ := plays_init_twice
    refine ⟨es, s, hrun, htold, fun hfaithful => ?_⟩
    obtain ⟨x, hx, hxtold⟩ := told_of_map htold (a := .Act condition 1 0 .Realtime) (by decide)
    obtain ⟨y, hy, hytold⟩ := told_of_map htold (a := .Act condition 2 0 .Realtime) (by decide)
    exact absurd (hfaithful.own x hx y hy _ _ _ _ _ _ _ hxtold hytold).2 (by decide)
  · obtain ⟨es, s, hrun, -, htold⟩ := plays_lock_unmade
    refine ⟨es, s, hrun, htold, fun hfaithful => ?_⟩
    obtain ⟨x, hx, hxtold⟩ := told_of_map htold (a := .Act mutex 1 0 .Normal) (by decide)
    obtain ⟨y, hy, hytold⟩ := told_of_map htold (a := .Begin mutex 1 .Recursive) (by decide)
    exact absurd (hfaithful.setting x hx y hy _ _ _ _ _ hxtold hytold) (by decide)

/-- No initialization is looking its object up, and the host makes what it is asked for. -/
theorem good_of_plain {x : Event} (hop : ∀ t, x.op ≠ .Go t false)
    (hcalls : ∀ t host o k p, x.op = .Go t host → x.before.calls t ≠ some ⟨.Init o k, p⟩) :
    ¬ x.Adopts ∧ ¬ x.Misfits false := by
  constructor
  · rintro ⟨t, host, o, k, e, hgo, -, ⟨todo, found, hcall, -⟩ | ⟨todo, found, hcall, -⟩⟩
    · exact hcalls t host o k _ hgo hcall
    · exact hcalls t host o k _ hgo hcall
  · rintro ⟨-, t, action, o, todo, found, k, hgo, -⟩
    exact hop t hgo

/-- A recursive mutex is locked, and its host object is made. -/
theorem plays_lock : Plays (fun x => ¬ x.Adopts ∧ ¬ x.Misfits false) (State.new fun _ => ⟨0, 0⟩)
    [.Begin mutex 1 .Recursive, .Silent, .Silent, .Act mutex 1 0 .Recursive] := by
  refine Plays.static_call mutex .Recursive (.Lock 0) (fun _ => rfl) rfl rfl nofun rfl
    (fun s op told hop => ?_) ?_
  · exact good_of_plain (fun t => hop t false) fun t host _ _ _ h => absurd h (hop t host)
  have hthread : ∀ t host host', Op.Go 0 host' = .Go t host → t = 0 := by
    intro t host host' h
    injection h with h
    exact h.symm
  refine Plays.go true rfl nofun (good_of_plain nofun fun t host o k p h => ?_) ?_
  · rw [hthread t host true h]
    exact nofun
  refine Plays.go true rfl nofun (good_of_plain nofun fun t host o k p h => ?_) ?_
  · rw [hthread t host true h]
    exact nofun
  exact Plays.nil _ _

/-- A run in which an operation acts on an entry, and all is well. -/
theorem locked_mutex_is_faithful : ∃ es s, Run (Step false) (State.new fun _ => ⟨0, 0⟩) es s ∧
    es.map Event.told = [.Begin mutex 1 .Recursive, .Silent, .Silent, .Act mutex 1 0 .Recursive] ∧
    Faithful es := by
  obtain ⟨es, s, hrun, hgood, htold⟩ := plays_lock
  exact ⟨es, s, hrun, htold, (faithful_iff_no_adoption_no_misfit hrun).mpr hgood⟩

end DarwinArt.Pthread.SideTable
