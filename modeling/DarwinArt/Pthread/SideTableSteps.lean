/-
The steps of the side tables: each function of the model keeps the invariant.

Most steps leave every object with what it has, and the call that takes one goes on with the entries
it has found (`Inv.operate`). The others are about one object: a lookup that makes an entry, an
initialization, the end of a destroy, and the begin of a lifetime.
-/
import DarwinArt.Pthread.SideTableInvariant

set_option autoImplicit false

namespace DarwinArt.Pthread.SideTable

open Lib

open State

/-! ## Steps -/

section Steps

variable {Q P : Object → Prop} {es : List Event} {x : Event} {s s' : State} {t : ℕ}
  {action : Action} {phase phase' : Phase} {o : Object} {setting : Setting} {mutex : ℕ}

/-- A call that is no initialization, up to its end. -/
theorem Going.of_working (haction : ∀ o setting, action ≠ .Init o setting)
    (hstatus : ∀ o ∈ action.objects, s.status o = .Alive) (hworking : Working s action phase) :
    Going es s ⟨action, phase⟩ :=
  ⟨fun o setting h => absurd h (haction o setting), fun _ _ => ⟨hstatus, hworking⟩⟩

theorem Going.of_leaving (haction : ∀ o setting, action ≠ .Init o setting) (result : ℕ) :
    Going es s ⟨action, .Leaving result⟩ :=
  ⟨fun o setting h => absurd h (haction o setting), fun _ h => nomatch h⟩

/-- A call fails. -/
theorem Going.fail (h : Going es s ⟨action, phase⟩) {errno : ℕ} (herrno : errno ≠ 0) :
    Going es s ⟨action, .Leaving errno⟩ :=
  ⟨fun o setting haction => ⟨(h.starting o setting haction).1, fun h => absurd h herrno⟩,
    fun _ h => nomatch h⟩

theorem Going.of_starting (hstatus : s.status o = .Initializing)
    (hstarting : Starting es s o setting phase) : Going es s ⟨.Init o setting, phase⟩ := by
  refine ⟨fun p k h => ?_, fun h => absurd rfl (h o setting)⟩
  cases h
  exact ⟨hstatus, hstarting⟩

section

variable (h : Inv es s) (hcall : s.calls t = some ⟨action, phase⟩)
include h hcall

/-- A thread goes on with its call. -/
theorem Inv.goto (hcalls : s'.calls = s.calls)
    (hkeeps : Keeps Q P es s (es ++ [x]) (s'.goto t action phase'))
    (hheap : Heap (es ++ [x]) (s'.goto t action phase'))
    (hplaced : ∀ o, ¬ P o → Placed (es ++ [x]) (s'.goto t action phase') o)
    (hothers : ∀ u call, u ≠ t → s.calls u = some call →
      (∀ o setting, call.action = .Init o setting → P o) ∧
      (call.phase.left = false → ∀ o ∈ call.action.objects, Q o))
    (hgoing : Going (es ++ [x]) (s'.goto t action phase') ⟨action, phase'⟩) :
    Inv (es ++ [x]) (s'.goto t action phase') := by
  have hcases : ∀ u call, (s'.goto t action phase').calls u = some call →
      (u = t ∧ call = ⟨action, phase'⟩) ∨ (u ≠ t ∧ s.calls u = some call) := by
    intro u call hu
    rw [← hcalls]
    exact s'.goto_calls hu
  -- the thread was in a call with the same action before
  have hbefore : ∀ u o k p, (s'.goto t action phase').calls u = some ⟨.Init o k, p⟩ →
      ∃ p', s.calls u = some ⟨.Init o k, p'⟩ := by
    intro u o k p hu
    rcases hcases u _ hu with ⟨rfl, hcall'⟩ | ⟨-, hu⟩
    · cases hcall'
      exact ⟨phase, hcall⟩
    · exact ⟨p, hu⟩
  refine h.rebuild hkeeps hheap hplaced (fun u call hu => ?_) (fun u v o k k' p p' hu hv => ?_)
  · rcases hcases u call hu with ⟨-, rfl⟩ | ⟨hne, hu⟩
    · exact .inl hgoing
    · exact .inr ⟨hu, hothers u call hne hu⟩
  · obtain ⟨q, hu⟩ := hbefore u o k p hu
    obtain ⟨q', hv⟩ := hbefore v o k' p' hv
    exact h.single u v o k k' q q' hu hv

/-- A step that leaves every object with what it has. -/
theorem Inv.tweak (htweak : Tweak s s') (hcalls : s'.calls = s.calls)
    (hheap : Heap (es ++ [x]) s') (hgoing : Going es s ⟨action, phase'⟩) :
    Inv (es ++ [x]) (s'.goto t action phase') := by
  have htweak' : Tweak s (s'.goto t action phase') := { htweak with }
  have hkeeps : Keeps (fun _ => True) (fun _ => True) es s (es ++ [x])
      (s'.goto t action phase') := htweak'.keeps h.heap
  refine h.goto hcall hcalls hkeeps { hheap with } (fun o ho => absurd trivial ho)
    (fun u _ _ _ => ⟨fun _ _ _ => trivial, fun _ _ _ => trivial⟩) ?_
  exact hkeeps.going (fun _ _ _ => trivial) (fun _ _ _ => trivial) hgoing

/-- The same without a word about it. -/
theorem Inv.quiet (htweak : Tweak s s') (hcalls : s'.calls = s.calls) (hcache : s'.cache = s.cache)
    (htold : x.told = .Silent) (hgoing : Going es s ⟨action, phase'⟩) :
    Inv (es ++ [x]) (s'.goto t action phase') :=
  h.tweak hcall htweak hcalls ((h.heap.alike htweak.toAlike hcache).silent htold) hgoing

end

/-- While a thread initializes an object, the others have at most calls on it that are done. -/
theorem Inv.initializing_alone (h : Inv es s) (hcall : s.calls t = some ⟨.Init o setting, phase⟩)
    (u : ℕ) (call : Call) (hu : u ≠ t) (hucall : s.calls u = some call) :
    (∀ p k, call.action = .Init p k → p ≠ o) ∧
      (call.phase.left = false → ∀ p ∈ call.action.objects, p ≠ o) := by
  have hinit : ∀ p k, call.action = .Init p k → p ≠ o := by
    intro p k haction hp
    rw [hp] at haction
    rw [show call = ⟨.Init o k, call.phase⟩ from haction ▸ rfl] at hucall
    exact hu (h.single u t o k setting call.phase phase hucall hcall)
  refine ⟨hinit, fun hleft p hp heq => ?_⟩
  by_cases haction : ∀ p k, call.action ≠ .Init p k
  · have halive := ((h.going u call hucall).working haction hleft).1 p hp
    have hstarting := ((h.going t _ hcall).starting o setting rfl).1
    rw [heq, hstarting] at halive
    contradiction
  · push Not at haction
    obtain ⟨q, k, haction⟩ := haction
    rw [haction] at hp
    rw [List.mem_singleton.mp hp] at heq
    exact hinit q k haction heq

section

variable (h : Inv es s) (hcall : s.calls t = some ⟨action, phase⟩) (hleft : phase.left = false)
include h hcall hleft

/-- An object that a call works on is alive, or the call initializes it. -/
theorem Inv.status (ho : o ∈ action.objects) :
    s.status o = .Alive ∨ s.status o = .Initializing := by
  by_cases haction : ∀ p k, action ≠ .Init p k
  · exact .inl (((h.going t _ hcall).working haction hleft).1 o ho)
  · push Not at haction
    obtain ⟨p, k, rfl⟩ := haction
    rw [List.mem_singleton.mp ho]
    exact .inr ((h.going t _ hcall).starting p k rfl).1

/-- No other thread initializes an object that a call works on. -/
theorem Inv.others_init (ho : o ∈ action.objects) (u : ℕ) (call : Call) (hu : u ≠ t)
    (hucall : s.calls u = some call) (p : Object) (k : Setting) (hinit : call.action = .Init p k) :
    p ≠ o := by
  by_cases haction : ∀ p k, action ≠ .Init p k
  · intro hp
    have halive := ((h.going t _ hcall).working haction hleft).1 o ho
    have hstarting := ((h.going u call hucall).starting p k hinit).1
    rw [hp, halive] at hstarting
    contradiction
  · push Not at haction
    obtain ⟨q, _, rfl⟩ := haction
    rw [List.mem_singleton.mp ho]
    exact (h.initializing_alone hcall u call hu hucall).1 p k hinit

end

/-! ### Lookups -/

theorem retired_of_unserved (h : (s.table o).filter (s.serves o) = none) : Retired s o := by
  intro e he
  rw [he] at h
  by_contra hlifecycle
  simp [Option.filter, serves, hlifecycle] at h

variable {c cond e m : ℕ} {told : Told}

/-- The bytes say that the object is not destroyed, so an entry that serves is not either. -/
theorem undestroyed_of_serves (hsane : Sane o (s.guest o)) (h : s.serves o e = true) :
    (s.entries e).lifecycle ≠ .Destroyed :=
  (of_decide_eq_true h).resolve_right hsane.ne_destroyed

theorem Blank.sane (h : Blank es s o setting) : Sane o (s.guest o) := by
  rw [h.bytes]
  exact sane_bytes h.family

/-- What a lookup finds for an object in its lifetime is the entry of the lifetime. -/
theorem Inv.found (h : Inv es s) (hstatus : s.status o = .Alive) (hserves : s.serves o e = true)
    (hplace : (s.entries e).lifecycle = .Destroyed ∨ s.table o = some e) : Held s o e := by
  have hplaced := h.placed o
  unfold Placed at hplaced
  rw [hstatus] at hplaced
  rcases hplaced with ⟨_, hheld⟩ | ⟨k, hblank, hretired⟩
  · have htable := hplace.resolve_left (undestroyed_of_serves hheld.sane hserves)
    rw [hheld.table] at htable
    cases htable
    exact hheld
  · have hlifecycle := undestroyed_of_serves hblank.sane hserves
    exact absurd (hretired e (hplace.resolve_left hlifecycle)) hlifecycle

/-- Where a lookup finds nothing, the lifetime has no entry. -/
theorem Inv.unserved (h : Inv es s) (hstatus : s.status o = .Alive)
    (hnone : (s.table o).filter (s.serves o) = none) : ∃ setting, Blank es s o setting := by
  have hplaced := h.placed o
  unfold Placed at hplaced
  rw [hstatus] at hplaced
  rcases hplaced with ⟨e, hheld⟩ | ⟨k, hblank, -⟩
  · exact absurd (retired_of_unserved hnone e hheld.table) hheld.undestroyed
  · exact ⟨k, hblank⟩

theorem Going.looked (haction : ∀ o setting, action ≠ .Init o setting)
    (hstatus : ∀ p ∈ action.objects, s.status p = .Alive) {looked todo : List Object}
    {found : List ℕ} (hobjects : action.objects = looked ++ o :: todo)
    (hfound : List.Forall₂ (Held s) looked found) (hheld : Held s o e) :
    Going es s ⟨action, .Looking todo (found ++ [e])⟩ := by
  refine Going.of_working haction hstatus ⟨looked ++ [o], ?_, ?_⟩
  · rw [hobjects, List.append_assoc]
    rfl
  · exact List.rel_append hfound (.cons hheld .nil)

theorem Tweak.remember (s : State) (t : ℕ) (o : Object) (e : ℕ) : Tweak s (s.remember t o e) where
  table := rfl
  made := rfl
  life := rfl
  object _ := rfl
  born _ := rfl
  setting _ := rfl
  destroyed _ h := h
  status := rfl
  undestroyed _ h := h
  guest _ := .inl rfl

theorem Frame.install (s : State) (o : Object) (setting : Setting) :
    Frame s (s.install o setting) o where
  guest _ _ := rfl
  table _ hp := s.install_table_of_ne hp setting
  status _ _ := rfl
  life _ _ := rfl
  entries _ he _ := s.install_entry_of_lt he setting
  object e he := by rw [s.install_entry_of_lt he]
  added e he := by
    rcases Nat.lt_succ_iff_lt_or_eq.mp he with hlt | rfl
    · exact .inl hlt
    · rw [s.install_entry_self]
      exact .inr rfl

theorem Placed.of_held (hstatus : s.status o = .Alive ∨ s.status o = .Initializing)
    (hheld : Held s o e) : Placed es s o := by
  unfold Placed
  rcases hstatus with hstatus | hstatus <;> rw [hstatus]
  · exact .inl ⟨e, hheld⟩
  · trivial

theorem Placed.of_retired (hstatus : s.status o = .Unused ∨ s.status o = .Destroyed)
    (hretired : Retired s o) : Placed es s o := by
  unfold Placed
  rcases hstatus with hstatus | hstatus <;> rw [hstatus]
  · exact hretired
  · exact hretired

theorem Placed.retired (hstatus : s.status o = .Unused ∨ s.status o = .Destroyed)
    (hplaced : Placed es s o) : Retired s o := by
  unfold Placed at hplaced
  rcases hstatus with hstatus | hstatus <;> rw [hstatus] at hplaced
  · exact hplaced
  · exact hplaced

/-- A lookup makes the entry of a lifetime. -/
theorem Inv.create (h : Inv es s) (hcall : s.calls t = some ⟨action, phase⟩)
    (hleft : phase.left = false) (ho : o ∈ action.objects) (hblank : Blank es s o setting)
    (hretired : Retired s o) (htold : x.told = .Act o (s.life o) s.made setting)
    (hgoing : ∀ s'', Keeps (fun _ => True) (· ≠ o) es s (es ++ [x]) s'' → Held s'' o s.made →
      Going (es ++ [x]) s'' ⟨action, phase'⟩) :
    Inv (es ++ [x]) (((s.install o setting).remember t o s.made).goto t action phase') := by
  have hheap : Heap (es ++ [x]) ((s.install o setting).remember t o s.made) :=
    (h.heap.install hblank.toUnmade hretired htold).remember (s.install_table_self setting) t
  have hframe : Frame s (((s.install o setting).remember t o s.made).goto t action phase') o :=
    { Frame.install s o setting with }
  have hkeeps := hframe.keeps_all (x := x) h.heap rfl hblank.toUnmade
  have hheld : Held (((s.install o setting).remember t o s.made).goto t action phase') o s.made := by
    refine ⟨s.install_table_self setting, ?_, ?_, hblank.sane⟩
    · exact congrArg Entry.life (s.install_entry_self setting)
    · exact ne_of_eq_of_ne (congrArg Entry.lifecycle (s.install_entry_self setting)) nofun
  refine h.goto hcall rfl hkeeps { hheap with }
    (fun p hp => ?_) (fun u call hu hucall => ?_) (hgoing _ hkeeps hheld)
  · rw [not_not.mp hp]
    exact Placed.of_held (h.status hcall hleft ho) hheld
  · exact ⟨h.others_init hcall hleft ho u call hu hucall, fun _ _ _ => trivial⟩

/-! ### Initialization, destruction and return -/

theorem set_lifecycle_cases (s : State) (e : ℕ) (lifecycle : Lifecycle) (e' : ℕ) :
    (s.set_lifecycle e lifecycle).entries e' = s.entries e' ∨
      (s.set_lifecycle e lifecycle).entries e' = { s.entries e' with lifecycle := lifecycle } := by
  by_cases he : e' = e
  · rw [he]
    exact .inr (s.set_entry_self _)
  · exact .inl (s.set_entry_of_ne he _)

theorem Alike.destroy (s : State) (e : ℕ) : Alike s (s.set_lifecycle e .Destroyed) := by
  refine ⟨rfl, rfl, rfl, fun e' => ?_, fun e' => ?_, fun e' => ?_, fun e' hdestroyed => ?_⟩
  all_goals rcases set_lifecycle_cases s e .Destroyed e' with heq | heq <;> rw [heq]
  exact hdestroyed

theorem Frame.set_lifecycle (hobject : (s.entries e).object = o) (lifecycle : Lifecycle) :
    Frame s (s.set_lifecycle e lifecycle) o where
  guest _ _ := rfl
  table _ _ := rfl
  status _ _ := rfl
  life _ _ := rfl
  entries e' _ hne := s.set_entry_of_ne (fun he => hne (by rw [he]; exact hobject)) _
  object e' _ := by rcases set_lifecycle_cases s e lifecycle e' with heq | heq <;> rw [heq]
  added _ he := .inl he

theorem retire_alike (s : State) (o : Object) : Alike s (s.retire o) := by
  unfold retire
  split
  next => exact (Tweak.refl s).toAlike
  next e _ => exact Alike.destroy s e

theorem retire_frame (h : Heap es s) (o : Object) : Frame s (s.retire o) o := by
  unfold retire
  split
  next =>
    exact ⟨fun _ _ => rfl, fun _ _ => rfl, fun _ _ => rfl, fun _ _ => rfl, fun _ _ _ => rfl,
      fun _ _ => rfl, fun _ he => .inl he⟩
  next e he => exact Frame.set_lifecycle (h.table o e he).2 .Destroyed

theorem retire_rest (s : State) (o : Object) : (s.retire o).cache = s.cache ∧
    (s.retire o).calls = s.calls ∧ (s.retire o).status = s.status := by
  unfold retire
  split <;> exact ⟨rfl, rfl, rfl⟩

theorem retire_retired (s : State) (o : Object) : Retired (s.retire o) o := by
  intro e he
  rw [(retire_alike s o).table] at he
  unfold retire
  rw [he]
  exact congrArg Entry.lifecycle (s.set_entry_self _)

theorem Unmade.alike (h : Unmade es s o setting) (halike : Alike s s') : Unmade es s' o setting := by
  refine ⟨h.family, ?_, fun e he hobject => ?_⟩
  · rw [halike.life]
    exact h.begun
  · rw [halike.made] at he
    rw [halike.object] at hobject
    rw [halike.born, halike.life]
    exact h.unmade e he hobject

/-- Two steps about the same object. -/
theorem Frame.trans {s'' : State} (h : Frame s s' o) (h' : Frame s' s'' o)
    (hmade : s.made ≤ s'.made) : Frame s s'' o where
  guest p hp := (h'.guest p hp).trans (h.guest p hp)
  table p hp := (h'.table p hp).trans (h.table p hp)
  status p hp := (h'.status p hp).trans (h.status p hp)
  life p hp := (h'.life p hp).trans (h.life p hp)
  entries e he hobject := by
    have hlt : e < s'.made := Nat.lt_of_lt_of_le he hmade
    rw [h'.entries e hlt (by rw [h.object e he]; exact hobject)]
    exact h.entries e he hobject
  object e he := (h'.object e (Nat.lt_of_lt_of_le he hmade)).trans (h.object e he)
  added e he := by
    rcases h'.added e he with hlt | hobject
    · rcases h.added e hlt with hlt' | hobject
      · exact .inl hlt'
      · exact .inr ((h'.object e hlt).trans hobject)
    · exact .inr hobject

theorem Frame.set_guest (s : State) (o : Object) (guest : Guest) :
    Frame s (s.set_guest o guest) o where
  guest _ hp := s.set_guest_of_ne hp guest
  table _ _ := rfl
  status _ _ := rfl
  life _ _ := rfl
  entries _ _ _ := rfl
  object _ _ := rfl
  added _ he := .inl he

theorem Frame.set_status (s : State) (o : Object) (status : Status) :
    Frame s (s.set_status o status) o where
  guest _ _ := rfl
  table _ _ := rfl
  status _ hp := s.set_status_of_ne hp status
  life _ _ := rfl
  entries _ _ _ := rfl
  object _ _ := rfl
  added _ he := .inl he

theorem Frame.begin_life (s : State) (o : Object) (status : Status) :
    Frame s (s.begin_life o status) o where
  guest _ _ := rfl
  table _ _ := rfl
  status _ hp := s.begin_status_of_ne hp status
  life _ hp := s.begin_life_of_ne hp status
  entries _ _ _ := rfl
  object _ _ := rfl
  added _ he := .inl he

/-- A step about the object that a thread initializes. -/
theorem Inv.initialize_step (h : Inv es s) (hcall : s.calls t = some ⟨.Init o setting, phase⟩)
    (hcalls : s'.calls = s.calls) (hframe : Frame s s' o) (hstatus : s'.status = s.status)
    (hheap : Heap (es ++ [x]) s')
    (hstarting : Starting (es ++ [x]) (s'.goto t (.Init o setting) phase') o setting phase') :
    Inv (es ++ [x]) (s'.goto t (.Init o setting) phase') := by
  have hframe' : Frame s (s'.goto t (.Init o setting) phase') o := { hframe with }
  have hown : (s'.goto t (.Init o setting) phase').status o = .Initializing := by
    rw [show (s'.goto t (.Init o setting) phase').status = s.status from hstatus]
    exact ((h.going t _ hcall).starting o setting rfl).1
  refine h.goto hcall hcalls (hframe'.keeps h.heap) { hheap with } (fun p hp => ?_)
    (h.initializing_alone hcall) (Going.of_starting hown hstarting)
  rw [not_not.mp hp]
  unfold Placed
  rw [hown]
  trivial

section

variable (h : Inv es s) (hcall : s.calls t = some ⟨.Init o setting, .Initializing⟩)
include h hcall

theorem Inv.mutex_init {host : Bool} (htold : x.told = (s.mutex_init host t o setting).1) :
    Inv (es ++ [x]) (s.mutex_init host t o setting).2 := by
  have hunmade : Unmade es s o setting := ((h.going t _ hcall).starting o setting rfl).2
  have halike := retire_alike s o
  obtain ⟨hcache, hcalls, hstatus⟩ := retire_rest s o
  have hheap : Heap es (s.retire o) := h.heap.alike halike hcache
  unfold State.mutex_init at htold ⊢
  dsimp only at htold ⊢
  split at htold
  next hhost =>
    rw [if_pos hhost]
    exact h.initialize_step hcall hcalls (retire_frame h.heap o) hstatus (hheap.silent htold) nofun
  next hhost =>
    rw [if_neg hhost]
    have hinstall := hheap.install (hunmade.alike halike) (retire_retired s o) htold
    have hframe : Frame s (((s.retire o).install o setting).set_guest o setting.bytes) o := by
      refine (retire_frame h.heap o).trans
        ((Frame.install (s.retire o) o setting).trans (Frame.set_guest _ o setting.bytes) ?_) ?_
      · exact Nat.le_succ _
      · exact Nat.le_of_eq halike.made.symm
    refine h.initialize_step hcall hcalls hframe hstatus { hinstall with } (fun _ => ?_)
    refine ⟨(s.retire o).made, ⟨install_table_self _ setting, ?_, ?_, ?_⟩⟩
    · exact congrArg Entry.life (install_entry_self _ setting)
    · exact ne_of_eq_of_ne (congrArg Entry.lifecycle (install_entry_self _ setting)) nofun
    · change Sane o (guest (set_guest _ o setting.bytes) o)
      rw [set_guest_self]
      exact sane_bytes hunmade.family

/-- `pthread_cond_init` writes the bytes. -/
theorem Inv.cond_init (htold : x.told = .Silent) : Inv (es ++ [x])
      ((s.set_guest o setting.bytes).goto t (.Init o setting) (.Looking [o] [])) := by
  have hunmade : Unmade es s o setting := ((h.going t _ hcall).starting o setting rfl).2
  have hheap := h.heap.silent htold
  refine h.initialize_step hcall rfl (Frame.set_guest s o setting.bytes) rfl { hheap with }
    (.inl ⟨rfl, rfl, ⟨⟨hunmade.family, begun_snoc hunmade.begun, hunmade.unmade⟩, ?_⟩⟩)
  exact s.set_guest_self setting.bytes

end

/-- A call that is not about the object. -/
theorem apart_of_not_mem {call : Call} (h : o ∉ call.action.objects) :
    (∀ p k, call.action = .Init p k → p ≠ o) ∧
      (call.phase.left = false → ∀ p ∈ call.action.objects, p ≠ o) := by
  have hne : ∀ p ∈ call.action.objects, p ≠ o := by
    intro p hp heq
    rw [heq] at hp
    exact h hp
  refine ⟨fun p k haction => hne p ?_, fun _ => hne⟩
  rw [haction]
  exact List.mem_singleton.mpr rfl

/-- The host has destroyed its object. -/
theorem Inv.destroyed (h : Inv es s) (hcall : s.calls t = some ⟨.Destroy o, .Destroying e⟩)
    (halone : s.Alone t o) (htold : x.told = .End o) (guest : Guest) :
    Inv (es ++ [x]) ((((s.set_lifecycle e .Destroyed).set_guest o guest).set_status o
      .Destroyed).goto t (.Destroy o) (.Leaving 0)) := by
  obtain ⟨-, _, haction, hheld⟩ := (h.going t _ hcall).working nofun rfl
  injection haction with haction
  rw [← haction] at hheld
  have hobject := (hheld.lt h.heap).2
  have hheap : Heap (es ++ [x]) (s.set_lifecycle e .Destroyed) :=
    (h.heap.alike (Alike.destroy s e) rfl).end htold
  have hframe : Frame s (((s.set_lifecycle e .Destroyed).set_guest o guest).set_status o
      .Destroyed) o := by
    refine (Frame.set_lifecycle hobject .Destroyed).trans
      ((Frame.set_guest _ o guest).trans (Frame.set_status _ o .Destroyed) ?_) ?_
    · exact Nat.le_refl _
    · exact Nat.le_refl _
  have hframe' : Frame s ((((s.set_lifecycle e .Destroyed).set_guest o guest).set_status o
      .Destroyed).goto t (.Destroy o) (.Leaving 0)) o := { hframe with }
  refine h.goto hcall rfl (hframe'.keeps h.heap) { hheap with } (fun p hp => ?_)
    (fun u call hu hucall => ?_) ?_
  · rw [not_not.mp hp]
    refine Placed.of_retired (.inr (set_status_self _ .Destroyed)) ?_
    intro e' he'
    have heq : e' = e := by
      have htable : s.table o = some e' := he'
      exact Option.some.inj (htable.symm.trans hheld.table)
    rw [heq]
    exact congrArg Entry.lifecycle (s.set_entry_self _)
  · exact apart_of_not_mem fun ho => hu (halone u call hucall ho)
  · refine Going.of_leaving ?_ 0
    exact nofun

/-- A call returns. -/
theorem Inv.leave (h : Inv es s) {result : ℕ} (hcall : s.calls t = some ⟨action, .Leaving result⟩)
    (htold : x.told = .Silent) : Inv (es ++ [x]) (s.leave t action result) := by
  have hheap := h.heap.silent htold
  have hcalls : ∀ u call, Function.update s.calls t none u = some call →
      u ≠ t ∧ s.calls u = some call := by
    intro u call hu
    by_cases hut : u = t
    · simp [hut] at hu
    · exact ⟨hut, by simpa [hut] using hu⟩
  -- the other calls go on, and no initialization is added
  have hsingle : ∀ u v o k k' p p', Function.update s.calls t none u = some ⟨.Init o k, p⟩ →
      Function.update s.calls t none v = some ⟨.Init o k', p'⟩ → u = v := by
    intro u v o k k' p p' hu hv
    exact h.single u v o k k' p p' (hcalls u _ hu).2 (hcalls v _ hv).2
  unfold State.leave
  split
  next o setting =>
    have hframe : Frame s ({ s with calls := Function.update s.calls t none }.set_status o
        (if result = 0 then .Alive else .Failed)) o := { Frame.set_status s o _ with }
    refine h.rebuild (hframe.keeps h.heap) { hheap with } (fun p hp => ?_) (fun u call hu => ?_)
      hsingle
    · rw [not_not.mp hp]
      obtain ⟨-, hstarting⟩ := (h.going t _ hcall).starting o setting rfl
      by_cases hresult : result = 0
      · obtain ⟨e, hheld⟩ := hstarting hresult
        refine Placed.of_held (.inl ?_) ⟨hheld.table, hheld.life, hheld.undestroyed, hheld.sane⟩
        rw [set_status_self, if_pos hresult]
      · unfold Placed
        rw [set_status_self, if_neg hresult]
        trivial
    · obtain ⟨hut, hu⟩ := hcalls u call hu
      exact .inr ⟨hu, h.initializing_alone hcall u call hut hu⟩
  next =>
    have htweak : Tweak s { s with calls := Function.update s.calls t none } :=
      { Tweak.refl s with }
    refine h.rebuild (htweak.keeps h.heap) { hheap with } (fun p hp => absurd trivial hp)
      (fun u call hu => ?_) hsingle
    exact .inr ⟨(hcalls u call hu).2, fun _ _ _ => trivial, fun _ _ _ => trivial⟩

/-- The lifetime that begins has no entry. -/
theorem Heap.unmade_begin (h : Heap es s) (status : Status) (hfamily : setting.family = o.family)
    (htold : x.told = .Begin o (s.life o + 1) setting) :
    Unmade (es ++ [x]) (s.begin_life o status) o setting := by
  refine ⟨hfamily, ⟨x, List.mem_append_right es (List.mem_singleton.mpr rfl), ?_⟩,
    fun e he hobject hlife => ?_⟩
  · rwa [s.begin_life_self]
  · rw [s.begin_life_self] at hlife
    have hle := h.life_le e he
    rw [show (s.entries e).object = o from hobject, show (s.entries e).life = s.life o + 1 from
      hlife] at hle
    exact Nat.not_succ_le_self _ hle

/-- The guest writes a static initializer. -/
theorem Inv.static (h : Inv es s) (hfamily : setting.family = o.family)
    (hstatus : s.status o = .Unused ∨ s.status o = .Destroyed) (hfree : s.Free o)
    (htold : x.told = .Begin o (s.life o + 1) setting) :
    Inv (es ++ [x]) ((s.begin_life o .Alive).set_guest o setting.bytes) := by
  have hheap := h.heap.begin_life .Alive htold
  have hunmade := h.heap.unmade_begin .Alive hfamily htold
  have hframe : Frame s ((s.begin_life o .Alive).set_guest o setting.bytes) o :=
    (Frame.begin_life s o .Alive).trans (Frame.set_guest _ o setting.bytes) (Nat.le_refl _)
  refine h.rebuild (hframe.keeps h.heap) { hheap with } (fun p hp => ?_) (fun u call hu => ?_)
    h.single
  · rw [not_not.mp hp]
    have halive : ((s.begin_life o .Alive).set_guest o setting.bytes).status o = .Alive :=
      s.begin_status_self .Alive
    unfold Placed
    rw [halive]
    have hretired : Retired s o := (h.placed o).retired hstatus
    exact .inr ⟨setting, ⟨{ hunmade with }, set_guest_self _ setting.bytes⟩, hretired⟩
  · exact .inr ⟨hu, apart_of_not_mem (hfree u call hu)⟩

/-- An initialization is called. -/
theorem Inv.init (h : Inv es s) (hfamily : setting.family = o.family) (hfree : s.Free o)
    (htold : x.told = .Begin o (s.life o + 1) setting) :
    Inv (es ++ [x]) ((s.begin_life o .Initializing).goto t (.Init o setting) .Initializing) := by
  have hheap := h.heap.begin_life .Initializing htold
  have hunmade := h.heap.unmade_begin .Initializing hfamily htold
  have hframe : Frame s ((s.begin_life o .Initializing).goto t (.Init o setting) .Initializing) o :=
    { Frame.begin_life s o .Initializing with }
  have hstatus : ((s.begin_life o .Initializing).goto t (.Init o setting) .Initializing).status o =
      .Initializing := s.begin_status_self .Initializing
  -- the object was free, so no other call initializes it
  have hother : ∀ u k p, s.calls u ≠ some ⟨.Init o k, p⟩ := by
    intro u k p hu
    exact hfree u _ hu (List.mem_singleton.mpr rfl)
  refine h.rebuild (hframe.keeps h.heap) { hheap with } (fun p hp => ?_) (fun u call hu => ?_)
    (fun u v p k k' q q' hu hv => ?_)
  · rw [not_not.mp hp]
    unfold Placed
    rw [hstatus]
    trivial
  · rcases (s.begin_life o .Initializing).goto_calls hu with ⟨-, rfl⟩ | ⟨-, hu⟩
    · exact .inl (Going.of_starting hstatus { hunmade with })
    · exact .inr ⟨hu, apart_of_not_mem (hfree u call hu)⟩
  · rcases (s.begin_life o .Initializing).goto_calls hu with ⟨hut, hucall⟩ | ⟨-, hu⟩
    · rcases (s.begin_life o .Initializing).goto_calls hv with ⟨hvt, -⟩ | ⟨-, hv⟩
      · exact hut.trans hvt.symm
      · cases hucall
        exact absurd hv (hother v k' q')
    · rcases (s.begin_life o .Initializing).goto_calls hv with ⟨-, hvcall⟩ | ⟨-, hv⟩
      · cases hvcall
        exact absurd hu (hother u k q)
      · exact h.single u v p k k' q q' hu hv

/-- Another call begins. -/
theorem Inv.call (h : Inv es s) (haction : ∀ o setting, action ≠ .Init o setting)
    (halive : ∀ o ∈ action.objects, s.status o = .Alive) (htold : x.told = .Silent) :
    Inv (es ++ [x]) (s.goto t action (.Looking action.objects [])) := by
  have hheap := h.heap.silent htold
  have htweak : Tweak s (s.goto t action (.Looking action.objects [])) := { Tweak.refl s with }
  have hinit : ∀ u p k q, (s.goto t action (.Looking action.objects [])).calls u =
      some ⟨.Init p k, q⟩ → s.calls u = some ⟨.Init p k, q⟩ := by
    intro u p k q hu
    rcases s.goto_calls hu with ⟨-, hcall⟩ | ⟨-, hu⟩
    · injection hcall with heq
      exact absurd heq.symm (haction p k)
    · exact hu
  refine h.rebuild (htweak.keeps h.heap) { hheap with } (fun p hp => absurd trivial hp)
    (fun u _ hu => ?_) (fun u v p k k' q q' hu hv => ?_)
  · rcases s.goto_calls hu with ⟨-, rfl⟩ | ⟨-, hu⟩
    · exact .inl (Going.of_working haction halive ⟨[], rfl, .nil⟩)
    · exact .inr ⟨hu, fun _ _ _ => trivial, fun _ _ _ => trivial⟩
  · exact h.single u v p k k' q q' (hinit u p k q hu) (hinit v p k' q' hv)

/-! ### Operations -/

/-- Counters of an entry are counted. -/
theorem Tweak.count (s : State) (e active waiters : ℕ) : Tweak s (s.set_entry e
    { s.entries e with active_operations := active, waiters := waiters }) :=
  Tweak.set_entry rfl rfl rfl Iff.rfl

/-- A destroy begins, or is given up. -/
theorem Tweak.lifecycle {lifecycle : Lifecycle} (hheld : Held s o e)
    (hlifecycle : lifecycle ≠ .Destroyed) : Tweak s (s.set_lifecycle e lifecycle) :=
  Tweak.set_entry rfl rfl rfl
    ⟨fun h => absurd h hlifecycle, fun h => absurd h hheld.undestroyed⟩

theorem Sane.of_state {guest guest' : Guest} (h : Sane o guest) (hstate : guest'.state = guest.state) :
    Sane o guest' := by
  unfold Sane at h ⊢
  rwa [hstate]

/-- The state of a condition is counted up. -/
theorem Sane.count {address : ℕ} {guest : Guest} (h : Sane ⟨.Cond, address⟩ guest) (rest : ℕ) :
    Sane ⟨.Cond, address⟩ ⟨(guest.state + kAndroidCondCounterStep) % 2 ^ 32, rest⟩ := by
  unfold Sane kAndroidCondCounterStep at *
  dsimp only at *
  omega

section

variable (h : Inv es s)
include h

/-- The call goes on with what it has found. -/
theorem Inv.operate (hcall : s.calls t = some ⟨action, phase⟩)
    (haction : ∀ o setting, action ≠ .Init o setting) (hleft : phase.left = false)
    (htweak : Tweak s s') (hcalls : s'.calls = s.calls) (hcache : s'.cache = s.cache)
    (htold : x.told = .Silent) (hworking : Working s action phase') :
    Inv (es ++ [x]) (s'.goto t action phase') :=
  h.quiet hcall htweak hcalls hcache htold
    (Going.of_working haction ((h.going t _ hcall).working haction hleft).1 hworking)

theorem Inv.begin_mutex (hcall : s.calls t = some ⟨action, .Beginning [e]⟩)
    (haction : ∀ o setting, action ≠ .Init o setting) {permit : Bool}
    (hnext : s.begin_mutex t action permit e = some s') (htold : x.told = .Silent) :
    Inv (es ++ [x]) s' := by
  have hfound : Working s action (.Beginning [e]) := ((h.going t _ hcall).working haction rfl).2
  simp only [State.begin_mutex] at hnext
  split_ifs at hnext
  · cases hnext
    exact h.operate hcall haction rfl (Tweak.refl s) rfl rfl htold trivial
  · cases hnext
    exact h.operate hcall haction rfl (Tweak.count s e _ _) rfl rfl htold hfound

theorem Inv.begin_wait
    (hcall : s.calls t = some ⟨.Wait c m, .Beginning [cond, mutex]⟩) (htold : x.told = .Silent) :
    Inv (es ++ [x]) (s.begin_wait t (.Wait c m) cond mutex) := by
  have hfound : Working s (.Wait c m) (.Beginning [cond, mutex]) :=
    ((h.going t _ hcall).working nofun rfl).2
  unfold State.begin_wait
  split
  next => exact h.operate hcall nofun rfl (Tweak.refl s) rfl rfl htold trivial
  next =>
    refine h.operate hcall nofun rfl ?_ rfl rfl htold hfound
    exact (Tweak.count s cond _ _).trans (Tweak.count _ mutex _ _)

theorem Inv.begin_pulse (hcall : s.calls t = some ⟨action, .Beginning [e]⟩)
    (haction : action = .Signal c ∨ action = .Broadcast c) (htold : x.told = .Silent) :
    Inv (es ++ [x]) (s.begin_pulse t action ⟨.Cond, c⟩ e) := by
  have hinit : ∀ o setting, action ≠ .Init o setting := by
    rcases haction with rfl | rfl <;> exact nofun
  have hobjects : action.objects = [⟨.Cond, c⟩] := by rcases haction with rfl | rfl <;> rfl
  have hfound : List.Forall₂ (Held s) action.objects [e] :=
    ((h.going t _ hcall).working hinit rfl).2
  have hheld : Held s ⟨.Cond, c⟩ e := by
    rw [hobjects] at hfound
    exact (List.forall₂_cons.mp hfound).1
  have hcount := Tweak.count s e ((s.entries e).active_operations + 1) (s.entries e).waiters
  simp only [State.begin_pulse]
  split
  next => exact h.operate hcall hinit rfl (Tweak.refl s) rfl rfl htold trivial
  next =>
    split
    next =>
      refine h.operate hcall hinit rfl ?_ rfl rfl htold hfound
      exact hcount.set_guest hheld (hheld.sane.count _)
    next => exact h.operate hcall hinit rfl hcount rfl rfl htold hfound

/-- The object of a call that destroys it. -/
theorem Inv.destroy_held (hcall : s.calls t = some ⟨.Destroy o, .Beginning [e]⟩) : Held s o e := by
  have hfound : List.Forall₂ (Held s) [o] [e] := ((h.going t _ hcall).working nofun rfl).2
  exact (List.forall₂_cons.mp hfound).1

theorem Inv.begin_destroy (hcall : s.calls t = some ⟨.Destroy o, .Beginning [e]⟩)
    (hnext : s.begin_destroy t o e = some s') (htold : x.told = .Silent) : Inv (es ++ [x]) s' := by
  have hheld := h.destroy_held hcall
  have htweak : Tweak s (s.set_lifecycle e .Destroying) := Tweak.lifecycle hheld nofun
  have hgive : Inv (es ++ [x]) (s.goto t (.Destroy o) (.Leaving kAndroidEbusy)) :=
    h.operate hcall nofun rfl (Tweak.refl s) rfl rfl htold trivial
  simp only [State.begin_destroy] at hnext
  split at hnext
  next =>
    split_ifs at hnext
    all_goals
      cases hnext
    · exact hgive
    · exact h.operate hcall nofun rfl htweak rfl rfl htold ⟨o, rfl, hheld⟩
  next =>
    split_ifs at hnext
    all_goals
      cases hnext
    · exact hgive
    · exact hgive
    · exact h.operate hcall nofun rfl htweak rfl rfl htold ⟨o, rfl, hheld⟩

theorem Inv.end_destroy {host : Bool} (hcall : s.calls t = some ⟨.Destroy o, .Destroying e⟩)
    (htold : x.told = (s.end_destroy host t o e).1) (halone : ∀ p, x.told = .End p → s.Alone t p) :
    Inv (es ++ [x]) (s.end_destroy host t o e).2 := by
  unfold State.end_destroy at htold ⊢
  split at htold
  next hhost =>
    rw [if_pos hhost]
    exact h.destroyed hcall (halone o htold) htold _
  next hhost =>
    rw [if_neg hhost]
    obtain ⟨-, _, _, hheld⟩ := (h.going t _ hcall).working nofun rfl
    exact h.operate hcall nofun rfl (Tweak.lifecycle hheld nofun) rfl rfl htold trivial

theorem Inv.end_wait
    (hcall : s.calls t = some ⟨.Wait c m, .Operating [cond, mutex]⟩) (htold : x.told = .Silent) :
    Inv (es ++ [x]) (s.end_wait t (.Wait c m) ⟨.Cond, c⟩ cond mutex) := by
  have hfound : List.Forall₂ (Held s) [⟨.Cond, c⟩, ⟨.Mutex, m⟩] [cond, mutex] :=
    ((h.going t _ hcall).working nofun rfl).2
  have hheld := (List.forall₂_cons.mp hfound).1
  unfold State.end_wait
  refine h.operate hcall nofun rfl ?_ rfl rfl htold trivial
  refine Tweak.set_guest ?_ hheld (hheld.sane.of_state rfl)
  exact (Tweak.count s cond _ _).trans (Tweak.count _ mutex _ _)

/-- `CondWait` writes the count of the waiters. -/
theorem Inv.announce
    (hcall : s.calls t = some ⟨.Wait c m, .Announcing [cond, mutex]⟩) (htold : x.told = .Silent) :
    Inv (es ++ [x]) ((s.set_guest ⟨.Cond, c⟩ { s.guest ⟨.Cond, c⟩ with
      rest := (s.entries cond).waiters }).goto t (.Wait c m) (.Operating [cond, mutex])) := by
  have hfound : List.Forall₂ (Held s) [⟨.Cond, c⟩, ⟨.Mutex, m⟩] [cond, mutex] :=
    ((h.going t _ hcall).working nofun rfl).2
  have hheld := (List.forall₂_cons.mp hfound).1
  refine h.operate hcall nofun rfl ?_ rfl rfl htold hfound
  exact (Tweak.refl s).set_guest hheld (hheld.sane.of_state rfl)

/-- An initialization only looks its object up. -/
theorem Inv.not_init (hcall : s.calls t = some ⟨action, phase⟩)
    (hphase : ∀ es s o setting, ¬ Starting es s o setting phase) (o : Object) (setting : Setting) :
    action ≠ .Init o setting :=
  fun haction => hphase es s o setting ((h.going t _ hcall).starting o setting haction).2

/-- The lookups are done. -/
theorem Inv.looked_all {found : List ℕ}
    (hcall : s.calls t = some ⟨action, .Looking [] found⟩) (htold : x.told = .Silent) :
    Inv (es ++ [x]) (s.goto t action (.Beginning found)) := by
  by_cases haction : ∀ o setting, action ≠ .Init o setting
  · obtain ⟨-, _, hobjects, hfound⟩ := (h.going t _ hcall).working haction rfl
    rw [List.append_nil] at hobjects
    rw [← hobjects] at hfound
    exact h.operate hcall haction rfl (Tweak.refl s) rfl rfl htold hfound
  · push Not at haction
    obtain ⟨o, setting, rfl⟩ := haction
    obtain ⟨hstatus, hstarting⟩ := (h.going t _ hcall).starting o setting rfl
    rcases hstarting with ⟨htodo, -⟩ | ⟨e, -, hfound, hheld⟩
    · cases htodo
    · exact h.quiet hcall (Tweak.refl s) rfl rfl htold
        (Going.of_starting hstatus ⟨e, hfound, hheld⟩)

theorem Inv.begin_action {found : List ℕ} (hcall : s.calls t = some ⟨action, .Beginning found⟩)
    (hnext : s.begin_action t action found = some s') (htold : x.told = .Silent) :
    Inv (es ++ [x]) s' := by
  unfold State.begin_action at hnext
  split at hnext
  next o setting e =>
    cases hnext
    obtain ⟨hstatus, e', -, hheld⟩ := (h.going t _ hcall).starting o setting rfl
    exact h.quiet hcall (Tweak.refl s) rfl rfl htold
      (Going.of_starting hstatus fun _ => ⟨e', hheld⟩)
  next => exact h.begin_mutex hcall nofun hnext htold
  next => exact h.begin_mutex hcall nofun hnext htold
  next => exact h.begin_mutex hcall nofun hnext htold
  next =>
    cases hnext
    exact h.begin_wait hcall htold
  next =>
    cases hnext
    exact h.begin_pulse hcall (.inl rfl) htold
  next =>
    cases hnext
    exact h.begin_pulse hcall (.inr rfl) htold
  next => exact h.begin_destroy hcall hnext htold
  next => contradiction

theorem Inv.end_action {found : List ℕ} (hcall : s.calls t = some ⟨action, .Operating found⟩)
    (hnext : s.end_action t action found = some s') (htold : x.told = .Silent) :
    Inv (es ++ [x]) s' := by
  unfold State.end_action at hnext
  split at hnext
  next =>
    cases hnext
    exact h.end_wait hcall htold
  next =>
    cases hnext
    exact h.operate hcall (h.not_init hcall fun _ _ _ _ => id) rfl (Tweak.count s _ _ _) rfl rfl
      htold trivial
  next => contradiction

/-- The operations on the mutex that is to be destroyed have ended. -/
theorem Inv.drained (hcall : s.calls t = some ⟨action, .Draining e⟩)
    (htold : x.told = .Silent) : Inv (es ++ [x]) (s.goto t action (.Destroying e)) := by
  have haction := h.not_init hcall fun _ _ _ _ => id
  exact h.operate hcall haction rfl (Tweak.refl s) rfl rfl htold
    ((h.going t _ hcall).working haction rfl).2

end

/-! ### Lookups of a call -/

variable {trace host : Bool} {todo : List Object} {found : List ℕ} {e : ℕ}

/-- An initialization that finds an entry has found one of another lifetime, so it is not
destroyed. -/
theorem Inv.adopts (h : Inv es s) (hcall : s.calls t = some ⟨.Init o setting, phase⟩)
    (hphase : phase = .Looking (o :: todo) found ∧ s.cache t o = some e ∨
      phase = .Searching o todo found ∧ s.table o = some e)
    (hserves : s.serves o e = true) : Event.Adopts ⟨s, .Go t host, told⟩ := by
  obtain ⟨-, hstarting⟩ := (h.going t _ hcall).starting o setting rfl
  have hblank : Blank es s o setting := by
    rcases hphase with ⟨rfl, -⟩ | ⟨rfl, -⟩
    · rcases hstarting with ⟨-, -, hblank⟩ | ⟨e, htodo, -⟩
      · exact hblank
      · cases htodo
    · exact hstarting.2.2.2
  refine ⟨t, host, o, setting, e, rfl, undestroyed_of_serves hblank.sane hserves, ?_⟩
  rcases hphase with ⟨rfl, he⟩ | ⟨rfl, he⟩
  · exact .inl ⟨todo, found, hcall, he⟩
  · exact .inr ⟨todo, found, hcall, he⟩

theorem Inv.look (h : Inv es s) (hcall : s.calls t = some ⟨action, .Looking (o :: todo) found⟩)
    (hnext : s.look t action o todo found = (told, s'))
    (hadopts : ¬ Event.Adopts ⟨s, .Go t host, told⟩) :
    Inv (es ++ [⟨s, .Go t host, told⟩]) s' := by
  unfold State.look at hnext
  by_cases haction : ∀ o setting, action ≠ .Init o setting
  · obtain ⟨hstatus, looked, hobjects, hfound⟩ := (h.going t _ hcall).working haction rfl
    split at hnext
    next e he =>
      obtain ⟨hcache, hserves⟩ := Option.filter_eq_some_iff.mp he
      have ho : o ∈ action.objects := by simp [hobjects]
      have hheld := h.found (hstatus o ho) hserves (h.heap.cache t o e hcache).2.2
      cases hnext
      exact h.tweak hcall (Tweak.refl s) rfl (h.heap.act hheld rfl)
        (Going.looked haction hstatus hobjects hfound hheld)
    next =>
      cases hnext
      exact h.operate hcall haction rfl (Tweak.refl s) rfl rfl rfl ⟨looked, hobjects, hfound⟩
  · push Not at haction
    obtain ⟨p, setting, rfl⟩ := haction
    obtain ⟨hstatus, hstarting⟩ := (h.going t _ hcall).starting p setting rfl
    rcases hstarting with ⟨htodo, hfound, hblank⟩ | ⟨e, htodo, -⟩
    · injection htodo with hp htodo
      subst hp htodo hfound
      split at hnext
      next e he =>
        obtain ⟨hcache, hserves⟩ := Option.filter_eq_some_iff.mp he
        exact absurd (h.adopts hcall (.inl ⟨rfl, hcache⟩) hserves) hadopts
      next =>
        cases hnext
        exact h.quiet hcall (Tweak.refl s) rfl rfl rfl
          (Going.of_starting hstatus ⟨rfl, rfl, rfl, hblank⟩)
    · cases htodo

section

variable (h : Inv es s) (hcall : s.calls t = some ⟨action, .Searching o todo found⟩)
include h hcall

/-- A call whose lookup finds nothing. -/
theorem Inv.unfound (hnone : (s.table o).filter (s.serves o) = none) :
    o ∈ action.objects ∧ ∃ setting, Blank es s o setting := by
  by_cases haction : ∀ o setting, action ≠ .Init o setting
  · obtain ⟨hstatus, _, hobjects, -⟩ := (h.going t _ hcall).working haction rfl
    have ho : o ∈ action.objects := by simp [hobjects]
    exact ⟨ho, h.unserved (hstatus o ho) hnone⟩
  · push Not at haction
    obtain ⟨p, setting, rfl⟩ := haction
    obtain ⟨-, ho, -, -, hblank⟩ := (h.going t _ hcall).starting p setting rfl
    rw [ho]
    exact ⟨List.mem_singleton.mpr rfl, setting, hblank⟩

/-- The call goes on with the entry that was made. -/
theorem Inv.going_made
    (hkeeps : Keeps (fun _ => True) (· ≠ o) es s (es ++ [x]) s') (hheld : Held s' o e) :
    Going (es ++ [x]) s' ⟨action, .Looking todo (found ++ [e])⟩ := by
  by_cases haction : ∀ o setting, action ≠ .Init o setting
  · obtain ⟨hstatus, _, hobjects, hfound⟩ := (h.going t _ hcall).working haction rfl
    refine Going.looked haction (fun p hp => ?_) hobjects
      (hkeeps.forall₂ (fun _ _ => trivial) hfound) hheld
    rw [hkeeps.status p trivial]
    exact hstatus p hp
  · push Not at haction
    obtain ⟨p, setting, rfl⟩ := haction
    obtain ⟨hstatus, rfl, rfl, rfl, -⟩ := (h.going t _ hcall).starting p setting rfl
    refine Going.of_starting ?_ (.inr ⟨e, rfl, rfl, hheld⟩)
    rwa [hkeeps.status o trivial]

theorem Inv.search (hnext : s.search trace host t action o todo found = (told, s'))
    (hadopts : ¬ Event.Adopts ⟨s, .Go t host, told⟩)
    (hmisfits : ¬ Event.Misfits trace ⟨s, .Go t host, told⟩) :
    Inv (es ++ [⟨s, .Go t host, told⟩]) s' := by
  unfold State.search at hnext
  split at hnext
  next e he =>
    obtain ⟨htable, hserves⟩ := Option.filter_eq_some_iff.mp he
    by_cases haction : ∀ o setting, action ≠ .Init o setting
    · obtain ⟨hstatus, _, hobjects, hfound⟩ := (h.going t _ hcall).working haction rfl
      have ho : o ∈ action.objects := by simp [hobjects]
      have hheld := h.found (hstatus o ho) hserves (.inr htable)
      cases hnext
      exact h.tweak hcall (Tweak.remember s t o e) rfl
        ((h.heap.act hheld rfl).remember htable t)
        (Going.looked haction hstatus hobjects hfound hheld)
    · push Not at haction
      obtain ⟨p, setting, rfl⟩ := haction
      obtain ⟨-, rfl, -⟩ := (h.going t _ hcall).starting p setting rfl
      exact absurd (h.adopts hcall (.inr ⟨rfl, htable⟩) hserves) hadopts
  next hnone =>
    obtain ⟨ho, setting, hblank⟩ := h.unfound hcall hnone
    have hsetting : o.family.setting (s.guest o) = .ok setting := by
      rw [hblank.bytes]
      exact setting_bytes hblank.family
    rw [hsetting] at hnext
    dsimp only at hnext
    split at hnext
    next =>
      cases hnext
      exact h.quiet hcall (Tweak.refl s) rfl rfl rfl
        ((h.going t _ hcall).fail (show kAndroidEnomem ≠ 0 by decide))
    next hhost =>
      -- the host object was made, or the setting is the one that a new entry has
      have hkept : (if ¬ host ∧ o.family = .Mutex then .Normal else setting) = setting := by
        split
        next hfail =>
          by_contra hne
          refine hmisfits ⟨?_, t, action, o, todo, found, setting, ?_, hcall, hnone, hsetting,
            hfail.2, fun heq => hne heq.symm⟩
          · simpa [hfail.1] using hhost
          · rw [Bool.eq_false_iff.mpr hfail.1]
        next => rfl
      rw [hkept] at hnext
      injection hnext with htold hs
      rw [← hs]
      have htold' : told = .Act o (s.life o) s.made setting := by
        rw [← htold]
        exact congrArg (Told.Act o (s.life o) s.made)
          (congrArg Entry.setting (s.install_entry_self setting))
      exact h.create hcall rfl ho hblank (retired_of_unserved hnone) htold'
        (fun _ hkeeps hheld => h.going_made hcall hkeeps hheld)

end

end Steps

end DarwinArt.Pthread.SideTable
