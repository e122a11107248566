/-
Whole runs of the destructor protocol.

A global pick takes effect where it reads the active lifecycles: from there on it holds the
coordinator, so no entry changes until it takes the one it found. That point of the history is part
of the invariant of a scan. After `finalize_image` has taken its image out, none of its addresses
can be registered under until the address is published again; what is registered or running under it
would have to belong to an image, and there is none.
-/
import DarwinArt.Dso.Protocol

set_option autoImplicit false

namespace DarwinArt.Dso

open Lib Lib.ListEdit

variable {allow_global : ℕ → Bool} {s s' : System} {event : Event} {es : List Event}

/-! ## The coordinator -/

/-- The entry is pending in one of the lifecycles, matches, and no other that matches there has a
greater sequence number. -/
def Greatest (s : System) (lifecycles : List ℕ) (matching : Entry → Bool) (l : ℕ) (entry : Entry) :
    Prop :=
  l ∈ lifecycles ∧ entry ∈ (s.lifecycles l).pending ∧ matching entry = true ∧
    ∀ l' ∈ lifecycles, ∀ e ∈ (s.lifecycles l').pending, matching e = true →
      e.sequence ≤ entry.sequence

/-- What a scan has selected when it has been through the lifecycles `seen`. -/
structure Chosen (s : System) (seen : List ℕ) (selected : Option Selected) : Prop where
  stands : ∀ best, selected = some best → best.lifecycle ∈ seen ∧
    ∃ entry, (s.lifecycles best.lifecycle).entries[best.index]? = some (some entry) ∧
      entry.sequence = best.sequence
  greatest : ∀ l ∈ seen, ∀ entry ∈ (s.lifecycles l).pending,
    ∃ best, selected = some best ∧ entry.sequence ≤ best.sequence

variable {selected : Option Selected} {c dso l : ℕ} {state : State}

/-- One lifecycle more. -/
theorem Chosen.scan {seen : List ℕ} (h : Chosen s seen selected) (l : ℕ) :
    Chosen s (seen ++ [l]) (Dso.scan l 0 (s.lifecycles l).entries selected) := by
  obtain ⟨hfrom, hold, hnew⟩ := scan_spec l (s.lifecycles l).entries 0 selected
  constructor
  · intro best hbest
    rcases hfrom with hkept | ⟨i, entry, hentry, hscan⟩
    · obtain ⟨hmem, hstands⟩ := h.stands best (hkept.symm.trans hbest)
      exact ⟨List.mem_append_left _ hmem, hstands⟩
    · rw [hscan, Option.some.injEq] at hbest
      rw [← hbest]
      exact ⟨by simp, entry, by simpa using hentry, rfl⟩
  · intro l' hl' entry hentry
    rcases List.mem_append.mp hl' with hl' | hl'
    · obtain ⟨best, hbest, hle⟩ := h.greatest l' hl' entry hentry
      obtain ⟨best', hbest', hle'⟩ := hold best hbest
      exact ⟨best', hbest', Nat.le_trans hle hle'⟩
    · rw [List.mem_singleton.mp hl'] at hentry
      exact hnew entry hentry

/-- **The coordinator.** It is held by the call that scans, if there is one. Since that call read
the active lifecycles no entry has changed, and its selection is the greatest of what it has
scanned. -/
structure Coordinated (allow_global : ℕ → Bool) (es : List Event) (s : System) : Prop where
  holder : ∀ c, (s.call c).scans = true ↔ s.coordinator = some c
  scan : ∀ c lifecycles todo selected, s.call c = .Scanning lifecycles todo selected →
    ∃ past rest w seen, es = past ++ .ReadActive c :: rest ∧
      Run (Step allow_global) System.new past w ∧ w.active = lifecycles ∧
      (∀ l, (w.lifecycles l).entries = (s.lifecycles l).entries) ∧ lifecycles = seen ++ todo ∧
      Chosen w seen selected

/-- Nobody scans, and the coordinator is free. -/
theorem Coordinated.of_none (hnone : ∀ c, (s.call c).scans = false) (hfree : s.coordinator = none) :
    Coordinated allow_global es s := by
  constructor
  · intro c
    rw [hnone c, hfree]
    exact iff_of_false (by simp) (by simp)
  · intro c lifecycles todo selected hc
    have := hnone c
    rw [hc] at this
    cases this

/-- Who scans holds the coordinator. -/
theorem Coordinated.not_scans (h : Coordinated allow_global es s) (hc : s.coordinator ≠ some c) :
    (s.call c).scans = false := by
  by_contra hscans
  exact hc ((h.holder c).mp (by simpa using hscans))

/-- A step that leaves the entries and the scans alone. -/
theorem Coordinated.aside (h : Coordinated allow_global es s)
    (hcoordinator : s'.coordinator = s.coordinator)
    (hentries : ∀ l, (s'.lifecycles l).entries = (s.lifecycles l).entries)
    (hcalls : ∀ c, s'.call c = s.call c ∨
      ((s'.call c).scans = false ∧ (s.call c).scans = false)) :
    Coordinated allow_global (es ++ [event]) s' := by
  constructor
  · intro c
    rw [hcoordinator, ← h.holder c]
    rcases hcalls c with hsame | ⟨hno, hno'⟩
    · rw [hsame]
    · rw [hno, hno']
  · intro c lifecycles todo selected hc
    rcases hcalls c with hsame | ⟨hno, -⟩
    · obtain ⟨past, rest, w, seen, hes, hrun, hactive, hw, hseen, hchosen⟩ :=
        h.scan c lifecycles todo selected (hsame ▸ hc)
      refine ⟨past, rest ++ [event], w, seen, ?_, hrun, hactive, ?_, hseen, hchosen⟩
      · rw [hes, List.append_assoc, List.cons_append]
      · intro l
        rw [hw, hentries]
    · rw [hc] at hno
      cases hno

/-- A step under the coordinator, which nobody held and nobody holds afterwards. -/
theorem Coordinated.free (h : Coordinated allow_global es s) (hfree : s.coordinator = none)
    (hfree' : s'.coordinator = none)
    (hcalls : ∀ c, s'.call c = s.call c ∨
      ((s'.call c).scans = false ∧ (s.call c).scans = false)) :
    Coordinated allow_global (es ++ [event]) s' := by
  refine .of_none (fun c => ?_) hfree'
  rcases hcalls c with hsame | ⟨hno, -⟩
  · rw [hsame]
    exact h.not_scans (by simp [hfree])
  · exact hno

/-- A call that moves between phases outside of a scan. -/
theorem scans_goto {phase : Phase} (hcall : s'.call = (s.goto c phase).call)
    (h : phase.scans = false) (h' : (s.call c).scans = false) (c' : ℕ) :
    s'.call c' = s.call c' ∨ ((s'.call c').scans = false ∧ (s.call c').scans = false) := by
  rw [hcall]
  by_cases heq : c' = c
  · rw [heq, System.goto_self]
    exact .inr ⟨h, h'⟩
  · rw [System.goto_of_ne s phase heq]
    exact .inl rfl

/-- The entries of a lifecycle that is set to a state with the same entries. -/
theorem entries_set (h : state.entries = (s.lifecycles l).entries) (l' : ℕ) :
    ((s.set l state).lifecycles l').entries = (s.lifecycles l').entries :=
  s.set_forall state (P := fun l' st => st.entries = (s.lifecycles l').entries) (fun _ => rfl) h l'

section

variable (h : Coordinated allow_global es s)
include h

/-- A scan begins: everything is as the call has just read it. -/
theorem Coordinated.read_active
    (hrun : Run (Step allow_global) System.new es s) (hfree : s.coordinator = none) :
    Coordinated allow_global (es ++ [.ReadActive c])
      ({ s with coordinator := some c }.goto c (.Scanning s.active s.active none)) := by
  have hnone : ∀ c', (s.call c').scans = false := fun c' => h.not_scans (by simp [hfree])
  constructor
  · intro c'
    by_cases heq : c' = c
    · rw [heq, System.goto_self]
      exact iff_of_true rfl rfl
    · rw [System.goto_of_ne _ _ heq]
      refine iff_of_false ?_ ?_
      · change (s.call c').scans ≠ true
        rw [hnone c']
        simp
      · intro hc
        exact heq (Option.some.inj hc).symm
  · intro c' lifecycles todo selected hc
    by_cases heq : c' = c
    · rw [heq, System.goto_self] at hc
      injection hc with hlifecycles htodo hselected
      rw [heq]
      refine ⟨es, [], s, [], rfl, hrun, hlifecycles, fun _ => rfl, ?_, ?_⟩
      · rw [List.nil_append, ← hlifecycles, ← htodo]
      · constructor
        · intro best hbest
          rw [← hselected] at hbest
          cases hbest
        · intro l hl
          exact absurd hl (List.not_mem_nil)
    · rw [System.goto_of_ne _ _ heq] at hc
      have := hnone c'
      rw [show s.call c' = _ from hc] at this
      cases this

/-- A scan goes on by one lifecycle. -/
theorem Coordinated.scan_step {lifecycles todo : List ℕ}
    (hcall : s.call c = .Scanning lifecycles (l :: todo) selected) :
    Coordinated allow_global (es ++ [event])
      (s.goto c (.Scanning lifecycles todo (Dso.scan l 0 (s.lifecycles l).entries selected))) := by
  obtain ⟨past, rest, w, seen, hes, hrun, hactive, hw, hseen, hchosen⟩ := h.scan c _ _ _ hcall
  have honly : ∀ c', (s.call c').scans = true → c' = c := by
    intro c' hc'
    have hc := (h.holder c).mp (by rw [hcall]; rfl)
    rw [(h.holder c').mp hc'] at hc
    exact Option.some.inj hc
  constructor
  · intro c'
    refine Iff.trans ?_ (h.holder c')
    by_cases heq : c' = c
    · rw [heq, System.goto_self, hcall]
      exact iff_of_true rfl rfl
    · rw [System.goto_of_ne _ _ heq]
  · intro c' lifecycles' todo' selected' hc
    by_cases heq : c' = c
    · rw [heq, System.goto_self] at hc
      injection hc with hlifecycles htodo hselected
      rw [heq, ← hlifecycles, ← htodo, ← hselected]
      refine ⟨past, rest ++ [event], w, seen ++ [l], ?_, hrun, hactive, hw, ?_, ?_⟩
      · rw [hes, List.append_assoc, List.cons_append]
      · rw [hseen, List.append_assoc, List.singleton_append]
      · rw [← hw l]
        exact hchosen.scan l
    · rw [System.goto_of_ne _ _ heq] at hc
      exact absurd (honly c' (by rw [hc]; rfl)) heq

/-- A scan ends, and the coordinator is free again. -/
theorem Coordinated.release {phase : Phase}
    (hscans : (s.call c).scans = true) (hphase : phase.scans = false)
    (hcall : s'.call = (s.goto c phase).call) (hfree : s'.coordinator = none) :
    Coordinated allow_global (es ++ [event]) s' := by
  have hholder := (h.holder c).mp hscans
  refine .of_none (fun c' => ?_) hfree
  rw [hcall]
  by_cases heq : c' = c
  · rwa [heq, System.goto_self]
  · rw [System.goto_of_ne s phase heq]
    exact h.not_scans (by simp [hholder, Ne.symm heq])

theorem Coordinated.step
    (hrun : Run (Step allow_global) System.new es s) (hsound : ∀ l, (s.lifecycles l).Sound)
    (hstep : Step allow_global s event s') : Coordinated allow_global (es ++ [event]) s' := by
  cases hstep with
  | activate | deactivate => exact h.aside rfl (fun _ => rfl) fun _ => .inl rfl
  | publish _ _ _ _ hop =>
    rw [State.publish_spec hop]
    exact h.aside rfl (entries_set rfl) fun _ => .inl rfl
  | unpublish _ _ _ hop =>
    rw [(State.try_unpublish_spec hop).2]
    exact h.aside rfl (entries_set rfl) fun _ => .inl rfl
  | publish_image _ _ _ _ _ hop =>
    rw [(State.publish_image_spec hop).2.2]
    exact h.aside rfl (entries_set rfl) fun _ => .inl rfl
  | register _ _ _ _ _ _ _ _ _ hfree =>
    exact h.free hfree hfree fun _ => .inl rfl
  | register_thread l _ _ _ hop =>
    have htakes := State.register_thread_takes (hsound l).images hop
    exact h.aside rfl (entries_set htakes.entries) fun _ => .inl rfl
  | complete_thread l _ _ hop =>
    have htakes := State.complete_thread_destructor_takes (hsound l).images hop
    exact h.aside rfl (entries_set htakes.entries) fun _ => .inl rfl
  | finalize _ _ _ hcall | no_match _ _ _ hcall | again _ _ _ _ _ hcall
  | disappeared _ _ _ _ _ hcall | finalize_all _ hcall =>
    exact h.aside rfl (fun _ => rfl) (scans_goto rfl rfl (by rw [hcall]; rfl))
  | finalize_image _ _ _ _ _ _ hcall hop =>
    obtain ⟨before, image, after, -, -, -, -, -, rfl⟩ := State.begin_finalize_image_spec hop
    exact h.aside rfl (entries_set rfl) (scans_goto rfl rfl (by rw [hcall]; rfl))
  | pick _ _ _ _ _ hcall hfree | retain _ _ _ hcall hfree | retain_image _ _ _ _ _ hcall hfree =>
    exact h.free hfree hfree (scans_goto rfl rfl (by rw [hcall]; rfl))
  | complete _ _ _ _ _ hcall hop | complete_global _ _ _ _ hcall hop =>
    obtain ⟨_, -, rfl⟩ := Option.map_eq_some_iff.mp hop
    exact h.aside rfl (entries_set rfl) (scans_goto rfl rfl (by rw [hcall]; rfl))
  | finalized_image _ _ _ _ _ _ hcall hop =>
    obtain ⟨-, before, image, after, _, -, -, -, -, rfl⟩ := State.quiesce_done hop
    exact h.aside rfl (entries_set rfl) (scans_goto rfl rfl (by rw [hcall]; rfl))
  | read_active _ _ hfree => exact h.read_active hrun hfree
  | scan _ _ _ _ _ hcall => exact h.scan_step hcall
  | pick_global _ _ _ _ _ hcall | nothing_global _ _ hcall =>
    exact h.release (by rw [hcall]; rfl) rfl rfl rfl

end

/-! ## All invariants together -/

structure Inv (allow_global : ℕ → Bool) (es : List Event) (s : System) : Prop where
  finalizing : Finalizing s
  sequences : Sequences es s
  counted : Counted s
  coordinated : Coordinated allow_global es s

section

variable (hrun : Run (Step allow_global) System.new es s)
include hrun

theorem run_inv : Inv allow_global es s := by
  refine hrun.history (Inv allow_global) ⟨.new, .new, .new, .of_none (fun _ => rfl) rfl⟩ ?_
  intro es t event u hrun h hstep
  have hchange := hstep.change h.finalizing.sound
  exact ⟨h.finalizing.step hstep, h.sequences.change hchange, h.counted.change hchange,
    h.coordinated.step hrun h.finalizing.sound hstep⟩

/-! ## Picks -/

/-- The pick of `finalize_matching`: the entries stand in the order of their numbers. -/
theorem picked_greatest {job : Job}
    {entry : Entry} (hstep : Step allow_global s (.Picked l job entry) s') :
    Greatest s [l] job.matching l entry := by
  have hsorted := (run_inv hrun).sequences.sorted l
  cases hstep with
  | pick c _ _ _ state hcall hfree hop =>
  obtain ⟨before, after, hentries, hmatch, hafter, -⟩ := State.take_latest_matching_spec hop
  have hpending : (s.lifecycles l).pending =
      before.filterMap id ++ entry :: after.filterMap id := by
    simp [State.pending, hentries]
  refine ⟨List.mem_singleton_self l, by rw [hpending]; simp, hmatch, ?_⟩
  intro l' hl' e he hmatch'
  rw [List.mem_singleton.mp hl', hpending] at he
  rw [hpending, List.map_append, List.map_cons, List.pairwise_append] at hsorted
  rcases List.mem_append.mp he with he | he
  · exact Nat.le_of_lt (hsorted.2.2 _ (List.mem_map_of_mem he) entry.sequence (by simp))
  rcases List.mem_cons.mp he with rfl | he
  · exact Nat.le_refl _
  · -- what comes later has a greater number, but does not match
    rw [hafter e he] at hmatch'
    cases hmatch'

/-- The pick of `take_latest_global`, from the point where it read the active lifecycles. -/
theorem picked_global_greatest
    {entry : Entry} (hstep : Step allow_global s (.PickedGlobal c l entry) s') :
    ∃ past rest w, es = past ++ .ReadActive c :: rest ∧ Run (Step allow_global) System.new past w ∧
      (∀ l', (w.lifecycles l').entries = (s.lifecycles l').entries) ∧
      Greatest w w.active (fun _ => true) l entry := by
  cases hstep with
  | pick_global _ lifecycles best _ state hcall hop hsequence =>
  obtain ⟨past, rest, w, _, hes, hrun', hactive, hw, hseen, hchosen⟩ :=
    (run_inv hrun).coordinated.scan c _ _ _ hcall
  rw [List.append_nil] at hseen
  obtain ⟨_, _, hentries, _, -⟩ := State.take_entry_spec hop
  refine ⟨past, rest, w, hes, hrun', hw, ?_, ?_, rfl, ?_⟩
  · rw [hactive, hseen]
    exact (hchosen.stands best rfl).1
  · rw [State.pending, hw, hentries]
    simp
  · intro l' hl' e he _
    rw [hactive, hseen] at hl'
    obtain ⟨_, hbest', hle⟩ := hchosen.greatest l' hl' e he
    rw [← Option.some.inj hbest'] at hle
    omega

end

/-! ## After an image is gone -/

/-- The handle is not published, and lies in no image. -/
def State.Closed (state : State) (dso : ℕ) : Prop :=
  dso ∉ state.published ∧ ∀ image ∈ state.images, image.contains dso = false

/-- Nothing is registered or running under a handle that is closed. -/
theorem State.Closed.not_uses (h : state.Closed dso) (hsound : state.Sound)
    (hdso : dso ≠ 0) : ¬ state.Uses dso := by
  intro huses
  rcases hsound.owned dso hdso huses with hpublished | ⟨image, himage, hhandle⟩
  · exact h.1 hpublished
  · have := hsound.images.inside image himage dso hhandle
    rw [h.2 image himage] at this
    cases this

/-- A change by which no range and no handle is published. -/
theorem State.Closed.same {state' : State} (h : state.Closed dso)
    (hpublished : state'.published ⊆ state.published)
    (hranges : SameRanges state.images state'.images) : state'.Closed dso := by
  refine ⟨fun hin => h.1 (hpublished hin), ?_⟩
  intro image' himage'
  obtain ⟨image, himage, hstart, hstop⟩ := hranges image' himage'
  have := h.2 image himage
  simp only [PublishedImage.contains, hstart, hstop] at this ⊢
  exact this

/-- What a step publishes in a lifecycle is what its event says. -/
theorem Step.closed (hsound : ∀ l, (s.lifecycles l).Sound) (hstep : Step allow_global s event s')
    (h : (s.lifecycles l).Closed dso) (hhandle : event ≠ .Published l dso)
    (himage : ∀ start stop, event = .PublishedImage l start stop → ¬ (start ≤ dso ∧ dso < stop)) :
    (s'.lifecycles l).Closed dso := by
  -- a step on one lifecycle leaves the others as they are
  have hset : ∀ {l' : ℕ} {state : State}, (l = l' → state.Closed dso) →
      ((s.set l' state).lifecycles l).Closed dso := by
    intro l' state hstate
    by_cases hl : l = l'
    · rw [hl, System.set_self]
      exact hstate hl
    · rwa [System.set_of_ne s state hl]
  have hsame : ∀ {l' : ℕ} {state : State}, state.published ⊆ (s.lifecycles l').published →
      SameRanges (s.lifecycles l').images state.images → ((s.set l' state).lifecycles l).Closed dso :=
    fun hpublished hranges => hset fun hl => (hl ▸ h).same hpublished hranges
  cases hstep with
  | activate | deactivate | finalize | no_match | again | disappeared | finalize_all | read_active
  | scan | nothing_global => exact h
  | publish _ _ _ _ hop =>
    rw [State.publish_spec hop]
    refine hset ?_
    rintro rfl
    refine ⟨?_, h.2⟩
    intro hin
    rcases Finset.mem_insert.mp hin with rfl | hin
    · exact hhandle rfl
    · exact h.1 hin
  | unpublish _ _ _ hop =>
    rw [(State.try_unpublish_spec hop).2]
    exact hsame (Finset.erase_subset _ _) (SameRanges.refl _)
  | publish_image _ start stop _ _ hop =>
    obtain ⟨-, -, rfl⟩ := State.publish_image_spec hop
    refine hset ?_
    rintro rfl
    refine ⟨h.1, ?_⟩
    intro image hin
    rcases mem_snoc hin with hin | hin
    · exact h.2 image hin
    · rw [hin]
      by_contra hc
      have hc : PublishedImage.contains ⟨start, stop, false, ∅⟩ dso = true := by simpa using hc
      exact himage start stop rfl (PublishedImage.contains_iff.mp hc)
  | register l' _ _ _ _ _ _ _ _ _ hop =>
    rcases State.register_cases (hsound l').images hop with ⟨-, -, htakes⟩ |
      ⟨_, _, -, -, -, -, htakes, rfl, -⟩
    · exact hsame (by rw [htakes.published]) htakes.ranges
    · exact hsame (by rw [← htakes.published]) htakes.ranges
  | register_thread l' _ _ _ hop =>
    have htakes := State.register_thread_takes (hsound l').images hop
    exact hsame (by rw [htakes.published]) htakes.ranges
  | complete_thread l' _ _ hop =>
    have htakes := State.complete_thread_destructor_takes (hsound l').images hop
    exact hsame (by rw [htakes.published]) htakes.ranges
  | finalize_image _ _ _ _ _ _ _ hop =>
    obtain ⟨before, image, after, himages, -, -, -, -, rfl⟩ := State.begin_finalize_image_spec hop
    refine hsame (Finset.Subset.refl _) ?_
    rw [himages]
    exact SameRanges.replace rfl rfl
  | pick _ _ _ _ _ _ _ hop =>
    obtain ⟨before, after, -, -, -, rfl⟩ := State.take_latest_matching_spec hop
    exact hsame (Finset.Subset.refl _) (SameRanges.refl _)
  | complete _ _ _ _ _ _ hop | complete_global _ _ _ _ _ hop =>
    obtain ⟨_, -, rfl⟩ := Option.map_eq_some_iff.mp hop
    exact hsame (Finset.Subset.refl _) (SameRanges.refl _)
  | retain | retain_image =>
    exact hsame (Finset.Subset.refl _) (SameRanges.refl _)
  | finalized_image _ _ _ _ _ _ _ hop =>
    obtain ⟨-, before, image, after, _, himages, -, -, hperm, rfl⟩ := State.quiesce_done hop
    refine hsame (Finset.Subset.refl _) ?_
    intro x hx
    refine ⟨x, ?_, rfl, rfl⟩
    rw [himages]
    have := (mem_of_removed hperm).mp hx
    simp only [List.mem_append, List.mem_cons] at this ⊢
    exact this.imp id .inr
  | pick_global _ _ _ _ _ _ hop =>
    obtain ⟨before, after, -, -, rfl⟩ := State.take_entry_spec hop
    exact hsame (Finset.Subset.refl _) (SameRanges.refl _)

/-- No registration under a closed handle is accepted. -/
theorem Step.closed_refuses (hsound : ∀ l, (s.lifecycles l).Sound) {entry : Entry}
    (h : (s.lifecycles l).Closed dso) (hdso : dso ≠ 0)
    (hstep : Step allow_global s (.Registered l dso (some entry)) s') : False := by
  cases hstep with
  | register _ function argument _ rh re _ state next hfree hop =>
  rcases State.register_cases (hsound l).images hop with ⟨hnone, -⟩ |
    ⟨e, _, _, -, -, hsame, -, -, hadmitted⟩
  · cases hnone
  · rw [hsame hdso] at hadmitted
    obtain ⟨⟨image, himage, hcontains⟩, -⟩ := hadmitted hdso h.1
    rw [h.2 image himage] at hcontains
    cases hcontains

/-- From where a handle is closed, it stays so until it is published again. -/
theorem closed_run (hrun : Run (Step allow_global) System.new es s) {later : List Event} {t : System}
    (hlater : Run (Step allow_global) s later t) (h : (s.lifecycles l).Closed dso)
    (hdso : dso ≠ 0) (hhandle : Event.Published l dso ∉ later)
    (himage : ∀ start stop, Event.PublishedImage l start stop ∈ later →
      ¬ (start ≤ dso ∧ dso < stop)) :
    (t.lifecycles l).Closed dso ∧ ∀ entry, Event.Registered l dso (some entry) ∉ later := by
  induction hlater with
  | nil => exact ⟨h, fun entry => List.not_mem_nil⟩
  | snoc hlater hlast ih =>
    obtain ⟨hclosed, hrefused⟩ := ih
      (fun hin => hhandle (List.mem_append_left _ hin))
      (fun start stop hin => himage start stop (List.mem_append_left _ hin))
    have hsound := (run_inv (hrun.append hlater)).finalizing.sound
    refine ⟨hlast.closed hsound hclosed ?_ ?_, ?_⟩
    · rintro rfl
      exact hhandle (by simp)
    · rintro start stop rfl
      exact himage start stop (by simp)
    · intro entry hin
      rcases mem_snoc hin with hin | hin
      · exact hrefused entry hin
      · rw [← hin] at hlast
        exact hlast.closed_refuses hsound hclosed hdso

/-- Where `finalize_image` takes its image out, the addresses of the image that are not published by
themselves are closed. -/
theorem finalized_closed (hrun : Run (Step allow_global) System.new es s) {start stop : ℕ}
    (hstep : Step allow_global s (.FinalizedImage l start stop) s') (hlow : start ≤ dso)
    (hhigh : dso < stop) (hnot : dso ∉ (s.lifecycles l).published) :
    dso ≠ 0 ∧ (s'.lifecycles l).Closed dso := by
  cases hstep with
  | finalized_image c _ _ _ handles state hcall hop =>
  have hwell := ((run_inv hrun).finalizing.sound l).images
  obtain ⟨-, _, image, _, _, himages, _, _, hperm, rfl⟩ :=
    State.quiesce_done hop
  rw [himages] at hwell
  have hpos := (hwell.ranges image (by simp)).1
  refine ⟨by omega, ?_⟩
  rw [System.goto_lifecycles, System.set_self]
  refine ⟨hnot, hwell.not_contains_removed hperm ?_⟩
  rw [PublishedImage.contains_iff]
  omega

/-- **The destructor protocol.** After every run: no registration was called twice, and only
accepted ones were called. A pick takes the greatest pending entry that matches; a global pick does
so over all lifecycles that were active when it read them, and no entry has changed since. When
`finalize_image` takes out an image of which no address is published by itself, then for each of its
addresses, as long as neither the address nor an image that covers it is published: nothing is
pending under it, no destructor of it is running, and no registration under it is accepted. -/
theorem destructor_protocol (hrun : Run (Step allow_global) System.new es s) :
    (((called es).map Entry.sequence).Nodup ∧ called es ⊆ accepted es ∧
      ((accepted es).map Entry.sequence).Nodup) ∧
    (∀ l job entry s', Step allow_global s (.Picked l job entry) s' →
      Greatest s [l] job.matching l entry) ∧
    (∀ c l entry s', Step allow_global s (.PickedGlobal c l entry) s' →
      ∃ past rest w, es = past ++ .ReadActive c :: rest ∧
        Run (Step allow_global) System.new past w ∧
        (∀ l', (w.lifecycles l').entries = (s.lifecycles l').entries) ∧
        Greatest w w.active (fun _ => true) l entry) ∧
    (∀ l start stop s', Step allow_global s (.FinalizedImage l start stop) s' →
      (∀ dso, start ≤ dso → dso < stop → dso ∉ (s.lifecycles l).published) →
      (∃ image ∈ (s.lifecycles l).images, image.start = start ∧ image.stop = stop ∧
        ∀ handle ∈ image.handles, start ≤ handle ∧ handle < stop) ∧
      ∀ dso, start ≤ dso → dso < stop → ∀ later t, Run (Step allow_global) s' later t →
        Event.Published l dso ∉ later →
        (∀ start' stop', Event.PublishedImage l start' stop' ∈ later →
          ¬ (start' ≤ dso ∧ dso < stop')) →
        (∀ entry ∈ (t.lifecycles l).pending, entry.dso ≠ dso) ∧
        (∀ c, ¬ (t.call c).RunsHandle l dso) ∧
        ∀ entry, Event.Registered l dso (some entry) ∉ later) := by
  have hinv := run_inv hrun
  refine ⟨⟨hinv.sequences.once, hinv.sequences.called, ?_⟩, ?_, ?_, ?_⟩
  · exact hinv.sequences.increasing.imp fun h => Nat.ne_of_lt h
  · intro l job entry s' hstep
    exact picked_greatest hrun hstep
  · intro c l entry s' hstep
    exact picked_global_greatest hrun hstep
  · intro l start stop s' hstep hunpublished
    refine ⟨?_, ?_⟩
    · cases hstep with
      | finalized_image c _ _ _ handles state hcall hop =>
      obtain ⟨-, _, image, _, _, himages, hstart, hstop, -, -⟩ := State.quiesce_done hop
      have himage : image ∈ (s.lifecycles l).images := by
        rw [himages]
        simp
      refine ⟨image, himage, hstart, hstop, ?_⟩
      intro handle hhandle
      have := (hinv.finalizing.sound l).images.inside image himage handle hhandle
      rw [PublishedImage.contains_iff, hstart, hstop] at this
      exact this
    · intro dso hlow hhigh later t hlater hhandle himage
      obtain ⟨hdso, hclosed⟩ := finalized_closed hrun hstep hlow hhigh (hunpublished dso hlow hhigh)
      have hrun' := hrun.snoc hstep
      obtain ⟨hclosed', hrefused⟩ := closed_run hrun' hlater hclosed hdso hhandle himage
      have hinv' := run_inv (hrun'.append hlater)
      have hidle := hclosed'.not_uses (hinv'.finalizing.sound l) hdso
      refine ⟨?_, ?_, hrefused⟩
      · intro entry hentry heq
        exact hidle (.inl ⟨entry, hentry, heq⟩)
      · apply hinv'.counted.not_runs
        by_contra hcount
        exact hidle (.inr hcount)

/-- A finalization of the image `[100, 200)` with a registration under handle 150, one that passed
no handle, and one that the destructor of that makes while it runs. -/
def reentrant_events : List Event :=
  [.PublishedImage 0 100 200, .Registered 0 150 (some ⟨110, 7, 150, 1⟩),
    .Registered 0 0 (some ⟨120, 7, 100, 2⟩), .Silent,
    .Picked 0 (.FinalizeImage 100 200 {100, 150}) ⟨120, 7, 100, 2⟩,
    .Registered 0 160 none, .Registered 0 100 (some ⟨130, 8, 100, 3⟩), .Silent,
    .Picked 0 (.FinalizeImage 100 200 {100, 150}) ⟨130, 8, 100, 3⟩, .Silent,
    .Picked 0 (.FinalizeImage 100 200 {100, 150}) ⟨110, 7, 150, 1⟩, .Silent, .Silent, .Silent]

/-- In that run the entries are called from the last to the first, and afterwards the image is
gone. -/
theorem reentrant_finalization :
    ∃ s s', Run (Step fun _ => true) System.new reentrant_events s ∧
      Step (fun _ => true) s (.FinalizedImage 0 100 200) s' ∧
      (∀ entry ∈ (s'.lifecycles 0).pending, entry.dso ≠ 150) ∧
      ∀ c, ¬ (s'.call c).RunsHandle 0 150 := by
  obtain ⟨s, hrun, ⟨s', hstep⟩, hpublished⟩ : ∃ s, Run (Step fun _ => true) System.new reentrant_events s ∧
      (∃ s', Step (fun _ => true) s (.FinalizedImage 0 100 200) s') ∧
      (s.lifecycles 0).published = ∅ := by
    refine Run.exists_cons_and (.publish_image _ 0 100 200 true _ rfl) ?_
    refine Run.exists_cons_and (.register _ 0 (some 110) 7 150 true true _ _ _ rfl rfl) ?_
    refine Run.exists_cons_and (.register _ 0 (some 120) 7 0 true true _ _ _ rfl rfl) ?_
    refine Run.exists_cons_and (.finalize_image _ 0 0 100 200 _ _ rfl rfl) ?_
    refine Run.exists_cons_and (.pick _ 0 0 _ _ _ rfl rfl rfl) ?_
    refine Run.exists_cons_and (.register _ 0 (some 130) 8 160 true true _ _ _ rfl rfl) ?_
    refine Run.exists_cons_and (.register _ 0 (some 130) 8 100 true true _ _ _ rfl rfl) ?_
    refine Run.exists_cons_and (.complete _ 0 0 _ _ _ rfl rfl) ?_
    refine Run.exists_cons_and (.pick _ 0 0 _ _ _ rfl rfl rfl) ?_
    refine Run.exists_cons_and (.complete _ 0 0 _ _ _ rfl rfl) ?_
    refine Run.exists_cons_and (.pick _ 0 0 _ _ _ rfl rfl rfl) ?_
    refine Run.exists_cons_and (.complete _ 0 0 _ _ _ rfl rfl) ?_
    refine Run.exists_cons_and (.no_match _ 0 0 _ rfl rfl rfl) ?_
    refine Run.exists_cons_and (.retain_image _ 0 0 100 200 _ rfl rfl) ?_
    exact ⟨_, Run.nil _, ⟨_, .finalized_image _ 0 0 100 200 _ _ rfl rfl⟩, rfl⟩
  have hprotocol := (destructor_protocol hrun).2.2.2 0 100 200 s' hstep
    (fun dso _ _ => by rw [hpublished]; exact Finset.notMem_empty dso)
  obtain ⟨hpending, hruns, -⟩ := hprotocol.2 150 (by omega) (by omega) [] s' (Run.nil s')
    (List.not_mem_nil) (fun _ _ h => absurd h List.not_mem_nil)
  exact ⟨s, s', hrun, hstep, hpending, hruns⟩

end DarwinArt.Dso
