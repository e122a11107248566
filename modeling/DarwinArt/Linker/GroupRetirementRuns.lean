/-
Runs of a group of the linker: a retired group has no live open.

Four invariants, each from `Change`: the locks are where the phases say (`Locks`); the flag is set
by the one thread that is retiring the group, and for good once that is done (`Marks`); the counter
counts the references (`Counts`); and once a thread has set the flag and then found the counter at
zero, no lease is left and none can appear (`Settled`). The last one is the handshake. An open that
counted itself before the second look is seen there; one that counts itself later sees the flag.

What a run has shown so far is told by the stages of `Stage`: how often a callback has succeeded,
and which call returned 0.
-/
import DarwinArt.Linker.GroupRetirement

set_option autoImplicit false

namespace DarwinArt.Linker

open Lib

open State Phase Event

/-! ## The locks and the flag -/

/-- The locks are where the phases say. -/
def Locks (s : State) : Prop := ∀ t, (s.phase t).locked = true ↔ s.lock = some t

/-- The flag is set exactly by the one thread that is retiring the group, and then for good. -/
structure Marks (s : State) : Prop where
  flag : s.retired = true ↔ s.retired_id = true ∨ ∃ t, (s.phase t).marking = true
  once : ∀ t u, (s.phase t).marking = true → (s.phase u).marking = true → t = u
  uncommitted : ∀ t, (s.phase t).marking = true → s.retired_id = false
  unmarked : ∀ t, (s.phase t).unmarked = true → s.retired = false
  committed : ∀ t f, s.phase t = .Leaving f 0 → s.retired_id = true

@[simp] theorem State.goto_phase_self (s : State) (t : ℕ) (q : Phase) :
    (s.goto t q).phase t = q := by
  simp [goto]

@[simp] theorem State.goto_phase_of_ne (s : State) {t u : ℕ} (q : Phase) (h : u ≠ t) :
    (s.goto t q).phase u = s.phase u := by
  simp [goto, h]

/-- Only this thread may have moved. -/
def Apart (s s' : State) (t : ℕ) : Prop := ∀ u, u ≠ t → s'.phase u = s.phase u

section Control

variable {s s' : State} {t : ℕ} {event : Option Event}

theorem Change.apart (hc : Change s t event s') : Apart s s' t := by
  intro u hu
  cases hc <;> first | rfl | exact goto_phase_of_ne _ _ hu

theorem Apart.all (ha : Apart s s' t) {β : Type} (f : Phase → β)
    (ht : f (s'.phase t) = f (s.phase t)) (u : ℕ) : f (s'.phase u) = f (s.phase u) := by
  by_cases hu : u = t
  · rw [hu, ht]
  · rw [ha u hu]

section

variable (h : Locks s) (ha : Apart s s' t)
include h ha

theorem Locks.same (hlock : s'.lock = s.lock)
    (ht : (s'.phase t).locked = (s.phase t).locked) : Locks s' := by
  intro u
  rw [ha.all locked ht u, hlock]
  exact h u

/-- Nobody had the locks, so nobody else is in a phase that has them. -/
theorem Locks.taken (hfree : s.lock = none)
    (hlock : s'.lock = some t) (ht : (s'.phase t).locked = true) : Locks s' := by
  intro u
  by_cases hu : u = t
  · simp [hu, ht, hlock]
  · have hnot : ¬ (s.phase u).locked = true := by simp [h u, hfree]
    simp [ha u hu, hlock, hnot, Ne.symm hu]

theorem Locks.given (hheld : (s.phase t).locked = true)
    (hlock : s'.lock = none) (ht : (s'.phase t).locked = false) : Locks s' := by
  intro u
  by_cases hu : u = t
  · simp [hu, ht, hlock]
  · have hholder := (h t).mp hheld
    have hnot : ¬ (s.phase u).locked = true := by simp [h u, hholder, Ne.symm hu]
    simp [ha u hu, hlock, hnot]

end

theorem Locks.change (h : Locks s) (hc : Change s t event s') : Locks s' := by
  have ha := hc.apart
  cases hc with
  | outside | clone => exact h.same ha rfl rfl
  | advance _ _ hp hadv =>
    refine h.same ha rfl ?_
    rw [goto_phase_self, hp]
    cases hadv <;> rfl
  | overflow hp => exact h.same ha rfl (by simp [hp, locked])
  | count _ hp | acquire _ _ hp | uncount _ _ _ hp | mark _ hp | withdraw _ hp | restore hp
  | commit _ hp => exact h.same ha rfl (by rw [hp]; simp [goto, locked])
  | drop_shared p _ _ _ _ hp | drop_last p _ _ _ _ hp =>
    refine h.same ha rfl ?_
    rw [goto_phase_self, hp]
    cases p <;> simp_all [retiring, locked]
  | lock _ _ hfree | relock _ hfree =>
    exact h.taken ha hfree rfl (by simp [goto, locked])
  | unlock hp | leave _ _ hp =>
    exact h.given ha (by rw [hp]; rfl) rfl (by simp [goto, locked])
  | finalize success hp =>
    refine h.same ha rfl ?_
    rw [goto_phase_self, hp]
    cases success <;> rfl

section

variable (h : Marks s)
include h

/-- A step that leaves the flag and the retired ids alone, by a thread that keeps its part. -/
theorem Marks.same (ha : Apart s s' t) (hretired : s'.retired = s.retired)
    (hid : s'.retired_id = s.retired_id) (ht : (s'.phase t).marking = (s.phase t).marking)
    (hunmarked : (s'.phase t).unmarked = true → s.retired = false)
    (hzero : ∀ f, s'.phase t = .Leaving f 0 → s.retired_id = true) : Marks s' := by
  have hmarking := ha.all marking ht
  constructor
  · simp only [hretired, hid, hmarking]
    exact h.flag
  · intro u v hu hv
    rw [hmarking] at hu hv
    exact h.once u v hu hv
  · intro u hu
    rw [hmarking] at hu
    rw [hid]
    exact h.uncommitted u hu
  · intro u hu
    rw [hretired]
    by_cases hut : u = t
    · exact hunmarked (hut ▸ hu)
    · exact h.unmarked u (ha u hut ▸ hu)
  · intro u f hu
    rw [hid]
    by_cases hut : u = t
    · exact hzero f (hut ▸ hu)
    · exact h.committed u f (ha u hut ▸ hu)

theorem Marks.none_marking (hretired : s.retired = false) (u : ℕ) :
    (s.phase u).marking = false := by
  by_contra hu
  have := h.flag.mpr (.inr ⟨u, by simpa using hu⟩)
  simp [hretired] at this

theorem Marks.id_false (hretired : s.retired = false) : s.retired_id = false := by
  by_contra hid
  have := h.flag.mpr (.inl (by simpa using hid))
  simp [hretired] at this

/-- The store that sets the flag. The locks keep every other thread from having looked. -/
theorem Marks.mark (hl : Locks s) (ha : Apart s s' t)
    (hp : (s.phase t).unmarked = true) (hq : (s'.phase t).marking = true)
    (hq' : (s'.phase t).unmarked = false) (hq'' : ∀ f, s'.phase t ≠ .Leaving f 0)
    (hretired : s'.retired = true) (hid : s'.retired_id = s.retired_id) : Marks s' := by
  have hclear := h.unmarked t hp
  have hothers : ∀ u, (s'.phase u).marking = true → u = t := by
    intro u hu
    by_contra hut
    rw [ha u hut, h.none_marking hclear u] at hu
    cases hu
  have hlocked : ∀ {p : Phase}, p.unmarked = true → p.locked = true := by
    intro p hp
    cases p <;> simp_all [Phase.unmarked, Phase.locked]
  constructor
  · simp only [hretired, true_iff]
    exact .inr ⟨t, hq⟩
  · intro u v hu hv
    rw [hothers u hu, hothers v hv]
  · intro u _
    rw [hid]
    exact h.id_false hclear
  · intro u hu
    exfalso
    by_cases hut : u = t
    · rw [hut, hq'] at hu
      cases hu
    · rw [ha u hut] at hu
      have h1 := (hl t).mp (hlocked hp)
      have h2 := (hl u).mp (hlocked hu)
      rw [h1] at h2
      exact hut (Option.some.inj h2).symm
  · intro u f hu
    by_cases hut : u = t
    · exact absurd (hut ▸ hu) (hq'' f)
    · rw [hid]
      exact h.committed u f (ha u hut ▸ hu)

/-- The store that clears the flag, by the thread that had set it. -/
theorem Marks.unmark (ha : Apart s s' t) (hp : (s.phase t).marking = true)
    (hq : (s'.phase t).marking = false) (hq' : ∀ f, s'.phase t ≠ .Leaving f 0)
    (hretired : s'.retired = false) (hid : s'.retired_id = s.retired_id) : Marks s' := by
  have hnone : ∀ u, (s'.phase u).marking = false := by
    intro u
    by_cases hut : u = t
    · rw [hut, hq]
    · by_contra hu
      rw [ha u hut] at hu
      exact hut (h.once u t (by simpa using hu) hp)
  have hno : s'.retired_id = false := by rw [hid]; exact h.uncommitted t hp
  constructor
  · simp [hretired, hno, hnone]
  · intro u v hu
    simp [hnone] at hu
  · intro u _
    exact hno
  · intro u _
    exact hretired
  · intro u f hu
    by_cases hut : u = t
    · exact absurd (hut ▸ hu) (hq' f)
    · rw [hid]
      exact h.committed u f (ha u hut ▸ hu)

/-- The group's id is written down, and the flag stays set. -/
theorem Marks.commit (ha : Apart s s' t) (hp : (s.phase t).marking = true)
    (hq : (s'.phase t).marking = false) (hq' : (s'.phase t).unmarked = false)
    (hretired : s'.retired = s.retired) (hid : s'.retired_id = true) : Marks s' := by
  have hset : s.retired = true := h.flag.mpr (.inr ⟨t, hp⟩)
  have hnone : ∀ u, (s'.phase u).marking = false := by
    intro u
    by_cases hut : u = t
    · rw [hut, hq]
    · by_contra hu
      rw [ha u hut] at hu
      exact hut (h.once u t (by simpa using hu) hp)
  constructor
  · simp [hretired, hset, hid]
  · intro u v hu
    simp [hnone] at hu
  · intro u hu
    simp [hnone] at hu
  · intro u hu
    by_cases hut : u = t
    · rw [hut, hq'] at hu
      cases hu
    · have := h.unmarked u (ha u hut ▸ hu)
      simp [hset] at this
  · intro u f _
    exact hid

theorem Marks.change (hl : Locks s) (hc : Change s t event s') : Marks s' := by
  have ha := hc.apart
  cases hc with
  | outside | clone => exact h.same ha rfl rfl rfl (h.unmarked t) (h.committed t)
  | advance p _ hp hadv =>
    have hclear : p.unmarked = true → s.retired = false := fun hu => h.unmarked t (hp ▸ hu)
    refine h.same ha rfl rfl ?_ ?_ ?_ <;> rw [goto_phase_self]
    · rw [hp]
      cases hadv <;> rfl
    · intro hu
      cases hadv <;> first | assumption | exact hclear rfl | exact absurd hu (by simp [Phase.unmarked])
    · intro f hf
      cases hadv <;> simp_all
  | overflow hp =>
    exact h.same ha rfl rfl (by rw [hp]; simp [Phase.marking]) (by simp [Phase.unmarked]) (by simp)
  | count _ hp | acquire _ _ hp | uncount _ _ _ hp | lock _ hp | unlock hp | relock hp
  | leave _ _ hp =>
    exact h.same ha rfl rfl (by rw [hp]; simp [goto, marking])
      (by simp [State.goto, Phase.unmarked]) (by simp [State.goto])
  | drop_shared p _ _ _ _ hp | drop_last p _ _ _ _ hp =>
    refine h.same ha rfl rfl ?_ (by simp [Phase.unmarked]) (by simp)
    rw [goto_phase_self, hp]
    cases p <;> simp_all [retiring, marking]
  | mark _ hp =>
    exact h.mark hl ha (by rw [hp]; rfl) (by simp [goto, marking])
      (by simp [State.goto, Phase.unmarked]) (by simp [State.goto]) rfl rfl
  | withdraw _ hp | restore hp =>
    exact h.unmark ha (by rw [hp]; rfl) (by simp [goto, marking])
      (by simp [goto]) rfl rfl
  | finalize success hp =>
    refine h.same ha rfl rfl ?_ ?_ ?_ <;> rw [goto_phase_self]
    · rw [hp]
      cases success <;> rfl
    · cases success <;> simp [Phase.unmarked]
    · cases success <;> simp
  | commit _ hp =>
    exact h.commit ha (by rw [hp]; rfl) (by simp [goto, marking])
      (by simp [State.goto, Phase.unmarked]) rfl rfl

end

end Control

/-! ## The counter and the handles -/

/-- The counter counts the references, and each thread's handle is where its phase says. -/
structure Counts (s : State) : Prop where
  opens : s.opens = s.references.size
  fresh : ∀ r, s.references.contains r = true → r < s.next_reference
  held : ∀ t r, (s.phase t).handle = some r →
    ∃ holders, s.references[r]? = some holders ∧ .Thread t ∈ holders
  dropping : ∀ t r event, s.phase t = .Dropping r event →
    s.references[r]? = some ∅ ∧ Event.plain event = true ∧
      ∀ f code, event ≠ some (.Returned f code)
  dropped_once : ∀ t u r event event', s.phase t = .Dropping r event →
    s.phase u = .Dropping r event' → t = u

namespace Counts

variable {s s' : State} {t : ℕ} {event : Option Event}

section

variable (h : Counts s) (ha : Apart s s' t)
include h ha

/-- A step that leaves the references alone. -/
theorem same (hopens : s'.opens = s.opens)
    (hrefs : s'.references = s.references) (hnext : s'.next_reference = s.next_reference)
    (hhandle : ∀ r, (s'.phase t).handle = some r → (s.phase t).handle = some r)
    (hdrop : ∀ r event, s'.phase t = .Dropping r event → s.phase t = .Dropping r event) :
    Counts s' := by
  have hdropping : ∀ u r event, s'.phase u = .Dropping r event → s.phase u = .Dropping r event := by
    intro u r event hu
    rcases eq_or_ne u t with rfl | hut
    · exact hdrop r event hu
    · exact ha u hut ▸ hu
  constructor
  · rw [hopens, hrefs, h.opens]
  · intro r hr
    rw [hnext]
    exact h.fresh r (hrefs ▸ hr)
  · intro u r hu
    rw [hrefs]
    rcases eq_or_ne u t with rfl | hut
    · exact h.held u r (hhandle r hu)
    · exact h.held u r (ha u hut ▸ hu)
  · intro u r event hu
    rw [hrefs]
    exact h.dropping u r event (hdropping u r event hu)
  · intro u v r event event' hu hv
    exact h.dropped_once u v r event event' (hdropping u r event hu) (hdropping v r event' hv)

/-- A step that changes the handles of one reference that still has some. -/
theorem rewrite {r : ℕ} {holders holders' : Finset Holder}
    (hr : s.references[r]? = some holders) (hne : holders.Nonempty)
    (hopens : s'.opens = s.opens) (hrefs : s'.references = s.references.insert r holders')
    (hnext : s'.next_reference = s.next_reference)
    (hothers : ∀ u, u ≠ t → .Thread u ∈ holders → .Thread u ∈ holders')
    (hself : ∀ r', (s'.phase t).handle = some r' →
      (s.phase t).handle = some r' ∧ (.Thread t ∈ holders → .Thread t ∈ holders'))
    (hdrop : ∀ r' event, s'.phase t = .Dropping r' event → s.phase t = .Dropping r' event ∨
      r' = r ∧ holders' = ∅ ∧ Event.plain event = true ∧
        ∀ f code, event ≠ some (.Returned f code)) : Counts s' := by
  have hcontains := contains_of_some hr
  -- a reference being dropped has no handles, so it is not this one
  have hnot : ∀ u event, s.phase u ≠ .Dropping r event := by
    intro u event hu
    have hempty := (h.dropping u r event hu).1
    rw [hr, Option.some.injEq] at hempty
    exact hne.ne_empty hempty
  have hold : ∀ u r' event, s'.phase u = .Dropping r' event →
      s.phase u = .Dropping r' event ∨ u = t ∧ r' = r := by
    intro u r' event hu
    rcases eq_or_ne u t with rfl | hut
    · rcases hdrop r' event hu with hd | ⟨hr', -⟩
      · exact .inl hd
      · exact .inr ⟨rfl, hr'⟩
    · exact .inl (ha u hut ▸ hu)
  have hkeep : ∀ u r', (s.phase u).handle = some r' →
      (.Thread u ∈ holders → .Thread u ∈ holders') →
      ∃ hs, s'.references[r']? = some hs ∧ .Thread u ∈ hs := by
    intro u r' hu himp
    obtain ⟨hs, hhs, hmem⟩ := h.held u r' hu
    rw [hrefs]
    rcases eq_or_ne r' r with rfl | hrr
    · rw [hr, Option.some.injEq] at hhs
      exact ⟨holders', getElem?_insert_self, himp (hhs ▸ hmem)⟩
    · refine ⟨hs, ?_, hmem⟩
      rwa [getElem?_insert_ne (Ne.symm hrr)]
  constructor
  · rw [hopens, hrefs, Std.ExtTreeMap.size_insert, h.opens]
    simp [hcontains]
  · intro r' hr'
    rw [hrefs, contains_insert] at hr'
    rw [hnext]
    by_cases hrr : r' = r
    · exact hrr ▸ h.fresh r hcontains
    · exact h.fresh r' (by simpa [Ne.symm hrr] using hr')
  · intro u r' hu
    rcases eq_or_ne u t with rfl | hut
    · exact hkeep u r' (hself r' hu).1 (hself r' hu).2
    · exact hkeep u r' (ha u hut ▸ hu) (hothers u hut)
  · intro u r' event hu
    rcases eq_or_ne u t with rfl | hut
    · rcases hdrop r' event hu with hd | ⟨rfl, rfl, hplain, hret⟩
      · have hrr : r ≠ r' := fun heq => hnot u event (heq ▸ hd)
        refine ⟨?_, (h.dropping u r' event hd).2⟩
        rw [hrefs, getElem?_insert_ne hrr]
        exact (h.dropping u r' event hd).1
      · exact ⟨by rw [hrefs, getElem?_insert_self], hplain, hret⟩
    · have hd : s.phase u = .Dropping r' event := ha u hut ▸ hu
      have hrr : r ≠ r' := fun heq => hnot u event (heq ▸ hd)
      refine ⟨?_, (h.dropping u r' event hd).2⟩
      rw [hrefs, getElem?_insert_ne hrr]
      exact (h.dropping u r' event hd).1
  · intro u v r' event event' hu hv
    rcases hold u r' event hu with hu' | ⟨rfl, rfl⟩ <;>
      rcases hold v r' event' hv with hv' | ⟨hvt, hvr⟩
    · exact h.dropped_once u v r' event event' hu' hv'
    · exact absurd hu' (hvr ▸ hnot u event)
    · exact absurd hv' (hnot v event')
    · exact hvt.symm

/-- A new reference, held by the thread that counted it. -/
theorem count (hopens : s'.opens = s.opens + 1)
    (hrefs : s'.references = s.references.insert s.next_reference {.Thread t})
    (hnext : s'.next_reference = s.next_reference + 1)
    (ht : s'.phase t = .Counted s.next_reference) : Counts s' := by
  have hnew : s.references.contains s.next_reference = false := by
    by_contra hmem
    exact absurd (h.fresh _ (by simpa using hmem)) (lt_irrefl _)
  have hother : ∀ (r : ℕ) hs, s.references[r]? = some hs → s'.references[r]? = some hs := by
    intro r hs hr
    have hlt := h.fresh r (contains_of_some hr)
    rw [hrefs, getElem?_insert]
    simpa [show s.next_reference ≠ r by omega] using hr
  have hdropping : ∀ u r event, s'.phase u = .Dropping r event → s.phase u = .Dropping r event := by
    intro u r event hu
    by_cases hut : u = t
    · rw [hut, ht] at hu
      cases hu
    · exact ha u hut ▸ hu
  constructor
  · rw [hopens, hrefs, Std.ExtTreeMap.size_insert, h.opens]
    simp [hnew]
  · intro r hr
    rw [hrefs, contains_insert] at hr
    rw [hnext]
    by_cases hrr : r = s.next_reference
    · omega
    · have := h.fresh r (by simpa [Ne.symm hrr] using hr)
      omega
  · intro u r hu
    by_cases hut : u = t
    · rw [hut, ht] at hu
      obtain rfl : s.next_reference = r := by simpa [handle] using hu
      exact ⟨{.Thread t}, by rw [hrefs, getElem?_insert_self], by simp [hut]⟩
    · obtain ⟨hs, hhs, hmem⟩ := h.held u r (ha u hut ▸ hu)
      exact ⟨hs, hother r hs hhs, hmem⟩
  · intro u r event hu
    obtain ⟨hempty, hrest⟩ := h.dropping u r event (hdropping u r event hu)
    exact ⟨hother r ∅ hempty, hrest⟩
  · intro u v r event event' hu hv
    exact h.dropped_once u v r event event' (hdropping u r event hu) (hdropping v r event' hv)

/-- `fetch_sub`: the reference without handles goes, and it was counted. -/
theorem uncount {r : ℕ} (hp : s.phase t = .Dropping r event)
    (hopens : s.opens = s'.opens + 1) (hrefs : s'.references = s.references.erase r)
    (hnext : s'.next_reference = s.next_reference) (ht : s'.phase t = .Idle) : Counts s' := by
  have hempty := (h.dropping t r event hp).1
  have hother : ∀ (r' : ℕ) hs, r' ≠ r → s.references[r']? = some hs → s'.references[r']? = some hs := by
    intro r' hs hne hr'
    rw [hrefs, getElem?_erase]
    simpa [Ne.symm hne] using hr'
  have hdropping : ∀ u r' event', s'.phase u = .Dropping r' event' →
      s.phase u = .Dropping r' event' ∧ u ≠ t := by
    intro u r' event' hu
    by_cases hut : u = t
    · rw [hut, ht] at hu
      cases hu
    · exact ⟨ha u hut ▸ hu, hut⟩
  constructor
  · have hsize : s.references.size = s'.opens + 1 := by rw [← h.opens, hopens]
    rw [hrefs, Std.ExtTreeMap.size_erase]
    simp [contains_of_some hempty, hsize]
  · intro r' hr'
    rw [hrefs, Std.ExtTreeMap.contains_erase] at hr'
    rw [hnext]
    exact h.fresh r' (by simp at hr'; simpa using hr'.2)
  · intro u r' hu
    by_cases hut : u = t
    · rw [hut, ht] at hu
      exact absurd hu (by simp [handle])
    · obtain ⟨hs, hhs, hmem⟩ := h.held u r' (ha u hut ▸ hu)
      have hne : r' ≠ r := by
        rintro rfl
        rw [hempty, Option.some.injEq] at hhs
        simp [← hhs] at hmem
      exact ⟨hs, hother r' hs hne hhs, hmem⟩
  · intro u r' event' hu
    obtain ⟨hu, hut⟩ := hdropping u r' event' hu
    obtain ⟨hnone, hrest⟩ := h.dropping u r' event' hu
    have hne : r' ≠ r := by
      rintro rfl
      exact hut (h.dropped_once u t r' event' event hu hp)
    exact ⟨hother r' ∅ hne hnone, hrest⟩
  · intro u v r' event₁ event₂ hu hv
    exact h.dropped_once u v r' event₁ event₂ (hdropping u r' event₁ hu).1
      (hdropping v r' event₂ hv).1

end

/-- The handle that is dropped was there. -/
theorem handle_mem (h : Counts s) {r : ℕ} {holder : Holder} {holders : Finset Holder}
    (hr : s.references[r]? = some holders)
    (hmem : holder ∈ holders ∨ s.phase t = .Rejected r ∧ holder = .Thread t) :
    holder ∈ holders := by
  rcases hmem with hmem | ⟨hp, rfl⟩
  · exact hmem
  · obtain ⟨_, hhs, hin⟩ := h.held t r (by rw [hp]; rfl)
    rw [hr, Option.some.injEq] at hhs
    exact hhs ▸ hin

theorem change (h : Counts s) (hc : Change s t event s') : Counts s' := by
  have ha := hc.apart
  cases hc with
  | outside => exact h.same ha rfl rfl rfl (fun _ hr => hr) (fun _ _ hd => hd)
  | advance _ _ hp hadv =>
    refine h.same ha rfl rfl rfl ?_ ?_ <;> rw [goto_phase_self, hp]
    · intro r hr
      cases hadv <;> exact hr
    · intro r event hd
      cases hadv <;> cases hd
  | count _ _ hopens =>
    exact h.count ha hopens rfl rfl (by simp [goto])
  | acquire r _ hp hr =>
    obtain ⟨_, hhs, hmem⟩ := h.held t r (by rw [hp]; rfl)
    rw [hr, Option.some.injEq] at hhs
    refine h.rewrite ha hr ⟨_, hhs ▸ hmem⟩ rfl rfl rfl ?_ ?_ ?_
    · intro u hu hin
      simp [hu, hin]
    · simp [goto, handle]
    · simp [goto]
  | clone _ _ _ hr hmem =>
    refine h.rewrite ha hr ⟨_, hmem⟩ rfl rfl rfl ?_ ?_ ?_
    · intro u _ hin
      simp [hin]
    · intro r' hr'
      exact ⟨hr', fun hin => by simp [hin]⟩
    · intro r' event hd
      exact .inl hd
  | drop_shared _ _ _ _ _ _ _ hr hother hmem =>
    refine h.rewrite ha hr ⟨_, h.handle_mem hr hmem⟩ rfl rfl rfl ?_ ?_ ?_
    · intro u hu hin
      simp [hin, (hother u hu).symm]
    · simp [handle]
    · simp
  | drop_last _ _ _ _ _ _ _ hr hother hmem hrest hplain hret =>
    refine h.rewrite ha hr ⟨_, h.handle_mem hr hmem⟩ rfl rfl rfl ?_ ?_ ?_
    · intro u hu hin
      simp [hin, (hother u hu).symm]
    · simp [handle]
    · intro r' event' hd
      simp only [goto_phase_self, Phase.Dropping.injEq] at hd
      obtain ⟨rfl, rfl⟩ := hd
      exact .inr ⟨rfl, hrest, hplain, hret⟩
  | uncount _ _ _ hp hopens =>
    exact h.uncount ha hp hopens rfl rfl (by simp [goto])
  | finalize success =>
    refine h.same ha rfl rfl rfl ?_ ?_ <;> rw [goto_phase_self] <;>
      cases success <;> simp [handle]
  | overflow => exact h.same ha rfl rfl rfl (by simp [handle]) (by simp)
  | _ => exact h.same ha rfl rfl rfl (by simp [goto, handle]) (by simp [goto])

end Counts

/-! ## No lease survives -/

/-- No lease holds a reference, and no thread is about to make one. -/
structure Quiet (s : State) : Prop where
  leases : ∀ (r : ℕ) holders lease, s.references[r]? = some holders →
    Holder.Lease lease ∉ holders
  threads : ∀ t r, s.phase t ≠ .Admitted r

/-- From the second look at the counter on, the group is quiet. -/
def Settled (s : State) : Prop :=
  (s.retired_id = true ∨ ∃ t, (s.phase t).settled = true) → Quiet s

theorem Counts.quiet {s : State} (h : Counts s) (hopens : s.opens = 0) : Quiet s := by
  have hnone : ∀ r : ℕ, s.references[r]? = none := by
    have hempty : s.references = ∅ := by
      rw [Std.ExtTreeMap.eq_empty_iff_size_eq_zero, ← h.opens, hopens]
    simp [hempty]
  constructor
  · intro r holders lease hr
    simp [hnone r] at hr
  · intro t r hp
    obtain ⟨_, hhs, -⟩ := h.held t r (by rw [hp]; rfl)
    simp [hnone r] at hhs

section Settle

variable {s s' : State} {t : ℕ} {event : Option Event}

/-- While the flag is set, a quiet group stays quiet. -/
theorem Quiet.change (h : Quiet s) (hset : s.retired = true) (hc : Change s t event s') :
    Quiet s' := by
  have ha := hc.apart
  -- most steps leave the references alone and admit nobody
  have hsame : s'.references = s.references → (∀ r, s'.phase t ≠ .Admitted r) → Quiet s' := by
    intro hrefs hadm
    refine ⟨fun r holders lease hr => h.leases r holders lease (hrefs ▸ hr), fun u r hu => ?_⟩
    rcases eq_or_ne u t with rfl | hut
    · exact hadm r hu
    · exact h.threads u r (ha u hut ▸ hu)
  have hwrite : ∀ r holders', s'.references = s.references.insert r holders' →
      (∀ lease, Holder.Lease lease ∉ holders') → (∀ r, s'.phase t ≠ .Admitted r) → Quiet s' := by
    intro r holders' hrefs hno hadm
    refine ⟨fun r' holders lease hr => ?_, fun u r' hu => ?_⟩
    · rw [hrefs] at hr
      rcases getElem?_insert_cases hr with ⟨-, rfl⟩ | ⟨-, hr⟩
      · exact hno lease
      · exact h.leases r' holders lease hr
    · rcases eq_or_ne u t with rfl | hut
      · exact hadm r' hu
      · exact h.threads u r' (ha u hut ▸ hu)
  cases hc with
  | outside => exact hsame rfl (h.threads t)
  | advance _ _ _ hadv =>
    refine hsame rfl ?_
    rw [goto_phase_self]
    intro r hq
    cases hadv <;> simp_all
  | count => exact hwrite _ _ rfl (by simp) (by simp [goto])
  | acquire r _ hp => exact absurd hp (h.threads t r)
  | clone r lease holders hr hmem => exact absurd hmem (h.leases r holders lease hr)
  | drop_shared _ r _ holders _ _ _ hr | drop_last _ r _ holders _ _ _ hr =>
    refine hwrite _ _ rfl ?_ (by simp)
    intro lease hin
    exact h.leases r holders lease hr (Finset.mem_of_mem_erase hin)
  | uncount =>
    refine ⟨fun r' holders lease hr => ?_, fun u r' hu => ?_⟩
    · exact h.leases r' holders lease (getElem?_erase_cases hr).2
    · by_cases hut : u = t
      · simp [hut, goto] at hu
      · exact h.threads u r' (ha u hut ▸ hu)
  | finalize success =>
    refine hsame rfl ?_
    rw [goto_phase_self]
    cases success <;> simp
  | overflow => exact hsame rfl (by simp)
  | _ => exact hsame rfl (by simp [goto])

/-- A thread settles only by finding the counter at zero, and a group is committed only by a thread
that had settled. -/
theorem Change.settled (hc : Change s t event s')
    (h : s'.retired_id = true ∨ ∃ u, (s'.phase u).settled = true) :
    (s.retired_id = true ∨ ∃ u, (s.phase u).settled = true) ∨
      s.opens = 0 ∧ s'.references = s.references ∧ ∀ u r, s'.phase u = .Admitted r →
        s.phase u = .Admitted r := by
  have ha := hc.apart
  have hsame : s'.retired_id = s.retired_id →
      ((s'.phase t).settled = true → (s.phase t).settled = true) →
      (s.retired_id = true ∨ ∃ u, (s.phase u).settled = true) := by
    intro hid ht
    rcases h with h | ⟨u, hu⟩
    · exact .inl (hid ▸ h)
    · rcases eq_or_ne u t with rfl | hut
      · exact .inr ⟨u, ht hu⟩
      · exact .inr ⟨u, ha u hut ▸ hu⟩
  cases hc with
  | outside | clone => exact .inl (hsame rfl id)
  | advance _ _ hp hadv =>
    cases hadv with
    | empty _ hopens =>
      refine .inr ⟨hopens, rfl, fun u r hu => ?_⟩
      by_cases hut : u = t
      · simp [hut] at hu
      · exact ha u hut ▸ hu
    | _ => exact .inl (hsame rfl (by rw [goto_phase_self, hp]; simp [settled]))
  | commit _ hp => exact .inl (.inr ⟨t, by rw [hp]; rfl⟩)
  | finalize _ hp | relock hp | unlock hp => exact .inl (hsame rfl fun _ => by rw [hp]; rfl)
  | overflow | drop_shared | drop_last => exact .inl (hsame rfl (by simp [settled]))
  | _ => exact .inl (hsame rfl (by simp [goto, settled]))

theorem Settled.change (h : Settled s) (hm : Marks s) (hn : Counts s)
    (hc : Change s t event s') : Settled s' := by
  intro hs'
  rcases hc.settled hs' with hs | ⟨hopens, hrefs, hadm⟩
  · have hset : s.retired = true := by
      rcases hs with hid | ⟨u, hu⟩
      · exact hm.flag.mpr (.inl hid)
      · exact hm.flag.mpr (.inr ⟨u, marking_of_settled hu⟩)
    exact (h hs).change hset hc
  · have hquiet := hn.quiet hopens
    exact ⟨fun r holders lease hr => hquiet.leases r holders lease (hrefs ▸ hr),
      fun u r hu => hquiet.threads u r (hadm u r hu)⟩

end Settle

/-- What holds in every state of a run. -/
structure Inv (s : State) : Prop where
  locks : Locks s
  marks : Marks s
  counts : Counts s
  settled : Settled s

theorem Inv.step {s s' : State} {l : Label} (h : Inv s) (hs : Step s l s') : Inv s' :=
  ⟨h.locks.change hs.change, h.marks.change h.locks hs.change, h.counts.change hs.change,
    h.settled.change h.marks h.counts hs.change⟩

theorem Inv.new (incoming : ℕ) (flags : Bool × Bool) (resident : Bool) :
    Inv (State.new incoming flags resident) := by
  refine ⟨?_, ?_, ?_, ?_⟩
  · intro t
    simp [State.new, Phase.locked]
  · constructor <;> simp [State.new, Phase.marking, Phase.unmarked]
  · constructor <;> simp [State.new, Phase.handle]
  · simp [Settled, State.new, Phase.settled]

/-! ## What a run has shown -/

/-- The threads whose callbacks have succeeded. -/
def finalizations (es : List Label) : List ℕ :=
  es.filterMap fun l => if l.event = some (.Finalize true) then some l.thread else none

/-- The calls of `retire_group` that have returned 0: whose, and whether with a callback. -/
def detached (es : List Label) : List (ℕ × Bool) :=
  es.filterMap fun l =>
    match l.event with
    | some (.Returned finalize code) => if code = 0 then some (l.thread, finalize) else none
    | _ => none

namespace Phase

/-- The callback has succeeded and the group is not yet written down as retired. -/
def finalized : Phase → Bool
  | .Finalized | .Committing true => true
  | _ => false

/-- On the way out with 0. -/
def succeeded : Phase → Option Bool
  | .Leaving finalize code => if code = 0 then some finalize else none
  | _ => none

theorem marking_of_finalized {p : Phase} (h : p.finalized = true) : p.marking = true := by
  cases p <;> simp_all [finalized, marking]

theorem succeeded_eq_some {p : Phase} {f : Bool} :
    p.succeeded = some f ↔ p = .Leaving f 0 := by
  cases p <;> simp [succeeded]
  tauto

end Phase

/-- How far the group's retirement has come, as the labels and the state tell it. -/
inductive Stage (es : List Label) (s : State) : Prop
  | unretired : s.retired_id = false → detached es = [] → finalizations es = [] →
      (∀ t, (s.phase t).finalized = false) → Stage es s
  | finalized (t : ℕ) : s.retired_id = false → detached es = [] → finalizations es = [t] →
      (s.phase t).finalized = true → Stage es s
  | committed (t : ℕ) (f : Bool) : s.retired_id = true → detached es = [] →
      finalizations es = (if f then [t] else []) → (s.phase t).succeeded = some f →
      (∀ u f', (s.phase u).succeeded = some f' → u = t) → Stage es s
  | done (t : ℕ) (f : Bool) : s.retired_id = true → detached es = [(t, f)] →
      finalizations es = (if f then [t] else []) → (∀ u, (s.phase u).succeeded = none) → Stage es s

/-- Neither a successful callback nor a return of 0. -/
def Event.minor (event : Option Event) : Prop :=
  event ≠ some (.Finalize true) ∧ ∀ f, event ≠ some (.Returned f 0)

theorem Event.minor_of_plain {event : Option Event} (h : Event.plain event = true) :
    Event.minor event := by
  constructor
  · rintro rfl
    simp [plain] at h
  · rintro f rfl
    simp [plain] at h

section History

variable {s s' : State} {es : List Label} {l : Label}

theorem finalizations_minor (h : Event.minor l.event) : finalizations (es ++ [l]) = finalizations es := by
  simp [finalizations, h.1]

theorem detached_minor (h : Event.minor l.event) : detached (es ++ [l]) = detached es := by
  obtain ⟨t, action, event⟩ := l
  have hnone : detached [⟨t, action, event⟩] = [] := by
    cases event with
    | none => rfl
    | some event =>
      cases event with
      | Returned f code =>
        have hcode : code ≠ 0 := fun hzero => h.2 f (by rw [hzero])
        simp [detached, hcode]
      | _ => rfl
  unfold detached at hnone ⊢
  rw [List.filterMap_append, hnone, List.append_nil]

section

variable (h : Stage es s)
include h

/-- A step that shows nothing of note, by a thread whose part in the outcome stays. -/
theorem Stage.same (ha : Apart s s' l.thread) (hminor : Event.minor l.event)
    (hid : s'.retired_id = s.retired_id)
    (hfin : (s'.phase l.thread).finalized = (s.phase l.thread).finalized)
    (hsucc : (s'.phase l.thread).succeeded = (s.phase l.thread).succeeded) :
    Stage (es ++ [l]) s' := by
  have hfinalized := ha.all Phase.finalized hfin
  have hsucceeded := ha.all succeeded hsucc
  cases h with
  | unretired hno hdet hnone hphase =>
    exact .unretired (hid.trans hno) ((detached_minor hminor).trans hdet)
      ((finalizations_minor hminor).trans hnone) fun t => (hfinalized t).trans (hphase t)
  | finalized t hno hdet hone hphase =>
    exact .finalized t (hid.trans hno) ((detached_minor hminor).trans hdet)
      ((finalizations_minor hminor).trans hone) ((hfinalized t).trans hphase)
  | committed t f hyes hdet hfs hphase honly =>
    exact .committed t f (hid.trans hyes) ((detached_minor hminor).trans hdet)
      ((finalizations_minor hminor).trans hfs) ((hsucceeded t).trans hphase)
      fun u f' hu => honly u f' ((hsucceeded u).symm.trans hu)
  | done t f hyes hdet hfs hphase =>
    exact .done t f (hid.trans hyes) ((detached_minor hminor).trans hdet)
      ((finalizations_minor hminor).trans hfs) fun u => (hsucceeded u).trans (hphase u)

/-- A callback succeeds: it is the first to, because its thread is the one that marks. -/
theorem Stage.finalize (hm : Marks s) (hp : s.phase l.thread = .Finalizing)
    (hevent : l.event = some (.Finalize true)) :
    Stage (es ++ [l]) (s.goto l.thread .Finalized) := by
  have hmarking : (s.phase l.thread).marking = true := by rw [hp]; rfl
  have hno := hm.uncommitted _ hmarking
  have hdetached : detached (es ++ [l]) = detached es := by simp [detached, hevent]
  have hfinalized : finalizations (es ++ [l]) = finalizations es ++ [l.thread] := by
    simp [finalizations, hevent]
  cases h with
  | unretired _ hdet hnone =>
    refine .finalized l.thread hno (hdetached.trans hdet) (by rw [hfinalized, hnone]; rfl) ?_
    rw [goto_phase_self]
    rfl
  | finalized t _ _ _ hphase =>
    have heq := hm.once t l.thread (marking_of_finalized hphase) hmarking
    rw [heq, hp] at hphase
    exact absurd hphase (by simp [Phase.finalized])
  | committed _ _ hyes => simp [hno] at hyes
  | done _ _ hyes => simp [hno] at hyes

/-- The group is written down as retired: with a callback exactly if that has succeeded. -/
theorem Stage.commit (hm : Marks s) {f : Bool}
    (hp : s.phase l.thread = .Committing f) (hevent : l.event = none) (ha : Apart s s' l.thread)
    (ht : s'.phase l.thread = .Leaving f 0) (hid : s'.retired_id = true) :
    Stage (es ++ [l]) s' := by
  have hmarking : (s.phase l.thread).marking = true := by rw [hp]; rfl
  have hno := hm.uncommitted _ hmarking
  have hminor : Event.minor l.event := by simp [Event.minor, hevent]
  have honly : ∀ u f', (s'.phase u).succeeded = some f' → u = l.thread := by
    intro u f' hu
    by_contra hut
    rw [ha u hut, Phase.succeeded_eq_some] at hu
    simp [hm.committed u f' hu] at hno
  have hsucc : (s'.phase l.thread).succeeded = some f := by rw [ht]; rfl
  cases h with
  | unretired _ hdet hnone hphase =>
    have hf : f = false := by
      have := hphase l.thread
      rw [hp] at this
      cases f <;> simp_all [Phase.finalized]
    refine .committed l.thread f hid ((detached_minor hminor).trans hdet) ?_ hsucc honly
    rw [finalizations_minor hminor, hnone, hf]
    rfl
  | finalized t _ hdet hone hphase =>
    have heq := hm.once t l.thread (Phase.marking_of_finalized hphase) hmarking
    have hf : f = true := by
      rw [heq, hp] at hphase
      cases f <;> simp_all [Phase.finalized]
    refine .committed l.thread f hid ((detached_minor hminor).trans hdet) ?_ hsucc honly
    rw [finalizations_minor hminor, hone, hf, heq]
    rfl
  | committed _ _ hyes => simp [hno] at hyes
  | done _ _ hyes => simp [hno] at hyes

/-- The call that committed returns 0. -/
theorem Stage.leave (hm : Marks s) {f : Bool}
    (hp : s.phase l.thread = .Leaving f 0) (hevent : l.event = some (.Returned f 0))
    (ha : Apart s s' l.thread) (ht : s'.phase l.thread = .Idle)
    (hid : s'.retired_id = s.retired_id) : Stage (es ++ [l]) s' := by
  have hyes := hm.committed _ _ hp
  have hdetached : detached (es ++ [l]) = detached es ++ [(l.thread, f)] := by
    simp [detached, hevent]
  have hfinalized : finalizations (es ++ [l]) = finalizations es := by
    simp [finalizations, hevent]
  have hsucc : (s.phase l.thread).succeeded = some f := by rw [hp]; rfl
  cases h with
  | unretired hno => simp [hno] at hyes
  | finalized _ hno => simp [hno] at hyes
  | committed _ f' _ hdet hfs hphase honly =>
    obtain rfl := honly l.thread f hsucc
    obtain rfl : f = f' := Option.some.inj (hsucc.symm.trans hphase)
    refine .done l.thread f (hid.trans hyes) (by rw [hdetached, hdet]; rfl)
      (hfinalized.trans hfs) fun u => ?_
    by_cases hut : u = l.thread
    · rw [hut, ht]
      rfl
    · rw [ha u hut, Option.eq_none_iff_forall_ne_some]
      exact fun f' hu => hut (honly u f' hu)
  | done _ _ _ _ _ hphase =>
    rw [hphase l.thread] at hsucc
    cases hsucc

theorem Stage.step (hi : Inv s) (hs : Step s l s') : Stage (es ++ [l]) s' := by
  have hc := hs.change
  have ha := hc.apart
  generalize hev : l.event = event at hc
  cases hc with
  | outside _ _ _ hplain =>
    exact h.same ha (hev ▸ Event.minor_of_plain hplain) rfl rfl rfl
  | advance _ _ hp hadv =>
    refine h.same ha (hev ▸ Event.minor_of_plain rfl) rfl ?_ ?_ <;>
      rw [State.goto_phase_self, hp]
    · cases hadv <;> rfl
    · cases hadv <;> simp_all [Phase.succeeded]
  | overflow hp =>
    exact h.same ha (hev ▸ Event.minor_of_plain rfl) rfl (by simp [hp, Phase.finalized])
      (by simp [hp, Phase.succeeded])
  | clone => exact h.same ha (hev ▸ Event.minor_of_plain rfl) rfl rfl rfl
  | acquire _ _ hp | restore hp =>
    refine h.same ha ?_ rfl ?_ ?_
    · simp [hev, Event.minor]
    · simp [State.goto, hp, Phase.finalized]
    · simp [State.goto, hp, Phase.succeeded]
  | drop_shared p _ _ _ _ hp _ _ _ _ _ hplain =>
    refine h.same ha (hev ▸ Event.minor_of_plain hplain) rfl ?_ ?_ <;>
      rw [State.goto_phase_self, hp] <;>
      cases p <;> simp_all [Phase.retiring, Phase.finalized, Phase.succeeded]
  | drop_last p _ _ _ _ hp =>
    refine h.same ha (hev ▸ Event.minor_of_plain rfl) rfl ?_ ?_ <;>
      rw [State.goto_phase_self, hp] <;>
      cases p <;> simp_all [Phase.retiring, Phase.finalized, Phase.succeeded]
  | uncount _ _ _ hp =>
    refine h.same ha (hev ▸ Event.minor_of_plain (hi.counts.dropping _ _ _ hp).2.1) rfl ?_ ?_
    · simp [State.goto, hp, Phase.finalized]
    · simp [State.goto, hp, Phase.succeeded]
  | finalize success hp =>
    cases success with
    | true => exact h.finalize hi.marks hp hev
    | false =>
      refine h.same ha ?_ rfl ?_ ?_
      · simp [hev, Event.minor]
      · simp [hp, Phase.finalized]
      · simp [hp, Phase.succeeded]
  | commit _ hp => exact h.commit hi.marks hp hev ha (by simp [State.goto]) rfl
  | leave _ code hp =>
    rcases eq_or_ne code 0 with rfl | hcode
    · exact h.leave hi.marks hp hev ha (by simp [State.goto]) rfl
    · refine h.same ha ?_ rfl ?_ ?_
      · simp [hev, Event.minor, hcode]
      · simp [State.goto, hp, Phase.finalized]
      · simp [State.goto, hp, Phase.succeeded, hcode]
  | count _ hp | lock _ hp | mark _ hp | withdraw _ hp | unlock hp | relock hp =>
    exact h.same ha (hev ▸ Event.minor_of_plain rfl) rfl (by simp [State.goto, hp, Phase.finalized])
      (by simp [State.goto, hp, Phase.succeeded])

end

/-- A thread whose `retire_group` has just returned is outside every call. -/
theorem Change.returned_idle {t : ℕ} {f : Bool} {code : ℤ} (hn : Counts s)
    (hc : Change s t (some (.Returned f code)) s') : s'.phase t = .Idle := by
  cases hc with
  | outside _ _ _ _ hidle => exact hidle f code rfl
  | drop_shared _ _ _ _ _ _ _ _ _ _ _ _ hret =>
    exact absurd rfl (hret f code)
  | uncount _ _ _ hp => exact absurd rfl ((hn.dropping _ _ _ hp).2.2 f code)
  | restore => simp [goto]
  | leave => simp [goto]

end History

/-! ## Every run -/

/-- The group can be opened: a thread that calls `acquire_open` now, and is not disturbed, gets a
lease, unless the counter is full. -/
def State.Acquirable (s : State) : Prop :=
  ∀ t, s.phase t = .Idle → s.opens + 1 < 2 ^ 64 →
    ∃ es s' lease, Run Step s (es ++ [⟨t, .proceed, some (.Acquired lease)⟩]) s' ∧
      ∀ l ∈ es, l.thread = t

theorem State.acquirable {s : State} (h : s.retired = false) : s.Acquirable := by
  intro t hidle hroom
  have hadd : checked_add 64 s.opens 1 = some (s.opens + 1) := checked_add_eq_some.mpr ⟨hroom, rfl⟩
  -- first look, count, second look, lease
  let s₁ := s.goto t .Checked
  let s₂ : State := { (s₁.hold s.next_reference {.Thread t}).goto t (.Counted s.next_reference) with
    opens := s.opens + 1
    next_reference := s.next_reference + 1 }
  let s₃ := s₂.goto t (.Admitted s.next_reference)
  have h₁ : Step s ⟨t, .acquire_open ⟨true, true⟩, none⟩ s₁ :=
    ⟨hidle, by simp [begin_call, h, s₁]⟩
  have h₂ : Step s₁ ⟨t, .proceed, none⟩ s₂ := by
    refine .inl ?_
    have hp : s₁.phase t = .Checked := goto_phase_self ..
    have hopens : checked_add 64 s₁.opens 1 = some (s.opens + 1) := hadd
    simp only [hp, step_open, hopens]
    rfl
  have h₃ : Step s₂ ⟨t, .proceed, none⟩ s₃ := by
    refine .inl ?_
    have hp : s₂.phase t = .Counted s.next_reference := goto_phase_self ..
    have hclear : s₂.retired = false := h
    simp [hp, step_open, hclear, s₃]
  have hp₃ : s₃.phase t = .Admitted s.next_reference := goto_phase_self ..
  have href : s₃.references[s.next_reference]? = some {.Thread t} :=
    getElem?_insert_self
  let s₄ : State :=
    { (s₃.hold s.next_reference (insert (.Lease s₃.next_lease)
        (({.Thread t} : Finset Holder).erase (.Thread t)))).goto t .Idle
      with next_lease := s₃.next_lease + 1 }
  have h₄ : Step s₃ ⟨t, .proceed, some (.Acquired s₃.next_lease)⟩ s₄ := by
    refine .inl ?_
    simp only [hp₃, step_open, href]
    rfl
  refine ⟨[⟨t, .acquire_open ⟨true, true⟩, none⟩, ⟨t, .proceed, none⟩, ⟨t, .proceed, none⟩], s₄,
    s₃.next_lease, ?_, by simp⟩
  exact .snoc (.snoc (.snoc (.single h₁) h₂) h₃) h₄

section Runs

variable {incoming : ℕ} {flags : Bool × Bool} {resident : Bool} {s : State} {es : List Label}

theorem run_inv (hrun : Run Step (State.new incoming flags resident) es s) : Inv s :=
  hrun.invariant Inv (Inv.new incoming flags resident) fun _ _ _ hi hs => hi.step hs

theorem run_stage (hrun : Run Step (State.new incoming flags resident) es s) : Stage es s := by
  refine hrun.history Stage ?_ fun _ t l u hpre hst hs => hst.step (run_inv hpre) hs
  exact .unretired rfl rfl rfl fun _ => rfl

theorem Stage.of_returned {l : Label} {f : Bool} (h : Stage es s) (hmem : l ∈ es)
    (hevent : l.event = some (.Returned f 0)) :
    s.retired_id = true ∧ detached es = [(l.thread, f)] ∧
      finalizations es = if f then [l.thread] else [] := by
  have hin : (l.thread, f) ∈ detached es := by
    refine List.mem_filterMap.mpr ⟨l, hmem, ?_⟩
    simp [hevent]
  cases h with
  | unretired _ hdet => simp [hdet] at hin
  | finalized _ _ hdet => simp [hdet] at hin
  | committed _ _ _ hdet => simp [hdet] at hin
  | done _ _ hyes hdet hfs =>
    rw [hdet, List.mem_singleton, Prod.mk.injEq] at hin
    obtain ⟨rfl, rfl⟩ := hin
    exact ⟨hyes, hdet, hfs⟩

/-- **A retired group has no live open**, in every interleaving. Once a `retire_group` has returned
0 no lease is outstanding and no `acquire_open` succeeds; at most one returns 0, and the callback of
that one has succeeded exactly once; and one that has just returned anything else leaves the group
to be opened, unless another has succeeded or is under way. -/
theorem retired_group_has_no_open (hrun : Run Step (State.new incoming flags resident) es s) :
    (∀ es₁ l es₂ f, es = es₁ ++ l :: es₂ → l.event = some (.Returned f 0) →
      (∀ (r : ℕ) holders lease, s.references[r]? = some holders → Holder.Lease lease ∉ holders) ∧
      (∀ l' ∈ es₂, ∀ lease, l'.event ≠ some (.Acquired lease)) ∧
      finalizations es = if f then [l.thread] else []) ∧
    (detached es).length ≤ 1 ∧
    (∀ es₁ l f code, es = es₁ ++ [l] → l.event = some (.Returned f code) → code ≠ 0 →
      (s.retired = false ∧ s.Acquirable) ∨ detached es ≠ [] ∨
        ∃ u, u ≠ l.thread ∧ (s.phase u).retiring = true) := by
  have hinv := run_inv hrun
  have hstage := run_stage hrun
  refine ⟨?_, ?_, ?_⟩
  · rintro es₁ l _ f rfl hevent
    obtain ⟨hyes, -, hfs⟩ := hstage.of_returned (by simp) hevent
    refine ⟨(hinv.settled (.inl hyes)).leases, ?_, hfs⟩
    intro l' hl' lease hacq
    -- the state just before the lease would be made
    obtain ⟨a, b, rfl⟩ := List.append_of_mem hl'
    have hsplit : es₁ ++ l :: (a ++ l' :: b) = (es₁ ++ l :: a) ++ l' :: b := by simp
    rw [hsplit] at hrun
    obtain ⟨v, _, hpre, hstep⟩ := hrun.at_label
    obtain ⟨hyes', -, -⟩ := (run_stage hpre).of_returned (by simp) hevent
    have hquiet := (run_inv hpre).settled (.inl hyes')
    have hc := hstep.change
    rw [hacq] at hc
    generalize hev : some (Event.Acquired lease) = event at hc
    cases hc with
    | acquire r _ hp => exact hquiet.threads _ r hp
    | outside _ _ _ hplain => simp [← hev, plain] at hplain
    | drop_shared _ _ _ _ _ _ _ _ _ _ _ hplain => simp [← hev, plain] at hplain
    | uncount _ _ _ hp =>
      have hplain := ((run_inv hpre).counts.dropping _ _ _ hp).2.1
      simp [← hev, plain] at hplain
    | _ => simp at hev
  · cases hstage with
    | unretired _ hdet => simp [hdet]
    | finalized _ _ hdet => simp [hdet]
    | committed _ _ _ hdet => simp [hdet]
    | done _ _ _ hdet => simp [hdet]
  · rintro es₁ l f code rfl hevent _
    obtain ⟨v, hpre, hstep⟩ := hrun.last
    have hidle : s.phase l.thread = .Idle :=
      (hevent ▸ hstep.change : Change v l.thread (some (.Returned f code)) s).returned_idle
        (run_inv hpre).counts
    have hother : ∀ u, (s.phase u).retiring = true → u ≠ l.thread := by
      rintro u hu rfl
      rw [hidle] at hu
      exact absurd hu (by simp [retiring])
    by_cases hset : s.retired = true
    · refine .inr ?_
      rcases hinv.marks.flag.mp hset with hyes | ⟨u, hu⟩
      · cases hstage with
        | unretired hno => simp [hno] at hyes
        | finalized _ hno => simp [hno] at hyes
        | committed t _ _ _ _ hphase =>
          have hret : (s.phase t).retiring = true := by
            rw [succeeded_eq_some.mp hphase]
            rfl
          exact .inr ⟨t, hother t hret, hret⟩
        | done _ _ _ hdet => exact .inl (by simp [hdet])
      · have hret := retiring_of_marking hu
        exact .inr ⟨u, hother u hret, hret⟩
    · have hclear : s.retired = false := by simpa using hset
      exact .inl ⟨hclear, acquirable hclear⟩

/-- Such a run: a thread opens a group and closes it again, and another one retires it, with a
callback that succeeds. -/
theorem retired_group_run :
    ∃ es s, Run Step (State.new 0 (false, false) true) es s ∧ es.filterMap Label.event =
        [.Acquired 0, .Consumed 0, .Finalize true, .Returned true 0] ∧
      detached es = [(0, true)] ∧ finalizations es = [0] ∧
      ∀ (r : ℕ) holders lease, s.references[r]? = some holders → Holder.Lease lease ∉ holders := by
  let acquire : Label := ⟨1, .acquire_open ⟨true, true⟩, none⟩
  let next : ℕ → Label := fun t => ⟨t, .proceed, none⟩
  let show_event : ℕ → Event → Label := fun t event => ⟨t, .proceed, some event⟩
  let begin_retire : Label := ⟨0, .retire_group ⟨true, true, true, true, true, true, true⟩, none⟩
  let es : List Label := [acquire, next 1, next 1, show_event 1 (.Acquired 0),
    ⟨1, .consume_open 0 0, none⟩, next 1, show_event 1 (.Consumed 0), begin_retire] ++
    List.replicate 9 (next 0) ++ [⟨0, .callback true, some (.Finalize true)⟩, next 0, next 0]
  have hrun : ∃ s, Run Step (new 0 (false, false) true) (es ++ [show_event 0 (.Returned true 0)]) s := by
    have hacquire : Step (new 0 (false, false) true) acquire _ := ⟨rfl, rfl⟩
    refine Run.exists_cons hacquire ?_
    iterate 3 refine Run.exists_cons (.inl rfl) ?_
    refine Run.exists_cons ⟨rfl, rfl⟩ ?_
    iterate 2 refine Run.exists_cons (.inl rfl) ?_
    refine Run.exists_cons ⟨rfl, rfl⟩ ?_
    -- nine steps lead up to the callback, and three from there to the return
    iterate 9 refine Run.exists_cons (.inr rfl) ?_
    refine Run.exists_cons ⟨rfl, rfl, rfl⟩ ?_
    iterate 2 refine Run.exists_cons (.inr rfl) ?_
    exact Run.exists_cons (.inr rfl) ⟨_, .nil _⟩
  obtain ⟨s, hrun⟩ := hrun
  have h := (retired_group_has_no_open hrun).1 es _ [] true rfl rfl
  exact ⟨_, s, hrun, rfl, rfl, h.2.2, h.1⟩

end Runs

end DarwinArt.Linker
