/-
One `Lifecycle` of the facade for `__cxa_atexit` and `__cxa_finalize`: the state behind its lock,
and what each critical section does to it.

A destructor is registered under a handle. A handle is accepted when it has been published by
itself, or when it lies in a published image; an image keeps the handles it was asked for. Once an
image is being finalized it takes no new handle, and takes further registrations only under a handle
one of whose destructors is running.

A function here is one critical section: what `finalize_image`, `finalize_matching` and
`take_latest_global` do between two of them is in `Dso.Protocol`.
-/
import DarwinArt.Lib.Checked
import DarwinArt.Lib.Counts
import DarwinArt.Lib.Fallible

set_option autoImplicit false

namespace DarwinArt.Dso

open Lib Lib.ListEdit

/-- A registered destructor. Functions and pointers are their addresses. -/
structure Entry where
  function : ℕ
  argument : ℕ
  dso : ℕ
  sequence : ℕ
deriving DecidableEq

structure PublishedImage where
  start : ℕ
  /-- The source's `end`. -/
  stop : ℕ
  finalizing : Bool
  handles : Finset ℕ
deriving DecidableEq

def PublishedImage.contains (image : PublishedImage) (address : ℕ) : Bool :=
  image.start ≤ address && address < image.stop

/-- The test by which an image is looked up again. -/
def PublishedImage.has_range (start stop : ℕ) (image : PublishedImage) : Bool :=
  image.start == start && image.stop == stop

structure State where
  entries : List (Option Entry)
  published : Finset ℕ
  images : List PublishedImage
  active_callbacks : Map ℕ ℕ
  thread_destructors : Map ℕ ℕ

/-- The errors of the facade, one for each text. -/
inductive Error
  /-- "DSO lifecycle provider is already active" -/
  | AlreadyActive
  /-- "process-global DSO lifecycle provider is already active" -/
  | GlobalAlreadyActive
  /-- "could not reserve active lifecycle state" -/
  | ReserveActive
  /-- "null is reserved for process-global registrations" -/
  | NullReserved
  /-- "DSO handle is already published" -/
  | AlreadyPublished
  /-- "could not reserve published DSO state" -/
  | ReservePublished
  /-- "DSO handle is not published" -/
  | NotPublished
  /-- "DSO still has registered or running destructors" -/
  | StillInUse
  /-- "invalid image address range" -/
  | InvalidRange
  /-- "image address range overlaps a live image" -/
  | Overlap
  /-- "could not reserve image lifecycle state" -/
  | ReserveImage
  /-- "image address range is not published" -/
  | ImageNotPublished
  /-- "image address range is already finalizing" -/
  | AlreadyFinalizing
  /-- "image still owns live thread-local destructors" -/
  | LiveThreadDestructors
deriving DecidableEq

namespace State

def new : State := ⟨[], ∅, [], ∅, ∅⟩

section

variable (state : State)

/-- `entries.iter().flatten()`. -/
def pending : List Entry := state.entries.filterMap id

/-! ## Publishing -/

/-- `publish`. Whether the reservation of memory succeeds is an argument. -/
def publish (dso : ℕ) (reserve : Bool) : Except Error State := do
  ensure (dso ≠ 0) .NullReserved
  ensure (dso ∉ state.published) .AlreadyPublished
  ensure (reserve = true) .ReservePublished
  return { state with published := insert dso state.published }

def try_unpublish (dso : ℕ) : Except Error State := do
  ensure (dso ∈ state.published) .NotPublished
  ensure (¬ (state.pending.any (fun entry => entry.dso == dso) = true ∨
    count state.active_callbacks dso ≠ 0)) .StillInUse
  return { state with
    published := state.published.erase dso
    active_callbacks := state.active_callbacks.erase dso }

def publish_image (start stop : ℕ) (reserve : Bool) : Except Error State := do
  ensure (¬ (start = 0 ∨ stop ≤ start)) .InvalidRange
  ensure (¬ state.images.any (fun image => decide (start < image.stop ∧ image.start < stop)) = true)
    .Overlap
  ensure (reserve = true) .ReserveImage
  return { state with images := state.images ++ [⟨start, stop, false, ∅⟩] }

/-! ## Registering -/

/-- The image that `accepts` finds first takes the handle. -/
def insert_handle (accepts : PublishedImage → Bool) (dso : ℕ) : State :=
  { state with
    images := modifyFirst accepts
      (fun image => { image with handles := insert dso image.handles }) state.images }

/-- The cookie of a registration that passed none: the start of an image in which the function or
the argument lies. The image takes that handle even while it is being finalized. -/
def synthetic_cookie (function argument : ℕ) : ℕ × State :=
  let owns := fun image : PublishedImage => image.contains function || image.contains argument
  match state.images.find? owns with
  | none => (0, state)
  | some image => (image.start, state.insert_handle owns image.start)

/-- The part of `register` for a handle that is not published by itself; `none` is the return of
-1. -/
def admit_handle (dso : ℕ) (reserve : Bool) : Option State :=
  match state.images.find? (·.contains dso) with
  | none => none
  | some image =>
    let can_admit := !image.finalizing
    let is_reentrant := decide (dso ∈ image.handles) && count state.active_callbacks dso != 0
    if ! can_admit && !is_reentrant then none
    else if can_admit && !decide (dso ∈ image.handles) then
      if reserve then some (state.insert_handle (·.contains dso) dso) else none
    else some state

/-- `register`: the entry that was accepted, or `none` for -1; the state and `NEXT_SEQUENCE`
afterwards. A null function is `none`, and the two reservations of memory are arguments. -/
def register (next_sequence : ℕ) (function : Option ℕ) (argument dso : ℕ)
    (reserve_handle reserve_entry : Bool) : Option Entry × State × ℕ :=
  match function with
  | none => (none, state, next_sequence)
  | some function =>
    let (dso, state) := if dso = 0 then state.synthetic_cookie function argument else (dso, state)
    let admitted := if dso ≠ 0 ∧ dso ∉ state.published then state.admit_handle dso reserve_handle
      else some state
    match admitted with
    | none => (none, state, next_sequence)
    | some state =>
      if reserve_entry then
        match checked_add 64 next_sequence 1 with
        | none => (none, state, next_sequence)
        | some next =>
          let entry : Entry := ⟨function, argument, dso, next_sequence⟩
          (some entry, { state with entries := state.entries ++ [some entry] }, next)
      else (none, state, next_sequence)

/-- The critical section of `register_thread`. What follows it, the push to the list of the thread,
takes the count back through `complete_thread_destructor` when it fails. -/
def register_thread (dso : ℕ) (reserve : Bool) : Option State :=
  if dso = 0 then none
  else
    let admitted := if dso ∈ state.published then some state
      else
        match state.images.find? (·.contains dso) with
        | none => none
        | some image =>
          if image.finalizing then none
          else if dso ∈ image.handles then some state
          else if reserve then some (state.insert_handle (·.contains dso) dso)
          else none
    admitted.map fun state =>
      { state with thread_destructors := increment state.thread_destructors dso }

/-- `complete_thread_destructor`; `none` is the abort. -/
def complete_thread_destructor (dso : ℕ) : Option State :=
  (decrement state.thread_destructors dso).map fun counts => { state with thread_destructors := counts }

/-! ## Finalizing -/

/-- The entry at `index` is taken to be called. -/
def take_entry (index : ℕ) : Option (Entry × State) :=
  match state.entries[index]? with
  | some (some entry) =>
    some (entry, { state with
      entries := state.entries.set index none
      active_callbacks := increment state.active_callbacks entry.dso })
  | _ => none

def take_latest_matching (matching : Entry → Bool) : Option (Entry × State) :=
  match rposition (fun slot : Option Entry => slot.any matching) state.entries with
  | none => none
  | some index => state.take_entry index

/-- `complete_callback`; `none` is the abort. -/
def complete_callback (dso : ℕ) : Option State :=
  (decrement state.active_callbacks dso).map fun counts => { state with active_callbacks := counts }

/-- What `finalize_matching` does last. -/
def retain_entries : State :=
  { state with entries := state.entries.filter Option.isSome }

/-- The first critical section of `finalize_image`: the handles to finalize. -/
def begin_finalize_image (start stop : ℕ) : Except Error (Finset ℕ × State) := do
  let image ← okOr (state.images.find? (PublishedImage.has_range start stop)) .ImageNotPublished
  ensure (image.finalizing = false) .AlreadyFinalizing
  ensure (¬ ∃ handle ∈ image.handles, count state.thread_destructors handle ≠ 0)
    .LiveThreadDestructors
  return (image.handles, { state with
    images := modifyFirst (PublishedImage.has_range start stop)
      (fun image => { image with finalizing := true }) state.images })

end

end State

/-- What the last critical section of `finalize_image` comes to. -/
inductive Quiescence
  /-- A destructor is running: wait. -/
  | Wait
  /-- Something was registered meanwhile: finalize again. -/
  | Again
  /-- "image address range disappeared during finalization" -/
  | Disappeared
  | Done (state : State)

/-- The last critical section of `finalize_image`. The image is taken out under the lock under which
nothing was found running or registered. -/
def State.quiesce (state : State) (start stop : ℕ) (handles : Finset ℕ) : Quiescence :=
  if ∃ handle ∈ handles, count state.active_callbacks handle ≠ 0 then .Wait
  else if state.pending.any (fun entry => decide (entry.dso ∈ handles)) then .Again
  else
    match state.images.findIdx? (PublishedImage.has_range start stop) with
    | none => .Disappeared
    | some index => .Done { state with images := swap_remove state.images index }

/-- The place that `take_latest_global` has chosen so far. -/
structure Selected where
  lifecycle : ℕ
  index : ℕ
  sequence : ℕ
deriving DecidableEq

/-- The inner loop of `take_latest_global`, over the entries of one lifecycle from `index` on. -/
def scan (lifecycle : ℕ) : ℕ → List (Option Entry) → Option Selected → Option Selected
  | _, [], selected => selected
  | index, none :: entries, selected => scan lifecycle (index + 1) entries selected
  | index, some entry :: entries, selected =>
    if selected.all (fun best => decide (best.sequence < entry.sequence)) then
      scan lifecycle (index + 1) entries (some ⟨lifecycle, index, entry.sequence⟩)
    else scan lifecycle (index + 1) entries selected

/-! ## What is pending -/

section Pending

variable {state state' : State} {entry : Entry} {index : ℕ}

/-- What is pending after one more entry is pushed. -/
theorem pending_push (state : State) (entry : Entry) :
    { state with entries := state.entries ++ [some entry] }.pending = state.pending ++ [entry] := by
  simp [State.pending]

theorem State.pending_retain (state : State) : state.retain_entries.pending = state.pending := by
  unfold State.pending State.retain_entries
  rw [List.filterMap_filter]
  congr 1
  funext slot
  cases slot <;> rfl

/-- **Taking an entry.** The others stay in their order, and it counts as running. -/
theorem State.take_entry_spec (h : state.take_entry index = some (entry, state')) :
    ∃ before after, state.entries = before ++ some entry :: after ∧ before.length = index ∧
      state' = { state with
        entries := before ++ none :: after
        active_callbacks := increment state.active_callbacks entry.dso } := by
  unfold State.take_entry at h
  split at h
  · next e hentry =>
    cases h
    obtain ⟨hlt, hget⟩ := getElem?_eq_some_iff.mp hentry
    refine ⟨state.entries.take index, state.entries.drop (index + 1), ?_, ?_, ?_⟩
    · rw [← hget, List.getElem_cons_drop, List.take_append_drop]
    · rw [List.length_take]
      omega
    · rw [List.set_eq_take_append_cons_drop, if_pos hlt]
  · cases h

/-- The pick of `finalize_matching`: nothing that matches comes after what it takes. -/
theorem State.take_latest_matching_spec {matching : Entry → Bool}
    (h : state.take_latest_matching matching = some (entry, state')) :
    ∃ before after, state.entries = before ++ some entry :: after ∧ matching entry = true ∧
      (∀ e ∈ after.filterMap id, matching e = false) ∧
      state' = { state with
        entries := before ++ none :: after
        active_callbacks := increment state.active_callbacks entry.dso } := by
  unfold State.take_latest_matching at h
  split at h
  · cases h
  next i hposition =>
  obtain ⟨before, after, hentries, hlen, hstate⟩ := State.take_entry_spec h
  obtain ⟨_, slot, _, hentries', hlen', hslot, hafter⟩ := rposition_eq_some hposition
  obtain ⟨rfl, hrest⟩ := List.append_inj (hentries.symm.trans hentries') (hlen.trans hlen'.symm)
  rw [List.cons.injEq] at hrest
  obtain ⟨rfl, rfl⟩ := hrest
  refine ⟨before, after, hentries, by simpa using hslot, ?_, hstate⟩
  intro e he
  rw [List.mem_filterMap] at he
  obtain ⟨slot, hmem, hid⟩ := he
  have := hafter slot hmem
  simpa [show slot = some e from hid] using this

end Pending

/-! ## The images of a lifecycle -/

/-- The ranges of two images do not overlap. -/
def Apart (a b : PublishedImage) : Prop := a.stop ≤ b.start ∨ b.stop ≤ a.start

instance : Std.Symm Apart := ⟨fun _ _ h => h.symm⟩

/-- Published images have nonempty ranges that do not overlap, and their handles lie in them. -/
structure WellFormed (images : List PublishedImage) : Prop where
  ranges : ∀ image ∈ images, 0 < image.start ∧ image.start < image.stop
  apart : images.Pairwise Apart
  inside : ∀ image ∈ images, ∀ handle ∈ image.handles, image.contains handle = true

@[simp] theorem PublishedImage.contains_iff {image : PublishedImage} {address : ℕ} :
    image.contains address = true ↔ image.start ≤ address ∧ address < image.stop := by
  simp [PublishedImage.contains]

@[simp] theorem PublishedImage.has_range_iff {image : PublishedImage} {start stop : ℕ} :
    PublishedImage.has_range start stop image = true ↔ image.start = start ∧ image.stop = stop := by
  simp [PublishedImage.has_range]

section Images

variable {images before after : List PublishedImage} {image image' : PublishedImage}

/-- An address lies in one image at most. -/
theorem WellFormed.unique (h : WellFormed images) {address : ℕ} (hm : image ∈ images)
    (hm' : image' ∈ images) (hc : image.contains address = true)
    (hc' : image'.contains address = true) : image = image' := by
  by_contra hne
  have hor : image.stop ≤ image'.start ∨ image'.stop ≤ image.start := h.apart.forall hm hm' hne
  rw [PublishedImage.contains_iff] at hc hc'
  omega

/-- An image may be replaced by one of the same range whose handles lie in it. -/
theorem WellFormed.replace (h : WellFormed (before ++ image :: after))
    (hstart : image'.start = image.start) (hstop : image'.stop = image.stop)
    (hhandles : ∀ handle ∈ image'.handles, image.contains handle = true) :
    WellFormed (before ++ image' :: after) := by
  have hin : image ∈ before ++ image :: after := by simp
  constructor
  · intro x hx
    rcases List.mem_append.mp hx with hx | hx
    · exact h.ranges x (by simp [hx])
    rcases List.mem_cons.mp hx with rfl | hx
    · rw [hstart, hstop]
      exact h.ranges image hin
    · exact h.ranges x (by simp [hx])
  · have hpair := h.apart
    rw [List.pairwise_append, List.pairwise_cons] at hpair ⊢
    obtain ⟨hbefore, ⟨himage, hafter⟩, hcross⟩ := hpair
    have hsame : ∀ x, Apart image x → Apart image' x := by
      intro x hx
      rwa [Apart, hstart, hstop]
    refine ⟨hbefore, ⟨fun x hx => hsame x (himage x hx), hafter⟩, ?_⟩
    · intro a ha b hb
      rcases List.mem_cons.mp hb with rfl | hb
      · exact (hsame a (hcross a ha image (by simp)).symm).symm
      · exact hcross a ha b (by simp [hb])
  · intro x hx handle hhandle
    rcases List.mem_append.mp hx with hx | hx
    · exact h.inside x (by simp [hx]) handle hhandle
    rcases List.mem_cons.mp hx with rfl | hx
    · have := hhandles handle hhandle
      rw [PublishedImage.contains_iff] at this ⊢
      rw [hstart, hstop]
      exact this
    · exact h.inside x (by simp [hx]) handle hhandle

/-- Images go on with the same range, and never lose a handle or stop being finalized. -/
def Extends (images images' : List PublishedImage) : Prop :=
  ∀ image ∈ images, ∃ image' ∈ images', image'.start = image.start ∧ image'.stop = image.stop ∧
    image.handles ⊆ image'.handles ∧ (image.finalizing = true → image'.finalizing = true)

theorem Extends.refl (images : List PublishedImage) : Extends images images :=
  fun image himage => ⟨image, himage, rfl, rfl, Finset.Subset.refl _, id⟩

theorem Extends.trans {images₁ images₂ images₃ : List PublishedImage} (h : Extends images₁ images₂)
    (h' : Extends images₂ images₃) : Extends images₁ images₃ := by
  intro image himage
  obtain ⟨image₂, hmem₂, hstart₂, hstop₂, hhandles₂, hfinal₂⟩ := h image himage
  obtain ⟨image₃, hmem₃, hstart₃, hstop₃, hhandles₃, hfinal₃⟩ := h' image₂ hmem₂
  exact ⟨image₃, hmem₃, hstart₃.trans hstart₂, hstop₃.trans hstop₂,
    hhandles₂.trans hhandles₃, fun hf => hfinal₃ (hfinal₂ hf)⟩

theorem Extends.replace (hstart : image'.start = image.start) (hstop : image'.stop = image.stop)
    (hhandles : image.handles ⊆ image'.handles)
    (hfinal : image.finalizing = true → image'.finalizing = true) :
    Extends (before ++ image :: after) (before ++ image' :: after) := by
  intro x hx
  by_cases heq : x = image
  · rw [heq]
    exact ⟨image', by simp, hstart, hstop, hhandles, hfinal⟩
  · refine ⟨x, ?_, rfl, rfl, Finset.Subset.refl _, id⟩
    simp only [List.mem_append, List.mem_cons, heq, false_or] at hx ⊢
    exact hx.imp id .inr

end Images

/-! ## The invariant of a lifecycle -/

/-- Something is registered under the handle, or a destructor of it is running. -/
def State.Uses (state : State) (dso : ℕ) : Prop :=
  (∃ entry ∈ state.pending, entry.dso = dso) ∨ count state.active_callbacks dso ≠ 0

/-- What is used belongs to a published handle or to an image. -/
structure State.Sound (state : State) : Prop where
  images : WellFormed state.images
  owned : ∀ dso, dso ≠ 0 → state.Uses dso →
    dso ∈ state.published ∨ ∃ image ∈ state.images, dso ∈ image.handles

/-- What a call of `finalize_image` relies on while it is under way: its image is there, and the
handles it did not see at its start are used only if they are published by themselves. -/
structure State.Finalizes (state : State) (start stop : ℕ) (handles : Finset ℕ) : Prop where
  image : ∃ image ∈ state.images, image.start = start ∧ image.stop = stop ∧ image.finalizing = true
  others : ∀ dso, start ≤ dso → dso < stop → dso ∉ handles → state.Uses dso → dso ∈ state.published

/-- The change that every operation makes, except those that take something out: a handle comes into
use only if it is published or an image takes it that is not being finalized. -/
structure State.Grows (state state' : State) : Prop where
  published : state.published ⊆ state'.published
  images : Extends state.images state'.images
  uses : ∀ dso, dso ≠ 0 → state'.Uses dso → state.Uses dso ∨ dso ∈ state'.published ∨
    ∃ image ∈ state'.images, dso ∈ image.handles ∧ image.finalizing = false

section Sound

variable {state state' : State} {start stop : ℕ} {handles : Finset ℕ}

theorem State.new_sound : State.new.Sound := by
  constructor
  · constructor <;> simp [State.new]
  · intro dso _ huses
    simp [State.Uses, State.new, State.pending, count] at huses

theorem State.Sound.grow (h : state.Sound) (hgrow : state.Grows state')
    (hwell : WellFormed state'.images) : state'.Sound := by
  refine ⟨hwell, ?_⟩
  intro dso hdso huses
  rcases hgrow.uses dso hdso huses with hold | hpublished | ⟨image, himage, hhandle, -⟩
  · rcases h.owned dso hdso hold with hpublished | ⟨image, himage, hhandle⟩
    · exact .inl (hgrow.published hpublished)
    · obtain ⟨image', himage', -, -, hsub, -⟩ := hgrow.images image himage
      exact .inr ⟨image', himage', hsub hhandle⟩
  · exact .inl hpublished
  · exact .inr ⟨image, himage, hhandle⟩

theorem State.Finalizes.grow (h : state.Finalizes start stop handles) (hgrow : state.Grows state')
    (hwell : WellFormed state'.images) : state'.Finalizes start stop handles := by
  obtain ⟨image, himage, hstart, hstop, hfinal⟩ := h.image
  obtain ⟨image', himage', hstart', hstop', -, hfinal'⟩ := hgrow.images image himage
  have hstart'' := hstart'.trans hstart
  have hstop'' := hstop'.trans hstop
  refine ⟨⟨image', himage', hstart'', hstop'', hfinal' hfinal⟩, ?_⟩
  intro dso hlow hhigh hnot huses
  have hpos := (hwell.ranges image' himage').1
  rcases hgrow.uses dso (by omega) huses with hold | hpublished | ⟨other, hother, hhandle, hidle⟩
  · exact hgrow.published (h.others dso hlow hhigh hnot hold)
  · exact hpublished
  · -- the image that took the handle would be the one being finalized
    have hcontains : image'.contains dso = true := by
      rw [PublishedImage.contains_iff]
      omega
    have heq := hwell.unique himage' hother hcontains (hwell.inside other hother dso hhandle)
    rw [← heq, hfinal' hfinal] at hidle
    cases hidle

/-- An operation that brings nothing into use and changes no image. -/
theorem State.Grows.of_uses (hpublished : state.published ⊆ state'.published)
    (himages : state'.images = state.images)
    (huses : ∀ dso, dso ≠ 0 → state'.Uses dso → state.Uses dso) : state.Grows state' :=
  ⟨hpublished, himages ▸ Extends.refl _, fun dso hdso h => .inl (huses dso hdso h)⟩

/-- When an image begins to be finalized, the handles it has are all that is used of it. -/
theorem State.Sound.finalizes (h : state.Sound) {image : PublishedImage}
    (himage : image ∈ state.images) (hfinal : image.finalizing = true) :
    state.Finalizes image.start image.stop image.handles := by
  refine ⟨⟨image, himage, rfl, rfl, hfinal⟩, ?_⟩
  intro dso hlow hhigh hnot huses
  have hpos := (h.images.ranges image himage).1
  rcases h.owned dso (by omega) huses with hpublished | ⟨other, hother, hhandle⟩
  · exact hpublished
  · have hcontains : image.contains dso = true := by
      rw [PublishedImage.contains_iff]
      omega
    have heq := h.images.unique himage hother hcontains (h.images.inside other hother dso hhandle)
    rw [← heq] at hhandle
    exact absurd hhandle hnot

end Sound

/-! ## What each operation does -/

/-- No range is published that was not. -/
def SameRanges (images images' : List PublishedImage) : Prop :=
  ∀ image' ∈ images', ∃ image ∈ images, image.start = image'.start ∧ image.stop = image'.stop

theorem SameRanges.refl (images : List PublishedImage) : SameRanges images images :=
  fun image himage => ⟨image, himage, rfl, rfl⟩

theorem SameRanges.trans {images₁ images₂ images₃ : List PublishedImage}
    (h : SameRanges images₁ images₂) (h' : SameRanges images₂ images₃) :
    SameRanges images₁ images₃ := by
  intro image₃ hmem₃
  obtain ⟨image₂, hmem₂, hstart₂, hstop₂⟩ := h' image₃ hmem₃
  obtain ⟨image₁, hmem₁, hstart₁, hstop₁⟩ := h image₂ hmem₂
  exact ⟨image₁, hmem₁, hstart₁.trans hstart₂, hstop₁.trans hstop₂⟩

theorem SameRanges.replace {before after : List PublishedImage} {image image' : PublishedImage}
    (hstart : image'.start = image.start) (hstop : image'.stop = image.stop) :
    SameRanges (before ++ image :: after) (before ++ image' :: after) := by
  intro x hx
  by_cases heq : x = image'
  · rw [heq]
    exact ⟨image, by simp, hstart.symm, hstop.symm⟩
  · refine ⟨x, ?_, rfl, rfl⟩
    simp only [List.mem_append, List.mem_cons, heq, false_or] at hx ⊢
    exact hx.imp id .inr

section Operations

variable {state state' : State} {dso start stop : ℕ} {handles : Finset ℕ} {next next' : ℕ}
  {result : Option Entry} {function : Option ℕ} {reserve_handle reserve_entry : Bool}

theorem State.uses_congr (hpending : state'.pending = state.pending)
    (hcounts : ∀ d, count state'.active_callbacks d = count state.active_callbacks d) :
    state'.Uses dso ↔ state.Uses dso := by
  rw [State.Uses, State.Uses, hpending, hcounts]

variable {reserve : Bool} {argument : ℕ}

theorem State.publish_spec (h : state.publish dso reserve = .ok state') :
    state' = { state with published := insert dso state.published } := by
  simp only [State.publish, bind_eq_ok, ensure_eq_ok, pure_eq_ok, exists_const] at h
  exact h.2.2.2.symm

theorem State.publish_grows (h : state.publish dso reserve = .ok state') :
    state.Grows state' := by
  rw [State.publish_spec h]
  exact .of_uses (Finset.subset_insert _ _) rfl fun _ _ huses => huses

section

variable (h : state.try_unpublish dso = .ok state')
include h

theorem State.try_unpublish_spec :
    ¬ state.Uses dso ∧ state' = { state with
      published := state.published.erase dso
      active_callbacks := state.active_callbacks.erase dso } := by
  simp only [State.try_unpublish, bind_eq_ok, ensure_eq_ok, pure_eq_ok, exists_const] at h
  obtain ⟨-, hidle, hstate⟩ := h
  refine ⟨?_, hstate.symm⟩
  rintro (⟨entry, hmem, hdso⟩ | hactive)
  · exact hidle (.inl (List.any_eq_true.mpr ⟨entry, hmem, by simpa using hdso⟩))
  · exact hidle (.inr hactive)

theorem State.try_unpublish_counts (d : ℕ) :
    count state'.active_callbacks d = count state.active_callbacks d := by
  obtain ⟨hidle, rfl⟩ := State.try_unpublish_spec h
  apply count_erase_of_zero
  by_contra hne
  exact hidle (.inr hne)

theorem State.try_unpublish_uses (d : ℕ) :
    state'.Uses d ↔ state.Uses d := by
  refine State.uses_congr ?_ (State.try_unpublish_counts h)
  rw [(State.try_unpublish_spec h).2]
  rfl

end

theorem State.Sound.unpublish (hsound : state.Sound) (h : state.try_unpublish dso = .ok state') :
    state'.Sound := by
  have hsame := State.try_unpublish_uses h
  obtain ⟨hidle, rfl⟩ := State.try_unpublish_spec h
  refine ⟨hsound.images, ?_⟩
  intro d hd huses
  have hused := (hsame d).mp huses
  refine (hsound.owned d hd hused).imp (fun hpublished => ?_) id
  exact Finset.mem_erase.mpr ⟨fun heq => hidle (heq ▸ hused), hpublished⟩

theorem State.Finalizes.unpublish (hfinal : state.Finalizes start stop handles)
    (h : state.try_unpublish dso = .ok state') : state'.Finalizes start stop handles := by
  have hsame := State.try_unpublish_uses h
  obtain ⟨hidle, rfl⟩ := State.try_unpublish_spec h
  refine ⟨hfinal.image, ?_⟩
  intro d hlow hhigh hnot huses
  have hused := (hsame d).mp huses
  exact Finset.mem_erase.mpr
    ⟨fun heq => hidle (heq ▸ hused), hfinal.others d hlow hhigh hnot hused⟩

theorem State.publish_image_spec (h : state.publish_image start stop reserve = .ok state') :
    (0 < start ∧ start < stop) ∧
      (∀ image ∈ state.images, image.stop ≤ start ∨ stop ≤ image.start) ∧
      state' = { state with images := state.images ++ [⟨start, stop, false, ∅⟩] } := by
  simp only [State.publish_image, bind_eq_ok, ensure_eq_ok, pure_eq_ok, exists_const] at h
  obtain ⟨_, hoverlap, -, hstate⟩ := h
  refine ⟨by omega, ?_, hstate.symm⟩
  intro image himage
  by_contra hnot
  refine hoverlap (List.any_eq_true.mpr ⟨image, himage, ?_⟩)
  rw [decide_eq_true_eq]
  omega

theorem State.publish_image_wellFormed (hwell : WellFormed state.images)
    (h : state.publish_image start stop reserve = .ok state') : WellFormed state'.images := by
  obtain ⟨hrange, hapart, rfl⟩ := State.publish_image_spec h
  constructor
  · intro image himage
    rcases List.mem_append.mp himage with himage | himage
    · exact hwell.ranges image himage
    · rwa [List.mem_singleton.mp himage]
  · refine List.pairwise_append.mpr ⟨hwell.apart, List.pairwise_singleton _ _, ?_⟩
    intro image himage other hother
    rw [List.mem_singleton.mp hother]
    exact hapart image himage
  · intro image himage handle hhandle
    rcases List.mem_append.mp himage with himage | himage
    · exact hwell.inside image himage handle hhandle
    · rw [List.mem_singleton.mp himage] at hhandle
      exact absurd hhandle (Finset.notMem_empty _)

theorem State.publish_image_grows
    (h : state.publish_image start stop reserve = .ok state') : state.Grows state' := by
  obtain ⟨-, -, rfl⟩ := State.publish_image_spec h
  refine ⟨Finset.Subset.refl _, ?_, fun _ _ huses => .inl huses⟩
  intro image himage
  exact ⟨image, List.mem_append_left _ himage, rfl, rfl, Finset.Subset.refl _, id⟩

/-! ### Handles that images take -/

/-- The change of an operation that lets images take handles. -/
structure State.TakesHandles (state state' : State) : Prop where
  entries : state'.entries = state.entries
  published : state'.published = state.published
  active_callbacks : state'.active_callbacks = state.active_callbacks
  wellFormed : WellFormed state'.images
  images : Extends state.images state'.images
  ranges : SameRanges state.images state'.images

open State PublishedImage

theorem State.TakesHandles.refl (hwell : WellFormed state.images) : state.TakesHandles state :=
  ⟨rfl, rfl, rfl, hwell, Extends.refl _, SameRanges.refl _⟩

theorem State.TakesHandles.trans {state₁ state₂ state₃ : State} (h : state₁.TakesHandles state₂)
    (h' : state₂.TakesHandles state₃) : state₁.TakesHandles state₃ :=
  ⟨h'.entries.trans h.entries, h'.published.trans h.published,
    h'.active_callbacks.trans h.active_callbacks, h'.wellFormed, h.images.trans h'.images,
    h.ranges.trans h'.ranges⟩

theorem State.TakesHandles.uses (h : state.TakesHandles state') :
    state'.Uses dso ↔ state.Uses dso :=
  uses_congr (by rw [pending, pending, h.entries])
    fun d => by rw [h.active_callbacks]

section

variable (hwell : WellFormed state.images)
include hwell

/-- The image that is found takes a handle that lies in it. -/
theorem State.insert_handle_spec {accepts : PublishedImage → Bool} {image : PublishedImage}
    (hfind : state.images.find? accepts = some image) (hcontains : image.contains dso = true) :
    state.TakesHandles (state.insert_handle accepts dso) ∧
      { image with handles := insert dso image.handles } ∈ (state.insert_handle accepts dso).images := by
  obtain ⟨haccepts, before, after, hsplit, hbefore⟩ := List.find?_eq_some_iff_append.mp hfind
  have hnone : ∀ x ∈ before, accepts x = false := fun x hx => by simpa using hbefore x hx
  have himages : (state.insert_handle accepts dso).images =
      before ++ { image with handles := insert dso image.handles } :: after := by
    unfold insert_handle
    rw [hsplit]
    exact modifyFirst_split _ hnone haccepts
  rw [hsplit] at hwell
  have hinside : ∀ handle ∈ insert dso image.handles, image.contains handle = true := by
    intro handle hhandle
    rcases Finset.mem_insert.mp hhandle with rfl | hhandle
    · exact hcontains
    · exact hwell.inside image (by simp) handle hhandle
  refine ⟨⟨rfl, rfl, rfl, ?_, ?_, ?_⟩, ?_⟩
  · rw [himages]
    exact hwell.replace rfl rfl hinside
  · rw [himages, hsplit]
    exact Extends.replace rfl rfl (Finset.subset_insert _ _) id
  · rw [himages, hsplit]
    exact SameRanges.replace rfl rfl
  · rw [himages]
    simp

theorem State.synthetic_cookie_spec {function : ℕ}
    (h : state.synthetic_cookie function argument = (dso, state')) : state.TakesHandles state' := by
  simp only [synthetic_cookie] at h
  split at h
  · cases h
    exact .refl hwell
  · next image hfind =>
    cases h
    have hmem := List.mem_of_find?_eq_some hfind
    have hrange := hwell.ranges image hmem
    refine (insert_handle_spec hwell hfind ?_).1
    rw [contains_iff]
    omega

/-- **Admission.** A handle is let in by the image in which it lies, and is then a handle of an
image that is not being finalized, unless a destructor of it is running. -/
theorem State.admit_handle_spec (h : state.admit_handle dso reserve = some state') :
    state.TakesHandles state' ∧ (∃ image ∈ state.images, image.contains dso = true) ∧
      (state.Uses dso ∨ ∃ image ∈ state'.images, dso ∈ image.handles ∧ image.finalizing = false) := by
  unfold admit_handle at h
  split at h
  · cases h
  next image hfind =>
  have hmem := List.mem_of_find?_eq_some hfind
  have hcontains : image.contains dso = true := by simpa using List.find?_some hfind
  dsimp only at h
  split_ifs at h with hrefuse hnew hreserve
  · injection h with hstate
    obtain ⟨htakes, hin⟩ := insert_handle_spec hwell hfind hcontains
    rw [← hstate]
    refine ⟨htakes, ⟨image, hmem, hcontains⟩, .inr ⟨_, hin, Finset.mem_insert_self _ _, ?_⟩⟩
    have hidle : image.finalizing = false := by
      simp only [Bool.and_eq_true, Bool.not_eq_true'] at hnew
      exact hnew.1
    exact hidle
  · cases h
    refine ⟨.refl hwell, ⟨image, hmem, hcontains⟩, ?_⟩
    by_cases hfinal : image.finalizing = true
    · -- only a running destructor of the handle lets it pass
      have hreentrant : dso ∈ image.handles ∧ count state.active_callbacks dso ≠ 0 := by
        simpa [hfinal] using hrefuse
      exact .inl (.inr hreentrant.2)
    · have hidle : image.finalizing = false := by simpa using hfinal
      have hold : dso ∈ image.handles := by simpa [hidle] using hnew
      exact .inr ⟨image, hmem, hold, hidle⟩

/-- What `register` does before it pushes: the handle under which it goes on, or a refusal. -/
theorem State.register_cases
    (h : state.register next function argument dso reserve_handle reserve_entry =
      (result, state', next')) :
    (result = none ∧ next' = next ∧ state.TakesHandles state') ∨
    ∃ entry middle, result = some entry ∧ entry.sequence = next ∧ next' = next + 1 ∧
      (dso ≠ 0 → entry.dso = dso) ∧ state.TakesHandles middle ∧
      state' = { middle with entries := middle.entries ++ [some entry] } ∧
      (entry.dso ≠ 0 → entry.dso ∉ state.published →
        (∃ image ∈ state.images, image.contains entry.dso = true) ∧
        (state.Uses entry.dso ∨
          ∃ image ∈ middle.images, entry.dso ∈ image.handles ∧ image.finalizing = false)) := by
  unfold register at h
  cases function with
  | none =>
    cases h
    exact .inl ⟨rfl, rfl, .refl hwell⟩
  | some function =>
  dsimp only at h
  -- the cookie, its own or the synthetic one
  generalize hcookie : (if dso = 0 then state.synthetic_cookie function argument else (dso, state)) =
    cookie at h
  obtain ⟨handle, first⟩ := cookie
  have hfirst : state.TakesHandles first ∧ (dso ≠ 0 → handle = dso) := by
    by_cases hzero : dso = 0
    · rw [if_pos hzero] at hcookie
      exact ⟨synthetic_cookie_spec hwell hcookie, fun hne => absurd hzero hne⟩
    · rw [if_neg hzero] at hcookie
      cases hcookie
      exact ⟨.refl hwell, fun _ => rfl⟩
  dsimp only at h
  generalize hadmitted : (if handle ≠ 0 ∧ handle ∉ first.published then
    first.admit_handle handle reserve_handle else some first) = admitted at h
  cases admitted with
  | none =>
    cases h
    exact .inl ⟨rfl, rfl, hfirst.1⟩
  | some middle =>
  have hmiddle : first.TakesHandles middle ∧ (handle ≠ 0 → handle ∉ first.published →
      (∃ image ∈ first.images, image.contains handle = true) ∧ (first.Uses handle ∨
        ∃ image ∈ middle.images, handle ∈ image.handles ∧ image.finalizing = false)) := by
    by_cases hcheck : handle ≠ 0 ∧ handle ∉ first.published
    · rw [if_pos hcheck] at hadmitted
      obtain ⟨htakes, hlies, huse⟩ := admit_handle_spec hfirst.1.wellFormed hadmitted
      exact ⟨htakes, fun _ _ => ⟨hlies, huse⟩⟩
    · rw [if_neg hcheck] at hadmitted
      cases hadmitted
      exact ⟨.refl hfirst.1.wellFormed, fun hne hnot => absurd ⟨hne, hnot⟩ hcheck⟩
  have htakes := hfirst.1.trans hmiddle.1
  dsimp only at h
  by_cases hreserve : reserve_entry = true
  swap
  · rw [if_neg hreserve] at h
    cases h
    exact .inl ⟨rfl, rfl, htakes⟩
  rw [if_pos hreserve] at h
  cases hchecked : checked_add 64 next 1 with
  | none =>
    rw [hchecked] at h
    cases h
    exact .inl ⟨rfl, rfl, htakes⟩
  | some =>
    rw [hchecked] at h
    simp only [Prod.mk.injEq] at h
    obtain ⟨hresult, hstate, hnext⟩ := h
    have hbump := (checked_add_eq_some.mp hchecked).2
    refine .inr ⟨_, middle, hresult.symm, rfl, by omega, hfirst.2, htakes, hstate.symm, ?_⟩
    intro hne hnot
    rw [← hfirst.1.published] at hnot
    obtain ⟨⟨image, himage, hcontains⟩, huse⟩ := hmiddle.2 hne hnot
    obtain ⟨image', himage', hstart, hstop⟩ := hfirst.1.ranges image himage
    refine ⟨⟨image', himage', ?_⟩, huse.imp hfirst.1.uses.mp id⟩
    rw [contains_iff] at hcontains ⊢
    rwa [hstart, hstop]

end

theorem State.TakesHandles.grows (h : state.TakesHandles state') : state.Grows state' :=
  ⟨by rw [h.published], h.images, fun _ _ huses => .inl (h.uses.mp huses)⟩

section

variable (hwell : WellFormed state.images)
include hwell

theorem State.register_grows
    (h : state.register next function argument dso reserve_handle reserve_entry =
      (result, state', next')) : state.Grows state' ∧ WellFormed state'.images := by
  rcases register_cases hwell h with ⟨-, -, htakes⟩ |
    ⟨entry, _, -, -, -, -, htakes, rfl, hadmitted⟩
  · exact ⟨htakes.grows, htakes.wellFormed⟩
  refine ⟨⟨by rw [← htakes.published], htakes.images, ?_⟩, htakes.wellFormed⟩
  intro d hd huses
  by_cases hpushed : d = entry.dso
  · by_cases hpublished : d ∈ state.published
    · exact .inr (.inl (htakes.published ▸ hpublished))
    · rw [hpushed] at hd hpublished ⊢
      exact (hadmitted hd hpublished).2.imp id .inr
  · refine .inl (htakes.uses.mp (huses.imp ?_ id))
    rintro ⟨e, he, hdso⟩
    rw [pending_push, List.mem_append, List.mem_singleton] at he
    refine ⟨e, he.resolve_right ?_, hdso⟩
    rintro rfl
    exact hpushed hdso.symm

theorem State.register_thread_takes
    (h : state.register_thread dso reserve = some state') : state.TakesHandles state' := by
  unfold register_thread at h
  by_cases hzero : dso = 0
  · rw [if_pos hzero] at h
    cases h
  rw [if_neg hzero] at h
  obtain ⟨middle, hmiddle, rfl⟩ := Option.map_eq_some_iff.mp h
  suffices htakes : state.TakesHandles middle from
    ⟨htakes.entries, htakes.published, htakes.active_callbacks, htakes.wellFormed, htakes.images,
      htakes.ranges⟩
  by_cases hpublished : dso ∈ state.published
  · rw [if_pos hpublished] at hmiddle
    cases hmiddle
    exact .refl hwell
  rw [if_neg hpublished] at hmiddle
  cases hfind : state.images.find? (·.contains dso) with
  | none =>
    rw [hfind] at hmiddle
    cases hmiddle
  | some =>
    rw [hfind] at hmiddle
    dsimp only at hmiddle
    split_ifs at hmiddle
    · cases hmiddle
      exact .refl hwell
    · cases hmiddle
      exact (insert_handle_spec hwell hfind (by simpa using List.find?_some hfind)).1

theorem State.complete_thread_destructor_takes
    (h : state.complete_thread_destructor dso = some state') : state.TakesHandles state' := by
  obtain ⟨_, -, rfl⟩ := Option.map_eq_some_iff.mp h
  exact ⟨rfl, rfl, rfl, hwell, Extends.refl _, SameRanges.refl _⟩

end

/-! ### Taking and completing -/

/-- What is used after an entry was taken was used before. -/
theorem State.take_grows {entry : Entry} {before after : List (Option Entry)}
    (hentries : state.entries = before ++ some entry :: after) :
    state.Grows { state with
      entries := before ++ none :: after
      active_callbacks := increment state.active_callbacks entry.dso } := by
  refine .of_uses (Finset.Subset.refl _) rfl ?_
  intro d _ huses
  have hpending : state.pending = before.filterMap id ++ entry :: after.filterMap id := by
    simp [pending, hentries]
  by_cases hd : d = entry.dso
  · rw [hd]
    exact .inl ⟨entry, by rw [hpending]; simp, rfl⟩
  · rcases huses with ⟨e, he, hdso⟩ | hcount
    · refine .inl ⟨e, ?_, hdso⟩
      rw [hpending]
      simp only [pending, List.filterMap_append, List.filterMap_cons, id, List.mem_append,
        List.mem_cons] at he ⊢
      exact he.imp id .inr
    · rw [count_increment_of_ne _ hd] at hcount
      exact .inr hcount

theorem State.complete_callback_grows (h : state.complete_callback dso = some state') :
    state.Grows state' := by
  obtain ⟨_, hcounts, rfl⟩ := Option.map_eq_some_iff.mp h
  refine .of_uses (Finset.Subset.refl _) rfl ?_
  intro d _ huses
  refine huses.imp id fun hcount => ?_
  by_cases hd : d = dso
  · rw [hd, count_decrement_self hcounts]
    omega
  · exact (count_decrement_of_ne hcounts hd) ▸ hcount

theorem State.retain_grows (state : State) : state.Grows state.retain_entries := by
  refine .of_uses (Finset.Subset.refl _) rfl fun d _ huses => ?_
  exact (uses_congr state.pending_retain fun _ => rfl).mp huses

/-! ### Finalizing an image -/

theorem State.begin_finalize_image_spec
    (h : state.begin_finalize_image start stop = .ok (handles, state')) :
    ∃ before image after, state.images = before ++ image :: after ∧ image.start = start ∧
      image.stop = stop ∧ image.finalizing = false ∧ image.handles = handles ∧
      state' = { state with images := before ++ { image with finalizing := true } :: after } := by
  simp only [begin_finalize_image, bind_eq_ok, ensure_eq_ok, okOr_eq_ok, pure_eq_ok,
    exists_const, Prod.mk.injEq] at h
  obtain ⟨image, hfind, hidle, -, hhandles, hstate⟩ := h
  obtain ⟨hrange, before, after, hsplit, hbefore⟩ := List.find?_eq_some_iff_append.mp hfind
  obtain ⟨hstart, hstop⟩ := has_range_iff.mp hrange
  refine ⟨before, image, after, hsplit, hstart, hstop, hidle, hhandles, ?_⟩
  rw [← hstate, hsplit,
    modifyFirst_split _ (fun x hx => by simpa using hbefore x hx) hrange]

theorem State.begin_finalize_image_grows (hwell : WellFormed state.images)
    (h : state.begin_finalize_image start stop = .ok (handles, state')) :
    state.Grows state' ∧ WellFormed state'.images := by
  obtain ⟨_, image, _, himages, -, -, -, -, rfl⟩ := begin_finalize_image_spec h
  rw [himages] at hwell
  refine ⟨⟨Finset.Subset.refl _, ?_, fun _ _ huses => .inl huses⟩, ?_⟩
  · rw [himages]
    exact Extends.replace rfl rfl (Finset.Subset.refl _) fun _ => rfl
  · exact hwell.replace rfl rfl (hwell.inside image (by simp))

/-- The end of `finalize_image`: nothing of its handles is used, and its image is gone. -/
theorem State.quiesce_done (h : state.quiesce start stop handles = .Done state') :
    (∀ dso ∈ handles, ¬ state.Uses dso) ∧
    ∃ before image after moved, state.images = before ++ image :: after ∧ image.start = start ∧
      image.stop = stop ∧ moved.Perm after ∧ state' = { state with images := before ++ moved } := by
  unfold quiesce at h
  split_ifs at h with hactive hpending
  refine ⟨?_, ?_⟩
  · rintro dso hdso (⟨entry, hentry, rfl⟩ | hcount)
    · exact hpending (List.any_eq_true.mpr ⟨entry, hentry, by simpa using hdso⟩)
    · exact hactive ⟨dso, hdso, hcount⟩
  · cases hindex : state.images.findIdx? (has_range start stop) with
    | none =>
      rw [hindex] at h
      cases h
    | some =>
      rw [hindex] at h
      obtain ⟨before, image, after, himages, hlen, hrange, -⟩ := findIdx_eq_some hindex
      obtain ⟨moved, hperm, hremove⟩ := swap_remove_split before image after
      obtain ⟨hstart, hstop⟩ := has_range_iff.mp hrange
      refine ⟨before, image, after, moved, himages, hstart, hstop, hperm, ?_⟩
      rw [← Quiescence.Done.inj h, himages, ← hlen, hremove]

section Removed

variable {before after moved : List PublishedImage} {image : PublishedImage}

/-- The images that stay when one is taken out. -/
theorem mem_of_removed (hperm : moved.Perm after) {x : PublishedImage} :
    x ∈ before ++ moved ↔ x ∈ before ++ after := by
  rw [List.mem_append, List.mem_append, hperm.mem_iff]

section

variable (h : WellFormed (before ++ image :: after)) (hperm : moved.Perm after)
include h hperm

theorem WellFormed.remove :
    WellFormed (before ++ moved) := by
  have hsub : (before ++ after).Sublist (before ++ image :: after) :=
    (List.Sublist.refl before).append (List.sublist_cons_self image after)
  constructor
  · intro x hx
    exact h.ranges x (hsub.mem ((mem_of_removed hperm).mp hx))
  · exact ((h.apart.sublist hsub).perm (hperm.symm.append_left before)) fun h => h.symm
  · intro x hx
    exact h.inside x (hsub.mem ((mem_of_removed hperm).mp hx))

/-- No address of the image that was taken out lies in another. -/
theorem WellFormed.not_contains_removed {address : ℕ} (hcontains : image.contains address = true) :
    ∀ x ∈ before ++ moved, x.contains address = false := by
  intro x hx
  by_contra hx'
  have hx' : x.contains address = true := by simpa using hx'
  have hapart : Apart image x := by
    have hpair := h.apart
    rw [List.pairwise_append, List.pairwise_cons] at hpair
    rcases List.mem_append.mp ((mem_of_removed hperm).mp hx) with hx | hx
    · exact (hpair.2.2 x hx image (by simp)).symm
    · exact hpair.2.1.1 x hx
  rw [contains_iff] at hcontains hx'
  rw [Apart] at hapart
  omega

end

end Removed

/-- **An image is gone.** What was used of it and not finalized is published by itself. -/
theorem State.Sound.quiesce (hsound : state.Sound) (hfinal : state.Finalizes start stop handles)
    (h : state.quiesce start stop handles = .Done state') : state'.Sound := by
  obtain ⟨hidle, _, image, _, _, himages, _, _, hperm, rfl⟩ :=
    quiesce_done h
  have hwell := hsound.images
  rw [himages] at hwell
  refine ⟨hwell.remove hperm, ?_⟩
  intro dso hdso huses
  rcases hsound.owned dso hdso huses with hpublished | ⟨other, hother, hhandle⟩
  · exact .inl hpublished
  by_cases hsame : other = image
  · -- the handle was not finalized, or it would not be used
    have hcontains := hwell.inside image (by simp) dso (hsame ▸ hhandle)
    rw [contains_iff] at hcontains
    exact .inl (hfinal.others dso (by omega) (by omega) (fun hin => hidle dso hin huses) huses)
  · refine .inr ⟨other, (mem_of_removed hperm).mpr ?_, hhandle⟩
    rw [himages] at hother
    simp only [List.mem_append, List.mem_cons, hsame, false_or] at hother ⊢
    exact hother

/-- Another image that is being finalized stays. -/
theorem State.Finalizes.quiesce {start' stop' : ℕ} {handles' : Finset ℕ}
    (hfinal : state.Finalizes start' stop' handles')
    (h : state.quiesce start stop handles = .Done state')
    (hother : ¬ (start' = start ∧ stop' = stop)) : state'.Finalizes start' stop' handles' := by
  obtain ⟨-, _, image, _, _, himages, hstart, hstop, hperm, rfl⟩ :=
    quiesce_done h
  obtain ⟨other, hmem, hstart', hstop', hflag⟩ := hfinal.image
  refine ⟨⟨other, (mem_of_removed hperm).mpr ?_, hstart', hstop', hflag⟩, hfinal.others⟩
  have hne : other ≠ image := by
    rintro rfl
    exact hother ⟨hstart'.symm.trans hstart, hstop'.symm.trans hstop⟩
  rw [himages] at hmem
  simp only [List.mem_append, List.mem_cons, hne, false_or] at hmem ⊢
  exact hmem

end Operations

/-! ## The scan of `take_latest_global` -/

/-- What a scan over the lifecycle's entries from `index` on leaves selected: what was, or an entry
of this lifecycle in its place; and nothing that was scanned has a greater sequence number. -/
theorem scan_spec (lifecycle : ℕ) (entries : List (Option Entry)) (index : ℕ)
    (selected : Option Selected) :
    (scan lifecycle index entries selected = selected ∨
      ∃ i entry, entries[i]? = some (some entry) ∧
        scan lifecycle index entries selected = some ⟨lifecycle, index + i, entry.sequence⟩) ∧
    (∀ best, selected = some best →
      ∃ best', scan lifecycle index entries selected = some best' ∧ best.sequence ≤ best'.sequence) ∧
    ∀ entry ∈ entries.filterMap id,
      ∃ best, scan lifecycle index entries selected = some best ∧ entry.sequence ≤ best.sequence := by
  induction entries generalizing index selected with
  | nil => exact ⟨.inl rfl, fun best hbest => ⟨best, hbest, Nat.le_refl _⟩, by simp⟩
  | cons slot _ ih =>
    cases slot with
    | none =>
      obtain ⟨hfrom, hold, hnew⟩ := ih (index + 1) selected
      rw [scan]
      refine ⟨hfrom.imp id ?_, hold, by simpa using hnew⟩
      rintro ⟨i, entry, hentry, hscan⟩
      refine ⟨i + 1, entry, by simpa using hentry, ?_⟩
      rw [hscan]
      congr 2
      omega
    | some entry =>
      by_cases hbetter : selected.all (fun best => decide (best.sequence < entry.sequence)) = true
      · obtain ⟨hfrom, hold, hnew⟩ := ih (index + 1) (some ⟨lifecycle, index, entry.sequence⟩)
        obtain ⟨best', hbest', hle⟩ := hold _ rfl
        rw [scan, if_pos hbetter]
        refine ⟨.inr ?_, ?_, ?_⟩
        · rcases hfrom with hkept | ⟨i, e, hentry, hscan⟩
          · exact ⟨0, entry, by simp, by rw [hkept]; rfl⟩
          · refine ⟨i + 1, e, by simpa using hentry, ?_⟩
            rw [hscan]
            congr 2
            omega
        · intro best hbest
          have hlt : best.sequence < entry.sequence := by simpa [hbest] using hbetter
          exact ⟨best', hbest', by simp only at hle; omega⟩
        · intro e he
          simp only [List.filterMap_cons, id, List.mem_cons] at he
          rcases he with rfl | he
          · exact ⟨best', hbest', hle⟩
          · exact hnew e he
      · obtain ⟨hfrom, hold, hnew⟩ := ih (index + 1) selected
        rw [scan, if_neg hbetter]
        refine ⟨hfrom.imp id ?_, hold, ?_⟩
        · rintro ⟨i, e, hentry, hscan⟩
          refine ⟨i + 1, e, by simpa using hentry, ?_⟩
          rw [hscan]
          congr 2
          omega
        · intro e he
          simp only [List.filterMap_cons, id, List.mem_cons] at he
          rcases he with rfl | he
          · cases hsel : selected with
            | none => simp [hsel] at hbetter
            | some best =>
              obtain ⟨best', hbest', hle⟩ := hold best hsel
              have hge : e.sequence ≤ best.sequence := by simpa [hsel] using hbetter
              exact ⟨best', hsel ▸ hbest', by omega⟩
          · exact hnew e he

end DarwinArt.Dso
