/-
Initializing and finalizing a graph: `LoadedElfGraph::initialize`, `GraphInner::finalize`, and the
states of one image in `initialization.rs` and `finalization.rs`.

An image's initializers are guarded by a compare-and-exchange, and the finalizers of an image, and
of the graph, by a swap. No lock is held while guest code runs, so calls may overlap and may be made
from inside an initializer. A caller here is one activation of `initialize` or `finalize`, and a
step is one access to the state of an image or of the graph.

All callers begin with the same first image, so only one of them gets past it. The invariant follows
that one: the images it has been through are complete, and they are the ones that were run at all.
-/
import DarwinArt.Lib.Run
import DarwinArt.Elf.GraphStaging

set_option autoImplicit false

namespace DarwinArt.Elf

open Lib

/-! ## One image -/

/-- The values 0 to 3 of `Initialization::state`. -/
inductive InitState
  | Fresh
  | Executing
  | Complete
  | Failed
deriving DecidableEq

/-- What guards the initializers and the finalizers of an image. -/
structure ImageState where
  state : InitState
  armed : Bool
  /-- The `Finalization` of the image. -/
  finalized : Bool
deriving DecidableEq

namespace ImageState

/-- `Initialization::default` and `Finalization::default`. -/
def new : ImageState := ⟨.Fresh, false, false⟩

/-- The compare-and-exchange of `Initialization::run`: `none` is `InitializersAlreadyRun`. -/
def begin_run (image : ImageState) : Option ImageState :=
  if image.state = .Fresh then some { image with state := .Executing } else none

/-- What `Initialization::run` stores when the initializers have returned. -/
def end_run (image : ImageState) (arm success : Bool) : ImageState :=
  if success then { image with armed := arm, state := .Complete }
  else { image with state := .Failed }

def arm_finalizers (image : ImageState) : ImageState := { image with armed := true }

/-- `finalize_once`: whether the finalizers are called, and the image afterwards. -/
def finalize_once (image : ImageState) : Bool × ImageState :=
  (!image.finalized && image.armed, { image with finalized := true })

end ImageState

/-! ## The graph -/

/-- Where a caller stands. The lists are the images it has yet to come to. -/
inductive Call
  | Idle
  | Initializing (rest : List ℕ)
  | Executing (index : ℕ) (rest : List ℕ)
  | Arming (rest : List ℕ)
  | Finalizing (rest : List ℕ)
deriving DecidableEq

structure GraphState where
  images : ℕ → ImageState
  /-- The `Finalization` of the graph. -/
  finalized : Bool
  call : ℕ → Call

namespace GraphState

def new : GraphState := ⟨fun _ => .new, false, fun _ => .Idle⟩

/-- A caller moves on. -/
def goto (s : GraphState) (c : ℕ) (call : Call) : GraphState :=
  { s with call := Function.update s.call c call }

/-- An image's state changes. -/
def set (s : GraphState) (index : ℕ) (image : ImageState) : GraphState :=
  { s with images := Function.update s.images index image }

end GraphState

open GraphState

/-- What a step shows. -/
inductive GraphEvent
  | Silent
  /-- The initializers of an image are started. -/
  | Ran (index : ℕ)
  /-- The graph's finalization comes to an image, and calls its finalizers or not. -/
  | Visited (index : ℕ) (called : Bool)
  /-- The graph's finalization has been through all images. -/
  | Finished
  /-- `initialize` returns. -/
  | Returned (success : Bool)
deriving DecidableEq

/-- The steps, where `order` is the graph's `drop_order`. -/
inductive GraphStep (order : List ℕ) : GraphState → GraphEvent → GraphState → Prop
  | begin_init (s : GraphState) (c : ℕ) : s.call c = .Idle →
      GraphStep order s .Silent (s.goto c (.Initializing order))
  /-- `validate_initializer_entries` fails. -/
  | invalid (s : GraphState) (c index : ℕ) (rest : List ℕ) :
      s.call c = .Initializing (index :: rest) →
      GraphStep order s (.Returned false) (s.goto c .Idle)
  | already_run (s : GraphState) (c index : ℕ) (rest : List ℕ) :
      s.call c = .Initializing (index :: rest) → (s.images index).begin_run = none →
      GraphStep order s (.Returned false) (s.goto c .Idle)
  | run (s : GraphState) (c index : ℕ) (rest : List ℕ) (image : ImageState) :
      s.call c = .Initializing (index :: rest) → (s.images index).begin_run = some image →
      GraphStep order s (.Ran index) ((s.set index image).goto c (.Executing index rest))
  | success (s : GraphState) (c index : ℕ) (rest : List ℕ) :
      s.call c = .Executing index rest →
      GraphStep order s .Silent
        ((s.set index ((s.images index).end_run false true)).goto c (.Initializing rest))
  | failure (s : GraphState) (c index : ℕ) (rest : List ℕ) :
      s.call c = .Executing index rest →
      GraphStep order s (.Returned false)
        ((s.set index ((s.images index).end_run false false)).goto c .Idle)
  | initialized (s : GraphState) (c : ℕ) : s.call c = .Initializing [] →
      GraphStep order s .Silent (s.goto c (.Arming order))
  | arm (s : GraphState) (c index : ℕ) (rest : List ℕ) : s.call c = .Arming (index :: rest) →
      GraphStep order s .Silent
        ((s.set index (s.images index).arm_finalizers).goto c (.Arming rest))
  | armed (s : GraphState) (c : ℕ) : s.call c = .Arming [] →
      GraphStep order s (.Returned true) (s.goto c .Idle)
  | finalize (s : GraphState) (c : ℕ) : s.call c = .Idle → s.finalized = false →
      GraphStep order s .Silent
        ({ s with finalized := true }.goto c (.Finalizing order.reverse))
  | finalize_again (s : GraphState) (c : ℕ) : s.call c = .Idle → s.finalized = true →
      GraphStep order s .Silent s
  | visit (s : GraphState) (c index : ℕ) (rest : List ℕ) :
      s.call c = .Finalizing (index :: rest) →
      GraphStep order s (.Visited index (s.images index).finalize_once.1)
        ((s.set index (s.images index).finalize_once.2).goto c (.Finalizing rest))
  | visited (s : GraphState) (c : ℕ) : s.call c = .Finalizing [] →
      GraphStep order s .Finished (s.goto c .Idle)
  /-- The owner of a mapping finalizes its image. -/
  | release (s : GraphState) (index : ℕ) :
      GraphStep order s .Silent (s.set index (s.images index).finalize_once.2)

/-- The images whose initializers have been started, in order. -/
def ran (es : List GraphEvent) : List ℕ :=
  es.filterMap fun
    | .Ran index => some index
    | _ => none

/-- The images that the graph's finalization has come to, in order. -/
def visits (es : List GraphEvent) : List ℕ :=
  es.filterMap fun
    | .Visited index _ => some index
    | _ => none

/-! ## Initialization -/

/-- What a caller's place says about the images. -/
def Placed (order started : List ℕ) (images : ℕ → ImageState) : Call → Prop
  | .Initializing rest => ∃ past, past ++ rest = order ∧
      (∀ j ∈ past, (images j).state = .Complete) ∧ (past = [] ∨ past = started)
  | .Executing index rest => ∃ past, past ++ index :: rest = order ∧
      (∀ j ∈ past, (images j).state = .Complete) ∧ started = past ++ [index] ∧
      (images index).state = .Executing
  | .Arming _ => ∀ j ∈ order, (images j).state = .Complete
  | _ => True

/-- A caller that has got past the first image. -/
def Call.running (order : List ℕ) : Call → Prop
  | .Initializing rest => rest ≠ order
  | .Executing _ _ => True
  | _ => False

/-- The invariant of initialization. -/
structure Initialized (order : List ℕ) (es : List GraphEvent) (s : GraphState) : Prop where
  in_order : ran es <+: order
  fresh : ∀ i, (s.images i).state = .Fresh ↔ i ∉ ran es
  placed : ∀ c, Placed order (ran es) s.images (s.call c)
  single : ∀ c c', (s.call c).running order → (s.call c').running order → c = c'
  armed : ∀ i, (s.images i).armed = true → ∀ j ∈ order, (s.images j).state = .Complete

section Steps

variable {order : List ℕ} {es : List GraphEvent} {s s' : GraphState} {event : GraphEvent}
  {rest : List ℕ}

@[simp] theorem GraphState.goto_call_self (s : GraphState) (c : ℕ) (call : Call) :
    (s.goto c call).call c = call := by
  simp [goto]

variable {c index : ℕ} {image : ImageState}

theorem GraphState.goto_call_of_ne (s : GraphState) {c' : ℕ} (call : Call) (h : c' ≠ c) :
    (s.goto c call).call c' = s.call c' := by
  simp [goto, h]

@[simp] theorem GraphState.set_images_self (s : GraphState) (i : ℕ) (image : ImageState) :
    (s.set i image).images i = image := by
  simp [set]

theorem GraphState.set_images_of_ne (s : GraphState) {i j : ℕ} (image : ImageState) (h : j ≠ i) :
    (s.set i image).images j = s.images j := by
  simp [set, h]

theorem ran_append (h : ∀ i, event ≠ .Ran i) : ran (es ++ [event]) = ran es := by
  cases event <;> simp_all [ran]

/-- A caller that is not past the first image stays where it is while another goes on. -/
theorem Placed.aside {started started' : List ℕ} {images images' : ℕ → ImageState} {call : Call}
    (h : Placed order started images call) (hidle : ¬ call.running order)
    (hkeep : ∀ j, (images j).state = .Complete → (images' j).state = .Complete) :
    Placed order started' images' call := by
  cases call with
  | Initializing rest =>
    obtain rfl : rest = order := by simpa [Call.running] using hidle
    exact ⟨[], rfl, by simp, .inl rfl⟩
  | Executing => exact absurd trivial hidle
  | Arming => exact fun j hj => hkeep j (h j hj)
  | Idle => trivial
  | Finalizing => trivial

/-- What a place says stays true when no state changes. -/
theorem Placed.congr {started : List ℕ} {images images' : ℕ → ImageState} {call : Call}
    (hstate : ∀ j, (images' j).state = (images j).state) (h : Placed order started images call) :
    Placed order started images' call := by
  cases call with
  | Idle => trivial
  | Finalizing => trivial
  | _ => simpa only [Placed, hstate] using h

/-- A step that starts no initializers and changes no image's state. -/
theorem Initialized.move (h : Initialized order es s) (hevent : ∀ i, event ≠ .Ran i)
    (hcalls : ∀ c', c' ≠ c → s'.call c' = s.call c')
    (hstate : ∀ j, (s'.images j).state = (s.images j).state)
    (hplaced : Placed order (ran es) s.images (s'.call c))
    (hrunning : (s'.call c).running order → (s.call c).running order)
    (harmed : ∀ i, (s'.images i).armed = true →
      (s.images i).armed = true ∨ ∀ j ∈ order, (s.images j).state = .Complete) :
    Initialized order (es ++ [event]) s' := by
  have hran : ran (es ++ [event]) = ran es := ran_append hevent
  have hrun : ∀ c', (s'.call c').running order → (s.call c').running order := by
    intro c' hc'
    rcases eq_or_ne c' c with rfl | hcc
    · exact hrunning hc'
    · exact hcalls c' hcc ▸ hc'
  constructor
  · rw [hran]
    exact h.in_order
  · intro i
    rw [hran, hstate]
    exact h.fresh i
  · intro c'
    rw [hran]
    rcases eq_or_ne c' c with rfl | hcc
    · exact hplaced.congr hstate
    · rw [hcalls c' hcc]
      exact (h.placed c').congr hstate
  · intro c₁ c₂ h₁ h₂
    exact h.single c₁ c₂ (hrun c₁ h₁) (hrun c₂ h₂)
  · intro i hi j hj
    rw [hstate]
    rcases harmed i hi with hold | hall
    · exact h.armed i hold j hj
    · exact hall j hj

/-- **An image's initializers are started.** It is the next of the order: its caller has been
through everything that was started, and if that was nothing, this is the first image. -/
theorem Initialized.run (h : Initialized order es s)
    (hcall : s.call c = .Initializing (index :: rest))
    (hbegin : (s.images index).begin_run = some image) :
    Initialized order (es ++ [.Ran index])
      ((s.set index image).goto c (.Executing index rest)) := by
  have hran : ran (es ++ [.Ran index]) = ran es ++ [index] := by simp [ran]
  have hfresh : (s.images index).state = .Fresh := by
    by_contra hne
    simp [ImageState.begin_run, hne] at hbegin
  have himage : image = { s.images index with state := .Executing } := by
    simpa [ImageState.begin_run, hfresh] using hbegin.symm
  have hnew : index ∉ ran es := (h.fresh index).mp hfresh
  have hplace := h.placed c
  rw [hcall] at hplace
  obtain ⟨past, hpast, hcomplete, hstarted⟩ := hplace
  have hpast_eq : past = ran es := by
    rcases hstarted with rfl | heq
    · -- the first image has not been started, so none has
      obtain ⟨more, hmore⟩ := h.in_order
      cases hes : ran es with
      | nil => rfl
      | cons =>
        rw [hes, ← hpast] at hmore
        simp only [List.nil_append, List.cons_append, List.cons.injEq] at hmore
        exact absurd (by rw [hes, hmore.1]; exact List.mem_cons_self) hnew
    · exact heq
  have hother : ∀ j, (s.images j).state = .Complete → j ≠ index := by
    rintro j hj rfl
    rw [hfresh] at hj
    cases hj
  -- a second caller past the first image would be this one
  have halone : ∀ c', c' ≠ c → ¬ (s.call c').running order := by
    intro c' hne hrun
    by_cases hnil : past = []
    · have hempty : ran es = [] := hpast_eq.symm.trans hnil
      have hplace' := h.placed c'
      cases hcall' : s.call c' with
      | Initializing =>
        rw [hcall'] at hplace' hrun
        obtain ⟨past', hpast', -, hor⟩ := hplace'
        have : past' = [] := by
          rcases hor with h' | h'
          · exact h'
          · exact h'.trans hempty
        rw [this] at hpast'
        exact hrun hpast'
      | Executing =>
        rw [hcall'] at hplace'
        obtain ⟨past', -, -, hstart, -⟩ := hplace'
        rw [hempty] at hstart
        simp at hstart
      | _ => rw [hcall'] at hrun; exact hrun
    · refine hne (h.single c' c hrun ?_)
      rw [hcall]
      intro heq
      have hlen := congrArg List.length (hpast.trans heq.symm)
      rw [List.length_append] at hlen
      have := List.length_pos_of_ne_nil hnil
      omega
  constructor
  · rw [hran, ← hpast_eq]
    exact ⟨rest, by simpa using hpast⟩
  · intro i
    rw [hran, List.mem_append, List.mem_singleton, not_or]
    rcases eq_or_ne i index with rfl | hi
    · simp [goto, himage]
    · simp only [goto, set_images_of_ne s image hi, hi, not_false_eq_true,
        and_true]
      exact h.fresh i
  · intro c'
    rcases eq_or_ne c' c with rfl | hc
    · rw [goto_call_self]
      refine ⟨past, hpast, ?_, by rw [hran, hpast_eq], ?_⟩
      · intro j hj
        have hj' := hcomplete j hj
        simp only [goto, set_images_of_ne s image (hother j hj')]
        exact hj'
      · simp [goto, himage]
    · rw [goto_call_of_ne _ _ hc]
      refine (h.placed c').aside (halone c' hc) fun j hj => ?_
      simp only [goto, set_images_of_ne s image (hother j hj)]
      exact hj
  · intro c₁ c₂ h₁ h₂
    have honly : ∀ c', (((s.set index image).goto c (.Executing index rest)).call c').running order →
        c' = c := by
      intro c' hc'
      by_contra hne
      rw [goto_call_of_ne _ _ hne] at hc'
      exact halone c' hne hc'
    rw [honly c₁ h₁, honly c₂ h₂]
  · intro i hi j hj
    -- something armed would mean that every image, this one too, is complete
    have harmed : (s.images i).armed = true := by
      rcases eq_or_ne i index with rfl | hii
      · simpa [goto, himage] using hi
      · simpa [goto, set_images_of_ne s image hii] using hi
    have hin : index ∈ order := by rw [← hpast]; simp
    exact absurd rfl (hother index (h.armed i harmed index hin))

/-- **The initializers return.** Whatever was complete stays so; the caller goes on or gives up. -/
theorem Initialized.end_run (h : Initialized order es s) (hevent : ∀ i, event ≠ .Ran i)
    {next : Call} {success : Bool} (hcall : s.call c = .Executing index rest)
    (hnext : next = if success then .Initializing rest else .Idle) :
    Initialized order (es ++ [event])
      ((s.set index ((s.images index).end_run false success)).goto c next) := by
  have hran : ran (es ++ [event]) = ran es := ran_append hevent
  have hplace := h.placed c
  rw [hcall] at hplace
  obtain ⟨past, hpast, hcomplete, hstarted, hexecuting⟩ := hplace
  have hother : ∀ j, (s.images j).state = .Complete → j ≠ index := by
    rintro j hj rfl
    rw [hexecuting] at hj
    cases hj
  have hrunning : (s.call c).running order := by rw [hcall]; trivial
  set s' := (s.set index ((s.images index).end_run false success)).goto c next with hs'
  have hcalls : ∀ c', c' ≠ c → s'.call c' = s.call c' := fun c' hc =>
    goto_call_of_ne _ _ hc
  have himages : ∀ j, j ≠ index → s'.images j = s.images j := fun j hj =>
    set_images_of_ne s _ hj
  have himage : s'.images index = (s.images index).end_run false success :=
    set_images_self s _ _
  have hkeep : ∀ j, (s.images j).state = .Complete → (s'.images j).state = .Complete := by
    intro j hj
    rwa [himages j (hother j hj)]
  have honly : ∀ c', (s'.call c').running order → c' = c := by
    intro c' hc'
    by_contra hne
    rw [hcalls c' hne] at hc'
    exact hne (h.single c' c hc' hrunning)
  have hin : index ∈ order := by rw [← hpast]; simp
  constructor
  · rw [hran]
    exact h.in_order
  · intro i
    rw [hran]
    by_cases hi : i = index
    · rw [hi, himage]
      have hmem : index ∈ ran es := by rw [hstarted]; simp
      cases success <;> simp [ImageState.end_run, hmem]
    · rw [himages i hi]
      exact h.fresh i
  · intro c'
    rw [hran]
    rcases eq_or_ne c' c with rfl | hc
    · have hcall' : s'.call c' = next := goto_call_self _ _ _
      rw [hcall', hnext]
      cases success with
      | false => trivial
      | true =>
        refine ⟨past ++ [index], by simpa using hpast, ?_, .inr hstarted.symm⟩
        intro j hj
        rcases List.mem_append.mp hj with hj | hj
        · exact hkeep j (hcomplete j hj)
        · rw [List.mem_singleton.mp hj, himage]
          rfl
    · rw [hcalls c' hc]
      exact (h.placed c').aside (fun hrun => hc (h.single c' c hrun hrunning)) hkeep
  · intro c₁ c₂ h₁ h₂
    rw [honly c₁ h₁, honly c₂ h₂]
  · intro i hi j hj
    have harmed : (s.images i).armed = true := by
      by_cases hii : i = index
      · rw [hii, himage] at hi
        cases success with
        | false => exact hii ▸ hi
        | true => simp [ImageState.end_run] at hi
      · rwa [himages i hii] at hi
    exact absurd rfl (hother index (h.armed i harmed index hin))

theorem set_state_eq (h : image.state = (s.images index).state)
    (j : ℕ) : ((s.set index image).images j).state = (s.images j).state := by
  by_cases hj : j = index
  · rw [hj, set_images_self, h]
  · rw [set_images_of_ne s image hj]

theorem set_armed {P : Prop} (hP : image.armed = true →
    (s.images index).armed = true ∨ P) (i : ℕ) (hi : ((s.set index image).images i).armed = true) :
    (s.images i).armed = true ∨ P := by
  by_cases hii : i = index
  · rw [hii, set_images_self] at hi
    rw [hii]
    exact hP hi
  · rw [set_images_of_ne s image hii] at hi
    exact .inl hi

theorem Initialized.step (h : Initialized order es s) (hs : GraphStep order s event s') :
    Initialized order (es ++ [event]) s' := by
  cases hs with
  | begin_init =>
    refine h.move (by simp) (fun c' hc => goto_call_of_ne _ _ hc) (fun _ => rfl) ?_ ?_
      (fun i hi => .inl hi) <;> rw [goto_call_self]
    · exact ⟨[], rfl, by simp, .inl rfl⟩
    · simp [Call.running]
  | invalid | already_run | armed | finalize | visited =>
    exact h.move (by simp) (fun c' hc => goto_call_of_ne _ _ hc) (fun _ => rfl)
      (by rw [goto_call_self]; trivial) (by simp [Call.running]) (fun i hi => .inl hi)
  | run _ _ _ _ hcall hbegin => exact h.run hcall hbegin
  | success _ _ _ hcall | failure _ _ _ hcall => exact h.end_run (by simp) hcall rfl
  | initialized c hcall =>
    have hplace := h.placed c
    rw [hcall] at hplace
    obtain ⟨past, hpast, hcomplete, -⟩ := hplace
    rw [List.append_nil] at hpast
    refine h.move (by simp) (fun c' hc => goto_call_of_ne _ _ hc) (fun _ => rfl) ?_
      (by simp [Call.running]) (fun i hi => .inl hi)
    rw [goto_call_self]
    exact fun j hj => hcomplete j (hpast ▸ hj)
  | arm c _ _ hcall =>
    have hplace := h.placed c
    rw [hcall] at hplace
    refine h.move (by simp) (fun c' hc => goto_call_of_ne _ _ hc) (set_state_eq rfl) ?_
      (by simp [Call.running]) (set_armed fun _ => .inr hplace)
    rwa [goto_call_self]
  | finalize_again c =>
    exact h.move (by simp) (fun _ _ => rfl) (fun _ => rfl) (h.placed c) id (fun i hi => .inl hi)
  | visit =>
    exact h.move (by simp) (fun c' hc => goto_call_of_ne _ _ hc) (set_state_eq rfl)
      (by rw [goto_call_self]; trivial) (by simp [Call.running]) (set_armed .inl)
  | release =>
    exact h.move (c := 0) (by simp) (fun _ _ => rfl) (set_state_eq rfl) (h.placed 0) id
      (set_armed .inl)

end Steps

theorem initialized_new (order : List ℕ) : Initialized order [] .new := by
  constructor <;> simp [ran, new, ImageState.new, Placed, Call.running]

/-! ## Finalization -/

/-- The graph's finalization is done by one caller, who goes through the reversed order. -/
structure Finalized (order : List ℕ) (es : List GraphEvent) (s : GraphState) : Prop where
  in_order : visits es <+: order.reverse
  finished : .Finished ∈ es → visits es = order.reverse
  unstarted : s.finalized = false → visits es = [] ∧ ∀ c rest, s.call c ≠ .Finalizing rest
  rest : ∀ c rest, s.call c = .Finalizing rest → visits es ++ rest = order.reverse
  single : ∀ c c' rest rest', s.call c = .Finalizing rest → s.call c' = .Finalizing rest' → c = c'

section Teardown

variable {order : List ℕ} {es : List GraphEvent} {s s' : GraphState} {event : GraphEvent}

theorem visits_append (h : ∀ i called, event ≠ .Visited i called) :
    visits (es ++ [event]) = visits es := by
  cases event <;> simp_all [visits]

/-- A step that is not the finalization's. -/
theorem Finalized.move (h : Finalized order es s) (hevent : ∀ i called, event ≠ .Visited i called)
    (hfinished : event = .Finished → visits es = order.reverse)
    (hfinalized : s'.finalized = s.finalized)
    (hcalls : ∀ c rest, s'.call c = .Finalizing rest → s.call c = .Finalizing rest) :
    Finalized order (es ++ [event]) s' := by
  constructor
  · rw [visits_append hevent]
    exact h.in_order
  · intro hmem
    rw [visits_append hevent]
    rcases mem_snoc hmem with hmem | hmem
    · exact h.finished hmem
    · exact hfinished hmem.symm
  · intro hno
    rw [visits_append hevent]
    obtain ⟨hnil, hnone⟩ := h.unstarted (hfinalized ▸ hno)
    exact ⟨hnil, fun c rest hc => hnone c rest (hcalls c rest hc)⟩
  · intro c rest hc
    rw [visits_append hevent]
    exact h.rest c rest (hcalls c rest hc)
  · intro c c' rest rest' hc hc'
    exact h.single c c' rest rest' (hcalls c rest hc) (hcalls c' rest' hc')

/-- A caller that goes somewhere else than on with the finalization. -/
theorem calls_of_goto {c : ℕ} {call : Call} {t : GraphState} (ht : t.call = s.call)
    (hcall : ∀ rest, call ≠ .Finalizing rest) (c' : ℕ) (rest : List ℕ)
    (h : (t.goto c call).call c' = .Finalizing rest) : s.call c' = .Finalizing rest := by
  by_cases hc : c' = c
  · rw [hc, goto_call_self] at h
    exact absurd h (hcall rest)
  · rwa [goto_call_of_ne _ _ hc, ht] at h

theorem Finalized.step (h : Finalized order es s) (hs : GraphStep order s event s') :
    Finalized order (es ++ [event]) s' := by
  cases hs with
  | begin_init | invalid | already_run | run | success | failure | initialized | arm | armed =>
    exact h.move (by simp) (by simp) rfl (calls_of_goto rfl (by simp))
  | visited c hcall =>
    have hall := h.rest c _ hcall
    rw [List.append_nil] at hall
    exact h.move (by simp) (fun _ => hall) rfl (calls_of_goto rfl (by simp))
  | finalize_again | release => exact h.move (by simp) (by simp) rfl fun _ _ hc => hc
  | finalize c _ hno =>
    obtain ⟨hnil, hnone⟩ := h.unstarted hno
    have hvisits : visits (es ++ [.Silent]) = [] := (visits_append (by simp)).trans hnil
    have honly : ∀ c' rest, (goto { s with finalized := true } c
        (.Finalizing order.reverse)).call c' = .Finalizing rest → c' = c ∧ rest = order.reverse := by
      intro c' rest hc'
      by_cases hcc : c' = c
      · rw [hcc, goto_call_self] at hc'
        exact ⟨hcc, (Call.Finalizing.inj hc').symm⟩
      · rw [goto_call_of_ne _ _ hcc] at hc'
        exact absurd hc' (hnone c' rest)
    constructor
    · rw [hvisits]
      exact List.nil_prefix
    · intro hmem
      rw [hvisits, ← h.finished (by simpa using hmem), hnil]
    · intro hno'
      exact absurd hno' (by simp [goto])
    · intro c' rest hc'
      rw [hvisits, (honly c' rest hc').2]
      rfl
    · intro c₁ c₂ rest₁ rest₂ h₁ h₂
      rw [(honly c₁ rest₁ h₁).1, (honly c₂ rest₂ h₂).1]
  | visit c index rest hcall =>
    have hvisits : visits (es ++ [.Visited index (s.images index).finalize_once.1]) =
        visits es ++ [index] := by simp [visits]
    have hrest := h.rest c _ hcall
    have honly : ∀ c' rest', ((s.set index (s.images index).finalize_once.2).goto c
        (.Finalizing rest)).call c' = .Finalizing rest' → c' = c ∧ rest' = rest := by
      intro c' rest' hc'
      by_cases hcc : c' = c
      · rw [hcc, goto_call_self] at hc'
        exact ⟨hcc, (Call.Finalizing.inj hc').symm⟩
      · rw [goto_call_of_ne _ _ hcc] at hc'
        exact absurd (h.single c' c _ _ hc' hcall) hcc
    constructor
    · rw [hvisits]
      exact ⟨rest, by simpa using hrest⟩
    · -- a finalization that has finished has nothing left to visit
      intro hmem
      have hall := h.finished (by simpa using hmem)
      rw [hall] at hrest
      simp at hrest
    · intro hno
      exact absurd hcall ((h.unstarted hno).2 c _)
    · intro c' rest' hc'
      rw [hvisits, (honly c' rest' hc').2]
      simpa using hrest
    · intro c₁ c₂ rest₁ rest₂ h₁ h₂
      rw [(honly c₁ rest₁ h₁).1, (honly c₂ rest₂ h₂).1]

end Teardown

theorem finalized_new (order : List ℕ) : Finalized order [] .new := by
  constructor <;> simp [visits, new]

/-! ## The whole life of a graph -/

section Life

variable {B ε : Type} {stage : B → Except ε Staged} {sources : Map String B}
  {providers : Finset String} {root : String} {b : GraphBuilder} {es : List GraphEvent}
  {order : List ℕ}

theorem run_initialized {s : GraphState}
    (hrun : Run (GraphStep order) .new es s) : Initialized order es s :=
  hrun.history (Initialized order) (initialized_new order) fun _ _ _ _ _ h hs => h.step hs

theorem run_finalized {s : GraphState}
    (hrun : Run (GraphStep order) .new es s) : Finalized order es s :=
  hrun.history (Finalized order) (finalized_new order) fun _ _ _ _ _ h hs => h.step hs

/-- A successful `initialize` has run all images: at its return they are complete, so none of them
is fresh. -/
theorem ran_of_returned {s : GraphState} (hrun : Run (GraphStep order) .new es s)
    (horder : order.Nodup) (hret : .Returned true ∈ es) : ran es = order := by
  have hinit := run_initialized hrun
  obtain ⟨es₁, es₂, rfl⟩ := List.append_of_mem hret
  obtain ⟨t, _, hbefore, hstep⟩ := hrun.at_label
  have hthen := run_initialized hbefore
  have hcomplete : ∀ i ∈ order, (t.images i).state = .Complete := by
    cases hstep with
    | armed c hcall =>
      have hplace := hthen.placed c
      rwa [hcall] at hplace
  have hsub : order ⊆ ran (es₁ ++ .Returned true :: es₂) := by
    intro i hi
    have hran : i ∈ ran es₁ := by
      by_contra hnot
      have hfresh := (hthen.fresh i).mpr hnot
      rw [hcomplete i hi] at hfresh
      cases hfresh
    rw [ran, List.filterMap_append]
    exact List.mem_append_left _ hran
  exact hinit.in_order.eq_of_length_le (List.Nodup.subperm horder hsub).length_le

/-- A visit calls the finalizers of what is armed and not finalized by its owner. -/
theorem called_iff {i : ℕ} {called : Bool} {fs : List GraphEvent} {s : GraphState}
    (hrun : Run (GraphStep order) .new (es ++ .Visited i called :: fs) s) :
    ∃ t, Run (GraphStep order) .new es t ∧
      (called = true ↔ (t.images i).armed = true ∧ (t.images i).finalized = false) := by
  obtain ⟨t, _, hbefore, hstep⟩ := hrun.at_label
  cases hstep with
  | visit => exact ⟨t, hbefore, by simp [ImageState.finalize_once, and_comm]⟩

/-- **Construction and teardown of a graph.** When the staging of a root succeeds, what is staged is
what the root reaches through libraries that are not provided, each once; a library comes after what
it needs, unless that reaches it; the teardown order is the reverse. In every run of calls, from any
number of callers, initializers are started in the initialization order, at most once for an image
and all of them when `initialize` succeeds; nothing is armed before every image is complete.
Finalization goes through the reverse order, to its end when it finishes, and calls the finalizers
of each image that is armed when it comes to it and not finalized by its owner. -/
theorem graph_construction_and_teardown
    (h : GraphBuilder.stage_graph stage sources providers root = .ok b) :
    (b.sonames.Nodup ∧ ∀ name, name ∈ b.sonames ↔
      name ∉ providers ∧ GraphBuilder.Reaches stage sources providers root name) ∧
    (b.initialization_order.Nodup ∧
      ∀ name, name ∈ b.initialization_order ↔ name ∈ b.sonames) ∧
    (∀ a ∈ b.sonames, ∀ c ∈ b.sonames, GraphBuilder.Needs stage sources a c →
      ¬ GraphBuilder.Reaches stage sources providers c a →
      [c, a].Sublist b.initialization_order) ∧
    b.unload_order = b.initialization_order.reverse ∧
    ∀ es s, Run (GraphStep b.dependency_order) .new es s →
      (ran es <+: b.dependency_order ∧ (ran es).Nodup) ∧
      (.Returned true ∈ es → ran es = b.dependency_order) ∧
      (∀ i, (s.images i).armed = true →
        ∀ j ∈ b.dependency_order, (s.images j).state = .Complete) ∧
      visits es <+: b.dependency_order.reverse ∧
      (.Finished ∈ es → visits es = b.dependency_order.reverse) ∧
      ∀ es₁ i called es₂, es = es₁ ++ .Visited i called :: es₂ →
        ∃ t, Run (GraphStep b.dependency_order) .new es₁ t ∧
          (called = true ↔ (t.images i).armed = true ∧ (t.images i).finalized = false) := by
  obtain ⟨hroot, done, hgood, hstack, hreach⟩ := GraphBuilder.stage_graph_good h
  have hdone : ∀ name, name ∈ done ↔ name ∈ b.sonames := by
    intro name
    rw [hgood.staged, hstack]
    simp
  have hfree : ∀ name, GraphBuilder.Reaches stage sources providers root name →
      name ∉ providers := by
    intro name hname
    rcases hname.cases_tail with rfl | ⟨a, -, hedge⟩
    · exact hroot
    · exact hedge.2
  rw [hgood.names_eq]
  refine ⟨⟨hgood.nodup_sonames, ?_⟩, ⟨hgood.nodup, hdone⟩, ?_, ?_, ?_⟩
  · intro name
    rw [hreach name]
    exact ⟨fun hname => ⟨hfree name hname, hname⟩, fun hname => hname.2⟩
  · intro a ha c hc hneeds hnot
    have hedge : GraphBuilder.Edge stage sources providers a c :=
      ⟨hneeds, hfree c ((hreach c).mp hc)⟩
    rcases hgood.ordered a ((hdone a).mpr ha) c hedge with hbefore | hback
    · exact hbefore
    · exact absurd hback hnot
  · rw [← hgood.names_eq]
    exact List.filterMap_reverse
  · intro es s hrun
    have hinit := run_initialized hrun
    have hfinal := run_finalized hrun
    have horder := hgood.nodup_dependency_order
    refine ⟨⟨hinit.in_order, horder.sublist hinit.in_order.sublist⟩, ran_of_returned hrun horder,
      hinit.armed, hfinal.in_order, hfinal.finished, ?_⟩
    rintro es₁ i called es₂ rfl
    exact called_iff hrun

end Life

/-- Cycles, and two paths to `base`: `app` needs `left` and `base`, `left` needs `base` and `app`
again, and `base` needs itself and a library that is provided. -/
def cyclic_sources : Map String Staged :=
  Std.ExtTreeMap.ofList [("app", ⟨some "app", ["left", "base"]⟩), ("left", ⟨none, ["base", "app"]⟩),
    ("base", ⟨some "base", ["base", "libc"]⟩), ("unused", ⟨none, []⟩)] compare

/-- The images are given parsed. -/
def stage_parsed (staged : Staged) : Except String Staged := .ok staged

/-- The cyclic graph is initialized and finalized. -/
def cyclic_life : List GraphEvent :=
  [.Silent, .Ran 2, .Silent, .Ran 1, .Silent, .Ran 0, .Silent, .Silent, .Silent, .Silent, .Silent,
    .Returned true, .Silent, .Visited 0 true, .Visited 1 true, .Visited 2 true, .Finished]

/-- The cyclic graph is staged, `base` before everything, and runs as every graph does. -/
theorem cyclic_graph_life :
    ∃ b s, GraphBuilder.stage_graph stage_parsed cyclic_sources {"libc"} "app" = .ok b ∧
      b.initialization_order = ["base", "left", "app"] ∧ b.sonames.Nodup ∧
      Run (GraphStep b.dependency_order) .new cyclic_life s ∧
      ran cyclic_life = b.dependency_order ∧ visits cyclic_life = b.dependency_order.reverse := by
  have hvalue : (GraphBuilder.stage_graph stage_parsed cyclic_sources {"libc"} "app").toOption.map
      (fun b => (b.initialization_order, b.dependency_order)) =
        some (["base", "left", "app"], [2, 1, 0]) := by
    decide +kernel
  obtain ⟨b, hb, horder⟩ := Option.map_eq_some_iff.mp hvalue
  obtain ⟨hnames, hindices⟩ := Prod.mk.inj horder
  have hok : GraphBuilder.stage_graph stage_parsed cyclic_sources {"libc"} "app" = .ok b := by
    cases hstage : GraphBuilder.stage_graph stage_parsed cyclic_sources {"libc"} "app" with
    | error =>
      rw [hstage] at hb
      cases hb
    | ok =>
      rw [hstage] at hb
      rw [Option.some.inj hb]
  have hrun : ∃ s, Run (GraphStep b.dependency_order) .new cyclic_life s := by
    rw [hindices]
    refine Run.exists_cons (.begin_init _ 0 rfl) ?_
    refine Run.exists_cons (.run _ 0 2 _ _ rfl rfl) (Run.exists_cons (.success _ 0 2 _ rfl) ?_)
    refine Run.exists_cons (.run _ 0 1 _ _ rfl rfl) (Run.exists_cons (.success _ 0 1 _ rfl) ?_)
    refine Run.exists_cons (.run _ 0 0 _ _ rfl rfl) (Run.exists_cons (.success _ 0 0 _ rfl) ?_)
    refine Run.exists_cons (.initialized _ 0 rfl) (Run.exists_cons (.arm _ 0 2 _ rfl) ?_)
    refine Run.exists_cons (.arm _ 0 1 _ rfl) (Run.exists_cons (.arm _ 0 0 _ rfl) ?_)
    refine Run.exists_cons (.armed _ 0 rfl) (Run.exists_cons (.finalize _ 0 rfl rfl) ?_)
    refine Run.exists_cons (.visit _ 0 0 _ rfl) (Run.exists_cons (.visit _ 0 1 _ rfl) ?_)
    exact Run.exists_cons (.visit _ 0 2 _ rfl) ⟨_, Run.single (.visited _ 0 rfl)⟩
  obtain ⟨s, hrun⟩ := hrun
  have hlife := graph_construction_and_teardown hok
  obtain ⟨-, hreturned, -, -, hfinished, -⟩ := hlife.2.2.2.2 _ _ hrun
  exact ⟨b, s, hok, hnames, hlife.1.1, hrun, hreturned (by decide), hfinished (by decide)⟩

end DarwinArt.Elf
