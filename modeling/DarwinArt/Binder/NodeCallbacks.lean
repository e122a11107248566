/-
What an owner is told about a node, over a whole run.

The owner acts on the records it reads: it takes and gives back a weak and a strong
reference to its object, and says when it has taken one. Seen from there a node is a
sequence of `Callback`s, the records published for it and the moments at which it became
the context manager's. `owner_callbacks` says what the owner can rely on: the sequence is
one that its automaton accepts, nothing is given back that is still wanted, and each
request is acknowledged once.

The state of a node says where the automaton stands (`Told`); the local counters are the
holds that exist (`Holds`), and the table counters the tables that refer to the node
(`Counted`).
-/
import DarwinArt.Binder.ReferenceCounts

set_option autoImplicit false

namespace DarwinArt.Binder

open Lib

open NodeWork Heap

open ReferenceTable

/-! ## Callbacks -/

/-- What an owner learns about a node. -/
inductive Callback
  | Record (record : Notification)
  /-- The node became the context manager's: both references count as taken. -/
  | Marked
deriving DecidableEq

/-- The owner's references after a callback, if it can act on it. -/
def Held.observe (held : NodeWork.Held) : Callback → Option NodeWork.Held
  | .Record record => held.follow record
  | .Marked => some ⟨true, true⟩

/-- A sequence of callbacks. -/
def Held.observe_all (held : NodeWork.Held) (callbacks : List Callback) : Option NodeWork.Held :=
  callbacks.foldlM Held.observe held

/-- The record that asks for a reference. -/
def Strength.request : Strength → Notification
  | .Strong => .Acquire
  | .Weak => .Increfs

/-- A request is yet to be acknowledged. -/
def NodeWork.pending (work : NodeWork) : Strength → Bool
  | .Strong => work.pending_strong
  | .Weak => work.pending_weak

theorem observe_all_append (held : NodeWork.Held) (callbacks callbacks' : List Callback) :
    Held.observe_all held (callbacks ++ callbacks') =
      (Held.observe_all held callbacks).bind fun held => Held.observe_all held callbacks' := by
  unfold Held.observe_all
  rw [List.foldlM_append]
  rfl

/-- Records alone are what the owner's automaton reads. -/
theorem observe_all_records (held : NodeWork.Held) (records : List Notification) :
    Held.observe_all held (records.map .Record) = held.follow_all records := by
  unfold Held.observe_all NodeWork.Held.follow_all
  rw [List.foldlM_map]
  rfl

/-- An acknowledgement is accepted just when a request is pending, and settles that one. -/
theorem NodeWork.acknowledge_eq_some {work work' : NodeWork} {strength : Strength}
    (h : work.acknowledge strength = some work') :
    work.pending strength = true ∧ work'.held = work.held ∧
      ∀ strength', (work'.pending strength').toNat + (decide (strength' = strength)).toNat =
        (work.pending strength').toNat := by
  cases strength with
  | Strong =>
    obtain ⟨hpending, hwork⟩ := Option.ite_none_right_eq_some.mp h
    cases hwork
    refine ⟨hpending, rfl, fun strength' => ?_⟩
    cases strength' with
    | Strong => simp [pending, hpending]
    | Weak => simp [pending]
  | Weak =>
    obtain ⟨hpending, hwork⟩ := Option.ite_none_right_eq_some.mp h
    cases hwork
    refine ⟨hpending, rfl, fun strength' => ?_⟩
    cases strength' with
    | Strong => simp [pending]
    | Weak => simp [pending, hpending]

theorem NodeWork.acknowledge_isSome (work : NodeWork) (strength : Strength) :
    (work.acknowledge strength).isSome = work.pending strength := by
  cases strength with
  | Strong =>
    unfold acknowledge pending
    cases work.pending_strong <;> rfl
  | Weak =>
    unfold acknowledge pending
    cases work.pending_weak <;> rfl

/-- Each request is pending from its publication on. -/
theorem NodeWork.prepare_pending {work : NodeWork} (demand : Demand) (h : work.Wf)
    (strength : Strength) :
    ((work.prepare demand).next.pending strength).toNat = (work.pending strength).toNat +
      (work.prepare demand).notifications.count strength.request := by
  cases strength with
  | Strong => exact prepare_pending_strong h
  | Weak => exact prepare_pending_weak h

namespace System

/-! ## What an event tells the owner -/

/-- The callbacks of an operation, for one node. -/
def callbacks_of (key : NodeKey) (op : Op) : Except Failure Reply → List Callback
  | .ok (.Published node published) =>
    if node = key then published.commands.map .Record else []
  | .ok .Done =>
    match op with
    | .acquire_context_manager_refs _ node => if node = key then [.Marked] else []
    | _ => []
  | _ => []

section

variable (key : NodeKey) (strength : Strength)

/-- The operation is an acknowledgement for the node, and was accepted. -/
def accepts (op : Op) (result : Except Failure Reply) : Bool :=
  match op, result with
  | .acknowledge owner pointer _ strength', .ok .Done =>
    owner = key.owner ∧ pointer = key.pointer ∧ strength' = strength
  | _, _ => false

/-- The callbacks of a run, for one node. -/
def callbacks (es : List Event) : List Callback :=
  es.flatMap fun e => match e.result with
    | none => []
    | some result => callbacks_of key e.op result

/-- How often a request was published for a node. -/
def requested (es : List Event) : ℕ :=
  (callbacks key es).count (.Record strength.request)

/-- How many acknowledgements were accepted for a node. -/
def acknowledged (es : List Event) : ℕ :=
  es.countP fun e => match e.result with
    | none => false
    | some result => accepts key strength e.op result

theorem callbacks_plain {key : NodeKey} {op : Op} {reply : Reply} (hreply : reply.Quiet)
    (hop : op.Plain) : callbacks_of key op (.ok reply) = [] := by
  unfold callbacks_of
  split
  · next node published heq =>
    injection heq with heq
    exact absurd heq (hreply node published)
  · split
    · exact absurd hop (by simp [Op.Plain])
    · rfl
  · rfl

theorem accepts_plain {key : NodeKey} {strength : Strength} {op : Op}
    {result : Except Failure Reply} (hop : op.Plain) : accepts key strength op result = false := by
  unfold accepts
  split
  · exact absurd hop (by simp [Op.Plain])
  · rfl

theorem accepts_error (op : Op) (e : Failure) : accepts key strength op (.error e) = false := by
  cases op <;> rfl

end

/-! ## What the owner has been told -/

/-- The callbacks so far and the acknowledgements so far fit the state of a node. -/
structure Told (key : NodeKey) (callbacks : List Callback) (acks : Strength → ℕ) (heap : Heap) :
    Prop where
  absent : heap.lifecycle key = none → callbacks = [] ∧ ∀ strength, acks strength = 0
  wf : ∀ state, heap.lifecycle key = some state → state.work.Wf
  held : ∀ state, heap.lifecycle key = some state →
    Held.observe_all ⟨false, false⟩ callbacks = some state.work.held
  pending : ∀ state, heap.lifecycle key = some state → ∀ strength,
    callbacks.count (.Record strength.request) =
      acks strength + (state.work.pending strength).toNat

/-- The two heaps have the same nodes, and `f` cannot tell their states apart. -/
def Same {α : Type} (f : Lifecycle → α) (heap heap' : Heap) : Prop :=
  ∀ key, (heap'.lifecycle key).map f = (heap.lifecycle key).map f

section Same

variable {α : Type} {f : Lifecycle → α} {heap heap' heap'' : Heap} {key : NodeKey}
  {state state' : Lifecycle}

theorem Same.trans (h : Same f heap heap') (h' : Same f heap' heap'') : Same f heap heap'' :=
  fun key => (h' key).trans (h key)

theorem Same.lifecycle (h : Same f heap heap') (hstate : heap'.lifecycle key = some state') :
    ∃ state, heap.lifecycle key = some state ∧ f state = f state' := by
  have hkey := h key
  rw [hstate, Option.map_some] at hkey
  exact Option.map_eq_some_iff.mp hkey.symm

theorem Same.isSome (h : Same f heap heap') (key : NodeKey) :
    (heap'.lifecycle key).isSome = (heap.lifecycle key).isSome := by
  have hkey := congrArg Option.isSome (h key)
  rwa [Option.isSome_map, Option.isSome_map] at hkey

/-- A node is written, and `f` does not see it. -/
theorem same_set (hstate : heap.lifecycle key = some state) (hf : f state' = f state) :
    Same f heap (heap.set_lifecycle key state') := by
  intro key'
  rw [lifecycle_set_lifecycle]
  split
  · next heq =>
    subst heq
    rw [hstate, Option.map_some, Option.map_some, Option.map_some, hf]
  · rfl

variable (hf : ∀ (state : Lifecycle) (remote strong : ℕ),
  f { state with remote_tables := remote, strong_tables := strong } = f state)
include hf

/-- The tables write their two counters only. -/
theorem same_update_target {target : Target} {before after : Counts}
    (h : update_target heap target before after = some heap') : Same f heap heap' := by
  cases target with
  | Remote =>
    cases h
    exact fun _ => rfl
  | Local =>
    obtain ⟨state, remote, strong, hstate, -, -, hheap⟩ := update_remote_eq_some h
    rw [hheap]
    exact same_set hstate (hf state remote strong)

theorem same_move {table table' : ReferenceTable}
    (h : Move table heap table' heap') : Same f heap heap' := by
  cases h with
  | changed _ _ _ hupdate | removed _ hupdate | allocated _ _ _ _ hupdate =>
    exact same_update_target hf hupdate

theorem same_drop {references : List Reference}
    (h : drop_references heap references = some heap') : Same f heap heap' := by
  induction references generalizing heap with
  | nil =>
    cases h
    exact fun _ => rfl
  | cons _ _ ih =>
    unfold drop_references at h
    split at h
    · cases h
    · next heap₁ hupdate => exact (same_update_target hf hupdate).trans (ih h)

end Same

section Told

variable {key : NodeKey} {callbacks : List Callback} {acks acks' : Strength → ℕ}
  {heap heap' : Heap} {state : Lifecycle}

theorem told_new : Told key [] (fun _ => 0) System.new.heap := by
  have hnone : System.new.heap.lifecycle key = none := by
    unfold lifecycle System.new
    simp
  constructor
  · exact fun _ => ⟨rfl, fun _ => rfl⟩
  all_goals
    intro state hstate
    rw [hnone] at hstate
    cases hstate

section

variable (h : Told key callbacks acks heap)
include h

/-- A step that leaves what the owner has been told. -/
theorem Told.frame (hsame : Same (·.work) heap heap') :
    Told key callbacks acks heap' := by
  constructor
  · intro hnone
    apply h.absent
    have hkey := hsame key
    rw [hnone, Option.map_none] at hkey
    exact Option.map_eq_none_iff.mp hkey.symm
  · intro state' hstate
    obtain ⟨state, hold, hwork⟩ := hsame.lifecycle hstate
    rw [← hwork]
    exact h.wf state hold
  · intro state' hstate
    obtain ⟨state, hold, hwork⟩ := hsame.lifecycle hstate
    rw [← hwork]
    exact h.held state hold
  · intro state' hstate
    obtain ⟨state, hold, hwork⟩ := hsame.lifecycle hstate
    rw [← hwork]
    exact h.pending state hold

/-- Only the state of the node itself matters. -/
theorem Told.congr
    (hsame : heap'.lifecycle key = heap.lifecycle key) : Told key callbacks acks heap' := by
  constructor
  · rw [hsame]
    exact h.absent
  · rw [hsame]
    exact h.wf
  · rw [hsame]
    exact h.held
  · rw [hsame]
    exact h.pending

/-- A new node, of which nobody has been told. -/
theorem Told.with_node {key' : NodeKey} {node : Node}
    (hnone : heap.lifecycle key' = none) (hnew : node.lifecycle = Lifecycle.new) :
    Told key callbacks acks (heap.with_node key' node) := by
  by_cases hkey : key' = key
  · -- nothing has been published for a node that did not exist
    subst hkey
    obtain ⟨hcallbacks, hacks⟩ := h.absent hnone
    have hstate : (heap.with_node key' node).lifecycle key' = some Lifecycle.new := by
      rw [lifecycle_with_node, if_pos rfl, hnew]
    subst hcallbacks
    constructor
    · intro habsent
      rw [hstate] at habsent
      cases habsent
    · intro state hsome
      rw [hstate] at hsome
      cases hsome
      exact wf_new
    · intro state hsome
      rw [hstate] at hsome
      cases hsome
      rfl
    · intro state hsome strength
      rw [hstate] at hsome
      rw [← Option.some.inj hsome, hacks]
      cases strength <;> rfl
  · apply h.congr
    rw [lifecycle_with_node, if_neg hkey]

/-- A node is written, and its owner told. -/
theorem Told.set (hstate : heap.lifecycle key = some state)
    (state' : Lifecycle) {callbacks' : List Callback} (hwf : state'.work.Wf)
    (hheld : Held.observe_all state.work.held callbacks' = some state'.work.held)
    (hpending : ∀ strength,
      callbacks'.count (.Record strength.request) + acks strength +
          (state.work.pending strength).toNat =
        acks' strength + (state'.work.pending strength).toNat) :
    Told key (callbacks ++ callbacks') acks' (heap.set_lifecycle key state') := by
  have hset : (heap.set_lifecycle key state').lifecycle key = some state' :=
    lifecycle_set_self hstate
  constructor
  · intro hnone
    rw [hset] at hnone
    cases hnone
  · intro state'' hsome
    rw [hset] at hsome
    cases hsome
    exact hwf
  · intro state'' hsome
    rw [hset] at hsome
    rwa [← Option.some.inj hsome, observe_all_append, h.held state hstate]
  · intro state'' hsome strength
    rw [hset] at hsome
    rw [← Option.some.inj hsome, List.count_append, h.pending state hstate strength]
    have hcount := hpending strength
    omega

end

end Told

section Changes

variable {s s' : System} {op : Op} {result : Except Failure Reply} {key : NodeKey}
  {callbacks : List Callback} {acks : Strength → ℕ} {heap : Heap}

section

variable (h : Told key callbacks acks heap)
include h

/-- An operation that tells the owner nothing. -/
theorem Told.silent (hcallbacks : callbacks_of key op result = [])
    (haccepts : ∀ strength, accepts key strength op result = false) :
    Told key (callbacks ++ callbacks_of key op result)
      (fun strength => acks strength + (accepts key strength op result).toNat) heap := by
  have hacks : (fun strength => acks strength + (accepts key strength op result).toNat) = acks := by
    funext strength
    rw [haccepts]
    rfl
  rwa [hcallbacks, hacks, List.append_nil]

theorem Told.plain {reply : Reply} (hreply : reply.Quiet) (hop : op.Plain) :
    Told key (callbacks ++ callbacks_of key op (.ok reply))
      (fun strength => acks strength + (accepts key strength op (.ok reply)).toNat) heap :=
  h.silent (callbacks_plain hreply hop) (fun _ => accepts_plain hop)

theorem Told.error (e : Failure) :
    Told key (callbacks ++ callbacks_of key op (.error e))
      (fun strength => acks strength + (accepts key strength op (.error e)).toNat) heap :=
  h.silent rfl (fun strength => accepts_error key strength op e)

end

theorem quiet_done : Reply.Done.Quiet := by
  intro key published h
  cases h

theorem quiet_node (node : NodeKey) : (Reply.Node node).Quiet := by
  intro key published h
  cases h

theorem count_records (records : List Notification) (record : Notification) :
    (records.map Callback.Record).count (.Record record) = records.count record :=
  List.count_map_of_injective _ _ (fun _ _ h => by injection h) _

/-- **Every step tells the owner what the state of the node then says.** -/
theorem Told.change (h : Told key callbacks acks s.heap) (hc : Change s op result s') :
    Told key (callbacks ++ callbacks_of key op result)
      (fun strength => acks strength + (accepts key strength op result).toNat) s'.heap := by
  -- the tables do not touch what the owner has been told
  have htables : ∀ (state : Lifecycle) (remote strong : ℕ),
      Lifecycle.work { state with remote_tables := remote, strong_tables := strong } =
        state.work := fun _ _ _ => rfl
  have hlocal : ∀ (state : Lifecycle) (kind : HoldKind) (count : ℕ),
      (state.set_local_count kind count).work = state.work := by
    intro state kind count
    cases kind <;> rfl
  cases hc with
  | failed | table_panicked | hold_panicked | read_failed =>
    exact h.error _
  | answered hreply hop => exact h.plain hreply hop
  | owner_made | owner_dropped | popped =>
    exact Told.congr (h.plain quiet_done trivial) rfl
  | node_made _ hnone hnew =>
    exact Told.congr ((h.with_node hnone hnew).plain (quiet_node _) trivial) rfl
  | table_made | read_begun | read_done => exact h.plain quiet_done trivial
  | moved hreply hop _ hmove =>
    exact (h.frame (same_move htables hmove)).plain hreply hop
  | table_dropped _ hdrop =>
    exact (h.frame (same_drop htables hdrop)).plain quiet_done trivial
  | @held op reply node kind state count hreply hop hstate hcount =>
    have hsame := same_set (f := (·.work)) hstate (hlocal state kind count)
    exact Told.congr ((h.frame hsame).plain hreply hop) rfl
  | @unheld i hold state count hhold hstate hcount =>
    have hsame := same_set (f := (·.work)) hstate (hlocal state hold.kind count)
    exact Told.congr ((h.frame hsame).plain quiet_done trivial) rfl
  | @manager_refs owner node state hstate =>
    rcases eq_or_ne node key with rfl | hkey
    · show Told node (callbacks ++ if node = node then [.Marked] else []) _ _
      rw [if_pos rfl]
      apply h.set hstate
      · exact NodeWork.wf_mark
      · rfl
      · intro strength
        cases strength <;> simp [accepts, NodeWork.pending, NodeWork.mark_context_manager_refs]
    · apply Told.silent
      · exact h.congr (Heap.lifecycle_set_ne hkey)
      · exact if_neg hkey
      · exact fun _ => rfl
  | @acknowledged owner pointer cookie strength state work hstate hwork =>
    obtain ⟨hpending, hheld, hpendings⟩ := NodeWork.acknowledge_eq_some hwork
    by_cases hkey : (⟨owner, pointer⟩ : NodeKey) = key
    · subst hkey
      refine Told.congr (h.set hstate { state with work := work } ?_ ?_ ?_) rfl
      · exact (h.wf state hstate).acknowledge hwork
      · show some state.work.held = some work.held
        rw [hheld]
      · intro strength'
        have hcount := hpendings strength'
        have haccepts : accepts ⟨owner, pointer⟩ strength'
            (.acknowledge owner pointer cookie strength) (.ok .Done) =
              decide (strength' = strength) := by
          simp [accepts, eq_comm]
        rw [haccepts]
        show 0 + _ + _ = acks strength' + _ + (work.pending strength').toNat
        omega
    · apply Told.silent
      · exact h.congr (Heap.lifecycle_set_ne hkey)
      · rfl
      · intro strength'
        have hne : ¬ (owner = key.owner ∧ pointer = key.pointer ∧ strength = strength') :=
          fun hand => hkey (NodeKey.ext hand.1 hand.2.1)
        exact decide_eq_false hne
  | @published op owner pointer state published readers' hop hstate hcommands hreaders =>
    by_cases hkey : (⟨owner, pointer⟩ : NodeKey) = key
    · subst hkey
      show Told _ (callbacks ++ if (⟨owner, pointer⟩ : NodeKey) = ⟨owner, pointer⟩ then
        published.commands.map .Record else []) _ _
      rw [if_pos rfl, hcommands]
      apply h.set hstate
      · exact NodeWork.wf_prepare
      · rw [observe_all_records]
        exact NodeWork.prepare_follows
      · intro strength
        have hcount := NodeWork.prepare_pending state.demand (h.wf state hstate) strength
        rw [count_records, accepts_plain hop]
        show (state.work.prepare state.demand).notifications.count _ + _ + _ =
          acks strength + 0 + ((state.work.prepare state.demand).next.pending strength).toNat
        omega
    · apply Told.silent
      · exact h.congr (Heap.lifecycle_set_ne hkey)
      · exact if_neg hkey
      · exact fun _ => accepts_plain hop
  | requeued => exact Told.congr (h.error _) rfl

end Changes

/-! ## The holds -/

/-- The local counters of the nodes are the holds that exist. -/
structure Holds (holds : List LocalHold) (heap : Heap) : Prop where
  counted : ∀ key state, heap.lifecycle key = some state → ∀ kind,
    state.local_count kind = holds.countP (· = ⟨key, kind⟩)
  node : ∀ hold ∈ holds, (heap.lifecycle hold.node).isSome = true

section Holds

variable {s s' : System} {op : Op} {result : Except Failure Reply} {holds : List LocalHold}
  {heap heap' : Heap} {key : NodeKey} {state : Lifecycle}

theorem local_count_set (state : Lifecycle) (kind kind' : HoldKind) (count : ℕ) :
    (state.set_local_count kind count).local_count kind' =
      if kind = kind' then count else state.local_count kind' := by
  cases kind <;> cases kind' <;> rfl

theorem Holds.frame (h : Holds holds heap) (hsame : Same Lifecycle.local_count heap heap') :
    Holds holds heap' := by
  constructor
  · intro key state' hstate kind
    obtain ⟨state, hold, hcount⟩ := hsame.lifecycle hstate
    rw [← hcount]
    exact h.counted key state hold kind
  · intro hold hmem
    rw [hsame.isSome]
    exact h.node hold hmem

theorem Holds.with_node (h : Holds holds heap) {node : Node} (hnone : heap.lifecycle key = none)
    (hnew : node.lifecycle = Lifecycle.new) : Holds holds (heap.with_node key node) := by
  constructor
  · intro key' state hstate kind
    rw [lifecycle_with_node, hnew] at hstate
    split at hstate
    · next heq =>
      -- nobody can hold a node that did not exist
      rw [← Option.some.inj hstate, ← heq]
      symm
      rw [show Lifecycle.new.local_count kind = 0 by cases kind <;> rfl, List.countP_eq_zero]
      intro hold hmem heq'
      have hsome := h.node hold hmem
      rw [of_decide_eq_true heq', hnone] at hsome
      cases hsome
    · exact h.counted key' state hstate kind
  · intro hold hmem
    rw [lifecycle_with_node]
    split
    · rfl
    · exact h.node hold hmem

/-- The counter of one kind of hold on one node follows the holds. -/
theorem Holds.set (h : Holds holds heap) (hstate : heap.lifecycle key = some state)
    (state' : Lifecycle) (holds' : List LocalHold)
    (hself : ∀ kind, state'.local_count kind + holds.countP (· = ⟨key, kind⟩) =
      state.local_count kind + holds'.countP (· = ⟨key, kind⟩))
    (hother : ∀ key' kind, key ≠ key' →
      holds'.countP (· = ⟨key', kind⟩) = holds.countP (· = ⟨key', kind⟩))
    (hnode : ∀ hold ∈ holds', hold ∈ holds ∨ hold.node = key) :
    Holds holds' (heap.set_lifecycle key state') := by
  constructor
  · intro key' state'' hsome kind
    rcases eq_or_ne key key' with rfl | hkey
    · rw [lifecycle_set_self hstate] at hsome
      cases hsome
      have hcount := hself kind
      have hold := h.counted key state hstate kind
      omega
    · rw [lifecycle_set_ne hkey] at hsome
      rw [hother key' kind hkey]
      exact h.counted key' state'' hsome kind
  · intro hold hmem
    rw [isSome_set_lifecycle]
    rcases hnode hold hmem with hmem | heq
    · exact h.node hold hmem
    · rw [heq, hstate]
      rfl

/-- **Every step keeps the counters of holds.** -/
theorem Holds.change (h : Holds s.holds s.heap) (hc : Change s op result s') :
    Holds s'.holds s'.heap := by
  have htables : ∀ (state : Lifecycle) (remote strong : ℕ),
      Lifecycle.local_count { state with remote_tables := remote, strong_tables := strong } =
        state.local_count := by
    intro state remote strong
    funext kind
    cases kind <;> rfl
  have hwork : ∀ (state : Lifecycle) (work : NodeWork),
      Lifecycle.local_count { state with work := work } = state.local_count := by
    intro state work
    funext kind
    cases kind <;> rfl
  have hrefl : Same Lifecycle.local_count s.heap s.heap := fun _ => rfl
  cases hc with
  | failed | answered | table_made | table_panicked | hold_panicked | read_begun | read_done
  | read_failed =>
    exact h
  | owner_made | owner_dropped | popped | requeued => exact h.frame hrefl
  | node_made _ hnone hnew => exact (h.with_node hnone hnew).frame fun _ => rfl
  | moved _ _ _ hmove => exact h.frame (same_move htables hmove)
  | table_dropped _ hdrop => exact h.frame (same_drop htables hdrop)
  | @held op reply key kind state count hreply hop hstate hcount =>
    have hsucc := (bounded_succ_eq_some.mp hcount).1
    have hset : Holds (s.holds ++ [⟨key, kind⟩])
        (s.heap.set_lifecycle key (state.set_local_count kind count)) := by
      apply h.set hstate
      · intro kind'
        rw [local_count_set, List.countP_append]
        rcases eq_or_ne kind kind' with rfl | hkind
        · simp
          omega
        · simp [hkind]
      · intro key' kind' hne
        simp [hne]
      · intro hold hmem
        rcases List.mem_append.mp hmem with hmem | hmem
        · exact .inl hmem
        · rw [List.mem_singleton.mp hmem]
          exact .inr rfl
    exact hset.frame fun _ => rfl
  | @unheld i hold state count hhold hstate hcount =>
    have hsub := checked_sub_eq_some.mp hcount
    have hset : Holds (s.holds.eraseIdx i)
        (s.heap.set_lifecycle hold.node (state.set_local_count hold.kind count)) := by
      apply h.set hstate
      · intro kind'
        have herase := ListEdit.countP_eraseIdx_add (p := (· = (⟨hold.node, kind'⟩ : LocalHold))) hhold
        rw [local_count_set]
        rcases eq_or_ne hold.kind kind' with rfl | hkind
        · simp at herase ⊢
          omega
        · have hne : hold ≠ ⟨hold.node, kind'⟩ := fun heq => hkind (congrArg LocalHold.kind heq)
          simp [hne] at herase
          simp [hkind, herase]
      · intro key' kind' hne
        have herase := ListEdit.countP_eraseIdx_add (p := (· = (⟨key', kind'⟩ : LocalHold))) hhold
        have hne' : hold ≠ ⟨key', kind'⟩ := fun heq => hne (congrArg LocalHold.node heq)
        simpa [hne'] using herase
      · exact fun _ hmem => .inl (List.mem_of_mem_eraseIdx hmem)
    exact hset.frame fun _ => rfl
  | @manager_refs owner key state hstate =>
    apply h.set hstate
    · intro kind
      cases kind <;> simp [Lifecycle.local_count] <;> omega
    · intro key' kind hne
      simp [hne]
    · intro hold hmem
      rcases List.mem_append.mp hmem with hmem | hmem
      · exact .inl hmem
      · simp only [List.mem_cons, List.not_mem_nil, or_false] at hmem
        rcases hmem with rfl | rfl
        · exact .inr rfl
        · exact .inr rfl
  | acknowledged hstate =>
    exact Holds.frame (h.frame (same_set hstate (hwork _ _))) fun _ => rfl
  | published _ hstate => exact h.frame (same_set hstate (hwork _ _))

end Holds

/-! ## Every run -/

section Runs

variable {s s' : System} {es : List Event} {key : NodeKey}

/-- What a run has told the owner of a node, and the holds it has left. -/
theorem run_told (hrun : Run Step System.new es s) (key : NodeKey) :
    Told key (callbacks key es) (fun strength => acknowledged key strength es) s.heap ∧
      Holds s.holds s.heap := by
  have hnew : Holds System.new.holds System.new.heap := by
    constructor
    · intro key state hstate
      exact absurd hstate (by simp [System.new, lifecycle])
    · simp [System.new]
  refine hrun.history (fun es s =>
    Told key (callbacks key es) (fun strength => acknowledged key strength es) s.heap ∧
      Holds s.holds s.heap) ⟨told_new, hnew⟩ ?_
  rintro es t e u - ⟨htold, hholds⟩ ⟨hbefore, result, hperform⟩
  have hchange := System.change hperform
  have hresult : e.result = some result := by
    unfold Event.result
    rw [hbefore, hperform]
    rfl
  have hcallbacks : callbacks key (es ++ [e]) = callbacks key es ++ callbacks_of key e.op result := by
    unfold callbacks
    rw [List.flatMap_append, List.flatMap_singleton, hresult]
  have hacks : ∀ strength, acknowledged key strength (es ++ [e]) =
      acknowledged key strength es + (accepts key strength e.op result).toNat := by
    intro strength
    simp only [acknowledged, List.countP_append, List.countP_singleton, hresult]
    split
    · next haccepts => rw [haccepts]; rfl
    · next hrefused => rw [Bool.eq_false_iff.mpr hrefused]; rfl
  refine ⟨?_, hholds.change hchange⟩
  rw [hcallbacks, funext hacks]
  exact htold.change hchange

/-- Where a publication comes from. -/
theorem Change.of_published {op : Op} {published : Heap.Published}
    (hc : Change s op (.ok (.Published key published)) s') :
    ∃ state, s.heap.lifecycle key = some state ∧ published.commands = state.owed := by
  cases hc with
  | answered hreply | moved hreply | held hreply =>
    exact absurd rfl (hreply key published)
  | published _ hstate hcommands => exact ⟨_, hstate, hcommands⟩

/-- When an acknowledgement is accepted. -/
theorem acknowledge_done_iff {cookie : UInt64} {strength : Strength} (halive : s.Alive key.owner) :
    (s.perform (.acknowledge key.owner key.pointer cookie strength)).map Prod.fst =
        some (.ok .Done) ↔
      ∃ node, s.heap.nodes[key]? = some node ∧ node.cookie = cookie ∧
        node.lifecycle.work.pending strength = true := by
  rw [show s.perform (.acknowledge key.owner key.pointer cookie strength) = _ from if_pos halive]
  unfold Heap.acknowledge
  show _ ↔ ∃ node, s.heap.nodes[(⟨key.owner, key.pointer⟩ : NodeKey)]? = some node ∧ _
  split
  · next e heap hacknowledge =>
    refine ⟨fun hdone => absurd hdone (by simp), ?_⟩
    rintro ⟨node, hnode, hcookie, hpending⟩
    rw [hnode] at hacknowledge
    dsimp only at hacknowledge
    rw [if_neg (not_not.mpr hcookie)] at hacknowledge
    rw [← acknowledge_isSome] at hpending
    obtain ⟨work, hwork⟩ := Option.isSome_iff_exists.mp hpending
    rw [hwork] at hacknowledge
    cases hacknowledge
  · next heap hacknowledge =>
    refine ⟨fun _ => ?_, fun _ => rfl⟩
    split at hacknowledge
    · cases hacknowledge
    next node hnode =>
    split at hacknowledge
    · cases hacknowledge
    next hcookie =>
    split at hacknowledge
    · cases hacknowledge
    next work hwork =>
    refine ⟨node, hnode, not_not.mp hcookie, ?_⟩
    rw [← acknowledge_isSome, hwork]
    rfl

/-- Nothing holds a node whose counters are zero. -/
theorem Holds.none_of_zero {holds : List LocalHold} {heap : Heap} (h : Holds holds heap)
    {state : Lifecycle} (hstate : heap.lifecycle key = some state) {kind : HoldKind}
    (hzero : state.local_count kind = 0) : (⟨key, kind⟩ : LocalHold) ∉ holds := by
  rw [h.counted key state hstate kind, List.countP_eq_zero] at hzero
  intro hmem
  exact hzero _ hmem (decide_eq_true rfl)

/-- A strong reference is given back when nothing wants it any more. -/
theorem release_unwanted {state : Lifecycle} (hmem : Notification.Release ∈ state.owed) :
    state.strong_tables = 0 ∧ state.local_count .Strong = 0 ∧
      state.work.pending .Strong = false := by
  have hstrong := release_of_mem hmem
  unfold strong at hstrong
  rw [Bool.or_eq_false_iff, Bool.or_eq_false_iff] at hstrong
  obtain ⟨⟨htables, hlocal⟩, hpending⟩ := hstrong
  exact ⟨not_not.mp (of_decide_eq_false htables), not_not.mp (of_decide_eq_false hlocal), hpending⟩

/-- A weak reference is given back when nothing wants it any more, nor the strong one. -/
theorem decrefs_unwanted {state : Lifecycle} (hmem : Notification.Decrefs ∈ state.owed) :
    state.remote_tables = 0 ∧ (∀ kind, state.local_count kind = 0) ∧
      ∀ strength, state.work.pending strength = false := by
  have hweak := decrefs_of_mem hmem
  unfold weak strong at hweak
  simp only [Bool.or_eq_false_iff] at hweak
  obtain ⟨⟨⟨⟨hremote, hlocal⟩, htemporary⟩, hpending⟩, ⟨-, hstrong⟩, hpending'⟩ := hweak
  refine ⟨not_not.mp (of_decide_eq_false hremote), fun kind => ?_, fun strength => ?_⟩
  · cases kind with
    | Strong => exact not_not.mp (of_decide_eq_false hstrong)
    | Weak => exact not_not.mp (of_decide_eq_false hlocal)
    | Temporary => exact not_not.mp (of_decide_eq_false htemporary)
  · cases strength with
    | Strong => exact hpending'
    | Weak => exact hpending

/-- **What an owner can rely on.** In every run, and for every node:

* the records published for the node, with the moments at which it became the context
  manager's, are a sequence that the owner's automaton accepts: each reference is taken
  before it is given back, in turns, and the strong one within the weak one;
* an acknowledgement is accepted just when one request more was published than acknowledged;
* a reference is given back only when no table, no hold and no request that is yet to be
  acknowledged wants it. -/
theorem owner_callbacks (hrun : Run Step System.new es s) (key : NodeKey) :
    (Held.observe_all ⟨false, false⟩ (callbacks key es)).isSome = true ∧
    (∀ strength, acknowledged key strength es ≤ requested key strength es ∧
      requested key strength es ≤ acknowledged key strength es + 1) ∧
    ∀ es₁ e es₂, es = es₁ ++ e :: es₂ →
      (∀ published, e.result = some (.ok (.Published key published)) →
        (Notification.Release ∈ published.commands →
          (∀ table ∈ e.before.tables, has_strong_entry key table = false) ∧
          (⟨key, .Strong⟩ : LocalHold) ∉ e.before.holds ∧
          requested key .Strong es₁ = acknowledged key .Strong es₁) ∧
        (Notification.Decrefs ∈ published.commands →
          (∀ table ∈ e.before.tables, has_entry key table = false) ∧
          (∀ hold ∈ e.before.holds, hold.node ≠ key) ∧
          ∀ strength, requested key strength es₁ = acknowledged key strength es₁)) ∧
      ∀ cookie strength, e.op = .acknowledge key.owner key.pointer cookie strength →
        (e.result = some (.ok .Done) ↔
          (∃ node, e.before.heap.nodes[key]? = some node ∧ node.cookie = cookie) ∧
          requested key strength es₁ = acknowledged key strength es₁ + 1) := by
  obtain ⟨htold, -⟩ := run_told hrun key
  refine ⟨?_, ?_, ?_⟩
  · cases hstate : s.heap.lifecycle key with
    | none =>
      rw [(htold.absent hstate).1]
      rfl
    | some state =>
      rw [htold.held state hstate]
      rfl
  · intro strength
    unfold requested
    cases hstate : s.heap.lifecycle key with
    | none =>
      obtain ⟨hcallbacks, hacks⟩ := htold.absent hstate
      have hzero : acknowledged key strength es = 0 := hacks strength
      rw [hcallbacks, hzero]
      simp
    | some state =>
      rw [htold.pending state hstate strength]
      have hle : (state.work.pending strength).toNat ≤ 1 := Bool.toNat_le _
      omega
  · intro es₁ e es₂ hes
    rw [hes] at hrun
    obtain ⟨t, u, hrun₁, hbefore, result, hperform⟩ := hrun.at_label
    subst hbefore
    obtain ⟨htold, hholds⟩ := run_told hrun₁ key
    have hcounted := (run_counted hrun₁).1
    have hresult : e.result = some result := by
      unfold Event.result
      rw [hperform]
      rfl
    -- the request is settled when the state of the node says so
    have hsettled : ∀ state strength, e.before.heap.lifecycle key = some state →
        state.work.pending strength = false →
        requested key strength es₁ = acknowledged key strength es₁ := by
      intro state strength hstate hpending
      have hcount := htold.pending state hstate strength
      rwa [hpending] at hcount
    refine ⟨?_, ?_⟩
    · intro published hpublished
      rw [hresult, Option.some.injEq] at hpublished
      rw [hpublished] at hperform
      obtain ⟨state, hstate, hcommands⟩ := (System.change hperform).of_published
      rw [hcommands]
      refine ⟨fun hmem => ?_, fun hmem => ?_⟩
      · obtain ⟨htables, hlocal, hpending⟩ := release_unwanted hmem
        refine ⟨fun table htable => ?_, hholds.none_of_zero hstate hlocal,
          hsettled state .Strong hstate hpending⟩
        rw [hcounted.strong key state hstate, List.countP_eq_zero] at htables
        rw [has_strong_entry_eq (hcounted.wf table htable)]
        exact Bool.eq_false_iff.mpr (htables table htable)
      · obtain ⟨htables, hlocal, hpending⟩ := decrefs_unwanted hmem
        refine ⟨fun table htable => ?_, fun hold hhold heq => ?_,
          fun strength => hsettled state strength hstate (hpending strength)⟩
        · rw [hcounted.remote key state hstate, List.countP_eq_zero] at htables
          rw [has_entry_eq (hcounted.wf table htable)]
          exact Bool.eq_false_iff.mpr (htables table htable)
        · obtain ⟨node, kind⟩ := hold
          have heq : node = key := heq
          rw [heq] at hhold
          exact hholds.none_of_zero hstate (hlocal kind) hhold
    · intro cookie strength hop
      have halive : e.before.Alive key.owner := by
        rw [hop] at hperform
        by_contra hdead
        rw [show e.before.perform (.acknowledge key.owner key.pointer cookie strength) = none from
          if_neg hdead] at hperform
        cases hperform
      unfold Event.result
      rw [hop, acknowledge_done_iff halive]
      constructor
      · rintro ⟨node, hnode, hcookie, hpending⟩
        refine ⟨⟨node, hnode, hcookie⟩, ?_⟩
        have hcount := htold.pending node.lifecycle (by rw [lifecycle, hnode]; rfl) strength
        rwa [hpending] at hcount
      · rintro ⟨⟨node, hnode, hcookie⟩, hrequested⟩
        refine ⟨node, hnode, hcookie, ?_⟩
        have hcount := htold.pending node.lifecycle (by rw [lifecycle, hnode]; rfl) strength
        unfold requested at hrequested
        rw [hrequested] at hcount
        cases hpending : node.lifecycle.work.pending strength with
        | true => rfl
        | false =>
          rw [hpending] at hcount
          exact absurd hcount (by simp)

end Runs

/-- A table takes up a node and drops it again; the owner reads and acknowledges. -/
def taken_and_dropped : List Op :=
  [.new_owner, .resolve_object 0 (.Node false 0 123 456) ⟨true, true⟩, .new_table,
    .retain 0 ⟨0, 123⟩ .Strong, .read_node_notifications 0 123 (List.replicate 40 0),
    .acknowledge 0 123 456 .Weak, .acknowledge 0 123 456 .Strong,
    .acknowledge 0 123 456 .Strong, .drop_table 0,
    .read_node_notifications 0 123 (List.replicate 40 0)]

theorem owner_told_of_table :
    ∃ es s, events System.new taken_and_dropped = some (es, s) ∧
      callbacks ⟨0, 123⟩ es =
        [.Record .Increfs, .Record .Acquire, .Record .Release, .Record .Decrefs] ∧
      requested ⟨0, 123⟩ .Strong es = 1 ∧ acknowledged ⟨0, 123⟩ .Strong es = 1 ∧
      (Held.observe_all ⟨false, false⟩ (callbacks ⟨0, 123⟩ es)).isSome = true := by
  have hevents : (events System.new taken_and_dropped).isSome = true := by decide +kernel
  obtain ⟨⟨es, s⟩, hes⟩ := Option.isSome_iff_exists.mp hevents
  have htold : ((events System.new taken_and_dropped).map fun r =>
      (callbacks ⟨0, 123⟩ r.1, requested ⟨0, 123⟩ .Strong r.1, acknowledged ⟨0, 123⟩ .Strong r.1)) =
        some ([.Record .Increfs, .Record .Acquire, .Record .Release, .Record .Decrefs], 1, 1) := by
    decide +kernel
  rw [hes, Option.map_some, Option.some.injEq, Prod.mk.injEq, Prod.mk.injEq] at htold
  obtain ⟨hcallbacks, hrequested, hacknowledged⟩ := htold
  exact ⟨es, s, hes, hcallbacks, hrequested, hacknowledged,
    (owner_callbacks (run_events hes) ⟨0, 123⟩).1⟩

end System

end DarwinArt.Binder
