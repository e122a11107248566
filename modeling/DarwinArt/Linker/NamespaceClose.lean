/-
Closing a library: `CloseNamespaceLibrary` and `ReleaseNamespaceGroup`, with `retire_group`, the
dependency references and the guest handles below them.

A local group is retired when nothing opens it, its root is neither GLOBAL nor NODELETE, and no
group refers to it by an edge. The edges of a group are counted at their targets as long as one of
its images exists, and an image exists as long as it is published or somebody has a lease on it.
Closing is a worklist of leases: what a retired group depends on is looked at next, and a lease that
is still in the worklist keeps a retired group's images, and so its edges, in existence.

## What is modelled

Groups are numbers, and the images of a group are there or gone together. The linker operation
serializes opens and closes, so each is one step; finalizers succeed, and leases are held by the
closing code only, which are then those in its worklist. `none` is an abort, or a Rust assertion
that fails in a destructor. Handles of images that belong to no group (providers, native images)
have nothing to unload and are left out.
-/
import DarwinArt.Lib.Checked
import DarwinArt.Lib.Run
import Mathlib.Algebra.BigOperators.Group.Finset.Basic

set_option autoImplicit false

namespace DarwinArt.Linker.Unload

open Lib

/-! ## The registry -/

structure Group where
  /-- `_group_edges`: the targets, in order, but for the group itself -/
  edges : List ℕ
  opens : ℕ
  incoming : ℕ
  /-- `group_root_flags`: GLOBAL and NODELETE -/
  flags : Bool × Bool
  /-- its images are published -/
  resident : Bool
  /-- its images exist -/
  alive : Bool
  /-- its id is among the retired ids -/
  retired : Bool
deriving DecidableEq

/-- An entry of `Handles`, which has one for an image. -/
structure Handle where
  key : ℕ
  group : ℕ
  opens : ℕ
deriving DecidableEq

/-- The registry, with the groups that were ever published and those that were finalized, the last
one last. -/
structure State where
  groups : ℕ → Group
  published : Finset ℕ
  handles : List Handle
  next : ℕ
  finalized : List ℕ

/-- What an open publishes: new groups with the flags of their roots, and edges between groups by
their ids; and the group of which it takes the root. -/
structure Library where
  groups : List (ℕ × Bool × Bool)
  edges : List (ℕ × ℕ)
  root : ℕ
  nodelete : Bool
deriving DecidableEq

namespace State

def new : State where
  groups _ := ⟨[], 0, 0, (false, false), false, false, false⟩
  published := ∅
  handles := []
  next := 1
  finalized := []

/-! ## Opening -/

section

variable (s : State) (l : Library)

def ids : List ℕ := l.groups.map Prod.fst

/-- The references that `prepare` makes for a source. -/
def outgoing (id : ℕ) : List ℕ :=
  (l.edges.filter fun e => e.1 = id ∧ e.2 ≠ id).map Prod.snd

/-- How often `prepare` counts a target up. -/
def counted (id : ℕ) : ℕ := l.edges.countP fun e => e.2 = id ∧ e.1 ≠ id

/-- The checks of a publication and of `prepare`, and of the open and its handle. -/
def publishable : Bool :=
  (ids l).Nodup ∧ (∀ id ∈ ids l, id ≠ 0 ∧ ¬ (s.groups id).resident ∧ ¬ (s.groups id).retired) ∧
    (∀ e ∈ l.edges, e.1 ∈ ids l ∧ (e.2 ∈ ids l ∨ (s.groups e.2).resident) ∧
      (s.groups e.2).incoming + counted l e.2 < 2 ^ 64) ∧
    (l.root ∈ ids l ∨ (s.groups l.root).resident) ∧ (s.groups l.root).opens + 1 < 2 ^ 64 ∧
    s.next + 2 < 2 ^ 64

/-- The group with this id after a publication. -/
def publish (id : ℕ) : Group :=
  match l.groups.find? fun g => g.1 = id with
  | some (_, flags) => ⟨outgoing l id, 0, counted l id, flags, true, true, false⟩
  | none => { s.groups id with incoming := (s.groups id).incoming + counted l id }

/-- `darwin_art_linker_handle_adopt`. -/
def adopt (handles : List Handle) (key group : ℕ) : List Handle :=
  if handles.any fun h => h.group = group then
    handles.map fun h => if h.group = group then { h with opens := h.opens + 1 } else h
  else handles ++ [⟨key, group, 1⟩]

/-- An open that succeeds: the groups are published, the root may become NODELETE, and one open of
it goes to its handle. -/
def open_library : Option State :=
  if s.publishable l then
    some { s with
      groups := fun id =>
        let group := s.publish l id
        if id = l.root then
          { group with opens := group.opens + 1, flags := (group.flags.1, group.flags.2 || l.nodelete) }
        else group
      published := s.published ∪ (ids l).toFinset
      handles := adopt s.handles s.next l.root
      next := if s.handles.any fun h => h.group = l.root then s.next else s.next + 2 }
  else none

/-! ## Closing -/

/-- The last image of a group goes, and with it the `DependencyReference`s, each of which counts its
target down. -/
def drop_images (g : ℕ) : Option State :=
  let edges := (s.groups g).edges
  if ∀ t ∈ edges, edges.count t ≤ (s.groups t).incoming then
    some { s with groups := fun t => { s.groups t with
      incoming := (s.groups t).incoming - edges.count t
      alive := (s.groups t).alive && t ≠ g } }
  else none

/-- A lease goes, and these are left. -/
def drop_lease (leases : List ℕ) (g : ℕ) : Option State :=
  if (s.groups g).resident ∨ g ∈ leases then some s else s.drop_images g

/-- What `ReleaseNamespaceGroup` returns: -1, 1, or 0 with leases on the targets. -/
inductive Release
  | Failed
  | Retained
  | Retired (targets : List ℕ)

/-- The finalizer was called and the group is retired and unpublished. -/
def detach (g : ℕ) : State :=
  { s with
    groups := fun t => { s.groups t with
      resident := (s.groups t).resident && t ≠ g
      retired := (s.groups t).retired || t = g }
    finalized := s.finalized ++ [g] }

/-- `ReleaseNamespaceGroup`, which uses up a lease on the group. -/
def release_group (leases : List ℕ) (g : ℕ) : Option (Release × State) :=
  let group := s.groups g
  if ¬ group.resident ∨ ∃ t ∈ group.edges, ¬ (s.groups t).resident then some (.Failed, s)
  else if group.retired then some (.Failed, s)
  else if group.flags ≠ (false, false) ∨ group.opens ≠ 0 ∨ group.incoming ≠ 0 then
    some (.Retained, s)
  else if s.handles.any fun h => h.group = g ∧ h.opens ≠ 0 then none
  else
    ({ s.detach g with handles := s.handles.filter fun h => h.group ≠ g }.drop_lease leases g).map
      fun s => (.Retired group.edges.eraseDups, s)

/-- The loop of `CloseNamespaceLibrary`. -/
def cascade : ℕ → State → List ℕ → List ℕ → Option State
  | 0, _, _, _ => none
  | _ + 1, s, [], _ => some s
  | n + 1, s, t :: pending, retired =>
    if t ∈ retired then (s.drop_lease pending t).bind fun s => cascade n s pending retired
    else
      match s.release_group pending t with
      | none | some (.Failed, _) => none
      | some (.Retained, s) => cascade n s pending retired
      | some (.Retired targets, s) => cascade n s (targets ++ pending) (t :: retired)

/-- One iteration for each edge is enough. -/
def fuel : ℕ := (∑ g ∈ s.published, (s.groups g).edges.length) + 1

/-- `take_open` and `consume_open`: an open of the handle is used up. -/
def consume_open (h : Handle) : Option State :=
  (checked_sub (s.groups h.group).opens 1).map fun opens =>
    { s with
      groups := fun t => { s.groups t with opens := if t = h.group then opens else (s.groups t).opens }
      handles := s.handles.map fun h' =>
        if h'.key = h.key then { h' with opens := h'.opens - 1 } else h' }

def find (key : ℕ) : Option Handle :=
  s.handles.find? fun h => h.key = key ∧ h.opens ≠ 0

/-- `CloseNamespaceLibrary`. A close that fails takes the open again, which a retired group
refuses. -/
def close (key : ℕ) : Option (ℤ × State) :=
  match s.find key with
  | none => some (-1, s)
  | some h => do
    let s' ← s.consume_open h
    match ← s'.release_group [] h.group with
    | (.Failed, _) => if (s.groups h.group).retired then none else some (-1, s)
    | (.Retained, s') => some (0, s')
    | (.Retired targets, s') => (s'.cascade s'.fuel targets []).map fun s' => (0, s')

end

end State

/-! ## Runs -/

inductive Op
  | Open (library : Library)
  | Close (key : ℕ)
deriving DecidableEq

/-- An operation, the states before and after it, and what it returned. -/
structure Event where
  before : State
  op : Op
  result : ℤ
  after : State

def State.perform (s : State) : Op → Option (ℤ × State)
  | .Open library => (s.open_library library).map fun s => (0, s)
  | .Close key => s.close key

/-- Opens that succeed, and closes, one after the other. -/
def Step (s : State) (e : Event) (s' : State) : Prop :=
  e.before = s ∧ e.after = s' ∧ s.perform e.op = some (e.result, s')

end DarwinArt.Linker.Unload
