/-
Local lookup groups: `namespace_group_layout.rs`.

The images of a load are numbered, the new files first and the resident images after them. Each new
file belongs to the group of one root: the root of the load, or a file that another namespace's file
depends on. `plan` finds those roots by one walk of the whole graph, then walks from each root
through the images its namespace may see, and gives every new file of that namespace that is
reached, and has no owner yet, to that root.

Both loops of the source are the queue walk of `Lib/BreadthFirst`. The tables of owners mark a file
without one by `usize::MAX`, which is not the index of any image; that mark is `none` here. The
indexing of the source is `getD`, since `plan` first checks that every edge stays inside the graph.
-/
import DarwinArt.Lib.BreadthFirst

set_option autoImplicit false

namespace DarwinArt.Elf

open Lib

/-! ## The model -/

structure GroupLayout where
  /-- Candidates, including one that an earlier group has reached. -/
  roots : List ℕ
  scopes : List (List ℕ)
  /-- New files only. -/
  owners : List ℕ
deriving DecidableEq

namespace GroupLayout

/-- The owners and scopes while they are being found. -/
structure Tables where
  owners : List (Option ℕ)
  scopes : List (List ℕ)

variable (file_count : ℕ) (primary_namespaces : List ℕ) (dependencies : List (List ℕ))
  (accessible : ℕ → ℕ → Bool) {group_root : ℕ} {tables : Tables} {done : List ℕ}

/-- `dependencies[image]`. -/
def needed (image : ℕ) : List ℕ := dependencies.getD image []

/-- `primary_namespaces[image]`. -/
def primary (image : ℕ) : ℕ := primary_namespaces.getD image 0

/-- Rounds enough for a walk: one for each edge, one for the start and one to find the queue
empty. -/
def rounds : ℕ := (dependencies.map List.length).sum + 2

/-- A new file that is needed from another namespace is a root. -/
def add_root (parent : ℕ) (roots : List ℕ × Finset ℕ) (child : ℕ) : List ℕ × Finset ℕ :=
  if child < file_count ∧ primary primary_namespaces parent ≠ primary primary_namespaces child ∧
      child ∉ roots.2 then
    (roots.1 ++ [child], insert child roots.2)
  else roots

/-- The roots that the dependencies of one image add. -/
def add_roots (roots : List ℕ × Finset ℕ) (parent : ℕ) : List ℕ × Finset ℕ :=
  (needed dependencies parent).foldl (add_root file_count primary_namespaces parent) roots

/-- The first walk: the roots, in the order in which they are met. -/
def gather_roots (root : ℕ) : Option (List ℕ × Finset ℕ) :=
  BreadthFirst.walk (needed dependencies) (fun _ => true)
    (add_roots file_count primary_namespaces dependencies) (rounds dependencies) ∅ [root]
    ([root], {root})

/-- The walk from one root, through what its namespace may see. -/
def gather_group (group_root : ℕ) : Option (List ℕ) :=
  BreadthFirst.walk (needed dependencies) (accessible (primary primary_namespaces group_root))
    (fun group image => group ++ [image]) (rounds dependencies) ∅ [group_root] []

/-- One image of a group: a new file of the root's namespace that has no owner gets one. -/
def assign (group_root : ℕ) (group : List ℕ) (tables : Tables) (image : ℕ) : Tables :=
  if image < file_count ∧
      primary primary_namespaces image = primary primary_namespaces group_root ∧
      tables.owners[image]? = some none then
    { owners := tables.owners.set image (some group_root)
      scopes := tables.scopes.set image group }
  else tables

/-- One round of the second loop. -/
def assign_group (tables : Tables) (group_root : ℕ) : Option Tables := do
  let group ← gather_group primary_namespaces dependencies accessible group_root
  some (group.foldl (assign file_count primary_namespaces group_root group) tables)

/-- `plan`. `none` would mean that a walk does not end: see `plan_groups`. -/
def plan (root : ℕ) : Option (Except String GroupLayout) :=
  let count := dependencies.length
  if file_count ≤ root ∨ count < file_count ∨ primary_namespaces.length ≠ count ∨
      dependencies.flatten.any (fun child => decide (count ≤ child)) then
    some (.error "invalid namespace group graph")
  else do
    let (roots, _) ← gather_roots file_count primary_namespaces dependencies root
    let tables ← roots.foldlM (assign_group file_count primary_namespaces dependencies accessible)
      ⟨List.replicate file_count none, List.replicate file_count []⟩
    if none ∈ tables.owners then
      some (.error "new file has no accessible local group")
    else some (.ok ⟨roots, tables.scopes, tables.owners.reduceOption⟩)

/-! ## The graphs that are planned -/

/-- New files followed by residents, all edges inside, residents needing only residents, and every
new file reached from the root and visible in its own namespace. -/
structure Loadable (root : ℕ) : Prop where
  files : 0 < file_count
  count : file_count ≤ dependencies.length
  namespaces : primary_namespaces.length = dependencies.length
  edges : ∀ image, ∀ child ∈ needed dependencies image, child < dependencies.length
  residents : ∀ image, file_count ≤ image → ∀ child ∈ needed dependencies image, file_count ≤ child
  reached : ∀ file < file_count,
    Relation.ReflTransGen (fun a b => b ∈ needed dependencies a) root file
  visible : ∀ file < file_count, accessible (primary primary_namespaces file) file = true

variable {file_count primary_namespaces dependencies accessible} {root : ℕ}

namespace Loadable

section

variable (h : Loadable file_count primary_namespaces dependencies accessible root)
include h

/-- Residents lead only to residents, so the root is a new file, and so is all that leads to one. -/
theorem file_of_needed
    {a b : ℕ} (hab : b ∈ needed dependencies a) (hb : b < file_count) : a < file_count := by
  by_contra ha
  have := h.residents a (by omega) b hab
  omega

theorem root_lt :
    root < file_count := by
  have hback : ∀ {f}, Relation.ReflTransGen (fun a b => b ∈ needed dependencies a) root f →
      f < file_count → root < file_count := by
    intro f hpath
    induction hpath with
    | refl => exact id
    | tail _ hstep ih => exact fun hf => ih (h.file_of_needed hstep hf)
  exact hback (h.reached 0 h.files) h.files

end

end Loadable

/-! ## The walks -/

theorem sum_needed (dependencies : List (List ℕ)) :
    ∑ image ∈ Finset.range dependencies.length, (needed dependencies image).length =
      (dependencies.map List.length).sum := by
  induction dependencies with
  | nil => rfl
  | cons _ _ ih =>
    rw [List.length_cons, Finset.sum_range_succ', List.map_cons, List.sum_cons, ← ih, add_comm]
    rfl

/-- Every walk of `plan` ends, and visits in breadth-first order. -/
theorem walk_ends (h : Loadable file_count primary_namespaces dependencies accessible root)
    {σ : Type} (ok : ℕ → Bool) (visit : σ → ℕ → σ) (s : σ) {start : ℕ} (hstart : start < file_count) :
    ∃ l, BreadthFirst.IsOrder (needed dependencies) ok start l ∧
      BreadthFirst.walk (needed dependencies) ok visit (rounds dependencies) ∅ [start] s =
        some (l.foldl visit s) := by
  have hcount := h.count
  refine BreadthFirst.walk_spec visit (Finset.range dependencies.length) ?_ ?_ ?_ s
  · exact Finset.mem_range.mpr (by omega)
  · intro image _ child hchild
    exact Finset.mem_range.mpr (h.edges image child hchild)
  · rw [sum_needed]
    exact le_rfl

theorem foldl_push (l before : List ℕ) :
    l.foldl (fun group image => group ++ [image]) before = before ++ l := by
  induction l generalizing before with
  | nil => simp
  | cons _ _ ih => rw [List.foldl_cons, ih, List.append_assoc, List.singleton_append]

theorem gather_group_eq (h : Loadable file_count primary_namespaces dependencies accessible root)
    (hroot : group_root < file_count) :
    ∃ l, BreadthFirst.IsOrder (needed dependencies)
        (accessible (primary primary_namespaces group_root)) group_root l ∧
      gather_group primary_namespaces dependencies accessible group_root = some l := by
  obtain ⟨l, horder, hwalk⟩ := walk_ends h (accessible (primary primary_namespaces group_root))
    (fun group image => group ++ [image]) [] hroot
  refine ⟨l, horder, ?_⟩
  rw [gather_group, hwalk, foldl_push, List.nil_append]

/-! ## The roots -/

/-- What the first walk keeps: the root of the load is there, and only new files are. -/
structure Rooted (file_count root : ℕ) (roots : List ℕ × Finset ℕ) : Prop where
  known : ∀ image, image ∈ roots.2 ↔ image ∈ roots.1
  first : root ∈ roots.1
  files : ∀ image ∈ roots.1, image < file_count

variable {roots : List ℕ × Finset ℕ}

theorem Rooted.add_root (h : Rooted file_count root roots)
    (primary_namespaces : List ℕ) (parent child : ℕ) :
    Rooted file_count root (add_root file_count primary_namespaces parent roots child) := by
  unfold GroupLayout.add_root
  split_ifs with hnew
  · refine ⟨?_, ?_, ?_⟩
    · intro image
      simp only [Finset.mem_insert, h.known image, List.mem_append, List.mem_singleton]
      exact or_comm
    · exact List.mem_append_left _ h.first
    · intro image himage
      rcases List.mem_append.mp himage with himage | himage
      · exact h.files image himage
      · rw [List.mem_singleton.mp himage]
        exact hnew.1
  · exact h

theorem add_root_subset (parent child : ℕ) (roots : List ℕ × Finset ℕ) :
    roots.1 ⊆ (add_root file_count primary_namespaces parent roots child).1 := by
  unfold add_root
  split_ifs
  · exact List.subset_append_left _ _
  · exact List.Subset.refl _

/-- A new file of another namespace is a root afterwards. -/
theorem mem_add_root (h : Rooted file_count root roots)
    {parent child : ℕ} (hfile : child < file_count)
    (hns : primary primary_namespaces parent ≠ primary primary_namespaces child) :
    child ∈ (add_root file_count primary_namespaces parent roots child).1 := by
  unfold GroupLayout.add_root
  by_cases hknown : child ∈ roots.2
  · rw [if_neg (by simp [hknown])]
    exact (h.known child).mp hknown
  · rw [if_pos ⟨hfile, hns, hknown⟩]
    simp

theorem foldl_add_root (primary_namespaces : List ℕ) (parent : ℕ) (children : List ℕ)
    (h : Rooted file_count root roots) :
    let roots' := children.foldl (add_root file_count primary_namespaces parent) roots
    Rooted file_count root roots' ∧ roots.1 ⊆ roots'.1 ∧
      ∀ child ∈ children, child < file_count →
        primary primary_namespaces parent ≠ primary primary_namespaces child →
        child ∈ roots'.1 := by
  induction children generalizing roots with
  | nil => exact ⟨h, List.Subset.refl _, by simp⟩
  | cons x _ ih =>
    obtain ⟨hrooted, hsub, hin⟩ := ih (h.add_root primary_namespaces parent x)
    refine ⟨hrooted, List.Subset.trans (add_root_subset parent x roots) hsub, ?_⟩
    intro child hchild hfile hns
    rcases List.mem_cons.mp hchild with rfl | hchild
    · exact hsub (mem_add_root h hfile hns)
    · exact hin child hchild hfile hns

theorem foldl_add_roots (parents : List ℕ) (h : Rooted file_count root roots) :
    let roots' := parents.foldl (add_roots file_count primary_namespaces dependencies) roots
    Rooted file_count root roots' ∧ roots.1 ⊆ roots'.1 ∧
      ∀ parent ∈ parents, ∀ child ∈ needed dependencies parent, child < file_count →
        primary primary_namespaces parent ≠ primary primary_namespaces child →
        child ∈ roots'.1 := by
  induction parents generalizing roots with
  | nil => exact ⟨h, List.Subset.refl _, by simp⟩
  | cons x _ ih =>
    obtain ⟨hrooted, hsub, hin⟩ := foldl_add_root primary_namespaces x (needed dependencies x) h
    obtain ⟨hrooted', hsub', hin'⟩ := ih hrooted
    refine ⟨hrooted', List.Subset.trans hsub hsub', ?_⟩
    intro parent hparent child hchild hfile hns
    rcases List.mem_cons.mp hparent with rfl | hparent
    · exact hsub' (hin child hchild hfile hns)
    · exact hin' parent hparent child hchild hfile hns

section

variable (h : Loadable file_count primary_namespaces dependencies accessible root)
include h

/-- The first walk finds the root, only new files, and every new file that a reached image of
another namespace needs. -/
theorem gather_roots_eq :
    ∃ roots, gather_roots file_count primary_namespaces dependencies root = some roots ∧
      Rooted file_count root roots ∧
      ∀ parent, Relation.ReflTransGen (fun a b => b ∈ needed dependencies a) root parent →
        ∀ child ∈ needed dependencies parent, child < file_count →
        primary primary_namespaces parent ≠ primary primary_namespaces child →
        child ∈ roots.1 := by
  obtain ⟨l, horder, hwalk⟩ := walk_ends h (fun _ => true)
    (add_roots file_count primary_namespaces dependencies) ([root], {root}) h.root_lt
  have hstart : Rooted file_count root ([root], {root}) :=
    ⟨by simp, by simp, fun image himage => by simpa [List.mem_singleton.mp himage] using h.root_lt⟩
  obtain ⟨hrooted, -, hin⟩ := foldl_add_roots l hstart
  refine ⟨_, hwalk, hrooted, ?_⟩
  intro parent hpath
  refine hin parent ((horder.mem_iff rfl).mpr ?_)
  exact Relation.ReflTransGen.mono (fun a b hab => ⟨hab, rfl⟩) _ _ hpath

/-- **Every new file is reached by a root of its namespace.** Along a path from the root of the
load, the last file that was entered from another namespace is a root, and from there on everything
is in the file's own namespace, which can see it. -/
theorem exists_root (hrooted : Rooted file_count root roots)
    (hin : ∀ parent, Relation.ReflTransGen (fun a b => b ∈ needed dependencies a) root parent →
      ∀ child ∈ needed dependencies parent, child < file_count →
      primary primary_namespaces parent ≠ primary primary_namespaces child → child ∈ roots.1)
    {file : ℕ} (hpath : Relation.ReflTransGen (fun a b => b ∈ needed dependencies a) root file)
    (hfile : file < file_count) :
    ∃ group_root ∈ roots.1, primary primary_namespaces group_root = primary primary_namespaces file ∧
      BreadthFirst.Reaches (needed dependencies) (accessible (primary primary_namespaces file))
        group_root file := by
  induction hpath with
  | refl => exact ⟨root, hrooted.first, rfl, .refl⟩
  | @tail a b hpath hstep ih =>
    by_cases hns : primary primary_namespaces a = primary primary_namespaces b
    · obtain ⟨group_root, hmem, hsame, hreach⟩ := ih (h.file_of_needed hstep hfile)
      refine ⟨group_root, hmem, hsame.trans hns, ?_⟩
      rw [hns] at hreach
      exact Relation.ReflTransGen.tail hreach ⟨hstep, h.visible b hfile⟩
    · exact ⟨b, hin a hpath b hstep hfile hns, rfl, .refl⟩

end

/-! ## The owners -/

/-- An image of a group that is to get this root as its owner. -/
def Unowned (file_count : ℕ) (primary_namespaces : List ℕ) (group_root : ℕ) (tables : Tables)
    (image : ℕ) : Prop :=
  image < file_count ∧ primary primary_namespaces image = primary primary_namespaces group_root ∧
    tables.owners[image]? = some none

/-- The two tables have an entry for each new file. -/
def Tables.Sized (tables : Tables) (file_count : ℕ) : Prop :=
  tables.owners.length = file_count ∧ tables.scopes.length = file_count

/-- What giving out one group does: exactly its unowned files get the root and the group. -/
theorem foldl_assign (primary_namespaces : List ℕ) (group_root : ℕ) (group images : List ℕ)
    (hsized : tables.Sized file_count) :
    let tables' := images.foldl (assign file_count primary_namespaces group_root group) tables
    tables'.Sized file_count ∧ ∀ file,
      (file ∈ images ∧ Unowned file_count primary_namespaces group_root tables file →
        tables'.owners[file]? = some (some group_root) ∧ tables'.scopes[file]? = some group) ∧
      (¬ (file ∈ images ∧ Unowned file_count primary_namespaces group_root tables file) →
        tables'.owners[file]? = tables.owners[file]? ∧
        tables'.scopes[file]? = tables.scopes[file]?) := by
  induction images generalizing tables with
  | nil => exact ⟨hsized, fun file => ⟨by simp, fun _ => ⟨rfl, rfl⟩⟩⟩
  | cons x images ih =>
    by_cases hx : Unowned file_count primary_namespaces group_root tables x
    · -- `x` gets its owner now, and keeps it, since it is unowned no more
      have hassign : assign file_count primary_namespaces group_root group tables x =
          ⟨tables.owners.set x (some group_root), tables.scopes.set x group⟩ := if_pos hx
      have hsized' : (assign file_count primary_namespaces group_root group tables x).Sized
          file_count := by
        rw [hassign]
        exact ⟨by simpa using hsized.1, by simpa using hsized.2⟩
      obtain ⟨hsized'', hfiles⟩ := ih hsized'
      refine ⟨hsized'', fun file => ?_⟩
      have hlt : x < tables.owners.length := by rw [hsized.1]; exact hx.1
      have hlt' : x < tables.scopes.length := by rw [hsized.2]; exact hx.1
      rcases eq_or_ne file x with rfl | hfile
      · have hkeep := (hfiles file).2 (by
          rintro ⟨-, -, -, hnone⟩
          rw [hassign, List.getElem?_set_self hlt] at hnone
          simp at hnone)
        rw [hassign, List.getElem?_set_self hlt, List.getElem?_set_self hlt'] at hkeep
        rw [List.foldl_cons, hassign]
        exact ⟨fun _ => hkeep, fun hnot => absurd ⟨List.mem_cons_self, hx⟩ hnot⟩
      · have hown : (assign file_count primary_namespaces group_root group tables x).owners[file]? =
            tables.owners[file]? := by
          rw [hassign, List.getElem?_set_ne (Ne.symm hfile)]
        have hscope : (assign file_count primary_namespaces group_root group tables x).scopes[file]? =
            tables.scopes[file]? := by
          rw [hassign, List.getElem?_set_ne (Ne.symm hfile)]
        have hf := hfiles file
        unfold Unowned at hf ⊢
        rw [hown, hscope] at hf
        rwa [List.mem_cons, or_iff_right hfile]
    · have hassign : assign file_count primary_namespaces group_root group tables x = tables :=
        if_neg hx
      obtain ⟨hsized', hfiles⟩ := ih hsized
      simp only [List.foldl_cons, hassign]
      refine ⟨hsized', fun file => ?_⟩
      have hmem : (file ∈ x :: images ∧ Unowned file_count primary_namespaces group_root tables file) ↔
          (file ∈ images ∧ Unowned file_count primary_namespaces group_root tables file) := by
        rw [List.mem_cons]
        constructor
        · rintro ⟨rfl | hmem, hun⟩
          · exact absurd hun hx
          · exact ⟨hmem, hun⟩
        · exact fun ⟨hmem, hun⟩ => ⟨.inr hmem, hun⟩
      rw [hmem]
      exact hfiles file

/-- The tables after the groups of these roots have been given out. -/
structure Assigned (file_count : ℕ) (primary_namespaces : List ℕ) (dependencies : List (List ℕ))
    (accessible : ℕ → ℕ → Bool) (done : List ℕ) (tables : Tables) : Prop where
  sized : tables.Sized file_count
  owned : ∀ file group_root, tables.owners[file]? = some (some group_root) →
    group_root ∈ done ∧
      primary primary_namespaces group_root = primary primary_namespaces file ∧
      ∃ scope, tables.scopes[file]? = some scope ∧ file ∈ scope ∧
        BreadthFirst.IsOrder (needed dependencies) (accessible (primary primary_namespaces file))
          group_root scope
  covered : ∀ group_root ∈ done, ∀ file < file_count,
    primary primary_namespaces group_root = primary primary_namespaces file →
    BreadthFirst.Reaches (needed dependencies) (accessible (primary primary_namespaces file))
      group_root file →
    ∃ owner, tables.owners[file]? = some (some owner)

section

variable (h : Loadable file_count primary_namespaces dependencies accessible root)
include h

theorem Assigned.assign_group
    (ha : Assigned file_count primary_namespaces dependencies accessible done tables)
    (hroot : group_root < file_count) :
    ∃ tables', assign_group file_count primary_namespaces dependencies accessible tables group_root =
        some tables' ∧
      Assigned file_count primary_namespaces dependencies accessible (done ++ [group_root])
        tables' := by
  obtain ⟨group, horder, hgroup⟩ := gather_group_eq h hroot
  obtain ⟨hsized, hfiles⟩ := foldl_assign primary_namespaces group_root group group
    ha.sized
  refine ⟨_, by rw [GroupLayout.assign_group, hgroup]; rfl, hsized, ?_, ?_⟩
  · intro file owner howner
    by_cases hnew : file ∈ group ∧ Unowned file_count primary_namespaces group_root tables file
    · obtain ⟨howner', hscope⟩ := (hfiles file).1 hnew
      obtain rfl : group_root = owner := by
        rw [howner'] at howner
        exact Option.some.inj (Option.some.inj howner)
      refine ⟨by simp, hnew.2.2.1.symm, group, hscope, hnew.1, ?_⟩
      rwa [hnew.2.2.1]
    · obtain ⟨howner', hscope⟩ := (hfiles file).2 hnew
      rw [howner'] at howner
      rw [hscope]
      obtain ⟨hdone, hrest⟩ := ha.owned file owner howner
      exact ⟨List.mem_append_left _ hdone, hrest⟩
  · intro owner hdone file hfile hns hreach
    by_cases hnew : file ∈ group ∧ Unowned file_count primary_namespaces group_root tables file
    · exact ⟨group_root, ((hfiles file).1 hnew).1⟩
    · rw [((hfiles file).2 hnew).1]
      rcases List.mem_append.mp hdone with hdone | hdone
      · exact ha.covered owner hdone file hfile hns hreach
      · -- the file is in this group, so it had an owner before
        obtain rfl := List.mem_singleton.mp hdone
        have hstart : accessible (primary primary_namespaces owner) owner = true :=
          h.visible owner hroot
        have hmem : file ∈ group := by
          rwa [horder.mem_iff hstart, hns]
        have hlt : file < tables.owners.length := by rw [ha.sized.1]; exact hfile
        cases hentry : tables.owners[file]? with
        | none => exact absurd hlt (by simpa using hentry)
        | some entry =>
          cases entry with
          | none => exact absurd ⟨hmem, hfile, hns.symm, hentry⟩ hnew
          | some previous => exact ⟨previous, rfl⟩

theorem foldlM_assign_group (roots : List ℕ) (hroots : ∀ r ∈ roots, r < file_count)
    (ha : Assigned file_count primary_namespaces dependencies accessible done tables) :
    ∃ tables', roots.foldlM
        (assign_group file_count primary_namespaces dependencies accessible) tables = some tables' ∧
      Assigned file_count primary_namespaces dependencies accessible (done ++ roots) tables' := by
  induction roots generalizing done tables with
  | nil => exact ⟨tables, rfl, by simpa using ha⟩
  | cons r _ ih =>
    obtain ⟨tables₁, hstep, ha₁⟩ := ha.assign_group h (hroots r List.mem_cons_self)
    obtain ⟨tables₂, hrest, ha₂⟩ := ih (fun r' hr' => hroots r' (List.mem_cons_of_mem _ hr')) ha₁
    refine ⟨tables₂, ?_, by simpa using ha₂⟩
    rwa [List.foldlM_cons, hstep]

end

/-! ## The plan -/

theorem getElem?_reduceOption {owners : List (Option ℕ)} (h : none ∉ owners) (file : ℕ) :
    owners.reduceOption[file]? = (owners[file]?).join := by
  induction owners generalizing file with
  | nil => rfl
  | cons owner _ ih =>
    cases owner with
    | none => exact absurd List.mem_cons_self h
    | some =>
      rw [List.reduceOption_cons_of_some]
      cases file with
      | zero => rfl
      | succ file => exact ih (fun hmem => h (List.mem_cons_of_mem _ hmem)) file

/-- **The plan of a load with at least one new file.** It succeeds; every new file has one owner, a
root of its own namespace; and its scope is the breadth-first order, from that owner, of the images
reached through what the file's namespace may see. -/
theorem plan_groups (h : Loadable file_count primary_namespaces dependencies accessible root) :
    ∃ layout, plan file_count primary_namespaces dependencies accessible root = some (.ok layout) ∧
      layout.owners.length = file_count ∧ layout.scopes.length = file_count ∧
      ∀ file < file_count, ∃ owner scope, layout.owners[file]? = some owner ∧
        layout.scopes[file]? = some scope ∧ owner ∈ layout.roots ∧ owner < file_count ∧
        primary primary_namespaces owner = primary primary_namespaces file ∧
        BreadthFirst.IsOrder (needed dependencies) (accessible (primary primary_namespaces file))
          owner scope ∧
        scope.Nodup ∧
        (∀ image, image ∈ scope ↔ BreadthFirst.Reaches (needed dependencies)
          (accessible (primary primary_namespaces file)) owner image) ∧
        file ∈ scope ∧
        (∀ image ∈ scope, accessible (primary primary_namespaces file) image = true) ∧
        ∀ other : ℕ, layout.owners[other]? = some owner → layout.scopes[other]? = some scope := by
  have hroot := h.root_lt
  have hcount := h.count
  obtain ⟨roots, hgather, hrooted, hin⟩ := gather_roots_eq h
  have hempty : Assigned file_count primary_namespaces dependencies accessible []
      ⟨List.replicate file_count none, List.replicate file_count []⟩ := by
    refine ⟨⟨by simp, by simp⟩, ?_, by simp⟩
    intro file group_root hentry
    simp [List.getElem?_replicate] at hentry
  obtain ⟨tables, hfold, ha⟩ := foldlM_assign_group h roots.1 hrooted.files hempty
  rw [List.nil_append] at ha
  have howned : ∀ file < file_count, ∃ owner, tables.owners[file]? = some (some owner) := by
    intro file hfile
    obtain ⟨group_root, hmem, hns, hreach⟩ := exists_root h hrooted hin (h.reached file hfile) hfile
    exact ha.covered group_root hmem file hfile hns hreach
  have hnone : none ∉ tables.owners := by
    intro hmem
    obtain ⟨file, hentry⟩ := List.mem_iff_getElem?.mp hmem
    obtain ⟨hlt, -⟩ := getElem?_eq_some_iff.mp hentry
    obtain ⟨owner, howner⟩ := howned file (by rw [← ha.sized.1]; exact hlt)
    rw [hentry] at howner
    simp at howner
  have hentry : ∀ (file owner : ℕ), tables.owners.reduceOption[file]? = some owner ↔
      tables.owners[file]? = some (some owner) := by
    intro file owner
    rw [getElem?_reduceOption hnone]
    cases tables.owners[file]? <;> simp [Option.join]
  have hgood : ¬ (file_count ≤ root ∨ dependencies.length < file_count ∨
      primary_namespaces.length ≠ dependencies.length ∨
      dependencies.flatten.any (fun child => decide (dependencies.length ≤ child)) = true) := by
    rintro (hbad | hbad | hbad | hbad)
    · omega
    · omega
    · exact hbad h.namespaces
    · obtain ⟨child, hmem, hbad⟩ := List.any_eq_true.mp hbad
      obtain ⟨l, hl, hchild⟩ := List.mem_flatten.mp hmem
      obtain ⟨image, himage⟩ := List.mem_iff_getElem?.mp hl
      have hneeded : needed dependencies image = l := by
        simp [needed, List.getD_eq_getElem?_getD, himage]
      have := h.edges image child (hneeded ▸ hchild)
      simp only [decide_eq_true_eq] at hbad
      omega
  refine ⟨⟨roots.1, tables.scopes, tables.owners.reduceOption⟩, ?_, ?_, ha.sized.2, ?_⟩
  · simp only [plan, if_neg hgood, hgather, Option.bind_eq_bind, Option.bind_some, hfold,
      if_neg hnone]
  · rw [List.reduceOption_length_eq_iff.mpr, ha.sized.1]
    intro owner howner
    cases owner with
    | none => exact absurd howner hnone
    | some => rfl
  · intro file hfile
    obtain ⟨owner, howner⟩ := howned file hfile
    obtain ⟨hmem, hns, scope, hscope, hin', horder⟩ := ha.owned file owner howner
    have hlt := hrooted.files owner hmem
    have hstart : accessible (primary primary_namespaces file) owner = true := by
      rw [← hns]
      exact h.visible owner hlt
    refine ⟨owner, scope, (hentry file owner).mpr howner, hscope, hmem, hlt, hns, horder,
      horder.nodup, fun image => horder.mem_iff hstart, hin', fun image => horder.ok_of_mem, ?_⟩
    intro other hother
    obtain ⟨-, hns', scope', hscope', -, horder'⟩ := ha.owned other owner ((hentry other owner).mp hother)
    rw [← hns'] at horder'
    rw [← hns] at horder
    rw [hscope', horder'.unique horder]

/-- An application, a public library of the system, a private one behind it, and a resident. -/
def boundary_dependencies : List (List ℕ) := [[1, 3], [2], [], []]

def boundary_namespaces : List ℕ := [10, 20, 20, 30]

/-- The application sees itself, the public library and the resident. -/
def boundary_accessible (namespace_id image : ℕ) : Bool :=
  primary boundary_namespaces image == namespace_id ||
    (namespace_id == 10 && (image == 1 || image == 3))

theorem boundary_loadable :
    Loadable 3 boundary_namespaces boundary_dependencies boundary_accessible 0 := by
  have houtside : ∀ image, 4 ≤ image → needed boundary_dependencies image = [] := by
    intro image himage
    exact List.getD_eq_default _ _ himage
  have h1 : Relation.ReflTransGen (fun a b => b ∈ needed boundary_dependencies a) 0 1 :=
    .single (by decide)
  refine ⟨by decide, by decide, by decide, ?_, ?_, ?_, by decide⟩
  · intro image child hchild
    by_cases himage : image < 4
    · revert child
      interval_cases image <;> decide
    · rw [houtside image (by omega)] at hchild
      simp at hchild
  · intro image himage child hchild
    by_cases hlt : image < 4
    · obtain rfl : image = 3 := by omega
      simp [needed, boundary_dependencies] at hchild
    · rw [houtside image (by omega)] at hchild
      simp at hchild
  · intro file hfile
    interval_cases file
    · exact .refl
    · exact h1
    · exact h1.tail (by decide)

/-- The private library is owned by the public one, and the application does not see it. -/
theorem plan_groups_boundary :
    Loadable 3 boundary_namespaces boundary_dependencies boundary_accessible 0 ∧
      ∃ layout, plan 3 boundary_namespaces boundary_dependencies boundary_accessible 0 =
          some (.ok layout) ∧
        layout = ⟨[0, 1], [[0, 1, 3], [1, 2], [1, 2]], [0, 1, 1]⟩ ∧
        layout.owners.length = 3 := by
  refine ⟨boundary_loadable, ?_⟩
  obtain ⟨layout, hplan, howners, -⟩ := plan_groups boundary_loadable
  have hvalue : plan 3 boundary_namespaces boundary_dependencies boundary_accessible 0 =
      some (.ok ⟨[0, 1], [[0, 1, 3], [1, 2], [1, 2]], [0, 1, 1]⟩) := by rfl
  rw [hvalue, Option.some.injEq, Except.ok.injEq] at hplan
  exact ⟨layout, by rw [hvalue, hplan], hplan.symm, howners⟩

/-- Without any new file there is no root, and the plan is refused: everything that is asked of new
files holds of none. -/
theorem plan_without_new_files :
    (∀ file < 0, Relation.ReflTransGen (fun a b => b ∈ needed [[]] a) 0 file ∧
      (fun _ _ => true : ℕ → ℕ → Bool) (primary [10] file) file = true) ∧
    (∀ image, ∀ child ∈ needed [[]] image, child < 1) ∧
    plan 0 [10] [[]] (fun _ _ => true) 0 = some (.error "invalid namespace group graph") := by
  refine ⟨by simp, ?_, rfl⟩
  intro image child hchild
  cases image with
  | zero => simp [needed] at hchild
  | succ => simp [needed] at hchild

end GroupLayout
end DarwinArt.Elf
