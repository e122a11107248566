/-
The mount table of a guest prefix: `MountTable::resolve`, and `ParsedPath::new` of the broker, which
takes the relative paths it returns.

A path is resolved by its text alone: components are pushed, `.` and empty ones are skipped, and
`..` pops, which at the root does nothing. The mounts are sealed in the order of their lengths, so
the first that fits is the longest. Whether a path has to name a directory is told by its last byte
only.
-/
import DarwinArt.Lib.Fallible

set_option autoImplicit false

namespace DarwinArt.Prefix

open Lib

/-- The bytes of a path, or of a component of one. -/
abbrev Text := List UInt8

/-- A longer path is refused. -/
def MAX_GUEST_PATH_BYTES : ℕ := 4095

/-- The byte of `/`. -/
def slash : UInt8 := 47

/-- The component `.`. -/
def dot : Text := [46]

/-- The component `..`. -/
def dot_dot : Text := [46, 46]

/-- What kind of tree is mounted. -/
inductive MountKind
  | Immutable
  | Private
  | Shared
  | Synthetic
deriving DecidableEq

/-- The errors of the table. -/
inductive PrefixError
  | InvalidPath
  | DuplicateMount
  | TableSealed
  | TableNotSealed
  | NoMount
deriving DecidableEq

/-- A mount, and the components of the path it stands at. -/
structure Mount where
  id : ℕ
  kind : MountKind
  writable : Bool
  components : List Text

/-- Where a guest path leads: a mount, and a path in it. -/
structure Resolution where
  mount_id : ℕ
  kind : MountKind
  writable : Bool
  requires_directory : Bool
  normalized_path : Text
  relative_path : Text

/-- A path is not empty, not too long, and has no NUL in it. -/
def validate_text (path : Text) : Except PrefixError Unit :=
  ensure (¬ (path = [] ∨ MAX_GUEST_PATH_BYTES < path.length ∨ 0 ∈ path)) .InvalidPath

section

variable (components : List Text)

/-- One round of the loop of `apply_components`. -/
def apply_component (component : Text) : List Text :=
  if component = [] ∨ component = dot then components
  else if component = dot_dot then components.dropLast
  else components ++ [component]

/-- The components after a path, from those where it starts. -/
def apply_components (path : Text) : List Text :=
  (path.splitOn slash).foldl apply_component components

/-- The absolute path of the components is not too long. -/
def validate_normalized_length : Except PrefixError Unit :=
  ensure (1 + (components.map List.length).sum + (components.length - 1) ≤ MAX_GUEST_PATH_BYTES)
    .InvalidPath

/-- The components of an absolute path. -/
def normalize_absolute (path : Text) : Except PrefixError (List Text) := do
  validate_text path
  ensure ([slash] <+: path) .InvalidPath
  validate_normalized_length (apply_components [] path)
  return apply_components [] path

/-- The components of a path; one that is not absolute starts at `cwd`. -/
def normalize (cwd path : Text) : Except PrefixError (List Text) := do
  validate_text path
  let components ← (if [slash] <+: path then pure [] else normalize_absolute cwd)
  validate_normalized_length (apply_components components path)
  return apply_components components path

/-- The components as a relative path. -/
def join_relative : Text := [slash].intercalate components

/-- The components as an absolute path. -/
def join_absolute : Text :=
  if components = [] then [slash] else slash :: join_relative components

end

/-- The mounts. A sealed table does not change. -/
structure MountTable where
  mounts : List Mount
  sealed : Bool

namespace MountTable

/-- An empty table. -/
def new : MountTable := ⟨[], false⟩

/-- The id and the place of a mount have to be new. -/
def add_mount (table : MountTable) (id : ℕ) (kind : MountKind) (writable : Bool) :
    Text → Except PrefixError MountTable := fun guest_prefix => do
  ensure (table.sealed = false) .TableSealed
  let components ← normalize_absolute guest_prefix
  ensure (¬ ∃ mount ∈ table.mounts, mount.id = id ∨ mount.components = components) .DuplicateMount
  return { table with mounts := table.mounts ++ [⟨id, kind, writable, components⟩] }

/-- The sort is stable. -/
def seal_table (table : MountTable) : Except PrefixError MountTable := do
  ensure (table.sealed = false) .TableSealed
  return ⟨table.mounts.mergeSort fun left right => right.components.length ≤ left.components.length,
    true⟩

/-- The first mount that the components begin with, and the rest of them. -/
def resolve (table : MountTable) (cwd path : Text) : Except PrefixError Resolution := do
  ensure (table.sealed = true) .TableNotSealed
  let components ← normalize cwd path
  let mount ← okOr (table.mounts.find? fun mount => mount.components.isPrefixOf components) .NoMount
  return {
    mount_id := mount.id
    kind := mount.kind
    writable := mount.writable
    requires_directory := 1 < path.length && path.getLast? == some slash
    normalized_path := join_absolute components
    relative_path := join_relative (components.drop mount.components.length) }

end MountTable

/-! ## The broker's parser -/

/-- Why the broker refuses a path. -/
inductive PathViolation
  | ContainsNul
  | Absolute
  | EmptyComponent
  | CurrentDirectory
  | ParentDirectory
deriving DecidableEq

/-- A relative path that the broker takes. -/
structure ParsedPath where
  components : List Text
  requires_directory : Bool

/-- One round of the loop of `ParsedPath::new`. -/
def parse_component (component : Text) : Except PathViolation Text := do
  ensure (component ≠ []) .EmptyComponent
  ensure (component ≠ dot) .CurrentDirectory
  ensure (component ≠ dot_dot) .ParentDirectory
  return component

/-- The empty path is the root, and one slash at the end is allowed. -/
def ParsedPath.new (path : Text) : Except PathViolation ParsedPath := do
  ensure (0 ∉ path) .ContainsNul
  ensure (¬ [slash] <+: path) .Absolute
  if path = [] then return ⟨[], true⟩
  let requires_directory := path.getLast? == some slash
  let body := if requires_directory then path.dropLast else path
  ensure (body ≠ []) .EmptyComponent
  return ⟨← (body.splitOn slash).mapM parse_component, requires_directory⟩

/-! ## Components -/

/-- A component that stands for itself. -/
structure Normal (component : Text) : Prop where
  nonempty : component ≠ []
  not_dot : component ≠ dot
  not_dot_dot : component ≠ dot_dot
  no_slash : slash ∉ component
  no_nul : 0 ∉ component

section Components

variable {a b : UInt8} {path : Text} {component : Text} {components : List Text}

theorem splitOn_cons_self : (a :: path).splitOn a = [] :: path.splitOn a := by
  simp [List.splitOn, List.splitOnP_cons_eq_if_modifyHead]

theorem splitOn_cons_of_ne (h : b ≠ a) :
    (b :: path).splitOn a = (path.splitOn a).modifyHead (b :: ·) := by
  simp [List.splitOn, List.splitOnP_cons_eq_if_modifyHead, h]

/-- The parts have no separator in them, and consist of what was split. -/
theorem mem_splitOn (h : component ∈ path.splitOn a) : a ∉ component ∧ component ⊆ path := by
  induction path generalizing component with
  | nil =>
    rw [List.splitOn_nil, List.mem_singleton] at h
    simp [h]
  | cons b path ih =>
    obtain ⟨_, _, hsplit⟩ := List.exists_cons_of_ne_nil (List.splitOn_ne_nil a path)
    rw [hsplit] at ih
    by_cases hb : b = a
    · rw [hb, splitOn_cons_self, hsplit] at h
      rcases List.mem_cons.mp h with rfl | h
      · simp
      · exact ⟨(ih h).1, List.subset_cons_of_subset _ (ih h).2⟩
    · rw [splitOn_cons_of_ne hb, hsplit] at h
      rcases List.mem_cons.mp h with rfl | h
      · obtain ⟨hnot, hsub⟩ := ih List.mem_cons_self
        exact ⟨by simp [Ne.symm hb, hnot], List.cons_subset_cons _ hsub⟩
      · exact ⟨(ih (List.mem_cons_of_mem _ h)).1,
          List.subset_cons_of_subset _ (ih (List.mem_cons_of_mem _ h)).2⟩

/-- The last part is empty where the last byte is a separator. -/
theorem getLast_splitOn (h : path ≠ []) :
    (path.splitOn a).getLast? = some [] ↔ path.getLast? = some a := by
  induction path with
  | nil => exact absurd rfl h
  | cons b path ih =>
    obtain ⟨first, rest, hsplit⟩ := List.exists_cons_of_ne_nil (List.splitOn_ne_nil a path)
    by_cases hpath : path = []
    · subst hpath
      by_cases hb : b = a
      · simp [hb, splitOn_cons_self]
      · simp [splitOn_cons_of_ne hb, hb]
    · have ih := ih hpath
      rw [List.getLast?_cons_of_ne_nil hpath, ← ih]
      by_cases hb : b = a
      · rw [hb, splitOn_cons_self, List.getLast?_cons_of_ne_nil (List.splitOn_ne_nil a path)]
      · rw [splitOn_cons_of_ne hb, hsplit]
        cases rest with
        | nil =>
          -- there is one part, which is all of the path
          have hjoin : [a].intercalate (path.splitOn a) = path := List.intercalate_splitOn a
          rw [hsplit] at hjoin
          have hfirst : first ≠ [] := fun hnil => hpath (by rw [← hjoin, hnil]; rfl)
          simp [hfirst]
        | cons => simp

theorem nil_notMem (h : ∀ c ∈ components, Normal c) : [] ∉ components :=
  fun hmem => (h [] hmem).nonempty rfl

theorem Normal.apply (h : Normal component) :
    apply_component components component = components ++ [component] := by
  unfold apply_component
  rw [if_neg (not_or.mpr ⟨h.nonempty, h.not_dot⟩), if_neg h.not_dot_dot]

theorem foldl_apply_component {base : List Text} (h : ∀ c ∈ components, Normal c) :
    components.foldl apply_component base = base ++ components := by
  induction components generalizing base with
  | nil => simp
  | cons c _ ih =>
    rw [List.foldl_cons, (h c List.mem_cons_self).apply, ih fun x hx => h x (by simp [hx])]
    simp

/-- What is pushed is normal, and what is popped makes no difference. -/
theorem normal_apply_components {base : List Text} (hbase : ∀ c ∈ base, Normal c) (hnul : 0 ∉ path) :
    ∀ c ∈ apply_components base path, Normal c := by
  unfold apply_components
  have hparts : ∀ c ∈ path.splitOn slash, slash ∉ c ∧ 0 ∉ c := fun c hc =>
    ⟨(mem_splitOn hc).1, fun h0 => hnul ((mem_splitOn hc).2 h0)⟩
  generalize path.splitOn slash = parts at hparts
  induction parts generalizing base with
  | nil => exact hbase
  | cons part _ ih =>
    refine ih (fun c hc => ?_) fun c hc => hparts c (List.mem_cons_of_mem _ hc)
    unfold apply_component at hc
    split_ifs at hc with hempty hparent
    · exact hbase c hc
    · exact hbase c (List.dropLast_subset _ hc)
    · rcases List.mem_append.mp hc with hc | hc
      · exact hbase c hc
      · rw [List.mem_singleton.mp hc]
        obtain ⟨hslash, hnul⟩ := hparts part List.mem_cons_self
        obtain ⟨hnonempty, hdot⟩ := not_or.mp hempty
        exact ⟨hnonempty, hdot, hparent, hslash, hnul⟩

theorem splitOn_join_relative (h : ∀ c ∈ components, Normal c) (hne : components ≠ []) :
    (join_relative components).splitOn slash = components :=
  List.splitOn_intercalate slash (fun c hc => (h c hc).no_slash) hne

theorem length_join_relative :
    (join_relative components).length = (components.map List.length).sum + (components.length - 1) := by
  unfold join_relative
  induction components with
  | nil => rfl
  | cons _ components ih =>
    cases components with
    | nil => simp [List.intercalate]
    | cons =>
      rw [List.intercalate_cons_cons, List.length_append, List.length_append, ih]
      simp
      omega

theorem no_nul_join_relative (h : ∀ c ∈ components, Normal c) : 0 ∉ join_relative components := by
  unfold join_relative
  induction components with
  | nil => simp [List.intercalate]
  | cons c components ih =>
    have hc := (h c List.mem_cons_self).no_nul
    cases components with
    | nil => simpa [List.intercalate] using hc
    | cons =>
      rw [List.intercalate_cons_cons]
      simp only [List.mem_append, List.mem_singleton, not_or]
      exact ⟨⟨hc, by decide⟩, ih fun x hx => h x (List.mem_cons_of_mem _ hx)⟩

end Components

/-! ## Normalization -/

/-- The components from which the text of a path goes on. -/
def Starts (cwd path : Text) (base : List Text) : Prop :=
  if [slash] <+: path then base = [] else normalize_absolute cwd = .ok base

section Normalize

variable {cwd path : Text} {components : List Text}

theorem validate_text_eq_ok {u : Unit} : validate_text path = .ok u ↔
    path ≠ [] ∧ path.length ≤ MAX_GUEST_PATH_BYTES ∧ 0 ∉ path := by
  rw [validate_text, ensure_eq_ok]
  simp only [not_or, not_lt, ne_eq]

theorem normalize_absolute_normal (h : normalize_absolute path = .ok components) :
    ∀ c ∈ components, Normal c := by
  simp only [normalize_absolute, bind_eq_ok, pure_eq_ok, validate_text_eq_ok] at h
  obtain ⟨-, ⟨-, -, hnul⟩, -, -, -, -, rfl⟩ := h
  exact normal_apply_components (by simp) hnul

theorem normalize_spec (h : normalize cwd path = .ok components) : path ≠ [] ∧
    (∃ base, Starts cwd path base ∧ components = apply_components base path) ∧
    (∀ c ∈ components, Normal c) ∧
    1 + (join_relative components).length ≤ MAX_GUEST_PATH_BYTES := by
  simp only [normalize, bind_eq_ok, pure_eq_ok, validate_text_eq_ok, validate_normalized_length,
    ensure_eq_ok] at h
  obtain ⟨-, ⟨hne, -, hnul⟩, base, hbase, -, _, rfl⟩ := h
  have hstarts : Starts cwd path base := by
    unfold Starts
    split_ifs at hbase ⊢
    · exact (pure_eq_ok.mp hbase).symm
    · exact hbase
  refine ⟨hne, ⟨base, hstarts, rfl⟩, normal_apply_components ?_ hnul, ?_⟩
  · unfold Starts at hstarts
    split_ifs at hstarts
    · simp [hstarts]
    · exact normalize_absolute_normal hstarts
  · rw [length_join_relative]
    omega

/-- A normalized path is normalized already. -/
theorem normalize_join_absolute (h : ∀ c ∈ components, Normal c)
    (hlength : 1 + (join_relative components).length ≤ MAX_GUEST_PATH_BYTES) :
    normalize cwd (join_absolute components) = .ok components := by
  have hjoin : join_absolute components = slash :: join_relative components := by
    unfold join_absolute
    split_ifs with hnil
    · rw [hnil]
      rfl
    · rfl
  have happly : apply_components [] (slash :: join_relative components) = components := by
    unfold apply_components
    rw [splitOn_cons_self, List.foldl_cons]
    by_cases hnil : components = []
    · rw [hnil]
      rfl
    · rw [splitOn_join_relative h hnil]
      exact foldl_apply_component h
  have hvalid : validate_text (slash :: join_relative components) = .ok () := by
    refine validate_text_eq_ok.mpr ⟨List.cons_ne_nil _ _, ?_, ?_⟩
    · rw [List.length_cons]
      omega
    · exact List.not_mem_cons_of_ne_of_not_mem (by decide) (no_nul_join_relative h)
  rw [length_join_relative] at hlength
  rw [hjoin, normalize, hvalid, ok_bind, if_pos ⟨_, rfl⟩]
  show (validate_normalized_length (apply_components [] _) >>= fun _ => _) = _
  rw [happly, validate_normalized_length, ensure_of _ (by omega)]
  rfl

/-- The broker takes what is joined from normal components. -/
theorem parsed_join_relative (h : ∀ c ∈ components, Normal c) :
    ∃ parsed, ParsedPath.new (join_relative components) = .ok parsed ∧
      parsed.components = components := by
  by_cases hnil : components = []
  · rw [hnil]
    exact ⟨⟨[], true⟩, rfl, rfl⟩
  have hsplit := splitOn_join_relative h hnil
  have hne : join_relative components ≠ [] := by
    intro hempty
    rw [hempty, List.splitOn_nil] at hsplit
    exact nil_notMem h (by simp [← hsplit])
  have hstart : ¬ [slash] <+: join_relative components := by
    rintro ⟨_, hrest⟩
    rw [← hrest, List.singleton_append, splitOn_cons_self] at hsplit
    exact nil_notMem h (by simp [← hsplit])
  have hend : (join_relative components).getLast? ≠ some slash := by
    rw [ne_eq, ← getLast_splitOn hne, hsplit]
    exact fun hlast => nil_notMem h (List.mem_of_getLast? hlast)
  have hparse : components.mapM parse_component = .ok components := by
    clear hnil hsplit hne hstart hend
    induction components with
    | nil => rfl
    | cons c _ ih =>
      have hc := h c List.mem_cons_self
      rw [List.mapM_cons, ih fun x hx => h x (List.mem_cons_of_mem _ hx), parse_component,
        ensure_of _ hc.nonempty, ensure_of _ hc.not_dot, ensure_of _ hc.not_dot_dot]
      rfl
  refine ⟨⟨components, false⟩, ?_, rfl⟩
  rw [ParsedPath.new, ensure_of _ (no_nul_join_relative h), ok_bind, ensure_of _ hstart, ok_bind,
    if_neg hne]
  simp only [beq_eq_false_iff_ne.mpr hend, Bool.false_eq_true, if_false]
  rw [ensure_of _ hne, ok_bind, hsplit, hparse]
  rfl

end Normalize

/-! ## Resolution -/

/-- The tables that can be made. -/
inductive Built : MountTable → Prop
  | new : Built .new
  | add {table table' : MountTable} {id : ℕ} {kind : MountKind} {writable : Bool} {path : Text} :
      Built table → table.add_mount id kind writable path = .ok table' → Built table'
  | seal_table {table table' : MountTable} : Built table → table.seal_table = .ok table' → Built table'

/-- What a resolution says: the path without its dots, the longest mount that is a prefix of it, and
the rest, which the broker takes. Resolving the normalized path comes to the same. -/
structure Resolved (table : MountTable) (cwd path : Text) (r : Resolution) (base rest : List Text)
    (mount : Mount) : Prop where
  starts : Starts cwd path base
  components : mount.components ++ rest = apply_components base path
  normal : ∀ c ∈ mount.components ++ rest, Normal c
  normalized_path : r.normalized_path = join_absolute (mount.components ++ rest)
  relative_path : r.relative_path = join_relative rest
  mounted : mount ∈ table.mounts ∧ r.mount_id = mount.id ∧ r.kind = mount.kind ∧
    r.writable = mount.writable
  longest : ∀ m ∈ table.mounts, m.components <+: mount.components ++ rest →
    m.components.length ≤ mount.components.length
  again : ∀ cwd', table.resolve cwd' r.normalized_path = .ok { r with requires_directory := false }
  accepted : ∃ parsed, ParsedPath.new r.relative_path = .ok parsed ∧ parsed.components = rest

/-- The last component of a path. -/
def last_component (path : Text) : Option Text := (path.splitOn slash).getLast?

section Resolve

variable {table : MountTable} {cwd path : Text} {r : Resolution}

theorem Built.sorted (h : Built table) (hsealed : table.sealed = true) :
    table.mounts.Pairwise fun left right => right.components.length ≤ left.components.length := by
  cases h with
  | new => exact nomatch hsealed
  | add _ hadd =>
    simp only [MountTable.add_mount, bind_eq_ok, ensure_eq_ok, pure_eq_ok] at hadd
    obtain ⟨_, hopen, _, _, _, _, htable⟩ := hadd
    rw [← htable] at hsealed
    exact nomatch hopen.symm.trans hsealed
  | seal_table _ hseal =>
    simp only [MountTable.seal_table, bind_eq_ok, ensure_eq_ok, pure_eq_ok] at hseal
    obtain ⟨-, -, rfl⟩ := hseal
    refine (List.pairwise_mergeSort ?_ ?_ _).imp fun h => by simpa using h
    · simp only [decide_eq_true_eq]
      intro a b c hab hbc
      omega
    · simp only [Bool.or_eq_true, decide_eq_true_eq]
      intro a b
      omega

theorem resolve_resolved (hbuilt : Built table) (h : table.resolve cwd path = .ok r) :
    ∃ base rest mount, Resolved table cwd path r base rest mount := by
  simp only [MountTable.resolve, bind_eq_ok, ensure_eq_ok, okOr_eq_ok, pure_eq_ok] at h
  obtain ⟨-, hsealed, _, hnormalize, mount, hfind, rfl⟩ := h
  obtain ⟨-, ⟨base, hstarts, hbase⟩, hnormal, hlength⟩ := normalize_spec hnormalize
  obtain ⟨hfirst, before, _, hmounts, hbefore⟩ := List.find?_eq_some_iff_append.mp hfind
  obtain ⟨rest, rfl⟩ := List.isPrefixOf_iff_prefix.mp hfirst
  refine ⟨base, rest, mount, hstarts, hbase, hnormal, rfl, ?_, ⟨?_, rfl, rfl, rfl⟩, ?_, ?_, ?_⟩
  · rw [List.drop_left]
  · exact List.mem_of_find?_eq_some hfind
  · -- what stands before the mount does not fit, and what stands behind it is not longer
    intro m hm hfits
    have hsorted := hbuilt.sorted hsealed
    rw [hmounts] at hm hsorted
    rcases List.mem_append.mp hm with hm | hm
    · have hnot := hbefore m hm
      rw [List.isPrefixOf_iff_prefix.mpr hfits] at hnot
      exact nomatch hnot
    · rcases List.mem_cons.mp hm with rfl | hm
      · exact le_rfl
      · exact (List.pairwise_cons.mp (List.pairwise_append.mp hsorted).2.1).1 m hm
  · intro cwd'
    have hdirectory : (1 < (join_absolute (mount.components ++ rest)).length &&
        (join_absolute (mount.components ++ rest)).getLast? == some slash) = false := by
      unfold join_absolute
      split_ifs with hnil
      · rfl
      · have hlast : (slash :: join_relative (mount.components ++ rest)).getLast? ≠ some slash := by
          rw [ne_eq, ← getLast_splitOn (List.cons_ne_nil _ _), splitOn_cons_self,
            splitOn_join_relative hnormal hnil, List.getLast?_cons_of_ne_nil hnil]
          exact fun hlast => nil_notMem hnormal (List.mem_of_getLast? hlast)
        rw [beq_eq_false_iff_ne.mpr hlast, Bool.and_false]
    rw [MountTable.resolve, ensure_of _ hsealed, ok_bind, normalize_join_absolute hnormal hlength,
      ok_bind, hfind]
    dsimp only [okOr]
    rw [ok_bind, hdirectory]
    rfl
  · rw [List.drop_left]
    exact parsed_join_relative fun c hc => hnormal c (List.mem_append_right _ hc)

/-- **Resolution is exact but for `requires_directory`.** In every table that can be made, and for
every working directory and path that `resolve` accepts, the path is normalized, mounted and split
as it should be; and `requires_directory` is true exactly when the last component is empty, `.` or
`..`, if and only if the path is not `/` and its last component is neither `.` nor `..`. -/
theorem resolve_sound_iff (hbuilt : Built table) (h : table.resolve cwd path = .ok r) :
    (∃ base rest mount, Resolved table cwd path r base rest mount) ∧
    ((r.requires_directory = true ↔ last_component path = some [] ∨ last_component path = some dot ∨
        last_component path = some dot_dot) ↔
      path ≠ [slash] ∧ last_component path ≠ some dot ∧ last_component path ≠ some dot_dot) := by
  refine ⟨resolve_resolved hbuilt h, ?_⟩
  simp only [MountTable.resolve, bind_eq_ok, ensure_eq_ok, okOr_eq_ok, pure_eq_ok] at h
  obtain ⟨-, -, _, hnormalize, _, -, rfl⟩ := h
  have hne := (normalize_spec hnormalize).1
  have hlast : last_component path = some [] ↔ path.getLast? = some slash := getLast_splitOn hne
  simp only [Bool.and_eq_true, decide_eq_true_eq, beq_iff_eq]
  by_cases hdots : last_component path = some dot ∨ last_component path = some dot_dot
  · have hnot : path.getLast? ≠ some slash := by
      rw [ne_eq, ← hlast]
      rcases hdots with hdots | hdots <;> simp [hdots, dot, dot_dot]
    exact iff_of_false (fun hiff => hnot (hiff.mpr (.inr hdots)).2) fun hfine =>
      hdots.elim hfine.2.1 hfine.2.2
  · obtain ⟨hdot, hdot_dot⟩ := not_or.mp hdots
    simp only [hlast, or_false, ne_eq, hdot, hdot_dot, not_false_eq_true, and_true]
    constructor
    · rintro hiff rfl
      exact absurd (hiff.mpr rfl).1 (by decide)
    · intro hroot
      refine ⟨And.right, fun hslash => ⟨?_, hslash⟩⟩
      by_contra hshort
      match path, hne, hroot, hslash, hshort with
      | [b], _, hroot, hslash, _ => exact hroot (by simpa using hslash)
      | _ :: _ :: _, _, _, _, hshort => exact hshort (by simp)

end Resolve

/-- A table with the root mounted. -/
def root_table : MountTable := ⟨[⟨1, .Immutable, false, []⟩], true⟩

theorem built_root_table : Built root_table := by
  have hadd : MountTable.new.add_mount 1 .Immutable false [slash] =
      .ok ⟨[⟨1, .Immutable, false, []⟩], false⟩ := rfl
  refine .seal_table (.add .new hadd) ?_
  simp [MountTable.seal_table, ensure, root_table]

/-- The path `a/` in the working directory `/b`. -/
theorem resolve_trailing_slash : ∃ r, root_table.resolve [47, 98] [97, 47] = .ok r ∧
    r.requires_directory = true ∧
    ∃ base rest mount, Resolved root_table [47, 98] [97, 47] r base rest mount := by
  have hresolve : root_table.resolve [47, 98] [97, 47] =
      .ok ⟨1, .Immutable, false, true, [47, 98, 47, 97], [98, 47, 97]⟩ := rfl
  exact ⟨_, hresolve, rfl, (resolve_sound_iff built_root_table hresolve).1⟩

/-- The path `/a/.` has to name a directory, and is resolved as if it had not. -/
theorem resolve_forgets_trailing_dot : Built root_table ∧
    ∃ r, root_table.resolve [47] [47, 97, 47, 46] = .ok r ∧
      r.requires_directory = false ∧ last_component [47, 97, 47, 46] = some dot :=
  ⟨built_root_table, _, rfl, rfl, by decide⟩

end DarwinArt.Prefix
