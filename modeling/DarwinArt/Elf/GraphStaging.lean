/-
Staging a graph of shared libraries: `GraphBuilder::stage_recursive` of `namespace.rs`.

A library is staged, then what it needs, one after another and each at most once, and when that is
done the library goes to the end of `dependency_order`. That order is the order of initialization.

`Good` says what the builder's tables mean between two calls, and `Ext` what a call leaves alone.
The order property needs one more thing, that everything on the stack reaches the library being
staged: when a library `a` is finished, each library it needs has either been finished before, or is
on the stack still, and then `a` is reached from it.

What an image holds besides its embedded name and its needed libraries is not read here, and the
parser that makes an image from bytes is a parameter. The recursion of the source ends because a
library is entered in the tables before what it needs is staged; here it has fuel, and
`stage_recursive_ends` says how much is enough.
-/
import DarwinArt.Lib.Map
import DarwinArt.Lib.Fallible

set_option autoImplicit false

namespace DarwinArt.Elf

open Lib

/-! ## The model -/

/-- What the builder reads of a staged image. -/
structure Staged where
  soname : Option String
  needed_libraries : List String
deriving DecidableEq

inductive NamespaceError (ε : Type)
  | UnknownDependency (requested_by soname : String)
  | SonameMismatch (supplied : String) (embedded : Option String)
  | Load (soname : String) (source : ε)

/-- Why a staging stops: an error of the source, or no fuel. -/
inductive Halt (ε : Type)
  | OutOfFuel
  | Failed (error : NamespaceError ε)

structure GraphObject where
  soname : String
  staged : Staged
  dependencies : List ℕ

structure GraphBuilder where
  objects : List GraphObject
  indices : String → Option ℕ
  visiting : Finset String
  visited : Finset String
  discovery_order : List ℕ
  dependency_order : List ℕ

namespace GraphBuilder

/-- `GraphBuilder::default`. -/
def empty : GraphBuilder where
  objects := []
  indices := fun _ => none
  visiting := ∅
  visited := ∅
  discovery_order := []
  dependency_order := []

/-- A library enters the tables. -/
def enter (b : GraphBuilder) (soname : String) (staged : Staged) : GraphBuilder where
  objects := b.objects ++ [⟨soname, staged, []⟩]
  indices := Function.update b.indices soname (some b.objects.length)
  visiting := insert soname b.visiting
  visited := b.visited
  discovery_order := b.discovery_order ++ [b.objects.length]
  dependency_order := b.dependency_order

/-- `self.objects[index].dependencies.push(dependency_index)`. -/
def depend (b : GraphBuilder) (index dependency_index : ℕ) : GraphBuilder :=
  { b with objects := b.objects.modify index fun object =>
      { object with dependencies := object.dependencies ++ [dependency_index] } }

/-- A library whose needed libraries have been staged. -/
def finish (b : GraphBuilder) (soname : String) (index : ℕ) : GraphBuilder :=
  { b with
    visiting := b.visiting.erase soname
    visited := insert soname b.visited
    dependency_order :=
      if soname ∉ b.visited then b.dependency_order ++ [index] else b.dependency_order }

section Staging

variable {B ε : Type} (stage : B → Except ε Staged) (sources : Map String B)
  (providers : Finset String)

/-- `LoadedElf::stage_with_appcompat` and the check of the embedded name. -/
def stage_source (requested_by soname : String) : Except (Halt ε) Staged := do
  let bytes ← okOr sources[soname]? (Halt.Failed (.UnknownDependency requested_by soname))
  let staged ← (stage bytes).mapError fun source => Halt.Failed (.Load soname source)
  ensure (∀ embedded ∈ staged.soname, embedded = soname)
    (Halt.Failed (.SonameMismatch soname staged.soname))
  pure staged

/-- The loop over the needed libraries, with the recursive call as a parameter. -/
def stage_needed (recurse : GraphBuilder → String → String → Except (Halt ε) (ℕ × GraphBuilder))
    (soname : String) (index : ℕ) : List String → GraphBuilder → Except (Halt ε) GraphBuilder
  | [], b => pure b
  | dependency :: needed, b =>
    if dependency ∈ providers then stage_needed recurse soname index needed b
    else do
      let (dependency_index, b) ← recurse b soname dependency
      stage_needed recurse soname index needed (b.depend index dependency_index)

def stage_recursive : ℕ → GraphBuilder → String → String →
    Except (Halt ε) (ℕ × GraphBuilder)
  | 0, _, _, _ => .error .OutOfFuel
  | fuel + 1, b, requested_by, soname =>
    match b.indices soname with
    | some index => pure (index, b)
    | none => do
      let staged ← stage_source stage sources requested_by soname
      let index := b.objects.length
      let b ← stage_needed providers (stage_recursive fuel) soname index staged.needed_libraries
        (b.enter soname staged)
      pure (index, b.finish soname index)

/-- How `link_with_scopes_and_appcompat` begins: a root that is provided is refused. -/
def stage_graph (root : String) : Except (Halt ε) GraphBuilder := do
  ensure (root ∉ providers) (Halt.Failed (.SonameMismatch root none))
  let (_, b) ← stage_recursive stage sources providers (sources.size + 1) empty root root
  pure b

end Staging

/-- The names of the staged libraries, by index. -/
def sonames (b : GraphBuilder) : List String := b.objects.map GraphObject.soname

/-- The names of some of the staged libraries. -/
def names (b : GraphBuilder) (order : List ℕ) : List String :=
  order.filterMap fun index => b.sonames[index]?

def initialization_order (b : GraphBuilder) : List String := b.names b.dependency_order

def unload_order (b : GraphBuilder) : List String := b.names b.dependency_order.reverse

/-! ## The graph -/

section Graph

variable {B ε : Type} (stage : B → Except ε Staged) (sources : Map String B)
  (providers : Finset String)

/-- `a` is supplied, and its image says that it needs `b`. -/
def Needs (a b : String) : Prop :=
  ∃ bytes staged, sources[a]? = some bytes ∧ stage bytes = .ok staged ∧
    b ∈ staged.needed_libraries

/-- `a` needs `b`, and `b` is not provided. -/
def Edge (a b : String) : Prop := Needs stage sources a b ∧ b ∉ providers

/-- `b` is reached from `a` through libraries that are not provided. -/
def Reaches : String → String → Prop := Relation.ReflTransGen (Edge stage sources providers)

/-! ## What the tables mean -/

/-- The builder between two calls, with the names finished so far. -/
structure Good (b : GraphBuilder) (done : List String) : Prop where
  indexed : ∀ soname index, b.indices soname = some index ↔ b.sonames[index]? = some soname
  sourced : ∀ object ∈ b.objects, ∃ bytes, sources[object.soname]? = some bytes ∧
    stage bytes = .ok object.staged
  discovered : b.discovery_order = List.range b.objects.length
  finished : b.dependency_order.map (fun index => b.sonames[index]?) = done.map some
  nodup : done.Nodup
  visited : ∀ soname, soname ∈ b.visited ↔ soname ∈ done
  staged : ∀ soname, soname ∈ b.sonames ↔ soname ∈ done ∨ soname ∈ b.visiting
  apart : ∀ soname ∈ b.visiting, soname ∉ done
  closed : ∀ a ∈ done, ∀ c, Edge stage sources providers a c → c ∈ b.sonames
  ordered : ∀ a ∈ done, ∀ c, Edge stage sources providers a c →
    [c, a].Sublist done ∨ Reaches stage sources providers c a

end Graph

/-- What a call leaves alone: it only adds, and the stack is as before. -/
structure Ext (b : GraphBuilder) (done : List String) (b' : GraphBuilder) (done' : List String) :
    Prop where
  sonames : b.sonames <+: b'.sonames
  done : done <+: done'
  visiting : b'.visiting = b.visiting

theorem Ext.refl (b : GraphBuilder) (done : List String) : Ext b done b done :=
  ⟨List.prefix_rfl, List.prefix_rfl, rfl⟩

theorem Ext.trans {b₁ b₂ b₃ : GraphBuilder} {done₁ done₂ done₃ : List String}
    (h₁ : Ext b₁ done₁ b₂ done₂) (h₂ : Ext b₂ done₂ b₃ done₃) : Ext b₁ done₁ b₃ done₃ :=
  ⟨h₁.sonames.trans h₂.sonames, h₁.done.trans h₂.done, h₂.visiting.trans h₁.visiting⟩

section Steps

variable {B ε : Type} {stage : B → Except ε Staged} {sources : Map String B}
  {providers : Finset String} {b b' : GraphBuilder} {done : List String} {soname : String}

theorem good_empty : Good stage sources providers empty [] := by
  constructor <;> simp [empty, GraphBuilder.sonames]

@[simp] theorem enter_sonames (b : GraphBuilder) (soname : String) (staged : Staged) :
    (b.enter soname staged).sonames = b.sonames ++ [soname] := by
  simp [enter, GraphBuilder.sonames]

@[simp] theorem depend_sonames (b : GraphBuilder) (index dependency_index : ℕ) :
    (b.depend index dependency_index).sonames = b.sonames := by
  apply List.ext_getElem?
  intro i
  simp only [GraphBuilder.sonames, depend, List.getElem?_map, List.getElem?_modify]
  by_cases hi : index = i
  · cases b.objects[i]? <;> simp [hi]
  · cases b.objects[i]? <;> simp [hi]

@[simp] theorem finish_sonames (b : GraphBuilder) (soname : String) (index : ℕ) :
    (b.finish soname index).sonames = b.sonames := rfl

theorem length_sonames (b : GraphBuilder) : b.sonames.length = b.objects.length :=
  List.length_map _

theorem Good.unstaged (h : Good stage sources providers b done) (hnone : b.indices soname = none) :
    soname ∉ b.sonames := by
  intro hmem
  obtain ⟨index, hindex⟩ := List.mem_iff_getElem?.mp hmem
  rw [(h.indexed soname index).mpr hindex] at hnone
  cases hnone

theorem Good.staged_of_index (h : Good stage sources providers b done) {index : ℕ}
    (hsome : b.indices soname = some index) : soname ∈ b.sonames :=
  List.mem_of_getElem? ((h.indexed soname index).mp hsome)

/-- Entries that were there keep their place. -/
theorem finished_append {order : List ℕ} {sonames : List String}
    (h : order.map (fun index => sonames[index]?) = done.map some) (more : List String) :
    order.map (fun index => (sonames ++ more)[index]?) = done.map some := by
  rw [← h]
  apply List.map_congr_left
  intro index hindex
  have hmem : sonames[index]? ∈ done.map some := by
    rw [← h]
    exact List.mem_map_of_mem hindex
  obtain ⟨name, -, hname⟩ := List.mem_map.mp hmem
  obtain ⟨hlt, -⟩ := getElem?_eq_some_iff.mp hname.symm
  exact List.getElem?_append_left hlt

section

variable (h : Good stage sources providers b done)
include h

theorem Good.enter {staged : Staged} {bytes : B}
    (hnone : b.indices soname = none) (hbytes : sources[soname]? = some bytes)
    (hstage : stage bytes = .ok staged) :
    Good stage sources providers (b.enter soname staged) done := by
  have hnew := h.unstaged hnone
  have hlen := b.length_sonames
  constructor
  · intro name index
    rw [enter_sonames]
    rcases eq_or_ne name soname with rfl | hname
    · have hset : (b.enter name staged).indices name = some b.objects.length := by
        simp [GraphBuilder.enter]
      rw [hset, Option.some.injEq]
      constructor
      · rintro rfl
        rw [← hlen, List.getElem?_concat_length]
      · intro hindex
        by_cases hlt : index < b.sonames.length
        · rw [List.getElem?_append_left hlt] at hindex
          exact absurd (List.mem_of_getElem? hindex) hnew
        · have hlt' := (getElem?_eq_some_iff.mp hindex).1
          rw [List.length_append, List.length_singleton] at hlt'
          omega
    · have hset : (b.enter soname staged).indices name = b.indices name := by
        simp [GraphBuilder.enter, hname]
      rw [hset, h.indexed]
      by_cases hlt : index < b.sonames.length
      · rw [List.getElem?_append_left hlt]
      · rw [List.getElem?_eq_none (by omega), List.getElem?_append_right (by omega)]
        have hother : ([soname] : List String)[index - b.sonames.length]? ≠ some name := by
          intro heq
          exact hname (List.mem_singleton.mp (List.mem_of_getElem? heq))
        exact iff_of_false (by simp) hother
  · intro object hobject
    rcases List.mem_append.mp hobject with hobject | hobject
    · exact h.sourced object hobject
    · rw [List.mem_singleton.mp hobject]
      exact ⟨bytes, hbytes, hstage⟩
  · simp [GraphBuilder.enter, h.discovered, List.range_succ]
  · rw [enter_sonames]
    exact finished_append h.finished [soname]
  · exact h.nodup
  · exact h.visited
  · intro name
    rw [enter_sonames, List.mem_append, List.mem_singleton, h.staged]
    simp only [GraphBuilder.enter, Finset.mem_insert]
    tauto
  · intro name hname
    rcases Finset.mem_insert.mp hname with rfl | hname
    · exact fun hdone => hnew ((h.staged name).mpr (.inl hdone))
    · exact h.apart name hname
  · intro a ha c hedge
    rw [enter_sonames]
    exact List.mem_append_left _ (h.closed a ha c hedge)
  · exact h.ordered

theorem Good.depend (index dependency_index : ℕ) :
    Good stage sources providers (b.depend index dependency_index) done := by
  have hlen : (b.depend index dependency_index).objects.length = b.objects.length :=
    List.length_modify ..
  constructor
  · intro name i
    rw [depend_sonames]
    exact h.indexed name i
  · intro object hobject
    obtain ⟨i, hi⟩ := List.mem_iff_getElem?.mp hobject
    simp only [GraphBuilder.depend, List.getElem?_modify] at hi
    obtain ⟨old, hold, hsame⟩ := Option.map_eq_some_iff.mp hi
    have hmem := List.mem_of_getElem? hold
    by_cases hindex : index = i
    · rw [if_pos hindex] at hsame
      rw [← hsame]
      exact h.sourced old hmem
    · rw [if_neg hindex] at hsame
      rw [← hsame]
      exact h.sourced old hmem
  · rw [hlen]
    exact h.discovered
  · rw [depend_sonames]
    exact h.finished
  · exact h.nodup
  · exact h.visited
  · intro name
    rw [depend_sonames]
    exact h.staged name
  · exact h.apart
  · intro a ha c hedge
    rw [depend_sonames]
    exact h.closed a ha c hedge
  · exact h.ordered

/-- **A library is finished.** What it needs is staged, so it has been finished before, or it is on
the stack and reaches this one. -/
theorem Good.finish {index : ℕ}
    (hindex : b.sonames[index]? = some soname) (hvisiting : soname ∈ b.visiting)
    (hstack : ∀ v ∈ b.visiting, Reaches stage sources providers v soname)
    (hneeded : ∀ c, Edge stage sources providers soname c → c ∈ b.sonames) :
    Good stage sources providers (b.finish soname index) (done ++ [soname]) := by
  have hnew := h.apart soname hvisiting
  have hunvisited : soname ∉ b.visited := fun hmem => hnew ((h.visited soname).mp hmem)
  constructor
  · exact h.indexed
  · exact h.sourced
  · exact h.discovered
  · simp only [GraphBuilder.finish, if_pos hunvisited, List.map_append, List.map_singleton]
    rw [← h.finished]
    exact congrArg (fun x => List.map (fun i => b.sonames[i]?) b.dependency_order ++ [x]) hindex
  · rw [List.nodup_append']
    refine ⟨h.nodup, List.nodup_singleton _, ?_⟩
    intro name hname hlast
    rw [List.mem_singleton.mp hlast] at hname
    exact hnew hname
  · intro name
    simp only [GraphBuilder.finish, Finset.mem_insert, h.visited, List.mem_append,
      List.mem_singleton]
    tauto
  · intro name
    rw [finish_sonames, h.staged]
    simp only [GraphBuilder.finish, Finset.mem_erase, List.mem_append, List.mem_singleton]
    by_cases hname : name = soname
    · simp [hname, hvisiting]
    · simp [hname]
  · intro name hname
    obtain ⟨hne, hname⟩ := Finset.mem_erase.mp hname
    rw [List.mem_append, List.mem_singleton, not_or]
    exact ⟨h.apart name hname, hne⟩
  · intro a ha c hedge
    rcases List.mem_append.mp ha with ha | ha
    · exact h.closed a ha c hedge
    · rw [List.mem_singleton.mp ha] at hedge
      exact hneeded c hedge
  · intro a ha c hedge
    rcases List.mem_append.mp ha with ha | ha
    · rcases h.ordered a ha c hedge with hbefore | hreach
      · exact .inl (hbefore.trans (List.sublist_append_left _ _))
      · exact .inr hreach
    · obtain rfl := List.mem_singleton.mp ha
      rcases (h.staged c).mp (hneeded c hedge) with hdone | hon
      · exact .inl ((List.singleton_sublist.mpr hdone).append (List.Sublist.refl [a]))
      · exact .inr (hstack c hon)

end

end Steps

/-! ## A whole call -/

section Calls

variable {B ε : Type} {stage : B → Except ε Staged} {sources : Map String B}
  {providers : Finset String}

variable {soname : String} {b : GraphBuilder} {done : List String}

theorem stage_source_eq_ok {requested_by : String} {staged : Staged} :
    stage_source stage sources requested_by soname = .ok staged ↔
      ∃ bytes, sources[soname]? = some bytes ∧ stage bytes = .ok staged ∧
        ∀ embedded ∈ staged.soname, embedded = soname := by
  simp only [stage_source, bind_eq_ok, okOr_eq_ok, mapError_eq_ok, ensure_eq_ok, pure_eq_ok]
  constructor
  · rintro ⟨bytes, hbytes, staged', hstage, -, hname, rfl⟩
    exact ⟨bytes, hbytes, hstage, hname⟩
  · rintro ⟨bytes, hbytes, hstage, hname⟩
    exact ⟨bytes, hbytes, staged, hstage, (), hname, rfl⟩

/-- What a call for `soname` does to a good builder whose stack reaches `soname`. -/
def Visited (stage : B → Except ε Staged) (sources : Map String B) (providers : Finset String)
    (b : GraphBuilder) (done : List String) (soname : String) (b' : GraphBuilder) : Prop :=
  ∃ done', Good stage sources providers b' done' ∧ Ext b done b' done' ∧
    soname ∈ b'.sonames ∧
    ∀ name ∈ b'.sonames, name ∈ b.sonames ∨ Reaches stage sources providers soname name

/-- A recursive call that does what `Visited` says. -/
def Visits (stage : B → Except ε Staged) (sources : Map String B) (providers : Finset String)
    (recurse : GraphBuilder → String → String → Except (Halt ε) (ℕ × GraphBuilder)) : Prop :=
  ∀ b done requested_by soname index b', Good stage sources providers b done →
    (∀ v ∈ b.visiting, Reaches stage sources providers v soname) →
    recurse b requested_by soname = .ok (index, b') →
    Visited stage sources providers b done soname b'

variable {recurse : GraphBuilder → String → String → Except (Halt ε) (ℕ × GraphBuilder)}

/-- The loop: every needed library that is not provided is staged, and nothing that the library does
not reach. -/
theorem stage_needed_spec (hrec : Visits stage sources providers recurse) {index : ℕ}
    {needed : List String} (hneeds : ∀ c ∈ needed, Needs stage sources soname c)
    {b' : GraphBuilder} (hgood : Good stage sources providers b done)
    (hstack : ∀ v ∈ b.visiting, Reaches stage sources providers v soname)
    (h : stage_needed providers recurse soname index needed b = .ok b') :
    ∃ done', Good stage sources providers b' done' ∧ Ext b done b' done' ∧
      (∀ c ∈ needed, c ∉ providers → c ∈ b'.sonames) ∧
      ∀ name ∈ b'.sonames, name ∈ b.sonames ∨ Reaches stage sources providers soname name := by
  induction needed generalizing b done with
  | nil =>
    obtain rfl : b = b' := pure_eq_ok.mp h
    exact ⟨done, hgood, Ext.refl b done, by simp, fun name hname => .inl hname⟩
  | cons c needed ih =>
    have hrest : ∀ c' ∈ needed, Needs stage sources soname c' := fun c' hc' =>
      hneeds c' (List.mem_cons_of_mem _ hc')
    rw [stage_needed] at h
    by_cases hprovided : c ∈ providers
    · rw [if_pos hprovided] at h
      obtain ⟨done', hgood', hext, hin, hnew⟩ := ih hrest hgood hstack h
      refine ⟨done', hgood', hext, ?_, hnew⟩
      intro c' hc' hfree
      rcases List.mem_cons.mp hc' with rfl | hc'
      · exact absurd hprovided hfree
      · exact hin c' hc' hfree
    · rw [if_neg hprovided, bind_eq_ok] at h
      obtain ⟨⟨dependency_index, b₁⟩, hcall, h⟩ := h
      have hedge : Edge stage sources providers soname c :=
        ⟨hneeds c List.mem_cons_self, hprovided⟩
      have hstack₁ : ∀ v ∈ b.visiting, Reaches stage sources providers v c := fun v hv =>
        Relation.ReflTransGen.tail (hstack v hv) hedge
      obtain ⟨done₁, hgood₁, hext₁, hin₁, hnew₁⟩ := hrec b done soname c _ b₁ hgood hstack₁ hcall
      have hsame : (b₁.depend index dependency_index).visiting = b.visiting := hext₁.visiting
      obtain ⟨done', hgood', hext', hin', hnew'⟩ := ih hrest
        (hgood₁.depend index dependency_index) (fun v hv => hstack v (hsame ▸ hv)) h
      have hextd : Ext b done (b₁.depend index dependency_index) done₁ :=
        ⟨by rw [depend_sonames]; exact hext₁.sonames, hext₁.done, hsame⟩
      refine ⟨done', hgood', hextd.trans hext', ?_, ?_⟩
      · intro c' hc' hfree
        rcases List.mem_cons.mp hc' with rfl | hc'
        · exact hext'.sonames.subset (by rw [depend_sonames]; exact hin₁)
        · exact hin' c' hc' hfree
      · intro name hname
        rcases hnew' name hname with hname | hreach
        · rw [depend_sonames] at hname
          rcases hnew₁ name hname with hname | hreach
          · exact .inl hname
          · exact .inr (Relation.ReflTransGen.head hedge hreach)
        · exact .inr hreach

/-- **What a call does**, by induction on the fuel: each recursive call does it. -/
theorem stage_recursive_spec (fuel : ℕ) :
    Visits stage sources providers (stage_recursive stage sources providers fuel) := by
  induction fuel with
  | zero =>
    intro b done requested_by soname index b' _ _ h
    cases h
  | succ _ ih =>
    intro b done requested_by soname index b' hgood hstack h
    rw [stage_recursive] at h
    cases hindex : b.indices soname with
    | some =>
      rw [hindex] at h
      obtain ⟨rfl, rfl⟩ := Prod.mk.inj (pure_eq_ok.mp h)
      exact ⟨done, hgood, Ext.refl b done, hgood.staged_of_index hindex, fun _ => .inl⟩
    | none =>
      rw [hindex] at h
      simp only [bind_eq_ok, pure_eq_ok, Prod.mk.injEq] at h
      obtain ⟨staged, hsource, b₁, hloop, rfl, rfl⟩ := h
      obtain ⟨bytes, hbytes, hstage, -⟩ := stage_source_eq_ok.mp hsource
      have hgood₀ := hgood.enter hindex hbytes hstage
      have hnew := hgood.unstaged hindex
      have hstack₀ : ∀ v ∈ (b.enter soname staged).visiting,
          Reaches stage sources providers v soname := by
        intro v hv
        rcases Finset.mem_insert.mp hv with rfl | hv
        · exact .refl
        · exact hstack v hv
      have hneeds : ∀ c ∈ staged.needed_libraries, Needs stage sources soname c := fun c hc =>
        ⟨bytes, staged, hbytes, hstage, hc⟩
      obtain ⟨done₁, hgood₁, hext₁, hin₁, hnew₁⟩ :=
        stage_needed_spec ih hneeds hgood₀ hstack₀ hloop
      have hplace : b₁.sonames[b.objects.length]? = some soname := by
        obtain ⟨more, hmore⟩ := hext₁.sonames
        rw [← hmore, enter_sonames, List.append_assoc, ← b.length_sonames,
          List.getElem?_append_right le_rfl, Nat.sub_self]
        rfl
      have hvisiting : soname ∈ b₁.visiting := by
        rw [hext₁.visiting]
        exact Finset.mem_insert_self _ _
      have hneeded : ∀ c, Edge stage sources providers soname c → c ∈ b₁.sonames := by
        rintro c ⟨⟨bytes', staged', hbytes', hstage', hc⟩, hfree⟩
        obtain rfl : bytes = bytes' := Option.some.inj (hbytes.symm.trans hbytes')
        obtain rfl : staged = staged' := Except.ok.inj (hstage.symm.trans hstage')
        exact hin₁ c hc hfree
      have hsonames : b.sonames <+: b₁.sonames :=
        List.IsPrefix.trans (by rw [enter_sonames]; exact List.prefix_append _ _) hext₁.sonames
      refine ⟨done₁ ++ [soname],
        hgood₁.finish hplace hvisiting (fun v hv => hstack₀ v (hext₁.visiting ▸ hv)) hneeded,
        ⟨hsonames, hext₁.done.trans (List.prefix_append _ _), ?_⟩, ?_, ?_⟩
      · -- the stack is what it was: this library was not on it
        have hoff : soname ∉ b.visiting := fun hmem => hnew ((hgood.staged soname).mpr (.inr hmem))
        change b₁.visiting.erase soname = b.visiting
        rw [hext₁.visiting]
        exact Finset.erase_insert hoff
      · exact List.mem_of_getElem? hplace
      · intro name hname
        rcases hnew₁ name hname with hname | hreach
        · rw [enter_sonames, List.mem_append, List.mem_singleton] at hname
          rcases hname with hname | rfl
          · exact .inl hname
          · exact .inr .refl
        · exact .inr hreach

/-! ## The recursion ends -/

/-- The sources that have not been staged. -/
def unstaged (sources : Map String B) (b : GraphBuilder) : List String :=
  sources.keys.filter fun name => decide (name ∉ b.sonames)

theorem unstaged_le (sources : Map String B) {b' : GraphBuilder} (h : b.sonames <+: b'.sonames) :
    (unstaged sources b').length ≤ (unstaged sources b).length := by
  apply List.Sublist.length_le
  apply List.monotone_filter_right
  intro name hname
  simp only [decide_eq_true_eq] at hname ⊢
  exact fun hmem => hname (h.subset hmem)

theorem unstaged_enter_lt (staged : Staged)
    (hsource : sources[soname]?.isSome) (hnew : soname ∉ b.sonames) :
    (unstaged sources (b.enter soname staged)).length < (unstaged sources b).length := by
  have hsub : unstaged sources (b.enter soname staged) ⊆ (unstaged sources b).erase soname := by
    intro name hname
    simp only [unstaged, enter_sonames, List.mem_filter, List.mem_append, List.mem_singleton,
      decide_eq_true_eq, not_or] at hname
    refine (List.mem_erase_of_ne hname.2.2).mpr ?_
    exact List.mem_filter.mpr ⟨hname.1, by simpa using hname.2.1⟩
  have hnodup : (unstaged sources (b.enter soname staged)).Nodup :=
    Std.ExtTreeMap.nodup_keys.filter _
  have hmem : soname ∈ unstaged sources b := by
    refine List.mem_filter.mpr ⟨?_, by simpa using hnew⟩
    rwa [Std.ExtTreeMap.mem_keys, Std.ExtTreeMap.mem_iff_isSome_getElem?]
  have hle := (List.subperm_of_subset hnodup hsub).length_le
  have hpos := List.length_pos_of_mem hmem
  rw [List.length_erase_of_mem hmem] at hle
  omega

theorem stage_source_ends (requested_by soname : String) :
    stage_source stage sources requested_by soname ≠ .error .OutOfFuel := by
  unfold stage_source
  refine bind_ne_error ?_ fun bytes _ => bind_ne_error ?_ fun staged _ => bind_ne_error ?_ nofun
  · unfold okOr
    split <;> exact nofun
  · cases stage bytes <;> exact nofun
  · unfold ensure
    split <;> exact nofun

/-- A recursive call that does not run out of fuel where fewer than `n` sources are left. -/
def Ends (stage : B → Except ε Staged) (sources : Map String B) (providers : Finset String) (n : ℕ)
    (recurse : GraphBuilder → String → String → Except (Halt ε) (ℕ × GraphBuilder)) : Prop :=
  ∀ b done requested_by soname, Good stage sources providers b done →
    (∀ v ∈ b.visiting, Reaches stage sources providers v soname) →
    (unstaged sources b).length < n → recurse b requested_by soname ≠ .error .OutOfFuel

/-- The loop: each call has fuel enough, since the calls before it only added. -/
theorem stage_needed_ends {n index : ℕ} {needed : List String}
    (hrec : Visits stage sources providers recurse) (hends : Ends stage sources providers n recurse)
    (hneeds : ∀ c ∈ needed, Needs stage sources soname c)
    (hgood : Good stage sources providers b done)
    (hstack : ∀ v ∈ b.visiting, Reaches stage sources providers v soname)
    (hless : (unstaged sources b).length < n) :
    stage_needed providers recurse soname index needed b ≠ .error .OutOfFuel := by
  induction needed generalizing b done with
  | nil => exact nofun
  | cons c _ ih =>
    have hrest := (List.forall_mem_cons.mp hneeds).2
    rw [stage_needed]
    by_cases hprovided : c ∈ providers
    · rw [if_pos hprovided]
      exact ih hrest hgood hstack hless
    · rw [if_neg hprovided]
      have hstackc : ∀ v ∈ b.visiting, Reaches stage sources providers v c := fun v hv =>
        Relation.ReflTransGen.tail (hstack v hv) ⟨hneeds c List.mem_cons_self, hprovided⟩
      refine bind_ne_error (hends b done soname c hgood hstackc hless) fun result hcall => ?_
      obtain ⟨i, b₁⟩ := result
      obtain ⟨done₁, hgood₁, hext₁, -, -⟩ := hrec b done soname c i b₁ hgood hstackc hcall
      refine ih hrest (hgood₁.depend index i) (fun v hv => hstack v (hext₁.visiting ▸ hv)) ?_
      have hmore : b.sonames <+: (b₁.depend index i).sonames := by
        rw [depend_sonames]
        exact hext₁.sonames
      exact Nat.lt_of_le_of_lt (unstaged_le sources hmore) hless

/-- **The recursion ends**: with more fuel than there are sources left to stage, it does not run
out. -/
theorem stage_recursive_ends (fuel : ℕ) :
    Ends stage sources providers fuel (stage_recursive stage sources providers fuel) := by
  induction fuel with
  | zero =>
    intro b done requested_by soname _ _ hfuel
    exact absurd hfuel (Nat.not_lt_zero _)
  | succ fuel ih =>
    intro b done requested_by soname hgood hstack hfuel
    rw [stage_recursive]
    cases hindex : b.indices soname with
    | some => exact nofun
    | none =>
      refine bind_ne_error (stage_source_ends requested_by soname) fun staged hsource => ?_
      refine bind_ne_error ?_ nofun
      obtain ⟨bytes, hbytes, hstage, -⟩ := stage_source_eq_ok.mp hsource
      have hless := unstaged_enter_lt staged (by rw [hbytes]; rfl) (hgood.unstaged hindex)
      refine stage_needed_ends (stage_recursive_spec fuel) ih
        (fun c hc => ⟨bytes, staged, hbytes, hstage, hc⟩) (hgood.enter hindex hbytes hstage)
        (fun v hv => ?_) (by omega)
      rcases Finset.mem_insert.mp hv with rfl | hv
      · exact .refl
      · exact hstack v hv

/-! ## The graph of a root -/

theorem Good.names_eq
    (h : Good stage sources providers b done) : b.initialization_order = done := by
  have hmap : b.initialization_order =
      (b.dependency_order.map fun index => b.sonames[index]?).filterMap id := by
    simp [initialization_order, names, List.filterMap_map]
  rw [hmap, h.finished]
  simp

/-- No image is twice in the order: its soname would be finished twice. -/
theorem Good.nodup_dependency_order (h : Good stage sources providers b done) :
    b.dependency_order.Nodup := by
  refine List.Nodup.of_map (fun index => b.sonames[index]?) ?_
  rw [h.finished]
  exact h.nodup.map (Option.some_injective _)

/-- The sonames of a good builder are distinct: each has one index. -/
theorem Good.nodup_sonames (h : Good stage sources providers b done) : b.sonames.Nodup := by
  rw [List.nodup_iff_getElem?_ne_getElem?]
  intro i j hij hj heq
  have hlt : i < b.sonames.length := by omega
  have hi : b.sonames[i]? = some (b.sonames[i]) := List.getElem?_eq_getElem hlt
  have h₁ := (h.indexed _ i).mpr hi
  have h₂ := (h.indexed _ j).mpr (heq ▸ hi)
  rw [h₁, Option.some.injEq] at h₂
  omega

/-- A staged graph: everything is finished, and it is what the root reaches. -/
theorem stage_graph_good {root : String} (h : stage_graph stage sources providers root = .ok b) :
    root ∉ providers ∧ ∃ done, Good stage sources providers b done ∧ b.visiting = ∅ ∧
      ∀ name, name ∈ b.sonames ↔ Reaches stage sources providers root name := by
  simp only [stage_graph, bind_eq_ok, ensure_eq_ok, pure_eq_ok] at h
  obtain ⟨-, hroot, ⟨index, b'⟩, hcall, rfl⟩ := h
  obtain ⟨done, hgood, hext, hin, hnew⟩ := stage_recursive_spec _ empty [] root root index b'
    good_empty (by simp [empty]) hcall
  have hstack : b'.visiting = ∅ := hext.visiting
  refine ⟨hroot, done, hgood, hstack, fun name => ⟨?_, ?_⟩⟩
  · intro hname
    rcases hnew name hname with hname | hreach
    · simp [empty, GraphBuilder.sonames] at hname
    · exact hreach
  · intro hreach
    induction hreach with
    | refl => exact hin
    | @tail a c _ hedge ih =>
      have ha : a ∈ done := by
        rcases (hgood.staged a).mp ih with ha | ha
        · exact ha
        · simp [hstack] at ha
      exact hgood.closed a ha c hedge

/-- The staging of a root never runs out of fuel. -/
theorem stage_graph_ends (root : String) :
    stage_graph stage sources providers root ≠ .error .OutOfFuel := by
  have hfuel : (unstaged sources empty).length < sources.size + 1 := by
    have hle := List.length_filter_le (fun name => decide (name ∉ empty.sonames)) sources.keys
    rw [Std.ExtTreeMap.length_keys] at hle
    exact Nat.lt_succ_of_le hle
  refine bind_ne_error ?_ fun _ _ => bind_ne_error ?_ nofun
  · unfold ensure
    split <;> exact nofun
  · exact stage_recursive_ends _ empty [] root root good_empty (by simp [empty]) hfuel

end Calls

end GraphBuilder
end DarwinArt.Elf
