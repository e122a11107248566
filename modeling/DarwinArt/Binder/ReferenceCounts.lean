/-
The counters of a node agree with the tables.

A node hears from a table twice in the life of an entry: at the first reference and at the
last, and for the strong references likewise. `Counted` says that its two counters are
nevertheless what a look at all the tables would find. Every step keeps it, and it is why no
counter is ever asked for less than nothing.
-/
import DarwinArt.Binder.NodeSystem

set_option autoImplicit false

namespace DarwinArt.Binder

open Lib Lib.ListEdit

open ReferenceTable

namespace System

/-- The table refers to the node. -/
def refers (key : NodeKey) (table : ReferenceTable) : Bool := table.held (.Local key) ≠ Counts.zero

/-- The table refers strongly to the node. -/
def refers_strongly (key : NodeKey) (table : ReferenceTable) : Bool :=
  (table.held (.Local key)).strong ≠ 0

/-- The counters of the nodes count the tables. -/
structure Counted (tables : List ReferenceTable) (heap : Heap) : Prop where
  wf : ∀ table ∈ tables, Wf table
  /-- What a table refers to exists. -/
  node : ∀ table ∈ tables, ∀ key, table.held (.Local key) ≠ Counts.zero →
    (heap.lifecycle key).isSome = true
  remote : ∀ key state, heap.lifecycle key = some state →
    state.remote_tables = tables.countP (refers key)
  strong : ∀ key state, heap.lifecycle key = some state →
    state.strong_tables = tables.countP (refers_strongly key)

/-- The nodes of the second heap are those of the first, with the same counts of tables. -/
def SameTables (heap heap' : Heap) : Prop :=
  ∀ key, (heap'.lifecycle key).map (fun state => (state.remote_tables, state.strong_tables)) =
    (heap.lifecycle key).map fun state => (state.remote_tables, state.strong_tables)

section Frame

variable {tables : List ReferenceTable} {heap heap' : Heap} {key : NodeKey}

theorem SameTables.lifecycle (h : SameTables heap heap') {state' : Lifecycle}
    (hstate' : heap'.lifecycle key = some state') :
    ∃ state, heap.lifecycle key = some state ∧ state'.remote_tables = state.remote_tables ∧
      state'.strong_tables = state.strong_tables := by
  have hkey := h key
  rw [hstate'] at hkey
  obtain ⟨state, hstate, heq⟩ := Option.map_eq_some_iff.mp hkey.symm
  injection heq with hremote hstrong
  exact ⟨state, hstate, hremote.symm, hstrong.symm⟩

theorem SameTables.isSome (h : SameTables heap heap') (key : NodeKey) :
    (heap'.lifecycle key).isSome = (heap.lifecycle key).isSome := by
  have hkey := congrArg Option.isSome (h key)
  rwa [Option.isSome_map, Option.isSome_map] at hkey

/-- A write to one node that leaves its counts of tables alone. -/
theorem sameTables_set {state state' : Lifecycle} (hstate : heap.lifecycle key = some state)
    (hremote : state'.remote_tables = state.remote_tables)
    (hstrong : state'.strong_tables = state.strong_tables) :
    SameTables heap (heap.set_lifecycle key state') := by
  intro key'
  rw [Heap.lifecycle_set_lifecycle]
  split
  · next heq =>
    subst heq
    rw [hstate]
    show some (state'.remote_tables, state'.strong_tables) = some _
    rw [hremote, hstrong]
  · rfl

/-- Only the counts of tables matter. -/
theorem Counted.frame (h : Counted tables heap) (hsame : SameTables heap heap') :
    Counted tables heap' := by
  constructor
  · exact h.wf
  · intro table htable key hheld
    rw [hsame.isSome]
    exact h.node table htable key hheld
  · intro key state' hstate'
    obtain ⟨state, hstate, hremote, -⟩ := hsame.lifecycle hstate'
    rw [hremote]
    exact h.remote key state hstate
  · intro key state' hstate'
    obtain ⟨state, hstate, -, hstrong⟩ := hsame.lifecycle hstate'
    rw [hstrong]
    exact h.strong key state hstate

/-- A new node, which no table can refer to yet. -/
theorem Counted.with_node (h : Counted tables heap) {node : Node}
    (hnone : heap.lifecycle key = none) (hnew : node.lifecycle = Lifecycle.new) :
    Counted tables (heap.with_node key node) := by
  have hlookup : ∀ key', (heap.with_node key node).lifecycle key' =
      if key = key' then some Lifecycle.new else heap.lifecycle key' := by
    intro key'
    rw [Heap.lifecycle_with_node, hnew]
  have hunheld : ∀ table ∈ tables, table.held (.Local key) = Counts.zero := by
    intro table htable
    by_contra hheld
    have hsome := h.node table htable key hheld
    rw [hnone] at hsome
    cases hsome
  constructor
  · exact h.wf
  · intro table htable key' hheld
    rw [hlookup]
    split
    · rfl
    · exact h.node table htable key' hheld
  · intro key' state hstate
    rw [hlookup] at hstate
    split at hstate
    · next heq =>
      rw [← Option.some.inj hstate, ← heq]
      symm
      rw [show Lifecycle.new.remote_tables = 0 from rfl, List.countP_eq_zero]
      intro table htable
      simp [refers, hunheld table htable]
    · exact h.remote key' state hstate
  · intro key' state hstate
    rw [hlookup] at hstate
    split at hstate
    · next heq =>
      rw [← Option.some.inj hstate, ← heq]
      symm
      rw [show Lifecycle.new.strong_tables = 0 from rfl, List.countP_eq_zero]
      intro table htable
      simp [refers_strongly, hunheld table htable, Counts.zero]
    · exact h.strong key' state hstate

end Frame

/-! ## Updates of one table -/

section Updates

variable {tables : List ReferenceTable} {heap heap' : Heap} {target : Target}
  {before after : Counts}

/-- What an update does to the counters of a node: those of its target move by what begins
and ends, the others stay. -/
theorem update_target_counters (h : update_target heap target before after = some heap')
    {key : NodeKey} {state' : Lifecycle} (hstate' : heap'.lifecycle key = some state') :
    ∃ state, heap.lifecycle key = some state ∧
      ((target = .Local key ∧
        state'.remote_tables + (decide (before ≠ Counts.zero)).toNat =
          state.remote_tables + (decide (after ≠ Counts.zero)).toNat ∧
        state'.strong_tables + (decide (before.strong ≠ 0)).toNat =
          state.strong_tables + (decide (after.strong ≠ 0)).toNat) ∨
      (target ≠ .Local key ∧ state'.remote_tables = state.remote_tables ∧
        state'.strong_tables = state.strong_tables)) := by
  cases target with
  | Remote =>
    have hsame : heap = heap' := Option.some.inj h
    rw [← hsame] at hstate'
    exact ⟨state', hstate', .inr ⟨by simp, rfl, rfl⟩⟩
  | Local node =>
    obtain ⟨state, _, _, hstate, hremote, hstrong, hheap⟩ := Heap.update_remote_eq_some h
    rw [hheap, Heap.lifecycle_schedule] at hstate'
    rcases eq_or_ne node key with rfl | heq
    · rw [Heap.lifecycle_set_self hstate] at hstate'
      cases hstate'
      exact ⟨state, hstate, .inl ⟨rfl, Heap.transition_eq_some hremote,
        Heap.transition_eq_some hstrong⟩⟩
    · rw [Heap.lifecycle_set_ne heq] at hstate'
      refine ⟨state', hstate', .inr ⟨?_, rfl, rfl⟩⟩
      rintro ⟨⟩
      exact heq rfl

/-- An update keeps what nodes there are, and its target is one of them. -/
theorem update_target_nodes (h : update_target heap target before after = some heap') :
    (∀ key, (heap'.lifecycle key).isSome = (heap.lifecycle key).isSome) ∧
      ∀ key, target = .Local key → (heap.lifecycle key).isSome = true := by
  cases target with
  | Remote =>
    have hsame : heap = heap' := Option.some.inj h
    subst hsame
    exact ⟨fun key => rfl, fun key htarget => absurd htarget (by simp)⟩
  | Local =>
    obtain ⟨_, _, _, hstate, -, -, hheap⟩ := Heap.update_remote_eq_some h
    subst hheap
    refine ⟨fun key => Heap.isSome_set_lifecycle _ _ _ _, fun key htarget => ?_⟩
    cases htarget
    rw [hstate]
    rfl

/-- An update that begins nothing, and ends only what the counters count, succeeds. -/
theorem update_target_isSome
    (hnode : ∀ key, target = .Local key → ∃ state, heap.lifecycle key = some state ∧
      (before ≠ Counts.zero → 0 < state.remote_tables) ∧
      (before.strong ≠ 0 → 0 < state.strong_tables))
    (hremote : after ≠ Counts.zero → before ≠ Counts.zero)
    (hstrong : after.strong ≠ 0 → before.strong ≠ 0) :
    (update_target heap target before after).isSome = true := by
  cases target with
  | Remote => rfl
  | Local node =>
    obtain ⟨_, hstate, hpos, hposs⟩ := hnode node rfl
    apply Heap.update_remote_isSome hstate
    · apply Heap.transition_isSome
      · intro h
        exact decide_eq_true (hremote (of_decide_eq_true h))
      · intro h
        exact hpos (of_decide_eq_true h)
    · apply Heap.transition_isSome
      · intro h
        exact decide_eq_true (hstrong (of_decide_eq_true h))
      · intro h
        exact hposs (of_decide_eq_true h)

/-- **One table moves.** The counters follow. -/
theorem Counted.move (h : Counted tables heap) {i : ℕ} {table table' : ReferenceTable}
    (htable : tables[i]? = some table) (hmove : Move table heap table' heap') :
    Counted (tables.set i table') heap' := by
  have hwf : Wf table := h.wf table (List.mem_of_getElem? htable)
  obtain ⟨target, hupdate, hother⟩ := hmove.held hwf
  obtain ⟨hnodes, htargets⟩ := update_target_nodes hupdate
  -- a table counts for a node as before, unless the node is the target
  have hrefers : ∀ key, target ≠ .Local key → refers key table' = refers key table ∧
      refers_strongly key table' = refers_strongly key table := by
    intro key hne
    unfold refers refers_strongly
    rw [hother (.Local key) hne.symm]
    exact ⟨rfl, rfl⟩
  constructor
  · intro t ht
    rcases List.mem_or_eq_of_mem_set ht with ht | ht
    · exact h.wf t ht
    · rw [ht]
      exact hwf.move hmove
  · intro t ht key hheld
    rw [hnodes]
    rcases List.mem_or_eq_of_mem_set ht with ht | ht
    · exact h.node t ht key hheld
    · by_cases htarget : target = .Local key
      · exact htargets key htarget
      · rw [ht, hother (.Local key) (fun heq => htarget heq.symm)] at hheld
        exact h.node table (List.mem_of_getElem? htable) key hheld
  · intro key state' hstate'
    have hcount := countP_set_add (p := refers key) htable table'
    obtain ⟨state, hstate, ⟨htarget, hremote, -⟩ | ⟨htarget, hremote, -⟩⟩ :=
      update_target_counters hupdate hstate'
    · have hold := h.remote key state hstate
      rw [htarget] at hremote
      unfold refers at hcount hold ⊢
      omega
    · have hold := h.remote key state hstate
      rw [(hrefers key htarget).1] at hcount
      omega
  · intro key state' hstate'
    have hcount := countP_set_add (p := refers_strongly key) htable table'
    obtain ⟨state, hstate, ⟨htarget, -, hstrong⟩ | ⟨htarget, -, hstrong⟩⟩ :=
      update_target_counters hupdate hstate'
    · have hold := h.strong key state hstate
      rw [htarget] at hstrong
      unfold refers_strongly at hcount hold ⊢
      omega
    · have hold := h.strong key state hstate
      rw [(hrefers key htarget).2] at hcount
      omega

end Updates

/-! ## The drop of a table -/

section Drops

variable {tables : List ReferenceTable} {heap heap' : Heap} {references : List Reference}

/-- The reference is to the node. -/
def to_node (key : NodeKey) (reference : Reference) : Bool := reference.target = .Local key

/-- The reference is to the node, and strong. -/
def to_node_strongly (key : NodeKey) (reference : Reference) : Bool :=
  reference.target = .Local key ∧ reference.counts.strong ≠ 0

/-- The counters count the tables that remain, and the references of a table that is being
dropped. -/
structure Dropping (tables : List ReferenceTable) (references : List Reference) (heap : Heap) :
    Prop where
  wf : ∀ table ∈ tables, Wf table
  node : ∀ table ∈ tables, ∀ key, table.held (.Local key) ≠ Counts.zero →
    (heap.lifecycle key).isSome = true
  nonzero : ∀ reference ∈ references, reference.counts ≠ Counts.zero
  target : ∀ reference ∈ references, ∀ key, reference.target = .Local key →
    (heap.lifecycle key).isSome = true
  remote : ∀ key state, heap.lifecycle key = some state →
    state.remote_tables = tables.countP (refers key) + references.countP (to_node key)
  strong : ∀ key state, heap.lifecycle key = some state →
    state.strong_tables = tables.countP (refers_strongly key) +
      references.countP (to_node_strongly key)

/-- A table's entries, counted for a node. -/
theorem count_entries {table : ReferenceTable} (h : Wf table) (key : NodeKey) :
    (table.entries.toList.map Prod.snd).countP (to_node key) = (refers key table).toNat ∧
      (table.entries.toList.map Prod.snd).countP (to_node_strongly key) =
        (refers_strongly key table).toNat := by
  rw [List.countP_map, List.countP_map]
  have hnodup : table.entries.toList.Nodup := by
    refine Std.ExtTreeMap.distinct_keys_toList.imp fun hne heq => hne ?_
    rw [heq]
    exact Std.ReflCmp.compare_self
  unfold refers refers_strongly held
  cases hfind : table.find (.Local key) with
  | none =>
    have hnone := find_eq_none hfind
    refine ⟨List.countP_eq_zero.mpr ?_, List.countP_eq_zero.mpr ?_⟩
    · rintro ⟨handle, reference⟩ hmem hto
      have hentry := mem_toList_iff_getElem?_eq_some.mp hmem
      exact hnone handle reference hentry (by simpa [to_node] using hto)
    · rintro ⟨handle, reference⟩ hmem hto
      have hentry := mem_toList_iff_getElem?_eq_some.mp hmem
      have hto : reference.target = .Local key ∧ reference.counts.strong ≠ 0 := by
        simpa [to_node_strongly] using hto
      exact hnone handle reference hentry hto.1
  | some entry =>
    obtain ⟨handle, reference⟩ := entry
    obtain ⟨hentry, htarget⟩ := find_eq_some hfind
    have hmem := mem_toList_iff_getElem?_eq_some.mpr hentry
    -- the one entry of the target is the only one that can count
    have hunique : ∀ e ∈ table.entries.toList, e.2.target = .Local key → e = (handle, reference) := by
      rintro ⟨handle', reference'⟩ hmem' htarget'
      have hentry' := mem_toList_iff_getElem?_eq_some.mp hmem'
      have hhandle := h.distinct handle' handle reference' reference hentry' hentry
        (htarget'.trans htarget.symm)
      rw [hhandle, hentry] at hentry'
      rw [hhandle, Option.some.inj hentry']
    have hnonzero := h.nonzero handle reference hentry
    constructor
    · rw [countP_of_unique hnodup hmem]
      · simp [to_node, htarget, hnonzero]
      · intro e he hto
        exact hunique e he (by simpa [to_node] using hto)
    · rw [countP_of_unique hnodup hmem]
      · simp [to_node_strongly, htarget]
      · intro e he hto
        have hto : e.2.target = .Local key ∧ e.2.counts.strong ≠ 0 := by
          simpa [to_node_strongly] using hto
        exact hunique e he hto.1

/-- A drop begins. -/
theorem Counted.dropping (h : Counted tables heap) {i : ℕ} {table : ReferenceTable}
    (htable : tables[i]? = some table) :
    Dropping (tables.eraseIdx i) (table.entries.toList.map Prod.snd) heap := by
  have hmem := List.mem_of_getElem? htable
  have hwf := h.wf table hmem
  constructor
  · intro t ht
    exact h.wf t (List.mem_of_mem_eraseIdx ht)
  · intro t ht
    exact h.node t (List.mem_of_mem_eraseIdx ht)
  · intro reference href
    obtain ⟨⟨handle, r⟩, hentry, heq⟩ := List.mem_map.mp href
    rw [← heq]
    exact hwf.nonzero handle r (mem_toList_iff_getElem?_eq_some.mp hentry)
  · intro reference href key htarget
    obtain ⟨⟨handle, ⟨target, _⟩⟩, hentry, heq⟩ := List.mem_map.mp href
    have hentry := mem_toList_iff_getElem?_eq_some.mp hentry
    rw [← heq] at htarget
    have htarget : target = .Local key := htarget
    rw [htarget] at hentry
    apply h.node table hmem key
    rw [held_of_entry hwf hentry]
    exact hwf.nonzero handle _ hentry
  · intro key state hstate
    rw [h.remote key state hstate, (count_entries hwf key).1]
    exact (countP_eraseIdx_add htable).symm
  · intro key state hstate
    rw [h.strong key state hstate, (count_entries hwf key).2]
    exact (countP_eraseIdx_add htable).symm

/-- One reference is dropped: its update succeeds, and the rest is still counted. -/
theorem Dropping.step {reference : Reference} (h : Dropping tables (reference :: references) heap) :
    ∃ heap', update_target heap reference.target reference.counts Counts.zero = some heap' ∧
      Dropping tables references heap' := by
  have hsome : (update_target heap reference.target reference.counts Counts.zero).isSome = true := by
    apply update_target_isSome
    · intro key htarget
      obtain ⟨state, hstate⟩ := Option.isSome_iff_exists.mp
        (h.target reference List.mem_cons_self key htarget)
      refine ⟨state, hstate, fun hcounts => ?_, fun hcounts => ?_⟩
      · rw [h.remote key state hstate, List.countP_cons]
        simp [to_node, htarget]
      · rw [h.strong key state hstate, List.countP_cons]
        simp [to_node_strongly, htarget, hcounts]
    · intro hzero
      exact absurd rfl hzero
    · intro hzero
      exact absurd rfl hzero
  obtain ⟨heap', hupdate⟩ := Option.isSome_iff_exists.mp hsome
  obtain ⟨hnodes, -⟩ := update_target_nodes hupdate
  have hnonzero := h.nonzero reference List.mem_cons_self
  refine ⟨heap', hupdate, ?_⟩
  constructor
  · exact h.wf
  · intro t ht key hheld
    rw [hnodes]
    exact h.node t ht key hheld
  · intro r hr
    exact h.nonzero r (List.mem_cons_of_mem _ hr)
  · intro r hr key htarget
    rw [hnodes]
    exact h.target r (List.mem_cons_of_mem _ hr) key htarget
  · intro key state' hstate'
    obtain ⟨state, hstate, ⟨htarget, hremote, -⟩ | ⟨htarget, hremote, -⟩⟩ :=
      update_target_counters hupdate hstate'
    · have hold := h.remote key state hstate
      have hto : to_node key reference = true := by simp [to_node, htarget]
      rw [List.countP_cons_of_pos hto] at hold
      rw [decide_eq_true hnonzero, decide_eq_false (fun hne => hne rfl), Bool.toNat_true,
        Bool.toNat_false] at hremote
      omega
    · have hold := h.remote key state hstate
      have hto : ¬ to_node key reference = true := by simp [to_node, htarget]
      rw [List.countP_cons_of_neg hto] at hold
      omega
  · intro key state' hstate'
    obtain ⟨state, hstate, ⟨htarget, -, hstrong⟩ | ⟨htarget, -, hstrong⟩⟩ :=
      update_target_counters hupdate hstate'
    · have hold := h.strong key state hstate
      rw [decide_eq_false (fun hne => hne rfl : ¬ Counts.zero.strong ≠ 0), Bool.toNat_false]
        at hstrong
      by_cases hcounts : reference.counts.strong = 0
      · have hto : ¬ to_node_strongly key reference = true := by
          simp [to_node_strongly, hcounts]
        rw [List.countP_cons_of_neg hto] at hold
        rw [decide_eq_false (fun hne => hne hcounts), Bool.toNat_false] at hstrong
        omega
      · have hto : to_node_strongly key reference = true := by
          simp [to_node_strongly, htarget, hcounts]
        rw [List.countP_cons_of_pos hto] at hold
        rw [decide_eq_true hcounts, Bool.toNat_true] at hstrong
        omega
    · have hold := h.strong key state hstate
      have hto : ¬ to_node_strongly key reference = true := by simp [to_node_strongly, htarget]
      rw [List.countP_cons_of_neg hto] at hold
      omega

/-- **Dropping a table succeeds**, and the counters count the tables that remain. -/
theorem Dropping.finish (h : Dropping tables references heap) :
    ∃ heap', drop_references heap references = some heap' ∧ Counted tables heap' := by
  induction references generalizing heap with
  | nil =>
    refine ⟨heap, rfl, h.wf, h.node, fun key state hstate => ?_, fun key state hstate => ?_⟩
    · have hcount := h.remote key state hstate
      rwa [List.countP_nil, Nat.add_zero] at hcount
    · have hcount := h.strong key state hstate
      rwa [List.countP_nil, Nat.add_zero] at hcount
  | cons _ _ ih =>
    obtain ⟨_, hupdate, hrest⟩ := h.step
    obtain ⟨heap'', hdrop, hcounted⟩ := ih hrest
    refine ⟨heap'', ?_, hcounted⟩
    unfold drop_references
    rwa [hupdate]

theorem Counted.drop (h : Counted tables heap) {i : ℕ} {table : ReferenceTable}
    (htable : tables[i]? = some table) :
    ∃ heap', table.drop heap = some heap' ∧ Counted (tables.eraseIdx i) heap' :=
  (h.dropping htable).finish

end Drops

/-! ## Whole runs -/

section Runs

variable {s s' : System} {op : Op} {result : Except Failure Reply} {table : ReferenceTable}

theorem counted_new : Counted System.new.tables System.new.heap := by
  constructor
  · intro table htable
    exact absurd htable (by simp [System.new])
  · intro table htable
    exact absurd htable (by simp [System.new])
  · intro key state hstate
    exact absurd hstate (by simp [System.new, Heap.lifecycle])
  · intro key state hstate
    exact absurd hstate (by simp [System.new, Heap.lifecycle])

/-- A new table refers to nothing. -/
theorem held_new (target : Target) : ReferenceTable.new.held target = Counts.zero := by
  apply held_of_none
  intro handle reference hentry
  exact absurd hentry (by simp [ReferenceTable.new])

theorem Counted.with_table {tables : List ReferenceTable} {heap : Heap} (h : Counted tables heap) :
    Counted (tables ++ [.new]) heap := by
  constructor
  · intro table htable
    rcases mem_snoc htable with htable | htable
    · exact h.wf table htable
    · rw [htable]
      exact wf_new
  · intro table htable key hheld
    rcases mem_snoc htable with htable | htable
    · exact h.node table htable key hheld
    · rw [htable, held_new] at hheld
      exact absurd rfl hheld
  · intro key state hstate
    rw [List.countP_append, ← h.remote key state hstate]
    simp [refers, held_new]
  · intro key state hstate
    rw [List.countP_append, ← h.strong key state hstate]
    simp [refers_strongly, held_new, Counts.zero]

/-- **Every step keeps the counters.** -/
theorem Counted.change (h : Counted s.tables s.heap) (hc : Change s op result s') :
    Counted s'.tables s'.heap := by
  -- the queues of the owners and the readers have no part in it
  have hrefl : SameTables s.heap s.heap := fun _ => rfl
  cases hc with
  | failed | answered | table_panicked | hold_panicked | read_begun | read_done | read_failed =>
    exact h
  | owner_made | owner_dropped | popped | requeued => exact h.frame hrefl
  | node_made _ hnone hnew =>
    exact (h.with_node hnone hnew).frame fun _ => rfl
  | table_made => exact h.with_table
  | moved _ _ htable hmove => exact h.move htable hmove
  | table_dropped htable hdrop =>
    obtain ⟨_, hdrop', hcounted⟩ := h.drop htable
    rw [hdrop] at hdrop'
    rwa [Option.some.inj hdrop']
  | @held op reply key kind state count hreply hop hstate hcount =>
    obtain ⟨hremote, hstrong⟩ := Lifecycle.set_local_count_tables state kind count
    exact h.frame (sameTables_set hstate hremote hstrong)
  | @unheld i hold state count hhold hstate hcount =>
    obtain ⟨hremote, hstrong⟩ := Lifecycle.set_local_count_tables state hold.kind count
    exact h.frame (sameTables_set hstate hremote hstrong)
  | manager_refs hstate | acknowledged hstate | published _ hstate =>
    exact h.frame (sameTables_set hstate rfl rfl)

/-- What the events of a run start from. -/
theorem run_counted {es : List Event} (hrun : Run Step System.new es s) :
    Counted s.tables s.heap ∧ ∀ e ∈ es, Counted e.before.tables e.before.heap := by
  refine hrun.each (fun s => Counted s.tables s.heap) counted_new ?_
  rintro t e u h ⟨rfl, _, hperform⟩
  exact ⟨h.change (System.change hperform), h⟩

/-- A decrement never finds a counter too low. -/
theorem decrement_not_nodeState (h : Counted s.tables s.heap) {i : ℕ} (handle : ℕ)
    (strength : Strength) (htable : s.tables[i]? = some table) :
    (table.decrement s.heap handle strength).1 ≠ .error .NodeState := by
  have hmem := List.mem_of_getElem? htable
  have hwf := h.wf table hmem
  unfold ReferenceTable.decrement
  split
  · simp
  next reference hentry =>
  split
  · simp
  next count hcount =>
  dsimp only
  obtain ⟨-, hcount⟩ := checked_sub_eq_some.mp hcount
  obtain ⟨target, counts⟩ := reference
  have hheld : table.held target = counts := held_of_entry hwf hentry
  have hnonzero : counts ≠ Counts.zero := hwf.nonzero handle _ hentry
  have hsome : (update_target s.heap target counts (counts.set_count strength count)).isSome =
      true := by
    apply update_target_isSome
    · intro key htarget
      subst htarget
      have hnode := h.node table hmem key (by rw [hheld]; exact hnonzero)
      obtain ⟨state, hstate⟩ := Option.isSome_iff_exists.mp hnode
      refine ⟨state, hstate, fun hne => ?_, fun hne => ?_⟩
      · rw [h.remote key state hstate]
        refine List.countP_pos_iff.mpr ⟨table, hmem, ?_⟩
        simp [refers, hheld, hne]
      · rw [h.strong key state hstate]
        refine List.countP_pos_iff.mpr ⟨table, hmem, ?_⟩
        simp [refers_strongly, hheld, hne]
    · intro _
      exact hnonzero
    · intro hstrong hzero
      apply hstrong
      cases strength with
      | Strong =>
        have hcount : counts.strong = 1 + count := hcount
        omega
      | Weak => exact hzero
  obtain ⟨heap', hupdate⟩ := Option.isSome_iff_exists.mp hsome
  have hupdate' : update_target s.heap target counts (counts.set_count strength count) =
    some heap' := hupdate
  rw [hupdate']
  simp

/-- A failed operation changes nothing, a read of a queue apart. -/
theorem Change.error_same {f : Failure} (hc : Change s op (.error f) s')
    (hop : ∀ owner, op ≠ .read_step owner) : s' = s := by
  cases hc with
  | failed => rfl
  | table_panicked => rfl
  | hold_panicked => rfl
  | read_failed => exact absurd rfl (hop _)
  | requeued => exact absurd rfl (hop _)

/-- The table, the target and the first handle of a `retain` call. -/
def Op.retains : Op → Option (ℕ × Target × ℕ)
  | .retain i node _ => some (i, .Local node, 1)
  | .retain_context_manager i node _ => some (i, .Local node, 0)
  | .retain_remote i node _ => some (i, .Remote node, 1)
  | .retain_remote_context_manager i node _ => some (i, .Remote node, 0)
  | _ => none

/-- A `retain` call is `retain_from` on its table. -/
theorem perform_retains {i start : ℕ} {target : Target} (hop : op.retains = some (i, target, start))
    (htable : s.tables[i]? = some table) {handle : ℕ} {before after : Counts}
    (h : s.perform op = some (.ok (.Handle handle before after), s')) :
    ∃ strength table' heap', table.retain_from s.heap target strength start =
      (.ok (handle, before, after), table', heap') := by
  have hgeneral : ∀ strength, s.on_table_retain i target (fun table heap =>
      table.retain_from heap target strength start) =
        some (.ok (.Handle handle before after), s') →
      ∃ table' heap', table.retain_from s.heap target strength start =
        (.ok (handle, before, after), table', heap') := by
    intro strength h
    have h : ∃ reply, s.on_table i reply
        (fun table heap => table.retain_from heap target strength start) =
          some (.ok (.Handle handle before after), s') ∧
        ∀ n b a, reply (n, b, a) = .Handle n b a := by
      unfold on_table_retain at h
      split at h
      · split at h
        · cases h
        · exact ⟨_, h, fun _ _ _ => rfl⟩
      · exact ⟨_, h, fun _ _ _ => rfl⟩
    obtain ⟨reply, h, hhandle⟩ := h
    simp only [on_table, htable] at h
    split at h
    · cases h
    · next a table' heap' hcall =>
      injection h with h
      injection h with hresult
      obtain ⟨_, _, _⟩ := a
      rw [hhandle] at hresult
      cases hresult
      exact ⟨table', heap', hcall⟩
  cases op with
  | retain _ _ strength | retain_context_manager _ _ strength | retain_remote _ _ strength
  | retain_remote_context_manager _ _ strength =>
    cases hop
    exact ⟨strength, hgeneral strength h⟩
  | _ => exact absurd hop (by simp [Op.retains])

/-- The table has an entry for the node. -/
def has_entry (key : NodeKey) (table : ReferenceTable) : Bool :=
  table.entries.toList.any fun entry => entry.2.target = .Local key

/-- The table has an entry for the node with a strong reference. -/
def has_strong_entry (key : NodeKey) (table : ReferenceTable) : Bool :=
  table.entries.toList.any fun entry => entry.2.target = .Local key ∧ 0 < entry.2.counts.strong

theorem has_entry_eq (h : Wf table) (key : NodeKey) :
    has_entry key table = refers key table := by
  rw [Bool.eq_iff_iff]
  unfold has_entry refers
  rw [List.any_eq_true, decide_eq_true_eq]
  constructor
  · rintro ⟨⟨handle, ⟨target, _⟩⟩, hmem, htarget⟩
    have hentry := mem_toList_iff_getElem?_eq_some.mp hmem
    have htarget : target = .Local key := of_decide_eq_true htarget
    subst htarget
    rw [held_of_entry h hentry]
    exact h.nonzero handle _ hentry
  · intro hheld
    obtain ⟨handle, hentry⟩ := entry_of_held hheld
    exact ⟨_, mem_toList_iff_getElem?_eq_some.mpr hentry, by simp⟩

theorem has_strong_entry_eq (h : Wf table) (key : NodeKey) :
    has_strong_entry key table = refers_strongly key table := by
  rw [Bool.eq_iff_iff]
  unfold has_strong_entry refers_strongly
  rw [List.any_eq_true, decide_eq_true_eq]
  constructor
  · rintro ⟨⟨handle, ⟨target, counts⟩⟩, hmem, hstrong⟩
    have hentry := mem_toList_iff_getElem?_eq_some.mp hmem
    obtain ⟨htarget, hpos⟩ : target = .Local key ∧ 0 < counts.strong := of_decide_eq_true hstrong
    subst htarget
    rw [held_of_entry h hentry]
    omega
  · intro hstrong
    have hheld : table.held (.Local key) ≠ Counts.zero := by
      intro hzero
      rw [hzero] at hstrong
      exact hstrong rfl
    obtain ⟨handle, hentry⟩ := entry_of_held hheld
    refine ⟨_, mem_toList_iff_getElem?_eq_some.mpr hentry, decide_eq_true ⟨rfl, ?_⟩⟩
    show 0 < (table.held (.Local key)).strong
    omega

/-- **Handle tables and nodes agree**, in every run of every set of tables and nodes. -/
theorem reference_counts_agree {es : List Event} (hrun : Run Step System.new es s) :
    -- a table's handles have distinct targets, and its counts are positive and bounded
    (∀ table ∈ s.tables,
      (∀ (handle handle' : ℕ) reference reference', table.entries[handle]? = some reference →
        table.entries[handle']? = some reference' → reference.target = reference'.target →
        handle = handle') ∧
      ∀ (handle : ℕ) reference, table.entries[handle]? = some reference →
        (reference.counts.strong ≠ 0 ∨ reference.counts.weak ≠ 0) ∧
        reference.counts.strong ≤ i32_max ∧ reference.counts.weak ≤ i32_max) ∧
    -- a node counts the tables that refer to it
    (∀ key state, s.heap.lifecycle key = some state →
      state.remote_tables = s.tables.countP (has_entry key) ∧
      state.strong_tables = s.tables.countP (has_strong_entry key)) ∧
    -- a new handle is the least free one
    (∀ e ∈ es, ∀ i target start, e.op.retains = some (i, target, start) →
      ∀ table, e.before.tables[i]? = some table →
      (∀ (handle : ℕ) reference, table.entries[handle]? = some reference →
        reference.target ≠ target) →
      ∀ handle before after s', e.before.perform e.op =
        some (.ok (.Handle handle before after), s') →
      start ≤ handle ∧ table.entries[handle]? = none ∧
        ∀ x, start ≤ x → x < handle → table.entries[x]? ≠ none) ∧
    -- no counter underflows, so a table can always be dropped
    (∀ e ∈ es, ∀ i handle strength, e.op = .decrement i handle strength →
      e.result ≠ some (.error (.Table .NodeState))) ∧
    (∀ (i : ℕ) (table : ReferenceTable), s.tables[i]? = some table →
      (table.drop s.heap).isSome = true) ∧
    (∀ e ∈ es, ∀ i, e.op = .drop_table i → e.result ≠ some (.error .Panicked)) ∧
    -- and a failed call changes nothing
    (∀ e ∈ es, (∀ owner, e.op ≠ .read_step owner) → ∀ f s',
      e.before.perform e.op = some (.error f, s') → s' = e.before) := by
  obtain ⟨hcounted, hevents⟩ := run_counted hrun
  refine ⟨?_, ?_, ?_, ?_, ?_, ?_, ?_⟩
  · intro table htable
    have hwf := hcounted.wf table htable
    refine ⟨hwf.distinct, fun handle reference hentry => ⟨?_, hwf.bounded handle reference hentry⟩⟩
    have hnonzero := hwf.nonzero handle reference hentry
    by_contra hnot
    push Not at hnot
    exact hnonzero (Counts.ext hnot.1 hnot.2)
  · intro key state hstate
    have hcongr : s.tables.countP (has_entry key) = s.tables.countP (refers key) := by
      refine List.countP_congr fun table htable => ?_
      rw [has_entry_eq (hcounted.wf table htable)]
    have hcongr' : s.tables.countP (has_strong_entry key) =
        s.tables.countP (refers_strongly key) := by
      refine List.countP_congr fun table htable => ?_
      rw [has_strong_entry_eq (hcounted.wf table htable)]
    rw [hcongr, hcongr']
    exact ⟨hcounted.remote key state hstate, hcounted.strong key state hstate⟩
  · intro e _ i target start hop table htable hnew handle before after s' hperform
    obtain ⟨strength, table', heap', hretain⟩ := perform_retains hop htable hperform
    rcases retain_from_cases table e.before.heap target strength start with
      ⟨error, herror⟩ | ⟨_, _, _, _, _, hok, -, hleast⟩
    · rw [hretain] at herror
      cases herror
    · rw [hretain] at hok
      cases hok
      exact hleast hnew
  · intro e he i handle strength hop hresult
    unfold Event.result at hresult
    rw [hop] at hresult
    obtain ⟨⟨result, s'⟩, hperform, hresult⟩ := Option.map_eq_some_iff.mp hresult
    simp only [perform, on_table] at hperform
    split at hperform
    · cases hperform
    next table htable =>
    have hnot := decrement_not_nodeState (hevents e he) handle strength htable
    split at hperform
    · next error table' heap' hcall =>
      rw [hcall] at hnot
      cases hperform
      cases hresult
      exact hnot rfl
    · cases hperform
      cases hresult
  · intro i table htable
    obtain ⟨heap', hdrop, -⟩ := hcounted.drop htable
    rw [hdrop]
    rfl
  · intro e he i hop hresult
    unfold Event.result at hresult
    rw [hop] at hresult
    obtain ⟨⟨result, s'⟩, hperform, hresult⟩ := Option.map_eq_some_iff.mp hresult
    have hresult : result = .error .Panicked := hresult
    have hchange := System.change hperform
    rw [hresult] at hchange
    cases hchange with
    | failed hpanic => exact hpanic rfl
    | table_panicked htable hdrop =>
      obtain ⟨heap', hdrop', -⟩ := (hevents e he).drop htable
      rw [hdrop] at hdrop'
      cases hdrop'
  · intro e _ hop f s' hperform
    exact (System.change hperform).error_same hop

end Runs

/-! ## A run -/

/-- The events of a list of operations, if all of them are possible. -/
def events (s : System) (ops : List Op) : Option (List Event × System) :=
  Run.collect perform Event.mk s ops

theorem run_events {s t : System} {ops : List Op} {es : List Event}
    (h : events s ops = some (es, t)) : Run Step s es t := by
  refine Run.of_collect ?_ h
  intro s op result t hperform
  exact ⟨rfl, result, hperform⟩

/-- Two tables refer to one node, the first of them strongly. -/
def two_tables : List Op :=
  [.new_owner, .resolve_object 0 (.Node false 0 123 456) ⟨true, true⟩, .new_table, .new_table,
    .retain 0 ⟨0, 123⟩ .Strong, .retain 1 ⟨0, 123⟩ .Weak, .retain_context_manager 1 ⟨0, 123⟩ .Weak]

theorem node_counts_two_tables :
    ∃ es s state, events System.new two_tables = some (es, s) ∧
      s.heap.lifecycle ⟨0, 123⟩ = some state ∧ state.remote_tables = 2 ∧
      state.strong_tables = 1 ∧ s.tables.countP (has_entry ⟨0, 123⟩) = 2 := by
  have hevents : (events System.new two_tables).isSome = true := by decide +kernel
  obtain ⟨⟨es, s⟩, hes⟩ := Option.isSome_iff_exists.mp hevents
  obtain ⟨-, hcounts, -⟩ := reference_counts_agree (run_events hes)
  have hnode : ((events System.new two_tables).bind fun r =>
      (r.2.heap.lifecycle ⟨0, 123⟩).map fun state => (state.remote_tables, state.strong_tables)) =
        some (2, 1) := by decide +kernel
  rw [hes, Option.bind_some] at hnode
  obtain ⟨state, hstate, heq⟩ := Option.map_eq_some_iff.mp hnode
  injection heq with hremote hstrong
  refine ⟨es, s, state, hes, hstate, hremote, hstrong, ?_⟩
  rwa [← (hcounts _ state hstate).1]

end System

end DarwinArt.Binder
