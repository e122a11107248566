/-
The order in which a local group is unloaded: `local_order` of `namespace_group_finalization.rs`.

A queue is walked from the root. A member that is visited is taken from the parents of each of its
children, and a child that has no parent left goes to the queue. This is Kahn's algorithm but for
the root, which is visited first whatever its parents are. The order is complete when every member
is reached and no cycle avoids the root.

The invariant of the walk says what `parents` is: the parents that are not visited yet. A member
whose parents are all visited, and that has one, is visited or in the queue.
-/
import DarwinArt.Lib.ListEdit
import Mathlib.Data.Fintype.EquivFin
import Mathlib.Order.WellFounded

set_option autoImplicit false

namespace DarwinArt.Elf.UnloadOrder

open Lib

/-! ## The walk -/

/-- The edges in the order of the two loops: a parent, and one of its children. -/
def edges (children : List (List ℕ)) : List (ℕ × ℕ) :=
  children.zipIdx.flatMap fun entry => entry.1.map fun child => (entry.2, child)

/-- `parents.get_mut(child)?.insert(parent)`. -/
def add_parent (n : ℕ) (parents : ℕ → Finset ℕ) (edge : ℕ × ℕ) : Option (ℕ → Finset ℕ) :=
  if edge.2 < n then
    some fun c => if c = edge.2 then insert edge.1 (parents c) else parents c
  else none

/-- One child of the member that is visited. -/
def release (visited : Finset ℕ) (parent : ℕ) (state : (ℕ → Finset ℕ) × List ℕ) (child : ℕ) :
    (ℕ → Finset ℕ) × List ℕ :=
  let parents := fun c => if c = child then (state.1 c).erase parent else state.1 c
  (parents, if child ∉ visited ∧ parents child = ∅ then state.2 ++ [child] else state.2)

/-- The loop over the queue, which has members only. -/
def walk (children : List (List ℕ)) (parents : ℕ → Finset ℕ) (visited : Finset ℕ)
    (order : List ℕ) : List ℕ → List ℕ
  | [] => order
  | parent :: queue =>
    if parent ∈ visited then walk children parents visited order queue
    else
      let state := (children.getD parent []).foldl (release (insert parent visited) parent)
        (parents, queue)
      walk children state.1 (insert parent visited) (order ++ [parent]) state.2
termination_by queue => ((Finset.range children.length \ visited).card, queue.length)
decreasing_by
  · exact Prod.Lex.right _ (Nat.lt_succ_self _)
  · rename_i hnew
    by_cases hparent : parent < children.length
    · apply Prod.Lex.left
      refine Finset.card_lt_card (Finset.ssubset_iff_of_subset ?_ |>.mpr ⟨parent, ?_, ?_⟩)
      · exact Finset.sdiff_subset_sdiff (Finset.Subset.refl _) (Finset.subset_insert _ _)
      · exact Finset.mem_sdiff.mpr ⟨Finset.mem_range.mpr hparent, hnew⟩
      · simp
    · -- nobody else is visited, and nothing is pushed
      have hsame : Finset.range children.length \ insert parent visited =
          Finset.range children.length \ visited := by
        ext v
        simp only [Finset.mem_sdiff, Finset.mem_range, Finset.mem_insert, not_or]
        exact ⟨fun h => ⟨h.1, h.2.2⟩, fun h => ⟨h.1, fun heq => hparent (heq ▸ h.1), h.2⟩⟩
      rw [hsame, List.getD_eq_getElem?_getD, List.getElem?_eq_none (Nat.le_of_not_lt hparent)]
      exact Prod.Lex.right _ (Nat.lt_succ_self _)

def local_order (root : ℕ) (children : List (List ℕ)) : Option (List ℕ) :=
  if children.length ≤ root then none
  else do
    let parents ← (edges children).foldlM (add_parent children.length) fun _ => ∅
    let order := walk children parents ∅ [] [root]
    if order.length = children.length then some order else none

/-! ## The graph -/

section Graph

variable (root : ℕ) (children : List (List ℕ))

def Edge (parent child : ℕ) : Prop := child ∈ children.getD parent []

/-- The root and the children are members. -/
def Closed : Prop := root < children.length ∧ ∀ p c, Edge children p c → c < children.length

def Reaches : ℕ → ℕ → Prop := Relation.ReflTransGen (Edge children)

/-- No cycle is left without the edges into the root. -/
def Acyclic : Prop := ∀ v, ¬ Relation.TransGen (fun p c => Edge children p c ∧ c ≠ root) v v

end Graph

variable {root : ℕ} {children : List (List ℕ)}

theorem mem_edges {p c : ℕ} : (p, c) ∈ edges children ↔ Edge children p c := by
  unfold edges Edge
  rw [List.mem_flatMap]
  constructor
  · rintro ⟨⟨kids, i⟩, hentry, hc⟩
    obtain ⟨c', hc', heq⟩ := List.mem_map.mp hc
    cases heq
    rwa [List.getD_eq_getElem?_getD, List.mem_zipIdx_iff_getElem?.mp hentry]
  · intro hc
    rw [List.getD_eq_getElem?_getD] at hc
    cases hkids : children[p]? with
    | none =>
      rw [hkids] at hc
      exact absurd hc List.not_mem_nil
    | some kids =>
      rw [hkids] at hc
      exact ⟨(kids, p), List.mem_zipIdx_iff_getElem?.mpr hkids, List.mem_map.mpr ⟨c, hc, rfl⟩⟩

theorem add_parents_eq_some {n : ℕ} {es : List (ℕ × ℕ)} {parents parents' : ℕ → Finset ℕ}
    (h : es.foldlM (add_parent n) parents = some parents') :
    (∀ e ∈ es, e.2 < n) ∧ ∀ p c, p ∈ parents' c ↔ p ∈ parents c ∨ (p, c) ∈ es := by
  induction es generalizing parents with
  | nil =>
    cases h
    simp
  | cons e _ ih =>
    obtain ⟨parents₁, hadd, hrest⟩ := Option.bind_eq_some_iff.mp h
    obtain ⟨hlt, hmem⟩ := ih hrest
    unfold add_parent at hadd
    split at hadd
    next he =>
      refine ⟨List.forall_mem_cons.mpr ⟨he, hlt⟩, fun p c => ?_⟩
      rw [hmem, ← Option.some.inj hadd, List.mem_cons]
      by_cases hc : c = e.2
      · simp [hc, Prod.ext_iff, or_assoc, or_left_comm]
      · simp [hc, Prod.ext_iff]
    next => cases hadd

theorem add_parents_of_lt {n : ℕ} {es : List (ℕ × ℕ)} (h : ∀ e ∈ es, e.2 < n)
    (parents : ℕ → Finset ℕ) : ∃ parents', es.foldlM (add_parent n) parents = some parents' := by
  induction es generalizing parents with
  | nil => exact ⟨parents, rfl⟩
  | cons _ _ ih =>
    obtain ⟨he, hrest⟩ := List.forall_mem_cons.mp h
    rw [List.foldlM_cons, add_parent, if_pos he]
    exact ih hrest _

/-- What a visit does to the parents and to the queue. -/
theorem foldl_release (visited : Finset ℕ) (parent : ℕ) (kids : List ℕ) (parents : ℕ → Finset ℕ)
    (queue : List ℕ) :
    (∀ c p, p ∈ (kids.foldl (release visited parent) (parents, queue)).1 c ↔
      p ∈ parents c ∧ ¬ (c ∈ kids ∧ p = parent)) ∧
    ∀ v, v ∈ (kids.foldl (release visited parent) (parents, queue)).2 ↔
      v ∈ queue ∨ (v ∈ kids ∧ v ∉ visited ∧ ∀ p ∈ parents v, p = parent) := by
  induction kids generalizing parents queue with
  | nil => simp
  | cons child _ ih =>
    rw [List.foldl_cons]
    obtain ⟨hparents, hqueue⟩ := ih (release visited parent (parents, queue) child).1
      (release visited parent (parents, queue) child).2
    have hone : ∀ c p, p ∈ (release visited parent (parents, queue) child).1 c ↔
        p ∈ parents c ∧ ¬ (c = child ∧ p = parent) := by
      intro c p
      by_cases hc : c = child
      · simp [release, hc, and_comm]
      · simp [release, hc]
    have hempty : (release visited parent (parents, queue) child).1 child = ∅ ↔
        ∀ p ∈ parents child, p = parent := by
      rw [Finset.eq_empty_iff_forall_notMem]
      refine forall_congr' fun p => ?_
      rw [hone]
      tauto
    refine ⟨fun c p => ?_, fun v => ?_⟩
    · rw [hparents, hone, List.mem_cons]
      tauto
    · rw [hqueue]
      have hall : (∀ p ∈ (release visited parent (parents, queue) child).1 v, p = parent) ↔
          ∀ p ∈ parents v, p = parent := by
        refine forall_congr' fun p => ?_
        rw [hone]
        tauto
      have hpush : v ∈ (release visited parent (parents, queue) child).2 ↔
          v ∈ queue ∨ (v = child ∧ child ∉ visited ∧ ∀ p ∈ parents child, p = parent) := by
        rw [← hempty]
        by_cases hif : child ∉ visited ∧ (release visited parent (parents, queue) child).1 child = ∅
        · rw [show (release visited parent (parents, queue) child).2 = queue ++ [child] from
            if_pos hif, List.mem_append, List.mem_singleton]
          tauto
        · rw [show (release visited parent (parents, queue) child).2 = queue from if_neg hif]
          tauto
      rw [hall, hpush, List.mem_cons]
      constructor
      · rintro ((hv | ⟨rfl, hv⟩) | ⟨hmem, hv⟩)
        · exact .inl hv
        · exact .inr ⟨.inl rfl, hv⟩
        · exact .inr ⟨.inr hmem, hv⟩
      · rintro (hv | ⟨rfl | hmem, hv⟩)
        · exact .inl (.inl hv)
        · exact .inl (.inr ⟨rfl, hv⟩)
        · exact .inr ⟨hmem, hv⟩

/-! ## The invariant -/

structure Walked (root : ℕ) (children : List (List ℕ)) (parents : ℕ → Finset ℕ)
    (visited : Finset ℕ) (order queue : List ℕ) : Prop where
  visited : ∀ v, v ∈ visited ↔ v ∈ order
  nodup : order.Nodup
  unvisited : ∀ c p, p ∈ parents c ↔ Edge children p c ∧ p ∉ order
  members : ∀ v, v ∈ order ∨ v ∈ queue → v < children.length ∧ Reaches children root v
  queued : ∀ v ∈ queue, v ≠ root → ∀ p, Edge children p v → p ∈ order
  ordered : ∀ c ∈ order, c ≠ root → ∀ p, Edge children p c → order.idxOf p < order.idxOf c
  pending : ∀ p c, p ∈ order → Edge children p c → (∀ q, Edge children q c → q ∈ order) →
    c ∈ order ∨ c ∈ queue
  started : (order = [] ∧ queue = [root]) ∨ order.head? = some root

variable {parents : ℕ → Finset ℕ} {visited : Finset ℕ} {order queue : List ℕ} {parent : ℕ}

theorem Walked.skip (h : Walked root children parents visited order (parent :: queue))
    (hold : parent ∈ visited) : Walked root children parents visited order queue where
  visited := h.visited
  nodup := h.nodup
  unvisited := h.unvisited
  members v hv := h.members v (hv.imp_right (List.mem_cons_of_mem _))
  queued v hv := h.queued v (List.mem_cons_of_mem _ hv)
  ordered := h.ordered
  pending p c hp hedge hall := by
    rcases h.pending p c hp hedge hall with hc | hc
    · exact .inl hc
    · rcases List.mem_cons.mp hc with rfl | hc
      · exact .inl ((h.visited _).mp hold)
      · exact .inr hc
  started := by
    rcases h.started with ⟨hnil, -⟩ | hhead
    · have hmem := (h.visited _).mp hold
      rw [hnil] at hmem
      exact absurd hmem List.not_mem_nil
    · exact .inr hhead

theorem Walked.visit (hclosed : Closed root children)
    (h : Walked root children parents visited order (parent :: queue)) (hnew : parent ∉ visited)
    {state : (ℕ → Finset ℕ) × List ℕ}
    (hstate : (children.getD parent []).foldl (release (insert parent visited) parent)
      (parents, queue) = state) :
    Walked root children state.1 (insert parent visited) (order ++ [parent]) state.2 := by
  obtain ⟨hparents, hqueue⟩ := foldl_release (insert parent visited) parent
    (children.getD parent []) parents queue
  rw [hstate] at hparents hqueue
  have hfresh : parent ∉ order := fun hmem => hnew ((h.visited _).mpr hmem)
  obtain ⟨hlt, hreach⟩ := h.members parent (.inr List.mem_cons_self)
  have hvisited : ∀ v, v ∈ insert parent visited ↔ v ∈ order ++ [parent] := by
    intro v
    rw [Finset.mem_insert, h.visited, List.mem_append, List.mem_singleton, or_comm]
  -- a child goes to the queue when the visited one is the last of its parents
  have hlast : ∀ v, (∀ p ∈ parents v, p = parent) ↔
      ∀ p, Edge children p v → p ∈ order ++ [parent] := by
    intro v
    refine forall_congr' fun p => ?_
    rw [h.unvisited, List.mem_append, List.mem_singleton]
    tauto
  refine ⟨hvisited, ?_, fun c p => ?_, fun v hv => ?_, fun v hv hroot => ?_, fun c hc hroot p hp => ?_,
    fun p c hp hedge hall => ?_, .inr ?_⟩
  · exact List.nodup_append.mpr ⟨h.nodup, List.nodup_singleton _, fun a ha b hb => by
      rw [List.mem_singleton.mp hb]
      exact fun heq => hfresh (heq ▸ ha)⟩
  · rw [hparents, h.unvisited, List.mem_append, List.mem_singleton]
    unfold Edge
    constructor
    · rintro ⟨⟨hedge, hp⟩, hnot⟩
      exact ⟨hedge, fun hmem => hmem.elim hp fun heq => hnot ⟨heq ▸ hedge, heq⟩⟩
    · rintro ⟨hedge, hp⟩
      exact ⟨⟨hedge, fun hmem => hp (.inl hmem)⟩, fun hmem => hp (.inr hmem.2)⟩
  · rw [List.mem_append, List.mem_singleton, hqueue] at hv
    rcases hv with (hv | rfl) | hv | ⟨hkid, -⟩
    · exact h.members v (.inl hv)
    · exact ⟨hlt, hreach⟩
    · exact h.members v (.inr (List.mem_cons_of_mem _ hv))
    · exact ⟨hclosed.2 parent v hkid, hreach.tail hkid⟩
  · rcases (hqueue v).mp hv with hv | ⟨-, -, hv⟩
    · intro p hp
      exact List.mem_append_left _ (h.queued v (List.mem_cons_of_mem _ hv) hroot p hp)
    · exact (hlast v).mp hv
  · rcases List.mem_append.mp hc with hc | hc
    · have hbefore := h.ordered c hc hroot p hp
      have hp : p ∈ order :=
        List.idxOf_lt_length_iff.mp (Nat.lt_trans hbefore (List.idxOf_lt_length_of_mem hc))
      rwa [List.idxOf_append_of_mem hp, List.idxOf_append_of_mem hc]
    · rw [List.mem_singleton.mp hc] at hp hroot ⊢
      have hbefore := h.queued parent List.mem_cons_self hroot p hp
      rw [List.idxOf_append_of_mem hbefore, List.idxOf_append_of_notMem hfresh]
      exact Nat.lt_add_right _ (List.idxOf_lt_length_of_mem hbefore)
  · by_cases hc : c ∈ order ++ [parent]
    · exact .inl hc
    refine .inr ((hqueue c).mpr ?_)
    by_cases hkid : Edge children parent c
    · exact .inr ⟨hkid, fun hmem => hc ((hvisited c).mp hmem), (hlast c).mpr hall⟩
    · -- the visited one is no parent, so this was so before
      have hbefore : ∀ q, Edge children q c → q ∈ order := by
        intro q hq
        refine (List.mem_append.mp (hall q hq)).resolve_right fun hmem => hkid ?_
        rwa [← List.mem_singleton.mp hmem]
      rcases h.pending p c (hbefore p hedge) hedge hbefore with hmem | hmem
      · exact absurd (List.mem_append_left _ hmem) hc
      · rcases List.mem_cons.mp hmem with rfl | hmem
        · exact absurd (List.mem_append_right _ List.mem_cons_self) hc
        · exact .inl hmem
  · rcases h.started with ⟨hnil, hqueue⟩ | hhead
    · injection hqueue with hroot
      rw [hnil, hroot]
      rfl
    · rw [List.head?_append, hhead]
      rfl

/-- When the walk ends the invariant holds with an empty queue. -/
theorem Walked.walk (hclosed : Closed root children)
    (h : Walked root children parents visited order queue) :
    ∃ parents' visited', Walked root children parents' visited'
      (walk children parents visited order queue) [] := by
  fun_induction UnloadOrder.walk children parents visited order queue with
  | case1 parents visited => exact ⟨parents, visited, h⟩
  | case2 _ _ _ _ _ hold ih => exact ih (h.skip hold)
  | case3 _ _ _ _ _ hnew _ ih => exact ih (h.visit hclosed hnew rfl)

/-- What a walk from the root leads to. -/
theorem walk_spec (hclosed : Closed root children)
    (hparents : ∀ p c, p ∈ parents c ↔ Edge children p c) :
    ∃ parents' visited', Walked root children parents' visited'
      (walk children parents ∅ [] [root]) [] := by
  refine Walked.walk hclosed ⟨by simp, List.nodup_nil, fun c p => ?_, fun v hv => ?_, ?_, ?_, ?_,
    .inl ⟨rfl, rfl⟩⟩
  · rw [hparents]
    simp
  · rw [List.mem_singleton.mp (hv.resolve_left List.not_mem_nil)]
    exact ⟨hclosed.1, Relation.ReflTransGen.refl⟩
  · intro v hv hroot
    exact absurd (List.mem_singleton.mp hv) hroot
  · exact fun c hc => absurd hc List.not_mem_nil
  · exact fun p c hp => absurd hp List.not_mem_nil

/-! ## Completeness -/

/-- The order is complete when it has all members. -/
theorem Walked.length_eq_iff (h : Walked root children parents visited order queue) :
    order.length = children.length ↔ ∀ v < children.length, v ∈ order := by
  have hsub : order.toFinset ⊆ Finset.range children.length := by
    intro v hv
    exact Finset.mem_range.mpr (h.members v (.inl (List.mem_toFinset.mp hv))).1
  rw [← List.toFinset_card_of_nodup h.nodup]
  constructor
  · intro hcard v hv
    have heq := Finset.eq_of_subset_of_card_le hsub (by rw [Finset.card_range, hcard])
    exact List.mem_toFinset.mp (heq ▸ Finset.mem_range.mpr hv)
  · intro hall
    have heq : order.toFinset = Finset.range children.length := by
      refine Finset.Subset.antisymm hsub fun v hv => ?_
      exact List.mem_toFinset.mpr (hall v (Finset.mem_range.mp hv))
    rw [heq, Finset.card_range]

/-- Parents come first, so there is no cycle. -/
theorem Walked.acyclic (h : Walked root children parents visited order queue)
    (hall : ∀ v < children.length, v ∈ order) (hclosed : Closed root children) :
    Acyclic root children := by
  have hbefore : ∀ p c, Relation.TransGen (fun p c => Edge children p c ∧ c ≠ root) p c →
      order.idxOf p < order.idxOf c := by
    intro p c hpath
    have hstep : ∀ p c, Edge children p c ∧ c ≠ root → order.idxOf p < order.idxOf c := by
      rintro p c ⟨hedge, hroot⟩
      exact h.ordered c (hall c (hclosed.2 p c hedge)) hroot p hedge
    induction hpath with
    | single hedge => exact hstep _ _ hedge
    | tail _ hedge ih => exact Nat.lt_trans ih (hstep _ _ hedge)
  exact fun v hcycle => Nat.lt_irrefl _ (hbefore v v hcycle)

/-- Of the members that are not visited, one has no parent among them. It is reached, so it has a
parent, and the last of its parents pushed it. -/
theorem Walked.complete (h : Walked root children parents visited order [])
    (hreaches : ∀ v < children.length, Reaches children root v) (hacyclic : Acyclic root children) :
    ∀ v < children.length, v ∈ order := by
  -- a smallest one, in the order of the paths
  let before (p c : Fin children.length) : Prop :=
    Relation.TransGen (fun p c => Edge children p c ∧ c ≠ root) p.1 c.1
  have hwf : WellFounded before := by
    have : IsTrans _ before := ⟨fun _ _ _ hab hbc => hab.trans hbc⟩
    have : Std.Irrefl before := ⟨fun a => hacyclic a.1⟩
    exact Finite.wellFounded_of_trans_of_irrefl before
  have hhead : order.head? = some root := h.started.resolve_left fun hnil => nomatch hnil.2
  intro v hv
  induction hn : (⟨v, hv⟩ : Fin children.length) using hwf.induction generalizing v with
  | _ _ ih =>
    subst hn
    by_cases hroot : v = root
    · rw [hroot]
      exact List.mem_of_head? hhead
    have hparents : ∀ p, Edge children p v → p ∈ order := by
      intro p hedge
      have hp : p < children.length := by
        by_contra hp
        unfold Edge at hedge
        rw [List.getD_eq_getElem?_getD, List.getElem?_eq_none (Nat.le_of_not_lt hp)] at hedge
        exact absurd hedge List.not_mem_nil
      exact ih ⟨p, hp⟩ (Relation.TransGen.single ⟨hedge, hroot⟩) p hp rfl
    rcases Relation.ReflTransGen.cases_tail (hreaches v hv) with heq | ⟨p, -, hedge⟩
    · exact absurd heq hroot
    · exact (h.pending p v (hparents p hedge) hedge hparents).resolve_right List.not_mem_nil

theorem local_order_walked (h : local_order root children = some order) :
    Closed root children ∧ (∀ v < children.length, v ∈ order) ∧
      ∃ parents visited, Walked root children parents visited order [] := by
  unfold local_order at h
  split at h
  next => cases h
  next hroot =>
    obtain ⟨parents, hparents, h⟩ := Option.bind_eq_some_iff.mp h
    obtain ⟨hlt, hmem⟩ := add_parents_eq_some hparents
    have hclosed : Closed root children :=
      ⟨Nat.lt_of_not_le hroot, fun p c hedge => hlt (p, c) (mem_edges.mpr hedge)⟩
    have hedge : ∀ p c, p ∈ parents c ↔ Edge children p c := by
      intro p c
      rw [hmem, mem_edges]
      simp
    obtain ⟨parents', visited, hwalked⟩ := walk_spec hclosed hedge
    dsimp only at h
    split at h
    next hlength =>
      cases h
      exact ⟨hclosed, hwalked.length_eq_iff.mp hlength, parents', visited, hwalked⟩
    next => cases h

theorem local_order_of_acyclic (hclosed : Closed root children)
    (hreaches : ∀ v < children.length, Reaches children root v) (hacyclic : Acyclic root children) :
    (local_order root children).isSome := by
  have hlt : ∀ e ∈ edges children, e.2 < children.length :=
    fun e he => hclosed.2 e.1 e.2 (mem_edges.mp he)
  obtain ⟨parents, hparents⟩ := add_parents_of_lt hlt fun _ => ∅
  obtain ⟨-, hmem⟩ := add_parents_eq_some hparents
  have hedge : ∀ p c, p ∈ parents c ↔ Edge children p c := by
    intro p c
    rw [hmem, mem_edges]
    simp
  obtain ⟨parents', visited, hwalked⟩ := walk_spec hclosed hedge
  have hlength := hwalked.length_eq_iff.mpr (hwalked.complete hreaches hacyclic)
  unfold local_order
  rw [if_neg (Nat.not_le_of_lt hclosed.1), hparents]
  dsimp only [Option.bind_eq_bind, Option.bind_some]
  rw [if_pos hlength]
  rfl

/-- **The order is complete exactly when it can be**: when every member is reached from the root and
no cycle is left without the edges into the root. It then starts with the root and has every other
member after all of its parents. -/
theorem local_order_complete (root : ℕ) (children : List (List ℕ)) :
    ((local_order root children).isSome ↔ Closed root children ∧
      (∀ v < children.length, Reaches children root v) ∧ Acyclic root children) ∧
    ∀ order, local_order root children = some order →
      order.Nodup ∧ (∀ v, v ∈ order ↔ v < children.length) ∧ order.head? = some root ∧
        ∀ p c, Edge children p c → c ≠ root → order.idxOf p < order.idxOf c := by
  refine ⟨⟨fun hsome => ?_, fun h => local_order_of_acyclic h.1 h.2.1 h.2.2⟩, fun order h => ?_⟩
  · obtain ⟨order, h⟩ := Option.isSome_iff_exists.mp hsome
    obtain ⟨hclosed, hall, parents, visited, hwalked⟩ := local_order_walked h
    exact ⟨hclosed, fun v hv => (hwalked.members v (.inl (hall v hv))).2,
      hwalked.acyclic hall hclosed⟩
  · obtain ⟨hclosed, hall, parents, visited, hwalked⟩ := local_order_walked h
    refine ⟨hwalked.nodup, fun v => ⟨fun hv => (hwalked.members v (.inl hv)).1, hall v⟩,
      hwalked.started.resolve_left (fun hnil => nomatch hnil.2), fun p c hedge hroot => ?_⟩
    exact hwalked.ordered c (hall c (hclosed.2 p c hedge)) hroot p hedge

end DarwinArt.Elf.UnloadOrder
