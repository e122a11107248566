/-
Closing libraries, over whole runs: the counts, the order of the finalizers, and what is left.

The count of a group is the number of edges to it from groups whose images exist. Between two
operations those are the resident groups. While a close is going on, a retired group may exist a
while longer, because of a lease in the worklist, and then what it depends on is looked at too early
and never again. `Untangled` excludes that: the worklist is a stack, and if a group is in it twice,
then one of the groups pushed together with it, before it, leads to it.
-/
import DarwinArt.Lib.BreadthFirst
import DarwinArt.Linker.NamespaceClose

set_option autoImplicit false

namespace DarwinArt.Linker.Unload

open Lib Linker.Unload.State

/-! ## The statement -/

/-- Why a group stays. -/
def Needed (s : State) (x : ℕ) : Prop :=
  (s.groups x).opens ≠ 0 ∨ (s.groups x).flags ≠ (false, false) ∨
    ∃ g, (s.groups g).resident ∧ x ∈ (s.groups g).edges

/-- Reached by dependency edges. -/
def Reaches (edges : ℕ → List ℕ) : ℕ → ℕ → Prop :=
  Relation.ReflTransGen fun g t => t ∈ edges g

def State.edges (s : State) (g : ℕ) : List ℕ := (s.groups g).edges

/-- In every state between operations. -/
structure Sound (s : State) : Prop where
  counted : ∀ t, (s.groups t).incoming =
    ∑ g ∈ s.published with (s.groups g).resident, (s.edges g).count t
  kept : ∀ g, Needed s g → ¬ (s.groups g).retired
  once : s.finalized.Nodup
  finalized : ∀ g, g ∈ s.finalized ↔ (s.groups g).retired
  ordered : ∀ g t, (s.groups g).retired → (s.groups t).retired → t ∈ s.edges g →
    [g, t].Sublist s.finalized
  no_abort : ∀ key, s.close key ≠ none

/-- After a close that returned 0, what can be reached from the closed group and is still there is
needed. -/
def Event.Clean (e : Event) : Prop :=
  ∀ key h, e.op = .Close key → e.before.find key = some h → e.result = 0 →
    ∀ x, Reaches e.before.edges h.group x → (e.after.groups x).resident → Needed e.after x

/-- Among the dependencies of a group that can be reached, none leads to a later one that has
dependencies of its own. -/
def Untangled (edges : ℕ → List ℕ) (root : ℕ) : Prop :=
  ∀ p, Reaches edges root p → ∀ before x after, (edges p).eraseDups = before ++ x :: after →
    ∀ t ∈ after, Reaches edges x t → edges t = []

def Event.Untangled (e : Event) : Prop :=
  ∀ key h, e.op = .Close key → e.before.find key = some h →
    Unload.Untangled e.before.edges h.group

/-! ## The invariant -/

/-- What holds of retired groups and of handles, at any time. -/
structure Base (s : State) : Prop where
  known : ∀ g, (s.groups g).retired ∨ s.edges g ≠ [] → g ∈ s.published
  settled : ∀ g ∈ s.published, (s.groups g).resident ∨ (s.groups g).retired
  unpublished : ∀ g, (s.groups g).retired → ¬ (s.groups g).resident
  others : ∀ g, g ∉ s.edges g
  unneeded : ∀ g, (s.groups g).retired → (s.groups g).opens = 0 ∧
    (s.groups g).flags = (false, false)
  once : s.finalized.Nodup
  finalized : ∀ g, g ∈ s.finalized ↔ (s.groups g).retired
  ordered : ∀ g t, t ∈ s.edges g → (s.groups t).retired → [g, t].Sublist s.finalized
  keys : (s.handles.map Handle.key).Nodup
  key_lt : ∀ h ∈ s.handles, h.key < s.next
  one : (s.handles.map Handle.group).Nodup
  handles : ∀ h ∈ s.handles, (s.groups h.group).resident ∧ (s.groups h.group).opens = h.opens
  opens : ∀ g, (s.groups g).opens ≠ 0 → ∃ h ∈ s.handles, h.group = g

/-- The state inside an operation that has these leases. -/
structure Inv (s : State) (leases : List ℕ) : Prop extends Base s where
  alive : ∀ g, (s.groups g).resident → (s.groups g).alive
  leased : ∀ g, (s.groups g).alive → (s.groups g).resident ∨ g ∈ leases
  held : ∀ g ∈ leases, (s.groups g).alive
  published : ∀ g, (s.groups g).alive → g ∈ s.published
  closed : ∀ g t, (s.groups g).alive → t ∈ s.edges g → (s.groups t).resident
  counted : ∀ t, (s.groups t).incoming =
    ∑ g ∈ s.published with (s.groups g).alive, (s.edges g).count t

theorem inv_new : Inv State.new [] := by
  refine ⟨?_, ?_, ?_, ?_, ?_, ?_, ?_⟩
  · constructor <;> simp [new, edges]
  all_goals simp [new, edges]

/-- What a step inside a close leaves as it is. -/
structure Same (s s' : State) : Prop where
  edges : s'.edges = s.edges
  opens : ∀ g, (s'.groups g).opens = (s.groups g).opens
  flags : ∀ g, (s'.groups g).flags = (s.groups g).flags
  published : s'.published = s.published

section Inv

variable {s s' : State} {p q : List ℕ} {g t : ℕ}

/-- A group with a positive count has an edge from a group whose images exist. -/
theorem Inv.incoming_ne_zero (h : Inv s p) :
    (s.groups t).incoming ≠ 0 ↔ ∃ g, (s.groups g).alive ∧ t ∈ s.edges g := by
  rw [h.counted t, Ne, Finset.sum_eq_zero_iff]
  push Not
  constructor
  · rintro ⟨g, hg, hcount⟩
    exact ⟨g, (Finset.mem_filter.mp hg).2, List.count_pos_iff.mp (Nat.pos_of_ne_zero hcount)⟩
  · rintro ⟨g, halive, hedge⟩
    refine ⟨g, Finset.mem_filter.mpr ⟨h.published g halive, halive⟩, ?_⟩
    exact Nat.ne_of_gt (List.count_pos_iff.mpr hedge)

/-- The images of a retired group go. -/
theorem Inv.drop_images (h : Inv s (g :: q)) (hresident : ¬ (s.groups g).resident) (hg : g ∉ q) :
    ∃ s', s.drop_images g = some s' ∧ Inv s' q ∧ Same s s' ∧
      (∀ x, (s'.groups x).resident = (s.groups x).resident) ∧
      ∀ x, (s'.groups x).alive → (s.groups x).alive ∧ x ≠ g := by
  have hmem : g ∈ s.published.filter fun x => (s.groups x).alive :=
    Finset.mem_filter.mpr ⟨h.published g (h.held g List.mem_cons_self), h.held g List.mem_cons_self⟩
  -- the edges of the group are part of each count
  have hsplit : ∀ t, (s.groups t).incoming = (s.edges g).count t +
      ∑ x ∈ (s.published.filter fun x => (s.groups x).alive).erase g, (s.edges x).count t := by
    intro t
    rw [h.counted t, Finset.add_sum_erase _ (fun x => (s.edges x).count t) hmem]
  have hle : ∀ t ∈ (s.groups g).edges, (s.groups g).edges.count t ≤ (s.groups t).incoming := by
    intro t _
    rw [hsplit t]
    exact Nat.le_add_right _ _
  refine ⟨_, if_pos hle, ⟨{ h.toBase with }, fun x hx => ?_, fun x hx => ?_, fun x hx => ?_,
    fun x hx => ?_, fun x t hx => ?_, fun t => ?_⟩, ⟨rfl, fun _ => rfl, fun _ => rfl, rfl⟩,
    fun _ => rfl, fun x hx => ?_⟩
  · have hne : x ≠ g := fun heq => hresident (heq ▸ hx)
    simpa [hne] using h.alive x hx
  · obtain ⟨halive, hne⟩ : (s.groups x).alive = true ∧ x ≠ g := by simpa using hx
    exact (h.leased x halive).imp_right fun hx => (List.mem_cons.mp hx).resolve_left hne
  · have hne : x ≠ g := fun heq => hg (heq ▸ hx)
    simpa [hne] using h.held x (List.mem_cons_of_mem g hx)
  · exact h.published x (Bool.and_elim_left hx)
  · exact h.closed x t (Bool.and_elim_left hx)
  · have hfilter : (s.published.filter fun x => ((s.groups x).alive && x ≠ g) = true) =
        (s.published.filter fun x => (s.groups x).alive).erase g := by
      ext x
      simp [and_comm, and_left_comm]
    change (s.groups t).incoming - _ = ∑ x ∈ s.published.filter _, (s.edges x).count t
    rw [hfilter, hsplit t]
    exact Nat.add_sub_cancel_left _ _
  · simpa using hx

/-- A lease is dropped that is not the last. -/
theorem Inv.tail (h : Inv s (g :: q)) (hkeep : (s.groups g).resident ∨ g ∈ q) : Inv s q := by
  refine { h with leased := fun x hx => ?_, held := fun x hx => ?_ }
  · rcases h.leased x hx with hresident | hlease
    · exact .inl hresident
    · rcases List.mem_cons.mp hlease with rfl | hlease
      · exact hkeep
      · exact .inr hlease
  · exact h.held x (List.mem_cons_of_mem g hx)

theorem Same.refl (s : State) : Same s s := ⟨rfl, fun _ => rfl, fun _ => rfl, rfl⟩

/-- A lease is dropped. -/
theorem Inv.drop_lease (h : Inv s (g :: q)) (hp : g ∈ p ↔ g ∈ q) : ∃ s',
    s.drop_lease p g = some s' ∧ Inv s' q ∧ Same s s' ∧
      (∀ x, (s'.groups x).resident = (s.groups x).resident) ∧
      ∀ x, (s'.groups x).alive → (s.groups x).alive ∧ (x = g → (s.groups x).resident ∨ g ∈ p) := by
  unfold State.drop_lease
  split
  next hkeep =>
    refine ⟨s, rfl, h.tail (hkeep.imp_right hp.mp), Same.refl s, fun _ => rfl,
      fun x hx => ⟨hx, fun heq => ?_⟩⟩
    rwa [heq]
  next hgone =>
    push Not at hgone
    obtain ⟨s', hs', hinv, hsame, hresident, halive⟩ :=
      h.drop_images hgone.1 fun hg => hgone.2 (hp.mpr hg)
    exact ⟨s', hs', hinv, hsame, hresident, fun x hx =>
      ⟨(halive x hx).1, fun heq => absurd heq (halive x hx).2⟩⟩

/-- What the retirement of a group changes, where these leases are left. -/
structure Retires (s s' : State) (g : ℕ) (leases : List ℕ) : Prop extends Same s s' where
  resident : ∀ x, (s'.groups x).resident ↔ (s.groups x).resident ∧ x ≠ g
  alive : ∀ x, (s'.groups x).alive → (s.groups x).alive ∧ (x = g → g ∈ leases)

/-- The group that the registry has after a retirement, before the lease on it is dropped. -/
def detached (s : State) (g : ℕ) : State :=
  { s.detach g with handles := s.handles.filter fun h => h.group ≠ g }

theorem Inv.detached (h : Inv s (g :: p)) (hresident : (s.groups g).resident)
    (hflags : (s.groups g).flags = (false, false)) (hopens : (s.groups g).opens = 0)
    (hincoming : (s.groups g).incoming = 0) :
    Inv (detached s g) (g :: ((s.edges g).eraseDups ++ p)) := by
  have halive : (s.groups g).alive := h.alive g hresident
  have hretired : ¬ (s.groups g).retired := fun hretired => h.unpublished g hretired hresident
  -- nothing that exists has an edge to the group
  have hnone : ∀ x, (s.groups x).alive → g ∉ s.edges x := by
    intro x hx hedge
    exact h.incoming_ne_zero.mpr ⟨x, hx, hedge⟩ hincoming
  have hfinalized : g ∉ s.finalized := fun hmem => hretired ((h.finalized g).mp hmem)
  refine ⟨⟨fun x hx => ?_, fun x hx => ?_, fun x hx => ?_, h.others, fun x hx => ?_, ?_, fun x => ?_,
    fun x t ht hx => ?_, ?_, fun k hk => ?_, ?_, fun k hk => ?_, fun x hx => ?_⟩,
    fun x hx => ?_, fun x hx => ?_, fun x hx => ?_, h.published, fun x t hx ht => ?_, h.counted⟩
  · rcases hx with hx | hx
    · rcases (Bool.or_eq_true _ _).mp hx with hx | hx
      · exact h.known x (.inl hx)
      · rw [of_decide_eq_true hx]
        exact h.published g halive
    · exact h.known x (.inr hx)
  · by_cases hne : x = g
    · exact .inr (by simp [Unload.detached, detach, hne])
    · simpa [Unload.detached, detach, hne] using h.settled x hx
  · by_cases hne : x = g
    · simp [Unload.detached, detach, hne]
    · have hold : (s.groups x).retired = true := by
        simpa [Unload.detached, detach, hne] using hx
      simp [Unload.detached, detach, h.unpublished x hold]
  · by_cases hne : x = g
    · rw [hne]
      exact ⟨hopens, hflags⟩
    · exact h.unneeded x (by simpa [Unload.detached, detach, hne] using hx)
  · exact List.nodup_append.mpr ⟨h.once, List.nodup_singleton g, fun x hx y hy heq =>
      hfinalized (by rw [← List.mem_singleton.mp hy, ← heq]; exact hx)⟩
  · simp [Unload.detached, detach, h.finalized x]
  · by_cases hne : t = g
    · rw [hne] at ht ⊢
      have hx : (s.groups x).retired := by
        refine (h.settled x (h.known x (.inr (List.ne_nil_of_mem ht)))).resolve_left fun hx => ?_
        exact hnone x (h.alive x hx) ht
      exact (List.singleton_sublist.mpr ((h.finalized x).mpr hx)).append (List.Sublist.refl [g])
    · have hold : (s.groups t).retired = true := by
        simpa [Unload.detached, detach, hne] using hx
      exact (h.ordered x t ht hold).trans (List.sublist_append_left _ _)
  · exact h.keys.sublist (List.filter_sublist.map _)
  · exact h.key_lt k (List.mem_filter.mp hk).1
  · exact h.one.sublist (List.filter_sublist.map _)
  · obtain ⟨hk, hne⟩ := List.mem_filter.mp hk
    obtain ⟨hkresident, hkopens⟩ := h.handles k hk
    refine ⟨?_, hkopens⟩
    simpa [Unload.detached, detach, hkresident] using hne
  · obtain ⟨k, hk, hkgroup⟩ := h.opens x hx
    refine ⟨k, List.mem_filter.mpr ⟨hk, ?_⟩, hkgroup⟩
    refine decide_eq_true fun heq => hx ?_
    rwa [← hkgroup, heq]
  · exact h.alive x (Bool.and_elim_left hx)
  · by_cases hne : x = g
    · exact .inr (List.mem_cons.mpr (.inl hne))
    · refine (h.leased x hx).imp (fun hx => ?_) fun hx => ?_
      · simpa [Unload.detached, detach, hne] using hx
      · have hx : x ∈ p := (List.mem_cons.mp hx).resolve_left hne
        exact List.mem_cons_of_mem g (List.mem_append_right _ hx)
  · rcases List.mem_cons.mp hx with rfl | hx
    · exact halive
    · rcases List.mem_append.mp hx with hx | hx
      · exact h.alive x (h.closed g x halive (List.mem_eraseDups.mp hx))
      · exact h.held x (List.mem_cons_of_mem g hx)
  · have hne : t ≠ g := fun heq => hnone x hx (heq ▸ ht)
    simpa [Unload.detached, detach, hne] using h.closed x t hx ht

/-- `ReleaseNamespaceGroup` keeps the group for one of three reasons, or retires it. -/
theorem Inv.release_group (h : Inv s (g :: p)) (hresident : (s.groups g).resident) :
    (((s.groups g).flags ≠ (false, false) ∨ (s.groups g).opens ≠ 0 ∨ (s.groups g).incoming ≠ 0) ∧
      s.release_group p g = some (.Retained, s)) ∨
    ∃ s', s.release_group p g = some (.Retired (s.edges g).eraseDups, s') ∧
      Inv s' ((s.edges g).eraseDups ++ p) ∧ Retires s s' g p := by
  have hfound : ¬ (¬ (s.groups g).resident = true ∨ ∃ t ∈ (s.groups g).edges,
      ¬ (s.groups t).resident = true) := by
    rintro (hnot | ⟨t, ht, hnot⟩)
    · exact hnot hresident
    · exact hnot (h.closed g t (h.alive g hresident) ht)
  have hretired : ¬ (s.groups g).retired := fun hretired => h.unpublished g hretired hresident
  unfold State.release_group
  rw [if_neg hfound, if_neg hretired]
  split
  next hreason => exact .inl ⟨hreason, rfl⟩
  next hnone =>
    push Not at hnone
    obtain ⟨hflags, hopens, hincoming⟩ := hnone
    have hclosed : ¬ s.handles.any (fun k => k.group = g ∧ k.opens ≠ 0) = true := by
      intro hany
      obtain ⟨k, hk, hkey⟩ := List.any_eq_true.mp hany
      obtain ⟨hgroup, hne⟩ := of_decide_eq_true hkey
      rw [← (h.handles k hk).2, hgroup] at hne
      exact hne hopens
    rw [if_neg hclosed]
    have hself : g ∈ p ↔ g ∈ (s.edges g).eraseDups ++ p := by
      rw [List.mem_append, List.mem_eraseDups]
      exact ⟨.inr, fun hg => hg.resolve_left (h.others g)⟩
    obtain ⟨s', hs', hinv, hsame, hres, halive⟩ :=
      (h.detached hresident hflags hopens hincoming).drop_lease hself
    refine .inr ⟨s', Option.map_eq_some_iff.mpr ⟨s', hs', rfl⟩, hinv,
      { hsame with resident := fun x => ?_, alive := fun x hx => ?_ }⟩
    · rw [hres x]
      simp [Unload.detached, detach]
    · obtain ⟨hx, hlease⟩ := halive x hx
      refine ⟨hx, fun heq => (hlease heq).resolve_left ?_⟩
      simp [Unload.detached, detach, heq]

end Inv

/-! ## The worklist -/

section Sweep

variable {s s' : State} {p q : List ℕ} {g t : ℕ} {edges : ℕ → List ℕ} {root : ℕ}

/-- In the worklist `x` comes before `y` because `x`, or a group that leads to it, stands before `y`
among the dependencies of a group. -/
def Earlier (edges : ℕ → List ℕ) (root x y : ℕ) : Prop :=
  ∃ p, Reaches edges root p ∧ ∃ before x' after, (edges p).eraseDups = before ++ x' :: after ∧
    y ∈ after ∧ Reaches edges x' x

/-- A close of `root` in which nothing is forgotten: what can be reached, is resident and is not
needed is in the worklist. -/
structure Sweeps (edges : ℕ → List ℕ) (root : ℕ) (s : State) (pending : List ℕ) : Prop where
  same : s.edges = edges
  reached : ∀ x ∈ pending, Reaches edges root x
  stacked : pending.Pairwise (Earlier edges root)
  exact : ∀ g, (s.groups g).alive → (s.groups g).resident ∨ edges g = []
  swept : ∀ x, Reaches edges root x → (s.groups x).resident → ¬ Needed s x → x ∈ pending

section

variable (h : Sweeps edges root s (t :: p))
include h

/-- A group that is in the worklist twice has no dependencies. -/
theorem Sweeps.edges_eq_nil (huntangled : Untangled edges root) (ht : t ∈ p) : edges t = [] := by
  obtain ⟨q, hq, before, x, after, hsplit, hafter, hreaches⟩ :=
    List.rel_of_pairwise_cons h.stacked ht
  exact huntangled q hq before x after hsplit t hafter hreaches

/-- A lease is dropped that nothing came of. -/
theorem Sweeps.drop (hsame : Same s s')
    (hresident : ∀ x, (s'.groups x).resident = (s.groups x).resident)
    (halive : ∀ x, (s'.groups x).alive → (s.groups x).alive)
    (ht : (s.groups t).resident → Needed s t) : Sweeps edges root s' p := by
  have hneeded : ∀ x, Needed s x → Needed s' x := by
    rintro x (hx | hx | ⟨g, hg, hx⟩)
    · exact .inl (by rwa [hsame.opens])
    · exact .inr (.inl (by rwa [hsame.flags]))
    · refine .inr (.inr ⟨g, by rwa [hresident], ?_⟩)
      have := congrFun hsame.edges g
      unfold State.edges at this
      rwa [this]
  refine ⟨hsame.edges.trans h.same, fun x hx => h.reached x (List.mem_cons_of_mem t hx),
    List.Pairwise.of_cons h.stacked, fun g hg => ?_, fun x hreach hx hnot => ?_⟩
  · rw [hresident]
    exact h.exact g (halive g hg)
  · rw [hresident] at hx
    have hunneeded : ¬ Needed s x := fun hx => hnot (hneeded x hx)
    refine (List.mem_cons.mp (h.swept x hreach hx hunneeded)).resolve_left fun heq => ?_
    rw [heq] at hx hunneeded
    exact hunneeded (ht hx)

/-- A group is retired, and its dependencies come next. -/
theorem Sweeps.retire (huntangled : Untangled edges root)
    (hretires : Retires s s' t p) : Sweeps edges root s' ((edges t).eraseDups ++ p) := by
  have hreached : Reaches edges root t := h.reached t List.mem_cons_self
  have hedges : ∀ g, (s'.groups g).edges = edges g := fun g =>
    congrFun (hretires.edges.trans h.same) g
  refine ⟨hretires.edges.trans h.same, fun x hx => ?_, ?_, fun g hg => ?_,
    fun x hreach hx hnot => ?_⟩
  · rcases List.mem_append.mp hx with hx | hx
    · exact hreached.tail (List.mem_eraseDups.mp hx)
    · exact h.reached x (List.mem_cons_of_mem t hx)
  · refine List.pairwise_append.mpr ⟨?_, List.Pairwise.of_cons h.stacked, fun x hx y hy => ?_⟩
    · rw [List.pairwise_iff_forall_sublist]
      intro x y hsub
      obtain ⟨_, r₂, hr, hx, hy⟩ := List.cons_sublist_iff.mp hsub
      obtain ⟨u, v, rfl⟩ := List.append_of_mem hx
      refine ⟨t, hreached, u, x, v ++ r₂, ?_, ?_, Relation.ReflTransGen.refl⟩
      · rw [hr, List.append_assoc, List.cons_append]
      · exact List.mem_append_right v (List.singleton_sublist.mp hy)
    · obtain ⟨q, hq, before, x', after, hsplit, hafter, hreaches⟩ :=
        List.rel_of_pairwise_cons h.stacked hy
      exact ⟨q, hq, before, x', after, hsplit, hafter, hreaches.tail (List.mem_eraseDups.mp hx)⟩
  · obtain ⟨halive, hlease⟩ := hretires.alive g hg
    by_cases hgt : g = t
    · rw [hgt]
      exact .inr (h.edges_eq_nil huntangled (hlease hgt))
    · refine (h.exact g halive).imp_left fun hg => ?_
      exact (hretires.resident g).mpr ⟨hg, hgt⟩
  · obtain ⟨hold, hne⟩ := (hretires.resident x).mp hx
    by_cases hneeded : Needed s x
    · -- it was needed by the retired group only
      rcases hneeded with _ | _ | ⟨g, hg, hxg⟩
      · exact absurd (.inl (by rwa [hretires.opens])) hnot
      · exact absurd (.inr (.inl (by rwa [hretires.flags]))) hnot
      · have hedge : x ∈ edges g := by
          rwa [← h.same]
        by_cases hgt : g = t
        · rw [hgt] at hedge
          exact List.mem_append_left p (List.mem_eraseDups.mpr hedge)
        · refine absurd (.inr (.inr ⟨g, (hretires.resident g).mpr ⟨hg, hgt⟩, ?_⟩)) hnot
          rwa [hedges]
    · have hmem := (List.mem_cons.mp (h.swept x hreach hold hneeded)).resolve_left hne
      exact List.mem_append_right _ hmem

end

/-- A group that was retained is needed. -/
theorem Sweeps.needed (h : Sweeps edges root s q) (hinv : Inv s p)
    (hreason : (s.groups t).flags ≠ (false, false) ∨ (s.groups t).opens ≠ 0 ∨
      (s.groups t).incoming ≠ 0) : Needed s t := by
  rcases hreason with hflags | hopens | hincoming
  · exact .inr (.inl hflags)
  · exact .inl hopens
  · obtain ⟨g, halive, hedge⟩ := hinv.incoming_ne_zero.mp hincoming
    refine .inr (.inr ⟨g, (h.exact g halive).resolve_right fun hnil => ?_, hedge⟩)
    rw [h.same, hnil] at hedge
    contradiction

/-- How many iterations are left at most. -/
def State.work (s : State) (pending : List ℕ) : ℕ :=
  pending.length + ∑ g ∈ s.published with (s.groups g).resident, (s.edges g).length

theorem length_eraseDups_le (l : List ℕ) : l.eraseDups.length ≤ l.length :=
  ((BreadthFirst.nodup_eraseDups l).subperm fun _ => List.mem_eraseDups.mp).length_le

theorem Retires.work_lt (h : Retires s s' t q) (hmem : t ∈ s.published)
    (hresident : (s.groups t).resident) :
    s'.work ((s.edges t).eraseDups ++ p) < s.work (t :: p) := by
  have hfilter : (s.published.filter fun g => (s'.groups g).resident) =
      (s.published.filter fun g => (s.groups g).resident).erase t := by
    ext x
    simp only [Finset.mem_filter, Finset.mem_erase, h.resident x]
    tauto
  have hsplit := Finset.add_sum_erase (s.published.filter fun g => (s.groups g).resident)
    (fun g => (s.edges g).length) (Finset.mem_filter.mpr ⟨hmem, hresident⟩)
  have hle := length_eraseDups_le (s.edges t)
  unfold work
  rw [h.published, h.edges, hfilter, List.length_append, List.length_cons]
  omega

/-- The loop ends, without an abort, with no lease left; and nothing is forgotten. -/
theorem Inv.cascade {n : ℕ} {retired : List ℕ} (h : Inv s p)
    (hpending : ∀ x ∈ p, (s.groups x).resident ∨ x ∈ retired)
    (hretired : ∀ x ∈ retired, ¬ (s.groups x).resident) (hfuel : s.work p < n) :
    ∃ s', s.cascade n p retired = some s' ∧ Inv s' [] ∧ ∀ edges root, Untangled edges root →
      Sweeps edges root s p → Sweeps edges root s' [] := by
  induction n generalizing s p retired with
  | zero => exact absurd hfuel (Nat.not_lt_zero _)
  | succ n ih =>
    cases p with
    | nil => exact ⟨s, rfl, h, fun _ _ _ hsweeps => hsweeps⟩
    | cons t p =>
      have hless : s.work p < n := by
        unfold work at hfuel ⊢
        rw [List.length_cons] at hfuel
        omega
      have hrest : ∀ x ∈ p, (s.groups x).resident ∨ x ∈ retired :=
        fun x hx => hpending x (List.mem_cons_of_mem t hx)
      unfold cascade
      split
      next ht =>
        obtain ⟨s₁, hs₁, hinv, hsame, hresident, halive⟩ := h.drop_lease (p := p) Iff.rfl
        have hwork : s₁.work p = s.work p := by
          unfold work
          rw [hsame.published, hsame.edges]
          simp only [hresident]
        obtain ⟨s', hs', hinv', hsweeps⟩ := ih hinv (by simpa only [hresident] using hrest)
          (by simpa only [hresident] using hretired) (by rwa [hwork])
        refine ⟨s', by rw [hs₁]; exact hs', hinv', fun edges root huntangled hsweep => ?_⟩
        exact hsweeps edges root huntangled (hsweep.drop hsame hresident (fun x hx => (halive x hx).1)
          fun hres => absurd hres (hretired t ht))
      next ht =>
        have hresident := (hpending t List.mem_cons_self).resolve_right ht
        rcases h.release_group hresident with ⟨hreason, hs₁⟩ | ⟨s₁, hs₁, hinv, hretires⟩
        · rw [hs₁]
          obtain ⟨s', hs', hinv', hsweeps⟩ := ih (h.tail (.inl hresident)) hrest hretired hless
          refine ⟨s', hs', hinv', fun edges root huntangled hsweep => ?_⟩
          exact hsweeps edges root huntangled (hsweep.drop (Same.refl s) (fun _ => rfl)
            (fun _ hx => hx) fun _ => hsweep.needed h hreason)
        · rw [hs₁]
          have hpending' : ∀ x ∈ (s.edges t).eraseDups ++ p,
              (s₁.groups x).resident ∨ x ∈ t :: retired := by
            intro x hx
            by_cases hxt : x = t
            · exact .inr (List.mem_cons.mpr (.inl hxt))
            · refine Or.imp (fun hx => (hretires.resident x).mpr ⟨hx, hxt⟩)
                (List.mem_cons_of_mem t) ?_
              rcases List.mem_append.mp hx with hx | hx
              · exact .inl (h.closed t x (h.alive t hresident) (List.mem_eraseDups.mp hx))
              · exact hrest x hx
          have hretired' : ∀ x ∈ t :: retired, ¬ (s₁.groups x).resident := by
            intro x hx hres
            obtain ⟨hres, hne⟩ := (hretires.resident x).mp hres
            exact hretired x ((List.mem_cons.mp hx).resolve_left hne) hres
          have hwork := hretires.work_lt (p := p) (h.published t (h.alive t hresident)) hresident
          obtain ⟨s', hs', hinv', hsweeps⟩ := ih hinv hpending' hretired' (by omega)
          refine ⟨s', hs', hinv', fun edges root huntangled hsweep => ?_⟩
          refine hsweeps edges root huntangled ?_
          rw [congrFun hsweep.same t]
          exact hsweep.retire huntangled hretires

end Sweep

/-! ## Closing -/

section Close

variable {s s' : State} {key : ℕ} {k : Handle}

theorem find_spec (hfind : s.find key = some k) : k ∈ s.handles ∧ k.opens ≠ 0 := by
  unfold find at hfind
  have hkey := List.find?_some hfind
  exact ⟨List.mem_of_find?_eq_some hfind, (of_decide_eq_true hkey).2⟩

/-- An open is used up, and the group is held by the lease of the close. -/
theorem Inv.consume_open (h : Inv s []) (hfind : s.find key = some k) : ∃ s',
    s.consume_open k = some s' ∧ Inv s' [k.group] ∧ s'.edges = s.edges ∧
      (s'.groups k.group).resident := by
  obtain ⟨hmem, hopens⟩ := find_spec hfind
  obtain ⟨hresident, heq⟩ := h.handles k hmem
  have hsub : checked_sub (s.groups k.group).opens 1 = some (k.opens - 1) := by
    rw [checked_sub_eq_some, heq]
    omega
  have hmap : ∀ k' ∈ s.handles.map fun k' =>
      if k'.key = k.key then { k' with opens := k'.opens - 1 } else k', ∃ k'' ∈ s.handles,
      k'.key = k''.key ∧ k'.group = k''.group ∧
        k'.opens = if k''.key = k.key then k''.opens - 1 else k''.opens := by
    intro k' hk'
    obtain ⟨k'', hk'', rfl⟩ := List.mem_map.mp hk'
    refine ⟨k'', hk'', ?_⟩
    split <;> exact ⟨rfl, rfl, rfl⟩
  have hkeys : ∀ f : Handle → ℕ, (∀ k' opens, f { k' with opens := opens } = f k') →
      (s.handles.map fun k' => if k'.key = k.key then { k' with opens := k'.opens - 1 } else k').map
        f = s.handles.map f := by
    intro f hf
    rw [List.map_map]
    refine List.map_congr_left fun k' _ => ?_
    rw [Function.comp_apply, apply_ite f, hf, ite_self]
  refine ⟨_, Option.map_eq_some_iff.mpr ⟨_, hsub, rfl⟩, ?_, rfl, hresident⟩
  refine
    { h with
      unneeded := fun g hg => ?_
      keys := ?_
      key_lt := fun k' hk' => ?_
      one := ?_
      handles := fun k' hk' => ?_
      opens := fun g hg => ?_
      leased := fun g hg => ?_
      held := fun g hg => ?_ }
  · refine ⟨?_, (h.unneeded g hg).2⟩
    have hne : g ≠ k.group := fun heq => h.unpublished g hg (heq ▸ hresident)
    exact (if_neg hne).trans (h.unneeded g hg).1
  · rw [hkeys Handle.key fun _ _ => rfl]
    exact h.keys
  · obtain ⟨k'', hk'', hkey, -⟩ := hmap k' hk'
    rw [hkey]
    exact h.key_lt k'' hk''
  · rw [hkeys Handle.group fun _ _ => rfl]
    exact h.one
  · obtain ⟨k'', hk'', -, hgroup, hopens'⟩ := hmap k' hk'
    rw [hgroup, hopens']
    refine ⟨(h.handles k'' hk'').1, ?_⟩
    change (if k''.group = k.group then k.opens - 1 else _) = _
    by_cases hsame : k'' = k
    · rw [hsame, if_pos rfl, if_pos rfl]
    · have hkey : k''.key ≠ k.key := fun heq => hsame (List.inj_on_of_nodup_map h.keys hk'' hmem heq)
      have hgroup : k''.group ≠ k.group := fun heq =>
        hsame (List.inj_on_of_nodup_map h.one hk'' hmem heq)
      rw [if_neg hkey, if_neg hgroup]
      exact (h.handles k'' hk'').2
  · have hg : (s.groups g).opens ≠ 0 := by
      change (if g = k.group then k.opens - 1 else _) ≠ 0 at hg
      split at hg
      next hgroup =>
        rwa [hgroup, heq]
      next => exact hg
    obtain ⟨k', hk', hgroup⟩ := h.opens g hg
    refine ⟨_, List.mem_map.mpr ⟨k', hk', rfl⟩, ?_⟩
    split <;> exact hgroup
  · exact .inl ((h.leased g hg).resolve_right List.not_mem_nil)
  · rw [List.mem_singleton.mp hg]
    exact h.alive k.group hresident

/-- At the start of a close, only the closed group can be reached and not be needed. -/
theorem Inv.sweeps {g : ℕ} (h : Inv s [g]) (hresident : (s.groups g).resident) :
    Sweeps s.edges g s [g] := by
  have hexact : ∀ x, (s.groups x).alive → (s.groups x).resident := by
    intro x hx
    rcases h.leased x hx with hx | hx
    · exact hx
    · rwa [List.mem_singleton.mp hx]
  have hall : ∀ x, Reaches s.edges g x → (s.groups x).resident := by
    intro x hx
    induction hx with
    | refl => exact hresident
    | tail _ hedge ih => exact h.closed _ _ (h.alive _ ih) hedge
  refine ⟨rfl, fun x hx => ?_, List.pairwise_singleton _ _, fun x hx => .inl (hexact x hx),
    fun x hx _ hnot => ?_⟩
  · rw [List.mem_singleton.mp hx]
    exact Relation.ReflTransGen.refl
  · rcases Relation.ReflTransGen.cases_tail hx with heq | ⟨y, hy, hedge⟩
    · exact List.mem_singleton.mpr heq
    · exact absurd (.inr (.inr ⟨y, hall y hy, hedge⟩)) hnot

/-- A close does not abort; it finds no open and changes nothing, or it returns 0. -/
theorem Inv.close (h : Inv s []) (key : ℕ) : ∃ r s', s.close key = some (r, s') ∧ Inv s' [] ∧
    ∀ k, s.find key = some k → Untangled s.edges k.group →
      ∀ x, Reaches s.edges k.group x → (s'.groups x).resident → Needed s' x := by
  unfold State.close
  cases hfind : s.find key with
  | none => exact ⟨-1, s, rfl, h, nofun⟩
  | some k =>
    obtain ⟨s₁, hs₁, hinv₁, hedges, hresident⟩ := h.consume_open hfind
    have hsweeps := hinv₁.sweeps hresident
    rw [hedges] at hsweeps
    -- what is left of the worklist at the end is empty
    have hclean : ∀ s', (∀ edges root, Untangled edges root → Sweeps edges root s₁ [k.group] →
        Sweeps edges root s' []) → ∀ k', some k = some k' → Untangled s.edges k'.group →
          ∀ x, Reaches s.edges k'.group x → (s'.groups x).resident → Needed s' x := by
      intro s' hsweep k' hk' huntangled x hx hxresident
      rw [← Option.some.inj hk'] at huntangled hx
      by_contra hnot
      exact List.not_mem_nil ((hsweep _ _ huntangled hsweeps).swept x hx hxresident hnot)
    simp only [hs₁, Option.bind_eq_bind, Option.bind_some]
    rcases hinv₁.release_group hresident with ⟨hreason, hs₂⟩ | ⟨s₂, hs₂, hinv₂, hretires⟩
    · rw [hs₂]
      refine ⟨0, s₁, rfl, hinv₁.tail (.inl hresident), hclean s₁ fun edges root _ hsweep => ?_⟩
      exact hsweep.drop (Same.refl s₁) (fun _ => rfl) (fun _ hx => hx) fun _ =>
        hsweep.needed hinv₁ hreason
    · rw [hs₂]
      rw [List.append_nil] at hinv₂
      have hpending : ∀ x ∈ (s₁.edges k.group).eraseDups, (s₂.groups x).resident ∨ x ∈ [] := by
        intro x hx
        have hedge := List.mem_eraseDups.mp hx
        have hne : x ≠ k.group := fun heq => hinv₁.others x (heq ▸ hedge)
        exact .inl ((hretires.resident x).mpr
          ⟨hinv₁.closed _ x (hinv₁.alive _ hresident) hedge, hne⟩)
      have hfuel : s₂.work (s₁.edges k.group).eraseDups < s₂.fuel := by
        have hwork := hretires.work_lt (p := [])
          (hinv₁.published _ (hinv₁.alive _ hresident)) hresident
        rw [List.append_nil] at hwork
        have hle : ∑ g ∈ s₁.published with (s₁.groups g).resident, (s₁.edges g).length ≤
            ∑ g ∈ s₁.published, (s₁.edges g).length :=
          Finset.sum_le_sum_of_subset (Finset.filter_subset _ _)
        have heq : s₂.fuel = (∑ g ∈ s₁.published, (s₁.edges g).length) + 1 := by
          rw [← hretires.published, ← hretires.edges]
          rfl
        unfold work at hwork
        unfold work
        rw [List.length_singleton] at hwork
        omega
      obtain ⟨s', hs', hinv', hsweep'⟩ := hinv₂.cascade hpending nofun hfuel
      refine ⟨0, s', by simp [hs'], hinv', hclean s' fun edges root huntangled hsweep => ?_⟩
      refine hsweep' edges root huntangled ?_
      have hretire := hsweep.retire huntangled hretires
      rwa [List.append_nil, ← congrFun hsweep.same k.group] at hretire

end Close

/-! ## Opening -/

section Open

variable {s s' : State} {l : Library} {id : ℕ}

/-- Each edge between two groups is counted at its target, and belongs to its source. -/
theorem sum_outgoing (edges : List (ℕ × ℕ)) (sources : Finset ℕ) (t : ℕ)
    (h : ∀ e ∈ edges, e.1 ∈ sources) :
    ∑ id ∈ sources, ((edges.filter fun e => e.1 = id ∧ e.2 ≠ id).map Prod.snd).count t =
      edges.countP fun e => e.2 = t ∧ e.1 ≠ t := by
  induction edges with
  | nil => simp
  | cons e edges ih =>
    have hterm : ∀ id, (((e :: edges).filter fun e => e.1 = id ∧ e.2 ≠ id).map Prod.snd).count t =
        (if id = e.1 then if e.2 = t ∧ e.1 ≠ t then 1 else 0 else 0) +
          ((edges.filter fun e => e.1 = id ∧ e.2 ≠ id).map Prod.snd).count t := by
      intro id
      rcases eq_or_ne e.1 id with rfl | hid
      · by_cases hself : e.2 = e.1
        · have hno : ¬ (e.2 = t ∧ e.1 ≠ t) := fun ⟨ht, hne⟩ => hne (hself ▸ ht)
          rw [if_pos rfl, if_neg hno, List.filter_cons_of_neg (by simp [hself]), Nat.zero_add]
        · rw [if_pos rfl, List.filter_cons_of_pos (by simp [hself]), List.map_cons, List.count_cons]
          by_cases ht : e.2 = t
          · have hne : e.1 ≠ t := fun heq => hself (ht.trans heq.symm)
            simp [ht, hne, Nat.add_comm]
          · simp [ht]
      · rw [if_neg (Ne.symm hid), List.filter_cons_of_neg (by simp [hid]), Nat.zero_add]
    rw [Finset.sum_congr rfl fun id _ => hterm id, Finset.sum_add_distrib,
      Finset.sum_ite_eq' sources e.1, if_pos (h e List.mem_cons_self),
      ih fun e he => h e (List.mem_cons_of_mem _ he), List.countP_cons]
    simp [Nat.add_comm]

/-- A group that was never published. -/
theorem Inv.fresh (h : Inv s []) (hresident : ¬ (s.groups id).resident)
    (hretired : ¬ (s.groups id).retired) : id ∉ s.published ∧ ¬ (s.groups id).alive ∧
      (s.groups id).incoming = 0 ∧ (s.groups id).opens = 0 := by
  have hnot : id ∉ s.published := fun hmem => (h.settled id hmem).elim hresident hretired
  refine ⟨hnot, fun halive => hnot (h.published id halive), ?_, ?_⟩
  · by_contra hincoming
    obtain ⟨g, halive, hedge⟩ := h.incoming_ne_zero.mp hincoming
    exact hresident (h.closed g id halive hedge)
  · by_contra hopens
    obtain ⟨k, hk, rfl⟩ := h.opens id hopens
    exact hresident (h.handles k hk).1

theorem publish_cases (s : State) (l : Library) (id : ℕ) :
    (id ∈ State.ids l ∧ ∃ flags, s.publish l id =
      ⟨State.outgoing l id, 0, State.counted l id, flags, true, true, false⟩) ∨
    (id ∉ State.ids l ∧ s.publish l id =
      { s.groups id with incoming := (s.groups id).incoming + counted l id }) := by
  unfold publish ids
  split
  next found hfind =>
    refine .inl ⟨?_, _, rfl⟩
    have hkey := List.find?_some hfind
    exact List.mem_map.mpr ⟨_, List.mem_of_find?_eq_some hfind, of_decide_eq_true hkey⟩
  next hfind =>
    refine .inr ⟨fun hmem => ?_, rfl⟩
    obtain ⟨g, hg, heq⟩ := List.mem_map.mp hmem
    exact absurd heq (by simpa using List.find?_eq_none.mp hfind g hg)

/-- What an open makes of the groups. -/
structure Opened (s s' : State) (l : Library) : Prop where
  edges : ∀ id, s'.edges id = if id ∈ State.ids l then State.outgoing l id else s.edges id
  resident : ∀ id, (s'.groups id).resident ↔ id ∈ State.ids l ∨ (s.groups id).resident
  alive : ∀ id, (s'.groups id).alive ↔ id ∈ State.ids l ∨ (s.groups id).alive
  retired : ∀ id, (s'.groups id).retired = (s.groups id).retired
  incoming : ∀ id, (s'.groups id).incoming = (s.groups id).incoming + State.counted l id
  opens : ∀ id, (s'.groups id).opens = (s.groups id).opens + if id = l.root then 1 else 0
  flags : ∀ id, id ∉ State.ids l → id ≠ l.root → (s'.groups id).flags = (s.groups id).flags

theorem Inv.opened (h : Inv s []) (hfresh : ∀ id ∈ State.ids l, id ≠ 0 ∧
      ¬ (s.groups id).resident ∧ ¬ (s.groups id).retired)
    (hgroups : s'.groups = fun id =>
      let group := s.publish l id
      if id = l.root then
        { group with opens := group.opens + 1, flags := (group.flags.1, group.flags.2 || l.nodelete) }
      else group) : Opened s s' l := by
  have hcases : ∀ id, (id ∈ ids l ∧ ¬ (s.groups id).retired = true ∧
      (s.groups id).incoming = 0 ∧ (s.groups id).opens = 0 ∧ ∃ flags, s.publish l id =
        ⟨State.outgoing l id, 0, State.counted l id, flags, true, true, false⟩) ∨
      (id ∉ ids l ∧ s.publish l id =
        { s.groups id with incoming := (s.groups id).incoming + State.counted l id }) := by
    intro id
    refine (publish_cases s l id).imp_left fun ⟨hid, hpublish⟩ => ?_
    obtain ⟨-, -, hincoming, hopens⟩ := h.fresh (hfresh id hid).2.1 (hfresh id hid).2.2
    exact ⟨hid, (hfresh id hid).2.2, hincoming, hopens, hpublish⟩
  refine ⟨fun id => ?_, fun id => ?_, fun id => ?_, fun id => ?_, fun id => ?_, fun id => ?_,
    fun id _ _ => ?_⟩
  all_goals
    try unfold edges
    rw [hgroups]
    dsimp only
    rcases hcases id with ⟨hid, _, hincoming, hopens, flags, hpublish⟩ | ⟨hid, hpublish⟩
    all_goals
      rw [hpublish]
      split <;> simp_all

/-- The handles after one more open of a group. -/
theorem adopt_spec (h : Inv s []) (root : ℕ) : ∃ next,
    (if s.handles.any fun k => k.group = root then s.next else s.next + 2) = next ∧
    ((State.adopt s.handles s.next root).map Handle.key).Nodup ∧
    (∀ k ∈ State.adopt s.handles s.next root, k.key < next) ∧
    ((State.adopt s.handles s.next root).map Handle.group).Nodup ∧
    (∀ k ∈ State.adopt s.handles s.next root, (k.group = root ∨ ∃ k' ∈ s.handles, k'.group = k.group) ∧
      k.opens = (s.groups k.group).opens + if k.group = root then 1 else 0) ∧
    ∀ g, g = root ∨ (∃ k ∈ s.handles, k.group = g) →
      ∃ k ∈ State.adopt s.handles s.next root, k.group = g := by
  unfold adopt
  split
  next hany =>
    have hmap : ∀ f : Handle → ℕ, (∀ k opens, f { k with opens := opens } = f k) →
        (s.handles.map fun k => if k.group = root then { k with opens := k.opens + 1 } else k).map
          f = s.handles.map f := by
      intro f hf
      rw [List.map_map]
      refine List.map_congr_left fun k _ => ?_
      rw [Function.comp_apply, apply_ite f, hf, ite_self]
    have hmem : ∀ k ∈ s.handles.map fun k =>
        if k.group = root then { k with opens := k.opens + 1 } else k, ∃ k' ∈ s.handles,
        k.key = k'.key ∧ k.group = k'.group ∧
          k.opens = k'.opens + if k'.group = root then 1 else 0 := by
      intro k hk
      obtain ⟨k', hk', rfl⟩ := List.mem_map.mp hk
      refine ⟨k', hk', ?_⟩
      split <;> exact ⟨rfl, rfl, rfl⟩
    refine ⟨s.next, rfl, ?_, fun k hk => ?_, ?_, fun k hk => ?_, fun g hg => ?_⟩
    · rw [hmap Handle.key fun _ _ => rfl]
      exact h.keys
    · obtain ⟨k', hk', hkey, -⟩ := hmem k hk
      rw [hkey]
      exact h.key_lt k' hk'
    · rw [hmap Handle.group fun _ _ => rfl]
      exact h.one
    · obtain ⟨k', hk', -, hgroup, hopens⟩ := hmem k hk
      rw [hgroup, hopens, (h.handles k' hk').2]
      exact ⟨.inr ⟨k', hk', rfl⟩, rfl⟩
    · have hg : ∃ k ∈ s.handles, k.group = g := by
        rcases hg with rfl | hg
        · obtain ⟨k, hk, hgroup⟩ := List.any_eq_true.mp hany
          exact ⟨k, hk, of_decide_eq_true hgroup⟩
        · exact hg
      obtain ⟨k, hk, hgroup⟩ := hg
      refine ⟨_, List.mem_map.mpr ⟨k, hk, rfl⟩, ?_⟩
      split <;> exact hgroup
  next hany =>
    have hnone : ∀ k ∈ s.handles, k.group ≠ root := by
      intro k hk heq
      exact hany (List.any_eq_true.mpr ⟨k, hk, decide_eq_true heq⟩)
    have hopens : (s.groups root).opens = 0 := by
      by_contra hopens
      obtain ⟨k, hk, heq⟩ := h.opens root hopens
      exact hnone k hk heq
    refine ⟨s.next + 2, rfl, ?_, fun k hk => ?_, ?_, fun k hk => ?_, fun g hg => ?_⟩
    · rw [List.map_append]
      refine List.nodup_append.mpr ⟨h.keys, List.nodup_singleton _, fun x hx y hy heq => ?_⟩
      obtain ⟨k, hk, rfl⟩ := List.mem_map.mp hx
      rw [List.mem_singleton.mp hy] at heq
      exact absurd heq (Nat.ne_of_lt (h.key_lt k hk))
    · rcases mem_snoc hk with hk | hk
      · exact Nat.lt_add_right 2 (h.key_lt k hk)
      · rw [hk]
        exact Nat.lt_add_of_pos_right (by decide)
    · rw [List.map_append]
      refine List.nodup_append.mpr ⟨h.one, List.nodup_singleton _, fun x hx y hy heq => ?_⟩
      obtain ⟨k, hk, rfl⟩ := List.mem_map.mp hx
      rw [List.mem_singleton.mp hy] at heq
      exact hnone k hk heq
    · rcases mem_snoc hk with hk | hk
      · rw [if_neg (hnone k hk), (h.handles k hk).2]
        exact ⟨.inr ⟨k, hk, rfl⟩, rfl⟩
      · rw [hk, hopens, if_pos rfl]
        exact ⟨.inl rfl, rfl⟩
    · rcases hg with rfl | ⟨k, hk, hgroup⟩
      · exact ⟨_, List.mem_append_right _ (List.mem_singleton.mpr rfl), rfl⟩
      · exact ⟨k, List.mem_append_left _ hk, hgroup⟩

theorem Inv.open_library (h : Inv s []) (hopen : s.open_library l = some s') : Inv s' [] := by
  unfold State.open_library at hopen
  split at hopen
  case isFalse => contradiction
  case isTrue hpublishable =>
    obtain ⟨_, hfresh, hedges, hroot, -, -⟩ := of_decide_eq_true hpublishable
    obtain ⟨next, hnext, hkeys, hlt, hone, hhandles, hcovers⟩ := adopt_spec h l.root
    injection hopen with hopen
    have hpub : s'.published = s.published ∪ (ids l).toFinset := by rw [← hopen]
    have hadopt : s'.handles = adopt s.handles s.next l.root := by rw [← hopen]
    have hnext' : s'.next = next := by rw [← hopen]; exact hnext
    have hfinal : s'.finalized = s.finalized := by rw [← hopen]
    have ho : Opened s s' l := h.opened hfresh (by rw [← hopen])
    have hout : ∀ g t, t ∈ outgoing l g → t ≠ g ∧ (t ∈ ids l ∨ (s.groups t).resident) := by
      intro g t ht
      obtain ⟨e, he, rfl⟩ := List.mem_map.mp ht
      obtain ⟨he, hne⟩ := List.mem_filter.mp he
      exact ⟨(of_decide_eq_true hne).2, (hedges e he).2.1⟩
    have hedge : ∀ g t, t ∈ s'.edges g →
        (g ∈ ids l ∧ t ∈ outgoing l g) ∨ (g ∉ ids l ∧ t ∈ s.edges g) := by
      intro g t ht
      rw [ho.edges] at ht
      split at ht
      next hg => exact .inl ⟨hg, ht⟩
      next hg => exact .inr ⟨hg, ht⟩
    -- what is new or resident is not retired
    have hunretired : ∀ x, x ∈ ids l ∨ (s.groups x).resident → ¬ (s.groups x).retired := by
      rintro x (hx | hx)
      · exact (hfresh x hx).2.2
      · exact fun hretired => h.unpublished x hretired hx
    have hdisjoint : Disjoint s.published (ids l).toFinset := by
      refine Finset.disjoint_left.mpr fun x hx hid => ?_
      obtain ⟨-, hresident, hretired⟩ := hfresh x (List.mem_toFinset.mp hid)
      exact (h.settled x hx).elim hresident hretired
    refine ⟨⟨fun g hg => ?_, fun g hg => ?_, fun g hg => ?_, fun g hg => ?_, fun g hg => ?_, ?_,
      fun g => ?_, fun g t ht hg => ?_, ?_, fun k hk => ?_, ?_, fun k hk => ?_, fun g hg => ?_⟩,
      fun g hg => ?_, fun g hg => ?_, nofun, fun g hg => ?_, fun g t hg ht => ?_, fun t => ?_⟩
    · rw [hpub, Finset.mem_union, List.mem_toFinset]
      by_cases hid : g ∈ ids l
      · exact .inr hid
      · rw [ho.retired, ho.edges, if_neg hid] at hg
        exact .inl (h.known g hg)
    · rw [hpub, Finset.mem_union, List.mem_toFinset] at hg
      rw [ho.resident, ho.retired]
      rcases hg with hg | hg
      · exact (h.settled g hg).imp_left .inr
      · exact .inl (.inl hg)
    · rw [ho.retired] at hg
      rw [ho.resident]
      exact fun hresident => hunretired g hresident hg
    · rcases hedge g g hg with ⟨-, hg⟩ | ⟨-, hg⟩
      · exact (hout g g hg).1 rfl
      · exact h.others g hg
    · rw [ho.retired] at hg
      have hid : g ∉ ids l := fun hid => hunretired g (.inl hid) hg
      have hne : g ≠ l.root := fun heq => hunretired l.root hroot (heq ▸ hg)
      rw [ho.opens, ho.flags g hid hne, if_neg hne]
      exact h.unneeded g hg
    · rw [hfinal]
      exact h.once
    · rw [hfinal, ho.retired]
      exact h.finalized g
    · rw [hfinal]
      rw [ho.retired] at hg
      rcases hedge g t ht with ⟨-, ht⟩ | ⟨-, ht⟩
      · exact absurd hg (hunretired t (hout g t ht).2)
      · exact h.ordered g t ht hg
    · rwa [hadopt]
    · rw [hadopt] at hk
      rw [hnext']
      exact hlt k hk
    · rwa [hadopt]
    · rw [hadopt] at hk
      obtain ⟨hgroup, hopens⟩ := hhandles k hk
      rw [ho.resident, ho.opens, hopens]
      refine ⟨?_, rfl⟩
      rcases hgroup with hgroup | ⟨k', hk', hgroup⟩
      · rwa [hgroup]
      · rw [← hgroup]
        exact .inr (h.handles k' hk').1
    · rw [hadopt]
      rw [ho.opens] at hg
      refine hcovers g ?_
      by_cases hroot : g = l.root
      · exact .inl hroot
      · rw [if_neg hroot] at hg
        exact .inr (h.opens g hg)
    · rw [ho.alive]
      exact ((ho.resident g).mp hg).imp_right (h.alive g)
    · rw [ho.resident]
      refine .inl (((ho.alive g).mp hg).imp_right fun hg => ?_)
      exact (h.leased g hg).resolve_right List.not_mem_nil
    · rw [hpub, Finset.mem_union, List.mem_toFinset]
      exact (((ho.alive g).mp hg).imp_right (h.published g)).symm
    · rw [ho.resident]
      rcases hedge g t ht with ⟨-, ht⟩ | ⟨hid, ht⟩
      · exact (hout g t ht).2
      · exact .inr (h.closed g t (((ho.alive g).mp hg).resolve_left hid) ht)
    · have hold : ∑ g ∈ s.published with (s'.groups g).alive, (s'.edges g).count t =
          ∑ g ∈ s.published with (s.groups g).alive, (s.edges g).count t := by
        rw [Finset.sum_filter, Finset.sum_filter]
        refine Finset.sum_congr rfl fun g hg => ?_
        have hid : g ∉ ids l :=
          fun hid => Finset.disjoint_left.mp hdisjoint hg (List.mem_toFinset.mpr hid)
        simp [ho.edges, ho.alive, hid]
      have hnew : ∑ g ∈ (ids l).toFinset with (s'.groups g).alive, (s'.edges g).count t =
          State.counted l t := by
        rw [Finset.filter_true_of_mem fun g hg => (ho.alive g).mpr (.inl (List.mem_toFinset.mp hg))]
        refine (Finset.sum_congr rfl fun g hg => ?_).trans (sum_outgoing l.edges
          (ids l).toFinset t fun e he => List.mem_toFinset.mpr (hedges e he).1)
        rw [ho.edges, if_pos (List.mem_toFinset.mp hg)]
        rfl
      rw [hpub, Finset.filter_union, Finset.sum_union (hdisjoint.mono (Finset.filter_subset _ _)
        (Finset.filter_subset _ _)), hold, hnew, ho.incoming, h.counted t]

end Open

/-! ## Runs -/

theorem Inv.sound {s : State} (h : Inv s []) : Sound s where
  counted t := by
    have hiff : ∀ g, (s.groups g).alive = (s.groups g).resident := fun g =>
      Bool.eq_iff_iff.mpr ⟨fun hg => (h.leased g hg).resolve_right List.not_mem_nil, h.alive g⟩
    rw [h.counted t]
    simp only [hiff]
  kept g hneeded hretired := by
    obtain ⟨hopens, hflags⟩ := h.unneeded g hretired
    rcases hneeded with hneeded | hneeded | ⟨x, hx, hedge⟩
    · exact hneeded hopens
    · exact hneeded hflags
    · exact h.unpublished g hretired (h.closed x g (h.alive x hx) hedge)
  once := h.once
  finalized := h.finalized
  ordered g t _ ht hedge := h.ordered g t hedge ht
  no_abort key := by
    obtain ⟨r, _, hclose, -⟩ := h.close key
    rw [hclose]
    exact nofun

theorem Inv.step {s s' : State} {e : Event} (h : Inv s []) (hstep : Step s e s') :
    Inv s' [] ∧ (e.Untangled → e.Clean) := by
  obtain ⟨_, op, _, _⟩ := e
  obtain ⟨hbefore, hafter, hperform⟩ := hstep
  subst hbefore hafter
  cases op with
  | Open =>
    obtain ⟨s', hopen, heq⟩ := Option.map_eq_some_iff.mp hperform
    cases heq
    exact ⟨h.open_library hopen, fun _ key k hop => nomatch hop⟩
  | Close key =>
    obtain ⟨r, s', hclose, hinv, hclean⟩ := h.close key
    injection hclose.symm.trans hperform with heq
    injection heq with _ hs'
    subst hs'
    refine ⟨hinv, fun huntangled _ k hop hfind _ => ?_⟩
    cases hop
    exact hclean k hfind (huntangled key k rfl hfind)

theorem run_inv {es : List Event} {s : State} (hrun : Run Step State.new es s) :
    Inv s [] ∧ ∀ e ∈ es, e.Untangled → e.Clean :=
  Run.each (Inv · []) inv_new (fun _ _ _ h hstep => h.step hstep) hrun

/-- **Closing libraries.** In every state between operations the counts are those of the edges from
resident groups, what is needed is not retired, each retired group was finalized once and before
what it depends on, and no close aborts; and a close leaves nothing that is not needed, if the
dependencies are not tangled. -/
theorem sound_and_clean_if_untangled {es : List Event} {s : State}
    (hrun : Run Step State.new es s) : Sound s ∧ ∀ e ∈ es, e.Untangled → e.Clean := by
  obtain ⟨hinv, hclean⟩ := run_inv hrun
  exact ⟨hinv.sound, hclean⟩

/-! ## A library that is opened and closed -/

/-- The event of an operation. -/
def State.event (s : State) (op : Op) : Event :=
  let (result, after) := (s.perform op).getD (-1, s)
  ⟨s, op, result, after⟩

theorem step_event {s : State} {op : Op} (h : (s.perform op).isSome) :
    Step s (s.event op) (s.event op).after := by
  obtain ⟨⟨_, _⟩, hperform⟩ := Option.isSome_iff_exists.mp h
  simp [Step, event, hperform]

def opening (l : Library) : Event := State.new.event (.Open l)

/-- The first handle is the one of the first library. -/
def closing (l : Library) : Event := (opening l).after.event (.Close 1)

theorem run_open_close {l : Library} (hopen : (State.new.perform (.Open l)).isSome)
    (hclose : ((opening l).after.perform (.Close 1)).isSome) :
    Run Step State.new [opening l, closing l] (closing l).after :=
  Run.append (Run.single (step_event hopen)) (Run.single (step_event hclose))

/-- Group 1 depends on 2, and 2 on 3. -/
def chain : Library where
  groups := [(1, false, false), (2, false, false), (3, false, false)]
  edges := [(1, 2), (2, 3)]
  root := 1
  nodelete := false

theorem closed_chain_is_sound_and_clean : (closing chain).result = 0 ∧
    (closing chain).after.finalized = [1, 2, 3] ∧ (closing chain).Untangled ∧
    Sound (closing chain).after ∧ ∀ e ∈ [opening chain, closing chain], e.Untangled → e.Clean := by
  have hopen : (new.perform (.Open chain)).isSome := by decide +kernel
  have hinv : Inv (closing chain).before [] := (run_inv (Run.single (step_event hopen))).1
  have hlength : ∀ p ∈ (closing chain).before.published,
      ((closing chain).before.edges p).eraseDups.length ≤ 1 := by decide +kernel
  refine ⟨by decide +kernel, by decide +kernel, fun _ h _ _ p _ _ x _ hsplit t ht _ => ?_,
    sound_and_clean_if_untangled (run_open_close hopen (by decide +kernel))⟩
  -- there is no group with two dependencies
  have hp : p ∈ (closing chain).before.published := by
    refine hinv.known p (.inr fun hnil => ?_)
    rw [hnil] at hsplit
    exact absurd hsplit (by simp)
  have hafter := List.length_pos_of_mem ht
  have hle := hlength p hp
  rw [hsplit, List.length_append, List.length_cons] at hle
  omega

/-- **What is open is complete**: all that a library with a handle depends on, directly or not, is
resident and not finalized. -/
theorem dependencies_stay {es : List Event} {s : State} (hrun : Run Step State.new es s) {h : Handle}
    (hh : h ∈ s.handles) {x : ℕ} (hx : Reaches s.edges h.group x) :
    (s.groups x).resident ∧ x ∉ s.finalized := by
  obtain ⟨hinv, -⟩ := run_inv hrun
  have hresident : (s.groups x).resident := by
    induction hx with
    | refl => exact (hinv.handles h hh).1
    | tail _ hedge ih => exact hinv.closed _ _ (hinv.alive _ ih) hedge
  exact ⟨hresident, fun hmem => hinv.unpublished x ((hinv.finalized x).mp hmem) hresident⟩

theorem open_chain_is_complete :
    ((opening chain).after.groups 3).resident ∧ 3 ∉ (opening chain).after.finalized := by
  have hreaches : Reaches (opening chain).after.edges 1 3 :=
    (Relation.ReflTransGen.single (b := 2) (by decide +kernel)).tail (by decide +kernel)
  exact dependencies_stay (h := ⟨1, 1, 1⟩) (Run.single (step_event (by decide +kernel)))
    (by decide +kernel) hreaches

/-- Group 1 depends on 2 and 3, and 2 on 3, and 3 on 4. -/
def diamond : Library where
  groups := [(1, false, false), (2, false, false), (3, false, false), (4, false, false)]
  edges := [(1, 2), (1, 3), (2, 3), (3, 4)]
  root := 1
  nodelete := false

/-- Group 4 stays when the library is closed: group 3 is retired while there is another lease on it
in the worklist, so there still is an edge to group 4 when that is looked at, and nobody looks at it
again. -/
theorem shared_dependency_keeps_its_own :
    Run Step State.new [opening diamond, closing diamond] (closing diamond).after ∧
      (closing diamond).result = 0 ∧ (closing diamond).after.finalized = [1, 2, 3] ∧
      ((closing diamond).after.groups 4).resident ∧ ¬ Needed (closing diamond).after 4 ∧
      ¬ (closing diamond).Clean := by
  have hrun : Run Step new [opening diamond, closing diamond] (closing diamond).after :=
    run_open_close (by decide +kernel) (by decide +kernel)
  obtain ⟨hinv, -⟩ := run_inv hrun
  have hunneeded : ¬ Needed (closing diamond).after 4 := by
    rintro (hopens | hflags | ⟨g, hg, hedge⟩)
    · exact hopens (by decide +kernel)
    · exact hflags (by decide +kernel)
    · exact hinv.incoming_ne_zero.mpr ⟨g, hinv.alive g hg, hedge⟩ (by decide +kernel)
  refine ⟨hrun, by decide +kernel, by decide +kernel, by decide +kernel, hunneeded, fun hclean => ?_⟩
  have hreaches : Reaches (closing diamond).before.edges 1 4 :=
    (Relation.ReflTransGen.single (b := 3) (by decide +kernel)).tail (by decide +kernel)
  exact hunneeded (hclean 1 ⟨1, 1, 1⟩ (by decide +kernel) (by decide +kernel) (by decide +kernel) 4
    hreaches (by decide +kernel))

end DarwinArt.Linker.Unload
