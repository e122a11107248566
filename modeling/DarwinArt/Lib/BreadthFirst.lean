/-
Breadth-first walks of a graph that is given by an ordered list of successors.

`walk` is the queue algorithm as programs write it: take the first node off the queue, skip it if it
has been seen or is not allowed, otherwise visit it and put its successors at the end. `order` is
what a breadth-first order is: the start, then its successors that are new, then theirs, level by
level, each level in the order in which the one before it lists its nodes. The two are connected by
`walk_spec`: on a graph with finitely many nodes the walk ends, and visits the nodes in that order.

The proof goes through one observation. When the queue holds a stretch of nodes, the walk takes that
stretch off, visits what is new in it (`accept`), and leaves the successors of those behind, however
long the rest of the queue is (`walk_append`). A level is such a stretch.
-/
import DarwinArt.Lib.ListEdit
import Mathlib

set_option autoImplicit false

namespace DarwinArt.Lib.BreadthFirst

variable {α σ : Type*} [DecidableEq α] {before last : List α} {x : α} {n : ℕ} {nodes : Finset α}
  {start : α}

/-! ## The walk and the order -/

/-- The queue algorithm. `none` if it has not come to its end after `fuel` rounds. -/
def walk (next : α → List α) (ok : α → Bool) (visit : σ → α → σ) :
    ℕ → Finset α → List α → σ → Option σ
  | 0, _, _, _ => none
  | _ + 1, _, [], s => some s
  | fuel + 1, visited, x :: pending, s =>
    if x ∈ visited ∨ ok x = false then walk next ok visit fuel (insert x visited) pending s
    else walk next ok visit fuel (insert x visited) (pending ++ next x) (visit s x)

section

variable (next : α → List α) (ok : α → Bool)

/-- What comes after the level `last`, when `order` lists everything so far. -/
def grow (order last : List α) : List α :=
  ((last.flatMap next).filter fun x => ok x && decide (x ∉ order)).eraseDups

/-- Everything up to level `n`, and level `n`. -/
def levels (next : α → List α) (ok : α → Bool) (start : α) : ℕ → List α × List α
  | 0 => ([start].filter ok, [start].filter ok)
  | n + 1 =>
    let (order, last) := levels next ok start n
    (order ++ grow next ok order last, grow next ok order last)

/-- The nodes up to level `n`, in order. -/
def order (start : α) (n : ℕ) : List α :=
  (levels next ok start n).1

/-- The nodes of level `n`, in order. -/
def level (start : α) (n : ℕ) : List α :=
  (levels next ok start n).2

/-- The nodes before level `n`, in order. -/
def earlier (start : α) : ℕ → List α
  | 0 => []
  | n + 1 => order next ok start n

/-- The breadth-first order: all levels, once no more come. -/
def IsOrder (start : α) (l : List α) : Prop :=
  ∃ n, ∀ m, n ≤ m → order next ok start m = l

/-- `y` is reached from `x` through allowed nodes. -/
def Reaches : α → α → Prop :=
  Relation.ReflTransGen fun x y => y ∈ next x ∧ ok y = true

end

theorem nodup_eraseDups (l : List α) : l.eraseDups.Nodup := by
  -- the list gets shorter, but not by its tail
  induction hn : l.length using Nat.strong_induction_on generalizing l with
  | _ _ ih =>
    cases l with
    | nil => exact List.nodup_nil
    | cons x l =>
      rw [List.eraseDups_cons, List.nodup_cons]
      constructor
      · simp [List.mem_eraseDups]
      · refine ih _ ?_ _ rfl
        have hle := List.length_filter_le (fun y => !y == x) l
        rw [List.length_cons] at hn
        omega

section Order

variable {next : α → List α} {ok : α → Bool}

theorem order_succ (n : ℕ) :
    order next ok start (n + 1) = order next ok start n ++ level next ok start (n + 1) := rfl

theorem level_succ (n : ℕ) :
    level next ok start (n + 1) = grow next ok (order next ok start n) (level next ok start n) := rfl

theorem order_eq (n : ℕ) :
    order next ok start n = earlier next ok start n ++ level next ok start n := by
  cases n with
  | zero => rfl
  | succ n => exact order_succ n

theorem mem_grow :
    x ∈ grow next ok before last ↔ (∃ y ∈ last, x ∈ next y) ∧ ok x = true ∧ x ∉ before := by
  simp [grow, List.mem_eraseDups, List.mem_filter, List.mem_flatMap]

theorem order_prefix_of_le {n m : ℕ} (h : n ≤ m) :
    order next ok start n <+: order next ok start m := by
  induction m, h using Nat.le_induction with
  | base => exact List.prefix_rfl
  | succ _ _ ih =>
    rw [order_succ]
    exact ih.trans (List.prefix_append _ _)

theorem level_subset_order (n : ℕ) : level next ok start n ⊆ order next ok start n := by
  rw [order_eq]
  exact List.subset_append_right _ _

/-- Everything in the order stands in a level. -/
theorem mem_order :
    x ∈ order next ok start n ↔ ∃ m, m ≤ n ∧ x ∈ level next ok start m := by
  constructor
  · intro hx
    induction n with
    | zero => exact ⟨0, le_rfl, hx⟩
    | succ n ih =>
      rw [order_succ, List.mem_append] at hx
      rcases hx with hx | hx
      · obtain ⟨m, hm, hx⟩ := ih hx
        exact ⟨m, by omega, hx⟩
      · exact ⟨n + 1, le_rfl, hx⟩
  · rintro ⟨m, hm, hx⟩
    exact (order_prefix_of_le hm).subset (level_subset_order m hx)

theorem nodup_order (n : ℕ) : (order next ok start n).Nodup := by
  induction n with
  | zero => exact (List.nodup_singleton start).filter _
  | succ _ ih =>
    rw [order_succ, List.nodup_append']
    refine ⟨ih, nodup_eraseDups _, ?_⟩
    intro x hx hnew
    exact (mem_grow.mp hnew).2.2 hx

theorem ok_of_mem_order (hx : x ∈ order next ok start n) : ok x = true := by
  obtain ⟨m, -, hx⟩ := mem_order.mp hx
  cases m with
  | zero => exact (List.mem_filter.mp hx).2
  | succ => exact (mem_grow.mp hx).2.1

theorem reaches_of_mem_level {m : ℕ} (hx : x ∈ level next ok start m) :
    Reaches next ok start x := by
  induction m generalizing x with
  | zero =>
    obtain rfl := List.mem_singleton.mp (List.mem_filter.mp hx).1
    exact .refl
  | succ _ ih =>
    obtain ⟨⟨y, hy, hxy⟩, hok, -⟩ := mem_grow.mp hx
    exact Relation.ReflTransGen.tail (ih hy) ⟨hxy, hok⟩

theorem reaches_of_mem_order (hx : x ∈ order next ok start n) :
    Reaches next ok start x := by
  obtain ⟨m, -, hx⟩ := mem_order.mp hx
  exact reaches_of_mem_level hx

/-- Successors come at the latest in the next level. -/
theorem next_mem_order {x y : α} (hx : x ∈ order next ok start n) (hy : y ∈ next x)
    (hok : ok y = true) : y ∈ order next ok start (n + 1) := by
  obtain ⟨m, hm, hx⟩ := mem_order.mp hx
  by_cases hin : y ∈ order next ok start m
  · exact (order_prefix_of_le (show m ≤ n + 1 by omega)).subset hin
  · apply (order_prefix_of_le (show m + 1 ≤ n + 1 by omega)).subset
    rw [order_succ, List.mem_append]
    exact .inr (mem_grow.mpr ⟨⟨x, hx, hy⟩, hok, hin⟩)

/-- Once a level is empty, no more come. -/
theorem order_of_level_nil (h : level next ok start (n + 1) = []) (m : ℕ) (hm : n ≤ m) :
    order next ok start m = order next ok start n ∧ level next ok start (m + 1) = [] := by
  induction m, hm using Nat.le_induction with
  | base => exact ⟨rfl, h⟩
  | succ _ _ ih =>
    constructor
    · rw [order_succ, ih.2, List.append_nil, ih.1]
    · rw [level_succ, ih.2]
      rfl

theorem isOrder_of_level_nil (h : level next ok start (n + 1) = []) :
    IsOrder next ok start (order next ok start n) :=
  ⟨n, fun m hm => (order_of_level_nil h m hm).1⟩

end Order

namespace IsOrder

variable {next : α → List α} {ok : α → Bool} {l : List α}

theorem nodup (h : IsOrder next ok start l) : l.Nodup := by
  obtain ⟨n, hn⟩ := h
  rw [← hn n le_rfl]
  exact nodup_order n

/-- The order lists what is reached from the start, if the start is allowed. -/
theorem mem_iff (h : IsOrder next ok start l) (hstart : ok start = true) :
    x ∈ l ↔ Reaches next ok start x := by
  obtain ⟨n, hn⟩ := h
  constructor
  · intro hx
    rw [← hn n le_rfl] at hx
    exact reaches_of_mem_order hx
  · intro hx
    induction hx with
    | refl =>
      rw [← hn n le_rfl]
      exact (order_prefix_of_le (Nat.zero_le n)).subset (by simp [order, levels, hstart])
    | tail _ hstep ih =>
      rw [← hn n le_rfl] at ih
      rw [← hn (n + 1) (by omega)]
      exact next_mem_order ih hstep.1 hstep.2

theorem ok_of_mem (h : IsOrder next ok start l) (hx : x ∈ l) : ok x = true := by
  obtain ⟨n, hn⟩ := h
  rw [← hn n le_rfl] at hx
  exact ok_of_mem_order hx

theorem unique {l' : List α} (h : IsOrder next ok start l) (h' : IsOrder next ok start l') :
    l = l' := by
  obtain ⟨n, hn⟩ := h
  obtain ⟨n', hn'⟩ := h'
  rw [← hn (max n n') (le_max_left _ _), hn' (max n n') (le_max_right _ _)]

end IsOrder

/-! ## The walk, a stretch at a time -/

/-- What the walk visits of a stretch of the queue. -/
def accept (ok : α → Bool) : Finset α → List α → List α
  | _, [] => []
  | visited, x :: l =>
    if x ∈ visited ∨ ok x = false then accept ok (insert x visited) l
    else x :: accept ok (insert x visited) l

theorem accept_eq (ok : α → Bool) (visited : Finset α) (l : List α) :
    accept ok visited l = (l.filter fun x => ok x && decide (x ∉ visited)).eraseDups := by
  induction l generalizing visited with
  | nil => rfl
  | cons x _ ih =>
    rw [accept, ih]
    by_cases hskip : x ∈ visited ∨ ok x = false
    · have hx : (ok x && decide (x ∉ visited)) = false := by
        rcases hskip with h | h <;> simp [h]
      rw [if_pos hskip, List.filter_cons, hx]
      -- marking a node that is skipped hides nothing else
      congr 1
      apply List.filter_congr
      intro y _
      rcases eq_or_ne y x with rfl | hy
      · rcases hskip with h | h <;> simp [h]
      · simp [hy]
    · have hx : (ok x && decide (x ∉ visited)) = true := by
        simpa [not_or, and_comm] using hskip
      rw [if_neg hskip, List.filter_cons, hx, if_pos rfl, List.eraseDups_cons, List.filter_filter]
      congr 2
      apply List.filter_congr
      intro y _
      by_cases hy : y = x <;> simp [hy]

section Walk

variable (next : α → List α) (ok : α → Bool) (visit : σ → α → σ)

/-- **A stretch of the queue** is taken off whole: what is new in it is visited, and the successors
of that are left at the end of the queue. -/
theorem walk_append (l rest : List α) (fuel : ℕ) (visited : Finset α) (s : σ) :
    walk next ok visit (l.length + fuel) visited (l ++ rest) s =
      walk next ok visit fuel (visited ∪ l.toFinset)
        (rest ++ (accept ok visited l).flatMap next) ((accept ok visited l).foldl visit s) := by
  induction l generalizing rest visited s with
  | nil => simp [accept]
  | cons x l ih =>
    have hset : visited ∪ (x :: l).toFinset = insert x visited ∪ l.toFinset := by
      ext y
      simp only [List.toFinset_cons, Finset.mem_union, Finset.mem_insert]
      tauto
    rw [show (x :: l).length + fuel = (l.length + fuel) + 1 by simp; omega, List.cons_append, walk,
      accept, hset]
    by_cases hskip : x ∈ visited ∨ ok x = false
    · rw [if_pos hskip, if_pos hskip, ih]
    · rw [if_neg hskip, if_neg hskip, List.append_assoc, ih]
      simp

/-- What has been marked, of the allowed nodes, is the order so far. -/
def Marked (visited : Finset α) (before : List α) : Prop :=
  ∀ x, ok x = true → (x ∈ visited ↔ x ∈ before)

theorem accept_of_marked {visited : Finset α} (h : Marked ok visited before) :
    accept ok visited (last.flatMap next) = grow next ok before last := by
  rw [accept_eq, grow]
  congr 1
  apply List.filter_congr
  intro x _
  by_cases hok : ok x = true
  · simp [hok, h x hok]
  · simp [hok]

/-- **The walk goes level by level.** When the successors of everything before level `n` have been
taken off, the queue holds the successors of level `n` and nothing else. -/
theorem walk_levels (start : α) (s : σ) (n : ℕ) :
    ∃ visited, Marked ok visited (order next ok start n) ∧ ∀ fuel,
      walk next ok visit (1 + ((earlier next ok start n).flatMap next).length + fuel) ∅ [start] s =
        walk next ok visit fuel visited ((level next ok start n).flatMap next)
          ((order next ok start n).foldl visit s) := by
  induction n with
  | zero =>
    refine ⟨{start}, ?_, ?_⟩
    · intro x hok
      simp only [Finset.mem_singleton, order, levels, List.mem_filter, List.mem_singleton]
      tauto
    · intro fuel
      have haccept : accept ok ∅ [start] = [start].filter ok := by
        by_cases hok : ok start = true <;> simp [accept, hok]
      have hfirst := walk_append next ok visit [start] [] fuel ∅ s
      rw [haccept] at hfirst
      simpa [order, level, levels, earlier] using hfirst
  | succ n ih =>
    obtain ⟨visited, hmarked, hwalk⟩ := ih
    refine ⟨visited ∪ ((level next ok start n).flatMap next).toFinset, ?_, ?_⟩
    · intro x hok
      rw [order_succ, level_succ, Finset.mem_union, List.mem_append, List.mem_toFinset,
        hmarked x hok, mem_grow, List.mem_flatMap]
      tauto
    · intro fuel
      -- level `n` is the stretch that is taken off in these rounds
      have hrounds : 1 + ((earlier next ok start (n + 1)).flatMap next).length + fuel =
          1 + ((earlier next ok start n).flatMap next).length +
            (((level next ok start n).flatMap next).length + fuel) := by
        rw [show earlier next ok start (n + 1) = order next ok start n from rfl, order_eq,
          List.flatMap_append, List.length_append]
        omega
      have hstretch := walk_append next ok visit ((level next ok start n).flatMap next) [] fuel
        visited ((order next ok start n).foldl visit s)
      rw [List.append_nil, List.nil_append, accept_of_marked next ok hmarked] at hstretch
      rw [hrounds, hwalk, hstretch, order_succ, level_succ, List.foldl_append]

variable {next ok}

/-- A list without repetitions inside a finite set has at most the set's successors. -/
theorem length_flatMap_le {l : List α} (hnodup : l.Nodup) (hsub : ∀ x ∈ l, x ∈ nodes) :
    (l.flatMap next).length ≤ ∑ x ∈ nodes, (next x).length := by
  rw [List.length_flatMap, ← List.sum_toFinset _ hnodup]
  refine Finset.sum_le_sum_of_subset fun x hx => ?_
  exact hsub x (List.mem_toFinset.mp hx)

/-- In a finite graph some level is empty. -/
theorem exists_level_nil (hsub : ∀ n, ∀ x ∈ order next ok start n, x ∈ nodes) :
    ∃ n, level next ok start (n + 1) = [] := by
  by_contra hnone
  push Not at hnone
  -- otherwise each level makes the order longer
  have hlong : ∀ n, n ≤ (order next ok start n).length := by
    intro n
    induction n with
    | zero => exact Nat.zero_le _
    | succ n =>
      have hpos := List.length_pos_of_ne_nil (hnone n)
      rw [order_succ, List.length_append]
      omega
  have hcard : (order next ok start (nodes.card + 1)).length ≤ nodes.card := by
    rw [← List.toFinset_card_of_nodup (nodup_order _)]
    refine Finset.card_le_card fun x hx => ?_
    exact hsub _ x (List.mem_toFinset.mp hx)
  have := hlong (nodes.card + 1)
  omega

omit [DecidableEq α] in
theorem mem_of_reaches (hstart : start ∈ nodes)
    (hclosed : ∀ x ∈ nodes, ∀ y ∈ next x, y ∈ nodes) (h : Reaches next ok start x) :
    x ∈ nodes := by
  induction h with
  | refl => exact hstart
  | tail _ hstep ih => exact hclosed _ ih _ hstep.1

/-- **The walk is the order.** On a finite graph, with a round for each edge and two more, the walk
comes to its end, having visited the nodes in breadth-first order. -/
theorem walk_spec (nodes : Finset α) (hstart : start ∈ nodes)
    (hclosed : ∀ x ∈ nodes, ∀ y ∈ next x, y ∈ nodes) {fuel : ℕ}
    (hfuel : (∑ x ∈ nodes, (next x).length) + 2 ≤ fuel) (s : σ) :
    ∃ l, IsOrder next ok start l ∧
      walk next ok visit fuel ∅ [start] s = some (l.foldl visit s) := by
  have hsub : ∀ n, ∀ x ∈ order next ok start n, x ∈ nodes := fun n x hx =>
    mem_of_reaches hstart hclosed (reaches_of_mem_order hx)
  obtain ⟨n, hnil⟩ := exists_level_nil hsub
  refine ⟨order next ok start n, isOrder_of_level_nil hnil, ?_⟩
  obtain ⟨visited, -, hwalk⟩ := walk_levels next ok visit start s (n + 1)
  have hcost : ((order next ok start n).flatMap next).length ≤ ∑ x ∈ nodes, (next x).length :=
    length_flatMap_le (nodup_order n) (hsub n)
  have hearlier : earlier next ok start (n + 1) = order next ok start n := rfl
  obtain ⟨spare, hspare⟩ : ∃ spare,
      fuel = 1 + ((earlier next ok start (n + 1)).flatMap next).length + (spare + 1) := by
    rw [hearlier]
    exact ⟨fuel - ((order next ok start n).flatMap next).length - 2, by omega⟩
  rw [hspare, hwalk, hnil, order_succ, hnil, List.append_nil]
  rfl

end Walk

end DarwinArt.Lib.BreadthFirst
