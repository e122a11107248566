/-
Edits of a list, seen through a filter.

A queue whose entries belong to different owners is described owner by owner: the entries
of one owner are a filter of the queue. An edit at one place then changes the filters of
at most two owners, and these lemmas say how: an entry that stays with its owner, one that
leaves it, one that comes to it, one that is none of its business.
-/
import Mathlib.Data.List.Nodup
import Mathlib.Data.List.Perm.Basic

set_option autoImplicit false

namespace DarwinArt.Lib.ListEdit

variable {α : Type*} [DecidableEq α] {p : α → Bool} {a b : α}

/-! ## Replacing the first occurrence -/

theorem replace_cons_ne {x : α} (hx : x ≠ a) (l : List α) :
    (x :: l).replace a b = x :: l.replace a b := by
  have hbeq : (a == x) = false := by simpa using Ne.symm hx
  rw [List.replace_cons, hbeq]

/-- Neither entry passes the filter: nothing changes. -/
theorem filter_replace_outside (ha : p a = false) (hb : p b = false) (l : List α) :
    (l.replace a b).filter p = l.filter p := by
  induction l with
  | nil => rfl
  | cons x _ ih =>
    by_cases hx : x = a
    · rw [hx, List.replace_cons_self, List.filter_cons_of_neg (by simp [hb]),
        List.filter_cons_of_neg (by simp [ha])]
    · rw [replace_cons_ne hx, List.filter_cons, List.filter_cons, ih]

/-- Both entries pass the filter: the edit commutes with it. -/
theorem filter_replace_inside (ha : p a = true) (hb : p b = true) (l : List α) :
    (l.replace a b).filter p = (l.filter p).replace a b := by
  induction l with
  | nil => rfl
  | cons x _ ih =>
    by_cases hx : x = a
    · rw [hx, List.replace_cons_self, List.filter_cons_of_pos hb, List.filter_cons_of_pos ha,
        List.replace_cons_self]
    · rw [replace_cons_ne hx, List.filter_cons, List.filter_cons, ih]
      split
      · rw [replace_cons_ne hx]
      · rfl

/-- The old entry passes and the new one does not: the filter loses the old one. -/
theorem filter_replace_leave (ha : p a = true) (hb : p b = false) (l : List α) :
    (l.replace a b).filter p = (l.filter p).erase a := by
  induction l with
  | nil => rfl
  | cons x _ ih =>
    by_cases hx : x = a
    · rw [hx, List.replace_cons_self, List.filter_cons_of_neg (by simp [hb]),
        List.filter_cons_of_pos ha, List.erase_cons_head]
    · rw [replace_cons_ne hx, List.filter_cons, List.filter_cons, ih]
      split
      · rw [List.erase_cons_tail (by simpa using hx)]
      · rfl

/-- The new entry passes and nothing did before: it is all the filter has. -/
theorem filter_replace_enter (hb : p b = true) {l : List α} (hl : l.filter p = [])
    (hmem : a ∈ l) : (l.replace a b).filter p = [b] := by
  induction l with
  | nil => exact absurd hmem List.not_mem_nil
  | cons x _ ih =>
    have hx : p x = false := by simpa using List.filter_eq_nil_iff.mp hl x List.mem_cons_self
    rw [List.filter_cons_of_neg (by simp [hx])] at hl
    by_cases hxa : x = a
    · rw [hxa, List.replace_cons_self, List.filter_cons_of_pos hb, hl]
    · rw [replace_cons_ne hxa, List.filter_cons_of_neg (by simp [hx])]
      exact ih hl ((List.mem_cons.mp hmem).resolve_left (Ne.symm hxa))

/-- An edit of something else than the last entry happens before it. -/
theorem replace_append_ne {x : α} (hx : x ≠ a) (l : List α) :
    (l ++ [x]).replace a b = l.replace a b ++ [x] := by
  rw [List.replace_append]
  split
  · rfl
  next hmem =>
    rw [replace_cons_ne hx, List.replace_of_not_mem hmem]
    rfl

theorem erase_append_ne {x : α} (hx : x ≠ a) (l : List α) :
    (l ++ [x]).erase a = l.erase a ++ [x] := by
  rw [List.erase_append]
  split
  · rfl
  next hmem => rw [List.erase_of_not_mem hmem, List.erase_of_not_mem (by simpa using Ne.symm hx)]

/-! ## Replacing every occurrence -/

/-- Every `a` becomes `b`. -/
def replaceAll (a b : α) (l : List α) : List α := l.map (fun x => if x = a then b else x)

theorem filter_replaceAll_outside (ha : p a = false) (hb : p b = false) (l : List α) :
    (replaceAll a b l).filter p = l.filter p := by
  induction l with
  | nil => rfl
  | cons x _ ih =>
    simp only [replaceAll, List.map_cons] at ih ⊢
    by_cases hx : x = a
    · rw [if_pos hx, hx, List.filter_cons_of_neg (by simp [hb]),
        List.filter_cons_of_neg (by simp [ha]), ih]
    · rw [if_neg hx, List.filter_cons, List.filter_cons, ih]

theorem filter_replaceAll_leave (ha : p a = true) (hb : p b = false) (l : List α) :
    (replaceAll a b l).filter p = (l.filter p).filter (fun x => x ≠ a) := by
  induction l with
  | nil => rfl
  | cons x _ ih =>
    simp only [replaceAll, List.map_cons] at ih ⊢
    by_cases hx : x = a
    · rw [if_pos hx, hx, List.filter_cons_of_neg (by simp [hb]), List.filter_cons_of_pos ha,
        List.filter_cons_of_neg (by simp), ih]
    · rw [if_neg hx, List.filter_cons, List.filter_cons, ih]
      split
      · rw [List.filter_cons_of_pos (by simpa using hx)]
      · rfl

theorem filter_replaceAll_enter (hb : p b = true) {l : List α} (hl : l.filter p = []) :
    (replaceAll a b l).filter p = List.replicate (l.count a) b := by
  induction l with
  | nil => rfl
  | cons x _ ih =>
    have hx : p x = false := by simpa using List.filter_eq_nil_iff.mp hl x List.mem_cons_self
    rw [List.filter_cons_of_neg (by simp [hx])] at hl
    specialize ih hl
    simp only [replaceAll, List.map_cons] at ih ⊢
    by_cases hxa : x = a
    · rw [if_pos hxa, List.filter_cons_of_pos hb, ih, hxa, List.count_cons_self,
        List.replicate_succ]
    · rw [if_neg hxa, List.filter_cons_of_neg (by simp [hx]), ih, List.count_cons_of_ne hxa]

/-! ## Taking the first match out -/

omit [DecidableEq α] in
/-- The first entry that `q` accepts, with what stands before and after it; `eraseP`
takes exactly that one out. -/
theorem find_eraseP {q : α → Bool} {l : List α} {w : α} (h : l.find? q = some w) :
    ∃ before after, l = before ++ w :: after ∧ (∀ x ∈ before, q x = false) ∧ q w = true ∧
      l.eraseP q = before ++ after := by
  obtain ⟨hw, before, after, rfl, hbefore⟩ := List.find?_eq_some_iff_append.mp h
  have hnone : ∀ x ∈ before, q x = false := fun x hx => by simpa using hbefore x hx
  refine ⟨before, after, rfl, hnone, hw, ?_⟩
  rw [List.eraseP_append_right _ (fun x hx => by simp [hnone x hx]), List.eraseP_cons_of_pos hw]

/-- The first entry that `q` accepts is changed by `f`. -/
def modifyFirst (q : α → Bool) (f : α → α) : List α → List α
  | [] => []
  | x :: l => if q x then f x :: l else x :: modifyFirst q f l

omit [DecidableEq α] in
theorem modifyFirst_split {q : α → Bool} (f : α → α) {before after : List α} {w : α}
    (hbefore : ∀ x ∈ before, q x = false) (hw : q w = true) :
    modifyFirst q f (before ++ w :: after) = before ++ f w :: after := by
  induction before with
  | nil =>
    rw [List.nil_append, modifyFirst, if_pos hw]
    rfl
  | cons x _ ih =>
    have hx : q x = false := hbefore x List.mem_cons_self
    rw [List.cons_append, modifyFirst, if_neg (by simp [hx]),
      ih fun y hy => hbefore y (List.mem_cons_of_mem x hy)]
    rfl

omit [DecidableEq α] in
/-- Where an entry can stand in a list of one. -/
theorem around_of_singleton {before after : List α} {w x : α}
    (h : before ++ w :: after = [x]) : before = [] ∧ w = x ∧ after = [] := by
  cases before with
  | nil => simpa using h
  | cons => simp at h

omit [DecidableEq α] in
/-- Where an entry can stand in a list of two. -/
theorem around_of_pair {before after : List α} {w x y : α} (h : before ++ w :: after = [x, y]) :
    (before = [] ∧ w = x ∧ after = [y]) ∨ (before = [x] ∧ w = y ∧ after = []) := by
  cases before with
  | nil => exact .inl (by simpa using h)
  | cons =>
    rw [List.cons_append, List.cons.injEq] at h
    obtain ⟨hbefore, hw, hafter⟩ := around_of_singleton h.2
    exact .inr ⟨by rw [h.1, hbefore], hw, hafter⟩

/-- In a list without repeated keys, the entries of one key are the one entry that has it. -/
theorem filter_key_eq_singleton {α β : Type*} [DecidableEq β] {f : α → β} {l : List α} {a : α}
    (hnodup : (l.map f).Nodup) (ha : a ∈ l) : l.filter (fun x => f x = f a) = [a] := by
  induction l with
  | nil => cases ha
  | cons b l ih =>
    rw [List.map_cons, List.nodup_cons] at hnodup
    rcases List.mem_cons.mp ha with rfl | ha
    · have hrest : l.filter (fun x => f x = f a) = [] := by
        rw [List.filter_eq_nil_iff]
        intro x hx heq
        exact hnodup.1 (List.mem_map.mpr ⟨x, hx, by simpa using heq⟩)
      rw [List.filter_cons_of_pos (by simp), hrest]
    · have hne : f b ≠ f a := fun heq => hnodup.1 (List.mem_map.mpr ⟨a, ha, heq.symm⟩)
      rw [List.filter_cons_of_neg (by simpa using hne)]
      exact ih hnodup.2 ha

/-- Counting after one element is replaced: the old one counts no more, the new one does. -/
theorem countP_set_add {α : Type*} {p : α → Bool} {l : List α} {i : ℕ} {a : α}
    (h : l[i]? = some a) (b : α) :
    (l.set i b).countP p + (p a).toNat = l.countP p + (p b).toNat := by
  obtain ⟨hlt, hget⟩ := getElem?_eq_some_iff.mp h
  rw [List.countP_set hlt, hget]
  have hpos : p a = true → 0 < l.countP p := by
    intro hpa
    exact List.countP_pos_iff.mpr ⟨a, List.mem_of_getElem? h, hpa⟩
  cases hpa : p a <;> cases hpb : p b <;> simp_all

/-- Counting after one element is taken out. -/
theorem countP_eraseIdx_add {α : Type*} {p : α → Bool} {l : List α} {i : ℕ} {a : α}
    (h : l[i]? = some a) : (l.eraseIdx i).countP p + (p a).toNat = l.countP p := by
  obtain ⟨hlt, hget⟩ := getElem?_eq_some_iff.mp h
  have hperm := (List.getElem_cons_eraseIdx_perm hlt).countP_eq p
  rw [hget, List.countP_cons] at hperm
  cases hpa : p a <;> simp_all

/-- Counting where only one element can count. -/
theorem countP_of_unique {α : Type*} {p : α → Bool} {l : List α} {a : α} (hnodup : l.Nodup)
    (ha : a ∈ l) (hunique : ∀ b ∈ l, p b = true → b = a) : l.countP p = (p a).toNat := by
  classical
  cases hpa : p a with
  | false =>
    refine List.countP_eq_zero.mpr fun b hb hpb => ?_
    rw [hunique b hb hpb, hpa] at hpb
    cases hpb
  | true =>
    have hcount : l.countP p = l.count a := by
      refine List.countP_congr fun b hb => ?_
      rw [beq_iff_eq]
      refine ⟨hunique b hb, fun heq => ?_⟩
      rwa [heq]
    rw [hcount, List.count_eq_one_of_mem hnodup ha]
    rfl

/-! ## Positions -/

section Positions

variable {β : Type*}

/-- `rposition`: the last place where `q` holds. -/
def rposition (q : β → Bool) : List β → Option ℕ
  | [] => none
  | x :: l =>
    match rposition q l with
    | some i => some (i + 1)
    | none => if q x then some 0 else none

theorem rposition_eq_none {q : β → Bool} {l : List β} (h : rposition q l = none) :
    ∀ x ∈ l, q x = false := by
  induction l with
  | nil => simp
  | cons _ _ ih =>
    unfold rposition at h
    split at h
    · cases h
    next hrest =>
    intro x hx
    rcases List.mem_cons.mp hx with rfl | hx
    · by_contra hq
      simp [hq] at h
    · exact ih hrest x hx

theorem rposition_eq_some {q : β → Bool} {l : List β} {i : ℕ} (h : rposition q l = some i) :
    ∃ before x after, l = before ++ x :: after ∧ before.length = i ∧ q x = true ∧
      ∀ y ∈ after, q y = false := by
  induction l generalizing i with
  | nil => exact absurd h (by simp [rposition])
  | cons y l ih =>
    unfold rposition at h
    split at h
    · next j hrest =>
      obtain ⟨before, x, after, rfl, hlen, hx, hafter⟩ := ih hrest
      refine ⟨y :: before, x, after, rfl, ?_, hx, hafter⟩
      rw [List.length_cons, hlen]
      exact Option.some.inj h
    · next hrest =>
      by_cases hy : q y = true
      · rw [if_pos hy] at h
        exact ⟨[], y, l, rfl, Option.some.inj h, hy, rposition_eq_none hrest⟩
      · rw [if_neg hy] at h
        cases h

/-- `position`: the first place where `q` holds, with what stands around it. -/
theorem findIdx_eq_some {q : β → Bool} {l : List β} {i : ℕ} (h : l.findIdx? q = some i) :
    ∃ before x after, l = before ++ x :: after ∧ before.length = i ∧ q x = true ∧
      ∀ y ∈ before, q y = false := by
  obtain ⟨hlt, hi, hbefore⟩ := List.findIdx?_eq_some_iff_getElem.mp h
  refine ⟨l.take i, l[i], l.drop (i + 1), by simp, List.length_take_of_le (Nat.le_of_lt hlt), hi,
    fun y hy => ?_⟩
  obtain ⟨j, hj, rfl⟩ := List.mem_take_iff_getElem.mp hy
  simpa using hbefore j (by omega)

/-- `swap_remove`: the last element takes the place of the one that is removed. -/
def swap_remove (l : List β) (i : ℕ) : List β :=
  match l.getLast? with
  | none => []
  | some last => (l.set i last).dropLast

theorem swap_remove_split (before : List β) (x : β) (after : List β) :
    ∃ moved, moved.Perm after ∧
      swap_remove (before ++ x :: after) before.length = before ++ moved := by
  rcases List.eq_nil_or_concat' after with rfl | ⟨mid, last, rfl⟩
  · refine ⟨[], List.Perm.refl _, ?_⟩
    simp [swap_remove]
  · refine ⟨last :: mid, (List.perm_append_singleton last mid).symm, ?_⟩
    have hlast : (before ++ x :: (mid ++ [last])).getLast? = some last := by
      rw [← List.cons_append, ← List.append_assoc, List.getLast?_concat]
    unfold swap_remove
    rw [hlast]
    simp only [List.set_append_right _ _ (Nat.le_refl _), Nat.sub_self, List.set_cons_zero]
    rw [← List.cons_append, ← List.append_assoc, List.dropLast_concat]

end Positions

end DarwinArt.Lib.ListEdit
