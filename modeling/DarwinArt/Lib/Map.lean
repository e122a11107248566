/-
Finite maps with decidable keys.

A map is the standard library's extensional tree map at the comparison of its key
type, so its lookup lemmas, its extensionality and the `grind` annotations on them
are used as they stand. What is added is a way to give a key type that comparison
without an order proof per type (`Key`: an injective code as a list of numbers), and
the one query on ordered maps the standard library has no lemma for.
-/
import DarwinArt.Lib.ListEdit
import Mathlib

set_option autoImplicit false

namespace DarwinArt.Lib

/-- A finite map. -/
abbrev Map (K V : Type) [Ord K] := Std.ExtTreeMap K V compare

export Std.ExtTreeMap (mem_toList_iff_getElem?_eq_some getElem?_insert_self getElem?_insert
  getElem?_erase_self getElem?_erase getElem?_modify contains_insert ext_getElem?)

/-- A key type: its values have injective codes, and are compared by them. -/
class Key (K : Type) where
  code : K → List ℕ
  code_injective : Function.Injective code

section Key

variable {K : Type} [Key K]

instance instOrd : Ord K := ⟨compareOn Key.code⟩

instance instTransOrd : Std.TransOrd K := inferInstanceAs (Std.TransCmp (compareOn Key.code))

instance instLawfulEqOrd : Std.LawfulEqOrd K where
  compare_self {a} := by
    have h : compare (Key.code a) (Key.code a) = .eq := Std.ReflCmp.compare_self
    exact h
  eq_of_compare {a b} h := by
    have h : compare (Key.code a) (Key.code b) = .eq := h
    exact Key.code_injective (Std.LawfulEqCmp.eq_of_compare h)

end Key

/-! ## The last entry below a key -/

section LastBelow

variable {V : Type}

/-- The entry with the greatest key below `k`: the `range(..k).next_back()` of an
ordered map. -/
def lastBelow (m : Map ℕ V) (k : ℕ) : Option (ℕ × V) :=
  (m.toList.filter (fun e => e.1 < k)).getLast?

theorem lastBelow_eq_some {m : Map ℕ V} {k : ℕ} {e : ℕ × V} (h : lastBelow m k = some e) :
    m[e.1]? = some e.2 ∧ e.1 < k ∧ ∀ k' v', m[k']? = some v' → k' < k → k' ≤ e.1 := by
  obtain ⟨ys, hys⟩ := List.getLast?_eq_some_iff.mp h
  have hmem : e ∈ m.toList.filter (fun e => e.1 < k) := by rw [hys]; simp
  obtain ⟨hm, hlt⟩ := List.mem_filter.mp hmem
  refine ⟨mem_toList_iff_getElem?_eq_some.mp hm, by simpa using hlt, ?_⟩
  intro k' v' hk' hlt'
  -- the list is in key order, so everything before its last element has a smaller key
  have hord : (m.toList.filter (fun e => e.1 < k)).Pairwise
      (fun a b => compare a.1 b.1 = .lt) :=
    Std.ExtTreeMap.ordered_keys_toList.filter _
  have hin : (k', v') ∈ m.toList.filter (fun e => e.1 < k) :=
    List.mem_filter.mpr
      ⟨mem_toList_iff_getElem?_eq_some.mpr hk', by simpa using hlt'⟩
  rw [hys] at hord hin
  rcases List.mem_append.mp hin with hin | hin
  · have := (List.pairwise_append.mp hord).2.2 _ hin e (by simp)
    exact Nat.le_of_lt (Nat.compare_eq_lt.mp this)
  · rw [← List.mem_singleton.mp hin]

theorem lastBelow_eq_none {m : Map ℕ V} {k k' : ℕ} {v' : V} (h : lastBelow m k = none)
    (hk' : m[k']? = some v') : ¬ k' < k := by
  intro hlt
  have hin : (k', v') ∈ m.toList.filter (fun e => e.1 < k) :=
    List.mem_filter.mpr
      ⟨mem_toList_iff_getElem?_eq_some.mpr hk', by simpa using hlt⟩
  rw [List.getLast?_eq_none_iff.mp h] at hin
  exact absurd hin (List.not_mem_nil)

end LastBelow

/-- What a map has a value for it contains. -/
theorem contains_of_some {K V : Type} [Ord K] [Std.TransOrd K] {m : Map K V} {k : K} {a : V}
    (h : m[k]? = some a) : m.contains k = true := by
  rw [Std.ExtTreeMap.contains_eq_isSome_getElem?, h]
  rfl

theorem contains_eq_false_iff {K V : Type} [Ord K] [Std.TransOrd K] {m : Map K V} {k : K} :
    m.contains k = false ↔ m[k]? = none := by
  rw [Std.ExtTreeMap.contains_eq_isSome_getElem?]
  cases m[k]? <;> simp

/-! ## What is found after a write -/

section Writes

variable {K V : Type} [Ord K] [Std.TransOrd K] [Std.LawfulEqOrd K] {m : Map K V} {k k' : K} {a b : V}

theorem getElem?_insert_ne (h : k ≠ k') : (m.insert k a)[k']? = m[k']? := by
  rw [getElem?_insert, if_neg (by simpa using h)]

theorem getElem?_erase_ne (h : k ≠ k') : (m.erase k)[k']? = m[k']? := by
  rw [getElem?_erase, if_neg (by simpa using h)]

/-- What is found after an insertion was inserted, or was there. -/
theorem getElem?_insert_cases (h : (m.insert k a)[k']? = some b) :
    (k' = k ∧ b = a) ∨ (k' ≠ k ∧ m[k']? = some b) := by
  by_cases hk : k = k'
  · rw [← hk, getElem?_insert_self] at h
    exact Or.inl ⟨hk.symm, (Option.some.inj h).symm⟩
  · rw [getElem?_insert_ne hk] at h
    exact Or.inr ⟨Ne.symm hk, h⟩

/-- What is found after an erasure was there, under another key. -/
theorem getElem?_erase_cases (h : (m.erase k)[k']? = some b) : k' ≠ k ∧ m[k']? = some b := by
  by_cases hk : k = k'
  · rw [← hk, getElem?_erase_self] at h
    exact nomatch h
  · rw [getElem?_erase_ne hk] at h
    exact ⟨Ne.symm hk, h⟩

theorem contains_insert_iff :
    (m.insert k a).contains k' = true ↔ k = k' ∨ m.contains k' = true := by
  rw [contains_insert, Bool.or_eq_true]
  simp

theorem contains_erase_iff : (m.erase k).contains k' = true ↔ k ≠ k' ∧ m.contains k' = true := by
  rw [Std.ExtTreeMap.contains_erase, Bool.and_eq_true]
  simp

/-- An entry written and erased again is gone, whatever it was. -/
theorem erase_insert (m : Map K V) (k : K) (a : V) : (m.insert k a).erase k = m.erase k := by
  ext k' : 1
  rw [getElem?_erase, getElem?_erase, getElem?_insert]
  split
  · rfl
  · rfl

/-- Of two writes to one key the second stays. -/
theorem insert_insert (m : Map K V) (k : K) (a b : V) :
    (m.insert k a).insert k b = m.insert k b := by
  ext k' : 1
  rw [getElem?_insert, getElem?_insert, getElem?_insert]
  split
  · rfl
  · rfl

/-- Writing what is there changes nothing. -/
theorem insert_of_some (h : m[k]? = some a) : m.insert k a = m := by
  ext k' : 1
  rw [getElem?_insert]
  split
  · next heq => rw [← Std.LawfulEqCmp.eq_of_compare heq, h]
  · rfl

theorem erase_of_none (h : m[k]? = none) : m.erase k = m := by
  ext k' : 1
  rw [getElem?_erase]
  split
  · next heq => rw [← Std.LawfulEqCmp.eq_of_compare heq, h]
  · rfl

end Writes

/-- What a list of the entries says about one key is what the entry of that key says. -/
theorem filterMap_toList_of_key {K V : Type} {β : Type*} [Ord K] [Std.TransOrd K]
    [Std.LawfulEqOrd K] (m : Map K V) (k : K) {f : K × V → Option β}
    (hf : ∀ e, e.1 ≠ k → f e = none) :
    m.toList.filterMap f = ((m[k]?).bind fun v => f (k, v)).toList := by
  have hmem : ∀ e ∈ m.toList, m[e.1]? = some e.2 :=
    fun e he => mem_toList_iff_getElem?_eq_some.mp he
  have hin : ∀ v, m[k]? = some v → (k, v) ∈ m.toList :=
    fun v hv => mem_toList_iff_getElem?_eq_some.mpr hv
  have hdistinct := Std.ExtTreeMap.distinct_keys_toList (t := m)
  generalize m.toList = l at hmem hin hdistinct
  cases hk : m[k]? with
  | none =>
    rw [Option.bind_none, Option.toList_none, List.filterMap_eq_nil_iff]
    intro e he
    apply hf
    intro heq
    have hsome := hmem e he
    rw [heq, hk] at hsome
    cases hsome
  | some v =>
    -- the entry of the key stands somewhere, and nothing around it has the key
    obtain ⟨before, after, hl⟩ := List.append_of_mem (hin v hk)
    rw [hl, List.pairwise_append, List.pairwise_cons] at hdistinct
    obtain ⟨-, ⟨hafter, -⟩, hbefore⟩ := hdistinct
    have hnone : ∀ part : List (K × V), (∀ e ∈ part, e.1 ≠ k) → part.filterMap f = [] := by
      intro part hpart
      rw [List.filterMap_eq_nil_iff]
      intro e he
      exact hf e (hpart e he)
    rw [hl, List.filterMap_append, List.filterMap_cons, hnone before, hnone after,
      Option.bind_some]
    · cases f (k, v) <;> simp
    · intro e he heq
      apply hafter e he
      rw [heq]
      exact Std.ReflCmp.compare_self
    · intro e he heq
      apply hbefore e he (k, v) List.mem_cons_self
      rw [heq]
      exact Std.ReflCmp.compare_self

end DarwinArt.Lib
