/-
Tilings of `[0, cap)` by half-open regions.

A region is a `(start, length)` pair. `Tiles cap R` says the regions of `R` are
nonempty, lie inside `[0, cap)`, do not overlap and leave no gap. An allocator that
hands out address ranges keeps such a tiling and only ever does two things to it:
cut one region in two (`Tiles.split`) and join two neighbours (`Tiles.merge`). Both
are stated here once, over sets, with no allocator in sight.
-/
import Mathlib.Data.Set.Insert
import Mathlib.Tactic.Common

set_option autoImplicit false

namespace DarwinArt.Lib

/-- The regions `R` tile `[0, cap)`. -/
structure Tiles (cap : ℕ) (R : Set (ℕ × ℕ)) : Prop where
  nonempty : ∀ r ∈ R, 0 < r.2
  inside : ∀ r ∈ R, r.1 + r.2 ≤ cap
  apart : ∀ r ∈ R, ∀ s ∈ R, r ≠ s → r.1 + r.2 ≤ s.1 ∨ s.1 + s.2 ≤ r.1
  covers : ∀ x < cap, ∃ r ∈ R, r.1 ≤ x ∧ x < r.1 + r.2

namespace Tiles

variable {cap : ℕ} {R : Set (ℕ × ℕ)}

/-- One region is a tiling. -/
theorem single (h : 0 < cap) : Tiles cap {(0, cap)} where
  nonempty := by rintro r rfl; exact h
  inside := by rintro r rfl; simp
  apart := by rintro r rfl s rfl hne; exact absurd rfl hne
  covers := fun x hx => ⟨(0, cap), rfl, Nat.zero_le x, by simpa using hx⟩

/-- Cutting one region in two keeps the tiling. -/
theorem split (h : Tiles cap R) {o a b : ℕ} (hr : (o, a + b) ∈ R) (ha : 0 < a) (hb : 0 < b) :
    Tiles cap (insert (o, a) (insert (o + a, b) (R \ {(o, a + b)}))) := by
  have hin := h.inside _ hr
  -- every other region stays clear of the whole region that was cut
  have hclear : ∀ s ∈ R \ {(o, a + b)}, o + (a + b) ≤ s.1 ∨ s.1 + s.2 ≤ o :=
    fun s hs => h.apart _ hr s hs.1 (fun heq => hs.2 heq.symm)
  refine ⟨?_, ?_, ?_, ?_⟩
  · rintro r (rfl | rfl | hrR)
    · exact ha
    · exact hb
    · exact h.nonempty r hrR.1
  · rintro r (rfl | rfl | hrR)
    · simp only at hin ⊢; omega
    · simp only at hin ⊢; omega
    · exact h.inside r hrR.1
  · rintro r (rfl | rfl | hrR) s (rfl | rfl | hsR) hne
    · exact absurd rfl hne
    · simp
    · have := hclear s hsR; simp only; omega
    · simp
    · exact absurd rfl hne
    · have := hclear s hsR; simp only; omega
    · have := hclear r hrR; simp only; omega
    · have := hclear r hrR; simp only; omega
    · exact h.apart r hrR.1 s hsR.1 hne
  · intro x hx
    obtain ⟨r, hrR, hlo, hhi⟩ := h.covers x hx
    by_cases heq : r = (o, a + b)
    · subst heq
      by_cases hxa : x < o + a
      · exact ⟨(o, a), Or.inl rfl, hlo, hxa⟩
      · exact ⟨(o + a, b), Or.inr (Or.inl rfl), by simp only; omega, by simp only at hhi ⊢; omega⟩
    · exact ⟨r, Or.inr (Or.inr ⟨hrR, heq⟩), hlo, hhi⟩

/-- Joining two neighbours keeps the tiling. -/
theorem merge (h : Tiles cap R) {o a b : ℕ} (h₁ : (o, a) ∈ R) (h₂ : (o + a, b) ∈ R) :
    Tiles cap (insert (o, a + b) (R \ {(o, a), (o + a, b)})) := by
  have ha := h.nonempty _ h₁
  have hin := h.inside _ h₂
  simp only at ha hin
  have hclear : ∀ s ∈ R \ {(o, a), (o + a, b)}, o + (a + b) ≤ s.1 ∨ s.1 + s.2 ≤ o := by
    rintro s ⟨hsR, hsn⟩
    simp only [Set.mem_insert_iff, Set.mem_singleton_iff, not_or] at hsn
    have hs0 := h.nonempty s hsR
    have c₁ := h.apart _ h₁ s hsR (Ne.symm hsn.1)
    have c₂ := h.apart _ h₂ s hsR (Ne.symm hsn.2)
    simp only at c₁ c₂
    omega
  refine ⟨?_, ?_, ?_, ?_⟩
  · rintro r (rfl | hrR)
    · simp only; omega
    · exact h.nonempty r hrR.1
  · rintro r (rfl | hrR)
    · simp only; omega
    · exact h.inside r hrR.1
  · rintro r (rfl | hrR) s (rfl | hsR) hne
    · exact absurd rfl hne
    · exact hclear s hsR
    · exact (hclear r hrR).symm
    · exact h.apart r hrR.1 s hsR.1 hne
  · intro x hx
    obtain ⟨r, hrR, hlo, hhi⟩ := h.covers x hx
    by_cases heq : r = (o, a) ∨ r = (o + a, b)
    · refine ⟨(o, a + b), Or.inl rfl, ?_, ?_⟩ <;>
        rcases heq with rfl | rfl <;> simp only at hlo hhi ⊢ <;> omega
    · exact ⟨r, Or.inr ⟨hrR, heq⟩, hlo, hhi⟩

/-- A tiling without neighbours is the single region: past the end of the region that
starts at `0` there would have to be a neighbour. -/
theorem eq_single (h : Tiles cap R) (hcap : 0 < cap)
    (hgap : ∀ r ∈ R, ∀ s ∈ R, r.1 + r.2 ≠ s.1) : R = {(0, cap)} := by
  obtain ⟨r, hr, hlo, hhi⟩ := h.covers 0 hcap
  have hin := h.inside r hr
  have hend : r.1 + r.2 = cap := by
    by_contra hne
    obtain ⟨s, hs, hslo, hshi⟩ := h.covers (r.1 + r.2) (by omega)
    have hs0 := h.nonempty s hs
    have hrs : r ≠ s := by rintro rfl; omega
    have := hgap r hr s hs
    rcases h.apart r hr s hs hrs with hle | hle <;> omega
  have hr' : r = (0, cap) := Prod.ext (by simp only; omega) (by simp only; omega)
  subst hr'
  refine Set.eq_singleton_iff_unique_mem.mpr ⟨hr, fun s hs => ?_⟩
  by_contra hne
  have hs0 := h.nonempty s hs
  have hsin := h.inside s hs
  have := h.apart s hs _ hr hne
  simp only at this
  omega

end Tiles

end DarwinArt.Lib
