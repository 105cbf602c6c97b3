import Mathlib.Order.Basic

/-! # Rounding up along a map that rounds down

A map `f` of numbers that never goes up describes, for each point, how much of it
is covered. The first point from `w` on that covers `w` rounds `w` up to a value
of `f`. That is a closure, however `f` jumps.
-/

namespace ImgVhd.Foundation

/-- `q` is the first point from `w` on whose value reaches `w`. -/
structure FirstCover (f : Nat → Nat) (w q : Nat) : Prop where
  after : w ≤ q
  covers : w ≤ f q
  first : ∀ p, w ≤ p → p < q → f p < w

section Covering

variable {f : Nat → Nat} {w m n p q q' : Nat}

theorem exists_firstCover (after : w ≤ p) (covers : w ≤ f p) : ∃ q ≤ p, FirstCover f w q := by
  induction p using Nat.strongRecOn with
  | ind p ih =>
      by_cases earlier : ∃ p' < p, w ≤ p' ∧ w ≤ f p'
      · obtain ⟨p', lt, after', covers'⟩ := earlier
        obtain ⟨q, le, first⟩ := ih p' lt after' covers'
        exact ⟨q, Nat.le_trans le (Nat.le_of_lt lt), first⟩
      · refine ⟨p, Nat.le_refl _, after, covers, fun p' after' lt => ?_⟩
        exact Nat.lt_of_not_le fun covers' => earlier ⟨p', lt, after', covers'⟩

theorem FirstCover.le (cover : FirstCover f w q) (after : w ≤ p) (covers : w ≤ f p) : q ≤ p :=
  Nat.le_of_not_lt fun lt => Nat.not_lt.mpr covers (cover.first p after lt)

theorem FirstCover.unique (cover : FirstCover f w q) (cover' : FirstCover f w q') : q = q' :=
  Nat.le_antisymm (cover.le cover'.after cover'.covers) (cover'.le cover.after cover.covers)

variable (deflates : ∀ s, f s ≤ s)

include deflates

theorem FirstCover.again (cover : FirstCover f w q) : FirstCover f (f q) q where
  after := deflates q
  covers := Nat.le_refl _
  first p after lt :=
    Nat.lt_of_lt_of_le (cover.first p (Nat.le_trans cover.covers after) lt) cover.covers

theorem FirstCover.mono (cover : FirstCover f m q) (cover' : FirstCover f n q') (le : m ≤ n) :
    f q ≤ f q' := by
  have before : q ≤ q' := cover.le (Nat.le_trans le cover'.after) (Nat.le_trans le cover'.covers)
  rcases Nat.eq_or_lt_of_le before with rfl | lt
  · exact Nat.le_refl _
  · by_cases past : n ≤ q
    · exact Nat.le_of_lt (Nat.lt_of_lt_of_le (cover'.first q past lt) cover'.covers)
    · have down := deflates q
      have covers := cover'.covers
      omega

end Covering

/-! ## Steps of one width

A map that rounds down to a multiple of a width, where the width depends on the
point.
-/

/-- `s` rounded down to a multiple of `g`. -/
def floorTo (g s : Nat) : Nat := s / g * g

theorem floorTo_le (g s : Nat) : floorTo g s ≤ s := Nat.div_mul_le_self s g

theorem floorTo_mono {g s s' : Nat} (le : s ≤ s') : floorTo g s ≤ floorTo g s' :=
  Nat.mul_le_mul_right _ (Nat.div_le_div_right le)

theorem lt_floorTo_add {g s : Nat} (positive : 0 < g) : s < floorTo g s + g := by
  have split := Nat.div_add_mod s g
  have small := Nat.mod_lt s positive
  have same : s / g * g = g * (s / g) := Nat.mul_comm _ _
  unfold floorTo
  omega

theorem floorTo_floorTo {g s : Nat} (positive : 0 < g) : floorTo g (floorTo g s) = floorTo g s := by
  unfold floorTo
  rw [Nat.mul_div_cancel _ positive]

theorem div_div_mul (s a b : Nat) : s / a / b * b * a = floorTo (a * b) s := by
  rw [floorTo, Nat.div_div_eq_div_mul, Nat.mul_assoc, Nat.mul_comm b a]

theorem floorTo_between {g s t : Nat} (positive : 0 < g) (low : floorTo g s ≤ t) (high : t ≤ s) :
    floorTo g t = floorTo g s := by
  refine Nat.le_antisymm (floorTo_mono high) ?_
  rw [← floorTo_floorTo positive]
  exact floorTo_mono low

end ImgVhd.Foundation
