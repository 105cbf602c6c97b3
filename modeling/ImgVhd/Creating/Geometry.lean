import ImgVhd.FooterBuild
import ImgVhd.Foundation.Covering

/-! # The geometry ladder

The geometry of a disk rounds its sectors down to a multiple of a width, heads
times sectors per track, and the width depends on the size. `grain` is that
width. The ladder is not monotone: just where a head is added it is tried with
the next rung first, so a few sizes fall back to the width of that rung.
-/

namespace ImgVhd

open Foundation

namespace Chs

theorem maxAddressableSectors_eq : maxAddressableSectors = 267382800 := rfl

end Chs

/-- The heads the first rung of the ladder asks for. -/
def firstHeads (sectors : Nat) : Nat := max 4 ((sectors / 17 + 1023) / 1024)

/-- The width of the geometry of a `sectors`-sector disk. -/
def grain (sectors : Nat) : Nat :=
  if 66059280 ≤ sectors then 16 * 255
  else if firstHeads sectors * 1024 ≤ sectors / 17 ∨ 16 < firstHeads sectors then
    if 16 * 1024 ≤ sectors / 31 then 16 * 63 else 16 * 31
  else firstHeads sectors * 17

/-- The sectors the geometry of a `sectors`-sector disk describes. -/
def described (sectors : Nat) : Nat := floorTo (grain sectors) sectors

section Ladder

variable {s : Nat}

theorem grain_pos : 0 < grain s := by
  unfold grain firstHeads
  split
  · omega
  · split
    · split <;> omega
    · omega

theorem described_le : described s ≤ s := floorTo_le _ _

/-- The heads and the sectors per track below the saturation point. -/
theorem chsLadder_eq (below : s < 66059280) :
    ∃ cth heads spt, (chsLadder s : Checked _) = .ok (cth, heads, spt) ∧ cth = s / spt ∧
      heads * spt = grain s ∧ 4 ≤ heads ∧ heads ≤ 16 ∧ (spt = 17 ∨ spt = 31 ∨ spt = 63) ∧
      cth / heads < 65536 := by
  have wide : divCeil (s / 17) 1024 % 2 ^ 32 = (s / 17 + 1023) / 1024 := by
    rw [divCeil_eq (by decide)]
    omega
  have heads : (if divCeil (s / Chs.sptFirst) Chs.cylindersPerHeadLimit % 2 ^ 32 < Chs.minHeads then
      Chs.minHeads else divCeil (s / Chs.sptFirst) Chs.cylindersPerHeadLimit % 2 ^ 32) =
      firstHeads s := by
    simp only [Chs.sptFirst, Chs.cylindersPerHeadLimit, Chs.minHeads, wide]
    unfold firstHeads
    split <;> omega
  have small : firstHeads s ≤ 2 ^ 22 := by
    unfold firstHeads
    omega
  unfold chsLadder
  simp only [heads]
  rw [mul64_of_lt (by unfold Chs.cylindersPerHeadLimit; omega), Outcome.ok_bind]
  have width : grain s = _ := if_neg (Nat.not_le.mpr below)
  rw [width]
  by_cases second : firstHeads s * 1024 ≤ s / 17 ∨ 16 < firstHeads s
  · rw [if_pos second, if_pos (show firstHeads s * Chs.cylindersPerHeadLimit ≤ s / Chs.sptFirst ∨
      Chs.maxHeads < firstHeads s from second)]
    rw [mul64_of_lt (show Chs.maxHeads * Chs.cylindersPerHeadLimit < 2 ^ 64 by decide), Outcome.ok_bind]
    by_cases third : 16 * 1024 ≤ s / 31
    · rw [if_pos third, if_pos (show Chs.maxHeads * Chs.cylindersPerHeadLimit ≤ s / Chs.sptSecond
        from third)]
      refine ⟨_, _, _, rfl, rfl, rfl, ?_⟩
      simp only [Chs.maxHeads, Chs.sptThird]
      exact ⟨by omega, by omega, by simp, by omega⟩
    · rw [if_neg third, if_neg (show ¬ Chs.maxHeads * Chs.cylindersPerHeadLimit ≤ s / Chs.sptSecond
        from third)]
      refine ⟨_, _, _, rfl, rfl, rfl, ?_⟩
      simp only [Chs.maxHeads, Chs.sptSecond]
      exact ⟨by omega, by omega, by simp, by omega⟩
  · rw [if_neg second, if_neg (show ¬ (firstHeads s * Chs.cylindersPerHeadLimit ≤ s / Chs.sptFirst ∨
      Chs.maxHeads < firstHeads s) from second)]
    rw [mul64_of_lt (by unfold Chs.cylindersPerHeadLimit; simp only; omega), Outcome.ok_bind, if_neg
      (show ¬ firstHeads s * Chs.cylindersPerHeadLimit ≤ s / Chs.sptFirst from fun le =>
        second (Or.inl le))]
    refine ⟨_, _, _, rfl, rfl, rfl, ?_⟩
    have some_ : 4 ≤ firstHeads s := by
      unfold firstHeads
      omega
    have few : s / 17 / firstHeads s < 1024 := by
      rw [Nat.div_lt_iff_lt_mul (by omega), Nat.mul_comm]
      omega
    simp only [Chs.sptFirst]
    exact ⟨some_, by omega, by simp, by omega⟩

/-- The rung a disk of `s` sectors stands on, saturated past the last one. -/
def rungOf (s : Nat) : Checked (Nat × Nat × Nat) :=
  if Chs.ladderCeilingSectors ≤ s then .ok (s / Chs.maxSectorsPerTrack, Chs.maxHeads, Chs.maxSectorsPerTrack)
  else chsLadder s

theorem chsForSize_rung (size : Nat) : (chsForSize size : Checked _) =
    rungOf (min (size / sectorSize) Chs.maxAddressableSectors) >>= fun g =>
      .ok (min (if g.2.1 = 0 then 0 else g.1 / g.2.1) 65535 % 2 ^ 16, min g.2.1 255 % 2 ^ 8,
        min g.2.2 255 % 2 ^ 8) := by
  unfold chsForSize rungOf
  simp only
  split
  · rfl
  · cases chsLadder (min (size / sectorSize) Chs.maxAddressableSectors) with
    | ok g => rfl
    | _ => rfl

theorem rungOf_eq (le : s ≤ 267382800) :
    ∃ cth heads spt, rungOf s = .ok (cth, heads, spt) ∧ cth = s / spt ∧ heads * spt = grain s ∧
      4 ≤ heads ∧ heads ≤ 16 ∧ (spt = 17 ∨ spt = 31 ∨ spt = 63 ∨ spt = 255) ∧
        cth / heads < 65536 := by
  unfold rungOf
  by_cases above : 66059280 ≤ s
  · have width : grain s = 16 * 255 := if_pos above
    rw [if_pos (show Chs.ladderCeilingSectors ≤ s from above), width]
    refine ⟨_, _, _, rfl, rfl, rfl, ?_⟩
    simp only [Chs.maxHeads, Chs.maxSectorsPerTrack]
    exact ⟨by omega, by omega, by simp, by omega⟩
  · rw [if_neg (show ¬ Chs.ladderCeilingSectors ≤ s from above)]
    obtain ⟨cth, heads, spt, ladder, division, width, some_, few, track, cylinders⟩ :=
      chsLadder_eq (s := s) (by omega)
    refine ⟨cth, heads, spt, ladder, division, width, some_, few, ?_, cylinders⟩
    rcases track with first | second | third
    · exact Or.inl first
    · exact Or.inr (Or.inl second)
    · exact Or.inr (Or.inr (Or.inl third))

theorem chsForSize_eq (le : s ≤ 267382800) :
    ∃ c h spt, (chsForSize (s * 512) : Checked _) = .ok (c, h, spt) ∧ c * h * spt = described s ∧
      c < 2 ^ 16 ∧ h < 2 ^ 8 ∧ spt < 2 ^ 8 := by
  have total : min (s * 512 / sectorSize) Chs.maxAddressableSectors = s := by
    rw [sectorSize, Nat.mul_div_cancel _ (by decide)]
    exact Nat.min_eq_left le
  obtain ⟨cth, heads, spt, rung, rfl, width, some_, few, track, cylinders⟩ := rungOf_eq le
  unfold described
  rw [chsForSize_rung, total, rung, Outcome.ok_bind, ← width, Nat.mul_comm heads spt, ← div_div_mul]
  refine ⟨_, _, _, rfl, ?_⟩
  simp only
  rw [if_neg (by omega), Nat.min_eq_left (by omega), Nat.mod_eq_of_lt (by omega),
    Nat.min_eq_left (by omega), Nat.mod_eq_of_lt (by omega), Nat.min_eq_left (by omega),
    Nat.mod_eq_of_lt (by omega)]
  exact ⟨rfl, by omega, by omega, by omega⟩

theorem chsForSize_ok (v : Nat) : ∃ c h spt, (chsForSize v : Checked _) = .ok (c, h, spt) ∧
    c * h * spt = described (min (v / 512) 267382800) ∧ c < 2 ^ 16 ∧ h < 2 ^ 8 ∧ spt < 2 ^ 8 := by
  have clamp : (chsForSize v : Checked _) = chsForSize (min (v / 512) 267382800 * 512) := by
    unfold chsForSize
    have same : min (min (v / 512) 267382800 * 512 / sectorSize) Chs.maxAddressableSectors =
        min (v / sectorSize) Chs.maxAddressableSectors := by
      simp only [Chs.maxAddressableSectors_eq, sectorSize]
      omega
    rw [same]
  rw [clamp]
  exact chsForSize_eq (Nat.min_le_right _ _)

theorem describedSectors_eq (le : s ≤ 267382800) :
    (describedSectors s : Checked Nat) = .ok (described s) := by
  obtain ⟨c, h, spt, geometry, product, cylinders, heads, tracks⟩ := chsForSize_eq le
  have down : described s ≤ s := described_le
  unfold describedSectors
  rw [mul64_of_lt (by unfold sectorSize; omega), Outcome.ok_bind]
  change (chsForSize (s * 512) >>= _) = _
  rw [geometry, Outcome.ok_bind]
  have ch : c * h < 2 ^ 16 * 2 ^ 8 := Nat.mul_lt_mul'' cylinders heads
  simp only
  rw [mul64_of_lt (by omega), Outcome.ok_bind, mul64_of_lt (by omega), product]

end Ladder

/-! ## The search -/

section Search

variable {size wanted sectors q fuel : Nat}

theorem searchCovering_eq (cover : FirstCover described wanted q) (top : q ≤ 267382800)
    (after : wanted ≤ sectors) (before : sectors ≤ q) (enough : q - sectors < fuel) :
    searchCovering size wanted fuel sectors = .ok (described q * 512) := by
  induction fuel generalizing sectors with
  | zero => omega
  | succ fuel ih =>
      have down : described sectors ≤ sectors := described_le
      unfold searchCovering
      rw [if_pos (by rw [Chs.maxAddressableSectors_eq]; omega), describedSectors_eq (by omega), Outcome.ok_bind]
      split
      · rename_i reached
        have last : q = sectors := Nat.le_antisymm (cover.le after reached) before
        rw [last, mul64_of_lt (by unfold sectorSize; omega)]
        rfl
      · rename_i short
        have more : sectors ≠ q := by
          rintro rfl
          exact short cover.covers
        exact ih (by omega) (by omega) (by omega)

theorem lt_described_add : sectors < 66059280 → sectors < described sectors + 1008 := by
  intro below
  have near : sectors < described sectors + grain sectors := lt_floorTo_add grain_pos
  have narrow : grain sectors ≤ 1008 := by
    unfold grain firstHeads
    split
    · omega
    · split
      · split <;> omega
      · omega
  omega

theorem covered_near (le : wanted ≤ 267382800) :
    ∃ q, FirstCover described wanted q ∧ q < wanted + 4080 ∧ q ≤ 267382800 := by
  have within {p : Nat} (after : wanted ≤ p) (covers : wanted ≤ described p) (near : p < wanted + 4080)
      (top : p ≤ 267382800) :
      ∃ q, FirstCover described wanted q ∧ q < wanted + 4080 ∧ q ≤ 267382800 := by
    obtain ⟨q, before, cover⟩ := exists_firstCover after covers
    exact ⟨q, cover, by omega, by omega⟩
  by_cases saturated : 66059280 ≤ wanted
  · -- the next multiple of the saturated width
    have width : grain ((wanted + 4079) / 4080 * 4080) = 4080 := if_pos (by omega)
    refine within (p := (wanted + 4079) / 4080 * 4080) (by omega) ?_ (by omega) (by omega)
    unfold described
    rw [width, floorTo, Nat.mul_div_cancel _ (by decide)]
    omega
  · by_cases inside : wanted + 1007 < 66059280
    · have near := lt_described_add inside
      exact within (p := wanted + 1007) (by omega) (by omega) (by omega) (by omega)
    · -- the ladder's ceiling is a multiple of the saturated width
      have ceiling : described 66059280 = 66059280 := by decide
      exact within (p := 66059280) (by omega) (by omega) (by omega) (by omega)

theorem sizeWithExactGeometry_eq (cover : FirstCover described (size / 512) q)
    (top : q ≤ 267382800) : sizeWithExactGeometry size = .ok (described q * 512) := by
  have after := cover.after
  exact searchCovering_eq cover top (Nat.le_refl _) after (by
    simp only [Chs.maxAddressableSectors_eq, sectorSize]
    omega)

theorem sizeWithExactGeometry_past (past : 267382800 < size / 512) :
    sizeWithExactGeometry size = .ok size := by
  unfold sizeWithExactGeometry
  simp only [Chs.maxAddressableSectors_eq, sectorSize]
  unfold searchCovering
  rw [if_neg (by rw [Chs.maxAddressableSectors_eq]; omega)]
  rfl

theorem sizeWithExactGeometry_ok (size : Nat) : ∃ v, sizeWithExactGeometry size = .ok v ∧
    (v = size ∨ v ≤ 267382800 * 512) := by
  by_cases past : 267382800 < size / 512
  · exact ⟨size, sizeWithExactGeometry_past past, Or.inl rfl⟩
  · obtain ⟨q, cover, -, top⟩ := covered_near (Nat.le_of_not_lt past)
    have down : described q ≤ q := described_le
    exact ⟨_, sizeWithExactGeometry_eq cover top, Or.inr (by omega)⟩

theorem sizeWithExactGeometry_whole {v : Nat} (aligned : size % 512 = 0)
    (rounded : sizeWithExactGeometry size = .ok v) : v % 512 = 0 := by
  by_cases past : 267382800 < size / 512
  · rw [sizeWithExactGeometry_past past] at rounded
    rw [← Outcome.ok.inj rounded]
    exact aligned
  · obtain ⟨q, cover, -, top⟩ := covered_near (Nat.le_of_not_lt past)
    rw [sizeWithExactGeometry_eq cover top] at rounded
    rw [← Outcome.ok.inj rounded]
    exact Nat.mul_mod_left _ _

end Search

end ImgVhd
