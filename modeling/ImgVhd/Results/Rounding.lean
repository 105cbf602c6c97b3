import ImgVhd.Creating.Fixed
import Mathlib.Tactic.IntervalCases

/-! # The size of a created image

A request is rounded up to a size some geometry describes. The rounding is a
closure. The size it finds is not always described by its own geometry: next to
where the ladder adds a head there are ranges of requests that end just before
the jump.
-/

namespace ImgVhd

open Foundation

/-- The geometry of any disk: no clamp and no narrowing changes a field, and what it
    describes is less than one cylinder short of the disk. -/
theorem geometry_rounds_down (size : Nat) : ∃ t cth heads spt : Nat,
    t = min (size / 512) (65535 * 16 * 255) ∧ rungOf t = .ok (cth, heads, spt) ∧
    divCeil (t / 17) 1024 < 2 ^ 32 ∧ cth / heads < 2 ^ 16 ∧
    (chsForSize size : Checked _) = .ok (cth / heads, heads, spt) ∧ 4 ≤ heads ∧ heads ≤ 16 ∧
    spt ∈ [17, 31, 63, 255] ∧ cth / heads * heads * spt ≤ t ∧
    t - cth / heads * heads * spt < heads * spt := by
  have top : min (size / 512) (65535 * 16 * 255) ≤ 267382800 := Nat.min_le_right _ _
  have wide : divCeil (min (size / 512) (65535 * 16 * 255) / 17) 1024 < 2 ^ 32 := by
    rw [divCeil_eq (by decide)]
    omega
  obtain ⟨cth, heads, spt, rung, division, width, some_, few, track, cylinders⟩ := rungOf_eq top
  refine ⟨_, cth, heads, spt, rfl, rung, wide, cylinders, ?_, some_, few, by simpa using track, ?_⟩
  · rw [chsForSize_rung]
    simp only [sectorSize, Chs.maxAddressableSectors_eq]
    rw [rung, Outcome.ok_bind]
    simp only
    rw [if_neg (by omega), Nat.min_eq_left (by omega), Nat.mod_eq_of_lt (by omega),
      Nat.min_eq_left (by omega), Nat.mod_eq_of_lt (by omega), Nat.min_eq_left (by omega),
      Nat.mod_eq_of_lt (by omega)]
  · generalize min (size / 512) (65535 * 16 * 255) = t at division
    subst division
    have product : t / spt / heads * heads * spt = floorTo (heads * spt) t := by
      rw [Nat.mul_comm heads spt]
      exact div_div_mul t spt heads
    rw [product]
    have positive : 0 < heads * spt := Nat.mul_pos (by omega) (by omega)
    have down := floorTo_le (heads * spt) t
    have near := lt_floorTo_add (s := t) positive
    omega

section Rounding

variable {n m : Nat}

theorem rounding_mono {r r' : Nat} (le : m ≤ n) (first : sizeWithExactGeometry m = .ok r)
    (second : sizeWithExactGeometry n = .ok r') (aligned : m % 512 = 0) (aligned' : n % 512 = 0) :
    r ≤ r' := by
  by_cases past : 267382800 < n / 512
  · rw [sizeWithExactGeometry_past past] at second
    cases second
    by_cases past' : 267382800 < m / 512
    · rw [sizeWithExactGeometry_past past'] at first
      cases first
      exact le
    · obtain ⟨q, cover, -, top⟩ := covered_near (Nat.le_of_not_lt past')
      rw [sizeWithExactGeometry_eq cover top] at first
      cases first
      have down : described q ≤ q := described_le
      omega
  · obtain ⟨q', cover', -, top'⟩ := covered_near (Nat.le_of_not_lt past)
    obtain ⟨q, cover, -, top⟩ := covered_near (show m / 512 ≤ 267382800 by omega)
    rw [sizeWithExactGeometry_eq cover' top'] at second
    rw [sizeWithExactGeometry_eq cover top] at first
    cases first
    cases second
    exact Nat.mul_le_mul_right _ (cover.mono (fun _ => described_le) cover' (Nat.div_le_div_right le))

/-- Up to the largest geometry the search stops within 4080 steps at a size that
    covers the request, less than 4080 sectors past it, and there rounding is a
    closure; a larger request is kept. -/
theorem rounding_is_a_bounded_closure :
    (∀ n, n % 512 = 0 → n / 512 ≤ 65535 * 16 * 255 → ∃ r covered sectors,
      (∀ fuel, 4080 ≤ fuel → searchCovering n (n / 512) fuel (n / 512) = .ok r) ∧
      sectors < n / 512 + 4080 ∧ describedSectors sectors = .ok covered ∧ n / 512 ≤ covered ∧
      r = covered * 512 ∧ sizeWithExactGeometry n = .ok r ∧ n ≤ r ∧ r ≤ 65535 * 16 * 255 * 512 ∧
      r - n < 4080 * 512 ∧ sizeWithExactGeometry r = .ok r) ∧
    (∀ m n r r', m ≤ n → m % 512 = 0 → n % 512 = 0 → sizeWithExactGeometry m = .ok r →
      sizeWithExactGeometry n = .ok r' → r ≤ r') ∧
    ∀ n, 65535 * 16 * 255 < n / 512 → sizeWithExactGeometry n = .ok n := by
  refine ⟨fun n aligned le => ?_, fun m n r r' le aligned aligned' first second =>
    rounding_mono le first second aligned aligned', fun n past => sizeWithExactGeometry_past past⟩
  obtain ⟨q, cover, near, top⟩ := covered_near le
  have after := cover.after
  have covers := cover.covers
  have down : described q ≤ q := described_le
  refine ⟨_, described q, q, fun fuel enough => ?_, near, describedSectors_eq top, covers, rfl,
    sizeWithExactGeometry_eq cover top, by omega, by omega, by omega, ?_⟩
  · exact searchCovering_eq cover top (Nat.le_refl _) after (by omega)
  · have again : FirstCover described (described q * 512 / 512) q := by
      rw [Nat.mul_div_cancel _ (by decide)]
      exact cover.again fun _ => described_le
    exact sizeWithExactGeometry_eq again top

/-- 4 KiB are one of these requests. -/
theorem small_request_is_rounded : ∃ r, sizeWithExactGeometry 4096 = .ok r ∧ 4096 ≤ r ∧
    r - 4096 < 4080 * 512 ∧ sizeWithExactGeometry r = .ok r := by
  obtain ⟨r, -, -, -, -, -, -, -, rounded, above, -, near, again⟩ :=
    rounding_is_a_bounded_closure.1 4096 (by decide) (by decide)
  exact ⟨r, rounded, above, near, again⟩

end Rounding

/-! ## Where the ladder's width changes -/

/-- From `start` to before `stop` the geometry has one width. -/
inductive Rung : (start stop width : Nat) → Prop where
  | first : Rung 0 69632 68
  | heads {h} (more : 5 ≤ h) (most : h ≤ 16) : Rung (17408 * (h - 1) + 17) (17408 * h) (17 * h)
  /-- Where a head is added the next rung is tried. -/
  | fallback {h} (least : 4 ≤ h) (most : h ≤ 15) : Rung (17408 * h) (17408 * h + 17) 496
  | second : Rung 278528 507904 496
  | third : Rung 507904 66059280 1008
  | saturated : Rung 66059280 267382801 4080

section Rungs

variable {start stop width s q w : Nat}

theorem Rung.grain_eq (rung : Rung start stop width) (low : start ≤ s) (high : s < stop) :
    grain s = width := by
  unfold grain firstHeads
  cases rung with
  | first =>
      rw [if_neg (by omega), if_neg (by omega)]
      omega
  | heads more most =>
      rw [if_neg (by omega), if_neg (by omega)]
      omega
  | fallback least most => rw [if_neg (by omega), if_pos (by omega), if_neg (by omega)]
  | second => rw [if_neg (by omega), if_pos (by omega), if_neg (by omega)]
  | third => rw [if_neg (by omega), if_pos (by omega), if_pos (by omega)]
  | saturated => rw [if_pos low]

theorem exists_rung (le : s ≤ 267382800) :
    ∃ start stop width, Rung start stop width ∧ start ≤ s ∧ s < stop := by
  by_cases top : 66059280 ≤ s
  · exact ⟨_, _, _, .saturated, by omega, by omega⟩
  by_cases third : 507904 ≤ s
  · exact ⟨_, _, _, .third, by omega, by omega⟩
  by_cases second : 278528 ≤ s
  · exact ⟨_, _, _, .second, by omega, by omega⟩
  by_cases first : s < 69632
  · exact ⟨_, _, _, .first, by omega, by omega⟩
  by_cases falls : s % 17408 < 17
  · exact ⟨_, _, _, .fallback (h := s / 17408) (by omega) (by omega), by omega, by omega⟩
  · exact ⟨_, _, _, .heads (h := s / 17408 + 1) (by omega) (by omega), by omega, by omega⟩

theorem Rung.described_eq (rung : Rung start stop width) (low : start ≤ s) (high : s < stop) :
    described s = floorTo width s := by
  rw [described, rung.grain_eq low high]

end Rungs

/-! ## Requests whose size is described by another geometry -/

/-- Sector counts that are rounded up to a size just before the ladder's width
    changes, found past the change. -/
def fallsBack : List (Nat × Nat) :=
  [(69565, 69615), (86956, 87006), (104347, 104363), (121738, 121856), (139129, 139230),
    (156520, 156570), (191302, 191456), (208693, 208845), (226084, 226176), (243475, 243536),
    (260866, 261120)]

def FallsBack (sectors : Nat) : Prop := ∃ r ∈ fallsBack, r.1 ≤ sectors ∧ sectors ≤ r.2

instance (sectors : Nat) : Decidable (FallsBack sectors) :=
  inferInstanceAs (Decidable (∃ r ∈ fallsBack, r.1 ≤ sectors ∧ sectors ≤ r.2))

section FallsBack

variable {q w : Nat}

theorem fallsBack_iff : FallsBack w ↔
    (69565 ≤ w ∧ w ≤ 69615) ∨ (86956 ≤ w ∧ w ≤ 87006) ∨ (104347 ≤ w ∧ w ≤ 104363) ∨
    (121738 ≤ w ∧ w ≤ 121856) ∨ (139129 ≤ w ∧ w ≤ 139230) ∨ (156520 ≤ w ∧ w ≤ 156570) ∨
    (191302 ≤ w ∧ w ≤ 191456) ∨ (208693 ≤ w ∧ w ≤ 208845) ∨ (226084 ≤ w ∧ w ≤ 226176) ∨
    (243475 ≤ w ∧ w ≤ 243536) ∨ (260866 ≤ w ∧ w ≤ 261120) := by
  unfold FallsBack fallsBack
  simp only [List.mem_cons, List.not_mem_nil, or_false, exists_eq_or_imp, exists_eq_left]

theorem described_edge {h : Nat} (least : 4 ≤ h) (most : h ≤ 15) :
    described (17408 * h - 1) = 17391 * h ∧
      described (17408 * h + 16) = floorTo 496 (17408 * h + 16) := by
  constructor
  · rcases Nat.eq_or_lt_of_le least with rfl | more
    · decide
    · have up : h * 17408 = (h - 1) * 17408 + 17408 := by omega
      rw [(Rung.heads (h := h) (by omega) (by omega)).described_eq (by omega) (by omega), floorTo]
      have last : (17408 * h - 1) / (17 * h) = 1023 := by
        refine Nat.div_eq_of_lt_le ?_ ?_ <;> omega
      rw [last]
      omega
  · exact (Rung.fallback least most).described_eq (by omega) (by omega)

/-- A size that is not its own came from a rung further up. -/
theorem falls_of_changed (cover : FirstCover described w q) (top : q ≤ 267382800)
    (changed : described (described q) ≠ described q) : FallsBack w := by
  obtain ⟨start, stop, width, rung, low, high⟩ := exists_rung top
  have here := rung.described_eq low high
  have positive : 0 < width := by
    rw [← rung.grain_eq low high]
    exact grain_pos
  have down : described q ≤ q := described_le
  have before : described q < start := by
    refine Nat.lt_of_not_le fun inside => changed ?_
    rw [rung.described_eq inside (by omega), here, floorTo_floorTo positive]
  -- the rung's start is rounded down as far, so it is the first that covers
  have first : floorTo width start = described q := by
    rw [here]
    exact floorTo_between positive (by omega) low
  have covers := cover.covers
  have least {p : Nat} (lt : p < start) : described p < w := by
    refine Nat.lt_of_not_le fun reached => ?_
    have down' : described p ≤ p := described_le
    exact absurd (cover.first p (by omega) (by omega)) (Nat.not_lt.mpr reached)
  rw [← first] at before covers
  rw [fallsBack_iff]
  cases rung with
  | first => exact absurd before (Nat.not_lt_zero _)
  | @heads h more most =>
      have head := least (p := 17408 * (h - 1) - 1) (by omega)
      have back := least (p := 17408 * (h - 1) + 16) (by omega)
      rw [(described_edge (h := h - 1) (by omega) (by omega)).1] at head
      rw [(described_edge (h := h - 1) (by omega) (by omega)).2] at back
      unfold floorTo at before covers back
      interval_cases h <;> omega
  | @fallback h more most =>
      have head := least (p := 17408 * h - 1) (by omega)
      rw [(described_edge more most).1] at head
      unfold floorTo at before covers
      interval_cases h <;> omega
  | second =>
      have head := least (p := 278527) (by omega)
      rw [(Rung.heads (h := 16) (by omega) (by omega)).described_eq (by omega) (by omega)] at head
      unfold floorTo at before covers head
      omega
  | third =>
      have head := least (p := 507903) (by omega)
      rw [Rung.second.described_eq (by omega) (by omega)] at head
      unfold floorTo at before covers head
      omega
  | saturated =>
      unfold floorTo at before
      omega

theorem described_stuck {h p : Nat} (least : 4 ≤ h) (most : h ≤ 15) (before : p < 17408 * h)
    (after : 17391 * h ≤ p) : described p ≤ 17391 * h := by
  have rung : ∃ start, Rung start (17408 * h) (17 * h) ∧ start ≤ 17391 * h := by
    rcases Nat.eq_or_lt_of_le least with rfl | more
    · exact ⟨_, .first, by omega⟩
    · exact ⟨_, .heads (by omega) (by omega), by omega⟩
  obtain ⟨start, rung, low⟩ := rung
  rw [← (described_edge least most).1, rung.described_eq (by omega) before,
    rung.described_eq (by omega) (by omega)]
  exact floorTo_mono (by omega)

theorem cover_fallback {h : Nat} (least : 4 ≤ h) (most : h ≤ 15) (past : 17391 * h < w)
    (covers : w ≤ floorTo 496 (17408 * h)) : FirstCover described w (17408 * h) := by
  have down := floorTo_le 496 (17408 * h)
  refine ⟨by omega, ?_, fun p after before => ?_⟩
  · rw [(Rung.fallback least most).described_eq (by omega) (by omega)]
    exact covers
  · exact Nat.lt_of_le_of_lt (described_stuck least most before (by omega)) past

theorem cover_heads {h : Nat} (least : 4 ≤ h) (most : h ≤ 15) (past : 17391 * h < w)
    (back : floorTo 496 (17408 * h + 16) < w)
    (covers : w ≤ floorTo (17 * (h + 1)) (17408 * h + 17)) :
    FirstCover described w (17408 * h + 17) := by
  have down := floorTo_le (17 * (h + 1)) (17408 * h + 17)
  refine ⟨by omega, ?_, fun p after before => ?_⟩
  · rw [(Rung.heads (h := h + 1) (by omega) (by omega)).described_eq (by omega) (by omega)]
    exact covers
  · by_cases inside : p < 17408 * h
    · exact Nat.lt_of_le_of_lt (described_stuck least most inside (by omega)) past
    · rw [(Rung.fallback least most).described_eq (by omega) before]
      exact Nat.lt_of_le_of_lt (floorTo_mono (by omega)) back

/-- Those requests are rounded up to a size that is not its own. -/
theorem changed_of_falls (cover : FirstCover described w q) (falls : FallsBack w) :
    described (described q) ≠ described q := by
  have fallback (h : Nat) (least : 4 ≤ h) (most : h ≤ 15) (past : 17391 * h < w)
      (covers : w ≤ 17408 * h / 496 * 496) : q = 17408 * h :=
    cover.unique (cover_fallback least most past covers)
  have heads (h : Nat) (least : 4 ≤ h) (most : h ≤ 15) (past : 17391 * h < w)
      (back : (17408 * h + 16) / 496 * 496 < w)
      (covers : w ≤ (17408 * h + 17) / (17 * (h + 1)) * (17 * (h + 1))) : q = 17408 * h + 17 :=
    cover.unique (cover_heads least most past back covers)
  rcases fallsBack_iff.mp falls with at_ | at_ | at_ | at_ | at_ | at_ | at_ | at_ | at_ | at_ | at_
  · rw [heads 4 (by omega) (by omega) (by omega) (by omega) (by omega)]
    decide
  · rw [heads 5 (by omega) (by omega) (by omega) (by omega) (by omega)]
    decide
  · rw [heads 6 (by omega) (by omega) (by omega) (by omega) (by omega)]
    decide
  · rw [heads 7 (by omega) (by omega) (by omega) (by omega) (by omega)]
    decide
  · rw [heads 8 (by omega) (by omega) (by omega) (by omega) (by omega)]
    decide
  · rw [heads 9 (by omega) (by omega) (by omega) (by omega) (by omega)]
    decide
  · rw [fallback 11 (by omega) (by omega) (by omega) (by omega)]
    decide
  · by_cases first : w ≤ 208816
    · rw [fallback 12 (by omega) (by omega) (by omega) (by omega)]
      decide
    · rw [heads 12 (by omega) (by omega) (by omega) (by omega) (by omega)]
      decide
  · rw [fallback 13 (by omega) (by omega) (by omega) (by omega)]
    decide
  · rw [fallback 14 (by omega) (by omega) (by omega) (by omega)]
    decide
  · by_cases first : w ≤ 260896
    · rw [fallback 15 (by omega) (by omega) (by omega) (by omega)]
      decide
    · rw [heads 15 (by omega) (by omega) (by omega) (by omega) (by omega)]
      decide

theorem described_again_iff (cover : FirstCover described w q) (top : q ≤ 267382800) :
    described (described q) = described q ↔ ¬ FallsBack w := by
  constructor
  · exact fun same falls => changed_of_falls cover falls same
  · exact fun spared => not_not.mp fun changed => spared (falls_of_changed cover top changed)

/-! ## The geometry in a created footer -/

/-- The footers a create writes hold the rounded size and the geometry of that
    size, and the two agree exactly when the request is not one of those. -/
theorem geometry_describes_size {n : Nat} (positive : 0 < n) (aligned : n % 512 = 0)
    (le : n / 512 ≤ 65535 * 16 * 255) :
    ∃ v c h spt, sizeWithExactGeometry n = .ok v ∧ chsForSize v = .ok (c, h, spt) ∧
      (∀ f env path s t r s', Prog.Runs (Faults.handler f) (createFixed env path n) s t
        (.ret (.ok r)) s' → HoldsGeometry (tailSector s'.disk) v c h spt) ∧
      (∀ f env path bs s t r s', bs < 2 ^ 32 → Prog.Runs (Faults.handler f)
        (createDynamic env path n bs) s t (.ret (.ok r)) s' →
        HoldsGeometry (tailSector s'.disk) v c h spt ∧
          HoldsGeometry (s'.disk.read 0 512) v c h spt) ∧
      (c * h * spt * 512 = v ↔ ¬ FallsBack (n / 512)) := by
  obtain ⟨q, cover, -, top⟩ := covered_near le
  have rounded := sizeWithExactGeometry_eq cover top
  have down : described q ≤ q := described_le
  obtain ⟨c, h, spt, geometry, product, cylinders, heads, tracks⟩ :=
    chsForSize_eq (s := described q) (by omega)
  have small : described q * 512 < 2 ^ 64 := by omega
  refine ⟨_, c, h, spt, rounded, geometry, ?_, ?_, ?_⟩
  · intro f env path s t r s' run
    obtain ⟨v, bytes, created⟩ := createFixed_created (by omega) run
    obtain rfl : described q * 512 = v := Outcome.ok.inj (rounded.symm.trans created.rounded)
    have built : buildFooter env (described q * 512) DiskTypeWire.fixed (2 ^ 64 - 1) = .ok bytes :=
      created.built
    rw [created.last]
    exact geometry_buildFooter built small geometry cylinders heads tracks
  · intro f env path bs s t r s' word run
    obtain ⟨v, bytes, same, -, built, tail, mirror⟩ := createDynamic_footers word run
    obtain rfl : described q * 512 = v := Outcome.ok.inj (rounded.symm.trans same)
    rw [tail, mirror]
    have held := geometry_buildFooter built small geometry cylinders heads tracks
    exact ⟨held, held⟩
  · rw [product, ← described_again_iff cover top]
    constructor
    · exact fun same => Nat.eq_of_mul_eq_mul_right (by decide) same
    · exact fun same => by rw [same]

/-- A request of 69565 sectors is rounded up to 69615, whose geometry describes
    69564. -/
theorem request_before_a_fifth_head :
    sizeWithExactGeometry (69565 * 512) = .ok (69615 * 512) ∧ ∃ c h spt,
      chsForSize (69615 * 512) = .ok (c, h, spt) ∧ c * h * spt * 512 ≠ 69615 * 512 := by
  have cover : FirstCover described (69565 * 512 / 512) (17408 * 4 + 17) :=
    cover_heads (by decide) (by decide) (by decide) (by decide) (by decide)
  obtain ⟨c, h, spt, geometry, product, -⟩ := chsForSize_eq (s := 69615) (by decide)
  have value : described (17408 * 4 + 17) = 69615 := by decide
  have again : described 69615 = 69564 := by decide
  have rounded := sizeWithExactGeometry_eq cover (by decide)
  rw [value] at rounded
  exact ⟨rounded, c, h, spt, geometry, by omega⟩

/-- A request of 4 KiB gets a geometry that describes its whole size. -/
theorem small_request_is_described : ∃ v c h spt, sizeWithExactGeometry 4096 = .ok v ∧
    chsForSize v = .ok (c, h, spt) ∧ c * h * spt * 512 = v := by
  obtain ⟨v, c, h, spt, rounded, geometry, -, -, agrees⟩ :=
    geometry_describes_size (n := 4096) (by decide) (by decide) (by decide)
  exact ⟨v, c, h, spt, rounded, geometry, agrees.mpr (by decide)⟩

end FallsBack

end ImgVhd
