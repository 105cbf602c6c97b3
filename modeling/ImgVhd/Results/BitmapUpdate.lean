import ImgVhd.Writing.Allocate

/-! # What a bitmap update marks

`set_bitmap_range` marks the sectors that a range of bytes touches. Its indices
are inside the bitmap because a bitmap has a bit for every sector of its block.
-/

namespace ImgVhd

open Foundation

theorem bitmapGet_weight {bitmap : Bytes} {n : Nat} (h : n / 8 < bitmap.length) :
    bitmapGet bitmap n = .ok (decide ((bitmap.getD (n / 8) 0).toNat / 2 ^ (7 - n % 8) % 2 = 1)) := by
  rw [bitmapGet_eq h, present, bitOf, Nat.testBit_eq_decide_div_mod_eq]

section Update

variable {c : Core Unit} {s : Image} {hostOff a len bs : Nat}

/-- On any device the update ends, and what it writes is the marked bitmap. -/
theorem setBitmapRange_marks {f : Faults} (block : ValidBlockSize bs)
    (sized : c.bitmapSize = bitmapSizeFor bs) (room : hostOff + c.bitmapSize ≤ s.disk.size)
    (nonempty : 0 < len) (inside : a + len ≤ bs) :
    Code.wp f.handler (fun _ _ => True) (setBitmapRange c hostOff a len)
      (fun _ s' => s' = { s with
        disk := s.disk.write hostOff (markRange (s.disk.read hostOff c.bitmapSize) a len) })
      (fun _ _ => f.Faulty) s := by
  have covers := bitmapSizeFor_covers bs
  have top := block.le_top
  have whole := block.mod_sector
  have old : (s.disk.read hostOff c.bitmapSize).length = c.bitmapSize := ByteStore.length_read
  unfold setBitmapRange
  delta sectorSize
  refine (Code.wp_bind _ _).mpr ((Code.wp_bind _ _).mpr ((Code.wp_perform _).mpr
    ⟨trivial, fun r s₁ read => ?_⟩))
  rcases Faults.handler_on read with ideal | ⟨⟨e, refused⟩, fault⟩
  · rw [Image.step_readAt room] at ideal
    cases ideal
    refine (Code.wp_lift _).mpr ?_
    simp only [lifted]
    rw [add64_of_lt (by omega), Code.lift_ok_bind, sub64_of_le (by omega), Code.lift_ok_bind,
      bitmapSetRange_eq nonempty (by rw [old, sized]; omega), Code.lift_ok_bind]
    refine (Code.wp_bind _ _).mpr ((Code.wp_perform _).mpr ⟨trivial, fun r s₂ written => ?_⟩)
    rcases Faults.handler_on written with ideal | ⟨⟨e, refused⟩, fault⟩
    · rw [Image.step_writeAt (by rw [length_markRange, old]; exact room)] at ideal
      cases ideal
      exact rfl
    · subst refused
      exact Faults.faulty_of fault
  · subst refused
    exact Faults.faulty_of fault

end Update

/-- Marking is exact: on any device no index leaves the bitmap, and on one that
    answers, a bit of the block is set afterwards iff it was or the range meets its
    sector, and the padding keeps its bits. -/
theorem bitmap_update_marks_the_range {c : Core Unit} {header : DynamicHeader} {s : Image}
    {hostOff inBlock len : Nat} (block : ValidBlockSize header.blockSize)
    (sized : c.bitmapSize = header.bitmapSizeBytes)
    (room : hostOff + header.bitmapSizeBytes ≤ s.disk.size) (nonempty : 0 < len)
    (inside : inBlock + len ≤ header.blockSize) :
    (∀ f : Faults, Code.wp f.handler (fun _ _ => True) (setBitmapRange c hostOff inBlock len)
      (fun _ _ => True) (fun _ _ => True) s) ∧
    ∃ old bits : Bytes, old = s.disk.read hostOff header.bitmapSizeBytes ∧
      (setBitmapRange c hostOff inBlock len).run idealStep s =
        (.ok (), { s with disk := s.disk.write hostOff bits }) ∧
      bits.length = header.bitmapSizeBytes ∧
      (∀ n < header.blockSize / sectorSize,
        bitmapGet bits n = .ok true ↔ bitmapGet old n = .ok true ∨
          (n * sectorSize < inBlock + len ∧ inBlock < (n + 1) * sectorSize)) ∧
      (∀ n < 8 * header.bitmapSizeBytes, header.blockSize / sectorSize ≤ n →
        bitmapGet bits n = bitmapGet old n) ∧
      ∀ n < 8 * header.bitmapSizeBytes, bitmapGet bits n =
        .ok (decide ((bits.getD (n / 8) 0).toNat / 2 ^ (7 - n % 8) % 2 = 1)) := by
  have covers := bitmapSizeFor_covers header.blockSize
  have whole := block.mod_sector
  simp only [DynamicHeader.bitmapSizeBytes, sectorSize] at *
  have marks (f : Faults) := setBitmapRange_marks (f := f) block sized
    (show hostOff + c.bitmapSize ≤ s.disk.size by rw [sized]; exact room) nonempty inside
  rw [sized] at marks
  have length : (markRange (s.disk.read hostOff (bitmapSizeFor header.blockSize)) inBlock len).length =
      bitmapSizeFor header.blockSize := by rw [length_markRange, ByteStore.length_read]
  have got (n : Nat) (bit : n < 8 * bitmapSizeFor header.blockSize) :
      bitmapGet (markRange (s.disk.read hostOff (bitmapSizeFor header.blockSize)) inBlock len) n =
        .ok (decide (n * 512 < inBlock + len ∧ inBlock < (n + 1) * 512) ||
          present (s.disk.read hostOff (bitmapSizeFor header.blockSize)) n) := by
    rw [bitmapGet_eq (by omega), present_markRange nonempty (by rw [ByteStore.length_read]; omega)]
  have before (n : Nat) (bit : n < 8 * bitmapSizeFor header.blockSize) :
      bitmapGet (s.disk.read hostOff (bitmapSizeFor header.blockSize)) n =
        .ok (present (s.disk.read hostOff (bitmapSizeFor header.blockSize)) n) :=
    bitmapGet_eq (by rw [ByteStore.length_read]; omega)
  refine ⟨fun f => Code.wp_mono (marks f) ?_ ?_ ?_, _, _, rfl, ?_, length, ?_, ?_, ?_⟩
  · intro s op asked
    exact trivial
  · intro out s' done
    exact trivial
  · intro e s' failed
    exact trivial
  · rcases Code.wp_run idealStep (marks .none) (idealStep_allowed .none) with
      ⟨u, value, state⟩ | ⟨e, value, fault⟩
    · exact Prod.ext value state
    · exact (Faults.none_not_faulty fault).elim
  · intro n sector
    rw [got n (by omega), before n (by omega)]
    simp [or_comm]
  · intro n bit padding
    rw [got n bit, before n bit, decide_eq_false (by omega), Bool.false_or]
  · intro n bit
    exact bitmapGet_weight (by rw [length]; omega)

/-- The second of a block's two sectors, marked in an empty bitmap. -/
theorem second_sector_is_marked : ∃ (c : Core Unit) (s : Image) (bits : Bytes),
    (setBitmapRange c 0 600 100).run idealStep s =
      (.ok (), { s with disk := s.disk.write 0 bits }) ∧
    bitmapGet bits 1 = .ok true ∧ bitmapGet bits 0 ≠ .ok true := by
  obtain ⟨-, old, bits, same, run, -, sectors, -, -⟩ := @bitmap_update_marks_the_range
    ⟨(), true, ⟨2, 0x00010000, 512, 1024, 1024, .dynamic, []⟩, none, 512, 1024, [], false⟩
    ⟨0, 1536, 0x00010000, 1, 1024, [], 0, [], []⟩
    ⟨⟨512, fun _ => 0, by decide, fun _ _ => rfl⟩, none, none⟩ 0 600 100
    ⟨⟨10, rfl⟩, by decide, by decide⟩ rfl (by decide) (by decide) (by decide)
  refine ⟨_, _, bits, run, (sectors 1 (by decide)).mpr (Or.inr (by decide)), fun set => ?_⟩
  rcases (sectors 0 (by decide)).mp set with already | meets
  · subst same
    revert already
    decide +kernel
  · revert meets
    decide

end ImgVhd
