import ImgVhd.Opening.Unruly
import ImgVhd.Reading.Walk

/-! # Reading over unruly answers

The bitmap may be another one at every look and the table any list of words. What
keeps the sums and the indices of a read in range is the layout alone.
-/

namespace ImgVhd

open Foundation

section Unruly

variable {σ δ : Type} {R : Handler σ (Op δ) Op.Res} {dev : δ} {L : Layout}
  {parent : Option (ParentView δ)}

/-- A parent's reads settle, and fill their buffers. -/
def Answers (R : Handler σ (Op δ) Op.Res) (parent : Option (ParentView δ)) : Prop :=
  ∀ p, parent = some p → ∀ offset buf,
    Code.Settles R (p.readAt offset buf) fun out => out.length = buf.length

theorem readBlockUnallocated_settles (answers : Answers R parent) {virt : Nat} {dst : Bytes}
    (fits : virt + dst.length < 2 ^ 64) :
    Code.Settles R (readBlockUnallocated parent virt dst) fun out => out.length = dst.length := by
  cases parent with
  | none => exact Code.settles_pure List.length_replicate
  | some p =>
      unfold readBlockUnallocated
      simp only
      split
      · exact Code.settles_pure List.length_replicate
      rename_i below
      rw [add64_of_lt fits, Code.lift_ok_bind]
      split
      · rename_i past
        rw [sub64_of_le (by omega), Code.lift_ok_bind, sliceOf_of_le (Nat.zero_le _) (by omega),
          Code.lift_ok_bind]
        refine Code.settles_bind (answers p rfl _ _) fun got length => Code.settles_pure ?_
        rw [List.length_append, length, List.length_replicate, List.length_take, List.length_drop]
        omega
      · exact answers p rfl _ _

theorem deferInto_settles (answers : Answers R parent) {virt written len : Nat} {buf : Bytes}
    (fits : written + len ≤ buf.length) (room : virt + len < 2 ^ 64) :
    Code.Settles R (deferInto parent virt buf written len) fun out => out.length = buf.length := by
  have sliced : ((buf.drop written).take len).length = len := by
    rw [List.length_take, List.length_drop]
    omega
  unfold deferInto
  rw [sliceOf_of_le (by omega) fits, Code.lift_ok_bind, Nat.add_sub_cancel_left]
  refine Code.settles_bind (readBlockUnallocated_settles answers (by omega)) fun bytes length =>
    Code.settles_pure (length_splice ?_)
  omega

theorem readInto_settles (unruly : Unruly R) {off written len : Nat} {buf : Bytes}
    (fits : written + len ≤ buf.length) :
    Code.Settles R (readInto dev off buf written len) fun out => out.length = buf.length := by
  have sliced : ((buf.drop written).take len).length = len := by
    rw [List.length_take, List.length_drop]
    omega
  unfold readInto
  rw [sliceOf_of_le (by omega) fits, Code.lift_ok_bind, Nat.add_sub_cancel_left]
  refine Code.settles_bind (devRead_settles unruly) ?_
  rintro bytes ⟨length, -⟩
  refine Code.settles_pure (length_splice ?_)
  omega

/-- One run moves on, and keeps the buffer's length. -/
theorem readRun_settles (unruly : Unruly R) (answers : Answers R parent) {bits : Bytes}
    {k e stop : Nat} {t : RunCursor} (index : k < L.entries) (word : e < 2 ^ 32)
    (known : bits.length = L.bitmapSize) (more : t.blockCursor < stop) (inside : stop ≤ L.blockSize)
    (fits : t.written + (stop - t.blockCursor) ≤ t.buf.length) (held : t.buf.length < 2 ^ 64) :
    Code.Settles R (readRun dev parent L.blockSize L.bitmapSize bits k (hostOff e) stop t)
      fun t' => t.blockCursor < t'.blockCursor ∧ t'.blockCursor ≤ stop ∧
        t'.written + t.blockCursor = t.written + t'.blockCursor ∧ t'.buf.length = t.buf.length := by
  have covers := L.bitmapSize_covers
  have small := L.blockSize_le
  have bitmap := L.bitmapSize_le
  have whole := L.blockSize_mod
  have low := hostOff_lt word
  have indexed := L.blockStart_lt index
  unfold readRun
  delta sectorSize
  simp only
  rw [bitmapGet_eq (by omega), Code.lift_ok_bind, sub64_of_le (by omega), Code.lift_ok_bind]
  obtain ⟨runEnd, run, from_, high, -⟩ := runEndSector_eq bits
    (present bits (t.blockCursor / 512)) ((stop - 1) / 512) (by omega)
    ((stop - 1) / 512 + 2 - t.blockCursor / 512) (t.blockCursor / 512 + 1) (by omega) (by omega)
  rw [run, Code.lift_ok_bind, mul64_of_lt (by omega), Code.lift_ok_bind, sub64_of_le (by omega),
    Code.lift_ok_bind, sub64_of_le (by omega), Code.lift_ok_bind]
  have forward : t.blockCursor < runEnd * 512 := by omega
  generalize slice : min (runEnd * 512 - t.blockCursor) (stop - t.blockCursor) = n
  have finish (buf' : Bytes) (length : buf'.length = t.buf.length) :
      Code.Settles R (do
        let blockCursor ← liftM (add64 t.blockCursor n : Checked Nat)
        let written ← liftM (add64 t.written n : Checked Nat)
        pure { blockCursor := blockCursor, written := written, buf := buf' } : Io δ RunCursor)
        fun t' => t.blockCursor < t'.blockCursor ∧ t'.blockCursor ≤ stop ∧
          t'.written + t.blockCursor = t.written + t'.blockCursor ∧ t'.buf.length = t.buf.length := by
    rw [add64_of_lt (by omega), Code.lift_ok_bind, add64_of_lt (by omega), Code.lift_ok_bind]
    exact Code.settles_pure ⟨by simp only; omega, by simp only; omega, by simp only; omega, length⟩
  split
  · have bound : t.blockCursor &&& (512 - 1) < 512 := by
      rw [show (512 - 1 : Nat) = 2 ^ 9 - 1 from rfl, Nat.and_two_pow_sub_one_eq_mod]
      omega
    rw [add64_of_lt (by omega), Code.lift_ok_bind, mul64_of_lt (by omega), Code.lift_ok_bind,
      add64_of_lt (by omega), Code.lift_ok_bind, add64_of_lt (by omega), Code.lift_ok_bind]
    exact Code.settles_bind (readInto_settles unruly (by omega)) finish
  · rw [mul64_of_lt (by omega), Code.lift_ok_bind, add64_of_lt (by omega), Code.lift_ok_bind]
    exact Code.settles_bind (deferInto_settles answers (by omega) (by omega)) finish

theorem readRuns_settles (unruly : Unruly R) (answers : Answers R parent) {bits buf : Bytes}
    {k e p n written : Nat} (index : k < L.entries) (word : e < 2 ^ 32)
    (known : bits.length = L.bitmapSize) (inside : p + n ≤ L.blockSize) (fits : written + n ≤ buf.length)
    (held : buf.length < 2 ^ 64) :
    Code.Settles R (Code.whileLoop (fun t => decide (t.blockCursor < p + n))
      (readRun dev parent L.blockSize L.bitmapSize bits k (hostOff e) (p + n)) n
      { blockCursor := p, written, buf })
      fun t => t.written = written + n ∧ t.buf.length = buf.length := by
  refine Code.settles_whileLoop (fun t => p ≤ t.blockCursor ∧ t.blockCursor ≤ p + n ∧
      t.written + p = written + t.blockCursor ∧ t.buf.length = buf.length)
    (fun t => p + n - t.blockCursor) ?_ ?_ ?_ ⟨Nat.le_refl _, Nat.le_add_right _ _, rfl, rfl⟩
    (by simp only; omega)
  · rintro t - more
    have more := of_decide_eq_true more
    omega
  · rintro t ⟨from_, upto, moved, length⟩ more
    have more := of_decide_eq_true more
    refine Code.settles_mono (readRun_settles unruly answers index word known more inside (by omega)
      (by omega)) ?_
    rintro t' ⟨forward, upto', moved', length'⟩
    exact ⟨⟨by omega, upto', by omega, length'.trans length⟩, by omega⟩
  · rintro t ⟨from_, upto, moved, length⟩ stop
    have stop := of_decide_eq_false stop
    exact ⟨by omega, length⟩

/-- One block moves on, wherever the table says it is. -/
theorem readBlock_settles (unruly : Unruly R) (answers : Answers R parent) {wr fm : Bool} {stop : Nat}
    {t : ReadCursor} (more : t.cursor < stop) (within : stop ≤ L.virtualSize)
    (fits : t.written + (stop - t.cursor) ≤ t.buf.length) (held : t.buf.length < 2 ^ 64) :
    Code.Settles R (readBlock (L.core dev wr fm) parent L.blockSize (L.blockSize - 1) stop t)
      fun t' => t.cursor < t'.cursor ∧ t'.cursor ≤ stop ∧
        t'.written + t.cursor = t.written + t'.cursor ∧ t'.buf.length = t.buf.length := by
  have small := L.virtualSize_lt
  have block := L.blockSize_le
  have inBlock : t.cursor % L.blockSize < L.blockSize := Nat.mod_lt _ L.blockSize_pos
  have index : t.cursor / L.blockSize < L.entries := L.block_lt (by omega)
  unfold readBlock
  simp only [L.validBlockSize.mask]
  rw [sub64_of_le (by omega), Code.lift_ok_bind, sub64_of_le (by omega), Code.lift_ok_bind]
  generalize chunk : min (L.blockSize - t.cursor % L.blockSize) (stop - t.cursor) = n
  have positive : 0 < n := by omega
  have upto : t.cursor + n ≤ stop := by omega
  refine Code.settles_bind (Code.settles_perform fun s r s' stepped => unruly s _ r s' stepped)
    fun held' words => ?_
  cases held' with
  | none => exact Code.settles_fail
  | some bat =>
      simp only [okOr, Code.lift_ok_bind]
      split
      · exact Code.settles_fail
      rename_i listed
      rw [getAt_of_lt (by omega), Code.lift_ok_bind]
      have word := words bat rfl _ (List.getElem_mem (l := bat) (by omega : t.cursor / L.blockSize < _))
      split
      · refine Code.settles_bind (deferInto_settles answers (by omega) (by omega)) fun buf' length => ?_
        rw [add64_of_lt (by omega), Code.lift_ok_bind, add64_of_lt (by omega), Code.lift_ok_bind]
        exact Code.settles_pure ⟨by simp only; omega, by simp only; omega, by simp only; omega, length⟩
      · rw [mul64_hostOff word, Code.lift_ok_bind]
        refine Code.settles_bind (devRead_settles unruly) ?_
        rintro bits ⟨known, -⟩
        rw [add64_of_lt (by omega), Code.lift_ok_bind]
        refine Code.settles_bind (readRuns_settles unruly answers index word known (by omega)
          (by omega) (by omega)) ?_
        rintro r ⟨written, length⟩
        rw [add64_of_lt (by omega), Code.lift_ok_bind]
        exact Code.settles_pure ⟨by simp only; omega, by simp only; omega, by simp only; omega, length⟩

theorem readSparse_settles (unruly : Unruly R) (answers : Answers R parent) {wr fm : Bool}
    {offset : Nat} {buf : Bytes} (within : offset + buf.length ≤ L.virtualSize) :
    Code.Settles R (readSparse (L.core dev wr fm) parent offset buf)
      fun out => out.length = buf.length := by
  have small := L.virtualSize_lt
  have positive := L.blockSize_pos
  unfold readSparse
  change Code.Settles R (liftM (okOr _ (some L.header)) >>= _) _
  simp only [okOr, Code.lift_ok_bind]
  rw [sub64_of_le (show 1 ≤ L.header.blockSize from positive), Code.lift_ok_bind,
    add64_of_lt (by omega), Code.lift_ok_bind]
  refine Code.settles_bind (Code.settles_whileLoop
    (fun t : ReadCursor => offset ≤ t.cursor ∧ t.cursor ≤ offset + buf.length ∧
      offset + t.written = t.cursor ∧ t.buf.length = buf.length)
    (fun t => offset + buf.length - t.cursor) ?positive ?turn ?done
    ⟨Nat.le_refl _, Nat.le_add_right _ _, rfl, rfl⟩ (by simp only; omega))
    fun t length => Code.settles_pure length
  case positive =>
    rintro t - more
    have more := of_decide_eq_true more
    omega
  case turn =>
    rintro t ⟨from_, upto, reached, length⟩ more
    have more := of_decide_eq_true more
    refine Code.settles_mono (readBlock_settles unruly answers more within (by omega) (by omega)) ?_
    rintro t' ⟨forward, upto', moved, length'⟩
    exact ⟨⟨by omega, upto', by omega, length'.trans length⟩, by omega⟩
  case done =>
    rintro t ⟨-, -, -, length⟩ -
    exact length

theorem readAt_core_settles (unruly : Unruly R) (answers : Answers R parent) {wr fm : Bool}
    (offset : Nat) (buf : Bytes) :
    Code.Settles R ((L.core dev wr fm).readAt parent offset buf) fun out => out.length = buf.length := by
  unfold Core.readAt
  simp only
  split
  · exact Code.settles_pure rfl
  refine checkedAdd_settles fun stop _ is => ?_
  subst is
  split
  · exact Code.settles_fail
  rename_i within
  have within : offset + buf.length ≤ L.virtualSize := Nat.not_lt.mp within
  have same : (L.core dev wr fm).footer.diskType = L.footer.diskType := rfl
  cases kind : L.footer.diskType with
  | fixed => exact absurd kind L.sparse
  | dynamic =>
      rw [same, kind]
      exact readSparse_settles unruly answers within
  | differencing =>
      rw [same, kind]
      exact readSparse_settles unruly answers within

theorem Formed.readAt_settles {r : VhdReader δ} (formed : Formed r) (unruly : Unruly R) (offset : Nat)
    (buf : Bytes) : Code.Settles R (r.readAt offset buf) fun out => out.length = buf.length := by
  induction formed generalizing offset buf with
  | @fixed dev wr found kind =>
      have same : (fixedCore dev wr found).footer.diskType = .fixed := kind
      change Code.Settles R ((fixedCore dev wr found).readAt none offset buf) _
      unfold Core.readAt
      simp only
      split
      · exact Code.settles_pure rfl
      refine checkedAdd_settles fun stop _ _ => ?_
      split
      · exact Code.settles_fail
      · rw [same]
        exact Code.settles_mono (devRead_settles unruly) fun bytes typed => typed.1
  | dynamic kind => exact readAt_core_settles unruly (by rintro p ⟨⟩) offset buf
  | above kind parent ih =>
      refine readAt_core_settles unruly ?_ offset buf
      rintro _ ⟨⟩ o b
      exact ih o b

end Unruly

end ImgVhd
