import ImgVhd.Reading.Unruly
import ImgVhd.Writing.Block

/-! # Writing over unruly answers

The allocator takes whatever tail it is handed: the checked entry bounds it. Two
writers' tables and bitmaps may disagree, and each still stays in range.
-/

namespace ImgVhd

open Foundation

section Unruly

variable {σ δ : Type} {R : Handler σ (Op δ) Op.Res} {dev : δ} {L : Layout} {wr fm : Bool}

theorem devGrowTo_settles {stop : Nat} : Code.Settles R (devGrowTo dev stop) fun _ => True := by
  refine Code.settles_bind (Code.settles_perform fun _ _ _ _ => trivial) fun size _ => ?_
  split
  · exact Code.settles_pure trivial
  · refine Code.settles_bind (Code.settles_perform fun _ _ _ _ => trivial) fun answer _ => ?_
    cases answer with
    | ok u => exact Code.settles_pure trivial
    | error e => exact Code.settles_fail

theorem writeFooterCopy_settles {off : Nat} {bytes : Bytes} :
    Code.Settles R (writeFooterCopy dev off bytes) fun _ => True := by
  refine Code.settles_bind (Code.settles_perform fun _ _ _ _ => trivial) fun first _ => ?_
  cases first with
  | ok u => exact Code.settles_pure trivial
  | error e =>
      refine Code.settles_bind (Code.settles_perform fun _ _ _ _ => trivial) fun again _ => ?_
      cases again with
      | ok u => exact Code.settles_pure trivial
      | error e' => exact Code.settles_fail

theorem zeroRange_settles {off total : Nat} (low : off < 2 ^ 41) (small : total < 2 ^ 33) :
    Code.Settles R (zeroRange dev off total) fun _ => True := by
  unfold zeroRange zeroChunk
  simp only
  refine Code.settles_bind (P := fun _ => True) (Code.settles_whileLoop (fun written => written ≤ total)
    (fun written => total - written) ?_ ?_ ?_ (Nat.zero_le _) (Nat.le_refl _))
    fun _ _ => Code.settles_pure trivial
  · rintro written - more
    have more := of_decide_eq_true more
    omega
  · rintro written le more
    have more := of_decide_eq_true more
    rw [add64_of_lt (by omega), Code.lift_ok_bind]
    refine Code.settles_bind devWrite_settles fun _ _ => Code.settles_pure ?_
    omega
  · exact fun _ _ _ => trivial

/-- An allocation settles on a place a block can be at. -/
theorem allocateBlockLocked_settles {i : Nat} (index : i < L.entries) :
    Code.Settles R (allocateBlockLocked (L.core dev wr fm) i) fun off => off < 2 ^ 41 := by
  have total := L.blockTotal_lt
  have sum := L.blockTotal_eq
  have table := L.tableEnd_lt
  have stop : L.tableEnd = L.tableOffset + L.entries * 4 := rfl
  unfold allocateBlockLocked
  change Code.Settles R (liftM (okOr _ (some L.header)) >>= _) _
  simp only [okOr, Code.lift_ok_bind]
  change Code.Settles R (liftM (add64 L.bitmapSize L.blockSize : Checked Nat) >>= _) _
  rw [add64_of_lt (by omega), Code.lift_ok_bind, ← sum]
  refine Code.settles_bind (Code.settles_perform fun _ _ _ _ => trivial) fun tail _ => ?_
  cases tail with
  | none => exact Code.settles_fail
  | some off =>
      change Code.Settles R (liftM (batEntryFor off) >>= _) _
      by_cases named : Nameable off
      case neg =>
        obtain ⟨e, refused⟩ := batEntryFor_refuses named
        rw [refused]
        exact Code.settles_fail
      have low := named.lt
      rw [batEntryFor_of_nameable named, Code.lift_ok_bind, add64_of_lt (by omega), Code.lift_ok_bind,
        checkedAdd_of_lt (show off + L.blockTotal + footerSize < 2 ^ 64 by unfold footerSize; omega),
        Code.lift_ok_bind]
      refine Code.settles_bind devGrowTo_settles fun _ _ => ?_
      refine Code.settles_bind writeFooterCopy_settles fun _ _ => ?_
      refine Code.settles_bind devFlush_settles fun _ _ => ?_
      refine Code.settles_bind (zeroRange_settles low (by omega)) fun _ _ => ?_
      refine Code.settles_bind devFlush_settles fun _ _ => ?_
      refine Code.settles_bind (Code.settles_perform fun _ _ _ _ => trivial) fun _ _ => ?_
      change Code.Settles R (_ >>= fun entryOff => liftM (add64 L.tableOffset entryOff : Checked Nat) >>= _) _
      rw [mul64_of_lt (by omega), Code.lift_ok_bind, add64_of_lt (by omega), Code.lift_ok_bind]
      refine Code.settles_bind devWrite_settles fun _ _ => ?_
      refine Code.settles_bind devFlush_settles fun _ _ => ?_
      exact Code.settles_bind (Code.settles_perform fun _ _ _ _ => trivial) fun _ _ =>
        Code.settles_pure low

variable {bits src buf : Bytes} {i a len n off : Nat}

theorem definePartialSector_settles (index : i < L.entries) (known : bits.length = L.bitmapSize)
    (low : off < 2 ^ 41) (inside : a + len ≤ L.blockSize) (sector : n < L.blockSize / 512) :
    Code.Settles R (definePartialSector (L.core dev wr fm) none L.blockSize bits off i a len n)
      fun _ => True := by
  have covers := L.bitmapSize_covers
  have small := L.blockSize_le
  have bitmap := L.bitmapSize_le
  have indexed := L.blockStart_lt index
  unfold definePartialSector
  delta sectorSize
  rw [bitmapGet_eq (by omega), Code.lift_ok_bind]
  split
  · exact Code.settles_pure trivial
  rw [mul64_of_lt (by omega), Code.lift_ok_bind, add64_of_lt (by omega), Code.lift_ok_bind]
  simp only
  split
  · exact Code.settles_pure trivial
  rw [mul64_of_lt (by omega), Code.lift_ok_bind, add64_of_lt (by omega), Code.lift_ok_bind]
  simp only [readBlockUnallocated, List.length_replicate, Code.pure_bind, Layout.core]
  rw [add64_of_lt (by omega), Code.lift_ok_bind, add64_of_lt (by omega), Code.lift_ok_bind]
  have behind : Code.Settles R (if min (a + len - n * 512) 512 < 512 then do
      let after ← liftM (sliceOf (List.replicate 512 0) (min (a + len - n * 512) 512) 512 : Checked Bytes)
      let afterOff ← liftM (add64 (off + L.bitmapSize + n * 512) (min (a + len - n * 512) 512) : Checked Nat)
      devWrite dev WriteRole.fill afterOff after
    else (pure () : Io δ Unit)) fun _ => True := by
    split
    · rw [sliceOf_zeros (Nat.min_le_right _ _) (Nat.le_refl _), Code.lift_ok_bind,
        add64_of_lt (by omega), Code.lift_ok_bind]
      exact devWrite_settles
    · exact Code.settles_pure trivial
  split
  · rw [sliceOf_zeros (Nat.zero_le _) (Nat.min_le_right _ _), Code.lift_ok_bind]
    exact Code.settles_bind devWrite_settles fun _ _ => behind
  · exact behind

theorem definePartialSectors_settles (unruly : Unruly R) (index : i < L.entries) (low : off < 2 ^ 41)
    (nonempty : 0 < len) (inside : a + len ≤ L.blockSize) :
    Code.Settles R (definePartialSectors (L.core dev wr fm) none off i a len) fun _ => True := by
  have small := L.blockSize_le
  have whole := L.blockSize_mod
  unfold definePartialSectors
  delta sectorSize
  change Code.Settles R (liftM (okOr _ (some L.header)) >>= _) _
  simp only [okOr, Code.lift_ok_bind]
  refine Code.settles_bind (devRead_settles unruly) ?_
  rintro bits ⟨known, -⟩
  rw [add64_of_lt (by omega), Code.lift_ok_bind, sub64_of_le (by omega), Code.lift_ok_bind]
  refine Code.settles_bind (definePartialSector_settles index known low inside (by omega)) fun _ _ => ?_
  split
  · exact definePartialSector_settles index known low inside (by omega)
  · exact Code.settles_pure trivial

theorem setBitmapRange_settles (unruly : Unruly R) (nonempty : 0 < len) (inside : a + len ≤ L.blockSize) :
    Code.Settles R (setBitmapRange (L.core dev wr fm) off a len) fun _ => True := by
  have covers := L.bitmapSize_covers
  have small := L.blockSize_le
  have whole := L.blockSize_mod
  unfold setBitmapRange
  delta sectorSize
  refine Code.settles_bind (devRead_settles unruly) ?_
  rintro bits ⟨known, -⟩
  have length : bits.length = L.bitmapSize := known
  rw [add64_of_lt (by omega), Code.lift_ok_bind, sub64_of_le (by omega), Code.lift_ok_bind]
  simp only
  rw [bitmapSetRange_eq nonempty (by omega), Code.lift_ok_bind]
  exact devWrite_settles

/-- The critical section settles, with any table of words in the mutex. -/
theorem writeBlockLocked_settles (unruly : Unruly R) {held : Option (List Nat)}
    (words : ∀ bat, held = some bat → ∀ e ∈ bat, e < 2 ^ 32) (index : i < L.entries)
    (nonempty : 0 < src.length) (inside : a + src.length ≤ L.blockSize) :
    Code.Settles R (writeBlockLocked (L.core dev wr fm) none held i a src) fun _ => True := by
  have small := L.blockSize_le
  have bitmap := L.bitmapSize_le
  have fill (off : Nat) (low : off < 2 ^ 41) : Code.Settles R (do
      definePartialSectors (L.core dev wr fm) none off i a src.length
      let bitmapEnd ← liftM (add64 off L.bitmapSize : Checked Nat)
      let dataOff ← liftM (add64 bitmapEnd a : Checked Nat)
      devWrite dev .payload dataOff src
      setBitmapRange (L.core dev wr fm) off a src.length
      devFlush dev : Io δ Unit) fun _ => True := by
    refine Code.settles_bind (definePartialSectors_settles unruly index low nonempty inside) fun _ _ => ?_
    rw [add64_of_lt (by omega), Code.lift_ok_bind, add64_of_lt (by omega), Code.lift_ok_bind]
    refine Code.settles_bind devWrite_settles fun _ _ => ?_
    exact Code.settles_bind (setBitmapRange_settles unruly nonempty inside) fun _ _ => devFlush_settles
  unfold writeBlockLocked
  cases held with
  | none => exact Code.settles_fail
  | some bat =>
      simp only [okOr, Code.lift_ok_bind]
      split
      · exact Code.settles_fail
      rename_i listed
      have lt : i < bat.length := Nat.not_le.mp listed
      rw [getAt_of_lt lt, Code.lift_ok_bind]
      split
      · exact Code.settles_bind (allocateBlockLocked_settles index) fill
      · have word := words bat rfl _ (List.getElem_mem lt)
        rw [mul64_hostOff word, Code.lift_ok_bind]
        exact fill _ (hostOff_lt word)

theorem writeBlock_settles (unruly : Unruly R) {stop : Nat} {t : WriteCursor} (more : t.cursor < stop)
    (within : stop ≤ L.virtualSize) (fits : t.written + (stop - t.cursor) ≤ buf.length)
    (held : buf.length < 2 ^ 64) :
    Code.Settles R (writeBlock (L.core dev wr fm) none L.blockSize (L.blockSize - 1) stop buf t)
      fun t' => t.cursor < t'.cursor ∧ t'.cursor ≤ stop ∧
        t'.written + t.cursor = t.written + t'.cursor := by
  have small := L.virtualSize_lt
  have inBlock : t.cursor % L.blockSize < L.blockSize := Nat.mod_lt _ L.blockSize_pos
  have index : t.cursor / L.blockSize < L.entries := L.block_lt (by omega)
  unfold writeBlock
  simp only [L.validBlockSize.mask]
  rw [sub64_of_le (by omega), Code.lift_ok_bind, sub64_of_le (by omega), Code.lift_ok_bind]
  generalize chunk : min (L.blockSize - t.cursor % L.blockSize) (stop - t.cursor) = n
  refine Code.settles_bind (Code.settles_perform fun s r s' stepped => unruly s _ r s' stepped)
    fun held' words => ?_
  have sliced : ((buf.drop t.written).take n).length = n := by
    rw [List.length_take, List.length_drop]
    omega
  refine Code.settles_bind (P := fun _ => True) (Code.settles_ensuring ?_) fun _ _ => ?_
  · rw [sliceOf_of_le (by omega) (by omega), Code.lift_ok_bind, Nat.add_sub_cancel_left]
    exact writeBlockLocked_settles unruly words index (by omega) (by omega)
  · rw [add64_of_lt (by omega), Code.lift_ok_bind, add64_of_lt (by omega), Code.lift_ok_bind]
    exact Code.settles_pure ⟨by simp only; omega, by simp only; omega, by simp only; omega⟩

theorem writeSparse_settles (unruly : Unruly R) {offset : Nat}
    (within : offset + buf.length ≤ L.virtualSize) :
    Code.Settles R (writeSparse (L.core dev wr fm) none offset buf) fun _ => True := by
  have small := L.virtualSize_lt
  have positive := L.blockSize_pos
  unfold writeSparse
  change Code.Settles R (liftM (okOr _ (some L.header)) >>= _) _
  simp only [okOr, Code.lift_ok_bind]
  rw [sub64_of_le (show 1 ≤ L.header.blockSize from positive), Code.lift_ok_bind,
    add64_of_lt (by omega), Code.lift_ok_bind]
  refine Code.settles_bind (P := fun _ => True) (Code.settles_whileLoop
    (fun t => offset ≤ t.cursor ∧ t.cursor ≤ offset + buf.length ∧ offset + t.written = t.cursor)
    (fun t => offset + buf.length - t.cursor) ?positive ?turn ?done
    ⟨Nat.le_refl _, Nat.le_add_right _ _, rfl⟩ (by simp only; omega))
    fun _ _ => Code.settles_pure trivial
  case positive =>
    rintro t - more
    have more := of_decide_eq_true more
    omega
  case turn =>
    rintro t ⟨from_, upto, reached⟩ more
    have more := of_decide_eq_true more
    refine Code.settles_mono (writeBlock_settles unruly more within (by omega) (by omega)) ?_
    rintro t' ⟨forward, upto', moved⟩
    exact ⟨⟨by omega, upto', by omega⟩, by omega⟩
  case done => exact fun _ _ _ => trivial

/-- A write settles on any reader an open hands out. -/
theorem Formed.writeAt_settles {r : VhdReader δ} (formed : Formed r) (unruly : Unruly R) (offset : Nat)
    (buf : Bytes) : Code.Settles R (r.writeAt offset buf) fun _ => True := by
  have parts (c : Core δ) (parent : Option (ParentView δ))
      (dynamic : c.footer.diskType = .dynamic → offset + buf.length ≤ c.virtualSize →
        Code.Settles R (writeSparse c parent offset buf) fun _ => True) :
      Code.Settles R (c.writeAt parent offset buf) fun _ => True := by
    unfold Core.writeAt
    simp only
    split
    · exact Code.settles_fail
    split
    · exact Code.settles_fail
    split
    · exact Code.settles_pure trivial
    refine checkedAdd_settles fun stop _ is => ?_
    subst is
    split
    · exact Code.settles_fail
    rename_i within
    cases kind : c.footer.diskType with
    | fixed => exact devWrite_settles
    | dynamic => exact dynamic kind (Nat.not_lt.mp within)
    | differencing => exact Code.settles_fail
  cases formed with
  | fixed kind =>
      refine parts _ _ fun other => ?_
      rw [show (fixedCore _ _ _).footer.diskType = .fixed from kind] at other
      cases other
  | dynamic kind =>
      exact parts _ _ fun _ within => writeSparse_settles unruly within
  | above kind parent =>
      refine parts _ _ fun other => ?_
      rw [show (Layout.core _ _ _ _).footer.diskType = .differencing from kind] at other
      cases other

theorem flushWrites_settles (r : VhdReader δ) : Code.Settles R r.flushWrites fun _ => True := by
  unfold VhdReader.flushWrites
  split
  · exact Code.settles_pure trivial
  · exact devFlush_settles

end Unruly

end ImgVhd
