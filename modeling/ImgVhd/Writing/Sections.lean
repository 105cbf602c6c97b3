import ImgVhd.Writing.Call

/-! # A write is its sections, one after the other

Between the sections of a call there is only arithmetic that cannot go wrong, so a
call of `write_at` is the sequence of its blocks' critical sections, and of
nothing else.
-/

namespace ImgVhd

open Foundation

section Section_

variable {δ : Type}

/-- One block's critical section. -/
def blockSection (c : Core δ) (blockIdx inBlock : Nat) (src : Bytes) : Io δ Unit := do
  let held : Option (List Nat) ← ask c.dev .lockBat
  Code.ensuring (writeBlockLocked c none held blockIdx inBlock src) (.on c.dev .unlockBat)

/-- How many of `n` bytes from `offset` on are in the first block. -/
def Layout.chunk (L : Layout) (offset n : Nat) : Nat := min (L.blockSize - offset % L.blockSize) n

theorem Layout.chunk_pos (L : Layout) (offset : Nat) {n : Nat} (some_ : 0 < n) :
    0 < L.chunk offset n := by
  have inBlock := Nat.mod_lt offset L.blockSize_pos
  unfold Layout.chunk
  omega

/-- The sections of a call. -/
def Layout.sections (L : Layout) (c : Core δ) (offset : Nat) (buf : Bytes) : Io δ Unit :=
  if _some : 0 < buf.length then do
    blockSection c (offset / L.blockSize) (offset % L.blockSize) (buf.take (L.chunk offset buf.length))
    L.sections c (offset + L.chunk offset buf.length) (buf.drop (L.chunk offset buf.length))
  else return ()
termination_by buf.length
decreasing_by
  have positive := L.chunk_pos offset _some
  rw [List.length_drop]
  omega

variable {L : Layout} {c : Core δ} {offset : Nat} {buf : Bytes} {fm : Bool}

theorem Layout.sections_nil : L.sections c offset [] = pure () := by
  rw [Layout.sections, dif_neg (by simp)]

theorem Layout.sections_cons (some_ : 0 < buf.length) :
    L.sections c offset buf =
      blockSection c (offset / L.blockSize) (offset % L.blockSize)
        (buf.take (L.chunk offset buf.length)) >>= fun _ =>
      L.sections c (offset + L.chunk offset buf.length) (buf.drop (L.chunk offset buf.length)) := by
  rw [Layout.sections, dif_pos some_]

theorem Layout.sections_one (some_ : 0 < buf.length)
    (inside : offset % L.blockSize + buf.length ≤ L.blockSize) :
    L.sections c offset buf = blockSection c (offset / L.blockSize) (offset % L.blockSize) buf := by
  have whole : L.chunk offset buf.length = buf.length := by
    unfold Layout.chunk
    omega
  rw [Layout.sections_cons some_, whole, List.take_length, List.drop_length]
  simp only [Layout.sections_nil]
  exact Code.bind_pure _

theorem Layout.chunk_le (L : Layout) (offset n : Nat) :
    offset % L.blockSize + L.chunk offset n ≤ L.blockSize ∧ L.chunk offset n ≤ n := by
  have inBlock := Nat.mod_lt offset L.blockSize_pos
  unfold Layout.chunk
  omega

theorem writeBlock_section {dev : δ} {w : Bool} {t : WriteCursor} {stop : Nat}
    (within : stop ≤ L.virtualSize) (reached : t.cursor + (buf.length - t.written) = stop)
    (behind : t.written ≤ t.cursor) (more : t.cursor < stop) :
    writeBlock (L.core dev w fm) none L.blockSize (L.blockSize - 1) stop buf t =
      blockSection (L.core dev w fm) (t.cursor / L.blockSize) (t.cursor % L.blockSize)
        ((buf.drop t.written).take (L.chunk t.cursor (buf.length - t.written))) >>= fun _ =>
      pure ⟨t.cursor + L.chunk t.cursor (buf.length - t.written),
        t.written + L.chunk t.cursor (buf.length - t.written)⟩ := by
  have small := L.virtualSize_lt
  have inBlock := Nat.mod_lt t.cursor L.blockSize_pos
  have fits : L.chunk t.cursor (buf.length - t.written) ≤ buf.length - t.written := Nat.min_le_right _ _
  unfold writeBlock
  simp only [L.validBlockSize.mask]
  rw [sub64_of_le (by omega), Code.lift_ok_bind, sub64_of_le (by omega), Code.lift_ok_bind,
    show min (L.blockSize - t.cursor % L.blockSize) (stop - t.cursor) =
      L.chunk t.cursor (buf.length - t.written) by unfold Layout.chunk; congr 1; omega,
    sliceOf_of_le (by omega) (by omega), add64_of_lt (by omega), add64_of_lt (by omega),
    Nat.add_sub_cancel_left]
  exact (Code.bind_assoc (ask dev .lockBat) _ _).symm

/-- The write loop is the sections of what is left. -/
theorem loop_sections {dev : δ} {w : Bool} {stop : Nat} (within : stop ≤ L.virtualSize) (fuel : Nat)
    (t : WriteCursor) (reached : t.cursor + (buf.length - t.written) = stop)
    (behind : t.written ≤ t.cursor) (enough : buf.length - t.written ≤ fuel) :
    (Code.whileLoop (fun t => decide (t.cursor < stop))
      (writeBlock (L.core dev w fm) none L.blockSize (L.blockSize - 1) stop buf) fuel t >>= fun _ =>
        (pure () : Io δ Unit)) =
      L.sections (L.core dev w fm) t.cursor (buf.drop t.written) := by
  induction fuel generalizing t with
  | zero =>
      have nothing : buf.drop t.written = [] := List.drop_eq_nil_of_le (by omega)
      have still : Code.whileLoop (fun t => decide (t.cursor < stop))
          (writeBlock (L.core dev w fm) none L.blockSize (L.blockSize - 1) stop buf) 0 t = pure t :=
        Code.whileLoop_stop (decide_eq_false (by omega))
      rw [nothing, Layout.sections_nil, still, Code.pure_bind]
  | succ fuel ih =>
      by_cases more : t.cursor < stop
      · have positive := L.chunk_pos t.cursor (show 0 < buf.length - t.written by omega)
        have fits : L.chunk t.cursor (buf.length - t.written) ≤ buf.length - t.written :=
          Nat.min_le_right _ _
        have turn : Code.whileLoop (fun t => decide (t.cursor < stop))
            (writeBlock (L.core dev w fm) none L.blockSize (L.blockSize - 1) stop buf) (fuel + 1) t =
              writeBlock (L.core dev w fm) none L.blockSize (L.blockSize - 1) stop buf t >>= _ :=
          Code.whileLoop_more (decide_eq_true more)
        rw [turn, writeBlock_section within reached behind more, Code.bind_assoc, Code.bind_assoc,
          Layout.sections_cons (by rw [List.length_drop]; omega), List.length_drop, List.drop_drop]
        refine congrArg _ (funext fun _ => ?_)
        rw [Code.pure_bind]
        exact ih _ (by simp only; omega) (by simp only; omega) (by simp only; omega)
      · have nothing : buf.drop t.written = [] := List.drop_eq_nil_of_le (by omega)
        have still : Code.whileLoop (fun t => decide (t.cursor < stop))
            (writeBlock (L.core dev w fm) none L.blockSize (L.blockSize - 1) stop buf) (fuel + 1) t =
              pure t := Code.whileLoop_stop (decide_eq_false more)
        rw [nothing, Layout.sections_nil, still, Code.pure_bind]

/-- A call in range is its sections. -/
theorem writeAt_sections {dev : δ} (dynamic : L.footer.diskType = .dynamic)
    (within : buf.length = 0 ∨ offset + buf.length ≤ L.virtualSize) :
    (VhdReader.base (L.core dev true fm)).writeAt offset buf =
      L.sections (L.core dev true fm) offset buf := by
  have small := L.virtualSize_lt
  have positive := L.blockSize_pos
  have opened : (L.core dev true fm).writable = true := rfl
  have kind : (L.core dev true fm).footer.diskType = .dynamic := dynamic
  have writable : (L.core dev true fm).writable_ = true := by
    simp [Core.writable_, opened, kind]
  change (L.core dev true fm).writeAt none offset buf = _
  unfold Core.writeAt
  simp only [writable, opened, kind, Bool.not_true, Bool.false_eq_true, if_false]
  by_cases empty : buf.length = 0
  · rw [if_pos empty, List.length_eq_zero_iff.mp empty, Layout.sections_nil]
  have within := within.resolve_left empty
  rw [if_neg empty, checkedAdd_of_lt (by omega), Code.lift_ok_bind,
    if_neg (show ¬ (L.core dev true fm).virtualSize < offset + buf.length from
      Nat.not_lt.mpr within)]
  unfold writeSparse
  change (liftM (okOr _ (some L.header)) >>= _) = _
  simp only [okOr, Code.lift_ok_bind]
  rw [sub64_of_le (show 1 ≤ L.header.blockSize from positive), Code.lift_ok_bind,
    add64_of_lt (by omega), Code.lift_ok_bind]
  exact loop_sections within buf.length ⟨offset, 0⟩ rfl (Nat.zero_le _) (Nat.le_refl _)

theorem writeAt_outside {dev : δ} (dynamic : L.footer.diskType = .dynamic) (some_ : buf.length ≠ 0)
    (outside : L.virtualSize < offset + buf.length) :
    ∃ e, (VhdReader.base (L.core dev true fm)).writeAt offset buf = Code.fail e := by
  have opened : (L.core dev true fm).writable = true := rfl
  have kind : (L.core dev true fm).footer.diskType = .dynamic := dynamic
  have writable : (L.core dev true fm).writable_ = true := by
    simp [Core.writable_, opened, kind]
  change ∃ e, (L.core dev true fm).writeAt none offset buf = Code.fail e
  unfold Core.writeAt
  simp only [writable, opened, kind, Bool.not_true, Bool.false_eq_true, if_false]
  rw [if_neg some_]
  by_cases fits : offset + buf.length < 2 ^ 64
  · rw [checkedAdd_of_lt fits, Code.lift_ok_bind,
      if_pos (show (L.core dev true fm).virtualSize < offset + buf.length from outside)]
    exact ⟨_, rfl⟩
  · unfold checkedAdd
    rw [if_neg fits]
    exact ⟨_, rfl⟩

theorem blockSection_wp {f : Faults} {s : Image} {h : History} {i a : Nat} {src : Bytes} {w : Bool}
    (ready : Ready L s) (index : i < L.entries) (nonempty : 0 < src.length)
    (inside : a + src.length ≤ L.blockSize) :
    Code.wp f.handler.traced (fun _ _ => True) (blockSection (L.core () w fm) i a src)
      (fun _ x => Wrote L s x.1 i a src) (Denied f s i) (s, h) := by
  have carries : ∀ j (lt : j < src.length),
      payload (i * L.blockSize + a) src (i * L.blockSize + a + j) = some src[j] := by
    intro j lt
    rw [payload, if_pos (Nat.le_add_right _ _), Nat.add_sub_cancel_left, List.getElem?_eq_getElem lt]
  refine (Code.wp_bind _ _).mpr ((Code.wp_perform _).mpr ⟨trivial, ?_⟩)
  rintro r x locked
  obtain ⟨rfl, rfl⟩ := Faults.traced_lock locked
  refine Code.wp_ensuring (Code.wp_mono (writeBlockLocked_wp ready index nonempty inside carries)
    (fun _ _ _ => trivial) ?_ ?_)
  · rintro _ x wrote
    refine ⟨trivial, fun r x' unlocked => ?_⟩
    obtain rfl := Faults.traced_unlock unlocked
    exact wrote
  · rintro e x denied
    refine ⟨trivial, fun r x' unlocked => ?_⟩
    obtain rfl := Faults.traced_unlock unlocked
    exact denied

end Section_

end ImgVhd
