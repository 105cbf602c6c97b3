import ImgVhd.Writing.Allocate

/-! # One block's write

The partial sectors, the payload and the bitmap of one block, and the critical
section they make up with the allocator.
-/

namespace ImgVhd

open Foundation

section Fill

variable {L : Layout} {d₀ d : ByteStore} {off : Nat} {zero : Nat → Prop}

/-- `d₀` with zeros at some places of the block at `off`, its bitmap as it was. -/
structure FilledTo (L : Layout) (d₀ : ByteStore) (off : Nat) (zero : Nat → Prop) (d : ByteStore) :
    Prop where
  size : d.size = d₀.size
  bits : ∀ j < L.bitmapSize, d.byte (off + j) = d₀.byte (off + j)
  zeros : ∀ p, zero p → d.byte (off + L.bitmapSize + p) = 0

theorem FilledTo.refl : FilledTo L d off (fun _ => False) d :=
  ⟨rfl, fun _ _ => rfl, fun _ no => no.elim⟩

theorem FilledTo.mono {zero' : Nat → Prop} (h : FilledTo L d₀ off zero d)
    (smaller : ∀ p, zero' p → zero p) : FilledTo L d₀ off zero' d :=
  ⟨h.size, h.bits, fun p z => h.zeros p (smaller p z)⟩

theorem FilledTo.fill {p len : Nat} (h : FilledTo L d₀ off zero d)
    (inside : off + L.bitmapSize + p + len ≤ d.size) :
    FilledTo L d₀ off (fun q => zero q ∨ (p ≤ q ∧ q < p + len))
      (d.write (off + L.bitmapSize + p) (List.replicate len 0)) := by
  refine ⟨h.size, fun j lt => ?_, fun q z => ?_⟩
  · rw [ByteStore.byte_write_outside (Or.inl (by omega))]
    exact h.bits j lt
  · by_cases here : p ≤ q ∧ q < p + len
    · rw [ByteStore.byte_write_inside (by rw [List.length_replicate]; omega) (by omega)
        (by rw [List.length_replicate]; omega)]
      exact List.getD_replicate _ (by omega)
    · rw [ByteStore.byte_write_outside (by rw [List.length_replicate]; omega)]
      exact h.zeros q (z.resolve_right here)

theorem FilledTo.bitAt {n : Nat} (h : FilledTo L d₀ off zero d) (sector : n < L.blockSize / 512) :
    bitAt d off n = bitAt d₀ off n := by
  have covers := L.bitmapSize_covers
  unfold ImgVhd.bitAt
  rw [h.bits _ (by omega)]

end Fill

section Block

variable {L : Layout} {pay : Nat → Option UInt8} {f : Faults} {s s₀ : Image} {h : History}
  {i e a n : Nat} {w fm : Bool} {src : Bytes}

/-- The room of an allocated block on the device. -/
structure Roomy (L : Layout) (s : Image) (e : Nat) : Prop where
  word : e < 2 ^ 32
  room : hostOff e + L.blockTotal ≤ s.disk.size

/-- The bytes of sector `n` that a write of `[a, a + len)` leaves to fill. -/
def Uncovered (d₀ : ByteStore) (off a len n p : Nat) : Prop :=
  bitAt d₀ off n = false ∧ p / 512 = n ∧ ¬ (a ≤ p ∧ p < a + len)

theorem fillPart_wp {zero : Nat → Prop} {d₀ d : ByteStore} {h' : History} {p len : Nat}
    {Q : Unit → Image × History → Prop} (named : Named L pay s i e) (roomy : Roomy L s e)
    (sector : n < L.blockSize / 512) (absent : bitAt d₀ (hostOff e) n = false)
    (filled : FilledTo L d₀ (hostOff e) zero d) (size : d.size = s.disk.size) (low : n * 512 ≤ p)
    (high : p + len ≤ n * 512 + 512)
    (done : ∀ d h', FilledTo L d₀ (hostOff e) (fun q => zero q ∨ (p ≤ q ∧ q < p + len)) d →
      Q () ({ s with disk := d }, h')) :
    Code.wp f.handler.traced (Permits L pay)
      (devWrite () .fill (hostOff e + L.bitmapSize + p) (List.replicate len 0)) Q (Denied f s₀ i)
      ({ s with disk := d }, h') := by
  have room := roomy.room
  have total := L.blockTotal_eq
  have inside : hostOff e + L.bitmapSize + p + len ≤ d.size := by omega
  refine devWrite_wp (.fill named.disk sector ((filled.bitAt sector).trans absent) low high) ?_
    (done _ _ (filled.fill inside)) fun beyond _ _ => Or.inr beyond
  rw [List.length_replicate]
  exact inside

theorem sliceOf_zeros {start stop n : Nat} (le : start ≤ stop) (top : stop ≤ n) :
    (sliceOf (List.replicate n (0 : UInt8)) start stop : Checked Bytes) =
      .ok (List.replicate (stop - start) 0) := by
  rw [sliceOf_of_le le (by rw [List.length_replicate]; exact top), List.drop_replicate,
    List.take_replicate, Nat.min_eq_left (by omega)]

theorem definePartialSector_wp {len : Nat} {zero : Nat → Prop} {d₀ : ByteStore}
    {Q : Unit → Image × History → Prop} (named : Named L pay s i e) (roomy : Roomy L s e)
    (inside : a + len ≤ L.blockSize) (sector : n < L.blockSize / 512)
    (touched : n * 512 < a + len ∧ a < n * 512 + 512)
    (filled : FilledTo L d₀ (hostOff e) zero s.disk)
    (done : ∀ d h', FilledTo L d₀ (hostOff e)
      (fun p => zero p ∨ Uncovered d₀ (hostOff e) a len n p) d → Q () ({ s with disk := d }, h')) :
    Code.wp f.handler.traced (Permits L pay)
      (definePartialSector (L.core () w fm) none L.blockSize (d₀.read (hostOff e) L.bitmapSize)
        (hostOff e) i a len n) Q (Denied f s₀ i) (s, h) := by
  have covers := L.bitmapSize_covers
  have small := L.blockSize_le
  have bits := L.bitmapSize_le
  have whole := L.blockSize_mod
  have total := L.blockTotal_eq
  have word := hostOff_lt roomy.word
  have room := roomy.room
  have start : n * 512 + 512 ≤ L.blockSize := by omega
  have indexed := L.blockStart_lt named.index
  unfold definePartialSector
  delta sectorSize
  rw [bitmapGet_eq (by rw [ByteStore.length_read]; omega), Code.lift_ok_bind,
    present_read _ (by omega)]
  by_cases there : bitAt d₀ (hostOff e) n = true
  · rw [if_pos there]
    refine done s.disk _ (filled.mono fun p z => z.resolve_right ?_)
    rintro ⟨absent, -, -⟩
    rw [there] at absent
    cases absent
  have absent : bitAt d₀ (hostOff e) n = false := Bool.eq_false_iff.mpr there
  rw [if_neg there, mul64_of_lt (by omega), Code.lift_ok_bind, add64_of_lt (by omega),
    Code.lift_ok_bind]
  by_cases whole : min (a - n * 512) 512 = 0 ∧ min (a + len - n * 512) 512 = 512
  · rw [if_pos whole]
    refine done s.disk _ (filled.mono fun p z => z.resolve_right ?_)
    rintro ⟨-, here, outside⟩
    omega
  rw [if_neg whole, mul64_of_lt (by omega), Code.lift_ok_bind, add64_of_lt (by omega),
    Code.lift_ok_bind]
  simp only [readBlockUnallocated, List.length_replicate, Code.pure_bind, Layout.core]
  rw [add64_of_lt (by omega), Code.lift_ok_bind, add64_of_lt (by omega), Code.lift_ok_bind]
  -- the part behind the payload, from whatever the part before it left
  have behind (d : ByteStore) (h' : History) (before : FilledTo L d₀ (hostOff e)
      (fun p => zero p ∨ (n * 512 ≤ p ∧ p < n * 512 + min (a - n * 512) 512)) d) :
      Code.wp f.handler.traced (Permits L pay)
        (if min (a + len - n * 512) 512 < 512 then do
          let after ← liftM (sliceOf (List.replicate 512 0) (min (a + len - n * 512) 512) 512 :
            Checked Bytes)
          let afterOff ← liftM (add64 (hostOff e + L.bitmapSize + n * 512)
            (min (a + len - n * 512) 512) : Checked Nat)
          devWrite () WriteRole.fill afterOff after
        else pure ()) Q (Denied f s₀ i) ({ s with disk := d }, h') := by
    split
    · rename_i short
      rw [sliceOf_zeros (Nat.min_le_right _ _) (Nat.le_refl _), Code.lift_ok_bind,
        add64_of_lt (by omega), Code.lift_ok_bind, Nat.add_assoc (hostOff e + L.bitmapSize)]
      have top : n * 512 + min (a + len - n * 512) 512 + (512 - min (a + len - n * 512) 512) ≤
          n * 512 + 512 := by
        rw [Nat.add_assoc, Nat.add_sub_cancel' (Nat.min_le_right _ _)]
      refine fillPart_wp named roomy sector absent before (before.size.trans filled.size.symm)
        (Nat.le_add_right _ _) top fun d h' after => done d h' (after.mono fun p z => ?_)
      rcases z with earlier | ⟨-, here, outside⟩
      · exact Or.inl (Or.inl earlier)
      · by_cases low : p < a
        · exact Or.inl (Or.inr (by omega))
        · exact Or.inr (by omega)
    · rename_i full
      refine done _ _ (before.mono fun p z => ?_)
      rcases z with earlier | ⟨-, here, outside⟩
      · exact Or.inl earlier
      · exact Or.inr (by omega)
  split
  · rename_i headed
    rw [sliceOf_zeros (Nat.zero_le _) (Nat.min_le_right _ _), Code.lift_ok_bind,
      Nat.sub_zero (min (a - n * 512) 512)]
    exact (Code.wp_bind _ _).mpr (fillPart_wp named roomy sector absent filled rfl (Nat.le_refl _)
      (by omega) behind)
  · rename_i flush
    exact behind _ _ (filled.mono fun p z => z.resolve_right (by omega))

/-- The bytes of the touched sectors that no payload and no bit accounts for are
    zeros. -/
theorem definePartialSectors_wp {len : Nat} {Q : Unit → Image × History → Prop}
    (named : Named L pay s i e) (roomy : Roomy L s e) (nonempty : 0 < len)
    (inside : a + len ≤ L.blockSize)
    (done : ∀ d h', FilledTo L s.disk (hostOff e) (fun p => a / 512 ≤ p / 512 ∧
      p / 512 ≤ (a + len - 1) / 512 ∧ Uncovered s.disk (hostOff e) a len (p / 512) p) d →
      Q () ({ s with disk := d }, h')) :
    Code.wp f.handler.traced (Permits L pay)
      (definePartialSectors (L.core () w fm) none (hostOff e) i a len) Q (Denied f s₀ i) (s, h) := by
  have small := L.blockSize_le
  have whole := L.blockSize_mod
  have total := L.blockTotal_eq
  have room := roomy.room
  unfold definePartialSectors
  delta sectorSize
  simp only [Layout.core, okOr, Code.lift_ok_bind]
  refine (Code.wp_bind _ _).mpr (devRead_wp (.look trivial) (by omega) ?_
    fun beyond _ _ => Or.inr beyond)
  rw [add64_of_lt (by omega), Code.lift_ok_bind, sub64_of_le (by omega), Code.lift_ok_bind]
  refine (Code.wp_bind _ _).mpr ?_
  refine definePartialSector_wp named roomy inside (by omega) (by omega) .refl
    fun d h' first => ?_
  split
  · rename_i two
    refine definePartialSector_wp named.disk ⟨roomy.word, ?_⟩ inside (by omega) (by omega) first
      fun d' h' both => done _ _ (both.mono ?_)
    · rw [first.size]
      exact room
    · rintro p ⟨low, high, absent, -, outside⟩
      by_cases one : p / 512 = a / 512
      · exact Or.inl (Or.inr ⟨one ▸ absent, one, outside⟩)
      · have other : p / 512 = (a + len - 1) / 512 := by omega
        exact Or.inr ⟨other ▸ absent, other, outside⟩
  · rename_i one
    refine done _ _ (first.mono ?_)
    rintro p ⟨low, high, absent, -, outside⟩
    have same : p / 512 = a / 512 := by omega
    exact Or.inr ⟨same ▸ absent, same, outside⟩

theorem setBitmapRange_wp {len : Nat} {Q : Unit → Image × History → Prop}
    (named : Named L pay s i e) (roomy : Roomy L s e) (nonempty : 0 < len)
    (inside : a + len ≤ L.blockSize)
    (defined : ∀ n, a / 512 ≤ n → n ≤ (a + len - 1) / 512 → bitAt s.disk (hostOff e) n = false →
      ∀ j < 512, s.disk.byte (hostOff e + L.bitmapSize + (n * 512 + j)) = 0 ∨
        pay (i * L.blockSize + (n * 512 + j)) =
          some (s.disk.byte (hostOff e + L.bitmapSize + (n * 512 + j))))
    (done : ∀ d h', d.size = s.disk.size →
      (∀ p, a ≤ p → p < a + len → bitAt d (hostOff e) (p / 512) = true) →
      (∀ p, hostOff e + L.bitmapSize ≤ p → d.byte p = s.disk.byte p) →
      Q () ({ s with disk := d }, h')) :
    Code.wp f.handler.traced (Permits L pay)
      (setBitmapRange (L.core () w fm) (hostOff e) a len) Q (Denied f s₀ i) (s, h) := by
  have covers := L.bitmapSize_covers
  have small := L.blockSize_le
  have whole := L.blockSize_mod
  have total := L.blockTotal_eq
  have room := roomy.room
  have bits : (s.disk.read (hostOff e) L.bitmapSize).length = L.bitmapSize := ByteStore.length_read
  have range : a + len ≤ 512 * (8 * (s.disk.read (hostOff e) L.bitmapSize).length) := by
    rw [bits]
    omega
  unfold setBitmapRange
  delta sectorSize
  simp only [Layout.core]
  refine (Code.wp_bind _ _).mpr (devRead_wp (.look trivial) (by omega) ?_
    fun beyond _ _ => Or.inr beyond)
  rw [add64_of_lt (by omega), Code.lift_ok_bind, sub64_of_le (by omega), Code.lift_ok_bind,
    bitmapSetRange_eq nonempty range, Code.lift_ok_bind]
  -- what the marked bitmap says of a sector
  have marked (n : Nat) (sector : n < L.blockSize / 512) :
      present (markRange (s.disk.read (hostOff e) L.bitmapSize) a len) n =
      (decide (n * 512 < a + len ∧ a < (n + 1) * 512) || bitAt s.disk (hostOff e) n) := by
    rw [present_markRange nonempty range, present_read _ (by omega)]
  have length : (markRange (s.disk.read (hostOff e) L.bitmapSize) a len).length = L.bitmapSize := by
    rw [length_markRange, bits]
  refine devWrite_wp (.bitmap named length ?kept ?defined) (by rw [length]; omega) ?done
    fun beyond _ _ => Or.inr beyond
  case kept =>
    intro n sector there
    rw [marked n sector, there, Bool.or_true]
  case defined =>
    intro n sector there absent
    rw [marked n sector, absent, Bool.or_false] at there
    have between := of_decide_eq_true there
    exact defined n (by omega) (by omega) absent
  case done =>
    refine done _ _ rfl (fun p low high => ?_) fun p above => ?_
    · have back := ByteStore.read_write_same s.disk (hostOff e)
        (markRange (s.disk.read (hostOff e) L.bitmapSize) a len) (by rw [length]; omega)
      rw [length] at back
      rw [← present_read L.bitmapSize (by omega), back, marked _ (by omega),
        decide_eq_true (by omega), Bool.true_or]
    · exact ByteStore.byte_write_outside (Or.inr (by rw [length]; exact above))

/-- A block that is there takes a payload: its bits are set and its bytes are
    the payload's. -/
structure Took (L : Layout) (d : ByteStore) (e a : Nat) (src : Bytes) : Prop where
  bit : ∀ p, a ≤ p → p < a + src.length → bitAt d (hostOff e) (p / 512) = true
  byte : ∀ j (lt : j < src.length), d.byte (hostOff e + L.bitmapSize + (a + j)) = src[j]

theorem fillBlock_wp {Q : Unit → Image × History → Prop} (named : Named L pay s i e)
    (roomy : Roomy L s e) (nonempty : 0 < src.length) (inside : a + src.length ≤ L.blockSize)
    (carries : ∀ j (lt : j < src.length), pay (i * L.blockSize + a + j) = some src[j])
    (done : ∀ d h', d.size = s.disk.size → Took L d e a src → Q () ({ s with disk := d }, h')) :
    Code.wp f.handler.traced (Permits L pay) (do
      definePartialSectors (L.core () w fm) none (hostOff e) i a src.length
      let bitmapEnd ← (add64 (hostOff e) L.bitmapSize : Checked Nat)
      let dataOff ← (add64 bitmapEnd a : Checked Nat)
      devWrite () .payload dataOff src
      setBitmapRange (L.core () w fm) (hostOff e) a src.length
      devFlush ()) Q (Denied f s₀ i) (s, h) := by
  have small := L.blockSize_le
  have bits := L.bitmapSize_le
  have total := L.blockTotal_eq
  have word := hostOff_lt roomy.word
  have room := roomy.room
  refine (Code.wp_bind _ _).mpr (definePartialSectors_wp named roomy nonempty inside ?_)
  intro d₁ h₁ filled
  have size₁ := filled.size
  rw [add64_of_lt (by omega), Code.lift_ok_bind, add64_of_lt (by omega), Code.lift_ok_bind]
  refine (Code.wp_bind _ _).mpr (devWrite_wp (.payload named.disk inside carries)
    (by simp only; omega) ?_ fun beyond _ _ => Or.inr beyond)
  -- the payload went past the bitmap
  have sameBits (n : Nat) (sector : n < L.blockSize / 512) :
      bitAt (d₁.write (hostOff e + L.bitmapSize + a) src) (hostOff e) n =
        bitAt s.disk (hostOff e) n := by
    have covers := L.bitmapSize_covers
    rw [← filled.bitAt sector]
    unfold bitAt
    rw [ByteStore.byte_write_outside (Or.inl (by omega))]
  have wrote (j : Nat) (lt : j < src.length) :
      (d₁.write (hostOff e + L.bitmapSize + a) src).byte (hostOff e + L.bitmapSize + (a + j)) =
        src[j] := by
    rw [ByteStore.byte_write_inside (by omega) (by omega) (by omega),
      List.getD_eq_getElem _ _ (by omega)]
    congr 1
    omega
  refine (Code.wp_bind _ _).mpr (setBitmapRange_wp named.disk ⟨roomy.word, by
    simp only [ByteStore.size_write]; omega⟩ nonempty inside ?_ ?_)
  · intro n low high absent j lt
    rw [sameBits n (by have whole := L.blockSize_mod; omega)] at absent
    by_cases here : a ≤ n * 512 + j ∧ n * 512 + j < a + src.length
    · refine Or.inr ?_
      have carried := carries (n * 512 + j - a) (by omega)
      have stored := wrote (n * 512 + j - a) (by omega)
      rw [Nat.add_sub_cancel' here.1] at stored
      simp only
      rw [stored, ← carried]
      congr 1
      omega
    · refine Or.inl ?_
      have sector : (n * 512 + j) / 512 = n := by omega
      simp only
      rw [ByteStore.byte_write_outside (by omega)]
      exact filled.zeros _ ⟨by omega, by omega, by rw [sector]; exact absent, rfl, here⟩
  · intro d₂ h₂ size₂ bit data
    refine devFlush_wp (.look trivial) (done d₂ _ (size₂.trans size₁) ⟨bit, fun j lt => ?_⟩)
      fun beyond _ _ => Or.inr beyond
    rw [data _ (by omega)]
    exact wrote j lt

end Block

end ImgVhd
