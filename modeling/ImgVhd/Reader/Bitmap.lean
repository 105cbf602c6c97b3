import ImgVhd.Error
import ImgVhd.Foundation.Bytes

/-! # Sector bitmaps

One bit for each sector of a block, most significant bit first: sector 0 is bit
7 of byte 0, sector 8 is bit 7 of byte 1. A bitmap covers every sector of its
block, so an index past it is a bug of the caller and panics.
-/

namespace ImgVhd

open Foundation

/-- Sector `n` is bit `7 - n % 8` of byte `n / 8`; an index past the bitmap
    panics. -/
def bitmapGet (bitmap : Bytes) (sectorInBlock : Nat) : Checked Bool := do
  let byte ← getAt bitmap (sectorInBlock / 8)
  return ((byte.toNat >>> (7 - sectorInBlock % 8)) &&& 1) == 1

/-- Mark a sector present. -/
def bitmapSet (bitmap : Bytes) (sectorInBlock : Nat) : Checked Bytes := do
  let byte ← getAt bitmap (sectorInBlock / 8)
  return bitmap.set (sectorInBlock / 8)
    (UInt8.ofNat (byte.toNat ||| (1 <<< (7 - sectorInBlock % 8))))

/-- `for sector in first..=last`: `count` sectors from `sector` on. -/
def bitmapSetFrom (bitmap : Bytes) (sector : Nat) : (count : Nat) → Checked Bytes
  | 0 => return bitmap
  | count + 1 => do
      let marked ← bitmapSet bitmap sector
      bitmapSetFrom marked (sector + 1) count

/-! ## Bits -/

/-- The bit of sector `n` in the byte that holds it. -/
def bitOf (byte : UInt8) (n : Nat) : Bool := byte.toNat.testBit (7 - n % 8)

/-- The bit of sector `n` in a bitmap. -/
def present (bitmap : Bytes) (n : Nat) : Bool := bitOf (bitmap.getD (n / 8) 0) n

/-- The bitmap with sector `n` marked. -/
def mark (bitmap : Bytes) (n : Nat) : Bytes :=
  bitmap.set (n / 8) (UInt8.ofNat ((bitmap.getD (n / 8) 0).toNat ||| (1 <<< (7 - n % 8))))

@[simp] theorem bitOf_zero (n : Nat) : bitOf 0 n = false := Nat.zero_testBit _

@[simp] theorem length_mark (bitmap : Bytes) (n : Nat) : (mark bitmap n).length = bitmap.length :=
  List.length_set

theorem bitmapGet_eq {bitmap : Bytes} {n : Nat} (h : n / 8 < bitmap.length) :
    bitmapGet bitmap n = .ok (present bitmap n) := by
  have shifted (m k : Nat) : (m >>> k &&& 1 == 1) = m.testBit k := by
    rw [Nat.testBit, Nat.and_comm]
    rcases Nat.mod_two_eq_zero_or_one (m >>> k) with even | odd
    · rw [Nat.one_and_eq_mod_two, even]; rfl
    · rw [Nat.one_and_eq_mod_two, odd]; rfl
  unfold bitmapGet
  rw [getAt_of_lt h, Outcome.ok_bind, Outcome.pure_eq_ok, shifted, present,
    List.getD_eq_getElem _ _ h]
  rfl

theorem bitmapSet_eq {bitmap : Bytes} {n : Nat} (h : n / 8 < bitmap.length) :
    bitmapSet bitmap n = .ok (mark bitmap n) := by
  unfold bitmapSet
  rw [getAt_of_lt h, Outcome.ok_bind, Outcome.pure_eq_ok, mark, List.getD_eq_getElem _ _ h]

theorem present_mark {bitmap : Bytes} {n : Nat} (h : n / 8 < bitmap.length) (m : Nat) :
    present (mark bitmap n) m = (decide (m = n) || present bitmap m) := by
  unfold present mark
  by_cases sameByte : n / 8 = m / 8
  · have small : (bitmap.getD (n / 8) 0).toNat ||| (1 <<< (7 - n % 8)) < 2 ^ 8 := by
      refine Nat.or_lt_two_pow (UInt8.toNat_lt _) ?_
      rw [Nat.one_shiftLeft]
      exact Nat.pow_lt_pow_right (by decide) (by omega)
    rw [← sameByte, List.getD_eq_getElem _ _ (by simpa using h), List.getElem_set_self]
    unfold bitOf
    rw [UInt8.toNat_ofNat', Nat.mod_eq_of_lt small, Nat.testBit_or, Nat.one_shiftLeft,
      Nat.testBit_two_pow, Bool.or_comm]
    congr 1
    apply decide_eq_decide.mpr
    omega
  · have other : m ≠ n := by
      rintro rfl
      exact sameByte rfl
    rw [List.getD_eq_getElem?_getD, List.getElem?_set_ne sameByte, ← List.getD_eq_getElem?_getD,
      decide_eq_false other, Bool.false_or]

/-- The bitmap with `count` sectors from `first` on marked. -/
def markFrom (bitmap : Bytes) (first : Nat) : (count : Nat) → Bytes
  | 0 => bitmap
  | count + 1 => markFrom (mark bitmap first) (first + 1) count

@[simp] theorem length_markFrom (bitmap : Bytes) (first count : Nat) :
    (markFrom bitmap first count).length = bitmap.length := by
  induction count generalizing bitmap first with
  | zero => rfl
  | succ count ih => rw [markFrom, ih, length_mark]

theorem bitmapSetFrom_eq {bitmap : Bytes} {first count : Nat}
    (h : first + count ≤ 8 * bitmap.length) :
    bitmapSetFrom bitmap first count = .ok (markFrom bitmap first count) := by
  induction count generalizing bitmap first with
  | zero => rfl
  | succ count ih =>
      unfold bitmapSetFrom
      rw [bitmapSet_eq (by omega), Outcome.ok_bind, ih (by rw [length_mark]; omega)]
      rfl

theorem present_markFrom {bitmap : Bytes} {first count : Nat}
    (h : first + count ≤ 8 * bitmap.length) (m : Nat) :
    present (markFrom bitmap first count) m =
      (decide (first ≤ m ∧ m < first + count) || present bitmap m) := by
  induction count generalizing bitmap first with
  | zero =>
      rw [markFrom, decide_eq_false (by omega), Bool.false_or]
  | succ count ih =>
      rw [markFrom, ih (by rw [length_mark]; omega), present_mark (by omega), ← Bool.or_assoc,
        ← Bool.decide_or]
      congr 1
      apply decide_eq_decide.mpr
      omega

section Range

variable {a len : Nat}

/-- The bitmap with the sectors of `[a, a + len)` marked. -/
def markRange (bitmap : Bytes) (a len : Nat) : Bytes :=
  markFrom bitmap (a / 512) ((a + len - 1) / 512 + 1 - a / 512)

@[simp] theorem length_markRange (bitmap : Bytes) :
    (markRange bitmap a len).length = bitmap.length := length_markFrom _ _ _

theorem bitmapSetRange_eq {bitmap : Bytes} (nonempty : 0 < len)
    (covers : a + len ≤ 512 * (8 * bitmap.length)) :
    bitmapSetFrom bitmap (a / 512) ((a + len - 1) / 512 + 1 - a / 512) =
      .ok (markRange bitmap a len) := bitmapSetFrom_eq (by omega)

theorem present_markRange {bitmap : Bytes} (nonempty : 0 < len)
    (covers : a + len ≤ 512 * (8 * bitmap.length)) (n : Nat) :
    present (markRange bitmap a len) n =
      (decide (n * 512 < a + len ∧ a < (n + 1) * 512) || present bitmap n) := by
  rw [markRange, present_markFrom (by omega)]
  congr 1
  apply decide_eq_decide.mpr
  omega

end Range

end ImgVhd
