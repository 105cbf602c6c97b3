import ImgVhd.Reader.Write

/-! # Calls on a fixed image

The guest area of a fixed image is the front of its file, so a call is one operation
of the device, or none.
-/

namespace ImgVhd

open Foundation

variable {δ : Type} {dev : δ} {wr : Bool} {found : FoundFooter} {off : Nat} {buf : Bytes}

theorem fixedCore_writable (fixed : found.footer.diskType = .fixed) :
    (fixedCore dev true found).writable_ = true := by
  simp [Core.writable_, fixedCore, fixed]

theorem readAt_fixed (fixed : found.footer.diskType = .fixed)
    (small : found.footer.currentSize < 2 ^ 64) (positive : 0 < buf.length)
    (within : off + buf.length ≤ found.footer.currentSize) :
    (VhdReader.base (fixedCore dev wr found)).readAt off buf = devRead dev off buf.length := by
  change (fixedCore dev wr found).readAt none off buf = _
  unfold Core.readAt
  rw [if_neg (by omega), checkedAdd_of_lt (by omega), Code.lift_ok_bind,
    if_neg (show ¬ (fixedCore dev wr found).virtualSize < off + buf.length from Nat.not_lt.mpr within)]
  simp only [show (fixedCore dev wr found).footer.diskType = .fixed from fixed]
  rfl

theorem writeAt_fixed (fixed : found.footer.diskType = .fixed)
    (small : found.footer.currentSize < 2 ^ 64) (positive : 0 < buf.length)
    (within : off + buf.length ≤ found.footer.currentSize) :
    (VhdReader.base (fixedCore dev true found)).writeAt off buf = devWrite dev .payload off buf := by
  have opened : (fixedCore dev true found).writable = true := rfl
  have kind : (fixedCore dev true found).footer.diskType = .fixed := fixed
  change (fixedCore dev true found).writeAt none off buf = _
  unfold Core.writeAt
  simp only [fixedCore_writable fixed, opened, kind, Bool.not_true, Bool.false_eq_true, if_false]
  rw [if_neg (by omega), checkedAdd_of_lt (by omega), Code.lift_ok_bind,
    if_neg (show ¬ (fixedCore dev true found).virtualSize < off + buf.length from
      Nat.not_lt.mpr within)]
  rfl

theorem writeAt_fixed_nil (fixed : found.footer.diskType = .fixed) :
    (VhdReader.base (fixedCore dev true found)).writeAt off [] = .ret (.ok ()) := by
  have opened : (fixedCore dev true found).writable = true := rfl
  change (fixedCore dev true found).writeAt none off [] = _
  unfold Core.writeAt
  simp only [fixedCore_writable fixed, opened, Bool.not_true, Bool.false_eq_true, if_false]
  exact if_pos rfl

end ImgVhd
