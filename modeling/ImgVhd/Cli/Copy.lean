import ImgVhd.Cli.Img
import ImgVhd.Chain.Open
import ImgVhd.Chain.Read

/-! # Copying the guest into a file

A copy leaves runs of zeros out and moves on instead, so what is in the file is
only right once its length is set: `Copied` says that, filled up with zeros, it is
the guest's bytes so far.
-/

namespace ImgVhd.Img

open Foundation

/-- The bytes `[offset, offset + length)` of a disk. -/
def bytesOf (held : Nat → UInt8) (offset length : Nat) : Bytes :=
  (List.range length).map fun i => held (offset + i)

@[simp] theorem length_bytesOf {held : Nat → UInt8} {offset length : Nat} :
    (bytesOf held offset length).length = length := by simp [bytesOf]

theorem getD_bytesOf {held : Nat → UInt8} {offset length i : Nat} (inside : i < length) :
    (bytesOf held offset length).getD i 0 = held (offset + i) := by
  simp [bytesOf, List.getD_eq_getElem?_getD, inside]

/-- `content`, filled up with zeros to `pos`, is the disk's bytes from `offset` on. -/
structure Copied (held : Nat → UInt8) (offset : Nat) (content : Bytes) (pos : Nat) : Prop where
  short : content.length ≤ pos
  bytes : ∀ i < pos, content.getD i 0 = held (offset + i)

namespace Copied

variable {held : Nat → UInt8} {offset pos n : Nat} {content : Bytes}

theorem start : Copied held offset [] 0 := ⟨Nat.le_refl _, fun i below => absurd below (Nat.not_lt_zero i)⟩

theorem skip (copied : Copied held offset content pos)
    (zeros : (bytesOf held (offset + pos) n).all (· == 0) = true) :
    Copied held offset content (pos + n) := by
  refine ⟨Nat.le_trans copied.short (Nat.le_add_right _ _), fun i below => ?_⟩
  by_cases earlier : i < pos
  · exact copied.bytes i earlier
  · have short := copied.short
    have zero := List.all_eq_true.mp zeros (held (offset + i))
      (List.mem_map.mpr ⟨i - pos, List.mem_range.mpr (by omega), by rw [show
        offset + pos + (i - pos) = offset + i by omega]⟩)
    rw [List.getD_eq_default _ _ (by omega), eq_of_beq zero]

theorem write (copied : Copied held offset content pos) :
    Copied held offset (Host.writeFrom content pos (bytesOf held (offset + pos) n)) (pos + n) := by
  have short := copied.short
  have gap : (Host.sized content pos).length = pos := by
    simp [Host.sized, short]
  have rest : content.drop (pos + (bytesOf held (offset + pos) n).length) = [] := by
    apply List.drop_eq_nil_of_le
    omega
  refine ⟨?_, fun i below => ?_⟩
  · rw [Host.writeFrom, rest, List.append_nil, List.length_append, gap, length_bytesOf]
  · rw [Host.writeFrom, rest, List.append_nil]
    by_cases earlier : i < pos
    · rw [List.getD_append _ _ _ _ (by omega), ← copied.bytes i earlier, Host.sized,
        List.take_of_length_le short]
      by_cases inside : i < content.length
      · rw [List.getD_append _ _ _ _ inside]
      · rw [List.getD_append_right _ _ _ _ (by omega), List.getD_replicate _ (by omega),
          List.getD_eq_default _ _ (by omega)]
    · rw [List.getD_append_right _ _ _ _ (by omega), gap, getD_bytesOf (by omega)]
      congr 1
      omega

theorem sized (copied : Copied held offset content pos) :
    Host.sized content pos = bytesOf held offset pos := by
  have short := copied.short
  apply List.ext_getElem
  · simp [Host.sized, short]
  · intro i low high
    have below : i < pos := by simpa using high
    have byte := copied.bytes i below
    rw [← List.getD_eq_getElem _ 0 low, ← List.getD_eq_getElem _ 0 high, getD_bytesOf below, ← byte,
      Host.sized, List.take_of_length_le short]
    by_cases inside : i < content.length
    · rw [List.getD_append _ _ _ _ inside]
    · rw [List.getD_append_right _ _ _ _ (by omega), List.getD_replicate _ (by omega),
        List.getD_eq_default _ _ (by omega)]

end Copied

section Copy

variable {σ δ : Type} {L : Handler σ (Op δ) Op.Res} {lossy Lost : Prop} {w : σ} {h₀ : Host}
  {image : Path} {r : VhdReader δ} {held : Nat → UInt8} {part : Name} {offset stop : Nat}

/-- Every file but `part` is what it was. -/
def Spares (part : Name) (h₀ h : Host) : Prop := ∀ name ≠ part, h.file name = h₀.file name

theorem Spares.put {h : Host} {content : Option Bytes} (spares : Spares part h₀ h) :
    Spares part h₀ (h.put part content) :=
  fun name other => (Host.file_put_ne other).trans (spares name other)

end Copy

end ImgVhd.Img
