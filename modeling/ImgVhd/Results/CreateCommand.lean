import ImgVhd.Cli.Create
import ImgVhd.Results.Crash
import ImgVhd.Results.NoPanic
import ImgVhd.Results.RefusedCreate
import ImgVhd.Session.Fixed
import ImgVhd.Session.Growth

/-! # What `create` leaves at its path

A new disk of zeros, or what was there: nothing half made is left where there was
no file, and a file is replaced when that is asked for only.
-/

namespace ImgVhd.Img

open Foundation

/-! ## The path -/

section Taken

variable {size v bs : Nat} {fixed force existed : Bool} {blockSize : Option Nat} {x x' : Option Image}

/-- A disk the format can hold. -/
def Fits (size : Nat) (fixed : Bool) (bs : Nat) : Prop :=
  ∀ v, sizeWithExactGeometry size = .ok v →
    if fixed then v + 512 < 2 ^ 64 else divCeil v bs ≤ maxCreateBatEntries

end Taken

section Command

variable {L : Handler (Option Image) (Op Unit) Op.Res} {f : Faults} {Lost lossy : Prop} {env : BuildEnv}
  {image : Path} {size bs : Nat} {fixed force existed : Bool} {blockSize : Option Nat} {x x' : Option Image}

/-- An ideal file at the path, which a create truncates. -/
def replaced (s : Image) : (op : Op Unit ⊕ Removal) → Sides Op.Res Removal.Res op × Image
  | .inl (.createFile _) => ((.ok () : Except IoError Unit), ⟨.empty, none, none⟩)
  | .inl op => idealStep s op
  | .inr (.removeFile _) => ((.error ⟨"PermissionDenied", "kept"⟩ : Except IoError Unit), s)

end Command

end ImgVhd.Img
