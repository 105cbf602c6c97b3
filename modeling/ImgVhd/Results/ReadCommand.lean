import ImgVhd.Cli.Copy
import ImgVhd.Creating.Created

/-! # `img.vhd read -o FILE`

FILE is the guest's range or what it was: nothing is done to it before the rename.
-/

namespace ImgVhd.Img

open Foundation

section Range

variable {size o n : Nat} {offset length : Option Nat}

end Range

section Read

variable {f : Faults} {w w' : World} {h h' : Host} {image : Path} {offset length : Option Nat}
  {dest : Name} {lossy : Prop}

end Read

end ImgVhd.Img
