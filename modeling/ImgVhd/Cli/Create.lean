import ImgVhd.Cli.Host
import ImgVhd.Reader.Create

/-! # `img.vhd create`

The verb of `cli/vhd/img.rs` that makes a new image and takes it away again where
that fails, over the file system at the image's own path.
-/

namespace ImgVhd

open Foundation

/-- What the verb does to the path besides the library. -/
inductive Removal where
  /-- `std::fs::remove_file` -/
  | removeFile (path : Path)

def Removal.Res : Removal → Type
  | .removeFile _ => Except IoError Unit

/-- `CliError`, with the exit status for a wrong command line. -/
inductive CreateError where
  | usage (message : String)
  | other (e : CliError)
  deriving DecidableEq

def diskTypeName : DiskType → String
  | .fixed => "fixed"
  | .dynamic => "dynamic"
  | .differencing => "differencing"

/-- Code over the devices and the file system of an image, which may be removed. -/
abbrev Creating (δ : Type) := Code CreateError (Op δ ⊕ Removal) (Sides Op.Res Removal.Res)

namespace Img

/-- `DEFAULT_BLOCK_SIZE` -/
def defaultBlockSize : Nat := 2 * 1024 * 1024

/-- The checks of the size and of the block size against the type. -/
def checkSize (size : Nat) (fixed : Bool) (blockSize : Option Nat) : Outcome CreateError Unit :=
  if size = 0 ∨ size % 512 ≠ 0 then
    .err (.usage ("SIZE " ++ toString size ++ " is not a positive multiple of 512"))
  else if fixed ∧ blockSize.isSome then
    .err (.usage "--block-size is for a dynamic image; a fixed one has no blocks")
  else .ok ()

/-- The block size, as a `u32`. -/
def blockSizeOf (blockSize : Option Nat) : Outcome CreateError Nat :=
  let blockSize := blockSize.getD defaultBlockSize
  if blockSize < 2 ^ 32 ∧ blockSize.isPowerOfTwo ∧ 512 ≤ blockSize then .ok blockSize
  else .err (.usage ("--block-size " ++ toString blockSize ++ " is not a power of two from 512 to 2 GiB"))

section Create

variable {δ : Type}

/-- `Path::exists` -/
def pathExists (path : Path) : Creating δ Bool :=
  @Code.perform CreateError (Op δ ⊕ Removal) (Sides Op.Res Removal.Res) (.inl (.pathExists path))

def removeFile (path : Path) : Creating δ (Except IoError Unit) :=
  @Code.perform CreateError (Op δ ⊕ Removal) (Sides Op.Res Removal.Res) (.inr (.removeFile path))

/-- What the report says of the new image. -/
def createText (image : Path) (size : Nat) (r : VhdReader δ) : String :=
  let created := r.virtualSize
  "created " ++ diskTypeName r.diskType ++ " VHD " ++ image.display ++ ": " ++ toString created ++
    " bytes virtual" ++
    if created ≠ size then " (asked for " ++ toString size ++ "; rounded up to a whole CHS geometry)"
    else ""

/-- The library's create, with no file left behind where there was none. -/
def createImage (env : BuildEnv) (image : Path) (size : Nat) (fixed : Bool) (bs : Nat) (existed : Bool) :
    Creating δ (VhdReader δ) :=
  (Code.left (fun e => .other (.vhd image e))
    (if fixed then createFixed env image size else createDynamic env image size bs)).onErr fun e =>
      if existed then Code.fail e else do
        let _ ← removeFile image
        Code.fail e

/-- Make a new, empty image; the reader that is reported on, and the report's text. -/
def create (env : BuildEnv) (image : Path) (size : Nat) (fixed : Bool) (blockSize : Option Nat)
    (force : Bool) : Creating δ (VhdReader δ × String) := do
  checkSize size fixed blockSize
  let bs ← blockSizeOf blockSize
  let existed ← pathExists image
  if existed && !force then
    Code.fail (.other (.failed (image.display ++ " already exists; pass --force to replace it")))
  else do
  let r ← createImage env image size fixed bs existed
  return (r, createText image size r)

end Create

end Img

end ImgVhd
