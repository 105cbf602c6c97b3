import ImgVhd.Reader.Open
import ImgVhd.FooterBuild

/-! # Creating an image

`VhdReader::create_fixed` and `VhdReader::create_dynamic` (`reader.rs`): the
refusals, the file written, and the ordinary read-write open it ends with.
-/

namespace ImgVhd

open Foundation

/-- The largest block table a create makes. -/
def maxCreateBatEntries : Nat := 2 ^ 24

section Create

variable {δ : Type}

/-- `seek(Start(off))` and `write_all`. -/
def fileWrite (file : δ) (off : Nat) (bytes : Bytes) : Io δ Unit := do
  let answer : Except IoError Unit ← ask file (.fileWriteAll off bytes)
  liftedIo answer

def fileSetLen (file : δ) (len : Nat) : Io δ Unit := do
  let answer : Except IoError Unit ← ask file (.fileSetLen len)
  liftedIo answer

def fileSyncData (file : δ) : Io δ Unit := do
  let answer : Except IoError Unit ← ask file .fileSyncData
  liftedIo answer

def createTruncate (path : Path) : Io δ δ := do
  let answer : Except IoError δ ← Code.perform (Op.createFile path)
  liftedIo answer

def createFixed (env : BuildEnv) (path : Path) (virtualSizeBytes : Nat) : Io δ (VhdReader δ) :=
  if virtualSizeBytes = 0 ∨ virtualSizeBytes % sectorSize ≠ 0 then
    Code.fail (.corrupt "create_fixed: virtual_size must be a positive multiple of 512")
  else do
  let file ← createTruncate path
  let virtualSizeBytes ← sizeWithExactGeometry virtualSizeBytes
  let totalLen ← checkedAdd (Error.corrupt "create_fixed: size overflow") virtualSizeBytes footerSize
  fileSetLen file totalLen
  let footerBytes ← buildFixedFooter env virtualSizeBytes
  fileWrite file virtualSizeBytes footerBytes
  fileSyncData file
  VhdReader.openRw path

/-- The BAT's sectors, every entry unallocated, a chunk at a time. -/
def writeEmptyBat (file : δ) (tableOffset tableLen : Nat) : Io δ Unit := do
  let chunk := min (2 ^ 20) tableLen
  let _ ← Code.whileLoop (fun left => decide (0 < left))
    (fun left => do
      let n := min left chunk
      -- the file's position: each chunk follows the one before it
      fileWrite file (tableOffset + (tableLen - left)) (List.replicate n 0xFF)
      return left - n)
    tableLen tableLen
  return ()

/-- What a create of a dynamic image decides before it touches the path. -/
structure DynamicPlan where
  virtualSize : Nat
  entries : Nat
  tableOffset : Nat
  tableLen : Nat
  footerAt : Nat
  footer : Bytes
  header : Bytes

def planDynamic (env : BuildEnv) (virtualSizeBytes blockSize : Nat) : Checked DynamicPlan :=
  if virtualSizeBytes = 0 ∨ virtualSizeBytes % sectorSize ≠ 0 then
    .err (.corrupt "create_dynamic: virtual_size must be a positive multiple of 512")
  else if ¬ blockSize.isPowerOfTwo ∨ blockSize < sectorSize then
    .err (.corrupt "create_dynamic: block_size must be a power of two of at least 512")
  else do
  let virtualSize ← sizeWithExactGeometry virtualSizeBytes
  let entries := divCeil virtualSize blockSize
  if 2 ^ 32 ≤ entries then
    .err (.corrupt "create_dynamic: more blocks than a BAT can index")
  else if maxCreateBatEntries < entries then
    .err (.corrupt "create_dynamic: the block table would exceed 64 MiB; use a larger block size")
  else do
  let headerOffset := sectorSize
  let tableOffset ← add64 headerOffset dynHeaderSize
  let tableBytes ← mul64 entries 4
  let tableLen ← mul64 (divCeil tableBytes sectorSize) sectorSize
  let footerAt ← add64 tableOffset tableLen
  let footer ← buildDynamicFooter env virtualSize headerOffset
  let header := buildDynamicHeader tableOffset entries blockSize
  return { virtualSize, entries, tableOffset, tableLen, footerAt, footer, header }

def createDynamic (env : BuildEnv) (path : Path) (virtualSizeBytes blockSize : Nat) :
    Io δ (VhdReader δ) := do
  let plan ← planDynamic env virtualSizeBytes blockSize
  let file ← createTruncate path
  let total ← (add64 plan.footerAt footerSize : Checked Nat)
  fileSetLen file total
  fileWrite file 0 plan.footer
  fileWrite file sectorSize plan.header
  fileWrite file plan.footerAt plan.footer
  writeEmptyBat file plan.tableOffset plan.tableLen
  fileSyncData file
  VhdReader.openRw path

end Create

end ImgVhd
