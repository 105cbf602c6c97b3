import ImgVhd.Reader.Open
import ImgVhd.Reader.Bitmap

/-! # Reading

`VhdReader::read_at` and the sparse read path (`reader.rs`). A buffer is a value
threaded through: a device read into `&mut buf[a..b]` replaces that slice.
-/

namespace ImgVhd

open Foundation

/-- `while run_end_sector <= last_sector && bitmap_get(..) == bit_set`. -/
def runEndSector (bitmap : Bytes) (bitSet : Bool) (lastSector : Nat) :
    (fuel sector : Nat) → Checked Nat
  | 0, _ => .outOfFuel
  | fuel + 1, sector =>
      if sector ≤ lastSector then do
        let bit ← bitmapGet bitmap sector
        if bit = bitSet then runEndSector bitmap bitSet lastSector fuel (sector + 1)
        else return sector
      else return sector

/-- What a read needs of a parent. -/
structure ParentView (δ : Type) where
  virtualSize : Nat
  readAt : (offset : Nat) → (buf : Bytes) → Io δ Bytes

section Read

variable {δ : Type}

/-- Read into `buf[written..written + len]`. -/
def readInto (dev : δ) (off : Nat) (buf : Bytes) (written len : Nat) : Io δ Bytes := do
  let dst ← (sliceOf buf written (written + len) : Checked Bytes)
  let bytes ← devRead dev off dst.length
  return splice buf written bytes

/-- An unallocated read: from the parent where it reaches, else zeros. -/
def readBlockUnallocated (parent : Option (ParentView δ)) (virt : Nat) (dst : Bytes) :
    Io δ Bytes :=
  match parent with
  | none => return List.replicate dst.length 0
  | some p =>
      let psize := p.virtualSize
      let len := dst.length
      if psize ≤ virt then return List.replicate dst.length 0
      else do
        let stop ← (add64 virt len : Checked Nat)
        if psize < stop then do
          let n ← (sub64 psize virt : Checked Nat)
          let first ← (sliceOf dst 0 n : Checked Bytes)
          let got ← p.readAt virt first
          return got ++ List.replicate (dst.length - n) 0
        else p.readAt virt dst

/-- Fill `buf[written..written + len]` with an unallocated read. -/
def deferInto (parent : Option (ParentView δ)) (virt : Nat) (buf : Bytes) (written len : Nat) :
    Io δ Bytes := do
  let dst ← (sliceOf buf written (written + len) : Checked Bytes)
  let bytes ← readBlockUnallocated parent virt dst
  return splice buf written bytes

/-- Where the walk inside one block stands. -/
structure RunCursor where
  blockCursor : Nat
  written : Nat
  buf : Bytes

/-- One run of sectors that share a bitmap bit. -/
def readRun (dev : δ) (parent : Option (ParentView δ)) (blockSize bitmapSize : Nat)
    (bitmap : Bytes) (blockIdx blockHostOff blockEnd : Nat) (t : RunCursor) : Io δ RunCursor := do
  let sectorInBlock := t.blockCursor / sectorSize
  let inSector := t.blockCursor &&& (sectorSize - 1)
  let bitSet ← bitmapGet bitmap sectorInBlock
  let lastByte ← (sub64 blockEnd 1 : Checked Nat)
  let lastSector := lastByte / sectorSize
  let runEnd ← runEndSector bitmap bitSet lastSector (lastSector + 2 - sectorInBlock)
    (sectorInBlock + 1)
  let runStop ← (mul64 runEnd sectorSize : Checked Nat)
  let inRun ← (sub64 runStop t.blockCursor : Checked Nat)
  let inChunk ← (sub64 blockEnd t.blockCursor : Checked Nat)
  let sliceLen := min inRun inChunk
  let buf ←
    if bitSet then do
      let dataStart ← (add64 blockHostOff bitmapSize : Checked Nat)
      let sectorOff ← (mul64 sectorInBlock sectorSize : Checked Nat)
      let sectorStart ← (add64 dataStart sectorOff : Checked Nat)
      let hostOff ← (add64 sectorStart inSector : Checked Nat)
      readInto dev hostOff t.buf t.written sliceLen
    else do
      let blockStart ← (mul64 blockIdx blockSize : Checked Nat)
      let virt ← (add64 blockStart t.blockCursor : Checked Nat)
      deferInto parent virt t.buf t.written sliceLen
  let blockCursor ← (add64 t.blockCursor sliceLen : Checked Nat)
  let written ← (add64 t.written sliceLen : Checked Nat)
  return { blockCursor, written, buf }

/-- Where the walk over blocks stands. -/
structure ReadCursor where
  cursor : Nat
  written : Nat
  buf : Bytes

/-- One block of a sparse read. -/
def readBlock (c : Core δ) (parent : Option (ParentView δ)) (blockSize blockMask stop : Nat)
    (t : ReadCursor) : Io δ ReadCursor := do
  let inBlock := t.cursor &&& blockMask
  let blockIdx := t.cursor / blockSize
  let bytesRemainingInBlock ← (sub64 blockSize inBlock : Checked Nat)
  let left ← (sub64 stop t.cursor : Checked Nat)
  let chunkLen := min bytesRemainingInBlock left
  let held : Option (List Nat) ← ask c.dev .fetchBat
  let bat ← okOr (Error.corrupt "sparse read but no BAT") held
  if bat.length ≤ blockIdx then Code.fail (.corrupt "block_idx past BAT") else do
  let batEntry ← (getAt bat blockIdx : Checked Nat)
  if batEntry = batUnallocated then do
    let buf ← deferInto parent t.cursor t.buf t.written chunkLen
    let cursor ← (add64 t.cursor chunkLen : Checked Nat)
    let written ← (add64 t.written chunkLen : Checked Nat)
    return { cursor, written, buf }
  else do
    let blockHostOff ← (mul64 batEntry sectorSize : Checked Nat)
    let bitmap ← devRead c.dev blockHostOff c.bitmapSize
    let blockEnd ← (add64 inBlock chunkLen : Checked Nat)
    let runs ← Code.whileLoop (fun t => decide (t.blockCursor < blockEnd))
      (readRun c.dev parent blockSize c.bitmapSize bitmap blockIdx blockHostOff blockEnd)
      chunkLen { blockCursor := inBlock, written := t.written, buf := t.buf }
    let cursor ← (add64 t.cursor chunkLen : Checked Nat)
    return { cursor, written := runs.written, buf := runs.buf }

def readSparse (c : Core δ) (parent : Option (ParentView δ)) (offset : Nat) (buf : Bytes) :
    Io δ Bytes := do
  let dynHdr ← okOr (Error.corrupt "sparse read but no dynamic header") c.dynamic
  let blockSize := dynHdr.blockSize
  let blockMask ← (sub64 blockSize 1 : Checked Nat)
  let stop ← (add64 offset buf.length : Checked Nat)
  let t ← Code.whileLoop (fun t => decide (t.cursor < stop))
    (readBlock c parent blockSize blockMask stop) buf.length
    { cursor := offset, written := 0, buf }
  return t.buf

/-- Fixed images are 1:1: virtual offset is host offset. -/
def readFixed (c : Core δ) (offset : Nat) (buf : Bytes) : Io δ Bytes :=
  devRead c.dev offset buf.length

/-- `read_at` of one reader, given what it needs of its parent. -/
def Core.readAt (c : Core δ) (parent : Option (ParentView δ)) (offset : Nat) (buf : Bytes) :
    Io δ Bytes :=
  let len := buf.length
  if len = 0 then return buf else do
  let stop ← checkedAdd (Error.corrupt "offset+len overflow") offset len
  if c.virtualSize < stop then Code.fail (.outOfBounds offset len c.virtualSize) else
  match c.footer.diskType with
  | .fixed => readFixed c offset buf
  | .dynamic => readSparse c parent offset buf
  | .differencing => readSparse c parent offset buf

/-- Read exactly `buf.len()` bytes at virtual `offset`; answers the filled
    buffer. -/
def VhdReader.readAt : VhdReader δ → (offset : Nat) → (buf : Bytes) → Io δ Bytes
  | .base c => c.readAt none
  | .above c p => c.readAt (some { virtualSize := p.virtualSize, readAt := p.readAt })

end Read

end ImgVhd
