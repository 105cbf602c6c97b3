import ImgVhd.Reader.Read

/-! # Writing

`VhdReader::write_at`, the write loop over blocks, and the allocator
(`reader.rs`). One block's write holds the BAT lock throughout, and dropping the
guard releases it on every path.
-/

namespace ImgVhd

open Foundation

/-- The BAT entry that names the block at `hostOff`. -/
def batEntryFor (hostOff : Nat) : Checked Nat :=
  if hostOff % sectorSize ≠ 0 then
    .err (.corrupt "a block was placed at an offset that is not a sector boundary")
  else if 2 ^ 32 ≤ hostOff / sectorSize then
    .err (.corrupt "a block was placed past the highest sector a BAT entry can name")
  else if hostOff / sectorSize = batUnallocated then
    .err (.corrupt "a block was placed at the one sector the BAT reserves to mean \"absent\"")
  else .ok (hostOff / sectorSize)

def zeroChunk : Nat := 1024 * 1024

def noDifferencingWrites : String := "differencing images have no write path yet"

section Write

variable {δ : Type}

/-- Write the footer's new copy, and once more if the first attempt failed; the
    error is the first one. -/
def writeFooterCopy (dev : δ) (off : Nat) (footerBytes : Bytes) : Io δ Unit := do
  let first : Except FsCoreError Unit ← ask dev (.writeAt .footer off footerBytes)
  match first with
  | .ok () => pure ()
  | .error e => do
      let again : Except FsCoreError Unit ← ask dev (.writeAt .footer off footerBytes)
      match again with
      | .ok () => pure ()
      | .error _ => Code.fail (fsCoreToVhdError e)

/-- Zero `blockTotal` bytes from `off` on, a chunk at a time. -/
def zeroRange (dev : δ) (off blockTotal : Nat) : Io δ Unit := do
  let chunk := min zeroChunk blockTotal
  let _ ← Code.whileLoop (fun written => decide (written < blockTotal))
    (fun written => do
      let n := min (blockTotal - written) chunk
      let at_ ← (add64 off written : Checked Nat)
      devWrite dev .zero at_ (List.replicate n 0)
      return written + n)
    blockTotal 0
  return ()

/-- Allocate a block at the tail and point BAT entry `blockIdx` at it. The BAT
    lock is held by the caller. -/
def allocateBlockLocked (c : Core δ) (blockIdx : Nat) : Io δ Nat := do
  let dynHdr ← okOr (Error.corrupt "allocate but no dynamic header") c.dynamic
  let blockTotal ← (add64 c.bitmapSize dynHdr.blockSize : Checked Nat)
  let tail : Option Nat ← ask c.dev .nextAllocOff
  let newBlockOff ← okOr (Error.corrupt "allocate but no tail offset (fixed?)") tail
  -- step 0: the entry is checked, and the footer's new copy lands past the block
  let batValue ← batEntryFor newBlockOff
  let newFooterOff ← (add64 newBlockOff blockTotal : Checked Nat)
  let newEnd ← checkedAdd (Error.corrupt "allocation runs past the end of the device")
    newFooterOff footerSize
  devGrowTo c.dev newEnd
  writeFooterCopy c.dev newFooterOff c.footerBytes
  devFlush c.dev
  -- step 1: the block reads as zeros
  zeroRange c.dev newBlockOff blockTotal
  devFlush c.dev
  -- the tail moves before the entry is issued
  ask c.dev (.setNextAllocOff newFooterOff)
  -- step 2: the entry
  let entryOff ← (mul64 blockIdx 4 : Checked Nat)
  let batEntryOff ← (add64 dynHdr.tableOffset entryOff : Checked Nat)
  devWrite c.dev (.batEntry blockIdx batValue) batEntryOff (toBe 4 batValue)
  devFlush c.dev
  ask c.dev (.setBatEntry blockIdx batValue)
  return newBlockOff

/-- Define the parts of one partly covered sector that the payload will not
    cover, when the bitmap does not publish it yet. -/
def definePartialSector (c : Core δ) (parent : Option (ParentView δ)) (blockSize : Nat)
    (bitmap : Bytes) (blockHostOff blockIdx inBlock len sector : Nat) : Io δ Unit := do
  let present ← bitmapGet bitmap sector
  if present then pure () else do
  let sectorStart ← (mul64 sector sectorSize : Checked Nat)
  let head := min (inBlock - sectorStart) sectorSize
  let stop ← (add64 inBlock len : Checked Nat)
  let coveredEnd := min (stop - sectorStart) sectorSize
  if head = 0 ∧ coveredEnd = sectorSize then pure () else do
  let blockStart ← (mul64 blockIdx blockSize : Checked Nat)
  let virt ← (add64 blockStart sectorStart : Checked Nat)
  let sectorBytes ← readBlockUnallocated parent virt (List.replicate sectorSize 0)
  let dataOff ← (add64 blockHostOff c.bitmapSize : Checked Nat)
  let sectorOff ← (add64 dataOff sectorStart : Checked Nat)
  if 0 < head then do
    let before ← (sliceOf sectorBytes 0 head : Checked Bytes)
    devWrite c.dev .fill sectorOff before
  if coveredEnd < sectorSize then do
    let after ← (sliceOf sectorBytes coveredEnd sectorSize : Checked Bytes)
    let afterOff ← (add64 sectorOff coveredEnd : Checked Nat)
    devWrite c.dev .fill afterOff after

/-- The first and the last sector of a chunk, the only ones it can cover in
    part. -/
def definePartialSectors (c : Core δ) (parent : Option (ParentView δ))
    (blockHostOff blockIdx inBlock len : Nat) : Io δ Unit := do
  let dynHdr ← okOr (Error.corrupt "sparse write but no dynamic header") c.dynamic
  let blockSize := dynHdr.blockSize
  let bitmap ← devRead c.dev blockHostOff c.bitmapSize
  let first := inBlock / sectorSize
  let stop ← (add64 inBlock len : Checked Nat)
  let lastByte ← (sub64 stop 1 : Checked Nat)
  let last := lastByte / sectorSize
  definePartialSector c parent blockSize bitmap blockHostOff blockIdx inBlock len first
  if first ≠ last then
    definePartialSector c parent blockSize bitmap blockHostOff blockIdx inBlock len last

/-- Read, mark and write back the bitmap of one block. -/
def setBitmapRange (c : Core δ) (blockHostOff inBlock len : Nat) : Io δ Unit := do
  let bitmap ← devRead c.dev blockHostOff c.bitmapSize
  let firstSector := inBlock / sectorSize
  let stop ← (add64 inBlock len : Checked Nat)
  let lastByte ← (sub64 stop 1 : Checked Nat)
  let lastSectorInclusive := lastByte / sectorSize
  let marked ← bitmapSetFrom bitmap firstSector (lastSectorInclusive + 1 - firstSector)
  devWrite c.dev .bitmap blockHostOff marked

/-- What one block's write does while it holds the lock. -/
def writeBlockLocked (c : Core δ) (parent : Option (ParentView δ)) (held : Option (List Nat))
    (blockIdx inBlock : Nat) (src : Bytes) : Io δ Unit := do
  let bat ← okOr (Error.corrupt "sparse write but no BAT") held
  if bat.length ≤ blockIdx then Code.fail (.corrupt "block_idx past BAT") else do
  let batEntry ← (getAt bat blockIdx : Checked Nat)
  let blockHostOff ←
    if batEntry = batUnallocated then allocateBlockLocked c blockIdx
    else (mul64 batEntry sectorSize : Checked Nat)
  definePartialSectors c parent blockHostOff blockIdx inBlock src.length
  let bitmapEnd ← (add64 blockHostOff c.bitmapSize : Checked Nat)
  let dataOff ← (add64 bitmapEnd inBlock : Checked Nat)
  devWrite c.dev .payload dataOff src
  setBitmapRange c blockHostOff inBlock src.length
  devFlush c.dev

/-- Where the write loop stands. -/
structure WriteCursor where
  cursor : Nat
  written : Nat

/-- One turn of the write loop: one block. -/
def writeBlock (c : Core δ) (parent : Option (ParentView δ)) (blockSize blockMask stop : Nat)
    (buf : Bytes) (t : WriteCursor) : Io δ WriteCursor := do
  let inBlock := t.cursor &&& blockMask
  let blockIdx := t.cursor / blockSize
  let bytesRemainingInBlock ← (sub64 blockSize inBlock : Checked Nat)
  let left ← (sub64 stop t.cursor : Checked Nat)
  let chunkLen := min bytesRemainingInBlock left
  let held : Option (List Nat) ← ask c.dev .lockBat
  Code.ensuring (do
      let src ← (sliceOf buf t.written (t.written + chunkLen) : Checked Bytes)
      writeBlockLocked c parent held blockIdx inBlock src)
    (.on c.dev .unlockBat)
  let cursor ← (add64 t.cursor chunkLen : Checked Nat)
  let written ← (add64 t.written chunkLen : Checked Nat)
  return { cursor, written }

def writeSparse (c : Core δ) (parent : Option (ParentView δ)) (offset : Nat) (buf : Bytes) :
    Io δ Unit := do
  let dynHdr ← okOr (Error.corrupt "sparse write but no dynamic header") c.dynamic
  let blockSize := dynHdr.blockSize
  let blockMask ← (sub64 blockSize 1 : Checked Nat)
  let stop ← (add64 offset buf.length : Checked Nat)
  let _ ← Code.whileLoop (fun t => decide (t.cursor < stop))
    (writeBlock c parent blockSize blockMask stop buf) buf.length { cursor := offset, written := 0 }
  return ()

/-- Opened read-write, and of a type that has a write path. -/
def Core.writable_ (c : Core δ) : Bool :=
  c.writable && (c.footer.diskType == .fixed || c.footer.diskType == .dynamic)

def Core.writeAt (c : Core δ) (parent : Option (ParentView δ)) (offset : Nat) (buf : Bytes) :
    Io δ Unit :=
  if !c.writable then Code.fail (.readOnly "reader was opened read-only")
  else if !c.writable_ then Code.fail (.readOnly noDifferencingWrites)
  else
  let len := buf.length
  if len = 0 then return () else do
  let stop ← checkedAdd (Error.corrupt "offset+len overflow") offset len
  if c.virtualSize < stop then Code.fail (.outOfBounds offset len c.virtualSize) else
  match c.footer.diskType with
  | .fixed => devWrite c.dev .payload offset buf
  | .dynamic => writeSparse c parent offset buf
  | .differencing => Code.fail (.readOnly noDifferencingWrites)

/-- Write exactly `buf.len()` bytes at virtual `offset`. -/
def VhdReader.writeAt : VhdReader δ → (offset : Nat) → (buf : Bytes) → Io δ Unit
  | .base c => c.writeAt none
  | .above c p => c.writeAt (some { virtualSize := p.virtualSize, readAt := p.readAt })

/-- Sync the device; a read-only reader has nothing to sync. -/
def VhdReader.flushWrites (r : VhdReader δ) : Io δ Unit :=
  if !r.core.writable then return () else devFlush r.core.dev

end Write

end ImgVhd
