import ImgVhd.Dynamic

/-! # Composing a footer

The CHS geometry ladder, the size a created image is rounded to, and the 512
bytes of a new footer (`footer_build.rs`). The clock and the random source are
inputs.
-/

namespace ImgVhd

open Foundation

-- the ladder's constants, `format::chs`
namespace Chs

def maxCylinders : Nat := 65535
def maxHeads : Nat := 16
def maxSectorsPerTrack : Nat := 255
def maxAddressableSectors : Nat := maxCylinders * maxHeads * maxSectorsPerTrack
def ladderCeilingSectors : Nat := maxCylinders * maxHeads * 63
def sptFirst : Nat := 17
def sptSecond : Nat := 31
def sptThird : Nat := 63
def minHeads : Nat := 4
def cylindersPerHeadLimit : Nat := 1024

end Chs

/-- `(cylinders * heads, heads, sectors_per_track)` below the saturation point.
    The head count is narrowed to `u32` as the source narrows it. -/
def chsLadder (totalSectors : Nat) : Checked (Nat × Nat × Nat) := do
  let cth := totalSectors / Chs.sptFirst
  let wide := divCeil cth Chs.cylindersPerHeadLimit % 2 ^ 32
  let heads := if wide < Chs.minHeads then Chs.minHeads else wide
  let limit ← mul64 heads Chs.cylindersPerHeadLimit
  let (spt, heads, cth) :=
    if limit ≤ cth ∨ Chs.maxHeads < heads then
      (Chs.sptSecond, Chs.maxHeads, totalSectors / Chs.sptSecond)
    else (Chs.sptFirst, heads, cth)
  let limit ← mul64 heads Chs.cylindersPerHeadLimit
  let (spt, heads, cth) :=
    if limit ≤ cth then (Chs.sptThird, Chs.maxHeads, totalSectors / Chs.sptThird)
    else (spt, heads, cth)
  return (cth, heads, spt)

/-- `(cylinders, heads, sectors_per_track)` for a disk of `sizeBytes`, rounded
    down; past the ladder's ceiling the geometry saturates. -/
def chsForSize (sizeBytes : Nat) : Checked (Nat × Nat × Nat) := do
  let totalSectors := min (sizeBytes / sectorSize) Chs.maxAddressableSectors
  let (cylindersTimesHeads, heads, sectorsPerTrack) ←
    if Chs.ladderCeilingSectors ≤ totalSectors then
      Outcome.ok (totalSectors / Chs.maxSectorsPerTrack, Chs.maxHeads, Chs.maxSectorsPerTrack)
    else chsLadder totalSectors
  let cylinders := if heads = 0 then 0 else cylindersTimesHeads / heads
  return (min cylinders 65535 % 2 ^ 16, min heads 255 % 2 ^ 8, min sectorsPerTrack 255 % 2 ^ 8)

/-- The sectors the geometry of a `sectors`-sector disk describes. -/
def describedSectors (sectors : Nat) : Checked Nat := do
  let bytes ← mul64 sectors sectorSize
  let (c, h, s) ← chsForSize bytes
  let ch ← mul64 c h
  mul64 ch s

/-- The search of `size_with_exact_geometry` from `sectors` on. -/
def searchCovering (sizeBytes wanted : Nat) : (fuel sectors : Nat) → Checked Nat
  | 0, _ => .outOfFuel
  | fuel + 1, sectors =>
      if sectors ≤ Chs.maxAddressableSectors then do
        let covered ← describedSectors sectors
        if wanted ≤ covered then mul64 covered sectorSize
        else searchCovering sizeBytes wanted fuel (sectors + 1)
      else return sizeBytes

/-- The request rounded up to a size its geometry describes exactly; a request
    past the largest geometry is kept. -/
def sizeWithExactGeometry (sizeBytes : Nat) : Checked Nat :=
  let wanted := sizeBytes / sectorSize
  searchCovering sizeBytes wanted (Chs.maxAddressableSectors - wanted + 2) wanted

/-- What a build takes from its environment: the clock, in seconds since 1970,
    and sixteen random bytes. -/
structure BuildEnv where
  unixSecs : Nat
  random : Bytes
  random_length : random.length = 16

def vhdEpochUnixSecs : Nat := 946684800

/-- Seconds since 2000-01-01, clamped into a `u32`. -/
def vhdTimestampNow (env : BuildEnv) : Nat :=
  if env.unixSecs ≤ vhdEpochUnixSecs then 0
  else
    let v := env.unixSecs - vhdEpochUnixSecs
    if 2 ^ 32 - 1 < v then 2 ^ 32 - 1 else v

def generateUuidV4 (env : BuildEnv) : Bytes :=
  let buf := env.random.set 6 ((env.random.getD 6 0 &&& 0x0F) ||| 0x40)
  buf.set 8 ((buf.getD 8 0 &&& 0x3F) ||| 0x80)

/-- `b"am  "` -/
def creatorApp : Bytes := [0x61, 0x6d, 0x20, 0x20]

def creatorVersion : Nat := 1

def creatorHostOs : Nat := 0x4D616320

/-- `write_u32` -/
def writeU32 (f : Bytes) (off v : Nat) : Bytes := splice f off (toBe 4 v)

/-- `write_u64` -/
def writeU64 (f : Bytes) (off v : Nat) : Bytes := splice f off (toBe 8 v)

/-- The footer before its checksum is stored. -/
def footerFields (env : BuildEnv) (virtualSizeBytes diskType dataOffset : Nat)
    (geometry : Nat × Nat × Nat) : Bytes :=
  let f := List.replicate footerSize 0
  let f := splice f FooterOffsets.cookie.start footerCookie
  let f := writeU32 f FooterOffsets.features 2
  let f := writeU32 f FooterOffsets.fileFormatVersion 0x00010000
  let f := writeU64 f FooterOffsets.dataOffset dataOffset
  let f := writeU32 f FooterOffsets.timestamp (vhdTimestampNow env)
  let f := splice f FooterOffsets.creatorApplication creatorApp
  let f := writeU32 f FooterOffsets.creatorVersion creatorVersion
  let f := writeU32 f FooterOffsets.creatorHostOs creatorHostOs
  let f := writeU64 f FooterOffsets.originalSize virtualSizeBytes
  let f := writeU64 f FooterOffsets.currentSize virtualSizeBytes
  let f := splice f FooterOffsets.diskGeometry
    (toBe 2 geometry.1 ++ toBe 1 geometry.2.1 ++ toBe 1 geometry.2.2)
  let f := writeU32 f FooterOffsets.diskType diskType
  splice f FooterOffsets.uniqueId.start (generateUuidV4 env)

def buildFooter (env : BuildEnv) (virtualSizeBytes diskType dataOffset : Nat) : Checked Bytes := do
  let geometry ← chsForSize virtualSizeBytes
  let f := footerFields env virtualSizeBytes diskType dataOffset geometry
  let cs := footerChecksum f
  return writeU32 f FooterOffsets.checksum.start cs

def buildFixedFooter (env : BuildEnv) (virtualSizeBytes : Nat) : Checked Bytes :=
  buildFooter env virtualSizeBytes DiskTypeWire.fixed (2 ^ 64 - 1)

def buildDynamicFooter (env : BuildEnv) (virtualSizeBytes dynamicHeaderOffset : Nat) :
    Checked Bytes :=
  buildFooter env virtualSizeBytes DiskTypeWire.dynamic dynamicHeaderOffset

end ImgVhd
