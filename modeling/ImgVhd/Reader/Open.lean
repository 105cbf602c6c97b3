import ImgVhd.Device
import Mathlib.Data.List.Sort

/-! # Opening an image

`VhdReader::open_inner` and what it calls (`reader.rs`): the footer and its
mirror, the dynamic header, the BAT and the walk that decides whether its
entries can be believed, the parent-locator payloads, and the parent chain.

The reader's two mutexes live behind its handle, so the record holds only what
never changes after the open.
-/

namespace ImgVhd

open Foundation

/-- A `VhdReader` without its parent. -/
structure Core (δ : Type) where
  dev : δ
  writable : Bool
  footer : Footer
  /-- `none` for a fixed disk. -/
  dynamic : Option DynamicHeader
  bitmapSize : Nat
  virtualSize : Nat
  footerBytes : Bytes
  footerFromMirror : Bool

/-- A reader, or a reader over its differencing parent. -/
inductive VhdReader (δ : Type) where
  | base (core : Core δ)
  | above (core : Core δ) (parent : VhdReader δ)

namespace VhdReader

variable {δ : Type}

def core : VhdReader δ → Core δ
  | .base c => c
  | .above c _ => c

def parent : VhdReader δ → Option (VhdReader δ)
  | .base _ => none
  | .above _ p => some p

def virtualSize (r : VhdReader δ) : Nat := r.core.virtualSize

def diskType (r : VhdReader δ) : DiskType := r.core.footer.diskType

def footerRecoveredFromMirror (r : VhdReader δ) : Bool := r.core.footerFromMirror

end VhdReader

/-- Maximum differencing-chain depth. -/
def maxParentDepth : Nat := 16

/-! ## The footer -/

/-- `Err` as a value to look at; a panic is no `Result`. -/
def attempt {α : Type} : Outcome Error α → Checked (Except Error α)
  | .ok a => .ok (.ok a)
  | .err e => .ok (.error e)
  | .panic => .panic
  | .outOfFuel => .outOfFuel

structure FoundFooter where
  footer : Footer
  bytes : Bytes
  fromMirror : Bool
  /-- The last sector still starts with the cookie: a footer damaged in place. -/
  tailHasCookie : Bool

section Open

variable {δ : Type}

/-- The trailing footer, or the mirror at offset 0 of a sparse image whose tail
    does not parse. -/
def readFooter (dev : δ) (devSize : Nat) : Io δ FoundFooter := do
  let footerBytes ← devRead dev (devSize - footerSize) footerSize
  let tailHasCookie := decide (footerBytes.take footerCookie.length = footerCookie)
  match ← attempt (Footer.parse footerBytes) with
  | .ok footer => pure ⟨footer, footerBytes, false, tailHasCookie⟩
  | .error tailErr =>
      if devSize < 2 * footerSize then Code.fail tailErr else do
      let answer : Except FsCoreError Bytes ← ask dev (.readAt 0 footerSize)
      match answer with
      | .error _ => Code.fail tailErr
      | .ok mirrorBytes =>
          match ← attempt (Footer.parse mirrorBytes) with
          | .error _ => Code.fail tailErr
          | .ok mirror =>
              if mirror.diskType = .dynamic ∨ mirror.diskType = .differencing then
                pure ⟨mirror, mirrorBytes, true, tailHasCookie⟩
              else Code.fail tailErr

/-! ## The BAT walk -/

/-- The allocated entries, each checked to name a block inside the data area. -/
def collectBlocks (dataStart dataEnd blockTotal : Nat) : List Nat → Outcome Error (List Nat)
  | [] => .ok []
  | entry :: rest =>
      if entry = batUnallocated then collectBlocks dataStart dataEnd blockTotal rest else do
      let blockOff ← mul64 entry sectorSize
      if blockOff < dataStart then
        .err (.corrupt "BAT entry names a block inside the image's own metadata")
      else do
      let blockEnd ← checkedAdd (.corrupt "BAT entry's block extent overflows") blockOff blockTotal
      if dataEnd < blockEnd then
        .err (.corrupt "BAT entry names a block running into the trailing footer or past it")
      else do
      let more ← collectBlocks dataStart dataEnd blockTotal rest
      return entry :: more

/-- `windows(2).any(..)`: two neighbours less than a block apart. -/
def neighboursOverlap (blockTotal : Nat) : List Nat → Outcome Error Bool
  | a :: b :: rest => do
      let next ← mul64 b sectorSize
      let off ← mul64 a sectorSize
      let reach ← add64 off blockTotal
      if next < reach then return true else neighboursOverlap blockTotal (b :: rest)
  | _ => return false

/-- The walk over the table: the allocated entries in ascending order, or why
    the table cannot be believed. -/
def walkBat (bat : List Nat) (dataStart dataEnd blockTotal : Nat) : Outcome Error (List Nat) := do
  let found ← collectBlocks dataStart dataEnd blockTotal bat
  let allocated := found.insertionSort (· ≤ ·)
  if ← neighboursOverlap blockTotal allocated then
    .err (.corrupt "two BAT entries name overlapping blocks")
  else return allocated

/-- What the open of a sparse image computes before it looks for a parent. -/
structure SparseTables where
  header : DynamicHeader
  bat : List Nat
  bitmapSize : Nat
  blockTotal : Nat
  tableEnd : Nat
  dataStart : Nat
  dataEnd : Nat
  allocated : List Nat
  nextAlloc : Nat

/-- The tail of a recovered image goes after its last block. -/
def recoveredTail (fromMirror : Bool) (nextAlloc blockTotal : Nat) (allocated : List Nat) :
    Outcome Error Nat :=
  match allocated.getLast? with
  | some last =>
      if fromMirror then do
        let off ← mul64 last sectorSize
        let stop ← add64 off blockTotal
        return max nextAlloc stop
      else return nextAlloc
  | none => return nextAlloc

/-- From the table to what bounds it: the metadata's end, the data area, the
    walk and the tail. -/
def sparseTables (devSize : Nat) (found : FoundFooter) (header : DynamicHeader) (tableEnd : Nat)
    (bat : List Nat) : Checked SparseTables := do
  let bitmapSize := header.bitmapSizeBytes
  let headerEnd ← checkedAdd (.corrupt "dynamic header extent overflows") found.footer.dataOffset
    dynHeaderSize
  let metadataEnd := max footerSize (max headerEnd tableEnd)
  let dataStart ← mul64 (divCeil metadataEnd sectorSize) sectorSize
  let blockTotal ← checkedAdd (.corrupt "block extent overflows") bitmapSize header.blockSize
  -- `saturating_sub`
  let nextAlloc := devSize - footerSize
  let dataEnd := if found.fromMirror && !found.tailHasCookie then devSize else nextAlloc
  let allocated ← walkBat bat dataStart dataEnd blockTotal
  let nextAlloc ← recoveredTail found.fromMirror nextAlloc blockTotal allocated
  return { header, bat, bitmapSize, blockTotal, tableEnd, dataStart, dataEnd, allocated, nextAlloc }

def openSparse (dev : δ) (devSize : Nat) (found : FoundFooter) : Io δ SparseTables :=
  let footer := found.footer
  let virtualSize := footer.currentSize
  if footer.dataOffset = 2 ^ 64 - 1 then
    Code.fail (.corrupt "dynamic/differencing footer has data_offset = 0xFFFF...")
  else if devSize % sectorSize ≠ 0 then
    Code.fail (.corrupt "sparse image length is not a multiple of 512, so its blocks cannot sit on sector boundaries")
  else do
  let hdrBytes ← devRead dev footer.dataOffset dynHeaderSize
  let header ← DynamicHeader.parse hdrBytes
  let batEntries := header.maxTableEntries
  let batBytesLen ← checkedMul (Error.corrupt "BAT size overflows") batEntries 4
  let blockSize := header.blockSize
  if blockSize = 0 then Code.fail (.corrupt "dynamic header declares block_size 0") else do
  let blocksNeeded := divCeil virtualSize blockSize
  if batEntries < blocksNeeded then
    Code.fail (.corrupt "BAT is too small to describe the declared virtual size")
  else do
  let tableEnd ← checkedAdd (Error.corrupt "BAT extent overflows") header.tableOffset batBytesLen
  if devSize < tableEnd then
    Code.fail (.corrupt "BAT extends past the end of the image")
  else do
  let batBytes ← devRead dev header.tableOffset batBytesLen
  sparseTables devSize found header tableEnd (decodeBat batBytes)

/-! ## The parent-locator payloads -/

/-- One locator's payload against the metadata and the blocks. `partition_point`
    on the sorted entries is the length of the part that starts before `stop`. -/
def checkLocator (footer : Footer) (t : SparseTables) (dynHeaderEnd : Nat) (loc : ParentLocator) :
    Outcome Error Unit :=
  if loc.platformCode = [0, 0, 0, 0] ∨ loc.platformDataLength = 0 then .ok () else do
  let start := loc.platformDataOffset
  let stop ← checkedAdd (.corrupt "parent locator extent overflows") start loc.platformDataLength
  let overlaps (low high : Nat) : Bool := decide (start < high) && decide (low < stop)
  if t.dataEnd < stop ∨ overlaps 0 footerSize ∨ overlaps footer.dataOffset dynHeaderEnd ∨
      overlaps t.header.tableOffset t.tableEnd then
    .err (.corrupt "parent locator payload overlaps the image's metadata")
  else do
  let beforeEnd := (t.allocated.takeWhile fun e => decide (e * sectorSize < stop)).length
  if beforeEnd = 0 then .ok () else do
  let e ← getAt t.allocated (beforeEnd - 1)
  let off ← mul64 e sectorSize
  let reach ← add64 off t.blockTotal
  if start < reach then .err (.corrupt "parent locator payload overlaps a data block")
  else .ok ()

def checkEach (footer : Footer) (t : SparseTables) (dynHeaderEnd : Nat) :
    List ParentLocator → Outcome Error Unit
  | [] => .ok ()
  | loc :: rest => do
      checkLocator footer t dynHeaderEnd loc
      checkEach footer t dynHeaderEnd rest

@[irreducible] def checkLocators (footer : Footer) (t : SparseTables) : Outcome Error Unit := do
  let dynHeaderEnd ← add64 footer.dataOffset dynHeaderSize
  checkEach footer t dynHeaderEnd t.header.parentLocators

/-! ## The parent -/

/-- The parent's file name, or why this image's is not one. -/
def parentFileName (parentName : List Char) : Outcome Error (List Char) :=
  if parentName = [] then .err (.parentNotFound "differencing VHD has empty parent name")
  else if '\x00' ∈ parentName then
    .err (.parentNotFound "the parent name has a NUL in it, so it is not a file name")
  else if '/' ∈ parentName ∨ '\\' ∈ parentName ∨ ':' ∈ parentName then
    .err (.parentNotFound ("the parent name '" ++ String.ofList parentName ++
      "' is a path rather than a file name, and a parent is looked for beside the child and nowhere else"))
  else if parentName = ['.'] ∨ parentName = ['.', '.'] then
    .err (.parentNotFound ("the parent name '" ++ String.ofList parentName ++
      "' names a directory rather than a file"))
  else .ok parentName

/-- `<child_dir>/<parent_name>`; a child named without a directory has its
    siblings in the working directory. -/
def parentCandidate (childPath : Path) (parentName : List Char) : Path :=
  match childPath.parent with
  | some dir => if dir ≠ [] then dir.join parentName else Path.ofString parentName
  | none => Path.ofString parentName

def Component.display : Component → String
  | .rootDir => ""
  | .curDir => "."
  | .parentDir => ".."
  | .normal name => String.ofList name

/-- `Path::display`, of a path spelled as its components are. -/
def Path.display (p : Path) : String := String.intercalate "/" (p.map Component.display)

/-- Bytes as lower-case hex. -/
def hex16 (id : Bytes) : String :=
  String.ofList (id.flatMap fun b => [Nat.digitChar (b.toNat / 16), Nat.digitChar (b.toNat % 16)])

/-- The parent a child found is the one it named. -/
def checkParentIdentity (parent : VhdReader δ) (header : DynamicHeader) :
    Outcome Error (VhdReader δ) :=
  if parent.core.footer.uniqueId ≠ header.parentUniqueId then
    .err (.parentNotFound ("found a parent whose unique_id is " ++
      hex16 parent.core.footer.uniqueId ++ " where the child names " ++ hex16 header.parentUniqueId))
  else .ok parent

/-- `open_parent`, with `openInner` for the parent's own open. -/
def openParent (openInner : δ → Option Path → Io δ (VhdReader δ)) (childPath : Path)
    (header : DynamicHeader) : Io δ (VhdReader δ) := do
  let parentName ← parentFileName header.parentName
  let candidate := parentCandidate childPath parentName
  let exists_ : Bool ← Code.perform (Op.pathExists candidate)
  if exists_ then do
    let answer : Except FsCoreError δ ← Code.perform (Op.openFile candidate false)
    let dev ← lifted answer
    let parent ← openInner dev (some candidate)
    checkParentIdentity parent header
  else Code.fail (.parentNotFound ("no '" ++ String.ofList parentName ++
    "' beside the child, at '" ++ candidate.display ++ "'"))

/-! ## The open -/

def sparseCore (dev : δ) (writable : Bool) (found : FoundFooter) (t : SparseTables) : Core δ where
  dev := dev
  writable := writable
  footer := found.footer
  dynamic := some t.header
  bitmapSize := t.bitmapSize
  virtualSize := found.footer.currentSize
  footerBytes := found.bytes
  footerFromMirror := found.fromMirror

def fixedCore (dev : δ) (writable : Bool) (found : FoundFooter) : Core δ where
  dev := dev
  writable := writable
  footer := found.footer
  dynamic := none
  bitmapSize := 0
  virtualSize := found.footer.currentSize
  footerBytes := found.bytes
  footerFromMirror := found.fromMirror

def openInner : (depthRemaining : Nat) → (writable : Bool) → (dev : δ) →
    (owningPath : Option Path) → Io δ (VhdReader δ)
  | 0, _, _, _ => Code.fail .parentTooDeep
  | depth + 1, writable, dev, owningPath => do
      let devSize ← sizeBytes dev
      if devSize < footerSize then Code.fail (.corrupt "device shorter than 512 bytes") else do
      let found ← readFooter dev devSize
      match found.footer.diskType with
      | .fixed => do
          ask dev (.share none none)
          return .base (fixedCore dev writable found)
      | .dynamic => do
          let t ← openSparse dev devSize found
          ask dev (.share (some t.bat) (some t.nextAlloc))
          return .base (sparseCore dev writable found t)
      | .differencing => do
          let t ← openSparse dev devSize found
          checkLocators found.footer t
          let childPath ← okOr (Error.unsupported
            "differencing VHD opened on a raw device; parent resolution needs a path") owningPath
          let parent ← openParent (openInner depth false) childPath t.header
          ask dev (.share (some t.bat) (some t.nextAlloc))
          return .above (sparseCore dev writable found t) parent

def VhdReader.open_ (path : Path) : Io δ (VhdReader δ) := do
  let answer : Except FsCoreError δ ← Code.perform (Op.openFile path false)
  let dev ← lifted answer
  openInner maxParentDepth false dev (some path)

def VhdReader.openRw (path : Path) : Io δ (VhdReader δ) := do
  let answer : Except FsCoreError δ ← Code.perform (Op.openFile path true)
  let dev ← lifted answer
  openInner maxParentDepth true dev (some path)

def VhdReader.openOnDevice (dev : δ) : Io δ (VhdReader δ) :=
  openInner maxParentDepth false dev none

def VhdReader.openRwOnDevice (dev : δ) : Io δ (VhdReader δ) := do
  let writable : Bool ← ask dev .isWritable
  if !writable then Code.fail (.readOnly "backing device is not writable")
  else openInner maxParentDepth true dev none

end Open

end ImgVhd
