import ImgVhd.Dynamic
import ImgVhd.Foundation.Prog

/-! # What the reader calls

The interface of the crate to the outside: the `BlockDevice` under a reader, the
two mutexes a reader shares between threads, and the file system a path-based
open walks. Code is written over handles `δ`, as the source is written over
`Arc<dyn BlockDevice>`; each handle stands for one opened image.

Writes carry a `WriteRole`, a label saying which step of the source issues them.
No meaning of the interface looks at it.
-/

namespace ImgVhd

open Foundation

/-! ## Paths -/

inductive Component where
  | rootDir
  | curDir
  | parentDir
  | normal (name : List Char)
  deriving DecidableEq, Repr

abbrev Path := List Component

namespace Path

/-- `Path::new(s)`, by its components: repeated separators and inner `.` are
    dropped. -/
def ofString (s : List Char) : Path :=
  let segments := s.splitOn '/'
  let body := segments.filterMap fun seg =>
    if seg = [] ∨ seg = ['.'] then none
    else if seg = ['.', '.'] then some .parentDir
    else some (.normal seg)
  if s.head? = some '/' then .rootDir :: body
  else if segments.head? = some ['.'] then .curDir :: body
  else body

/-- `Path::parent` -/
def parent (p : Path) : Option Path :=
  match p.getLast? with
  | none => none
  | some .rootDir => none
  | some _ => some p.dropLast

/-- `Path::join`: an absolute name replaces the base. -/
def join (dir : Path) (name : List Char) : Path :=
  if name.head? = some '/' then ofString name
  else dir ++ (ofString name).filter fun c => decide (c ≠ .curDir)

end Path

/-! ## Operations -/

/-- The step of the write path a device write belongs to. -/
inductive WriteRole where
  | footer
  | zero
  | batEntry (index value : Nat)
  | fill
  | payload
  | bitmap
  deriving DecidableEq, Repr

/-- Operations on one opened image. -/
inductive ImageOp where
  | sizeBytes
  | isWritable
  | readAt (off len : Nat)
  | writeAt (role : WriteRole) (off : Nat) (bytes : Bytes)
  | flush
  | setLen (len : Nat)
  /-- `self.bat.lock()`, held until `unlockBat`; answers what the mutex holds. -/
  | lockBat
  | unlockBat
  /-- `self.bat.lock()` taken and released around one look at the table. -/
  | fetchBat
  | setBatEntry (index value : Nat)
  | nextAllocOff
  | setNextAllocOff (off : Nat)
  /-- The two `Mutex::new` of a fresh reader. -/
  | share (bat : Option (List Nat)) (nextAllocOff : Option Nat)
  /-- `std::fs::File` calls on a file being created. -/
  | fileSetLen (len : Nat)
  | fileWriteAll (off : Nat) (bytes : Bytes)
  | fileSyncData

def ImageOp.Res : ImageOp → Type
  | .sizeBytes => Nat
  | .isWritable => Bool
  | .readAt _ _ => Except FsCoreError Bytes
  | .writeAt _ _ _ => Except FsCoreError Unit
  | .flush => Except FsCoreError Unit
  | .setLen _ => Except FsCoreError Unit
  | .lockBat => Option (List Nat)
  | .unlockBat => Unit
  | .fetchBat => Option (List Nat)
  | .setBatEntry _ _ => Unit
  | .nextAllocOff => Option Nat
  | .setNextAllocOff _ => Unit
  | .share _ _ => Unit
  | .fileSetLen _ => Except IoError Unit
  | .fileWriteAll _ _ => Except IoError Unit
  | .fileSyncData => Except IoError Unit

inductive Op (δ : Type) where
  | on (dev : δ) (op : ImageOp)
  | pathExists (path : Path)
  /-- `FileDevice::open` or `FileDevice::open_rw` -/
  | openFile (path : Path) (writable : Bool)
  /-- `OpenOptions::new().read(true).write(true).create(true).truncate(true).open(path)` -/
  | createFile (path : Path)

def Op.Res {δ : Type} : Op δ → Type
  | .on _ op => op.Res
  | .pathExists _ => Bool
  | .openFile _ _ => Except FsCoreError δ
  | .createFile _ => Except IoError δ

abbrev Io (δ : Type) := Code Error (Op δ) Op.Res

section Adapters

variable {δ α : Type}

/-- The `?` after `map_err(fs_core_to_vhd_error)`. -/
def lifted : Except FsCoreError α → Outcome Error α
  | .ok a => .ok a
  | .error e => .err (fsCoreToVhdError e)

/-- The `?` on an `io::Result`. -/
def liftedIo : Except IoError α → Outcome Error α
  | .ok a => .ok a
  | .error e => .err (.io e)

/-- Issue one operation on the image behind `dev`. -/
def ask (dev : δ) (op : ImageOp) : Io δ op.Res := Code.perform (Op.on dev op)

def sizeBytes (dev : δ) : Io δ Nat := ask dev .sizeBytes

def devRead (dev : δ) (off len : Nat) : Io δ Bytes := do
  let answer : Except FsCoreError Bytes ← ask dev (.readAt off len)
  lifted answer

def devWrite (dev : δ) (role : WriteRole) (off : Nat) (bytes : Bytes) : Io δ Unit := do
  let answer : Except FsCoreError Unit ← ask dev (.writeAt role off bytes)
  lifted answer

def devFlush (dev : δ) : Io δ Unit := do
  let answer : Except FsCoreError Unit ← ask dev .flush
  lifted answer

/-- Only ever grows: a device already long enough is left alone. -/
def devGrowTo (dev : δ) (stop : Nat) : Io δ Unit := do
  let size ← sizeBytes dev
  if stop ≤ size then pure () else do
    let answer : Except FsCoreError Unit ← ask dev (.setLen stop)
    lifted answer

end Adapters

/-! ## One image -/

/-- One image: the device's bytes and what the two mutexes hold. -/
structure Image where
  disk : ByteStore
  bat : Option (List Nat)
  nextAllocOff : Option Nat

namespace Image

/-- An ideal device: accesses inside the length are exact, others are refused,
    and growing fills with zeros. -/
def step (s : Image) : (op : ImageOp) → op.Res × Image
  | .sizeBytes => (s.disk.size, s)
  | .isWritable => (true, s)
  | .readAt off len =>
      (if off + len ≤ s.disk.size then .ok (s.disk.read off len)
        else .error (.outOfBounds off len s.disk.size), s)
  | .writeAt _ off bytes =>
      if off + bytes.length ≤ s.disk.size then
        (.ok (), { s with disk := s.disk.write off bytes })
      else (.error (.outOfBounds off bytes.length s.disk.size), s)
  | .flush => (.ok (), s)
  | .setLen len =>
      if fits : len < 2 ^ 64 then (.ok (), { s with disk := s.disk.resize len fits })
      else (.error (.custom "length past 64 bits"), s)
  | .lockBat => (s.bat, s)
  | .unlockBat => ((), s)
  | .fetchBat => (s.bat, s)
  | .setBatEntry i v => ((), { s with bat := s.bat.map fun bat => bat.set i v })
  | .nextAllocOff => (s.nextAllocOff, s)
  | .setNextAllocOff off => ((), { s with nextAllocOff := some off })
  | .share bat nextAllocOff => ((), { s with bat, nextAllocOff })
  | .fileSetLen len =>
      if fits : len < 2 ^ 64 then (.ok (), { s with disk := s.disk.resize len fits })
      else (.error ⟨"InvalidInput", "length past 64 bits"⟩, s)
  | .fileWriteAll off bytes =>
      -- a file write past the end extends the file
      if fits : off + bytes.length < 2 ^ 64 then
        if off + bytes.length ≤ s.disk.size then
          (.ok (), { s with disk := s.disk.write off bytes })
        else (.ok (), { s with disk := (s.disk.resize (off + bytes.length) fits).write off bytes })
      else (.error ⟨"FileTooLarge", "file past 64 bits"⟩, s)
  | .fileSyncData => (.ok (), s)

variable {s : Image} {off : Nat}

theorem step_readAt {len : Nat} (inside : off + len ≤ s.disk.size) :
    s.step (.readAt off len) = (.ok (s.disk.read off len), s) :=
  congrArg (fun r : Except FsCoreError Bytes => (r, s)) (if_pos inside)

theorem step_writeAt {role : WriteRole} {bytes : Bytes} (inside : off + bytes.length ≤ s.disk.size) :
    s.step (.writeAt role off bytes) = (.ok (), { s with disk := s.disk.write off bytes }) :=
  if_pos inside

theorem step_setLen {len : Nat} (fits : len < 2 ^ 64) :
    s.step (.setLen len) = (.ok (), { s with disk := s.disk.resize len fits }) :=
  dif_pos fits

end Image

/-- The operations whose answer can be a refusal, and the refusals. -/
def ImageOp.Refused : (op : ImageOp) → op.Res → Prop
  | .readAt _ _, r => ∃ e, r = (.error e : Except FsCoreError Bytes)
  | .writeAt _ _ _, r => ∃ e, r = (.error e : Except FsCoreError Unit)
  | .flush, r => ∃ e, r = (.error e : Except FsCoreError Unit)
  | .setLen _, r => ∃ e, r = (.error e : Except FsCoreError Unit)
  | .fileSetLen _, r => ∃ e, r = (.error e : Except IoError Unit)
  | .fileWriteAll _ _, r => ∃ e, r = (.error e : Except IoError Unit)
  | .fileSyncData, r => ∃ e, r = (.error e : Except IoError Unit)
  | _, _ => False

/-- A refusal by a device. -/
def Op.Refused {δ : Type} : (op : Op δ) → op.Res → Prop
  | .on _ op, r => op.Refused r
  | _, _ => False

/-- Which operations may fail: `lost` ones without taking effect, `landed` ones
    although they took effect. -/
structure Faults where
  lost : ImageOp → Prop
  landed : ImageOp → Prop

namespace Faults

/-- An ideal device. -/
def none : Faults := ⟨fun _ => False, fun _ => False⟩

/-- Any operation may fail, with or without effect. -/
def any : Faults := ⟨fun _ => True, fun _ => True⟩

/-- Any operation may fail, never with an effect. -/
def clean : Faults := ⟨fun _ => True, fun _ => False⟩

/-- Only growth may be refused, and then changes nothing. -/
def growth : Faults := ⟨fun op => ∃ len, op = .setLen len, fun _ => False⟩

/-- The meaning of the interface for one file with one device over it. -/
def handler (f : Faults) : Handler Image (Op Unit) Op.Res
  | s, .on _ op, r, s' =>
      (r, s') = s.step op ∨ (f.lost op ∧ op.Refused r ∧ s' = s) ∨
        (f.landed op ∧ op.Refused r ∧ s' = (s.step op).2)
  | s, .pathExists _, r, s' => r = true ∧ s' = s
  | s, .openFile _ _, r, s' => r = (.ok () : Except FsCoreError Unit) ∧ s' = s
  | s, .createFile _, r, s' =>
      r = (.ok () : Except IoError Unit) ∧ s' = { s with disk := .empty }

end Faults

/-- The functional form of `Faults.none.handler`. -/
def idealStep (s : Image) : (op : Op Unit) → op.Res × Image
  | .on _ op => s.step op
  | .pathExists _ => (true, s)
  | .openFile _ _ => (.ok (), s)
  | .createFile _ => (.ok (), { s with disk := .empty })

theorem idealStep_allowed (f : Faults) (s : Image) (op : Op Unit) :
    f.handler s op (idealStep s op).1 (idealStep s op).2 := by
  cases op with
  | on dev op => exact Or.inl rfl
  | pathExists path => exact ⟨rfl, rfl⟩
  | openFile path writable => exact ⟨rfl, rfl⟩
  | createFile path => exact ⟨rfl, rfl⟩

theorem idealStep_only {s s' : Image} {op : Op Unit} {r : op.Res}
    (h : Faults.none.handler s op r s') : (r, s') = idealStep s op := by
  cases op with
  | on dev op =>
      rcases h with exact_ | ⟨never, _⟩ | ⟨never, _⟩
      · exact exact_
      · exact never.elim
      · exact never.elim
  | pathExists path => obtain ⟨rfl, rfl⟩ := h; rfl
  | openFile path writable => obtain ⟨rfl, rfl⟩ := h; rfl
  | createFile path => obtain ⟨rfl, rfl⟩ := h; rfl

theorem ideal_allowed (f : Faults) {s s' : Image} {op : Op Unit} {r : op.Res}
    (h : Faults.none.handler s op r s') : f.handler s op r s' := by
  have exact_ := idealStep_only h
  obtain rfl : r = (idealStep s op).1 := congrArg Prod.fst exact_
  obtain rfl : s' = (idealStep s op).2 := congrArg Prod.snd exact_
  exact idealStep_allowed f s op

end ImgVhd
