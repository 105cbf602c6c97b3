import ImgVhd.Cli.Host
import ImgVhd.Reader.Write

/-! # `img.vhd read` and `img.vhd write`

The two verbs of `cli/vhd/img.rs` that move the guest's bytes, on a host whose
`usize` has 64 bits.
-/

namespace ImgVhd.Img

open Foundation

/-- `CHUNK`: how much of the guest is moved at a time. -/
def chunkSize : Nat := 2 ^ 20

/-! ## `read` -/

/-- The range a `read` covers, refused whole if any of it is past the end. -/
def range (size : Nat) (offset length : Option Nat) : Outcome CliError (Nat × Nat) :=
  let offset := offset.getD 0
  if size < offset then
    .err (.failed ("--offset " ++ toString offset ++ " is past the end of the " ++ toString size ++
      "-byte virtual disk"))
  else
  let length := length.getD (size - offset)
  -- `checked_add(..).is_none_or(..)`
  if 2 ^ 64 ≤ offset + length ∨ size < offset + length then
    .err (.failed (toString length ++ " bytes at " ++ toString offset ++ " run past the end of the " ++
      toString size ++ "-byte virtual disk"))
  else .ok (offset, length)

/-- `FILE.partial` -/
def partialName (dest : Name) : Name := dest ++ ".partial".toList

/-- Where a copy stands: the next guest byte, and the buffer as it was left. -/
structure CopyCursor where
  pos : Nat
  buf : Bytes

section Read

variable {δ : Type}

/-- One turn of the copy into a file: a chunk is read, then skipped or written. -/
def copyChunk (image : Path) (r : VhdReader δ) (part : Name) (stop : Nat) (t : CopyCursor) :
    Cli δ CopyCursor := do
  let io := "write " ++ String.ofList part
  let n := min chunkSize (stop - t.pos)
  let bytes ← onImage image (r.readAt t.pos (t.buf.take n))
  if bytes.all (· == 0) then fileOp io (.seekCurrent part n)
  else fileOp io (.writeAll part bytes)
  let pos ← (add64 t.pos n : Outcome CliError Nat)
  return { pos, buf := bytes ++ t.buf.drop n }

/-- The closure that fills `FILE.partial`. -/
def copyInto (image : Path) (r : VhdReader δ) (part : Name) (offset length : Nat) : Cli δ Unit := do
  let io := "write " ++ String.ofList part
  fileOp io (.create part)
  let stop ← (add64 offset length : Outcome CliError Nat)
  let _ ← Code.whileLoop (fun t => decide (t.pos < stop)) (copyChunk image r part stop) length
    { pos := offset, buf := List.replicate chunkSize 0 }
  fileOp io (.setLen part length)
  fileOp io (.syncAll part)

/-- One turn of the copy to standard output; `none` once the pipe is closed. -/
def pipeChunk (image : Path) (r : VhdReader δ) (stop : Nat) : Option CopyCursor → Cli δ (Option CopyCursor)
  | none => return none
  | some t => do
      let n := min chunkSize (stop - t.pos)
      let bytes ← onImage image (r.readAt t.pos (t.buf.take n))
      let answer : Except IoError Unit ← host (.file (.stdoutWriteAll bytes))
      match answer with
      | .error e =>
          if e.kind = "BrokenPipe" then return none
          else Code.fail (.failed ("write stdout: " ++ e.message))
      | .ok () => do
          let pos ← (add64 t.pos n : Outcome CliError Nat)
          return some { pos, buf := bytes ++ t.buf.drop n }

/-- The copy to standard output. A closed pipe is the reader's choice. -/
def copyOut (image : Path) (r : VhdReader δ) (offset length : Nat) : Cli δ Unit := do
  let stop ← (add64 offset length : Outcome CliError Nat)
  let left ← Code.whileLoop (fun t : Option CopyCursor => t.any fun t => decide (t.pos < stop))
    (pipeChunk image r stop) length
    (some { pos := offset, buf := List.replicate chunkSize 0 })
  match left with
  | none => return ()
  | some _ => do
      let answer : Except IoError Unit ← host (.file .stdoutFlush)
      match answer with
      | .ok () => return ()
      | .error e =>
          if e.kind = "BrokenPipe" then return ()
          else Code.fail (.failed ("write stdout: " ++ e.message))

/-- Stream the guest's bytes, to standard output or to a file. -/
def read (image : Path) (offset length : Option Nat) (output : Option Name) : Cli δ Unit := do
  let r ← onImage image (VhdReader.open_ image)
  let covered ← range r.virtualSize offset length
  match output with
  | none => copyOut image r covered.1 covered.2
  | some dest => do
      let part := partialName dest
      (copyInto image r part covered.1 covered.2).onErr fun e => do
        let _ ← host (.file (.removeFile part))
        Code.fail e
      fileOp ("rename to " ++ String.ofList dest) (.rename part dest)

end Read

/-! ## `write` -/

/-- What `write` reads its bytes from. -/
inductive Input where
  /-- A regular file, and how much of it is read. -/
  | file (n : Nat)
  | buffered (data : Bytes)

/-- Where a streamed write stands. -/
structure StreamCursor where
  pos : Nat
  /-- What `take` still lets through. -/
  left : Nat
  more : Bool

section Write

variable {δ : Type}

/-- One `read` of standard input behind a `take`, which asks for nothing at its
    limit. -/
def takeRead (left max : Nat) : Cli δ Bytes :=
  if left = 0 then return [] else do
    let answer : Except IoError Bytes ← host (.stdinRead (min max left))
    reported "read stdin" answer

/-- `stdin.take(limit).read_to_end(..)`: what has come, piece by piece. -/
def readToEnd (limit : Nat) : Cli δ Bytes := do
  let got ← Code.whileLoop (fun t : Bytes × Bool => t.2)
    (fun t => do
      let piece ← takeRead (limit - t.1.length) limit
      return (t.1 ++ piece, decide (piece ≠ [])))
    (limit + 1) ([], true)
  return got.1

/-- What is on standard input, refused if there is more of it than `room`. -/
def openInput (image : Path) (offset size room : Nat) : Cli δ Input := do
  let isFile : Bool ← host .stdinFile
  if isFile then do
    let same : Bool ← host (.isSameFile image)
    if same then Code.fail (.failed (image.display ++ ": stdin is the image being written")) else do
    let length : Except IoError Nat ← host .stdinLen
    let len ← reported "read stdin" length
    let position : Except IoError Nat ← host .stdinPosition
    let pos ← reported "read stdin" position
    -- `saturating_sub`
    let n := len - pos
    if room < n then
      Code.fail (.failed (toString n ++ " bytes at " ++ toString offset ++ " run past the end of the " ++
        toString size ++ "-byte virtual disk"))
    else return .file n
  else do
    let data ← readToEnd (min (room + 1) (2 ^ 64 - 1))
    if room < data.length then
      Code.fail (.failed ("stdin holds more than the " ++ toString room ++ " bytes from " ++
        toString offset ++ " to the end of the " ++ toString size ++ "-byte virtual disk"))
    else return .buffered data

/-- `data.chunks(CHUNK).enumerate()`, each chunk written at its place. -/
def writeChunks (image : Path) (r : VhdReader δ) (offset : Nat) (data : Bytes) : Cli δ Unit := do
  let _ ← Code.whileLoop (fun i => decide (i * chunkSize < data.length))
    (fun i => do
      let start ← (mul64 i chunkSize : Outcome CliError Nat)
      let pos ← (add64 offset start : Outcome CliError Nat)
      onImage image (r.writeAt pos ((data.drop start).take chunkSize))
      return i + 1)
    data.length 0
  return ()

/-- One turn of a streamed write. -/
def streamTurn (image : Path) (r : VhdReader δ) (t : StreamCursor) : Cli δ StreamCursor := do
  let piece ← takeRead t.left chunkSize
  if piece = [] then return { t with more := false } else do
  onImage image (r.writeAt t.pos piece)
  let pos ← (add64 t.pos piece.length : Outcome CliError Nat)
  return { pos, left := t.left - piece.length, more := true }

def writeInput (image : Path) (r : VhdReader δ) (offset : Nat) : Input → Cli δ Nat
  | .buffered data => do
      writeChunks image r offset data
      return data.length
  | .file n => do
      let stopped ← Code.whileLoop (fun t => t.more) (streamTurn image r) (n + 1)
        { pos := offset, left := n, more := true }
      let written ← (sub64 stopped.pos offset : Outcome CliError Nat)
      return written

/-- Why an image has no write path: an empty write asks the library. -/
def notWritable (image : Path) (r : VhdReader δ) : Cli δ (Nat × Nat) :=
  Prog.bind (Prog.left (r.writeAt 0 [])) fun
    | .err (.readOnly why) => Code.fail (.notImplemented ("write: " ++ image.display ++ ": " ++ why))
    | .err e => Code.fail (.vhd image e)
    | .ok () => Code.fail (.failed (image.display ++ ": not writable"))
    | .panic => Prog.ret .panic
    | .outOfFuel => Prog.ret .outOfFuel

/-- Write everything on standard input into the guest at `offset`; the offset and
    the number of bytes that were written. -/
def write (image : Path) (offset : Nat) : Cli δ (Nat × Nat) := do
  let r ← onImage image (VhdReader.openRw image)
  if !r.core.writable_ then notWritable image r else do
  let size := r.virtualSize
  if size < offset then
    Code.fail (.failed ("--offset " ++ toString offset ++ " is past the end of the " ++ toString size ++
      "-byte virtual disk"))
  else do
  let room := size - offset
  let input ← openInput image offset size room
  let written ← writeInput image r offset input
  onImage image r.flushWrites
  return (offset, written)

end Write

end ImgVhd.Img
