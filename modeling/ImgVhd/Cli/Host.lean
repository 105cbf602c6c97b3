import ImgVhd.Device
import ImgVhd.Foundation.Sides

/-! # What the command line calls besides the image

Files by name, one of them open for writing at a time; standard output; and
standard input, which is a pipe or a regular file and delivers its bytes in pieces
of any size. A position past the end of a file is no error: what is written there
leaves a gap of zeros. An image and its parents are not among these files.
-/

namespace ImgVhd

open Foundation

/-- A file's name as it was given. -/
abbrev Name := List Char

/-- What is done to files and to standard output. -/
inductive FileOp where
  /-- `File::create` -/
  | create (name : Name)
  /-- `seek(SeekFrom::Current(n))` -/
  | seekCurrent (name : Name) (n : Nat)
  | writeAll (name : Name) (bytes : Bytes)
  | setLen (name : Name) (len : Nat)
  | syncAll (name : Name)
  | removeFile (name : Name)
  | rename (src dst : Name)
  | stdoutWriteAll (bytes : Bytes)
  | stdoutFlush

inductive HostOp where
  | file (op : FileOp)
  /-- Whether `stdin_file()` is a file. -/
  | stdinFile
  | isSameFile (image : Path)
  /-- `metadata()?.len()` of standard input -/
  | stdinLen
  /-- `stream_position()` of standard input -/
  | stdinPosition
  /-- One `read` into a buffer of `max` bytes. -/
  | stdinRead (max : Nat)

def HostOp.Res : HostOp → Type
  | .file _ => Except IoError Unit
  | .stdinFile => Bool
  | .isSameFile _ => Bool
  | .stdinLen => Except IoError Nat
  | .stdinPosition => Except IoError Nat
  | .stdinRead _ => Except IoError Bytes

/-- The refusals. -/
def HostOp.Refused : (op : HostOp) → op.Res → Prop
  | .file _, r => ∃ e, r = (.error e : Except IoError Unit)
  | .stdinLen, r => ∃ e, r = (.error e : Except IoError Nat)
  | .stdinPosition, r => ∃ e, r = (.error e : Except IoError Nat)
  | .stdinRead _, r => ∃ e, r = (.error e : Except IoError Bytes)
  | _, _ => False

/-- What stands behind standard input. -/
structure Stdin where
  isFile : Bool
  isImage : Bool
  content : Bytes
  pos : Nat

/-- The bytes still to come. -/
def Stdin.remaining (i : Stdin) : Bytes := i.content.drop i.pos

structure Host where
  file : Name → Option Bytes
  /-- The position of the file being written. -/
  pos : Nat
  stdout : Bytes
  stdin : Stdin

namespace Host

variable {h h' : Host} {name other : Name}

/-- `h` with another file, or none, under `name`. -/
def put (h : Host) (name : Name) (content : Option Bytes) : Host :=
  { h with file := Function.update h.file name content }

theorem file_put_ne {content : Option Bytes} (ne : other ≠ name) :
    (h.put name content).file other = h.file other := Function.update_of_ne ne _ _

/-- `content` with another length: cut, or filled with zeros. -/
def sized (content : Bytes) (len : Nat) : Bytes :=
  content.take len ++ List.replicate (len - content.length) 0

/-- `content` with `bytes` at `pos`, a gap before them filled with zeros. -/
def writeFrom (content : Bytes) (pos : Nat) (bytes : Bytes) : Bytes :=
  sized content pos ++ bytes ++ content.drop (pos + bytes.length)

/-- What an operation does when it succeeds. -/
def effect (h : Host) : FileOp → Host
  | .create name => { h.put name (some []) with pos := 0 }
  | .seekCurrent _ n => { h with pos := h.pos + n }
  | .writeAll name bytes =>
      { h.put name ((h.file name).map fun content => writeFrom content h.pos bytes) with
        pos := h.pos + bytes.length }
  | .setLen name len => h.put name ((h.file name).map fun content => sized content len)
  | .removeFile name => h.put name none
  | .rename src dst => (h.put dst (h.file src)).put src none
  | .stdoutWriteAll bytes => { h with stdout := h.stdout ++ bytes }
  | _ => h

/-- The file an operation needs. -/
def needs : FileOp → Option Name
  | .seekCurrent name _ => some name
  | .writeAll name _ => some name
  | .setLen name _ => some name
  | .syncAll name => some name
  | .removeFile name => some name
  | .rename src _ => some src
  | _ => none

/-- What a failed operation may leave: the file it was working on is anything. -/
def Damaged (h : Host) : FileOp → Host → Prop
  | .create name, h' => ∃ content pos, h' = { h.put name content with pos }
  | .seekCurrent _ _, h' => ∃ pos, h' = { h with pos }
  | .writeAll name _, h' => ∃ content pos, h' = { h.put name content with pos }
  | .setLen name _, h' => ∃ content, h' = h.put name content
  | .stdoutWriteAll _, h' => ∃ stdout, h' = { h with stdout }
  | _, h' => h' = h

/-- What an operation comes to. It may fail where its file is missing, and, if
    `lossy`, anywhere. -/
def Writes (lossy : Prop) (h : Host) (op : FileOp) (r : Except IoError Unit) (h' : Host) : Prop :=
  (r = .ok () ∧ (∀ name, needs op = some name → (h.file name).isSome) ∧ h' = h.effect op) ∨
    ((lossy ∨ ∃ name, needs op = some name ∧ h.file name = none) ∧ (∃ e, r = .error e) ∧ h.Damaged op h')

/-- The meaning of the host's operations. -/
def handler (lossy : Prop) : Handler Host HostOp HostOp.Res
  | h, .file op, r, h' => Writes lossy h op r h'
  | h, .stdinFile, r, h' => r = h.stdin.isFile ∧ h' = h
  | h, .isSameFile _, r, h' => r = h.stdin.isImage ∧ h' = h
  | h, .stdinLen, r, h' =>
      (r = (.ok h.stdin.content.length : Except IoError Nat) ∨
        lossy ∧ ∃ e, r = (.error e : Except IoError Nat)) ∧ h' = h
  | h, .stdinPosition, r, h' =>
      (r = (.ok h.stdin.pos : Except IoError Nat) ∨
        lossy ∧ ∃ e, r = (.error e : Except IoError Nat)) ∧ h' = h
  | h, .stdinRead max, r, h' =>
      -- a piece of any size, empty only at the end
      (∃ k, k ≤ max ∧ k ≤ h.stdin.remaining.length ∧ (k = 0 → max = 0 ∨ h.stdin.remaining = []) ∧
        r = (.ok (h.stdin.remaining.take k) : Except IoError Bytes) ∧
        h' = { h with stdin := { h.stdin with pos := h.stdin.pos + k } }) ∨
      (lossy ∧ (∃ e, r = (.error e : Except IoError Bytes)) ∧ h' = h)

/-- Every operation has an answer. -/
theorem handler_answers (lossy : Prop) (h : Host) (op : HostOp) : ∃ r h', handler lossy h op r h' := by
  cases op with
  | file op =>
      by_cases there : ∀ name, needs op = some name → (h.file name).isSome
      · exact ⟨(.ok () : Except IoError Unit), h.effect op, Or.inl ⟨rfl, there, rfl⟩⟩
      · obtain ⟨name, needed, missing⟩ : ∃ name, needs op = some name ∧ h.file name = none := by
          simpa using there
        obtain ⟨h', damaged⟩ : ∃ h', h.Damaged op h' := by
          cases op with
          | create name => exact ⟨_, none, 0, rfl⟩
          | seekCurrent name n => exact ⟨_, 0, rfl⟩
          | writeAll name bytes => exact ⟨_, none, 0, rfl⟩
          | setLen name len => exact ⟨_, none, rfl⟩
          | stdoutWriteAll bytes => exact ⟨_, [], rfl⟩
          | syncAll name => exact ⟨_, rfl⟩
          | removeFile name => exact ⟨_, rfl⟩
          | rename src dst => exact ⟨_, rfl⟩
          | stdoutFlush => exact ⟨_, rfl⟩
        exact ⟨(.error ⟨"NotFound", "no such file"⟩ : Except IoError Unit), h',
          Or.inr ⟨Or.inr ⟨name, needed, missing⟩, ⟨_, rfl⟩, damaged⟩⟩
  | stdinFile => exact ⟨_, _, rfl, rfl⟩
  | isSameFile image => exact ⟨_, _, rfl, rfl⟩
  | stdinLen => exact ⟨_, _, Or.inl rfl, rfl⟩
  | stdinPosition => exact ⟨_, _, Or.inl rfl, rfl⟩
  | stdinRead max =>
      refine ⟨_, _, Or.inl ⟨min max h.stdin.remaining.length, Nat.min_le_left _ _,
        Nat.min_le_right _ _, fun nothing => ?_, rfl, rfl⟩⟩
      rcases Nat.min_eq_zero_iff.mp nothing with none_ | ended
      · exact Or.inl none_
      · exact Or.inr (List.length_eq_zero_iff.mp ended)

end Host

/-! ## The command line -/

/-- `CliError`: a message and an exit status. -/
inductive CliError where
  | failed (message : String)
  /-- `vhd_error`: `{image}: {e}`, failed -/
  | vhd (image : Path) (e : Error)
  | notImplemented (message : String)
  deriving DecidableEq

/-- Code over an image's devices and over the host. -/
abbrev Cli (δ : Type) := Code CliError (Op δ ⊕ HostOp) (Sides Op.Res HostOp.Res)

section Cli

variable {δ α : Type}

/-- `map_err(|e| vhd_error(image, e))?` -/
def onImage (image : Path) (c : Io δ α) : Cli δ α := Code.left (CliError.vhd image) c

/-- One operation of the host. -/
def host (op : HostOp) : Cli δ op.Res :=
  @Code.perform CliError (Op δ ⊕ HostOp) (Sides Op.Res HostOp.Res) (.inr op)

/-- The `?` on an `io::Result`, its error reported as `what: e`. -/
def reported (what : String) : Except IoError α → Outcome CliError α
  | .ok a => .ok a
  | .error e => .err (.failed (what ++ ": " ++ e.message))

/-- An operation on files, its error reported. -/
def fileOp (what : String) (op : FileOp) : Cli δ Unit := do
  let answer : Except IoError Unit ← host (.file op)
  reported what answer

section Rules

variable {σ : Type} {L : Handler σ (Op δ) Op.Res} {lossy : Prop}
  {G : σ × Host → Op δ ⊕ HostOp → Prop} {E : CliError → σ × Host → Prop} {x : σ} {h : Host}

theorem onImage_wp {image : Path} {c : Io δ α} {G₁ : σ → Op δ → Prop} {Q₁ : α → σ → Prop}
    {E₁ : Error → σ → Prop} {Q : α → σ × Host → Prop} (spec : Code.wp L G₁ c Q₁ E₁ x)
    (guard : ∀ x op, G₁ x op → G (x, h) (.inl op)) (done : ∀ a x', Q₁ a x' → Q a (x', h))
    (failed : ∀ e x', E₁ e x' → E (.vhd image e) (x', h)) :
    Code.wp (L.sides (Host.handler lossy)) G (onImage image c) Q E (x, h) :=
  Code.wp_left spec guard done failed

end Rules

end Cli

end ImgVhd
