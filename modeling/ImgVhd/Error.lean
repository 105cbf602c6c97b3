import ImgVhd.Foundation.Outcome

/-! # Errors

One constructor per failure shape of the crate (`error.rs`), and the errors of
the block-device layer below it that the reader lifts into its own.
-/

namespace ImgVhd

/-- `std::io::Error`, as far as the crate makes or forwards one. -/
structure IoError where
  kind : String
  message : String
  deriving DecidableEq, Repr

inductive Error where
  | io (error : IoError)
  /-- Missing footer, or a cookie that does not match. -/
  | notVhd
  | badChecksum (expected found : Nat) (what : String)
  | unsupportedDiskType (value : Nat)
  | corrupt (why : String)
  | unsupported (what : String)
  | outOfBounds (offset len size : Nat)
  | parentTooDeep
  | parentNotFound (why : String)
  | readOnly (why : String)
  | custom (what : String)
  deriving DecidableEq, Repr

/-- A fallible computation that touches no device. -/
abbrev Checked (α : Type) := Foundation.Outcome Error α

/-- `fs_core::Error`: what a block device answers when it refuses. -/
inductive FsCoreError where
  | io (error : IoError)
  | shortRead (offset want got : Nat)
  | readOnly
  | outOfBounds (offset len size : Nat)
  | custom (what : String)
  deriving DecidableEq, Repr

def fsCoreToVhdError : FsCoreError → Error
  | .io e => .io e
  | .shortRead offset want got => .io
      { kind := "UnexpectedEof"
        message := "short read at " ++ toString offset ++ ": wanted " ++ toString want ++
          " got " ++ toString got }
  | .readOnly => .readOnly "backing device refused the write as read-only"
  | .outOfBounds offset len size => .outOfBounds offset len size
  | .custom s => .custom s

/-- The `Display` of an error. -/
def Error.display : Error → String
  | .io e => "io: " ++ e.message
  | .notVhd => "not a VHD image (missing or invalid footer)"
  | .badChecksum expected found what => what ++ " checksum mismatch: expected 0x" ++
      String.ofList (Nat.toDigits 16 expected) ++ ", found 0x" ++ String.ofList (Nat.toDigits 16 found)
  | .unsupportedDiskType t => "unsupported VHD disk type: " ++ toString t
  | .corrupt s => "corrupt VHD: " ++ s
  | .unsupported s => "unsupported VHD feature: " ++ s
  | .outOfBounds offset len size => "read [" ++ toString offset ++ ", " ++ toString offset ++ "+" ++
      toString len ++ ") past virtual size " ++ toString size
  | .parentTooDeep => "differencing chain too deep (cycle?)"
  | .parentNotFound s => "differencing parent not found: " ++ s
  | .readOnly why => "VHD is read-only: " ++ why
  | .custom s => s

def vhdToFsCoreError : Error → FsCoreError
  | .io e => .io e
  | .outOfBounds offset len size => .outOfBounds offset len size
  | .readOnly _ => .readOnly
  | other => .custom other.display

/-- The crate's own refusal of what it was given. -/
def Error.IsCorrupt : Error → Prop
  | .corrupt _ => True
  | _ => False

theorem fsCoreToVhdError_not_corrupt (e : FsCoreError) : ¬ (fsCoreToVhdError e).IsCorrupt := by
  cases e <;> exact id

theorem display_through_device (e : Error) : (fsCoreToVhdError (vhdToFsCoreError e)).display =
    match e with
    | .readOnly _ => "VHD is read-only: backing device refused the write as read-only"
    | e => e.display := by
  cases e <;> rfl

end ImgVhd
