import Mathlib.Data.List.DropRight
import Mathlib.Algebra.Group.Nat.Defs

/-! # Byte counts on the command line

`cli/vhd/size.rs`, with what it takes from the standard library: `str::trim`, and
`u64::from_str_radix`, which also reads a leading `+`. Strings are lists of
characters; a message is kept as its kind and what it quotes.
-/

namespace ImgVhd.Size

/-! ## From the standard library -/

/-- `std::num::IntErrorKind`, as far as an unsigned integer comes to it. -/
inductive IntErrorKind where
  | empty
  | invalidDigit
  | posOverflow
  deriving DecidableEq, Repr

/-- `char::is_whitespace`: the characters with the `White_Space` property. -/
def isWhitespace (c : Char) : Bool :=
  let n := c.toNat
  (decide (0x09 ≤ n) && decide (n ≤ 0x0D)) || n == 0x20 || n == 0x85 || n == 0xA0 || n == 0x1680 ||
    (decide (0x2000 ≤ n) && decide (n ≤ 0x200A)) || n == 0x2028 || n == 0x2029 || n == 0x202F ||
    n == 0x205F || n == 0x3000

/-- `str::trim` -/
def trim (text : List Char) : List Char := (text.dropWhile isWhitespace).rdropWhile isWhitespace

/-- `char::is_ascii_digit` -/
def isAsciiDigit (c : Char) : Bool := decide ('0' ≤ c) && decide (c ≤ '9')

/-- `char::to_ascii_lowercase` -/
def toAsciiLowercase (c : Char) : Char :=
  if 'A' ≤ c ∧ c ≤ 'Z' then Char.ofNat (c.toNat + 32) else c

/-- `char::to_digit` -/
def toDigit (radix : Nat) (c : Char) : Option Nat :=
  let n := c.toNat
  let value :=
    if '0' ≤ c ∧ c ≤ '9' then n - 48
    else if 'a' ≤ c ∧ c ≤ 'z' then n - 97 + 10
    else if 'A' ≤ c ∧ c ≤ 'Z' then n - 65 + 10
    else radix
  if value < radix then some value else none

/-- The digits after `acc`, each turn checked for 64 bits. -/
def readDigits (radix : Nat) : List Char → (acc : Nat) → Except IntErrorKind Nat
  | [], acc => .ok acc
  | c :: rest, acc =>
      match toDigit radix c with
      | none => .error .invalidDigit
      | some d =>
          if 2 ^ 64 ≤ acc * radix then .error .posOverflow
          else if 2 ^ 64 ≤ acc * radix + d then .error .posOverflow
          else readDigits radix rest (acc * radix + d)

/-- `u64::from_str_radix` -/
def fromStrRadix (src : List Char) (radix : Nat) : Except IntErrorKind Nat :=
  match src with
  | [] => .error .empty
  | ['+'] => .error .invalidDigit
  | ['-'] => .error .invalidDigit
  | '+' :: digits => readDigits radix digits 0
  | digits => readDigits radix digits 0

/-- `str::strip_prefix` -/
def stripPrefix (text start : List Char) : Option (List Char) :=
  if start <+: text then some (text.drop start.length) else none

/-! ## The parser -/

inductive SizeError where
  /-- `{text:?}: {e}` -/
  | notInteger (text : List Char) (e : IntErrorKind)
  /-- `{text:?} is not a byte count (e.g. 4096, 64K, 2M, 1G)` -/
  | notByteCount (text : List Char)
  /-- `{text:?}: unknown suffix {suffix:?}; use K, M, G or T (powers of 1024)` -/
  | unknownSuffix (text suffix : List Char)
  /-- `{text:?} does not fit in 64 bits` -/
  | tooLarge (text : List Char)
  deriving DecidableEq, Repr

/-- The shift a lower-case suffix stands for. -/
def shiftOf (suffix : List Char) : Option Nat :=
  if suffix ∈ [[], ['b']] then some 0
  else if suffix ∈ [['k'], ['k', 'b'], ['k', 'i', 'b']] then some 10
  else if suffix ∈ [['m'], ['m', 'b'], ['m', 'i', 'b']] then some 20
  else if suffix ∈ [['g'], ['g', 'b'], ['g', 'i', 'b']] then some 30
  else if suffix ∈ [['t'], ['t', 'b'], ['t', 'i', 'b']] then some 40
  else none

/-- `map_err(|e| format!("{text:?}: {e}"))` -/
def quoted (text : List Char) : Except IntErrorKind Nat → Except SizeError Nat
  | .ok n => .ok n
  | .error e => .error (.notInteger text e)

def parse (text : List Char) : Except SizeError Nat :=
  let text := trim text
  match (stripPrefix text ['0', 'x']).or (stripPrefix text ['0', 'X']) with
  | some hex => quoted text (fromStrRadix hex 16)
  | none =>
      let digits := text.takeWhile isAsciiDigit
      let suffix := text.dropWhile isAsciiDigit
      if digits = [] then .error (.notByteCount text) else do
      let n ← quoted text (fromStrRadix digits 10)
      match shiftOf (suffix.map toAsciiLowercase) with
      | none => .error (.unknownSuffix text suffix)
      | some shift =>
          if n * 2 ^ shift < 2 ^ 64 then .ok (n * 2 ^ shift) else .error (.tooLarge text)

example : parse "64K".toList = .ok 65536 := by decide +kernel

/-! ## What is read -/

/-- The value of a run of digits. -/
def numeral (radix : Nat) (digits : List Char) : Nat :=
  digits.foldl (fun acc c => acc * radix + (toDigit radix c).getD 0) 0

/-- One or more digits. -/
def Digits (radix : Nat) (text : List Char) : Prop :=
  text ≠ [] ∧ ∀ c ∈ text, (toDigit radix c).isSome

/-- A suffix, in any case, and the power of 1024 it stands for. -/
inductive Suffix : List Char → Nat → Prop where
  | none : Suffix [] 0
  | byte {s} (is : s.map toAsciiLowercase = ['b']) : Suffix s 0
  | scaled {s letter tail k} (unit : (letter, k) ∈ [('k', 1), ('m', 2), ('g', 3), ('t', 4)])
      (rest : tail ∈ [[], ['b'], ['i', 'b']]) (is : s.map toAsciiLowercase = letter :: tail) : Suffix s k

/-- The documented byte counts that fit 64 bits. -/
inductive ByteCount : List Char → Nat → Prop where
  | hex {mark digits} (marked : mark = 'x' ∨ mark = 'X') (run : Digits 16 digits)
      (fits : numeral 16 digits < 2 ^ 64) : ByteCount ('0' :: mark :: digits) (numeral 16 digits)
  | decimal {digits suffix k} (run : Digits 10 digits) (unit : Suffix suffix k)
      (fits : numeral 10 digits * 1024 ^ k < 2 ^ 64) :
      ByteCount (digits ++ suffix) (numeral 10 digits * 1024 ^ k)

/-- A signed hexadecimal count: `0x+` and digits of a 64-bit value. -/
inductive SignedHex : List Char → Nat → Prop where
  | mk {mark digits} (marked : mark = 'x' ∨ mark = 'X') (run : Digits 16 digits)
      (fits : numeral 16 digits < 2 ^ 64) :
      SignedHex ('0' :: mark :: '+' :: digits) (numeral 16 digits)

end ImgVhd.Size
