import ImgVhd.Creating.Built
import ImgVhd.Creating.Utf16

/-! # Laying a header out

Any header as the format lays it out: each value big-endian at its offset, the
locators at their stride, the checksum stored last. What the layout does not
assign is taken from the bytes it is laid out in.
-/

namespace ImgVhd

open Foundation

/-- A locator whose fields fit their widths. -/
structure ParentLocator.Fits (l : ParentLocator) : Prop where
  code : l.platformCode.length = 4
  space : l.platformDataSpace < 2 ^ 32
  length : l.platformDataLength < 2 ^ 32
  reserved : l.reserved < 2 ^ 32
  offset : l.platformDataOffset < 2 ^ 64

def ParentLocator.layOut (l : ParentLocator) : Bytes :=
  l.platformCode ++ toBe 4 l.platformDataSpace ++ toBe 4 l.platformDataLength ++
    toBe 4 l.reserved ++ toBe 8 l.platformDataOffset

theorem ParentLocator.Fits.length_layOut {l : ParentLocator} (fits : l.Fits) :
    l.layOut.length = 24 := by
  simp [layOut, fits.code]

theorem ParentLocator.Fits.ofBytes {l : ParentLocator} {bytes : Bytes} {off : Nat} (fits : l.Fits)
    (there : (bytes.drop off).take 24 = l.layOut) : ParentLocator.ofBytes bytes off = l := by
  have part (k m : Nat) (inside : k + m ≤ 24) :
      (bytes.drop (off + k)).take m = (l.layOut.drop k).take m := by
    rw [← there, slice_slice inside]
  obtain ⟨code, space, length, reserved, offset⟩ := l
  obtain ⟨width, space_, length_, reserved_, offset_⟩ := fits
  match code, width with
  | [a, b, c, d], _ =>
      have whole : (bytes.drop off).take 4 = [a, b, c, d] := part 0 4 (by decide)
      have second : (bytes.drop (off + 4)).take 4 = toBe 4 space := part 4 4 (by decide)
      have third : (bytes.drop (off + 8)).take 4 = toBe 4 length := part 8 4 (by decide)
      have fourth : (bytes.drop (off + 12)).take 4 = toBe 4 reserved := part 12 4 (by decide)
      have last : (bytes.drop (off + 16)).take 8 = toBe 8 offset := part 16 8 (by decide)
      simp only [ParentLocator.ofBytes, field]
      rw [whole, second, third, fourth, last, ofBe_toBe space_, ofBe_toBe length_,
        ofBe_toBe reserved_, ofBe_toBe offset_]

/-- A header whose values fit their fields, its name NUL-free and short enough. -/
structure DynamicHeader.Fits (h : DynamicHeader) : Prop where
  dataOffset : h.dataOffset < 2 ^ 64
  tableOffset : h.tableOffset < 2 ^ 64
  version : h.headerVersion < 2 ^ 32
  entries : h.maxTableEntries < 2 ^ 32
  block : ValidBlockSize h.blockSize
  uniqueId : h.parentUniqueId.length = 16
  timestamp : h.parentTimestamp < 2 ^ 32
  plain : '\x00' ∉ h.parentName
  short : (encodeUtf16 h.parentName).length ≤ 256
  eight : h.parentLocators.length = 8
  locators : ∀ l ∈ h.parentLocators, l.Fits

/-- The 512 bytes of a name: its units, a terminator where one has room, and
    `rest` behind it. -/
def nameField (name : List Char) (rest : Bytes) : Bytes :=
  (utf16Be name ++ 0 :: 0 :: rest).take 512

theorem length_nameField {name : List Char} {rest : Bytes} (padded : 510 ≤ rest.length) :
    (nameField name rest).length = 512 := by
  simp [nameField]
  omega

theorem decode_nameField {name : List Char} (plain : '\x00' ∉ name)
    (short : (encodeUtf16 name).length ≤ 256) (rest : Bytes) :
    decodeUtf16Be (nameField name rest) = name := by
  have length := length_utf16Be name
  rw [nameField, List.take_append, List.take_of_length_le (by omega)]
  apply decodeUtf16Be_encoded plain
  obtain full | room : 512 - (utf16Be name).length = 0 ∨ 2 ≤ 512 - (utf16Be name).length := by omega
  · rw [full]
    exact terminates_nil
  · obtain ⟨more, left⟩ := Nat.exists_eq_add_of_le' room
    rw [left]
    exact terminates_zero _

/-- The fixed-offset parts of a header, the checksum apart. -/
def headerWords (h : DynamicHeader) (rest : Bytes) : List (Nat × Bytes) :=
  [(0, dynHeaderCookie), (8, toBe 8 h.dataOffset), (16, toBe 8 h.tableOffset),
    (24, toBe 4 h.headerVersion), (28, toBe 4 h.maxTableEntries), (32, toBe 4 h.blockSize),
    (40, h.parentUniqueId), (56, toBe 4 h.parentTimestamp), (64, nameField h.parentName rest)]

/-- The strided locators of a header. -/
def locatorParts (ls : List ParentLocator) : List (Nat × Bytes) :=
  ls.zipIdx.map fun slot => (576 + slot.2 * 24, slot.1.layOut)

/-- The header laid out in `reserved`, with `rest` behind the name's terminator. -/
def DynamicHeader.layOut (h : DynamicHeader) (reserved rest : Bytes) : Bytes :=
  let bytes := spliceAll reserved (headerWords h rest ++ locatorParts h.parentLocators)
  splice bytes DynamicOffsets.checksum.start (toBe 4 (dynHeaderChecksum bytes))

theorem windows_locatorParts {ls : List ParentLocator} (fits : ∀ l ∈ ls, l.Fits) :
    windows (locatorParts ls) = (List.range ls.length).map fun i => (576 + i * 24, 24) := by
  have widths : windows (locatorParts ls) = ls.zipIdx.map fun slot => (576 + slot.2 * 24, 24) := by
    rw [windows, locatorParts, List.map_map]
    apply List.map_congr_left
    intro slot member
    simp only [Function.comp_apply, (fits _ (List.fst_mem_of_mem_zipIdx member)).length_layOut]
  rw [widths, List.range_eq_range', ← List.zipIdx_map_snd 0 ls, List.map_map]
  rfl

theorem windows_layOut {h : DynamicHeader} {rest : Bytes} (fits : h.Fits)
    (padded : 510 ≤ rest.length) :
    windows (headerWords h rest ++ locatorParts h.parentLocators) =
      [(0, 8), (8, 8), (16, 8), (24, 4), (28, 4), (32, 4), (40, 16), (56, 4), (64, 512)] ++
        (List.range 8).map fun i => (576 + i * 24, 24) := by
  have cookie : dynHeaderCookie.length = 8 := rfl
  have words : windows (headerWords h rest) =
      [(0, 8), (8, 8), (16, 8), (24, 4), (28, 4), (32, 4), (40, 16), (56, 4), (64, 512)] := by
    simp only [windows, headerWords, List.map_cons, List.map_nil, length_toBe, cookie, fits.uniqueId,
      length_nameField padded]
  rw [windows, List.map_append, ← windows, ← windows, words, windows_locatorParts fits.locators,
    fits.eight]

section LayOut

variable {h : DynamicHeader} {reserved rest : Bytes}

theorem layOut_fits (fits : h.Fits) (whole : reserved.length = 1024) (padded : 510 ≤ rest.length)
    (w : Nat × Nat) (member : w ∈ windows (headerWords h rest ++ locatorParts h.parentLocators)) :
    w.1 + w.2 ≤ reserved.length := by
  rw [windows_layOut fits padded] at member
  rw [whole]
  revert w
  decide

theorem layOut_apart (fits : h.Fits) (padded : 510 ≤ rest.length) :
    (windows (headerWords h rest ++ locatorParts h.parentLocators)).Pairwise Windowed := by
  rw [windows_layOut fits padded]
  decide

/-- What stands in a header that was laid out: the checksum, and each part at its
    offset. -/
theorem slice_layOut (fits : h.Fits) (whole : reserved.length = 1024) (padded : 510 ≤ rest.length) :
    (h.layOut reserved rest).length = 1024 ∧
    field (h.layOut reserved rest) 36 4 = dynHeaderChecksum (h.layOut reserved rest) ∧
    ∀ start v, (start, v) ∈ headerWords h rest ++ locatorParts h.parentLocators →
      ((h.layOut reserved rest).drop start).take v.length = v := by
  have inside := layOut_fits fits whole padded
  have apart := layOut_apart fits padded
  have clear : ∀ w ∈ windows (headerWords h rest ++ locatorParts h.parentLocators),
      Windowed w (36, 4) := by
    rw [windows_layOut fits padded]
    decide
  have same : h.layOut reserved rest = splice (spliceAll reserved
      (headerWords h rest ++ locatorParts h.parentLocators)) 36 (toBe 4 (dynHeaderChecksum
        (spliceAll reserved (headerWords h rest ++ locatorParts h.parentLocators)))) := rfl
  have length := length_spliceAll inside
  have parts (start : Nat) (v : Bytes)
      (member : (start, v) ∈ headerWords h rest ++ locatorParts h.parentLocators) :
      ((spliceAll reserved (headerWords h rest ++ locatorParts h.parentLocators)).drop start).take
        v.length = v := slice_spliceAll inside apart member rfl
  generalize spliceAll reserved (headerWords h rest ++ locatorParts h.parentLocators) = bytes at *
  rw [whole] at length
  have room : 36 + (toBe 4 (dynHeaderChecksum bytes)).length ≤ bytes.length := by
    simp [length]
  have sum : dynHeaderChecksum (h.layOut reserved rest) = dynHeaderChecksum bytes := by
    rw [same]
    exact checksum_splice DynamicOffsets.checksum room (by simp [DynamicOffsets.checksum])
  refine ⟨by rw [same, length_splice room, length], ?_, ?_⟩
  · rw [sum, same, field, slice_splice_here room (length_toBe _ _),
      ofBe_toBe (show dynHeaderChecksum bytes < 256 ^ 4 from checksum_lt _ _ _)]
  · intro start v member
    rw [same, slice_splice_disjoint room]
    · exact parts start v member
    · have window := clear (start, v.length) (List.mem_map_of_mem member)
      simpa [Windowed] using window

end LayOut

end ImgVhd
