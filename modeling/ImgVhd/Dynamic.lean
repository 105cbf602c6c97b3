import ImgVhd.Footer

/-! # The dynamic header

1024 bytes at the footer's `data_offset`, present in dynamic and differencing
images (`dynamic.rs`): where the BAT is, how large a block is, and for a
differencing image the name and identity of its parent.
-/

namespace ImgVhd

open Foundation

def dynHeaderSize : Nat := 1024

/-- `b"cxsparse"` -/
def dynHeaderCookie : Bytes := [0x63, 0x78, 0x73, 0x70, 0x61, 0x72, 0x73, 0x65]

/-- The BAT entry of a block the image does not hold. -/
def batUnallocated : Nat := 0xFFFFFFFF

structure ParentLocator where
  platformCode : Bytes
  platformDataSpace : Nat
  platformDataLength : Nat
  reserved : Nat
  platformDataOffset : Nat
  deriving DecidableEq, Repr

structure DynamicHeader where
  dataOffset : Nat
  tableOffset : Nat
  headerVersion : Nat
  maxTableEntries : Nat
  blockSize : Nat
  parentUniqueId : Bytes
  parentTimestamp : Nat
  /-- The decoded name up to its terminator; empty when there is none, and when
      the units are not well-formed UTF-16. -/
  parentName : List Char
  parentLocators : List ParentLocator
  deriving DecidableEq, Repr

def dynHeaderChecksum (bytes : Bytes) : Nat :=
  onesComplementChecksum bytes dynHeaderSize DynamicOffsets.checksum

/-- `chunks_exact(2)` as big-endian units, up to the first zero unit. -/
def utf16Units : Bytes → List Nat
  | b0 :: b1 :: rest => if ofBe [b0, b1] = 0 then [] else ofBe [b0, b1] :: utf16Units rest
  | _ => []

/-- `String::from_utf16`: `none` on an unpaired surrogate. -/
def fromUtf16 : List Nat → Option (List Char)
  | [] => some []
  | u :: rest =>
      if u < 0xD800 ∨ 0xE000 ≤ u then (fromUtf16 rest).map (Char.ofNat u :: ·)
      else if u < 0xDC00 then
        match rest with
        | v :: rest' =>
            if 0xDC00 ≤ v ∧ v < 0xE000 then
              (fromUtf16 rest').map
                (Char.ofNat (0x10000 + (u - 0xD800) * 0x400 + (v - 0xDC00)) :: ·)
            else none
        | [] => none
      else none

def decodeUtf16Be (bytes : Bytes) : List Char := (fromUtf16 (utf16Units bytes)).getD []

theorem utf16Units_range {bytes : Bytes} {u : Nat} (unit : u ∈ utf16Units bytes) :
    u ≠ 0 ∧ u < 2 ^ 16 := by
  induction bytes using utf16Units.induct with
  | case1 b0 b1 rest zero =>
      rw [utf16Units, if_pos zero] at unit
      cases unit
  | case2 b0 b1 rest some_ ih =>
      rw [utf16Units, if_neg some_] at unit
      cases unit with
      | head => exact ⟨some_, by simpa using ofBe_lt [b0, b1]⟩
      | tail _ later => exact ih later
  | case3 bytes short =>
      rw [utf16Units.eq_2 bytes short] at unit
      cases unit

theorem decodeUtf16Be_terminated (rest : Bytes) : decodeUtf16Be (0 :: 0 :: rest) = [] := by
  simp [decodeUtf16Be, utf16Units, fromUtf16, ofBe]

def ParentLocator.parse (bytes : Bytes) (off : Nat) : Outcome Error ParentLocator := do
  let platformCode ← sliceOf bytes off (off + 4)
  let platformDataSpace ← readU32 bytes (off + 4)
  let platformDataLength ← readU32 bytes (off + 8)
  let reserved ← readU32 bytes (off + 12)
  let platformDataOffset ← readU64 bytes (off + 16)
  return { platformCode, platformDataSpace, platformDataLength, reserved, platformDataOffset }

/-- The eight strided locator records. -/
def parseLocators (bytes : Bytes) : (count i : Nat) → Outcome Error (List ParentLocator)
  | 0, _ => .ok []
  | count + 1, i => do
      let slot ← ParentLocator.parse bytes
        (DynamicOffsets.parentLocators + i * DynamicOffsets.parentLocatorStride)
      let rest ← parseLocators bytes count (i + 1)
      return slot :: rest

def DynamicHeader.parse (bytes : Bytes) : Outcome Error DynamicHeader :=
  if bytes.length < dynHeaderSize then
    .err (.corrupt "dynamic header shorter than 1024 bytes")
  else do
  let cookie ← spanOf bytes DynamicOffsets.cookie
  if cookie ≠ dynHeaderCookie then .err (.corrupt "dynamic header bad cookie") else do
  let storedChecksum ← readU32 bytes DynamicOffsets.checksum.start
  let computedChecksum := dynHeaderChecksum bytes
  if storedChecksum ≠ computedChecksum then
    .err (.badChecksum storedChecksum computedChecksum "dynamic-header")
  else do
  let dataOffset ← readU64 bytes DynamicOffsets.dataOffset
  let tableOffset ← readU64 bytes DynamicOffsets.tableOffset
  let headerVersion ← readU32 bytes DynamicOffsets.headerVersion
  let maxTableEntries ← readU32 bytes DynamicOffsets.maxTableEntries
  let blockSize ← readU32 bytes DynamicOffsets.blockSize
  if ¬ blockSize.isPowerOfTwo then .err (.corrupt "block_size is not a power of two") else
  if blockSize < sectorSize then .err (.corrupt "block_size < 512") else do
  let parentUniqueId ← spanOf bytes DynamicOffsets.parentUniqueId
  let parentTimestamp ← readU32 bytes DynamicOffsets.parentTimestamp
  let parentName := decodeUtf16Be (← spanOf bytes DynamicOffsets.parentUnicodeName)
  let parentLocators ← parseLocators bytes DynamicOffsets.parentLocatorCount 0
  return { dataOffset, tableOffset, headerVersion, maxTableEntries, blockSize, parentUniqueId,
           parentTimestamp, parentName, parentLocators }

/-- Bytes of one block's sector bitmap: a bit for each sector, padded to whole
    sectors. -/
def bitmapSizeFor (blockSize : Nat) : Nat :=
  let sectors := blockSize / sectorSize
  let bytes := divCeil sectors 8
  divCeil bytes sectorSize * sectorSize

def DynamicHeader.bitmapSizeBytes (h : DynamicHeader) : Nat := bitmapSizeFor h.blockSize

/-- What parsing demands of a block size. -/
structure ValidBlockSize (blockSize : Nat) : Prop where
  power : blockSize.isPowerOfTwo
  sector : sectorSize ≤ blockSize
  word : blockSize < 2 ^ 32

namespace ValidBlockSize

variable {bs : Nat}

theorem exponent (h : ValidBlockSize bs) : ∃ k, bs = 2 ^ (9 + k) ∧ k ≤ 22 := by
  obtain ⟨k, rfl⟩ := h.power
  have low : 9 ≤ k := (Nat.pow_le_pow_iff_right (a := 2) (by decide)).mp h.sector
  have high : k < 32 := (Nat.pow_lt_pow_iff_right (a := 2) (by decide)).mp h.word
  exact ⟨k - 9, by rw [Nat.add_sub_cancel' low], by omega⟩

theorem pos (h : ValidBlockSize bs) : 0 < bs := Nat.lt_of_lt_of_le (by decide) h.sector

theorem le_top (h : ValidBlockSize bs) : bs ≤ 2 ^ 31 := by
  obtain ⟨k, rfl, small⟩ := h.exponent
  exact Nat.pow_le_pow_right (by decide) (by omega)

theorem mod_sector (h : ValidBlockSize bs) : bs % 512 = 0 := by
  obtain ⟨k, rfl, _⟩ := h.exponent
  rw [Nat.pow_add]
  exact Nat.mul_mod_right _ _

theorem mask (h : ValidBlockSize bs) (x : Nat) : x &&& (bs - 1) = x % bs := by
  obtain ⟨k, rfl, _⟩ := h.exponent
  exact Nat.and_two_pow_sub_one_eq_mod x _

end ValidBlockSize

theorem bitmapSizeFor_mod (bs : Nat) : bitmapSizeFor bs % 512 = 0 := Nat.mul_mod_left _ _

theorem bitmapSizeFor_le {bs : Nat} (h : bs ≤ 2 ^ 31) : bitmapSizeFor bs ≤ 2 ^ 20 := by
  have bytes : divCeil (bs / 512) 8 * 8 < bs / 512 + 8 := divCeil_mul_lt (by decide)
  have padded : divCeil (divCeil (bs / 512) 8) 512 * 512 < divCeil (bs / 512) 8 + 512 :=
    divCeil_mul_lt (by decide)
  unfold bitmapSizeFor sectorSize
  simp only
  omega

theorem bitmapSizeFor_covers (bs : Nat) : bs / 512 ≤ 8 * bitmapSizeFor bs := by
  have bytes : bs / 512 ≤ divCeil (bs / 512) 8 * 8 := le_divCeil_mul (by decide)
  have padded : divCeil (bs / 512) 8 ≤ divCeil (divCeil (bs / 512) 8) 512 * 512 :=
    le_divCeil_mul (by decide)
  unfold bitmapSizeFor sectorSize
  simp only
  omega

theorem bitmapSizeFor_pos {bs : Nat} (h : 512 ≤ bs) : 512 ≤ bitmapSizeFor bs := by
  have covers := bitmapSizeFor_covers bs
  have whole := bitmapSizeFor_mod bs
  omega

/-- A locator as its fields stand in the bytes. -/
def ParentLocator.ofBytes (bytes : Bytes) (off : Nat) : ParentLocator where
  platformCode := (bytes.drop off).take 4
  platformDataSpace := field bytes (off + 4) 4
  platformDataLength := field bytes (off + 8) 4
  reserved := field bytes (off + 12) 4
  platformDataOffset := field bytes (off + 16) 8

theorem ParentLocator.parse_eq {bytes : Bytes} {off : Nat} (h : off + 24 ≤ bytes.length) :
    ParentLocator.parse bytes off = .ok (ParentLocator.ofBytes bytes off) := by
  unfold ParentLocator.parse
  rw [sliceOf_of_le (by omega) (by omega), readU32_eq (by omega), readU32_eq (by omega),
    readU32_eq (by omega), readU64_eq (by omega), Nat.add_sub_cancel_left]
  rfl

theorem parseLocators_eq {bytes : Bytes} (whole : dynHeaderSize ≤ bytes.length) :
    ∀ count i, i + count ≤ 8 → parseLocators bytes count i =
      .ok ((List.range' i count).map fun j => ParentLocator.ofBytes bytes (576 + j * 24))
  | 0, _, _ => rfl
  | count + 1, i, h => by
      have long : 1024 ≤ bytes.length := whole
      unfold parseLocators
      simp only [DynamicOffsets.parentLocators, DynamicOffsets.parentLocatorStride]
      rw [ParentLocator.parse_eq (by omega), Outcome.ok_bind,
        parseLocators_eq whole count (i + 1) (by omega)]
      rfl

/-- A header as its fields stand in the bytes. -/
def DynamicHeader.ofBytes (bytes : Bytes) : DynamicHeader where
  dataOffset := field bytes 8 8
  tableOffset := field bytes 16 8
  headerVersion := field bytes 24 4
  maxTableEntries := field bytes 28 4
  blockSize := field bytes 32 4
  parentUniqueId := (bytes.drop 40).take 16
  parentTimestamp := field bytes 56 4
  parentName := decodeUtf16Be ((bytes.drop 64).take 512)
  parentLocators := (List.range 8).map fun j => ParentLocator.ofBytes bytes (576 + j * 24)

theorem DynamicHeader.parse_eq {bytes : Bytes} (whole : dynHeaderSize ≤ bytes.length) :
    DynamicHeader.parse bytes =
      if bytes.take 8 ≠ dynHeaderCookie then .err (.corrupt "dynamic header bad cookie")
      else if field bytes 36 4 ≠ dynHeaderChecksum bytes then
        .err (.badChecksum (field bytes 36 4) (dynHeaderChecksum bytes) "dynamic-header")
      else if ¬ (field bytes 32 4).isPowerOfTwo then
        .err (.corrupt "block_size is not a power of two")
      else if field bytes 32 4 < sectorSize then .err (.corrupt "block_size < 512")
      else .ok (DynamicHeader.ofBytes bytes) := by
  have long : 1024 ≤ bytes.length := whole
  unfold DynamicHeader.parse
  rw [if_neg (Nat.not_lt.mpr whole)]
  simp only [DynamicOffsets.cookie, DynamicOffsets.checksum, DynamicOffsets.dataOffset,
    DynamicOffsets.tableOffset, DynamicOffsets.headerVersion, DynamicOffsets.maxTableEntries,
    DynamicOffsets.blockSize, DynamicOffsets.parentUniqueId, DynamicOffsets.parentTimestamp,
    DynamicOffsets.parentUnicodeName, DynamicOffsets.parentLocatorCount]
  rw [spanOf_eq (by simp) (by simp only; omega), readU32_eq (by omega), readU64_eq (by omega),
    readU64_eq (by omega), readU32_eq (by omega), readU32_eq (by omega), readU32_eq (by omega),
    spanOf_eq (by simp) (by simp only; omega), readU32_eq (by omega),
    spanOf_eq (by simp) (by simp only; omega), parseLocators_eq whole 8 0 (by omega)]
  rfl

theorem DynamicHeader.parse_of {bytes : Bytes} {h : DynamicHeader} (whole : dynHeaderSize ≤ bytes.length)
    (cookie : bytes.take 8 = dynHeaderCookie) (checksum : field bytes 36 4 = dynHeaderChecksum bytes)
    (power : h.blockSize.isPowerOfTwo) (sector : sectorSize ≤ h.blockSize)
    (fields : DynamicHeader.ofBytes bytes = h) : DynamicHeader.parse bytes = .ok h := by
  have block : field bytes 32 4 = h.blockSize := by rw [← fields]; rfl
  rw [DynamicHeader.parse_eq whole, if_neg (not_not.mpr cookie), if_neg (not_not.mpr checksum), block,
    if_neg (not_not.mpr power), if_neg (Nat.not_lt.mpr sector), fields]

theorem DynamicHeader.parse_settled (bytes : Bytes) : (DynamicHeader.parse bytes).Settled := by
  by_cases whole : dynHeaderSize ≤ bytes.length
  · rw [DynamicHeader.parse_eq whole]
    repeat' split
    all_goals trivial
  · rw [DynamicHeader.parse, if_pos (Nat.lt_of_not_le whole)]
    trivial

/-- The bounds a parsed header is known to meet. -/
structure DynamicHeader.Parsed (h : DynamicHeader) : Prop where
  block : ValidBlockSize h.blockSize
  table : h.tableOffset < 2 ^ 64
  entries : h.maxTableEntries < 2 ^ 32
  locators : ∀ l ∈ h.parentLocators, l.platformDataOffset < 2 ^ 64 ∧ l.platformDataLength < 2 ^ 32

/-- A parsed header is the reading of its bytes. -/
theorem DynamicHeader.parse_ok {bytes : Bytes} {h : DynamicHeader}
    (ok : DynamicHeader.parse bytes = .ok h) :
    h = DynamicHeader.ofBytes bytes ∧ ValidBlockSize (field bytes 32 4) := by
  by_cases whole : dynHeaderSize ≤ bytes.length
  · rw [DynamicHeader.parse_eq whole] at ok
    split at ok
    · cases ok
    · split at ok
      · cases ok
      · split at ok
        · cases ok
        · rename_i power
          split at ok
          · cases ok
          · rename_i sector
            cases ok
            exact ⟨rfl, not_not.mp power, Nat.not_lt.mp sector, slice_lt⟩
  · rw [DynamicHeader.parse, if_pos (Nat.lt_of_not_le whole)] at ok
    cases ok

theorem DynamicHeader.parse_checked {bytes : Bytes} {h : DynamicHeader}
    (whole : dynHeaderSize ≤ bytes.length) (ok : DynamicHeader.parse bytes = .ok h) :
    bytes.take 8 = dynHeaderCookie ∧ field bytes 36 4 = dynHeaderChecksum bytes := by
  rw [DynamicHeader.parse_eq whole] at ok
  split at ok
  · cases ok
  · rename_i cookie
    split at ok
    · cases ok
    · rename_i checksum
      exact ⟨not_not.mp cookie, not_not.mp checksum⟩

theorem DynamicHeader.parsed {bytes : Bytes} {h : DynamicHeader}
    (ok : DynamicHeader.parse bytes = .ok h) : h.Parsed := by
  obtain ⟨rfl, block⟩ := DynamicHeader.parse_ok ok
  refine ⟨block, slice_lt, slice_lt, fun l member => ?_⟩
  obtain ⟨j, _, rfl⟩ := List.mem_map.mp member
  exact ⟨slice_lt, slice_lt⟩

/-- A header for a parentless image: the BAT at `tableOffset`. -/
def buildDynamicHeader (tableOffset maxTableEntries blockSize : Nat) : Bytes :=
  let h := List.replicate dynHeaderSize 0
  let h := splice h DynamicOffsets.cookie.start dynHeaderCookie
  let h := splice h DynamicOffsets.dataOffset (toBe 8 (2 ^ 64 - 1))
  let h := splice h DynamicOffsets.tableOffset (toBe 8 tableOffset)
  let h := splice h DynamicOffsets.headerVersion (toBe 4 0x00010000)
  let h := splice h DynamicOffsets.maxTableEntries (toBe 4 maxTableEntries)
  let h := splice h DynamicOffsets.blockSize (toBe 4 blockSize)
  let cs := dynHeaderChecksum h
  splice h DynamicOffsets.checksum.start (toBe 4 cs)

end ImgVhd
