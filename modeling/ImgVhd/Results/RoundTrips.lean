import ImgVhd.Creating.Fixed
import ImgVhd.Creating.HeaderLayout

/-! # Headers that are laid out are read back

What a create composes parses to the values it was composed from, and so does any
header that is laid out as the format says, whatever its reserved bytes hold.
-/

namespace ImgVhd

open Foundation

section Built

variable {env : BuildEnv} {size off type : Nat} {t : DiskType}

theorem buildFooter_parses (fits : size < 2 ^ 64) (place : off < 2 ^ 64)
    (known : DiskType.fromU32 type = .ok t) (word : type < 2 ^ 32) :
    ∃ bytes, buildFooter env size type off = .ok bytes ∧ bytes.length = footerSize ∧
      Footer.parse bytes = .ok
        { features := 2, fileFormatVersion := 0x00010000, dataOffset := off, originalSize := size,
          currentSize := size, diskType := t, uniqueId := generateUuidV4 env } := by
  obtain ⟨bytes, built⟩ := buildFooter_ok env size type off
  exact ⟨bytes, built, parse_buildFooter built fits place known word⟩

end Built

/-- Every footer and every header that is built is read back as what it was built
    from, but a header whose block size no image can have. -/
theorem built_structures_are_read_back (env : BuildEnv) {size off table entries bs : Nat}
    (fits : size < 2 ^ 64) (place : off < 2 ^ 64) (at_ : table < 2 ^ 64) (count : entries < 2 ^ 32)
    (word : bs < 2 ^ 32) :
    (∃ bytes, buildFixedFooter env size = .ok bytes ∧ bytes.length = footerSize ∧
      Footer.parse bytes = .ok
        { features := 2, fileFormatVersion := 0x00010000, dataOffset := 2 ^ 64 - 1,
          originalSize := size, currentSize := size, diskType := .fixed,
          uniqueId := generateUuidV4 env }) ∧
    (∃ bytes, buildDynamicFooter env size off = .ok bytes ∧ bytes.length = footerSize ∧
      Footer.parse bytes = .ok
        { features := 2, fileFormatVersion := 0x00010000, dataOffset := off, originalSize := size,
          currentSize := size, diskType := .dynamic, uniqueId := generateUuidV4 env }) ∧
    (buildDynamicHeader table entries bs).length = dynHeaderSize ∧
    ((∃ h, DynamicHeader.parse (buildDynamicHeader table entries bs) = .ok h) ↔
      bs.isPowerOfTwo ∧ 512 ≤ bs) ∧
    ∀ h, DynamicHeader.parse (buildDynamicHeader table entries bs) = .ok h →
      h.tableOffset = table ∧ h.maxTableEntries = entries ∧ h.blockSize = bs ∧ h.parentName = [] ∧
        h.parentLocators = List.replicate 8 ⟨[0, 0, 0, 0], 0, 0, 0, 0⟩ := by
  refine ⟨buildFooter_parses fits (by decide) rfl (by decide),
    buildFooter_parses fits place rfl (by decide), slice_buildDynamicHeader.1, ?_⟩
  rw [parse_buildDynamicHeader_eq at_ count word]
  split
  · rename_i power
    simp [power]
  · rename_i power
    split
    · rename_i short
      simp only [sectorSize] at short
      simp
      omega
    · rename_i sector
      simp only [sectorSize] at sector
      refine ⟨⟨fun _ => ⟨not_not.mp power, by omega⟩, fun _ => ⟨_, rfl⟩⟩, ?_⟩
      intro h ok
      cases ok
      exact ⟨rfl, rfl, rfl, rfl, rfl⟩

/-- A small block size is read back, one that is no power of two is not. -/
theorem small_structures_are_read_back :
    (∃ bytes f, buildDynamicFooter smallEnv 4096 512 = .ok bytes ∧ Footer.parse bytes = .ok f ∧
      f.currentSize = 4096 ∧ f.dataOffset = 512) ∧
    (∃ h, DynamicHeader.parse (buildDynamicHeader 1536 1 512) = .ok h) ∧
    ¬ ∃ h, DynamicHeader.parse (buildDynamicHeader 1536 1 768) = .ok h := by
  obtain ⟨-, ⟨bytes, built, -, parses⟩, -, accepted, -⟩ := @built_structures_are_read_back smallEnv
    4096 512 1536 1 512 (by decide) (by decide) (by decide) (by decide) (by decide)
  obtain ⟨-, -, -, refused, -⟩ := @built_structures_are_read_back smallEnv 4096 512 1536 1 768
    (by decide) (by decide) (by decide) (by decide) (by decide)
  refine ⟨⟨bytes, _, built, parses, rfl, rfl⟩, accepted.mpr ⟨⟨9, rfl⟩, by decide⟩, fun parsed => ?_⟩
  obtain ⟨⟨k, power⟩, -⟩ := refused.mp parsed
  have low : 2 ^ 9 < 2 ^ k := by omega
  have high : 2 ^ k < 2 ^ 10 := by omega
  rw [Nat.pow_lt_pow_iff_right (by decide)] at low high
  omega

/-- Parsing inverts the layout: the values come back whatever the reserved bytes, and
    the bytes behind the name's terminator, hold. -/
theorem laid_out_header_is_read_back {h : DynamicHeader} {reserved rest : Bytes} (fits : h.Fits)
    (whole : reserved.length = dynHeaderSize) (padded : rest.length = 512) :
    DynamicHeader.parse (h.layOut reserved rest) = .ok h := by
  obtain ⟨length, stored, parts⟩ := slice_layOut fits whole (show 510 ≤ rest.length by omega)
  generalize h.layOut reserved rest = bytes at *
  have word (start : Nat) (v : Bytes) (member : (start, v) ∈ headerWords h rest) :
      (bytes.drop start).take v.length = v := parts start v (List.mem_append_left _ member)
  have number (start width v : Nat) (member : (start, toBe width v) ∈ headerWords h rest)
      (small : v < 256 ^ width) : field bytes start width = v := by
    have here := word _ _ member
    rw [length_toBe] at here
    rw [field, here, ofBe_toBe small]
  have cookie : bytes.take 8 = dynHeaderCookie := word 0 dynHeaderCookie (by simp [headerWords])
  have size := number 32 4 h.blockSize (by simp [headerWords]) fits.block.word
  have identity := word 40 h.parentUniqueId (by simp [headerWords])
  have name := word 64 (nameField h.parentName rest) (by simp [headerWords])
  rw [fits.uniqueId] at identity
  rw [length_nameField (by omega)] at name
  have locators : ((List.range 8).map fun j => ParentLocator.ofBytes bytes (576 + j * 24)) =
      h.parentLocators := by
    apply List.ext_getElem
    · simp [fits.eight]
    · intro j left right
      have l := fits.locators _ (List.getElem_mem right)
      have here := parts (576 + j * 24) (h.parentLocators[j]).layOut (List.mem_append_right _
        (List.mem_map.mpr ⟨(h.parentLocators[j], j), List.mem_zipIdx_iff_getElem?.mpr
          (List.getElem?_eq_getElem right), rfl⟩))
      rw [l.length_layOut] at here
      simp [l.ofBytes here]
  have holds : DynamicHeader.ofBytes bytes = h := by
    rw [DynamicHeader.ofBytes, locators, size, identity, name, decode_nameField fits.plain fits.short,
      number 8 8 h.dataOffset (by simp [headerWords]) fits.dataOffset,
      number 16 8 h.tableOffset (by simp [headerWords]) fits.tableOffset,
      number 24 4 h.headerVersion (by simp [headerWords]) fits.version,
      number 28 4 h.maxTableEntries (by simp [headerWords]) fits.entries,
      number 56 4 h.parentTimestamp (by simp [headerWords]) fits.timestamp]
  rw [DynamicHeader.parse_eq (Nat.le_of_eq length.symm), if_neg (not_not.mpr cookie),
    if_neg (not_not.mpr stored), size, if_neg (not_not.mpr fits.block.power),
    if_neg (Nat.not_lt.mpr fits.block.sector), holds]

/-- A name of 256 units, the first two a surrogate pair, fills its field. -/
theorem full_name_is_read_back : ∃ (h : DynamicHeader) (bytes : Bytes),
    (encodeUtf16 h.parentName).length = 256 ∧ DynamicHeader.parse bytes = .ok h := by
  let l : ParentLocator := ⟨[0x57, 0x32, 0x6b, 0x75], 512, 24, 0, 2048⟩
  let h : DynamicHeader := ⟨2 ^ 64 - 1, 1536, 0x00010000, 1, 512, List.replicate 16 7, 1,
    Char.ofNat 0x1D11E :: List.replicate 254 'a', List.replicate 8 l⟩
  have units : (encodeUtf16 h.parentName).length = 256 := by decide +kernel
  have one : l.Fits := ⟨rfl, by decide, by decide, by decide, by decide⟩
  have fits : h.Fits := ⟨by decide, by decide, by decide, by decide, ⟨⟨9, rfl⟩, by decide, by decide⟩,
    rfl, by decide, by decide +kernel, Nat.le_of_eq units, rfl, by simpa [h] using one⟩
  exact ⟨h, h.layOut (List.replicate 1024 0xa5) (List.replicate 512 0xa5), units,
    laid_out_header_is_read_back fits List.length_replicate List.length_replicate⟩

end ImgVhd
