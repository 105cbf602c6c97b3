import ImgVhd.FooterBuild

/-! # What is built parses

The footer and the header a create composes are accepted by the parsers, with the
fields they were composed from.
-/

namespace ImgVhd

open Foundation

theorem slice_splice_here {α : Type} {xs ys : List α} {off len : Nat}
    (h : off + ys.length ≤ xs.length) (length : ys.length = len) :
    ((splice xs off ys).drop off).take len = ys := by
  rw [← length]
  exact slice_splice_same h

theorem checksum_splice {xs ys : Bytes} {size : Nat} (skip : Span)
    (fits : skip.start + ys.length ≤ xs.length) (window : skip.start + ys.length = skip.stop) :
    onesComplementChecksum (splice xs skip.start ys) size skip =
      onesComplementChecksum xs size skip := by
  refine checksum_congr (length_splice fits) fun i outside => ?_
  by_cases below : i < skip.start
  · exact getElem?_splice_below (by omega) below
  · exact getElem?_splice_above fits (by omega)

theorem length_generateUuidV4 (env : BuildEnv) : (generateUuidV4 env).length = 16 := by
  simp only [generateUuidV4, List.length_set, env.random_length]

section Footer

variable {env : BuildEnv} {vs type off : Nat} {geometry : Nat × Nat × Nat}

/-- The parts of a composed footer, in the order they are written. -/
def footerParts (env : BuildEnv) (vs type off : Nat) (geometry : Nat × Nat × Nat) :
    List (Nat × Bytes) :=
  [(0, footerCookie), (8, toBe 4 2), (12, toBe 4 0x00010000), (16, toBe 8 off),
    (24, toBe 4 (vhdTimestampNow env)), (28, creatorApp), (32, toBe 4 creatorVersion),
    (36, toBe 4 creatorHostOs), (40, toBe 8 vs), (48, toBe 8 vs),
    (56, toBe 2 geometry.1 ++ toBe 1 geometry.2.1 ++ toBe 1 geometry.2.2), (60, toBe 4 type),
    (68, generateUuidV4 env)]

theorem footerFields_eq : footerFields env vs type off geometry =
    spliceAll (List.replicate footerSize 0) (footerParts env vs type off geometry) := rfl

theorem windows_footerParts : windows (footerParts env vs type off geometry) =
    [(0, 8), (8, 4), (12, 4), (16, 8), (24, 4), (28, 4), (32, 4), (36, 4), (40, 8), (48, 8), (56, 4),
      (60, 4), (68, 16)] := by
  have cookie : footerCookie.length = 8 := rfl
  have app : creatorApp.length = 4 := rfl
  simp only [windows, footerParts, List.map_cons, List.map_nil, List.length_append, length_toBe,
    length_generateUuidV4, cookie, app]

theorem footerParts_fit (w : Nat × Nat) (member : w ∈ windows (footerParts env vs type off geometry)) :
    w.1 + w.2 ≤ (List.replicate footerSize (0 : UInt8)).length := by
  rw [windows_footerParts] at member
  rw [List.length_replicate]
  revert w
  decide

theorem length_footerFields : (footerFields env vs type off geometry).length = 512 := by
  rw [footerFields_eq, length_spliceAll footerParts_fit, List.length_replicate]
  rfl

/-- A field of a composed footer, and what was written there. -/
inductive FooterField (env : BuildEnv) (vs type off : Nat) (geometry : Nat × Nat × Nat) :
    Nat → Nat → Bytes → Prop where
  | cookie : FooterField env vs type off geometry 0 8 footerCookie
  | features : FooterField env vs type off geometry 8 4 (toBe 4 2)
  | fileFormatVersion : FooterField env vs type off geometry 12 4 (toBe 4 0x00010000)
  | dataOffset : FooterField env vs type off geometry 16 8 (toBe 8 off)
  | originalSize : FooterField env vs type off geometry 40 8 (toBe 8 vs)
  | currentSize : FooterField env vs type off geometry 48 8 (toBe 8 vs)
  | diskGeometry : FooterField env vs type off geometry 56 4
      (toBe 2 geometry.1 ++ toBe 1 geometry.2.1 ++ toBe 1 geometry.2.2)
  | diskType : FooterField env vs type off geometry 60 4 (toBe 4 type)
  | uniqueId : FooterField env vs type off geometry 68 16 (generateUuidV4 env)

theorem slice_footerFields {start len : Nat} {v : Bytes}
    (is : FooterField env vs type off geometry start len v) :
    ((footerFields env vs type off geometry).drop start).take len = v := by
  have apart : (windows (footerParts env vs type off geometry)).Pairwise Windowed := by
    rw [windows_footerParts]
    decide
  rw [footerFields_eq]
  apply slice_spliceAll footerParts_fit apart
  · cases is <;> simp only [footerParts, List.mem_cons, true_or, or_true]
  · cases is with
    | cookie => rfl
    | uniqueId => exact length_generateUuidV4 env
    | diskGeometry => simp only [List.length_append, length_toBe]
    | _ => exact length_toBe _ _

variable {bytes : Bytes} {t : DiskType}

theorem slice_buildFooter (built : buildFooter env vs type off = .ok bytes) :
    bytes.length = 512 ∧ field bytes 64 4 = footerChecksum bytes ∧
      ∃ geometry, chsForSize vs = .ok geometry ∧
        ∀ start len v, FooterField env vs type off geometry start len v →
          (bytes.drop start).take len = v := by
  obtain ⟨geometry, ladder, composed⟩ := Outcome.bind_eq_ok.mp built
  have fields : (footerFields env vs type off geometry).length = 512 := length_footerFields
  have same : bytes = splice (footerFields env vs type off geometry) 64
      (toBe 4 (footerChecksum (footerFields env vs type off geometry))) :=
    (Outcome.ok.inj composed).symm
  have fits : 64 + (toBe 4 (footerChecksum (footerFields env vs type off geometry))).length ≤
      (footerFields env vs type off geometry).length := by rw [length_toBe, fields]; decide
  have checksum : footerChecksum bytes = footerChecksum (footerFields env vs type off geometry) := by
    rw [same]
    exact checksum_splice FooterOffsets.checksum fits (by rw [length_toBe]; rfl)
  have sum : footerChecksum (footerFields env vs type off geometry) < 256 ^ 4 := checksum_lt _ _ _
  refine ⟨by rw [same, length_splice fits, fields], ?_, geometry, ladder, fun start len v is => ?_⟩
  · rw [checksum, same, field, slice_splice_here fits (length_toBe _ _), ofBe_toBe sum]
  · rw [same, slice_splice_disjoint fits]
    · exact slice_footerFields is
    · rw [length_toBe]
      cases is <;> decide

theorem parse_buildFooter (built : buildFooter env vs type off = .ok bytes) (size : vs < 2 ^ 64)
    (place : off < 2 ^ 64) (known : DiskType.fromU32 type = .ok t) (word : type < 2 ^ 32) :
    bytes.length = 512 ∧ Footer.parse bytes = .ok
      { features := 2, fileFormatVersion := 0x00010000, dataOffset := off, originalSize := vs,
        currentSize := vs, diskType := t, uniqueId := generateUuidV4 env } := by
  obtain ⟨length, stored, geometry, -, fields⟩ := slice_buildFooter built
  have at_ {start len : Nat} {v : Bytes} (is : FooterField env vs type off geometry start len v) :
      (bytes.drop start).take len = v := fields _ _ _ is
  have cookie : bytes.take 8 = footerCookie := at_ .cookie
  refine ⟨length, ?_⟩
  rw [Footer.parse_eq (Nat.le_of_eq length.symm), if_neg (not_not.mpr cookie),
    if_neg (not_not.mpr stored)]
  simp only [field, at_ .diskType, ofBe_toBe (show type < 256 ^ 4 from word), known,
    Outcome.ok_bind, Footer.ofBytes, at_ .features, at_ .fileFormatVersion, at_ .dataOffset,
    at_ .originalSize, at_ .currentSize, at_ .uniqueId, ofBe_toBe (show vs < 256 ^ 8 from size),
    ofBe_toBe (show off < 256 ^ 8 from place)]
  rfl

/-- The geometry and the size in a footer's bytes. -/
structure HoldsGeometry (bytes : Bytes) (size cylinders heads spt : Nat) : Prop where
  currentSize : field bytes 48 8 = size
  cylinders : field bytes 56 2 = cylinders
  heads : field bytes 58 1 = heads
  spt : field bytes 59 1 = spt

theorem geometry_buildFooter {c h spt : Nat} (built : buildFooter env vs type off = .ok bytes)
    (size : vs < 2 ^ 64) (is : chsForSize vs = .ok (c, h, spt)) (cylinders : c < 2 ^ 16)
    (heads : h < 2 ^ 8) (tracks : spt < 2 ^ 8) : HoldsGeometry bytes vs c h spt := by
  obtain ⟨length, -, geometry, ladder, fields⟩ := slice_buildFooter built
  obtain rfl : (c, h, spt) = geometry := Outcome.ok.inj (is.symm.trans ladder)
  have word := fields _ _ _ .diskGeometry
  have part {start len : Nat} (inside : start + len ≤ 4) : (bytes.drop (56 + start)).take len =
      ((toBe 2 c ++ toBe 1 h ++ toBe 1 spt).drop start).take len := by
    rw [← word, slice_slice inside]
  have c' : (toBe 2 c).length = 2 := length_toBe _ _
  have h' : (toBe 1 h).length = 1 := length_toBe _ _
  have spt' : (toBe 1 spt).length = 1 := length_toBe _ _
  constructor
  · rw [field, fields _ _ _ .currentSize, ofBe_toBe (show vs < 256 ^ 8 from size)]
  · rw [field, show 56 = 56 + 0 from rfl, part (by decide), List.drop_zero, List.append_assoc,
      List.take_left' c', ofBe_toBe (show c < 256 ^ 2 from cylinders)]
  · rw [field, show 58 = 56 + 2 from rfl, part (by decide), List.append_assoc, List.drop_left' c',
      List.take_left' h', ofBe_toBe (show h < 256 ^ 1 from heads)]
  · rw [field, show 59 = 56 + 3 from rfl, part (by decide), List.drop_left' (by simp [c', h']),
      List.take_of_length_le (Nat.le_of_eq spt'), ofBe_toBe (show spt < 256 ^ 1 from tracks)]

end Footer

section Header

variable {table entries bs : Nat}

/-- A header before its checksum is stored. -/
def headerFields (table entries bs : Nat) : Bytes :=
  let h := List.replicate dynHeaderSize 0
  let h := splice h DynamicOffsets.cookie.start dynHeaderCookie
  let h := splice h DynamicOffsets.dataOffset (toBe 8 (2 ^ 64 - 1))
  let h := splice h DynamicOffsets.tableOffset (toBe 8 table)
  let h := splice h DynamicOffsets.headerVersion (toBe 4 0x00010000)
  let h := splice h DynamicOffsets.maxTableEntries (toBe 4 entries)
  splice h DynamicOffsets.blockSize (toBe 4 bs)

inductive HeaderField (table entries bs : Nat) : Nat → Nat → Bytes → Prop where
  | cookie : HeaderField table entries bs 0 8 dynHeaderCookie
  | dataOffset : HeaderField table entries bs 8 8 (toBe 8 (2 ^ 64 - 1))
  | tableOffset : HeaderField table entries bs 16 8 (toBe 8 table)
  | headerVersion : HeaderField table entries bs 24 4 (toBe 4 0x00010000)
  | maxTableEntries : HeaderField table entries bs 28 4 (toBe 4 entries)
  | blockSize : HeaderField table entries bs 32 4 (toBe 4 bs)

/-- The parts of a composed header, in the order they are written. -/
def headerParts (table entries bs : Nat) : List (Nat × Bytes) :=
  [(0, dynHeaderCookie), (8, toBe 8 (2 ^ 64 - 1)), (16, toBe 8 table), (24, toBe 4 0x00010000),
    (28, toBe 4 entries), (32, toBe 4 bs)]

theorem headerFields_eq : headerFields table entries bs =
    spliceAll (List.replicate dynHeaderSize 0) (headerParts table entries bs) := rfl

theorem windows_headerParts : windows (headerParts table entries bs) =
    [(0, 8), (8, 8), (16, 8), (24, 4), (28, 4), (32, 4)] := by
  have cookie : dynHeaderCookie.length = 8 := rfl
  simp only [windows, headerParts, List.map_cons, List.map_nil, length_toBe, cookie]

theorem headerParts_fit (w : Nat × Nat) (member : w ∈ windows (headerParts table entries bs)) :
    w.1 + w.2 ≤ (List.replicate dynHeaderSize (0 : UInt8)).length := by
  rw [windows_headerParts] at member
  rw [List.length_replicate]
  revert w
  decide

theorem length_headerFields : (headerFields table entries bs).length = 1024 := by
  rw [headerFields_eq, length_spliceAll headerParts_fit, List.length_replicate]
  rfl

theorem slice_headerFields {start len : Nat} {v : Bytes}
    (is : HeaderField table entries bs start len v) :
    ((headerFields table entries bs).drop start).take len = v := by
  have apart : (windows (headerParts table entries bs)).Pairwise Windowed := by
    rw [windows_headerParts]
    decide
  rw [headerFields_eq]
  apply slice_spliceAll headerParts_fit apart
  · cases is <;> simp only [headerParts, List.mem_cons, true_or, or_true]
  · cases is with
    | cookie => rfl
    | _ => exact length_toBe _ _

theorem drop_headerFields : (headerFields table entries bs).drop 40 = List.replicate 984 0 := by
  have rest : ((headerFields table entries bs).drop 40).take 984 =
      ((List.replicate dynHeaderSize 0).drop 40).take 984 := by
    rw [headerFields_eq]
    apply slice_spliceAll_disjoint headerParts_fit
    rw [windows_headerParts]
    decide
  rw [List.take_of_length_le (by simp [length_headerFields])] at rest
  rw [rest, dynHeaderSize, List.drop_replicate, List.take_replicate]
  rfl

/-- The fields of a header that was built, its checksum among them. -/
theorem slice_buildDynamicHeader : (buildDynamicHeader table entries bs).length = 1024 ∧
    field (buildDynamicHeader table entries bs) 36 4 =
      dynHeaderChecksum (buildDynamicHeader table entries bs) ∧
    (∀ start len v, HeaderField table entries bs start len v →
      ((buildDynamicHeader table entries bs).drop start).take len = v) ∧
    (buildDynamicHeader table entries bs).drop 40 = List.replicate 984 0 := by
  have same : buildDynamicHeader table entries bs = splice (headerFields table entries bs) 36
      (toBe 4 (dynHeaderChecksum (headerFields table entries bs))) := by
    unfold buildDynamicHeader headerFields
    rfl
  have fits : 36 + (toBe 4 (dynHeaderChecksum (headerFields table entries bs))).length ≤
      (headerFields table entries bs).length := by rw [length_toBe, length_headerFields]; decide
  have length : (buildDynamicHeader table entries bs).length = 1024 := by
    rw [same, length_splice fits, length_headerFields]
  have checksum : dynHeaderChecksum (buildDynamicHeader table entries bs) =
      dynHeaderChecksum (headerFields table entries bs) := by
    rw [same]
    exact checksum_splice DynamicOffsets.checksum fits (by rw [length_toBe]; rfl)
  have sum : dynHeaderChecksum (headerFields table entries bs) < 256 ^ 4 := checksum_lt _ _ _
  refine ⟨length, ?_, fun start len v is => ?_, ?_⟩
  · rw [checksum, same, field, slice_splice_here fits (length_toBe _ _), ofBe_toBe sum]
  · rw [same, slice_splice_disjoint fits]
    · exact slice_headerFields is
    · rw [length_toBe]
      cases is <;> decide
  · have behind : ((buildDynamicHeader table entries bs).drop 40).take 984 =
        ((headerFields table entries bs).drop 40).take 984 := by
      rw [same]
      exact slice_splice_disjoint fits (Or.inr (by simp))
    rw [drop_headerFields, List.take_of_length_le (by simp [length])] at behind
    rw [behind, List.take_replicate]
    rfl

/-- A header without a parent. -/
def DynamicHeader.parentless (table entries bs : Nat) : DynamicHeader where
  dataOffset := 2 ^ 64 - 1
  tableOffset := table
  headerVersion := 0x00010000
  maxTableEntries := entries
  blockSize := bs
  parentUniqueId := List.replicate 16 0
  parentTimestamp := 0
  parentName := []
  parentLocators := List.replicate 8 ⟨List.replicate 4 0, 0, 0, 0, 0⟩

/-- The header a build composes is refused for its block size or not at all, and
    holds what it was given. -/
theorem parse_buildDynamicHeader_eq (place : table < 2 ^ 64) (count : entries < 2 ^ 32)
    (word : bs < 2 ^ 32) : DynamicHeader.parse (buildDynamicHeader table entries bs) =
      if ¬ bs.isPowerOfTwo then .err (.corrupt "block_size is not a power of two")
      else if bs < sectorSize then .err (.corrupt "block_size < 512")
      else .ok (DynamicHeader.parentless table entries bs) := by
  obtain ⟨length, stored, fields, zeros⟩ :=
    @slice_buildDynamicHeader table entries bs
  generalize buildDynamicHeader table entries bs = bytes at *
  have at_ {start len : Nat} {v : Bytes} (is : HeaderField table entries bs start len v) :
      (bytes.drop start).take len = v := fields _ _ _ is
  have cookie : bytes.take 8 = dynHeaderCookie := at_ .cookie
  have bs_ : field bytes 32 4 = bs := by
    rw [field, at_ .blockSize, ofBe_toBe (show bs < 256 ^ 4 from word)]
  have zero {start len : Nat} (behind : 40 ≤ start) (inside : start + len ≤ 1024) :
      (bytes.drop start).take len = List.replicate len 0 := by
    rw [← Nat.add_sub_cancel' behind, ← List.drop_drop, zeros, List.drop_replicate,
      List.take_replicate, Nat.min_eq_left (by omega)]
  have holds : DynamicHeader.ofBytes bytes = DynamicHeader.parentless table entries bs := by
    have locators : ((List.range 8).map fun j => ParentLocator.ofBytes bytes (576 + j * 24)) =
        List.replicate 8 ⟨List.replicate 4 0, 0, 0, 0, 0⟩ := by
      apply List.eq_replicate_of_mem
      intro l member
      obtain ⟨j, low, rfl⟩ := List.mem_map.mp member
      rw [List.mem_range] at low
      simp only [ParentLocator.ofBytes, field]
      rw [zero (by omega) (by omega), zero (by omega) (by omega), zero (by omega) (by omega),
        zero (by omega) (by omega), zero (by omega) (by omega)]
      rfl
    have name : decodeUtf16Be (List.replicate 512 0) = [] := by
      rw [List.replicate_succ, List.replicate_succ, decodeUtf16Be_terminated]
    have instant : ofBe (List.replicate 4 0) = 0 := rfl
    rw [DynamicHeader.ofBytes, DynamicHeader.parentless, locators, bs_]
    simp only [field]
    rw [at_ .dataOffset, at_ .tableOffset, at_ .headerVersion, at_ .maxTableEntries,
      zero (by omega) (by omega), zero (by omega) (by omega), zero (by omega) (by omega), name,
      instant, ofBe_toBe (show table < 256 ^ 8 from place),
      ofBe_toBe (show entries < 256 ^ 4 from count), ofBe_toBe (by decide), ofBe_toBe (by decide)]
  rw [DynamicHeader.parse_eq (Nat.le_of_eq length.symm), if_neg (not_not.mpr cookie),
    if_neg (not_not.mpr stored), bs_, holds]

theorem parse_buildDynamicHeader (place : table < 2 ^ 64) (count : entries < 2 ^ 32)
    (block : ValidBlockSize bs) :
    (buildDynamicHeader table entries bs).length = 1024 ∧
    ∃ header, DynamicHeader.parse (buildDynamicHeader table entries bs) = .ok header ∧
      header.tableOffset = table ∧ header.maxTableEntries = entries ∧ header.blockSize = bs := by
  refine ⟨slice_buildDynamicHeader.1, DynamicHeader.parentless table entries bs, ?_, rfl, rfl, rfl⟩
  rw [parse_buildDynamicHeader_eq place count block.word, if_neg (not_not.mpr block.power),
    if_neg (Nat.not_lt.mpr block.sector)]

end Header

end ImgVhd
