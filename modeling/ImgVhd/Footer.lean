import ImgVhd.Format

/-! # The footer

512 bytes at the end of the file, mirrored at offset 0 of a sparse image
(`footer.rs`). Parsing checks the cookie and the checksum before any field is
read.
-/

namespace ImgVhd

open Foundation

def footerSize : Nat := 512

/-- `b"conectix"` -/
def footerCookie : Bytes := [0x63, 0x6f, 0x6e, 0x65, 0x63, 0x74, 0x69, 0x78]

inductive DiskType where
  | fixed
  | dynamic
  | differencing
  deriving DecidableEq, Repr

def DiskType.fromU32 (v : Nat) : Outcome Error DiskType :=
  if v = DiskTypeWire.fixed then .ok .fixed
  else if v = DiskTypeWire.dynamic then .ok .dynamic
  else if v = DiskTypeWire.differencing then .ok .differencing
  else .err (.unsupportedDiskType v)

structure Footer where
  features : Nat
  fileFormatVersion : Nat
  dataOffset : Nat
  originalSize : Nat
  currentSize : Nat
  diskType : DiskType
  uniqueId : Bytes
  deriving DecidableEq, Repr

def footerChecksum (bytes : Bytes) : Nat :=
  onesComplementChecksum bytes footerSize FooterOffsets.checksum

def Footer.parse (bytes : Bytes) : Outcome Error Footer :=
  if bytes.length < footerSize then .err (.corrupt "footer shorter than 512 bytes") else do
  let cookie ← spanOf bytes FooterOffsets.cookie
  if cookie ≠ footerCookie then .err .notVhd else do
  let storedChecksum ← readU32 bytes FooterOffsets.checksum.start
  let computedChecksum := footerChecksum bytes
  if storedChecksum ≠ computedChecksum then
    .err (.badChecksum storedChecksum computedChecksum "footer")
  else do
  let features ← readU32 bytes FooterOffsets.features
  let fileFormatVersion ← readU32 bytes FooterOffsets.fileFormatVersion
  let dataOffset ← readU64 bytes FooterOffsets.dataOffset
  let originalSize ← readU64 bytes FooterOffsets.originalSize
  let currentSize ← readU64 bytes FooterOffsets.currentSize
  let diskType ← DiskType.fromU32 (← readU32 bytes FooterOffsets.diskType)
  let uniqueId ← spanOf bytes FooterOffsets.uniqueId
  return { features, fileFormatVersion, dataOffset, originalSize, currentSize, diskType, uniqueId }

/-- The field of `width` bytes at `off`, big-endian. -/
def field (bytes : Bytes) (off width : Nat) : Nat := ofBe ((bytes.drop off).take width)

/-- A footer as its fields stand in the bytes, once its disk type is known. -/
def Footer.ofBytes (bytes : Bytes) (diskType : DiskType) : Footer where
  features := field bytes 8 4
  fileFormatVersion := field bytes 12 4
  dataOffset := field bytes 16 8
  originalSize := field bytes 40 8
  currentSize := field bytes 48 8
  diskType := diskType
  uniqueId := (bytes.drop 68).take 16

theorem DiskType.fromU32_settled (v : Nat) : (DiskType.fromU32 v).Settled := by
  unfold DiskType.fromU32
  split
  · trivial
  · split
    · trivial
    · split <;> trivial

theorem Footer.parse_eq {bytes : Bytes} (whole : footerSize ≤ bytes.length) :
    Footer.parse bytes =
      if bytes.take 8 ≠ footerCookie then .err .notVhd
      else if field bytes 64 4 ≠ footerChecksum bytes then
        .err (.badChecksum (field bytes 64 4) (footerChecksum bytes) "footer")
      else DiskType.fromU32 (field bytes 60 4) >>= fun t => .ok (Footer.ofBytes bytes t) := by
  have long : 512 ≤ bytes.length := whole
  unfold Footer.parse
  rw [if_neg (Nat.not_lt.mpr whole)]
  simp only [FooterOffsets.cookie, FooterOffsets.checksum, FooterOffsets.features,
    FooterOffsets.fileFormatVersion, FooterOffsets.dataOffset, FooterOffsets.originalSize,
    FooterOffsets.currentSize, FooterOffsets.diskType, FooterOffsets.uniqueId]
  rw [spanOf_eq (by simp) (by simp only; omega), readU32_eq (by omega), readU32_eq (by omega),
    readU32_eq (by omega), readU64_eq (by omega), readU64_eq (by omega), readU64_eq (by omega),
    readU32_eq (by omega), spanOf_eq (by simp) (by simp only; omega)]
  rfl

theorem Footer.parse_not_corrupt {bytes : Bytes} {e : Error} (whole : footerSize ≤ bytes.length)
    (h : Footer.parse bytes = .err e) : ¬ e.IsCorrupt := by
  rw [Footer.parse_eq whole] at h
  split at h
  · cases h
    exact id
  split at h
  · cases h
    exact id
  unfold DiskType.fromU32 at h
  split at h
  · cases h
  split at h
  · cases h
  split at h
  · cases h
  · cases h
    exact id

theorem Footer.parse_zeros : Footer.parse (List.replicate 512 0) = .err .notVhd := by
  rw [Footer.parse_eq (by rw [List.length_replicate]; decide), if_pos]
  decide

theorem Footer.parse_settled (bytes : Bytes) : (Footer.parse bytes).Settled := by
  by_cases whole : footerSize ≤ bytes.length
  · rw [Footer.parse_eq whole]
    split
    · trivial
    · split
      · trivial
      · exact Outcome.settled_bind (DiskType.fromU32_settled _) fun _ _ => trivial
  · rw [Footer.parse, if_pos (Nat.lt_of_not_le whole)]
    trivial

/-- A parsed footer is the reading of its bytes. -/
theorem Footer.parse_ok {bytes : Bytes} {f : Footer} (whole : footerSize ≤ bytes.length)
    (h : Footer.parse bytes = .ok f) :
    bytes.take 8 = footerCookie ∧ field bytes 64 4 = footerChecksum bytes ∧
      DiskType.fromU32 (field bytes 60 4) = .ok f.diskType ∧
      f = Footer.ofBytes bytes f.diskType := by
  rw [Footer.parse_eq whole] at h
  split at h
  · cases h
  · rename_i cookie
    split at h
    · cases h
    · rename_i checksum
      obtain ⟨t, type, same⟩ := Outcome.bind_eq_ok.mp h
      cases same
      exact ⟨not_not.mp cookie, not_not.mp checksum, type, rfl⟩

theorem Footer.fields_lt {bytes : Bytes} {f : Footer} (whole : footerSize ≤ bytes.length)
    (h : Footer.parse bytes = .ok f) : f.currentSize < 2 ^ 64 ∧ f.dataOffset < 2 ^ 64 := by
  obtain ⟨_, _, _, same⟩ := Footer.parse_ok whole h
  rw [same]
  exact ⟨slice_lt, slice_lt⟩

end ImgVhd
