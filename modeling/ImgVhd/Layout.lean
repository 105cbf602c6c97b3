import ImgVhd.Reader.Write
import ImgVhd.Foundation.Extents

/-! # The layout of a sparse image

`Layout` is what an open establishes about a sparse image once and for all: its
footer, its dynamic header, and the bounds the open checked. Everything else
about the image is in the device's bytes and in the block table, so what a
virtual byte reads as is a function of these two.
-/

namespace ImgVhd

open Foundation

structure Layout where
  footerBytes : Bytes
  footer : Footer
  header : DynamicHeader
  whole : footerBytes.length = footerSize
  parses : Footer.parse footerBytes = .ok footer
  sparse : footer.diskType ≠ .fixed
  parsed : header.Parsed
  covers : footer.currentSize ≤ header.maxTableEntries * header.blockSize
  tableFits : header.tableOffset + header.maxTableEntries * 4 < 2 ^ 64
  headerFits : footer.dataOffset + dynHeaderSize < 2 ^ 64

namespace Layout

theorem ext {L L' : Layout} (footer : L.footer = L'.footer) (bytes : L.footerBytes = L'.footerBytes)
    (header : L.header = L'.header) : L = L' := by
  cases L
  cases L'
  cases footer
  cases bytes
  cases header
  rfl

variable (L : Layout)

def virtualSize : Nat := L.footer.currentSize
def blockSize : Nat := L.header.blockSize
def bitmapSize : Nat := bitmapSizeFor L.header.blockSize
def blockTotal : Nat := L.bitmapSize + L.blockSize
def entries : Nat := L.header.maxTableEntries
def tableOffset : Nat := L.header.tableOffset
def tableEnd : Nat := L.tableOffset + L.entries * 4
def headerOffset : Nat := L.footer.dataOffset
def headerEnd : Nat := L.headerOffset + dynHeaderSize
def metadataEnd : Nat := max footerSize (max L.headerEnd L.tableEnd)
def dataStart : Nat := divCeil L.metadataEnd sectorSize * sectorSize

/-- The reader an open makes of this image. -/
def core {δ : Type} (dev : δ) (writable fromMirror : Bool) : Core δ where
  dev := dev
  writable := writable
  footer := L.footer
  dynamic := some L.header
  bitmapSize := L.bitmapSize
  virtualSize := L.virtualSize
  footerBytes := L.footerBytes
  footerFromMirror := fromMirror

/-! ## Sizes -/

theorem validBlockSize : ValidBlockSize L.blockSize := L.parsed.block

theorem blockSize_pos : 0 < L.blockSize := L.validBlockSize.pos

theorem blockSize_le : L.blockSize ≤ 2 ^ 31 := L.validBlockSize.le_top

theorem sector_le_blockSize : 512 ≤ L.blockSize := L.validBlockSize.sector

theorem blockSize_mod : L.blockSize % 512 = 0 := L.validBlockSize.mod_sector

theorem bitmapSize_le : L.bitmapSize ≤ 2 ^ 20 := bitmapSizeFor_le L.blockSize_le

theorem bitmapSize_mod : L.bitmapSize % 512 = 0 := bitmapSizeFor_mod _

theorem bitmapSize_covers : L.blockSize / 512 ≤ 8 * L.bitmapSize := bitmapSizeFor_covers _

theorem bitmapSize_ge : 512 ≤ L.bitmapSize := bitmapSizeFor_pos L.sector_le_blockSize

theorem blockTotal_eq : L.blockTotal = L.bitmapSize + L.blockSize := rfl

theorem blockTotal_mod : L.blockTotal % 512 = 0 := by
  have block := L.blockSize_mod
  have bitmap := L.bitmapSize_mod
  have total := L.blockTotal_eq
  omega

theorem blockTotal_pos : 1024 ≤ L.blockTotal :=
  Nat.add_le_add L.bitmapSize_ge L.sector_le_blockSize

theorem blockTotal_lt : L.blockTotal < 2 ^ 32 := by
  have block := L.blockSize_le
  have bitmap := L.bitmapSize_le
  have total := L.blockTotal_eq
  omega

theorem entries_lt : L.entries < 2 ^ 32 := L.parsed.entries

theorem tableEnd_lt : L.tableEnd < 2 ^ 64 := L.tableFits

theorem virtualSize_le : L.virtualSize ≤ L.entries * L.blockSize := L.covers

theorem virtualSize_lt : L.virtualSize < 2 ^ 64 :=
  (Footer.fields_lt (Nat.le_of_eq L.whole.symm) L.parses).1

theorem blockStart_lt {i : Nat} (index : i < L.entries) : i * L.blockSize < 2 ^ 63 := by
  have product := Nat.mul_lt_mul_of_lt_of_le (Nat.lt_trans index L.entries_lt) L.blockSize_le
    (by decide)
  omega

theorem block_lt {b : Nat} (h : b < L.virtualSize) : b / L.blockSize < L.entries := by
  rw [Nat.div_lt_iff_lt_mul L.blockSize_pos]
  exact Nat.lt_of_lt_of_le h L.virtualSize_le

theorem block_split (b : Nat) :
    b / L.blockSize * L.blockSize + b % L.blockSize = b ∧ b % L.blockSize < L.blockSize := by
  constructor
  · rw [Nat.mul_comm]
    exact Nat.div_add_mod _ _
  · exact Nat.mod_lt _ L.blockSize_pos

theorem block_of {k q : Nat} (inside : q < L.blockSize) :
    (k * L.blockSize + q) / L.blockSize = k ∧ (k * L.blockSize + q) % L.blockSize = q := by
  constructor
  · rw [Nat.mul_comm, Nat.mul_add_div L.blockSize_pos, Nat.div_eq_of_lt inside, Nat.add_zero]
  · rw [Nat.mul_comm, Nat.mul_add_mod, Nat.mod_eq_of_lt inside]

theorem metadataEnd_le_dataStart : L.metadataEnd ≤ L.dataStart := le_divCeil_mul (by decide)

theorem dataStart_le {n : Nat} (aligned : n % 512 = 0) (behind : L.metadataEnd ≤ n) :
    L.dataStart ≤ n := by
  have whole : n / 512 * 512 = n := Nat.div_mul_cancel (Nat.dvd_of_mod_eq_zero aligned)
  calc L.dataStart = divCeil L.metadataEnd 512 * 512 := rfl
    _ ≤ n / 512 * 512 :=
        Nat.mul_le_mul_right _ ((divCeil_le_iff (by decide)).mpr (by rw [whole]; exact behind))
    _ = n := whole

theorem footer_le_metadataEnd : 512 ≤ L.metadataEnd := Nat.le_max_left _ _

theorem headerEnd_le_metadataEnd : L.headerEnd ≤ L.metadataEnd :=
  Nat.le_trans (Nat.le_max_left _ _) (Nat.le_max_right _ _)

theorem tableEnd_le_metadataEnd : L.tableEnd ≤ L.metadataEnd :=
  Nat.le_trans (Nat.le_max_right _ _) (Nat.le_max_right _ _)

end Layout

/-! ## What a virtual byte reads as -/

/-- The host offset a BAT entry names. -/
def hostOff (entry : Nat) : Nat := entry * sectorSize

theorem hostOff_lt {e : Nat} (word : e < 2 ^ 32) : hostOff e < 2 ^ 41 := by
  unfold hostOff sectorSize
  omega

theorem hostOff_mod (e : Nat) : hostOff e % 512 = 0 := Nat.mul_mod_left _ _

theorem mul64_hostOff {e : Nat} (word : e < 2 ^ 32) :
    (mul64 e sectorSize : Checked Nat) = .ok (hostOff e) :=
  mul64_of_lt (Nat.lt_trans (hostOff_lt word) (by decide))

/-- The bitmap bit of sector `n` of the block at host offset `off`. -/
def bitAt (d : ByteStore) (off n : Nat) : Bool := bitOf (d.byte (off + n / 8)) n

theorem present_read {d : ByteStore} {off n : Nat} (len : Nat) (h : n / 8 < len) :
    present (d.read off len) n = bitAt d off n := by
  unfold present bitAt
  rw [List.getD_eq_getElem?_getD, ByteStore.getElem?_read h]
  rfl

namespace Layout

variable (L : Layout)

/-- The byte this image itself holds at virtual offset `b`, if it holds one. -/
def own (d : ByteStore) (bat : List Nat) (b : Nat) : Option UInt8 :=
  match bat[b / L.blockSize]? with
  | none => none
  | some e =>
      if e ≠ batUnallocated ∧ bitAt d (hostOff e) (b % L.blockSize / 512) = true then
        some (d.byte (hostOff e + L.bitmapSize + b % L.blockSize))
      else none

/-- What virtual byte `b` of a parentless image reads as. -/
def value (d : ByteStore) (bat : List Nat) (b : Nat) : UInt8 := (L.own d bat b).getD 0

variable {L} {d d' : ByteStore} {bat bat' : List Nat} {b e : Nat} {v : UInt8}

theorem own_allocated (entry : bat[b / L.blockSize]? = some e) (allocated : e ≠ batUnallocated) :
    L.own d bat b =
      if bitAt d (hostOff e) (b % L.blockSize / 512) = true then
        some (d.byte (hostOff e + L.bitmapSize + b % L.blockSize))
      else none := by
  unfold own
  rw [entry]
  simp only [allocated, ne_eq, not_false_eq_true, true_and]

theorem own_unallocated (entry : bat[b / L.blockSize]? = some batUnallocated) :
    L.own d bat b = none := by
  unfold own
  rw [entry]
  simp only [ne_eq, not_true_eq_false, false_and, if_false]

theorem own_eq_some :
    L.own d bat b = some v ↔ ∃ e, bat[b / L.blockSize]? = some e ∧ e ≠ batUnallocated ∧
      bitAt d (hostOff e) (b % L.blockSize / 512) = true ∧
      d.byte (hostOff e + L.bitmapSize + b % L.blockSize) = v := by
  unfold own
  split
  · rename_i absent
    simp [absent]
  · rename_i e found
    simp [found, and_assoc]

theorem value_of_own (h : L.own d bat b = some v) : L.value d bat b = v := by
  rw [value, h]
  rfl

theorem value_allocated (entry : bat[b / L.blockSize]? = some e) (allocated : e ≠ batUnallocated) :
    L.value d bat b =
      if bitAt d (hostOff e) (b % L.blockSize / 512) = true then
        d.byte (hostOff e + L.bitmapSize + b % L.blockSize)
      else 0 := by
  rw [value, own_allocated entry allocated]
  split <;> rfl

theorem value_unallocated (entry : bat[b / L.blockSize]? = some batUnallocated) :
    L.value d bat b = 0 := by
  rw [value, own_unallocated entry]
  rfl

theorem own_congr (entry : bat'[b / L.blockSize]? = bat[b / L.blockSize]?)
    (bytes : ∀ e, bat[b / L.blockSize]? = some e → e ≠ batUnallocated →
      ∀ j < L.blockTotal, d'.byte (hostOff e + j) = d.byte (hostOff e + j)) :
    L.own d' bat' b = L.own d bat b := by
  have inBlock : b % L.blockSize < L.blockSize := Nat.mod_lt _ L.blockSize_pos
  have covers := L.bitmapSize_covers
  have whole := L.blockSize_mod
  have total := L.blockTotal_eq
  unfold own
  rw [entry]
  split
  · rfl
  · rename_i e found
    by_cases allocated : e = batUnallocated
    · simp only [allocated, ne_eq, not_true_eq_false, false_and, if_false]
    · have bit : bitAt d' (hostOff e) (b % L.blockSize / 512) =
          bitAt d (hostOff e) (b % L.blockSize / 512) := by
        unfold bitAt
        rw [bytes e found allocated _ (by omega)]
      rw [bit, Nat.add_assoc, bytes e found allocated _ (by omega)]

/-! ## The block table on the device -/

variable (L) in
/-- The block table as the device holds it. -/
def table (d : ByteStore) : List Nat := decodeBat (d.read L.tableOffset (L.entries * 4))

@[simp] theorem length_table : (L.table d).length = L.entries :=
  length_decodeBat _ _ (by rw [ByteStore.length_read, Nat.mul_comm])

theorem getElem?_table {i : Nat} (h : i < L.entries) :
    (L.table d)[i]? = some (ofBe (d.read (L.tableOffset + i * 4) 4)) := by
  rw [table, getElem?_decodeBat _ _ (by rw [ByteStore.length_read]; omega),
    ByteStore.read_drop_take (by omega), Nat.mul_comm]

theorem table_congr
    (same : ∀ i, L.tableOffset ≤ i → i < L.tableEnd → d'.byte i = d.byte i) :
    L.table d' = L.table d := by
  unfold table
  rw [ByteStore.read_congr fun i inside => same _ (Nat.le_add_right _ _) (by
    unfold tableEnd; omega)]

theorem table_write_entry {i v : Nat} (index : i < L.entries) (fits : L.tableEnd ≤ d.size)
    (small : v < 2 ^ 32) :
    L.table (d.write (L.tableOffset + i * 4) (toBe 4 v)) = (L.table d).set i v := by
  have stop : L.tableEnd = L.tableOffset + L.entries * 4 := rfl
  apply List.ext_getElem?
  intro j
  by_cases inside : j < L.entries
  · rw [getElem?_table inside, List.getElem?_set]
    split
    · rename_i here
      subst here
      rw [length_table, if_pos index]
      have back := ByteStore.read_write_same d (L.tableOffset + i * 4) (toBe 4 v)
        (by rw [length_toBe]; omega)
      rw [length_toBe] at back
      rw [back, ofBe_toBe (by simpa using small)]
    · rename_i there
      rw [getElem?_table inside, ByteStore.read_write_disjoint (by rw [length_toBe]; omega)]
  · rw [List.getElem?_eq_none (by rw [length_table]; omega),
      List.getElem?_eq_none (by rw [List.length_set, length_table]; omega)]

theorem table_lt (h : e ∈ L.table d) : e < 2 ^ 32 := decodeBat_lt h

end Layout

end ImgVhd
