import ImgVhd.Opening.Walk

/-! # What the open refuses

The BAT walk refuses exactly the tables with blocks outside the data area or on
top of each other, and the locator check exactly the payloads that meet the
metadata or a block.
-/

namespace ImgVhd

open Foundation

section OpenChecks

variable {devSize tableEnd : Nat} {found : FoundFooter} {header : DynamicHeader} {bat : List Nat}
  {t : SparseTables}

/-- What is computed once the walk has accepted the table. -/
structure Bounded (devSize : Nat) (found : FoundFooter) (h : DynamicHeader) (tableEnd : Nat)
    (bat : List Nat) (t : SparseTables) : Prop where
  header : t.header = h
  total : t.blockTotal = h.bitmapSizeBytes + h.blockSize
  tableEnd : t.tableEnd = tableEnd
  stop : t.dataEnd = if (found.fromMirror && !found.tailHasCookie) = true then devSize
    else devSize - footerSize
  walk : walkBat bat t.dataStart t.dataEnd t.blockTotal = .ok t.allocated
  tail : recoveredTail found.fromMirror (devSize - footerSize) t.blockTotal t.allocated =
    .ok t.nextAlloc
  headerEnd : found.footer.dataOffset + dynHeaderSize < 2 ^ 64

theorem sparseTables_ok (run : sparseTables devSize found header tableEnd bat = .ok t) :
    Bounded devSize found header tableEnd bat t := by
  unfold sparseTables at run
  obtain ⟨headerEnd, first, run⟩ := Outcome.bind_eq_ok.mp run
  obtain ⟨dataStart, -, run⟩ := Outcome.bind_eq_ok.mp run
  obtain ⟨blockTotal, total, run⟩ := Outcome.bind_eq_ok.mp run
  obtain ⟨allocated, walk, run⟩ := Outcome.bind_eq_ok.mp run
  obtain ⟨nextAlloc, tail, run⟩ := Outcome.bind_eq_ok.mp run
  cases run
  exact ⟨rfl, (checkedAdd_eq_ok.mp total).2, rfl, rfl, walk, tail, (checkedAdd_eq_ok.mp first).1⟩

theorem DynamicHeader.Parsed.total (parsed : header.Parsed) :
    0 < header.bitmapSizeBytes + header.blockSize ∧
      header.bitmapSizeBytes + header.blockSize < 2 ^ 33 := by
  have some_ := parsed.block.pos
  have most := parsed.block.le_top
  have bitmap : header.bitmapSizeBytes ≤ 2 ^ 20 := bitmapSizeFor_le most
  omega

/-! ## The BAT walk -/

/-- Every allocated entry names a block inside the data area, and no two slots
    name blocks that share a byte. -/
structure NonAliasing (dataStart dataEnd blockTotal : Nat) (bat : List Nat) : Prop where
  inside : ∀ e ∈ bat, e ≠ batUnallocated → dataStart ≤ 512 * e ∧ 512 * e + blockTotal ≤ dataEnd
  disjoint : ∀ i j a b : Nat, i ≠ j → bat[i]? = some a → bat[j]? = some b →
    a ≠ batUnallocated → b ≠ batUnallocated →
    Misses (512 * a) (512 * a + blockTotal) (512 * b) (512 * b + blockTotal)

theorem nonAliasing_iff {dataStart dataEnd blockTotal : Nat} (positive : 0 < blockTotal) :
    NonAliasing dataStart dataEnd blockTotal bat ↔
      Placed dataStart dataEnd blockTotal bat ∧ Spread hostOff Live blockTotal bat := by
  have turned (e : Nat) : 512 * e = hostOff e := Nat.mul_comm _ _
  have apart (a b : Nat) : Misses (hostOff a) (hostOff a + blockTotal) (hostOff b)
      (hostOff b + blockTotal) ↔ Apart blockTotal (hostOff a) (hostOff b) :=
    misses_iff (Nat.lt_add_of_pos_right positive) (Nat.lt_add_of_pos_right positive)
  constructor
  · rintro ⟨inside, disjoint⟩
    simp only [turned, apart] at inside disjoint
    exact ⟨inside, disjoint⟩
  · rintro ⟨placed, spread⟩
    constructor
    · simp only [turned]
      exact placed
    · simp only [turned, apart]
      exact spread

theorem walkBat_ok {dataStart dataEnd blockTotal : Nat} {allocated : List Nat}
    (positive : 0 < blockTotal) (small : blockTotal < 2 ^ 33) (words : ∀ e ∈ bat, e < 2 ^ 32) :
    walkBat bat dataStart dataEnd blockTotal = .ok allocated ↔
      NonAliasing dataStart dataEnd blockTotal bat ∧ allocated = sortedBlocks bat := by
  obtain ⟨good, bad⟩ := walkBat_eq dataStart dataEnd positive small words
  rw [nonAliasing_iff positive]
  constructor
  · intro run
    by_cases believable : Placed dataStart dataEnd blockTotal bat ∧ Spread hostOff Live blockTotal bat
    · rw [good believable] at run
      cases run
      exact ⟨believable, rfl⟩
    · obtain ⟨err, refused⟩ := bad believable
      rw [refused] at run
      cases run
  · rintro ⟨believable, rfl⟩
    exact good believable

/-- The walk accepts a table exactly when it aliases nothing, and the tail it
    gives is at or past the end of every block. -/
theorem bat_check_is_exact (parsed : header.Parsed) (words : ∀ e ∈ bat, e < 2 ^ 32) :
    (∀ dataStart dataEnd, (∃ allocated, walkBat bat dataStart dataEnd
        (header.bitmapSizeBytes + header.blockSize) = .ok allocated) ↔
      NonAliasing dataStart dataEnd (header.bitmapSizeBytes + header.blockSize) bat) ∧
    ∀ devSize found tableEnd t, sparseTables devSize found header tableEnd bat = .ok t →
      walkBat bat t.dataStart t.dataEnd (header.bitmapSizeBytes + header.blockSize) =
        .ok t.allocated ∧
      ∀ e ∈ bat, e ≠ batUnallocated →
        512 * e + (header.bitmapSizeBytes + header.blockSize) ≤ t.nextAlloc := by
  obtain ⟨positive, small⟩ := parsed.total
  refine ⟨fun dataStart dataEnd => ?_, fun devSize found tableEnd t run => ?_⟩
  · constructor
    · rintro ⟨allocated, run⟩
      exact ((walkBat_ok positive small words).mp run).1
    · intro fine
      exact ⟨_, (walkBat_ok positive small words).mpr ⟨fine, rfl⟩⟩
  · obtain ⟨-, total, -, stop, walk, tail, -⟩ := sparseTables_ok run
    rw [total] at walk tail
    refine ⟨walk, fun e member live => ?_⟩
    obtain ⟨fine, same⟩ := (walkBat_ok positive small words).mp walk
    obtain ⟨off, is, least, past, -⟩ := recoveredTail_eq found.fromMirror
      (devSize - footerSize) small words
    rw [same, is] at tail
    cases tail
    cases mirror : found.fromMirror with
    | true =>
        rw [Nat.mul_comm]
        exact past mirror e member live
    | false =>
        rw [mirror, Bool.false_and, if_neg Bool.false_ne_true] at stop
        calc 512 * e + (header.bitmapSizeBytes + header.blockSize) ≤ t.dataEnd :=
              (fine.inside e member live).2
          _ = devSize - footerSize := stop
          _ ≤ t.nextAlloc := least

/-- A header with 512-byte blocks and its table at 2048. -/
def headerAt2048 (entries : Nat) (locators : List ParentLocator) : DynamicHeader where
  dataOffset := 2 ^ 64 - 1
  tableOffset := 2048
  headerVersion := 0x00010000
  maxTableEntries := entries
  blockSize := 512
  parentUniqueId := List.replicate 16 0
  parentTimestamp := 0
  parentName := []
  parentLocators := locators

theorem headerAt2048_parsed {entries : Nat} {locators : List ParentLocator} (word : entries < 2 ^ 32)
    (bounded : ∀ l ∈ locators, l.platformDataOffset < 2 ^ 64 ∧ l.platformDataLength < 2 ^ 32) :
    (headerAt2048 entries locators).Parsed := by
  have block : ValidBlockSize 512 := ⟨⟨9, rfl⟩, Nat.le_refl _, by decide⟩
  have table : 2048 < 2 ^ 64 := by decide
  exact ⟨block, table, word, bounded⟩

/-- A footer that says the header is at 512. -/
def footerAt512 (diskType : DiskType) : FoundFooter where
  footer := {
    features := 2
    fileFormatVersion := 0x00010000
    dataOffset := 512
    originalSize := 0
    currentSize := 0
    diskType := diskType
    uniqueId := List.replicate 16 0 }
  bytes := []
  fromMirror := true
  tailHasCookie := true

/-- Two packed blocks, out of order, and an empty slot between them. -/
theorem packed_table_is_accepted : ∃ t,
    sparseTables 5120 (footerAt512 .dynamic) (headerAt2048 3 []) 2060 [7, batUnallocated, 5] = .ok t ∧
    NonAliasing t.dataStart t.dataEnd 1024 [7, batUnallocated, 5] ∧ 512 * 7 + 1024 ≤ t.nextAlloc := by
  have accepted : ∃ t, sparseTables 5120 (footerAt512 .dynamic) (headerAt2048 3 []) 2060
      [7, batUnallocated, 5] = .ok t := Outcome.ok_of_isSome (by decide +kernel)
  obtain ⟨t, run⟩ := accepted
  have parsed : (headerAt2048 3 []).Parsed := headerAt2048_parsed (by decide) (by decide)
  have words : ∀ e ∈ [7, batUnallocated, 5], e < 2 ^ 32 := by decide
  obtain ⟨exact_, tail⟩ := bat_check_is_exact parsed words
  obtain ⟨walk, past⟩ := tail 5120 _ 2060 t run
  exact ⟨t, run, (exact_ _ _).mp ⟨_, walk⟩, past 7 (by decide) (by decide)⟩

/-! ## The parent locators -/

/-- A payload that fits in front of `data_end` and shares no byte with the
    metadata or a block. -/
structure PayloadClear (footer : Footer) (t : SparseTables) (bat : List Nat) (start stop : Nat) :
    Prop where
  word : stop < 2 ^ 64
  inside : stop ≤ t.dataEnd
  mirror : Misses start stop 0 512
  header : Misses start stop footer.dataOffset (footer.dataOffset + 1024)
  table : Misses start stop t.header.tableOffset t.tableEnd
  blocks : ∀ e ∈ bat, e ≠ batUnallocated → Misses start stop (512 * e) (512 * e + t.blockTotal)

/-- The table's offset lies inside the payload although the table is empty. -/
def AroundEmptyTable (t : SparseTables) (start stop : Nat) : Prop :=
  t.tableEnd = t.header.tableOffset ∧ start < t.header.tableOffset ∧ t.header.tableOffset < stop

theorem table_test_iff {start stop low high : Nat} (filled : start < stop) (ordered : low ≤ high) :
    ¬ (start < high ∧ low < stop) ↔
      Misses start stop low high ∧ ¬ (high = low ∧ start < low ∧ low < stop) := by
  rcases Nat.lt_or_eq_of_le ordered with other | rfl
  · rw [misses_iff filled other]
    omega
  · have empty : Misses start stop low low := fun x _ _ both => by omega
    simp only [empty, true_and]

theorem last_block_decides {start stop dataStart dataEnd blockTotal : Nat} {allocated : List Nat}
    (positive : 0 < blockTotal) (small : blockTotal < 2 ^ 33) (words : ∀ e ∈ bat, e < 2 ^ 32)
    (filled : start < stop) (walk : walkBat bat dataStart dataEnd blockTotal = .ok allocated) :
    (∀ e ∈ bat, e ≠ batUnallocated → Misses start stop (512 * e) (512 * e + blockTotal)) ↔
      ∀ k e, (allocated.takeWhile fun e => decide (e * sectorSize < stop)).length = k + 1 →
        allocated[k]? = some e → hostOff e + blockTotal ≤ start := by
  obtain ⟨fine, rfl⟩ := (walkBat_ok positive small words).mp walk
  have chain := (sortedBlocks_chain positive).mpr ((nonAliasing_iff positive).mp fine).2
  have turned (e : Nat) : 512 * e = hostOff e := Nat.mul_comm _ _
  refine Iff.trans ?_ (misses_all_iff hostOff positive filled chain)
  simp only [turned, mem_sortedBlocks, Live, and_imp]

/-- The test against the last of the first `n` blocks. -/
theorem last_block_test {allocated : List Nat} {n start total : Nat} {err : Error}
    (small : total < 2 ^ 33) (words : ∀ e ∈ allocated, e < 2 ^ 32) (most : n ≤ allocated.length) :
    (if n = 0 then Outcome.ok () else do
      let e ← getAt allocated (n - 1)
      let off ← mul64 e sectorSize
      let reach ← add64 off total
      if start < reach then Outcome.err err else Outcome.ok ()) = .ok () ↔
      ∀ k e, n = k + 1 → allocated[k]? = some e → hostOff e + total ≤ start := by
  cases n with
  | zero => simp
  | succ k =>
      have short : k < allocated.length := most
      have entry : allocated[k]? = some allocated[k] := List.getElem?_eq_getElem short
      have low := words _ (List.getElem_mem short)
      have where_ := hostOff_lt low
      rw [if_neg (Nat.succ_ne_zero k), Nat.add_sub_cancel, getAt_of_lt short, Outcome.ok_bind,
        mul64_hostOff low, Outcome.ok_bind, add64_of_lt (by omega), Outcome.ok_bind]
      split
      · rename_i reaches
        refine ⟨fun run => (by cases run), fun last => ?_⟩
        exact absurd (last k _ rfl entry) (Nat.not_le.mpr reaches)
      · rename_i stops
        refine ⟨fun _ k' e same entry' => ?_, fun _ => rfl⟩
        cases Nat.succ.inj same
        rw [entry] at entry'
        cases entry'
        exact Nat.not_lt.mp stops

theorem checkLocator_iff {loc : ParentLocator} (parsed : header.Parsed)
    (words : ∀ e ∈ bat, e < 2 ^ 32) (bounded : Bounded devSize found header tableEnd bat t)
    (ordered : t.header.tableOffset ≤ t.tableEnd) :
    checkLocator found.footer t (found.footer.dataOffset + dynHeaderSize) loc = .ok () ↔
      (loc.platformCode ≠ [0, 0, 0, 0] → loc.platformDataLength ≠ 0 →
        PayloadClear found.footer t bat loc.platformDataOffset
          (loc.platformDataOffset + loc.platformDataLength) ∧
        ¬ AroundEmptyTable t loc.platformDataOffset
          (loc.platformDataOffset + loc.platformDataLength)) := by
  obtain ⟨positive, small⟩ := parsed.total
  rw [← bounded.total] at positive small
  obtain ⟨fine, sorted⟩ := (walkBat_ok positive small words).mp bounded.walk
  unfold checkLocator
  split
  · rename_i skipped
    exact ⟨fun _ code length => absurd skipped (by simp only [code, length, or_self, not_false_eq_true]),
      fun _ => rfl⟩
  rename_i checked
  rw [not_or] at checked
  simp only [ne_eq, checked, not_false_eq_true, forall_const]
  have filled : loc.platformDataOffset < loc.platformDataOffset + loc.platformDataLength :=
    Nat.lt_add_of_pos_right (Nat.pos_of_ne_zero checked.2)
  have decides := last_block_decides positive small words filled bounded.walk
  have table := table_test_iff filled ordered
  generalize loc.platformDataOffset = start at *
  unfold checkedAdd
  split
  case isFalse past =>
    exact ⟨fun run => (by cases run), fun both => absurd both.1.word past⟩
  rename_i word
  rw [Outcome.ok_bind]
  generalize start + loc.platformDataLength = stop at *
  have mirror : Misses start stop 0 512 ↔ ¬ (start < 512 ∧ 0 < stop) := by
    rw [misses_iff filled (by decide)]
    omega
  have header_ : Misses start stop found.footer.dataOffset (found.footer.dataOffset + 1024) ↔
      ¬ (start < found.footer.dataOffset + 1024 ∧ found.footer.dataOffset < stop) := by
    rw [misses_iff filled (by omega)]
    omega
  simp only [Bool.and_eq_true, decide_eq_true_eq]
  split
  · rename_i meets
    refine ⟨fun run => (by cases run), fun both => absurd meets ?_⟩
    have clear := both.1
    rintro (past | meets | meets | meets)
    · exact absurd clear.inside (Nat.not_le.mpr past)
    · exact mirror.mp clear.mirror meets
    · exact header_.mp clear.header meets
    · exact table.mpr ⟨clear.table, both.2⟩ meets
  rename_i apart
  simp only [not_or] at apart
  obtain ⟨inside, offMirror, offHeader, offTable⟩ := apart
  -- everything but the blocks is settled
  have rest : (PayloadClear found.footer t bat start stop ∧ ¬ AroundEmptyTable t start stop) ↔
      ∀ k e, (t.allocated.takeWhile fun e => decide (e * sectorSize < stop)).length = k + 1 →
        t.allocated[k]? = some e → hostOff e + t.blockTotal ≤ start := by
    rw [← decides]
    constructor
    · exact fun both => both.1.blocks
    · intro blocks
      obtain ⟨clear, around⟩ := table.mp offTable
      exact ⟨⟨word, Nat.not_lt.mp inside, mirror.mpr offMirror, header_.mpr offHeader, clear, blocks⟩,
        around⟩
  rw [rest]
  refine last_block_test small (fun e member => ?_)
    (List.takeWhile_prefix (fun e => decide (e * sectorSize < stop))).length_le
  rw [sorted] at member
  exact words e (mem_sortedBlocks.mp member).1

theorem checkEach_iff {footer : Footer} {headerEnd : Nat} {locs : List ParentLocator} :
    checkEach footer t headerEnd locs = .ok () ↔
      ∀ loc ∈ locs, checkLocator footer t headerEnd loc = .ok () := by
  induction locs with
  | nil => exact ⟨fun _ loc member => (by cases member), fun _ => rfl⟩
  | cons loc rest ih =>
      rw [List.forall_mem_cons, ← ih, checkEach, Outcome.bind_eq_ok]
      exact ⟨fun ⟨_, first, later⟩ => ⟨first, later⟩,
        fun ⟨first, later⟩ => ⟨(), first, later⟩⟩

/-- The locator check passes exactly when every payload that counts is clear of
    everything else, and does not stand around the offset of an empty table. -/
theorem locator_check_is_exact (parsed : header.Parsed) (words : ∀ e ∈ bat, e < 2 ^ 32)
    (walked : sparseTables devSize found header
      (header.tableOffset + header.maxTableEntries * 4) bat = .ok t) :
    checkLocators found.footer t = .ok () ↔
      ∀ loc ∈ header.parentLocators, loc.platformCode ≠ [0, 0, 0, 0] → loc.platformDataLength ≠ 0 →
        PayloadClear found.footer t bat loc.platformDataOffset
          (loc.platformDataOffset + loc.platformDataLength) ∧
        ¬ AroundEmptyTable t loc.platformDataOffset
          (loc.platformDataOffset + loc.platformDataLength) := by
  have bounded := sparseTables_ok walked
  have ordered : t.header.tableOffset ≤ t.tableEnd := by
    rw [bounded.header, bounded.tableEnd]
    exact Nat.le_add_right _ _
  unfold checkLocators
  rw [add64_of_lt bounded.headerEnd, Outcome.ok_bind, checkEach_iff, bounded.header]
  simp only [checkLocator_iff parsed words bounded ordered]

/-- Eight locators, one of them in use. -/
def oneLocator (start length : Nat) : List ParentLocator :=
  ⟨[0x57, 0x32, 0x6b, 0x75], 512, length, 0, start⟩ :: List.replicate 7 ⟨[0, 0, 0, 0], 0, 0, 0, 0⟩

set_option maxRecDepth 4000 in
/-- A payload that fills the room between the table and the first block. -/
theorem snug_payload_is_accepted : ∃ t,
    sparseTables 5120 (footerAt512 .differencing) (headerAt2048 3 (oneLocator 2060 500)) 2060
      [7, batUnallocated, 5] = .ok t ∧
    checkLocators (footerAt512 .differencing).footer t = .ok () ∧
    PayloadClear (footerAt512 .differencing).footer t [7, batUnallocated, 5] 2060 2560 := by
  let t : SparseTables := {
    header := headerAt2048 3 (oneLocator 2060 500)
    bat := [7, batUnallocated, 5]
    bitmapSize := 512
    blockTotal := 1024
    tableEnd := 2060
    dataStart := 2560
    dataEnd := 4608
    allocated := [5, 7]
    nextAlloc := 4608 }
  have run : sparseTables 5120 (footerAt512 .differencing) (headerAt2048 3 (oneLocator 2060 500)) 2060
      [7, batUnallocated, 5] = .ok t := rfl
  have passes : checkLocators (footerAt512 .differencing).footer t = .ok () := by decide +kernel
  have clear := (locator_check_is_exact (headerAt2048_parsed (by decide) (by decide)) (by decide)
    run).mp passes
  exact ⟨t, run, passes, (clear _ List.mem_cons_self (by decide) (by decide)).1⟩

set_option maxRecDepth 4000 in
/-- An empty table holds no byte, and yet a payload may not stand around its
    offset. -/
theorem payload_around_empty_table_is_refused : ∃ t,
    (headerAt2048 0 (oneLocator 1536 1024)).Parsed ∧
    (headerAt2048 0 (oneLocator 1536 1024)).parentLocators.length = 8 ∧
    sparseTables 4096 (footerAt512 .differencing) (headerAt2048 0 (oneLocator 1536 1024)) 2048 [] =
      .ok t ∧
    (∀ loc ∈ oneLocator 1536 1024, loc.platformCode ≠ [0, 0, 0, 0] → loc.platformDataLength ≠ 0 →
      PayloadClear (footerAt512 .differencing).footer t [] loc.platformDataOffset
        (loc.platformDataOffset + loc.platformDataLength)) ∧
    checkLocators (footerAt512 .differencing).footer t =
      .err (.corrupt "parent locator payload overlaps the image's metadata") := by
  let t : SparseTables := {
    header := headerAt2048 0 (oneLocator 1536 1024)
    bat := []
    bitmapSize := 512
    blockTotal := 1024
    tableEnd := 2048
    dataStart := 2048
    dataEnd := 3584
    allocated := []
    nextAlloc := 3584 }
  have run : sparseTables 4096 (footerAt512 .differencing) (headerAt2048 0 (oneLocator 1536 1024))
      2048 [] = .ok t := rfl
  refine ⟨t, headerAt2048_parsed (by decide) (by decide), rfl, run, ?_, by decide +kernel⟩
  intro loc member code length
  rcases List.mem_cons.mp member with rfl | unused
  · have clear (low high : Nat) (beside : 2560 ≤ low ∨ high ≤ 1536) (other : low < high) :
        Misses 1536 2560 low high := (misses_iff (by decide) other).mpr beside
    exact ⟨by decide, by decide, clear 0 512 (by decide) (by decide),
      clear 512 1536 (by decide) (by decide), fun x _ _ none_ => absurd none_.2 (Nat.not_lt.mpr none_.1),
      fun e none_ => (by cases none_)⟩
  · obtain ⟨-, rfl⟩ := List.mem_replicate.mp unused
    exact absurd rfl length

end OpenChecks

end ImgVhd
