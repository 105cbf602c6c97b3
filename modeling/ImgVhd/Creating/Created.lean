import ImgVhd.Creating.Built
import ImgVhd.Reader.Create
import ImgVhd.Session.Reopen

/-! # A created image

What `create_dynamic` leaves behind when it succeeds: a sound image with an empty
table, its mirror and its footer in place, opened by its tail.
-/

namespace ImgVhd

open Foundation

/-! ## The plan -/

section Plan

variable {env : BuildEnv} {size bs : Nat} {plan : DynamicPlan}

/-- A plan that was accepted. -/
structure Planned (env : BuildEnv) (size bs : Nat) (plan : DynamicPlan) : Prop where
  block : ValidBlockSize bs
  rounded : sizeWithExactGeometry size = .ok plan.virtualSize
  entries : plan.entries = divCeil plan.virtualSize bs
  few : plan.entries ≤ maxCreateBatEntries
  tableOffset : plan.tableOffset = 1536
  tableLen : plan.tableLen = divCeil (plan.entries * 4) 512 * 512
  footerAt : plan.footerAt = 1536 + plan.tableLen
  footer : buildFooter env plan.virtualSize 3 512 = .ok plan.footer
  header : plan.header = buildDynamicHeader 1536 plan.entries bs

theorem planDynamic_ok (word : bs < 2 ^ 32) (h : planDynamic env size bs = .ok plan) :
    Planned env size bs plan := by
  unfold planDynamic at h
  split at h
  · cases h
  split at h
  · cases h
  rename_i valid
  obtain ⟨power, sector⟩ := not_or.mp valid
  obtain ⟨vs, rounded, h⟩ := Outcome.bind_eq_ok.mp h
  simp only at h
  split at h
  · cases h
  split at h
  · cases h
  rename_i few
  have few := Nat.not_lt.mp few
  have count : divCeil vs bs ≤ 2 ^ 24 := few
  have table : divCeil (divCeil vs bs * 4) 512 * 512 < divCeil vs bs * 4 + 512 :=
    divCeil_mul_lt (by decide)
  rw [add64_of_lt (by decide), Outcome.ok_bind, mul64_of_lt (by omega), Outcome.ok_bind,
    mul64_of_lt (by unfold sectorSize; omega), Outcome.ok_bind,
    add64_of_lt (by unfold sectorSize dynHeaderSize; omega), Outcome.ok_bind] at h
  obtain ⟨footer, built, h⟩ := Outcome.bind_eq_ok.mp h
  cases h
  exact ⟨⟨not_not.mp power, Nat.not_lt.mp sector, word⟩, rounded, rfl, few, rfl, rfl, rfl, built, rfl⟩

end Plan

/-! ## The file -/

/-- How states hold the file being created: `put s` is one where it is `s`. Files
    may fail to be created or opened when `Lost`. -/
structure Filing {σ : Type} (f : Faults) (R : Handler σ (Op Unit) Op.Res) (put : Image → σ)
    (Lost : Prop) : Prop where
  on : ∀ s op r x', R (put s) (.on () op) r x' → ∃ s', f.handler s (.on () op) r s' ∧ x' = put s'
  create : ∀ x path r x', R x (.createFile path) r x' →
    (r = (.ok () : Except IoError Unit) ∧ ∃ s', s'.disk = .empty ∧ x' = put s') ∨
      (Lost ∧ ∃ e, r = (.error e : Except IoError Unit))
  open_ : ∀ s path w r x', R (put s) (.openFile path w) r x' →
    (r = (.ok () : Except FsCoreError Unit) ∧ x' = put s) ∨
      (Lost ∧ ∃ e, r = (.error e : Except FsCoreError Unit))
  lost : f.Faulty → Lost

theorem Faults.filing (f : Faults) : Filing f f.handler id f.Faulty where
  on _ _ _ _ stepped := ⟨_, stepped, rfl⟩
  create _ _ _ _ := by
    rintro ⟨rfl, rfl⟩
    exact Or.inl ⟨rfl, _, rfl, rfl⟩
  open_ _ _ _ _ _ := by
    rintro ⟨rfl, rfl⟩
    exact Or.inl ⟨rfl, rfl⟩
  lost := id

section File

variable {σ : Type} {f : Faults} {R : Handler σ (Op Unit) Op.Res} {put : Image → σ} {Lost : Prop}
  {s : Image} {off len : Nat} {bytes : Bytes} {Q : Unit → σ → Prop}

/-- Any operation, any refusal. -/
def anything : σ → Op Unit → Prop := fun _ _ => True

/-- A failure of a faulty device or file system. -/
def faulted (Lost : Prop) : Error → σ → Prop := fun e _ => Lost ∧ ¬ e.IsCorrupt

theorem Filing.liftedIo_wp (filing : Filing f R put Lost) {s₁ s' : Image} {r : Except IoError Unit}
    (answer : (r, s') = ((.ok () : Except IoError Unit), s₁) ∨ (f.Faulty ∧ ∃ e, r = .error e))
    (done : Q () (put s₁)) :
    Code.wp R anything (liftM (liftedIo r) : Io Unit Unit) Q (faulted Lost) (put s') := by
  rcases answer with ideal | ⟨faulty, e, rfl⟩
  · cases ideal
    exact done
  · exact ⟨filing.lost faulty, id⟩

theorem Filing.fileSetLen_wp (filing : Filing f R put Lost) (fits : len < 2 ^ 64)
    (done : Q () (put { s with disk := s.disk.resize len fits })) :
    Code.wp R anything (fileSetLen () len) Q (faulted Lost) (put s) := by
  refine (Code.wp_bind _ _).mpr ((Code.wp_perform _).mpr ⟨trivial, fun r x' allowed => ?_⟩)
  obtain ⟨s', stepped, rfl⟩ := filing.on _ _ _ _ allowed
  refine filing.liftedIo_wp ?_ done
  rcases Faults.handler_on stepped with ideal | ⟨refusal, fault⟩
  · exact Or.inl (ideal.trans (dif_pos fits))
  · exact Or.inr ⟨Faults.faulty_of fault, refusal⟩

theorem Filing.fileWrite_wp (filing : Filing f R put Lost) (inside : off + bytes.length ≤ s.disk.size)
    (done : Q () (put { s with disk := s.disk.write off bytes })) :
    Code.wp R anything (fileWrite () off bytes) Q (faulted Lost) (put s) := by
  have small := s.disk.size_lt
  refine (Code.wp_bind _ _).mpr ((Code.wp_perform _).mpr ⟨trivial, fun r x' allowed => ?_⟩)
  obtain ⟨s', stepped, rfl⟩ := filing.on _ _ _ _ allowed
  refine filing.liftedIo_wp ?_ done
  rcases Faults.handler_on stepped with ideal | ⟨refusal, fault⟩
  · refine Or.inl (ideal.trans ?_)
    exact (dif_pos (by omega)).trans (if_pos inside)
  · exact Or.inr ⟨Faults.faulty_of fault, refusal⟩

theorem Filing.fileSyncData_wp (filing : Filing f R put Lost) (done : Q () (put s)) :
    Code.wp R anything (fileSyncData ()) Q (faulted Lost) (put s) := by
  refine (Code.wp_bind _ _).mpr ((Code.wp_perform _).mpr ⟨trivial, fun r x' allowed => ?_⟩)
  obtain ⟨s', stepped, rfl⟩ := filing.on _ _ _ _ allowed
  refine filing.liftedIo_wp ?_ done
  rcases Faults.handler_on stepped with ideal | ⟨refusal, fault⟩
  · exact Or.inl ideal
  · exact Or.inr ⟨Faults.faulty_of fault, refusal⟩

/-- The loop over the table writes one run of `0xFF`. -/
theorem Filing.writeEmptyBat_wp (filing : Filing f R put Lost) (inside : off + len ≤ s.disk.size)
    (done : Q () (put { s with disk := s.disk.write off (List.replicate len 0xFF) })) :
    Code.wp R anything (writeEmptyBat () off len) Q (faulted Lost) (put s) := by
  refine (Code.wp_bind _ _).mpr (Code.wp_whileLoop
    (fun left x' => left ≤ len ∧
      x' = put { s with disk := s.disk.write off (List.replicate (len - left) 0xFF) })
    id ?positive ?turn ?done _ _ _ ⟨Nat.le_refl _, ?start⟩ (Nat.le_refl _))
  case start =>
    rw [Nat.sub_self, List.replicate_zero, ByteStore.write_nil]
  case positive =>
    intro left s' _ more
    exact of_decide_eq_true more
  case turn =>
    rintro left s' ⟨le, rfl⟩ more
    have more : 0 < left := of_decide_eq_true more
    have some_ : 0 < min left (min (2 ^ 20) len) := by omega
    refine (Code.wp_bind _ _).mpr (filing.fileWrite_wp ?_ ⟨⟨by omega, ?_⟩, ?_⟩)
    · simp only [List.length_replicate, ByteStore.size_write]
      omega
    · have grown := ByteStore.write_append s.disk off
        (List.replicate (len - left) 0xFF) (List.replicate (min left (min (2 ^ 20) len)) 0xFF)
      rw [List.length_replicate, List.replicate_append_replicate] at grown
      simp only [grown]
      rw [show len - left + min left (min (2 ^ 20) len) =
        len - (left - min left (min (2 ^ 20) len)) by omega]
    · change left - min left (min (2 ^ 20) len) < left
      omega
  case done =>
    rintro left s' ⟨le, rfl⟩ stop
    have stop : ¬ 0 < left := of_decide_eq_false stop
    rw [show left = 0 by omega, Nat.sub_zero]
    exact done

theorem Filing.createTruncate_wp (filing : Filing f R put Lost) {path : Path} {x : σ}
    (done : ∀ s, s.disk = .empty → Q () (put s)) :
    Code.wp R anything (createTruncate path) Q (faulted Lost) x := by
  refine (Code.wp_bind _ _).mpr ((Code.wp_perform _).mpr ⟨trivial, fun r x' allowed => ?_⟩)
  rcases filing.create _ _ _ _ allowed with ⟨rfl, s, empty, rfl⟩ | ⟨lost, e, rfl⟩
  · exact done s empty
  · exact ⟨lost, id⟩

theorem Filing.sees (filing : Filing f R put Lost) :
    Sees R anything () (put s) s.disk Lost where
  asksSize := trivial
  size r x' stepped := by
    obtain ⟨s', below, rfl⟩ := filing.on _ _ _ _ stepped
    obtain ⟨rfl, same⟩ := (Faults.sees (f := f) (G := anything) (fun _ _ => trivial)).size r s' below
    exact ⟨rfl, congrArg put same⟩
  asksRead _ _ := trivial
  read off len r x' stepped := by
    obtain ⟨s', below, rfl⟩ := filing.on _ _ _ _ stepped
    obtain ⟨same, answer⟩ :=
      (Faults.sees (f := f) (G := anything) (fun _ _ => trivial)).read off len r s' below
    exact ⟨congrArg put same, answer.imp_right fun failed => ⟨failed.1.imp_right filing.lost, failed.2⟩⟩

theorem Filing.openRw_wp (filing : Filing f R put Lost) {path : Path}
    {Q : VhdReader Unit → σ → Prop}
    (inner : Code.wp R anything (openInner maxParentDepth true () (some path)) Q (faulted Lost) (put s)) :
    Code.wp R anything (VhdReader.openRw path) Q (faulted Lost) (put s) := by
  refine (Code.wp_bind _ _).mpr ((Code.wp_perform _).mpr ⟨trivial, fun r x' allowed => ?_⟩)
  rcases filing.open_ _ _ _ _ _ allowed with ⟨rfl, rfl⟩ | ⟨lost, e, rfl⟩
  · exact inner
  · exact ⟨lost, fsCoreToVhdError_not_corrupt e⟩

theorem Filing.share (filing : Filing f R put Lost) {bat : Option (List Nat)} {next : Option Nat}
    {r : Unit} {x' : σ} (shared : R (put s) (.on () (.share bat next)) r x') :
    x' = put ⟨s.disk, bat, next⟩ := by
  obtain ⟨s', stepped, rfl⟩ := filing.on _ _ _ _ shared
  exact congrArg put (Faults.handler_share stepped)

end File

/-! ## The image -/

/-- A new image: an empty table, a mirror, and the footer behind the table. -/
structure Created (L : Layout) (s : Image) (off : Nat) : Prop where
  image : s = L.opened s.disk off
  opens : Opens s.disk L false off off
  dynamic : L.footer.diskType = .dynamic
  clear : Clear L
  start : L.dataStart ≤ off
  mirror : s.disk.read 0 512 = L.footerBytes
  size : s.disk.size = off + 512
  last : s.disk.read off 512 = L.footerBytes
  empty : ∀ e ∈ L.table s.disk, e = batUnallocated
  near : off < 2 ^ 27
  /-- The tail is where the table's last sector ends. -/
  snug : off = divCeil L.tableEnd sectorSize * sectorSize

theorem Created.nameable {L : Layout} {s : Image} {off : Nat} (created : Created L s off) :
    Nameable off := by
  have aligned := created.opens.aligned
  have size := created.size
  have near := created.near
  exact ⟨by omega, by unfold batUnallocated; omega⟩

theorem Created.dataStart {L : Layout} {s : Image} {off : Nat} (created : Created L s off) :
    L.dataStart = off := by
  refine Nat.le_antisymm created.start ?_
  rw [created.snug]
  refine Nat.mul_le_mul_right _ ((divCeil_le_iff (by decide)).mpr ?_)
  exact Nat.le_trans L.tableEnd_le_metadataEnd L.metadataEnd_le_dataStart

/-- The bytes a create writes. -/
structure Laid (plan : DynamicPlan) (d : ByteStore) : Prop where
  size : d.size = plan.footerAt + 512
  mirror : d.read 0 512 = plan.footer
  header : d.read 512 1024 = plan.header
  last : d.read plan.footerAt 512 = plan.footer
  table : ∀ x, 1536 ≤ x → x < plan.footerAt → d.byte x = 0xFF

section Created

variable {env : BuildEnv} {size bs : Nat} {plan : DynamicPlan} {d : ByteStore} {f : Faults}
  {path : Path}

theorem Planned.table_le (planned : Planned env size bs plan) :
    1536 + plan.entries * 4 ≤ plan.footerAt ∧ plan.footerAt % 512 = 0 ∧
      plan.footerAt < 2 ^ 27 := by
  have few : plan.entries ≤ 2 ^ 24 := planned.few
  have above : plan.entries * 4 ≤ divCeil (plan.entries * 4) 512 * 512 := le_divCeil_mul (by decide)
  have below : divCeil (plan.entries * 4) 512 * 512 < plan.entries * 4 + 512 :=
    divCeil_mul_lt (by decide)
  have length := planned.tableLen
  have place := planned.footerAt
  have whole : plan.tableLen % 512 = 0 := by
    rw [length]
    exact Nat.mul_mod_left _ _
  omega

/-- The layout the planned bytes are read by. -/
theorem Planned.layout (planned : Planned env size bs plan) :
    ∃ L : Layout, L.footerBytes = plan.footer ∧ L.footer.diskType = .dynamic ∧
      L.virtualSize = plan.virtualSize ∧ L.headerOffset = 512 ∧
      DynamicHeader.parse plan.header = .ok L.header ∧ L.tableOffset = 1536 ∧
      L.entries = plan.entries ∧ L.blockSize = bs := by
  have few : plan.entries ≤ 2 ^ 24 := planned.few
  have top := planned.block.le_top
  have covers : plan.virtualSize ≤ plan.entries * bs := by
    rw [planned.entries]
    exact le_divCeil_mul planned.block.pos
  have product : plan.entries * bs ≤ 2 ^ 24 * 2 ^ 31 := Nat.mul_le_mul few top
  obtain ⟨whole, parses⟩ := parse_buildFooter (t := .dynamic) planned.footer (by omega) (by decide)
    rfl (by decide)
  obtain ⟨-, header, parsed, table, entries, block⟩ := parse_buildDynamicHeader
    (show 1536 < 2 ^ 64 by decide) (show plan.entries < 2 ^ 32 by omega) planned.block
  refine ⟨{
    footerBytes := plan.footer
    footer := _
    header := header
    whole := whole
    parses := parses
    sparse := by simp
    parsed := DynamicHeader.parsed parsed
    covers := ?_
    tableFits := ?_
    headerFits := by simp only; decide }, rfl, rfl, rfl, rfl, ?_, table, entries, block⟩
  · rw [entries, block]
    exact covers
  · rw [entries, table]
    omega
  · rw [planned.header]
    exact parsed

theorem Laid.table_empty (planned : Planned env size bs plan) (laid : Laid plan d) {L : Layout}
    (table : L.tableOffset = 1536) (entries : L.entries = plan.entries) :
    ∀ e ∈ L.table d, e = batUnallocated := by
  intro e member
  obtain ⟨fits, -, -⟩ := planned.table_le
  obtain ⟨i, lt, rfl⟩ := List.getElem_of_mem member
  rw [Layout.length_table, entries] at lt
  have slot := Layout.getElem?_table (L := L) (d := d) (i := i) (by omega)
  have bytes : d.read (L.tableOffset + i * 4) 4 = List.replicate 4 0xFF := by
    refine (ByteStore.read_eq_iff (by rw [List.length_replicate])).mpr fun j inside => ?_
    rw [List.getElem_replicate]
    exact laid.table _ (by omega) (by omega)
  rw [bytes, List.getElem?_eq_getElem (by rw [Layout.length_table]; omega)] at slot
  exact (Option.some.inj slot).trans (by decide)

/-- The planned bytes open as a new image. -/
theorem Laid.created (planned : Planned env size bs plan) (laid : Laid plan d) :
    ∃ L, Created L (L.opened d plan.footerAt) plan.footerAt ∧ L.virtualSize = plan.virtualSize ∧
      L.blockSize = bs ∧ L.footerBytes = plan.footer := by
  obtain ⟨L, bytes, dynamic, virtual, header, parsed, table, entries, block⟩ := planned.layout
  obtain ⟨fits, aligned, small⟩ := planned.table_le
  have size := laid.size
  have headerEnd : L.headerEnd = 1536 := by unfold Layout.headerEnd; rw [header]; rfl
  have tableEnd : L.tableEnd = 1536 + plan.entries * 4 := by
    unfold Layout.tableEnd
    rw [table, entries]
  have empty : ∀ e ∈ L.table d, e = batUnallocated := laid.table_empty planned table entries
  have metadata : L.metadataEnd = max 512 (max 1536 (1536 + plan.entries * 4)) := by
    unfold Layout.metadataEnd
    rw [headerEnd, tableEnd]
    rfl
  have start : L.dataStart ≤ plan.footerAt := L.dataStart_le aligned (by omega)
  have tail : tailSector d = L.footerBytes := by
    unfold tailSector
    rw [size, show plan.footerAt + 512 - footerSize = plan.footerAt from Nat.add_sub_cancel _ _,
      bytes]
    exact laid.last
  have parses : Footer.parse (tailSector d) = .ok L.footer := by
    rw [tail]
    exact L.parses
  have snug : plan.footerAt = divCeil L.tableEnd sectorSize * sectorSize := by
    rw [tableEnd, planned.footerAt, planned.tableLen, divCeil_eq (by decide), divCeil_eq (by decide)]
    unfold sectorSize
    omega
  refine ⟨L, ⟨rfl, ⟨?_, ?_, ?_, ?_, ?_, ?_, ?_, ?_, ?_⟩, dynamic, ⟨?_, ?_⟩, start, ?_, size, ?_,
    empty, small, snug⟩, virtual, block, bytes⟩
  · rw [← tail]
    exact .tail parses
  · show d.size % 512 = 0
    omega
  · rw [header]
    show DynamicHeader.parse (d.read 512 1024) = _
    rw [laid.header]
    exact parsed
  · show L.headerEnd ≤ d.size
    omega
  · show L.tableEnd ≤ d.size
    omega
  · rw [Bool.false_and, if_neg Bool.false_ne_true]
    show plan.footerAt = d.size - 512
    omega
  · intro e member live
    exact absurd (empty e member) live
  · intro i j a b _ atI _ liveA _
    exact absurd (empty a (List.mem_of_getElem? atI)) liveA
  · refine ⟨?_, fun no => absurd no (by decide), Or.inl ?_⟩
    · show d.size - 512 ≤ plan.footerAt
      omega
    · show plan.footerAt = d.size - 512
      omega
  · intro x low _
    omega
  · rintro x low _ ⟨_, high⟩
    omega
  · rw [bytes]
    exact laid.mirror
  · rw [bytes]
    exact laid.last

/-- The create writes what it planned, whatever was at the path before. -/
theorem laid_write (planned : Planned env size bs plan) {d : ByteStore}
    (long : d.size = plan.footerAt + 512) :
    Laid plan ((((d.write 0 plan.footer).write 512 plan.header).write plan.footerAt
      plan.footer).write plan.tableOffset (List.replicate plan.tableLen 0xFF)) := by
  have few : plan.entries ≤ 2 ^ 24 := planned.few
  obtain ⟨fits, aligned, small⟩ := planned.table_le
  have place := planned.footerAt
  have top := planned.block.le_top
  have covers : plan.virtualSize ≤ plan.entries * bs := by
    rw [planned.entries]
    exact le_divCeil_mul planned.block.pos
  have product : plan.entries * bs ≤ 2 ^ 24 * 2 ^ 31 := Nat.mul_le_mul few top
  have footer : plan.footer.length = 512 := (parse_buildFooter (t := .dynamic) planned.footer
    (by omega) (by decide) rfl (by decide)).1
  have header : plan.header.length = 1024 := by
    rw [planned.header]
    exact (parse_buildDynamicHeader (by decide) (by omega) planned.block).1
  have table : plan.tableOffset = 1536 := planned.tableOffset
  have ones : (List.replicate plan.tableLen (0xFF : UInt8)).length = plan.tableLen :=
    List.length_replicate
  have whole (d : ByteStore) (off : Nat) (bytes : Bytes) (n : Nat) (is : bytes.length = n)
      (inside : off + n ≤ d.size) : (d.write off bytes).read off n = bytes := by
    subst is
    exact ByteStore.read_write_same _ _ _ inside
  refine ⟨long, ?_, ?_, ?_, fun x low high => ?_⟩
  · rw [ByteStore.read_write_disjoint (by omega), ByteStore.read_write_disjoint (by omega),
      ByteStore.read_write_disjoint (by omega)]
    exact whole _ _ _ _ footer (by omega)
  · rw [ByteStore.read_write_disjoint (by omega), ByteStore.read_write_disjoint (by omega)]
    exact whole _ _ _ _ header (by rw [ByteStore.size_write]; omega)
  · rw [ByteStore.read_write_disjoint (by omega)]
    exact whole _ _ _ _ footer (by rw [ByteStore.size_write, ByteStore.size_write]; omega)
  · rw [ByteStore.byte_write_inside (by simp only [ByteStore.size_write]; omega) (by omega)
      (by omega)]
    exact List.getD_replicate _ (by omega)

/-- The run of a create whose plan is accepted, down to the bytes it lays out. -/
theorem Filing.createPlanned_laid_wp {σ : Type} {R : Handler σ (Op Unit) Op.Res} {put : Image → σ}
    {Lost : Prop} (filing : Filing f R put Lost) (path : Path) (planned : Planned env size bs plan)
    {Q : VhdReader Unit → σ → Prop} {x : σ}
    (done : ∀ L d, Laid plan d → Created L (L.opened d plan.footerAt) plan.footerAt →
      L.virtualSize = plan.virtualSize → L.blockSize = bs → L.footerBytes = plan.footer →
      Q (.base (L.core () true false)) (put (L.opened d plan.footerAt))) :
    Code.wp R anything (do
      let file ← createTruncate path
      let total ← (add64 plan.footerAt footerSize : Checked Nat)
      fileSetLen file total
      fileWrite file 0 plan.footer
      fileWrite file sectorSize plan.header
      fileWrite file plan.footerAt plan.footer
      writeEmptyBat file plan.tableOffset plan.tableLen
      fileSyncData file
      VhdReader.openRw path) Q (faulted Lost) x := by
  obtain ⟨fits, aligned, small⟩ := planned.table_le
  have few : plan.entries ≤ 2 ^ 24 := planned.few
  have place := planned.footerAt
  have table := planned.tableOffset
  have top := planned.block.le_top
  have covers : plan.virtualSize ≤ plan.entries * bs := by
    rw [planned.entries]
    exact le_divCeil_mul planned.block.pos
  have product : plan.entries * bs ≤ 2 ^ 24 * 2 ^ 31 := Nat.mul_le_mul few top
  have footer : plan.footer.length = 512 := (parse_buildFooter (t := .dynamic) planned.footer
    (by omega) (by decide) rfl (by decide)).1
  have header : plan.header.length = 1024 := by
    rw [planned.header]
    exact (parse_buildDynamicHeader (by decide) (by omega) planned.block).1
  refine (Code.wp_bind _ _).mpr (filing.createTruncate_wp fun s empty => ?_)
  rw [add64_of_lt (by unfold footerSize; omega), Code.lift_ok_bind]
  refine (Code.wp_bind _ _).mpr (filing.fileSetLen_wp (by unfold footerSize; omega) ?_)
  refine (Code.wp_bind _ _).mpr (filing.fileWrite_wp (by
    simp only [ByteStore.size_resize, footerSize]; omega) ?_)
  refine (Code.wp_bind _ _).mpr (filing.fileWrite_wp (by
    simp only [ByteStore.size_write, ByteStore.size_resize, footerSize, sectorSize]; omega) ?_)
  refine (Code.wp_bind _ _).mpr (filing.fileWrite_wp (by
    simp only [ByteStore.size_write, ByteStore.size_resize, footerSize]; omega) ?_)
  refine (Code.wp_bind _ _).mpr (filing.writeEmptyBat_wp (by
    simp only [ByteStore.size_write, ByteStore.size_resize, footerSize]; omega) ?_)
  refine (Code.wp_bind _ _).mpr (filing.fileSyncData_wp (filing.openRw_wp ?_))
  simp only [empty]
  have laid := laid_write planned (d := ByteStore.empty.resize (plan.footerAt + footerSize)
    (by unfold footerSize; omega)) rfl
  obtain ⟨L, created, virtual, block, bytes⟩ := laid.created planned
  refine openInner_dynamic_wp filing.sees created.opens created.dynamic
    ⟨trivial, fun r s' shared => ?_⟩ fun lost _ other => ⟨lost, other⟩
  rw [filing.share shared]
  exact done L _ laid created virtual block bytes

theorem Filing.createPlanned_wp {σ : Type} {R : Handler σ (Op Unit) Op.Res} {put : Image → σ}
    {Lost : Prop} (filing : Filing f R put Lost) (path : Path) (planned : Planned env size bs plan)
    {Q : VhdReader Unit → σ → Prop} {x : σ}
    (done : ∀ L d, Created L (L.opened d plan.footerAt) plan.footerAt →
      L.virtualSize = plan.virtualSize → L.blockSize = bs → L.footerBytes = plan.footer →
      Q (.base (L.core () true false)) (put (L.opened d plan.footerAt))) :
    Code.wp R anything (do
      let file ← createTruncate path
      let total ← (add64 plan.footerAt footerSize : Checked Nat)
      fileSetLen file total
      fileWrite file 0 plan.footer
      fileWrite file sectorSize plan.header
      fileWrite file plan.footerAt plan.footer
      writeEmptyBat file plan.tableOffset plan.tableLen
      fileSyncData file
      VhdReader.openRw path) Q (faulted Lost) x :=
  filing.createPlanned_laid_wp path planned fun L d _ => done L d

theorem createDynamic_wp (path : Path) (word : bs < 2 ^ 32) (accepted : planDynamic env size bs = .ok plan)
    (s : Image) :
    Code.wp f.handler anything (createDynamic env path size bs)
      (fun r s' => ∃ L off, Created L s' off ∧ r = .base (L.core () true false) ∧ L.blockSize = bs ∧
        sizeWithExactGeometry size = .ok L.virtualSize) (faulted f.Faulty) s := by
  have planned := planDynamic_ok word accepted
  unfold createDynamic
  rw [accepted, Code.lift_ok_bind]
  exact f.filing.createPlanned_wp path planned fun L d created virtual block _ =>
    ⟨L, _, created, rfl, block, by rw [virtual]; exact planned.rounded⟩

/-- Whatever may fail, a create that succeeds leaves a new image, opened. -/
theorem createDynamic_created {s s' : Image} {t} {r : VhdReader Unit} (word : bs < 2 ^ 32)
    (run : Prog.Runs f.handler (createDynamic env path size bs) s t (.ret (.ok r)) s') :
    ∃ L off, Created L s' off ∧ r = .base (L.core () true false) ∧ L.blockSize = bs ∧
      sizeWithExactGeometry size = .ok L.virtualSize := by
  cases accepted : planDynamic env size bs with
  | ok plan => exact Prog.wp_finished (createDynamic_wp path word accepted s) run
  | err e =>
      unfold createDynamic at run
      rw [accepted] at run
      cases run
  | panic =>
      unfold createDynamic at run
      rw [accepted] at run
      cases run
  | outOfFuel =>
      unfold createDynamic at run
      rw [accepted] at run
      cases run

theorem createDynamic_succeeds (path : Path) (word : bs < 2 ^ 32)
    (accepted : planDynamic env size bs = .ok plan) (s : Image) :
    ∃ t r s', Prog.Runs Faults.none.handler (createDynamic env path size bs) s t
      (.ret (.ok r)) s' := by
  obtain ⟨t, run⟩ := Prog.run_runs idealStep (idealStep_allowed .none)
    (createDynamic (δ := Unit) env path size bs) s
  rcases Code.wp_run idealStep (createDynamic_wp (f := .none) path word accepted s)
    (idealStep_allowed .none) with ⟨r, ended, -⟩ | ⟨e, -, faulty, -⟩
  · rw [ended] at run
    exact ⟨t, r, _, run⟩
  · exact absurd faulty Faults.none_not_faulty

/-! ## A small disk -/

def smallEnv : BuildEnv := ⟨0, List.replicate 16 0, rfl⟩

theorem small_size : (sizeWithExactGeometry 4096 : Checked Nat) = .ok 34816 := by decide +kernel

/-- 4 KiB in blocks of one sector are a disk that can be made. -/
theorem small_created : ∃ t r s', Prog.Runs Faults.none.handler
    (createDynamic smallEnv [] 4096 512) ⟨.empty, none, none⟩ t (.ret (.ok r)) s' ∧
    r.virtualSize = 34816 := by
  obtain ⟨plan, accepted⟩ :=
    Outcome.ok_of_isSome (x := planDynamic smallEnv 4096 512) (by decide +kernel)
  obtain ⟨t, r, s', run⟩ := createDynamic_succeeds [] (by decide) accepted
    ⟨.empty, none, none⟩
  obtain ⟨L, off, -, rfl, -, rounded⟩ := createDynamic_created (by decide) run
  rw [small_size] at rounded
  exact ⟨t, _, s', run, (Outcome.ok.inj rounded).symm⟩

theorem small_image : ∃ L s off, Created L s off ∧ L.virtualSize = 34816 ∧ L.blockSize = 512 := by
  obtain ⟨t, r, s, run, size⟩ := small_created
  obtain ⟨L, off, created, rfl, block, -⟩ := createDynamic_created (by decide) run
  exact ⟨L, s, off, created, size, block⟩

end Created

end ImgVhd
