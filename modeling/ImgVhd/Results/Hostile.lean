import ImgVhd.Chain.Read

/-! # Hostile images

No bytes make an open or a read panic, and a sparse image that opens is read
inside the data area its open computed, whatever its fields say.
-/

namespace ImgVhd

open Foundation

section Hostile

/-- What the open of a sparse image computed, run on its bytes alone. -/
def Computed (d : ByteStore) (found : FoundFooter) (tables : SparseTables) : Prop :=
  (openSparse () d.size found).run idealStep ⟨d, none, none⟩ = (.ok tables, ⟨d, none, none⟩)

/-- `[o, o + n)` is in the data area, and so in none of the metadata. -/
structure InDataArea (d : ByteStore) (found : FoundFooter) (tables : SparseTables) (o n : Nat) : Prop where
  start : tables.dataStart ≤ o
  stop : o + n ≤ tables.dataEnd
  mirror : footerSize ≤ o
  header : found.footer.dataOffset + dynHeaderSize ≤ o
  table : tables.tableEnd ≤ o
  footer : found.fromMirror = false → o + n ≤ d.size - footerSize

variable {L : Layout} {d : ByteStore} {fm : Bool} {dataEnd top : Nat}

theorem Opens.computed (opens : Opens d L fm dataEnd top) :
    Computed d ⟨L.footer, L.footerBytes, fm, tailHasCookie d⟩ (L.tables d dataEnd top) := by
  have sees := Faults.sees (f := .none) (s := ⟨d, none, none⟩) (G := fun _ _ => True)
    fun _ _ => trivial
  rcases Code.wp_run idealStep (openSparse_wp sees opens.footer L.sparse) (idealStep_allowed .none)
    with ⟨t, ended, same, L', dataEnd', top', opens', footer, bytes, rfl⟩ | ⟨e, -, -, why⟩
  · obtain ⟨rfl, -, rfl⟩ := opens.unique opens'
    obtain rfl := opens.tail.unique opens'.tail
    exact Prod.ext ended same
  · rcases why with faulty | none_
    · exact absurd faulty.1 Faults.none_not_faulty
    · exact absurd opens (none_ _ _ _ _)

theorem Opens.inDataArea {δ : Type} {dev : δ} {wr : Bool} {o n : Nat} (opens : Opens d L fm dataEnd top)
    (inData : (L.core dev wr fm).InData d o n) :
    InDataArea d ⟨L.footer, L.footerBytes, fm, tailHasCookie d⟩ (L.tables d dataEnd top) o n := by
  obtain ⟨low, high⟩ := inData
  have low : L.dataStart ≤ o := low
  have high : o + n ≤ if (fm && !tailHasCookie d) = true then d.size else d.size - footerSize := high
  have start := L.metadataEnd_le_dataStart
  have stop := opens.stop
  refine ⟨low, ?_, ?_, ?_, ?_, fun tail => ?_⟩
  · show o + n ≤ dataEnd
    rw [stop]
    exact high
  · exact Nat.le_trans L.footer_le_metadataEnd (Nat.le_trans start low)
  · exact Nat.le_trans L.headerEnd_le_metadataEnd (Nat.le_trans start low)
  · exact Nat.le_trans L.tableEnd_le_metadataEnd (Nat.le_trans start low)
  · have tail : fm = false := tail
    rw [tail, Bool.false_and, if_neg Bool.false_ne_true] at high
    exact high

theorem VhdReader.Asks.devices {δ : Type} {disk : δ → ByteStore} {r : VhdReader δ} {dev : δ}
    {o n : Nat} (asks : r.Asks disk dev o n) : dev ∈ r.devices := by
  induction r with
  | base c => exact List.mem_singleton.mpr asks.1
  | above c p ih =>
      rcases asks with own | below
      · exact List.mem_cons.mpr (Or.inl own.1)
      · exact List.mem_cons_of_mem _ (ih below)

variable {f : Faults} {how : Option Path} {dev : Nat} {wr : Bool} {w : World} {r : VhdReader Nat}

theorem Chain.sparse (chain : Chain w r) (kind : r.diskType ≠ .fixed) :
    ∃ L fm dataEnd top, Opens (w.disk r.core.dev) L fm dataEnd top ∧
      r.core = L.core r.core.dev r.core.writable fm ∧
      ∀ o n, r.Asks w.disk r.core.dev o n → r.core.InData (w.disk r.core.dev) o n := by
  cases chain with
  | fixed is long fixed => exact absurd fixed kind
  | dynamic opens dynamic cached => exact ⟨_, _, _, _, opens, rfl, fun o n asks => asks.2⟩
  | above opens differencing cached parent apart =>
      refine ⟨_, _, _, _, opens, rfl, fun o n asks => ?_⟩
      rcases asks with own | below
      · exact own.2
      · exact absurd below.devices apart

theorem Chain.dynamic_reads {o n : Nat} (chain : Chain w r) (dynamic : r.diskType = .dynamic)
    (asks : r.Asks w.disk dev o n) : o + n ≤ (w.disk dev).size := by
  cases chain with
  | fixed is long fixed =>
      rw [show (VhdReader.base (fixedCore _ _ _)).diskType = .fixed from fixed] at dynamic
      cases dynamic
  | above opens differencing cached parent apart =>
      rw [show (VhdReader.above (Layout.core _ _ _ _) _).diskType = .differencing from differencing]
        at dynamic
      cases dynamic
  | dynamic opens kind cached =>
      obtain ⟨rfl, inData⟩ := asks
      exact Nat.le_trans (opens.inDataArea inData).stop opens.dataEnd_le

/-- Any device can be presented, and an image that opens can be read, inside the data
    area that follows from the footer it is found by. -/
theorem hostile_image_is_read_safely (known : how = none → dev < w.next) :
    (∀ t out w', Prog.Runs (World.handler f) (openAs dev wr how) w t (.ret out) w' → out.Settled) ∧
    ∀ t r w', Prog.Runs (World.handler f) (openAs dev wr how) w t (.ret (.ok r)) w' →
      r.diskType ≠ .fixed → ∃ found tables, FooterOf (w'.disk r.core.dev) found ∧
        Computed (w'.disk r.core.dev) found tables ∧
        r.core = sparseCore r.core.dev r.core.writable found tables ∧
        ∀ off buf, off + buf.length ≤ r.virtualSize →
          (∀ i < buf.length, (off + i) / tables.header.blockSize < tables.bat.length ∧
            (off + i) % tables.header.blockSize / sectorSize / 8 < tables.bitmapSize) ∧
          ∀ t' p w'', Prog.Runs (World.handler f) (r.readAt off buf) w' t' p w'' →
            (∀ e ∈ t', ∀ o n, e.op = .on r.core.dev (.readAt o n) →
              InDataArea (w'.disk r.core.dev) found tables o n) ∧
            (∀ out, p = .ret out → (∃ bytes, out = .ok bytes) ∨ ∃ e, out = .err e ∧ Reported e) ∧
            (¬ f.Faulty → r.diskType = .dynamic → ∀ out, p = .ret out → ∃ bytes, out = .ok bytes) := by
  have whole := openAs_chain (f := f) wr known
  constructor
  · intro t out w' run
    rcases Code.wp_finished whole run with ⟨r, rfl, -⟩ | ⟨e, rfl, -⟩
    · trivial
    · trivial
  · intro t r w' run sparse
    obtain ⟨chain, -⟩ := Prog.wp_finished whole run
    obtain ⟨L, fm, dataEnd, top, opens, core, own⟩ := chain.sparse sparse
    refine ⟨_, _, opens.footer, opens.computed, core, fun off buf within => ⟨fun i lt => ?_, ?_⟩⟩
    · have size : r.virtualSize = L.virtualSize := by
        unfold VhdReader.virtualSize
        rw [core]
        rfl
      have split := L.block_split (off + i)
      have covers := L.bitmapSize_covers
      have whole := L.blockSize_mod
      constructor
      · show (off + i) / L.blockSize < (L.table (w'.disk r.core.dev)).length
        rw [L.length_table]
        exact L.block_lt (by omega)
      · show (off + i) % L.blockSize / 512 / 8 < L.bitmapSize
        omega
    · intro t' p w'' read
      obtain ⟨asks, ended⟩ := chain.read_runs within read
      refine ⟨fun e member o n is => ?_, fun out is => ?_, fun sound dynamic out is => ?_⟩
      · have inData := own o n (asks e member _ o n is)
        rw [core] at inData
        exact opens.inDataArea inData
      · exact (ended out is).imp_right fun ⟨e, failed, reported, _⟩ => ⟨e, failed, reported⟩
      · rcases ended out is with ok | ⟨e, -, -, faulty | ⟨dev, o, n, asked, outside⟩⟩
        · exact ok
        · exact absurd faulty sound
        · exact absurd (chain.dynamic_reads dynamic asked) (Nat.not_le.mpr outside)

/-- The disk of one block, opened by its path: a read of its last bytes asks for
    nothing but its block, and gets the block's bytes. -/
theorem base_is_read_safely : ∃ (r : VhdReader Nat) (w' : World) (t t' : List (Event (Op Nat) Op.Res))
    (found : FoundFooter) (tables : SparseTables) (buf : Bytes), buf.length = 20 ∧
    Prog.Runs (World.handler .none) (openAs 0 false (some [.normal ['b', 'a', 's', 'e']])) pair t
      (.ret (.ok r)) w' ∧ r.diskType = .dynamic ∧ FooterOf (w'.disk r.core.dev) found ∧
    Computed (w'.disk r.core.dev) found tables ∧ tables.dataStart = 2048 ∧ tables.dataEnd = 3072 ∧
    Prog.Runs (World.handler .none) (r.readAt 488 buf) w' t' (.ret (.ok (List.replicate 20 7))) w' ∧
    ∀ e ∈ t', ∀ o n, e.op = .on r.core.dev (.readAt o n) → 2048 ≤ o ∧ o + n ≤ 3072 := by
  obtain ⟨buf, length⟩ : ∃ buf : Bytes, buf.length = 20 := ⟨List.replicate 20 1, List.length_replicate⟩
  obtain ⟨t, w', opened, disk⟩ : ∃ t w', Prog.Runs (World.handler .none)
      (openAs 0 false (some [.normal ['b', 'a', 's', 'e']])) pair t
        (.ret (.ok (.base (baseLayout.core 0 false false)))) w' ∧ w'.disk 0 = baseDisk := by
    obtain ⟨t, opened⟩ := World.openFile_ideal (w := pair) [.normal ['b', 'a', 's', 'e']] 0 false rfl
      baseDisk_opens rfl
    exact ⟨t, _, opened, congrArg Image.disk World.image_put⟩
  have known : (some [.normal ['b', 'a', 's', 'e']] : Option Path) = none → 0 < pair.next :=
    fun no => by cases no
  obtain ⟨-, safely⟩ := hostile_image_is_read_safely known
  obtain ⟨found, tables, is, computed, -, reads⟩ := safely t _ w' opened (by decide)
  -- the footer is the one at the end, and the tables are what follows from it
  have own : Computed baseDisk found tables := disk ▸ computed
  obtain rfl := FooterOf.unique (disk ▸ is) baseDisk_opens.footer
  obtain rfl : baseLayout.tables baseDisk 3072 3072 = tables := by
    have both := (show Computed _ _ _ from baseDisk_opens.computed).symm.trans own
    exact Outcome.ok.inj (congrArg Prod.fst both)
  obtain ⟨chain, -⟩ := Prog.wp_finished (openAs_chain false known) opened
  have within : 488 + buf.length ≤ (VhdReader.base (baseLayout.core 0 false false)).virtualSize := by
    rw [length]
    decide
  obtain ⟨t', run⟩ := chain.answers (fun dev o n ⟨here, _, high⟩ => by
    subst here
    exact Nat.le_trans high (by split <;> omega)) within
  have read := run.mono fun _ _ _ _ both => both.1
  have values : (List.range 20).map (fun i =>
      (VhdReader.base (baseLayout.core 0 false false)).value w'.disk (488 + i)) = List.replicate 20 7 := by
    simp only [VhdReader.value, show (baseLayout.core (0 : Nat) false false).dev = 0 from rfl, disk]
    decide +kernel
  obtain ⟨-, inside⟩ := reads 488 buf within
  obtain ⟨inside, -⟩ := inside t' _ w' read
  rw [length, values] at read
  refine ⟨_, w', t, t', _, _, buf, length, opened, rfl, is, computed, rfl, rfl, read,
    fun e member o n asked => ?_⟩
  have area := inside e member o n asked
  exact ⟨area.start, area.stop⟩

end Hostile

end ImgVhd
