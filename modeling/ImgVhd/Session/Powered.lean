import ImgVhd.Session.Outlasts

/-! # Sessions with power losses

A session as before, on a device with a volatile cache, where the power may fail
between any two calls or in the middle of one. What is left then is any mixture
of the sectors of the versions that were not flushed.
-/

namespace ImgVhd

open Foundation

section Survives

variable {L : Layout} {A : Values} {off : Nat} {H : List ByteStore} {d : ByteStore}
  {log : List Attempt}

theorem Weathers.slot {i v : Nat} (weathers : Weathers L A off H) (aligned : L.tableOffset % 4 = 0)
    (survives : d.Survives sectorSize H) (slot : (L.table d)[i]? = some v) :
    ∃ e ∈ H, (L.table e)[i]? = some v := by
  have top := L.metadataEnd_le_dataStart
  have tableTop := L.tableEnd_le_metadataEnd
  have stop : L.tableEnd = L.tableOffset + L.entries * 4 := rfl
  have index : i < L.entries := by
    have lt := (List.getElem?_eq_some_iff.mp slot).1
    rwa [Layout.length_table] at lt
  obtain ⟨e₀, member₀, size⟩ := survives.size
  have long := (weathers.version e₀ member₀).long
  obtain ⟨e, member, same⟩ := survives.read (L.tableOffset + i * 4) 4
    (k := (L.tableOffset + i * 4) / sectorSize) (by omega) fun j lt => by unfold sectorSize; omega
  refine ⟨e, member, ?_⟩
  rw [Layout.getElem?_table index, ← same, ← Layout.getElem?_table index]
  exact slot

/-- Any mixture of the versions is a version by itself. -/
theorem Weathers.survives (weathers : Weathers L A off H) (aligned : L.tableOffset % 4 = 0)
    (survives : d.Survives sectorSize H) :
    ∃ off', d.size = off' + 512 ∧ Weathers L A off' [d] := by
  have top := L.metadataEnd_le_dataStart
  have footer := L.footer_le_metadataEnd
  have headerTop := L.headerEnd_le_metadataEnd
  have covers := L.bitmapSize_covers
  have whole := L.blockSize_mod
  have total := L.blockTotal_eq
  obtain ⟨e₀, member₀, size⟩ := survives.size
  have version₀ := weathers.version e₀ member₀
  have sectors := version₀.aligned
  have long := version₀.long
  have headerSame : d.read L.headerOffset dynHeaderSize = e₀.read L.headerOffset dynHeaderSize :=
    survives.read_same (by
      have within : L.headerOffset + dynHeaderSize = L.headerEnd := rfl
      omega) fun e' member j lt =>
        (weathers.beside e' member e₀ member₀).header _ (Nat.le_add_right _ _) (Nat.add_lt_add_left lt _)
  obtain ⟨e₁, member₁, mirror⟩ := survives.read 0 512 (k := 0) (by omega)
    fun j lt => by unfold sectorSize; omega
  obtain ⟨e₂, member₂, last⟩ := survives.read (d.size - 512) 512
    (k := (d.size - 512) / sectorSize) (by omega) fun j lt => by unfold sectorSize; omega
  -- a block in the table is inside whatever size survived
  have inside {i v : Nat} (slot : (L.table d)[i]? = some v) (live : Live v) :
      L.dataStart ≤ hostOff v ∧ hostOff v + L.blockTotal + 512 ≤ d.size := by
    obtain ⟨e, member, slot⟩ := weathers.slot aligned survives slot
    have inTable := List.mem_of_getElem? slot
    rw [size]
    exact ⟨((weathers.version e member).placed v inTable live).1,
      (weathers.beside e member e₀ member₀).inside v inTable live⟩
  refine ⟨d.size - 512, by omega, fun y only => ?_, fun y only y' only' => ?_⟩
  · rw [List.mem_singleton.mp only]
    refine ⟨by omega, by omega, ?_, ?_, fun v inTable live => ?_, fun i free => ?_⟩
    · rw [mirror]
      exact (weathers.version e₁ member₁).mirror
    · rw [headerSame]
      exact version₀.header
    · obtain ⟨i, slot⟩ := List.getElem?_of_mem inTable
      have place := inside slot live
      omega
    · obtain ⟨e, member, free⟩ := weathers.slot aligned survives free
      exact (weathers.version e member).holes i free
  · rw [List.mem_singleton.mp only, List.mem_singleton.mp only']
    refine ⟨fun _ _ _ => rfl, ?_, fun v inTable live => ?_, fun i j v w slotI slotJ => ?_,
      fun i v slot live q lt => ?_⟩
    · rw [last, size]
      exact (weathers.beside e₂ member₂ e₀ member₀).ends
    · obtain ⟨i, slot⟩ := List.getElem?_of_mem inTable
      exact (inside slot live).2
    · obtain ⟨e, member, slotI⟩ := weathers.slot aligned survives slotI
      obtain ⟨e', member', slotJ⟩ := weathers.slot aligned survives slotJ
      exact (weathers.beside e member e' member').spread i j v w slotI slotJ
    · have place := inside slot live
      obtain ⟨e, member, slot⟩ := weathers.slot aligned survives slot
      obtain ⟨e₃, member₃, data⟩ := survives.byte (x := hostOff v + L.bitmapSize + q) (by omega)
      obtain ⟨e₄, member₄, bits⟩ := survives.byte (x := hostOff v + q / 512 / 8) (by omega)
      constructor
      · rw [data]
        exact ((weathers.beside e member e₃ member₃).held i v slot live q lt).1
      · intro clear
        unfold bitAt at clear
        rw [bits] at clear
        exact ((weathers.beside e member e₄ member₄).held i v slot live q lt).2 clear

/-- A version that stands by itself is a durable image. -/
theorem Weathers.durable (weathers : Weathers L (Allowed log) off [d]) (behind : d.size = off + 512) :
    Durable L log ⟨d, some (L.table d), some off⟩ (L.table d) off := by
  have version := weathers.version d List.mem_cons_self
  have beside := weathers.beside d List.mem_cons_self d List.mem_cons_self
  have sectors := version.aligned
  have long := version.long
  refine ⟨⟨rfl, rfl, L.length_table, version.header, fun _ _ slot _ => slot, fun i e free there live => ?_,
    version.placed, fun i j v w other slotI slotJ liveV liveW =>
      beside.spread i j v w slotI slotJ liveV liveW (Or.inl other), by omega, Nat.le.intro behind.symm⟩,
    ⟨by omega, Or.inl ⟨behind, ?_⟩⟩, version.mirror, fun b inside => ?_⟩
  · rw [free] at there
    exact absurd (Option.some.inj there).symm live
  · have ends := beside.ends
    rw [behind, Nat.add_sub_cancel] at ends
    exact ends
  · have split := L.block_split b
    have slot := Layout.getElem?_table (L := L) (d := d) (L.block_lt inside)
    by_cases live : Live (ofBe (d.read (L.tableOffset + b / L.blockSize * 4) 4))
    · have held := beside.held _ _ slot live _ split.2
      rw [split.1] at held
      rw [Layout.value_allocated slot live]
      split
      · exact held.1
      · rename_i clear
        exact held.2 (Bool.eq_false_iff.mpr clear)
    · rw [Decidable.not_not.mp live] at slot
      have hole := version.holes _ slot _ split.2
      rw [split.1] at hole
      rw [Layout.value_unallocated slot]
      exact hole

theorem Sheltered.survives (sheltered : Sheltered L (Allowed log) off d H) {d' : ByteStore}
    (aligned : L.tableOffset % 4 = 0) (survives : d'.Survives sectorSize H) :
    ∃ off', Durable L log ⟨d', some (L.table d'), some off'⟩ (L.table d') off' ∧
      Sheltered L (Allowed log) off' d' [d'] := by
  obtain ⟨off', behind, weathers⟩ := sheltered.weathers.survives aligned survives
  exact ⟨off', weathers.durable behind, weathers, List.mem_cons_self, fun e member => by
    rw [List.mem_singleton.mp member]⟩

end Survives

/-! ## One write -/

theorem Allowed.missed {log : List Attempt} {offset b : Nat} {buf : Bytes} {v : UInt8} {done : Bool}
    (missed : payload offset buf b = none) :
    Allowed (⟨offset, buf, done⟩ :: log) b v ↔ Allowed log b v := by
  simp [Allowed, missed]

section Write

variable {L : Layout} {log : List Attempt} {f : Faults} {s s' : Image} {bat : List Nat}
  {off offset : Nat} {buf : Bytes} {fm : Bool} {H H' : List ByteStore} {d : ByteStore}

/-- A write that returned, with nothing but its outcome left to survive. -/
theorem Sheltered.settle (sheltered : Sheltered L (Allowed (⟨offset, buf, false⟩ :: log)) off d H)
    (settled : buf = [] ∨ ∀ e ∈ H, e = d)
    (own : ∀ b u, payload offset buf b = some u → L.own d (L.table d) b = some u) :
    Sheltered L (Allowed (⟨offset, buf, true⟩ :: log)) off d H := by
  have missed {b : Nat} {v : UInt8} (none_ : payload offset buf b = none)
      (allowed : Allowed (⟨offset, buf, false⟩ :: log) b v) :
      Allowed (⟨offset, buf, true⟩ :: log) b v :=
    (Allowed.missed none_).mpr ((Allowed.missed none_).mp allowed)
  refine ⟨?_, sheltered.here, sheltered.below⟩
  rcases settled with rfl | only
  · refine sheltered.weathers.mono fun b v => missed ?_
    cases carried : payload offset [] b with
    | none => rfl
    | some u =>
        have inside := payload_inside carried
        simp only [List.length_nil] at inside
        omega
  refine sheltered.weathers.revalue (fun e member i free q lt hole => ?_)
    fun e member e' member' i v slot live held q lt => ?_
  · cases carried : payload offset buf (i * L.blockSize + q) with
    | none => exact missed carried hole
    | some u =>
        have took := own _ u carried
        rw [only e member] at free
        rw [Layout.own_unallocated (by rw [(L.block_of lt).1]; exact free)] at took
        cases took
  · obtain ⟨byte, hole⟩ := held q lt
    cases carried : payload offset buf (i * L.blockSize + q) with
    | none => exact ⟨missed carried byte, fun clear => missed carried (hole clear)⟩
    | some u =>
        obtain ⟨w, slot', -, bit, at_⟩ := Layout.own_eq_some.mp (own _ u carried)
        rw [(L.block_of lt).1, ← only e member, slot] at slot'
        rw [(L.block_of lt).2] at bit at_
        cases slot'
        rw [only e' member']
        refine ⟨?_, fun clear => ?_⟩
        · rw [at_]
          simp [Allowed, carried]
        · rw [bit] at clear
          cases clear

/-- What survives of a write, wherever it is cut. -/
theorem Durable.write_sheltered {p : Io Unit Unit} {t} (durable : Durable L log s bat off)
    (sheltered : Sheltered L (Allowed log) off s.disk H) (clear : Clear L)
    (dynamic : L.footer.diskType = .dynamic) (within : offset + buf.length ≤ L.virtualSize)
    (run : Prog.Runs f.cached ((VhdReader.base (L.core () true fm)).writeAt offset buf) (s, H) t p
      (s', H')) :
    ∃ off', s'.nextAllocOff = some off' ∧
      Sheltered L (Allowed (⟨offset, buf, succeeded p⟩ :: log)) off' s'.disk H' := by
  have issues := writeAt_wp_rule fm (sequentialRule (f := f) clear (trail_atTail L)) dynamic within
    (Between.start (h := []) offset buf durable.sound durable.trailed)
  have order := writeAt_ordered (L.core () true fm) lets_ordered offset buf dynamic []
  unfold Code.wp at issues
  unfold Code.wlp at order
  have both := Prog.wp_and
    (Prog.wp_part (H := f.cached.traced) (x := ((s, H), []))
      (fun x : (Image × List ByteStore) × History => (x.1.1, x.2)) issues
      fun x op r x' stepped => ⟨Faults.cached_only stepped.1, stepped.2⟩)
    (Prog.wp_part (H := f.cached.traced) (x := ((s, H), [])) Prod.snd order
      fun x op r x' stepped => stepped.2)
  have kept := Prog.wp_invariant (H := f.cached.traced) (I := fun x => ∃ off',
    x.1.1.nextAllocOff = some off' ∧
      Outlasts L (Allowed (⟨offset, buf, false⟩ :: log)) x.1.1 x.2 x.1.2 off') both
    (fun _ _ _ _ _ _ stepped => stepped) ?kept ?start
  case start =>
    exact ⟨off, durable.sound.tail, ⟨sheltered.weathers.mono fun b v allowed =>
      allowed.attempted (Or.inl rfl), sheltered.here, sheltered.below⟩, nofun, nofun⟩
  case kept =>
    rintro ⟨⟨s₁, H₁⟩, h₁⟩ op r x' ⟨issued, ordered⟩ ⟨off₁, tail, outlasts⟩ stepped
    -- taking or dropping the lock changes nothing
    have lock (op : ImageOp) (r : op.Res) (still : (s₁.step op).2 = s₁) (fixed : ¬ op.Resizes)
        (stepped : f.cached.traced ((s₁, H₁), h₁) (.on () op) r x') : ∃ off',
        x'.1.1.nextAllocOff = some off' ∧
          Outlasts L (Allowed (⟨offset, buf, false⟩ :: log)) x'.1.1 x'.2 x'.1.2 off' := by
      have size : x'.1.1.disk.size = s₁.disk.size :=
        Faults.handler_level (by exact fixed) (Faults.cached_only stepped.1)
      refine outlasts.kept tail stepped (Nat.le_of_eq size.symm) ⟨off₁, by rw [still]; exact tail, ?_⟩
      rw [still]
      exact outlasts.weathers.subset (List.forall_mem_cons.mpr ⟨outlasts.here, fun _ member => member⟩)
    cases issued with
    | lock known => exact lock .lockBat r rfl id stepped
    | unlock known => exact lock .unlockBat r rfl id stepped
    | abandon held denied => exact lock .unlockBat r rfl id stepped
    | @inside _ _ _ op held permitted =>
        obtain ⟨bat', off', intact, committed, -⟩ := held
        have sound := intact.sound
        have same := sound.at_tail tail
        subst same
        have below : f.handler.traced (s₁, h₁) (.on () op) r (x'.1.1, x'.2) :=
          ⟨Faults.cached_only stepped.1, stepped.2⟩
        obtain ⟨_, _, after⟩ := sound.traced_step clear.next committed permitted below
        exact outlasts.kept tail stepped after.evolves.size (outlasts.step clear sound intact.trailed
          committed permitted ordered fun b v carried => by simp [Allowed, carried])
  have traced := run.traced []
  cases returned : succeeded p with
  | false =>
      obtain ⟨off', tail, outlasts⟩ := Prog.wp_cut kept traced (fun _ _ held => held.2)
        fun _ _ reached => reached.2
      exact ⟨off', tail, outlasts.toSheltered⟩
  | true =>
      have value := succeeded_iff.mp returned
      cases p with
      | call op next => cases value
      | ret out =>
          cases value
          obtain ⟨⟨⟨bat', off', intact, -, written⟩, flushed⟩, off₁, tail, outlasts⟩ :=
            Prog.wp_finished kept traced
          have sound := intact.sound
          refine ⟨off₁, tail, outlasts.toSheltered.settle
            ((flushed () rfl).imp_right outlasts.clean) fun b u carried => ?_⟩
          have inside := payload_inside carried
          rw [sound.own_table b (by omega)]
          exact written b u inside.2 carried

end Write

end ImgVhd
