import ImgVhd.Chain.Open
import ImgVhd.Reading.Fixed

/-! # Reading a chain

What a virtual byte of a chain is, from the bytes of its images alone, and the
read that answers it. A level is asked for bytes it does not hold itself only
below the parent's end, and only reads its own device inside its data area.
-/

namespace ImgVhd

open Foundation

section Value

variable {δ : Type}

/-- The byte an image itself holds at virtual offset `b`, if it holds one. -/
def Core.own (c : Core δ) (d : ByteStore) (b : Nat) : Option UInt8 :=
  match c.dynamic with
  | none => some (d.byte b)
  | some hdr =>
      let entry := ofBe (d.read (hdr.tableOffset + b / hdr.blockSize * 4) 4)
      if entry ≠ batUnallocated ∧ bitAt d (entry * sectorSize) (b % hdr.blockSize / sectorSize) = true
      then some (d.byte (entry * sectorSize + c.bitmapSize + b % hdr.blockSize))
      else none

/-- The bytes of a device an open lets blocks lie in. -/
def Core.InData (c : Core δ) (d : ByteStore) (off len : Nat) : Prop :=
  match c.dynamic with
  | none => off + len ≤ c.virtualSize
  | some hdr =>
      divCeil (max footerSize (max (c.footer.dataOffset + dynHeaderSize)
        (hdr.tableOffset + hdr.maxTableEntries * 4))) sectorSize * sectorSize ≤ off ∧
      off + len ≤ if c.footerFromMirror && !tailHasCookie d then d.size else d.size - footerSize

/-- What virtual byte `b` reads as: from the first image that holds it, and 0
    where none does or the parent ends before it. -/
def VhdReader.value (disk : δ → ByteStore) : VhdReader δ → Nat → UInt8
  | .base c, b => (c.own (disk c.dev) b).getD 0
  | .above c p, b =>
      (c.own (disk c.dev) b).getD (if p.virtualSize ≤ b then 0 else p.value disk b)

/-- The reads a chain may issue to its devices. -/
def VhdReader.Asks (disk : δ → ByteStore) : VhdReader δ → δ → Nat → Nat → Prop
  | .base c, dev, off, len => dev = c.dev ∧ c.InData (disk c.dev) off len
  | .above c p, dev, off, len =>
      (dev = c.dev ∧ c.InData (disk c.dev) off len) ∨ p.Asks disk dev off len

theorem Layout.core_own {L : Layout} {dev : δ} {wr fm : Bool} {d : ByteStore} {b : Nat}
    (inside : b < L.virtualSize) : (L.core dev wr fm).own d b = L.own d (L.table d) b := by
  unfold Layout.own
  rw [L.getElem?_table (L.block_lt inside)]
  rfl

theorem Opens.inData {L : Layout} {dev : δ} {wr fm : Bool} {d : ByteStore} {dataEnd off e at_ n : Nat}
    (opens : Opens d L fm dataEnd off) (member : e ∈ L.table d) (live : Live e)
    (low : hostOff e ≤ at_) (high : at_ + n ≤ hostOff e + L.blockTotal) :
    (L.core dev wr fm).InData d at_ n ∧ at_ + n ≤ d.size := by
  have place := opens.placed e member live
  have stop := opens.dataEnd_le
  have is := opens.stop
  refine ⟨⟨?_, ?_⟩, by omega⟩
  · exact Nat.le_trans place.1 low
  · show at_ + n ≤ if (fm && !tailHasCookie d) = true then d.size else d.size - footerSize
    rw [← is]
    omega

end Value

/-- The bytes behind every handle. -/
def World.disk (w : World) (dev : Nat) : ByteStore := (w.image dev).disk

section Read

variable {R : Handler World (Op Nat) Op.Res} {G : World → Op Nat → Prop} {w : World}
  {r : VhdReader Nat} {E : Error → World → Prop} {Bad : Nat → Nat → Nat → Prop}

/-- Looking changes nothing, and a read is answered exactly unless it is `Bad`. -/
structure Looks (R : Handler World (Op Nat) Op.Res) (w : World) (Bad : Nat → Nat → Nat → Prop) :
    Prop where
  table : ∀ dev r w', R w (.on dev .fetchBat) r w' → r = (w.image dev).bat ∧ w' = w
  read : ∀ dev off len r w', R w (.on dev (.readAt off len)) r w' → w' = w ∧
    (r = (.ok ((w.disk dev).read off len) : Except FsCoreError Bytes) ∨
      (Bad dev off len ∧ ∃ e, r = (.error e : Except FsCoreError Bytes)))

theorem World.looks {f : Faults} :
    Looks (handler f) w (fun dev off len => f.Faulty ∨ (w.disk dev).size < off + len) where
  table dev r w' stepped := by
    obtain ⟨same, rfl | ⟨_, refused⟩⟩ := handler_quiet .fetchBat rfl stepped
    · exact ⟨rfl, same⟩
    · exact refused.elim
  read dev off len r w' stepped := by
    obtain ⟨same, rfl | ⟨faulty, e, rfl⟩⟩ := handler_quiet (.readAt off len) rfl stepped
    · refine ⟨same, ?_⟩
      by_cases inside : off + len ≤ (w.image dev).disk.size
      · exact Or.inl (congrArg Prod.fst (Image.step_readAt inside))
      · refine Or.inr ⟨Or.inr ?_, _, if_neg inside⟩
        unfold World.disk
        omega
    · exact ⟨same, Or.inr ⟨Or.inl faulty, e, rfl⟩⟩

theorem World.looks_answered (f : Faults) :
    Looks (fun w op r w' => handler f w op r w' ∧ ¬ op.Refused r) w fun _ _ _ => False where
  table dev r w' stepped := looks.table dev r w' stepped.1
  read dev off len r w' stepped := by
    obtain ⟨same, rfl | ⟨-, e, rfl⟩⟩ := looks.read dev off len r w' stepped.1
    · exact ⟨same, Or.inl rfl⟩
    · exact absurd ⟨e, rfl⟩ stepped.2

theorem Opens.holds {L : Layout} {fm : Bool} {dataEnd off dev : Nat} (wr : Bool) (Lost : Prop)
    (opens : Opens (w.disk dev) L fm dataEnd off)
    (cached : (w.image dev).bat = some (L.table (w.disk dev))) (looks : Looks R w Bad)
    (tables : G w (.on dev .fetchBat))
    (asks : ∀ o n, 0 < n → (L.core dev wr fm).InData (w.disk dev) o n → G w (.on dev (.readAt o n)))
    (bad : ∀ o n, (L.core dev wr fm).InData (w.disk dev) o n → o + n ≤ (w.disk dev).size →
      Bad dev o n → Lost) :
    Holds R G L dev w (w.disk dev) (L.table (w.disk dev)) Lost where
  length := L.length_table
  words e member := L.table_lt member
  asksTable := tables
  table r w' stepped := by
    obtain ⟨rfl, same⟩ := looks.table dev r w' stepped
    exact ⟨cached, same⟩
  asksBlock e member live o n positive low high :=
    asks o n positive (opens.inData member live low high).1
  block e member live o n low high r w' stepped := by
    obtain ⟨inData, inside⟩ := opens.inData member live low high
    obtain ⟨same, answer⟩ := looks.read dev o n r w' stepped
    exact ⟨same, answer.imp_right fun ⟨is, refused⟩ => ⟨bad o n inData inside is, refused⟩⟩

theorem Looks.readAt_fixed {found : FoundFooter} {dev off : Nat} {wr : Bool} {buf : Bytes}
    (looks : Looks R w Bad) (kind : found.footer.diskType = .fixed)
    (small : found.footer.currentSize < 2 ^ 64) (within : off + buf.length ≤ found.footer.currentSize)
    (asks : 0 < buf.length → G w (.on dev (.readAt off buf.length)))
    (failed : Bad dev off buf.length → ∀ e, E (fsCoreToVhdError e) w) :
    Code.wp R G ((VhdReader.base (fixedCore dev wr found)).readAt off buf)
      (fun out w' => w' = w ∧ out.length = buf.length ∧
        ∀ j v, out[j]? = some v → v = (w.disk dev).byte (off + j)) E w := by
  by_cases positive : 0 < buf.length
  · rw [ImgVhd.readAt_fixed kind small positive within]
    refine (Code.wp_bind _ _).mpr ((Code.wp_perform _).mpr ⟨asks positive, fun r w' stepped => ?_⟩)
    obtain ⟨rfl, rfl | ⟨bad, e, rfl⟩⟩ := looks.read _ _ _ _ _ stepped
    · exact ⟨rfl, ByteStore.length_read, fun j v at_ => (ByteStore.getElem?_read_eq_some.mp at_).2⟩
    · exact failed bad _
  · obtain rfl := List.length_eq_zero_iff.mp (Nat.eq_zero_of_not_pos positive)
    refine ⟨rfl, rfl, fun j v at_ => ?_⟩
    cases at_

/-- A read of a chain changes nothing and answers its values. -/
theorem Chain.readAt_wp (chain : Chain w r) (looks : Looks R w Bad)
    (tables : ∀ dev, G w (.on dev .fetchBat))
    (asks : ∀ dev o n, 0 < n → r.Asks w.disk dev o n → G w (.on dev (.readAt o n)))
    (failed : ∀ dev o n, r.Asks w.disk dev o n → Bad dev o n → ∀ e, E (fsCoreToVhdError e) w) :
    ∀ {off : Nat} {buf : Bytes}, off + buf.length ≤ r.virtualSize →
      Code.wp R G (r.readAt off buf) (fun out w' => w' = w ∧ out.length = buf.length ∧
        ∀ j v, out[j]? = some v → v = r.value w.disk (off + j)) E w := by
  induction chain with
  | @fixed dev wr found is long kind =>
      intro off buf within
      have small : found.footer.currentSize < 2 ^ 64 :=
        (Footer.fields_lt (Nat.le_of_eq is.parses.1.symm) is.parses.2).1
      exact looks.readAt_fixed kind small within
        (fun positive => asks dev off buf.length positive ⟨rfl, within⟩)
        fun bad => failed dev off buf.length ⟨rfl, within⟩ bad
  | @dynamic L fm dataEnd top dev wr opens kind cached =>
      intro off buf within
      have holds := opens.holds (G := G) wr
        (∃ o n, (L.core dev wr fm).InData (w.disk dev) o n ∧ Bad dev o n)
        cached looks (tables dev) (fun o n positive inData => asks dev o n positive ⟨rfl, inData⟩)
        fun o n inData _ bad => ⟨o, n, inData, bad⟩
      refine Code.wp_mono (holds.readAt_wp wr fm within fun ⟨o, n, inData, bad⟩ =>
        failed dev o n ⟨rfl, inData⟩ bad) (fun _ _ g => g) ?_ fun _ _ e => e
      rintro out w' ⟨same, length, values⟩
      refine ⟨same, length, fun j v at_ => ?_⟩
      obtain ⟨lt, -⟩ := List.getElem?_eq_some_iff.mp at_
      have inside : off + j < L.virtualSize := Nat.lt_of_lt_of_le (by omega) within
      rw [values j v at_]
      exact congrArg (fun o => Option.getD o 0) (Layout.core_own inside).symm
  | @above L fm dataEnd top dev wr p opens kind cached parent apart ih =>
      intro off buf within
      have holds := opens.holds (G := G) wr
        (∃ o n, (L.core dev wr fm).InData (w.disk dev) o n ∧ Bad dev o n)
        cached looks (tables dev)
        (fun o n positive inData => asks dev o n positive (Or.inl ⟨rfl, inData⟩))
        fun o n inData _ bad => ⟨o, n, inData, bad⟩
      have small := L.virtualSize_lt
      have below := @ih (fun dev o n positive asked => asks dev o n positive (Or.inr asked))
        fun dev o n asked => failed dev o n (Or.inr asked)
      refine Code.wp_mono (ImgVhd.readAt_wp (holds.served (some ⟨p.virtualSize, p.readAt⟩)
        (fun b => if p.virtualSize ≤ b then 0 else p.value w.disk b) ?_
        fun ⟨o, n, inData, bad⟩ => failed dev o n (Or.inl ⟨rfl, inData⟩) bad) rfl within)
        (fun _ _ g => g) ?_ fun _ _ e => e
      · intro virt dst _ inside _
        exact readBlockUnallocated_wp below (by omega)
      · rintro out w' ⟨same, length, values⟩
        refine ⟨same.symm, length, fun j v at_ => ?_⟩
        obtain ⟨lt, -⟩ := List.getElem?_eq_some_iff.mp at_
        have inside : off + j < L.virtualSize := Nat.lt_of_lt_of_le (by omega) within
        rw [values j v at_]
        exact congrArg (fun o => Option.getD o _) (Layout.core_own inside).symm

/-- An error a device reported. -/
def Reported (e : Error) : Prop := ∃ cause, e = fsCoreToVhdError cause

theorem Chain.read_runs {f : Faults} {w' : World} {off : Nat} {buf : Bytes} {p : Io Nat Bytes}
    {t : List (Event (Op Nat) Op.Res)} (chain : Chain w r) (within : off + buf.length ≤ r.virtualSize)
    (run : Prog.Runs (World.handler f) (r.readAt off buf) w t p w') :
    (∀ e ∈ t, ∀ dev o n, e.op = .on dev (.readAt o n) → r.Asks w.disk dev o n) ∧
    ∀ out, p = .ret out → (∃ bytes, out = .ok bytes) ∨ ∃ e, out = .err e ∧ Reported e ∧
      (f.Faulty ∨ ∃ dev o n, r.Asks w.disk dev o n ∧ (w.disk dev).size < o + n) := by
  have whole := chain.readAt_wp (R := World.handler f) (E := fun e _ => Reported e ∧
      (f.Faulty ∨ ∃ dev o n, r.Asks w.disk dev o n ∧ (w.disk dev).size < o + n))
    (G := fun _ op => ∀ dev o n, op = .on dev (.readAt o n) → r.Asks w.disk dev o n)
    World.looks (fun dev dev' o n same => by injection same with _ same; cases same)
    (fun dev o n _ asks dev' o' n' same => by
      injection same with here same
      injection same with first second
      rw [← here, ← first, ← second]
      exact asks)
    (fun dev o n asks bad e => ⟨⟨e, rfl⟩, bad.imp_right fun outside => ⟨dev, o, n, asks, outside⟩⟩)
    within
  refine ⟨Prog.wp_events whole run fun x op guard => guard, ?_⟩
  rintro out rfl
  exact (Code.wp_finished whole run).imp_left fun ⟨bytes, is, _⟩ => ⟨bytes, is⟩

/-- Where all that a chain may ask for is there, ideal devices refuse none of it, and
    the read answers the values. -/
theorem Chain.answers {off : Nat} {buf : Bytes} (chain : Chain w r)
    (inside : ∀ dev o n, r.Asks w.disk dev o n → o + n ≤ (w.disk dev).size)
    (within : off + buf.length ≤ r.virtualSize) :
    ∃ t, Prog.Runs (fun w op r w' => World.handler .none w op r w' ∧ ¬ op.Refused r) (r.readAt off buf)
      w t (.ret (.ok ((List.range buf.length).map fun i => r.value w.disk (off + i)))) w := by
  have reads := chain.readAt_wp (R := World.handler .none) (E := fun _ _ => False)
    (G := fun x op => (∃ dev, op = .on dev .fetchBat) ∨
      (x = w ∧ ∃ dev o n, op = .on dev (.readAt o n) ∧ o + n ≤ (w.disk dev).size))
    World.looks (fun dev => Or.inl ⟨dev, rfl⟩)
    (fun dev o n _ asked => Or.inr ⟨rfl, dev, o, n, rfl, inside dev o n asked⟩)
    (fun dev o n asked why _ => by
      rcases why with faulty | outside
      · exact Faults.none_not_faulty faulty
      · exact absurd (inside dev o n asked) (Nat.not_le.mpr outside)) within
  have run : Prog.Runs (fun w op r w' => World.handler .none w op r w' ∧ ¬ op.Refused r)
      (r.readAt off buf) w _ _ _ :=
    Prog.wp_trace World.idealStep reads (World.idealStep_allowed .none) ?_
  · rcases Code.wp_run World.idealStep reads (World.idealStep_allowed .none) with
      ⟨bytes, ended, same, length, values⟩ | ⟨e, -, never⟩
    · rw [ended, same] at run
      have exact_ : bytes = (List.range buf.length).map fun i => r.value w.disk (off + i) := by
        refine List.ext_getElem (by rw [length]; simp) fun i low high => ?_
        rw [values i _ (List.getElem?_eq_getElem low)]
        simp
      rw [exact_] at run
      exact ⟨_, run⟩
    · exact never.elim
  · rintro x op (⟨dev, rfl⟩ | ⟨rfl, dev, o, n, rfl, fits⟩)
    · exact ⟨World.idealStep_allowed .none x _, id⟩
    · refine ⟨World.idealStep_allowed .none x _, ?_⟩
      rintro ⟨e, refused⟩
      have answer := congrArg Prod.fst (Image.step_readAt (s := x.image dev) fits)
      exact absurd (answer.symm.trans refused) (by simp)

end Read

/-! ## The delta over its disk -/

section Pair

variable {disk : Nat → ByteStore}

def pairReader : VhdReader Nat :=
  .above (deltaLayout.core 0 false false) (.base (baseLayout.core 1 false false))

theorem pair_asks {dev o n : Nat} (asked : pairReader.Asks disk dev o n) : o + n ≤ (disk dev).size := by
  rcases asked with ⟨rfl, -, high⟩ | ⟨rfl, -, high⟩
  all_goals
    refine Nat.le_trans high ?_
    split
    · exact Nat.le_refl _
    · exact Nat.sub_le _ _

theorem pair_values (top : disk 0 = deltaDisk) (bottom : disk 1 = baseDisk) :
    (List.range 540).map (fun i => pairReader.value disk (500 + i)) =
      List.replicate 8 7 ++ List.replicate 4 0 ++ List.replicate 512 9 ++ List.replicate 16 0 := by
  have disks (b : Nat) : pairReader.value disk b =
      pairReader.value (fun dev => if dev = 0 then deltaDisk else baseDisk) b := by
    simp only [pairReader, VhdReader.value, Layout.core, top, bottom, if_true]
    rfl
  simp only [disks]
  decide +kernel

end Pair

end ImgVhd
