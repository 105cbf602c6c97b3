import ImgVhd.Results.Crash
import ImgVhd.Session.Answers
import ImgVhd.Session.Room
import ImgVhd.Writing.Sections

/-! # A write that a device would not grow for

A device may refuse to grow, and an offset may be past what an entry can name. A
call that fails so has written the blocks before the one it failed at, and nothing
else has happened.
-/

namespace ImgVhd

open Foundation

section Refused

variable {L : Layout} {P : ByteStore → Nat → Prop} {f : Faults} {s s' : Image} {bat : List Nat}
  {off offset : Nat} {buf : Bytes} {fm : Bool} {e : Error} {t : List (Event (Op Unit) Op.Res)}

theorem section_refused {i a : Nat} {src : Bytes} (never : ¬ f.Beyond) (ready : Ready L s)
    (index : i < L.entries) (nonempty : 0 < src.length) (inside : a + src.length ≤ L.blockSize)
    (run : Prog.Runs f.handler (blockSection (L.core () true fm) i a src) s t (.ret (.err e)) s') :
    s' = s ∧ ∃ bat, s.bat = some bat ∧ bat[i]? = some batUnallocated := by
  have denied := Prog.wp_finished (blockSection_wp ready index nonempty inside) (run.traced [])
  rcases denied with ⟨same, free, -⟩ | beyond
  · exact ⟨same, free⟩
  · exact absurd beyond never

/-- The sections of a call that fails so: those before the one it failed at, and no
    more. -/
theorem sections_refused (clear : Clear L) (trail : Trail L P) (dynamic : L.footer.diskType = .dynamic)
    (never : ¬ f.Beyond) (within : offset + buf.length ≤ L.virtualSize) (sound : Sound L s bat off)
    (trailed : Trailed L P s.disk off)
    (run : Prog.Runs f.handler (L.sections (L.core () true fm) offset buf) s t (.ret (.err e)) s') :
    ∃ k < buf.length, (k = 0 ∨ (offset + k) % L.blockSize = 0) ∧
      (∃ bat', s'.bat = some bat' ∧ bat'[(offset + k) / L.blockSize]? = some batUnallocated) ∧
      ∃ v w, t = v ++ w ∧
        Prog.Runs f.handler (L.sections (L.core () true fm) offset (buf.take k)) s v (.ret (.ok ())) s' := by
  induction length : buf.length using Nat.strong_induction_on generalizing offset buf s bat off t with
  | _ n ih =>
  subst length
  by_cases some_ : 0 < buf.length
  case neg =>
    rw [List.length_eq_zero_iff.mp (Nat.eq_zero_of_not_pos some_), Layout.sections_nil] at run
    cases run
  obtain ⟨inside, fits⟩ := L.chunk_le offset buf.length
  have positive := L.chunk_pos offset some_
  have piece : (buf.take (L.chunk offset buf.length)).length = L.chunk offset buf.length := by
    rw [List.length_take]
    omega
  have index : offset / L.blockSize < L.entries := L.block_lt (by omega)
  rw [Layout.sections_cons some_] at run
  obtain ⟨out, s₁, t₁, t₂, rfl, first, rest⟩ := Prog.Runs.of_bind run
  cases out with
  | err e' =>
      cases rest
      obtain ⟨rfl, bat', cached, free⟩ :=
        section_refused never sound.ready index (by omega) (by omega) first
      refine ⟨0, some_, Or.inl rfl, ⟨bat', cached, free⟩, [], _, rfl, ?_⟩
      rw [List.take_zero, Layout.sections_nil]
      exact .here
  | panic => cases rest
  | outOfFuel => cases rest
  | ok _ =>
      have alone : Prog.Runs f.handler ((VhdReader.base (L.core () true fm)).writeAt offset
          (buf.take (L.chunk offset buf.length))) s t₁ (.ret (.ok ())) s₁ := by
        rw [writeAt_sections dynamic (by omega), Layout.sections_one (by omega) (by omega)]
        exact first
      obtain ⟨bat₁, off₁, intact, -⟩ :=
        (write_cut clear trail dynamic (by omega) sound trailed alone).2 rfl
      have shorter : (buf.drop (L.chunk offset buf.length)).length = buf.length - L.chunk offset buf.length :=
        List.length_drop
      obtain ⟨k, below, starts, free, v, w, rfl, before⟩ := ih _ (by omega) (by omega) intact.sound
        intact.trailed rest shorter
      have full : L.chunk offset buf.length = L.blockSize - offset % L.blockSize := by
        unfold Layout.chunk at below ⊢
        omega
      refine ⟨L.chunk offset buf.length + k, by omega, Or.inr ?_, ?_, t₁ ++ v, w,
        (List.append_assoc _ _ _).symm, ?_⟩
      · rcases starts with rfl | boundary
        · have split := Nat.div_add_mod offset L.blockSize
          have inBlock := Nat.mod_lt offset L.blockSize_pos
          rw [full, show offset + (L.blockSize - offset % L.blockSize + 0) =
            L.blockSize * (offset / L.blockSize + 1) by rw [Nat.mul_add]; omega]
          exact Nat.mul_mod_right _ _
        · rw [← Nat.add_assoc]
          exact boundary
      · rw [← Nat.add_assoc]
        exact free
      · have long : (buf.take (L.chunk offset buf.length + k)).length = L.chunk offset buf.length + k := by
          rw [List.length_take]
          omega
        have again : L.chunk offset (L.chunk offset buf.length + k) = L.chunk offset buf.length := by
          unfold Layout.chunk at full ⊢
          omega
        rw [Layout.sections_cons (by omega), long, again, List.take_take, List.drop_take,
          Nat.min_eq_left (by omega), Nat.add_sub_cancel_left]
        exact Prog.Runs.bind first before

/-- What reads return after `buf` was written at `offset`. -/
def overlaid (offset : Nat) (buf : Bytes) (held : Nat → UInt8) (b : Nat) : UInt8 :=
  (payload offset buf b).getD (held b)

theorem write_values {log : List Attempt} (durable : Durable L log s bat off) (clear : Clear L)
    (dynamic : L.footer.diskType = .dynamic) (within : offset + buf.length ≤ L.virtualSize)
    (run : Prog.Runs f.handler ((VhdReader.base (L.core () true fm)).writeAt offset buf) s t
      (.ret (.ok ())) s') :
    ∃ bat' off', Durable L (⟨offset, buf, true⟩ :: log) s' bat' off' ∧
      ∀ b, L.value s'.disk bat' b = overlaid offset buf (L.value s.disk bat) b := by
  obtain ⟨bat', off', durable'⟩ := durable.write_cut clear dynamic within run
  obtain ⟨bat'', off'', intact, -, written⟩ :=
    (write_cut clear (trail_atTail L) dynamic within durable.sound durable.trailed run).2 rfl
  obtain rfl : bat'' = bat' := Option.some.inj (intact.sound.cached.symm.trans durable'.sound.cached)
  refine ⟨bat'', off', durable', fun b => ?_⟩
  unfold overlaid
  cases carried : payload offset buf b with
  | some u => exact Layout.value_of_own (written b u carried)
  | none =>
      rcases intact.evolves.value b with same | other
      · exact same
      · rw [Carries, carried] at other
        cases other

theorem growth_not_beyond : ¬ Faults.growth.Beyond := by
  rintro ⟨op, landed | ⟨⟨len, rfl⟩, other⟩⟩
  · exact landed
  · exact other len rfl

/-- A call that fails on a device that at most refuses to grow: there is a block
    without an entry, and the image is the one a call with the payload below that
    block leaves, by the very same operations. The reader and every way in to the
    file read the old contents under that part of the payload. -/
theorem refused_write_is_its_prefix {env : BuildEnv} {path : Path} {size bs : Nat} {s₀ s₁ : Image}
    {r₀ r : VhdReader Unit} {t u : List (Event (Op Unit) Op.Res)} {log : List Attempt} (word : bs < 2 ^ 32)
    (create : Prog.Runs Faults.growth.handler (createDynamic env path size bs) s₀ t (.ret (.ok r₀)) s₁)
    (session : Session .growth (r₀, s₁) log (some r) s) (within : offset + buf.length ≤ r.virtualSize)
    (run : Prog.Runs Faults.growth.handler (r.writeAt offset buf) s u (.ret (.err e)) s') :
    ∃ k < buf.length, (k = 0 ∨ (offset + k) % bs = 0) ∧
      (∃ bat, s'.bat = some bat ∧ bat[(offset + k) / bs]? = some batUnallocated) ∧
      (∃ v w, u = v ++ w ∧
        Prog.Runs Faults.growth.handler (r.writeAt offset (buf.take k)) s v (.ret (.ok ())) s') ∧
      ∃ held, ∀ at_ out, at_ + out.length ≤ r.virtualSize →
        (r.readAt at_ out).run idealStep s =
          (.ok ((List.range out.length).map fun i => held (at_ + i)), s) ∧
        (r.readAt at_ out).run idealStep s' =
          (.ok ((List.range out.length).map fun i => overlaid offset (buf.take k) held (at_ + i)), s') ∧
        ∀ wr how, ∃ r' x, (openAs () wr how).run idealStep ⟨s'.disk, none, none⟩ = (.ok r', x) ∧
          r'.virtualSize = r.virtualSize ∧
          (r'.readAt at_ out).run idealStep x =
            (.ok ((List.range out.length).map fun i => overlaid offset (buf.take k) held (at_ + i)), x) := by
  obtain ⟨L, off₀, created, rfl, rfl, -⟩ := createDynamic_created word create
  obtain ⟨⟨bat, off, durable⟩, readers⟩ := session.durable created rfl
  obtain ⟨fm, rfl⟩ := readers _ rfl
  rw [writeAt_sections created.dynamic (Or.inr within)] at run
  obtain ⟨k, below, starts, free, v, w, rfl, before⟩ := sections_refused created.clear (trail_atTail L)
    created.dynamic growth_not_beyond within durable.sound durable.trailed run
  have virtual : (VhdReader.base (L.core () true fm)).virtualSize = L.virtualSize := rfl
  have shorter : offset + (buf.take k).length ≤ L.virtualSize := by
    rw [List.length_take]
    omega
  rw [← writeAt_sections created.dynamic (Or.inr shorter)] at before
  obtain ⟨bat', off', durable', values⟩ := write_values durable created.clear created.dynamic shorter before
  refine ⟨k, below, starts, free, ⟨v, w, rfl, before⟩, L.value s.disk bat, fun at_ out inside =>
    ⟨reads_as _ durable.sound.ready durable.sound.cached (fun _ _ => rfl) inside,
      reads_as _ durable'.sound.ready durable'.sound.cached (fun b _ => values b) inside, fun wr how => ?_⟩⟩
  obtain ⟨fm', dataEnd, off'', opens, -⟩ := durable'.opens
  exact ⟨_, _, openAs_ideal (s := ⟨s'.disk, none, none⟩) opens created.dynamic, rfl,
    reads_as _ opens.ready rfl
      (fun b inside => (durable'.sound.value_table b inside).trans (values b)) inside⟩


/-- A device that never grows. -/
def rigidStep (s : Image) : (op : Op Unit) → op.Res × Image
  | .on () (.setLen _) => ((.error (.custom "no room") : Except FsCoreError Unit), s)
  | op => idealStep s op

theorem rigidStep_allowed (s : Image) (op : Op Unit) :
    Faults.growth.handler s op (rigidStep s op).1 (rigidStep s op).2 := by
  cases op with
  | on dev op =>
      cases op with
      | setLen len => exact Or.inr (Or.inl ⟨⟨len, rfl⟩, ⟨_, rfl⟩, rfl⟩)
      | _ => exact Or.inl rfl
  | pathExists path => exact ⟨rfl, rfl⟩
  | openFile path writable => exact ⟨rfl, rfl⟩
  | createFile path => exact ⟨rfl, rfl⟩

/-- It refuses the first section that needs a block. -/
theorem rigid_section {i : Nat} (a : Nat) (src : Bytes) (cached : s.bat = some bat)
    (free : bat[i]? = some batUnallocated) (tail : s.nextAllocOff = some off)
    (nameable : Nameable off) (short : s.disk.size = off + 512) :
    ∃ e, (blockSection (L.core () true fm) i a src).run rigidStep s = (.err e, s) := by
  have slot : i < bat.length := (List.getElem?_eq_some_iff.mp free).1
  have unallocated : bat[i] = batUnallocated := by
    rw [List.getElem?_eq_getElem slot] at free
    exact Option.some.inj free
  have small := L.blockTotal_lt
  have positive := L.blockTotal_pos
  have total := L.blockTotal_eq
  have low := nameable.lt
  have sum : (add64 L.bitmapSize L.header.blockSize : Checked Nat) = .ok L.blockTotal :=
    add64_of_lt (by change L.bitmapSize + L.blockSize < 2 ^ 64; omega)
  have stepped {op : Op Unit} {Q : op.Res → Image → Prop} (done : Q (rigidStep s op).1 (rigidStep s op).2) :
      ∀ r x, (r, x) = rigidStep s op → Q r x := by
    rintro r x is
    rw [← is] at done
    exact done
  have grown : Code.wp (fun s op r s' => (r, s') = rigidStep s op) (fun _ _ => True)
      (devGrowTo () (off + L.blockTotal + 512)) (fun _ _ => False) (fun _ x => x = s) s := by
    refine (Code.wp_bind _ _).mpr ((Code.wp_perform _).mpr ⟨trivial, stepped ?_⟩)
    change Code.wp _ _ (if off + L.blockTotal + 512 ≤ s.disk.size then pure () else _) _ _ s
    rw [if_neg (show ¬ off + L.blockTotal + 512 ≤ s.disk.size by omega)]
    exact (Code.wp_bind _ _).mpr ((Code.wp_perform _).mpr ⟨trivial, stepped rfl⟩)
  have whole : Code.wp (fun s op r s' => (r, s') = rigidStep s op) (fun _ _ => True)
      (blockSection (L.core () true fm) i a src) (fun _ _ => False) (fun _ x => x = s) s := by
    refine (Code.wp_bind _ _).mpr ((Code.wp_perform _).mpr ⟨trivial, stepped ?_⟩)
    change Code.wp _ _ (Code.ensuring (writeBlockLocked (L.core () true fm) none s.bat i a src) _) _ _ s
    refine Code.wp_ensuring (Code.wp_mono (Q := fun _ _ => False) (E := fun _ x => x = s) ?_
      (fun _ _ g => g) (fun _ _ no => no.elim) ?_)
    · unfold writeBlockLocked
      simp only [cached, okOr, Code.lift_ok_bind]
      rw [if_neg (by omega), getAt_of_lt slot, Code.lift_ok_bind, if_pos unallocated]
      unfold allocateBlockLocked
      simp only [Layout.core, okOr, Code.lift_ok_bind, sum]
      refine Code.wp_seq (P := fun _ _ => False) ?_ fun _ _ no => no.elim
      refine (Code.wp_bind _ _).mpr ((Code.wp_perform _).mpr ⟨trivial, stepped ?_⟩)
      change Code.wp _ _ (liftM (okOr _ s.nextAllocOff) >>= _) _ _ s
      simp only [tail, okOr, Code.lift_ok_bind]
      rw [batEntryFor_of_nameable nameable, Code.lift_ok_bind, add64_of_lt (by omega),
        Code.lift_ok_bind, checkedAdd_of_lt (by unfold footerSize; omega), Code.lift_ok_bind]
      exact Code.wp_seq grown fun _ _ no => no.elim
    · rintro e x rfl
      exact ⟨trivial, stepped rfl⟩
  rcases Code.wp_run rigidStep whole (fun _ _ => rfl) with ⟨_, -, never⟩ | ⟨e, ended, same⟩
  · exact never.elim
  · exact ⟨e, Prod.ext ended same⟩

theorem rigid_section_kept {i e : Nat} (a : Nat) (src : Bytes) (ready : Ready L s) (cached : s.bat = some bat)
    (entry : bat[i]? = some e) (live : e ≠ batUnallocated) (nonempty : 0 < src.length)
    (inside : a + src.length ≤ L.blockSize) :
    ∃ s', (blockSection (L.core () true fm) i a src).run rigidStep s = (.ok (), s') ∧
      s'.bat = s.bat ∧ s'.nextAllocOff = s.nextAllocOff ∧ s'.disk.size = s.disk.size := by
  obtain ⟨bat', cached', length, -⟩ := ready.cached
  obtain rfl : bat = bat' := Option.some.inj (cached.symm.trans cached')
  have index : i < L.entries := by
    rw [← length]
    exact (List.getElem?_eq_some_iff.mp entry).1
  have there {bat' : List Nat} (cached' : s.bat = some bat') : bat'[i]? ≠ some batUnallocated := by
    obtain rfl : bat = bat' := Option.some.inj (cached.symm.trans cached')
    rw [entry]
    exact fun free => live (Option.some.inj free)
  have run := Prog.run_trace rigidStep rigidStep_allowed (blockSection (L.core () true fm) i a src) s
  rcases Code.wp_finished (blockSection_wp ready index nonempty inside) (run.traced []) with
    ⟨_, returned, wrote⟩ | ⟨_, -, ⟨-, ⟨bat', cached', free⟩, -⟩ | beyond⟩
  · refine ⟨_, Prod.ext returned rfl, ?_⟩
    cases wrote.moved with
    | kept _ _ _ same tail size => exact ⟨same, tail, size⟩
    | allocated cached' free tail after => exact absurd free (there cached')
  · exact absurd free (there cached')
  · exact absurd beyond growth_not_beyond

/-- The small disk on a device that grows no more: of a write from its second block
    into its third the part in the second is all that is written. -/
theorem small_disk_refuses : ∃ (s s' : Image) (r : VhdReader Unit) (buf : Bytes) (e : Error) (k : Nat)
    (u v : List (Event (Op Unit) Op.Res)), buf = List.replicate 700 7 ∧
    Prog.Runs Faults.growth.handler (r.writeAt 900 buf) s u (.ret (.err e)) s' ∧
    0 < k ∧ k < 700 ∧ (900 + k) % 512 = 0 ∧
    (∃ bat, s'.bat = some bat ∧ bat[(900 + k) / 512]? = some batUnallocated) ∧
    Prog.Runs Faults.growth.handler (r.writeAt 900 (buf.take k)) s v (.ret (.ok ())) s' := by
  obtain ⟨buf, sevens, length⟩ := small_buffer
  obtain ⟨t, L, s₁, off₁, t', s, bat, off, create, created, write, filled⟩ := small_filled length
  have size := filled.size
  have block := filled.block
  have order := filled.order
  have packed := filled.packed
  have create := create.mono fun _ _ _ _ => ideal_allowed .growth
  have session := Session.written (show 300 + buf.length ≤ L.virtualSize by omega)
    (write.mono fun _ _ _ _ => ideal_allowed .growth)
  have chunk : L.chunk 900 buf.length = 124 := by
    unfold Layout.chunk
    rw [block, length]
    rfl
  obtain ⟨e, entry, live, -⟩ := packed.placed 1 1 rfl
  -- the second block is there, and the third is refused
  obtain ⟨s₂, first, same, still, long⟩ := rigid_section_kept 388 (buf.take 124) order.sound.ready
    packed.cached entry live (by rw [List.length_take]; omega) (by rw [List.length_take, block]; omega)
  have third : 2 < L.entries := by
    have inside := L.block_lt (b := 1024) (by omega)
    rwa [block] at inside
  have nameable : Nameable off := by
    rw [Option.some.inj (order.sound.tail.symm.trans packed.tail)]
    exact filled.roomy 2 third
  obtain ⟨e, refused⟩ := rigid_section (L := L) 0
    ((buf.drop 124).take (L.chunk 1024 (buf.drop 124).length)) (same.trans packed.cached)
    (filled.free third (Nat.le_refl 2)) (still.trans order.sound.tail) nameable (long.trans order.rest.1)
  have whole : ((VhdReader.base (L.core () true false)).writeAt 900 buf).run rigidStep s = (.err e, s₂) := by
    rw [writeAt_sections filled.dynamic (by omega), Layout.sections_cons (by omega), chunk, block]
    refine (Prog.run_bind rigidStep _ _ s).trans ?_
    rw [first, Layout.sections_cons (by rw [List.length_drop]; omega), block]
    refine (Prog.run_bind rigidStep _ _ s₂).trans ?_
    rw [refused]
    rfl
  obtain ⟨u, run⟩ := Prog.run_runs rigidStep rigidStep_allowed
    ((VhdReader.base (L.core () true false)).writeAt 900 buf) s
  rw [whole] at run
  obtain ⟨k, below, starts, ⟨bat₂, cached, free⟩, ⟨v, w, -, shorter⟩, -⟩ :=
    refused_write_is_its_prefix (by decide) create session (show 900 + buf.length ≤ L.virtualSize by omega)
      run
  -- the second block has an entry, so the part that was written is not empty
  have some_ : 0 < k := by
    rcases Nat.eq_zero_or_pos k with rfl | some_
    · obtain rfl := Option.some.inj ((same.trans packed.cached).symm.trans cached)
      rw [show (900 + 0) / 512 = 1 from rfl, entry] at free
      exact absurd (Option.some.inj free) live
    · exact some_
  exact ⟨s, s₂, _, buf, _, k, u, v, sevens, run, some_, by omega, starts.resolve_left (by omega),
    ⟨bat₂, cached, free⟩, shorter⟩

end Refused

end ImgVhd
