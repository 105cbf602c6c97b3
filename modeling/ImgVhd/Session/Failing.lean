import ImgVhd.Reading.Racing
import ImgVhd.Results.Crash

/-! # A call among others on a device that fails

A call of `write_at` has its sections, and a call of `read_at` its looks, while any
operation may fail with or without its effect. What fails inside a section ends the
call, and the lock is dropped on the way out.
-/

namespace ImgVhd

open Foundation

section Whole

variable {L : Layout} {pay : Nat → Option UInt8} {f : Faults} {s s' : Image} {bat : List Nat}
  {off : Nat} {log : List Attempt}

/-- An image that will open, whatever it holds. -/
structure Whole (L : Layout) (s : Image) (bat : List Nat) (off : Nat) : Prop where
  sound : Sound L s bat off
  trailed : Trailed L (AtTail L) s.disk off
  mirror : s.disk.read 0 512 = L.footerBytes

theorem Durable.whole (durable : Durable L log s bat off) : Whole L s bat off :=
  ⟨durable.sound, durable.trailed, durable.mirror⟩

theorem Whole.durable (whole : Whole L s bat off) : ∃ log, Durable L log s bat off := by
  refine ⟨[⟨0, (List.range L.virtualSize).map fun b => L.value s.disk bat b, false⟩],
    whole.sound, whole.trailed, whole.mirror, fun b inside => ?_⟩
  have carried : payload 0 ((List.range L.virtualSize).map fun b => L.value s.disk bat b) b =
      some (L.value s.disk bat b) := by
    rw [payload, if_pos (Nat.zero_le _), Nat.sub_zero]
    simp [inside]
  unfold Allowed
  simp only [carried]
  exact Or.inl trivial

theorem Whole.step {x x' : Image × History} {op : ImageOp} {r : op.Res} (clear : Clear L)
    (whole : Whole L x.1 bat off) (committed : Committed L x.1 x.2 off)
    (permitted : Permitted L pay x op) (stepped : f.handler.traced x (.on () op) r x') :
    ∃ bat' off', Whole L x'.1 bat' off' ∧ Committed L x'.1 x'.2 off' ∧
      Drifts L (Carries pay) x.1 x'.1 := by
  obtain ⟨bat', off', kept⟩ := whole.sound.traced_step clear.next committed permitted stepped
  refine ⟨bat', off', ⟨kept.sound, ?_, ?_⟩, kept.committed,
    .of_evolves whole.sound kept.sound kept.evolves⟩
  · exact whole.trailed.traced_step (trail_atTail L) whole.sound permitted stepped kept.sound.tail
  · rw [← whole.mirror]
    exact ByteStore.read_congr fun i lt => kept.evolves.mirror _ (by omega)

end Whole

/-! ## A write -/

section Write

variable {L : Layout} {fm : Bool} {f : Faults} {offset c : Nat} {buf : Bytes} {s₀ s s' : Image}
  {p : Io Unit Unit} {bat : List Nat} {off : Nat} {W : Nat → UInt8 → Prop} {sel : Prop}

/-- Inside the section from `c`, which it entered when the image was `s₀`, whatever
    fails. -/
structure Beset (L : Layout) (fm : Bool) (f : Faults) (offset : Nat) (buf : Bytes) (c : Nat)
    (s₀ s : Image) (p : Io Unit Unit) : Prop where
  low : offset ≤ c
  more : c < offset + buf.length
  within : offset + buf.length ≤ L.virtualSize
  drifts : Drifts L (Carries (payload offset buf)) s₀ s
  left : ∃ (q : Io Unit Unit) (h : History) (bat : List Nat) (off : Nat), Whole L s bat off ∧
    Committed L s h off ∧
    Code.wp f.handler.traced (Permits L (payload offset buf)) q
      (fun _ x => Wrote L s₀ x.1 (c / L.blockSize) (c % L.blockSize) (L.part offset buf c))
      (fun _ _ => True) (s, h) ∧
    p = Prog.bind q fun out => Prog.call (.on () .unlockBat) fun _ =>
      L.resume fm offset buf (c + (L.part offset buf c).length) out

theorem Paused.beset (paused : Paused L fm offset buf c p) (more : c < offset + buf.length)
    (whole : Whole L s bat off) : Beset L fm f offset buf c s s (L.locked fm offset buf c s.bat) := by
  have low := paused.low
  have within := paused.within more
  obtain ⟨nonempty, -, block, carries⟩ := L.part_spec low more
  refine ⟨low, more, within, .refl, _, [], bat, off, whole, fun r h' no => (by cases no), ?_, rfl⟩
  have split := L.block_split c
  refine Code.wp_mono (writeBlockLocked_wp (f := f) whole.sound.ready (L.block_lt (by omega)) nonempty
    block ?_) (fun _ _ g => g) (fun _ _ wrote => wrote) fun _ _ _ => trivial
  rw [split.1]
  exact carries

/-- What is left of a section is one of its operations, or the end of it: it wrote its
    part, or the call fails. -/
theorem Beset.step {op : Op Unit} {next : op.Res → Io Unit Unit} {r : op.Res} (clear : Clear L)
    (beset : Beset L fm f offset buf c s₀ s (.call op next)) (stepped : f.handler s op r s') :
    Drifts L (Carries (payload offset buf)) s s' ∧
      (op.locking = .passes ∧ Beset L fm f offset buf c s₀ s' (next r) ∨
        op.locking = .drops ∧ s' = s ∧
          (Wrote L s₀ s (c / L.blockSize) (c % L.blockSize) (L.part offset buf c) ∧
              Paused L fm offset buf (c + (L.part offset buf c).length) (next r) ∨
            ∃ e, next r = .ret (.err e))) := by
  obtain ⟨q, h, bat, off, whole, committed, spec, is⟩ := beset.left
  obtain ⟨nonempty, inside, -⟩ := L.part_spec beset.low beset.more
  have low := beset.low
  cases q with
  | ret out =>
      cases is
      have same : s' = s := congrArg Prod.snd (Faults.handler_firm .unlockBat (fun _ no => no) stepped)
      subst same
      refine ⟨.refl, Or.inr ⟨rfl, rfl, ?_⟩⟩
      cases out with
      | ok _ => exact Or.inl ⟨spec, by omega, inside, fun _ => beset.within, rfl⟩
      | err e => exact Or.inr ⟨e, rfl⟩
      | panic => exact spec.elim
      | outOfFuel => exact spec.elim
  | call op' next' =>
      cases is
      obtain ⟨permits, rest⟩ := spec
      obtain ⟨o, rfl, permitted⟩ := permits.on_image
      have traced : f.handler.traced (s, h) (.on () o) r (s', ⟨.on () o, r⟩ :: h) := ⟨stepped, rfl⟩
      obtain ⟨bat', off', whole', committed', drifts⟩ := Whole.step clear whole committed permitted traced
      exact ⟨drifts, Or.inl ⟨permitted.passes, low, beset.more, beset.within, beset.drifts.trans drifts,
        next' r, _, bat', off', whole', committed', rest r _ traced, rfl⟩⟩

theorem Beset.busy {out : Outcome Error Unit} : ¬ Beset L fm f offset buf c s₀ s (.ret out) := by
  intro beset
  obtain ⟨q, h, bat, off, -, -, -, is⟩ := beset.left
  cases q with
  | ret out => cases is
  | call op next => cases is

/-- The call that has the lock. -/
def Labours (L : Layout) (fm : Bool) (f : Faults) (offset : Nat) (buf : Bytes)
    (W : Nat → UInt8 → Prop) (sel : Prop) (s : Image) (p : Io Unit Unit) : Prop :=
  ∃ c s₀, (sel → Known L (payload offset buf) W c s₀) ∧ Beset L fm f offset buf c s₀ s p

theorem Waiting.enters {op : Op Unit} {next : op.Res → Io Unit Unit}
    (waiting : Waiting L fm offset buf W sel True s (.call op next)) :
    op.locking = .takes ∧ ∀ r s', f.handler s op r s' → (∃ bat off, Whole L s bat off) →
      s' = s ∧ Labours L fm f offset buf W sel s' (next r) := by
  obtain ⟨c, paused, known⟩ | ⟨-, e, no⟩ := waiting
  · obtain ⟨-, no⟩ | ⟨more, is, -⟩ := paused.enter
    · cases no
    · cases is
      refine ⟨rfl, fun r s' stepped free => ?_⟩
      obtain ⟨bat, off, whole⟩ := free
      have firm := Faults.handler_firm .lockBat (fun _ no => no) stepped
      obtain rfl : s' = s := congrArg Prod.snd firm
      obtain rfl : r = s'.bat := congrArg Prod.fst firm
      exact ⟨rfl, c, s', known, paused.beset more whole⟩
  · cases no

theorem Labours.moves {op : Op Unit} {next : op.Res → Io Unit Unit} {r : op.Res} (clear : Clear L)
    (wider : ∀ b v, payload offset buf b = some v → W b v)
    (labours : Labours L fm f offset buf W sel s (.call op next)) (stepped : f.handler s op r s') :
    Drifts L (Carries (payload offset buf)) s s' ∧
      (op.locking = .passes ∧ Labours L fm f offset buf W sel s' (next r) ∨
        op.locking = .drops ∧ (∃ bat off, Whole L s' bat off) ∧
          Waiting L fm offset buf W sel True s' (next r)) := by
  obtain ⟨c, s₀, known, beset⟩ := labours
  obtain ⟨-, -, block, carries⟩ := L.part_spec beset.low beset.more
  obtain ⟨drifts, ⟨passes, beset'⟩ | ⟨drops, rfl, finished⟩⟩ := beset.step clear stepped
  · exact ⟨drifts, Or.inl ⟨passes, c, s₀, known, beset'⟩⟩
  · obtain ⟨q, h, bat, off, whole, -⟩ := beset.left
    refine ⟨drifts, Or.inr ⟨drops, ⟨bat, off, whole⟩, ?_⟩⟩
    obtain ⟨wrote, paused⟩ | failed := finished
    · exact Or.inl ⟨_, paused, fun chosen =>
        (known chosen).wrote beset.drifts wider wrote block carries⟩
    · exact Or.inr ⟨trivial, failed⟩

theorem Labours.whole (labours : Labours L fm f offset buf W sel s p) : ∃ bat off, Whole L s bat off := by
  obtain ⟨c, s₀, -, beset⟩ := labours
  obtain ⟨q, h, bat, off, whole, -⟩ := beset.left
  exact ⟨bat, off, whole⟩

end Write

/-! ## A read -/

section Read

/-- What a read relies on does not depend on its being answered: where a device may
    also refuse, the read may also fail. -/
theorem Served.refusing {σ δ : Type} {R H : Handler σ (Op δ) Op.Res} {G : σ → Op δ → Prop} {L : Layout}
    {dev : δ} {V : σ → σ → Prop} {I : σ → Prop} {Entry : Nat → Nat → σ → Prop}
    {Bits : Nat → Nat → Bytes → σ → Prop} {D : Nat → Prop} {A : Nat → UInt8 → Prop}
    {E : Error → σ → Prop} (served : Served R G L dev none V I Entry Bits D A E)
    (table : ∀ s r s', H s (.on dev .fetchBat) r s' → R s (.on dev .fetchBat) r s')
    (reads : ∀ s off len r s', H s (.on dev (.readAt off len)) r s' →
      R s (.on dev (.readAt off len)) r s' ∨
        V s s' ∧ ∃ e, r = (.error e : Except FsCoreError Bytes)) :
    Served H G L dev none V I Entry Bits D A fun _ _ => True := by
  refine ⟨served.refl, served.trans, served.keeps, served.keepsEntry, served.keepsBits, served.length,
    served.word, ?_, ?_, ?_, served.absent, ?_⟩
  · intro k s holds index
    obtain ⟨guard, answers⟩ := served.fetch k s holds index
    exact ⟨guard, fun r s' stepped => answers r s' (table s r s' stepped)⟩
  · intro k e s holds entry
    obtain ⟨guard, answers⟩ := served.bitmap k e s holds entry
    refine ⟨guard, fun r s' stepped => ?_⟩
    rcases reads s _ _ r s' stepped with answered | ⟨drift, err, rfl⟩
    · exact ⟨(answers r s' answered).1, (answers r s' answered).2.1, fun _ _ => trivial⟩
    · refine ⟨drift, fun bits no => ?_, fun _ _ => trivial⟩
      cases no
  · intro k e bits p n s holds entry known positive inside there
    obtain ⟨guard, answers⟩ := served.data k e bits p n s holds entry known positive inside there
    refine ⟨guard, fun r s' stepped => ?_⟩
    rcases reads s _ _ r s' stepped with answered | ⟨drift, err, rfl⟩
    · exact ⟨(answers r s' answered).1, (answers r s' answered).2.1, fun _ _ => trivial⟩
    · refine ⟨drift, fun out no => ?_, fun _ _ => trivial⟩
      cases no
  · -- without a parent nothing is asked
    exact fun virt dst s holds positive within absent => served.defer virt dst s holds positive within absent

variable {L : Layout} {fm : Bool} {f : Faults} {offset : Nat} {buf : Bytes} {s s' : Image} {bat : List Nat}
  {off : Nat} {W : Nat → UInt8 → Prop} {Q : Outcome Error Bytes → Prop} {p : Io Unit Bytes}

/-- What is left of a read among writes of `W`, whatever fails. -/
def Looking (f : Faults) (L : Layout) (W : Nat → UInt8 → Prop) (Q : Outcome Error Bytes → Prop) (s : Image)
    (p : Io Unit Bytes) : Prop :=
  p.Amidst (Drifts L W) f.handler Op.Observes Q s

/-- What a read of `len` bytes may come to: an error, or what it may return. -/
def Replied (L : Layout) (W : Nat → UInt8 → Prop) (s : Image) (bat : List Nat) (offset len : Nat)
    (out : Outcome Error Bytes) : Prop :=
  (∃ e, out = .err e) ∨ Answered L W s bat offset len out

theorem readAt_idle (fm : Bool) (idle : buf.length = 0 ∨ L.virtualSize < offset + buf.length) :
    (∃ e, (VhdReader.base (L.core () true fm)).readAt offset buf = .ret (.err e)) ∨
      buf = [] ∧ (VhdReader.base (L.core () true fm)).readAt offset buf = .ret (.ok buf) := by
  change (∃ e, (L.core () true fm).readAt none offset buf = .ret (.err e)) ∨
    buf = [] ∧ (L.core () true fm).readAt none offset buf = .ret (.ok buf)
  unfold Core.readAt
  by_cases empty : buf.length = 0
  · rw [if_pos empty]
    exact Or.inr ⟨List.length_eq_zero_iff.mp empty, rfl⟩
  · have outside := idle.resolve_left empty
    rw [if_neg empty]
    by_cases fits : offset + buf.length < 2 ^ 64
    · rw [checkedAdd_of_lt fits, Code.lift_ok_bind,
        if_pos (show (L.core () true fm).virtualSize < offset + buf.length from outside)]
      exact Or.inl ⟨_, rfl⟩
    · rw [checkedAdd, if_neg fits]
      exact Or.inl ⟨_, rfl⟩

theorem Looking.start (f : Faults) (fm : Bool) (W : Nat → UInt8 → Prop) (offset : Nat) (buf : Bytes)
    (sound : Sound L s bat off) :
    Looking f L W (Replied L W s bat offset buf.length) s
      ((VhdReader.base (L.core () true fm)).readAt offset buf) := by
  refine ⟨s, .refl, ?_⟩
  by_cases idle : buf.length = 0 ∨ L.virtualSize < offset + buf.length
  · obtain ⟨e, is⟩ | ⟨rfl, is⟩ := readAt_idle fm idle
    · rw [is]
      exact Or.inl ⟨e, rfl⟩
    · rw [is]
      exact Or.inr ⟨[], rfl, rfl, fun j v no => (by cases no)⟩
  have served := (served_amidst (L := L) W s bat).refusing (H := f.handler.amidst (Drifts L W))
    ?table ?reads
  case table =>
    rintro y r s' ⟨x, drifts, stepped⟩
    exact ⟨x, drifts, Or.inl (Faults.handler_firm .fetchBat (fun _ no => no) stepped)⟩
  case reads =>
    rintro y at_ n r s' ⟨x, drifts, stepped⟩
    obtain ⟨rfl, rfl | ⟨-, refused⟩⟩ := Faults.handler_quiet (.readAt at_ n) rfl stepped
    · exact Or.inl ⟨s', drifts, Or.inl rfl⟩
    · exact Or.inr ⟨drifts, refused⟩
  apply Prog.wp_mono (readAt_wp served (Follows.start sound) (by omega))
  · exact fun y op observes => observes
  · intro out y reached
    cases out with
    | ok bytes => exact Or.inr ⟨bytes, rfl, reached.2⟩
    | err e => exact Or.inl ⟨e, rfl⟩
    | panic => exact reached.elim
    | outOfFuel => exact reached.elim

theorem Looking.mono {Q' : Outcome Error Bytes → Prop} (looking : Looking f L W Q s p)
    (weaker : ∀ out, Q out → Q' out) : Looking f L W Q' s p := by
  obtain ⟨y, drifts, spec⟩ := looking
  exact ⟨y, drifts, Prog.wp_mono spec (fun _ _ g => g) fun out _ post => weaker out post⟩

theorem Looking.drifts (looking : Looking f L W Q s p) (drifts : Drifts L W s s') :
    Looking f L W Q s' p :=
  looking.steady (fun _ _ _ => .trans) drifts

theorem Looking.look {op : Op Unit} {next : op.Res → Io Unit Bytes}
    (looking : Looking f L W Q s (.call op next)) :
    op.locking ≠ .takes ∧ op.locking ≠ .drops ∧
      ∀ r s', f.handler s op r s' → s' = s ∧ Looking f L W Q s' (next r) := by
  obtain ⟨observes, rest⟩ := Prog.Amidst.look (fun _ => .refl) looking
  rcases observes.cases with rfl | ⟨at_, n, rfl⟩
  · refine ⟨by simp [Op.locking], by simp [Op.locking], fun r s' stepped => ⟨?_, rest r s' stepped⟩⟩
    exact (Faults.handler_quiet .fetchBat rfl stepped).1
  · refine ⟨by simp [Op.locking], by simp [Op.locking], fun r s' stepped => ⟨?_, rest r s' stepped⟩⟩
    exact (Faults.handler_quiet (.readAt at_ n) rfl stepped).1

end Read

end ImgVhd
