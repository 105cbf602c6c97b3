import ImgVhd.Results.Crash
import ImgVhd.Session.Answers
import ImgVhd.Session.Room
import ImgVhd.Writing.InPlace
import ImgVhd.Writing.Threads
import Mathlib.Data.Fintype.Basic
import Mathlib.Data.Finset.Union

/-! # Concurrent writers lose nothing

Any number of calls of `write_at` at once, with payloads that share no byte, in any
order of their operations that the BAT lock admits. `Tally` counts the blocks they
have added: one for each block that was not there, and no more.
-/

namespace ImgVhd

open Foundation

section Writers

variable {L : Layout} {ι : Type} [Fintype ι] {w : Calls ι} {s s' : Image} {bat : List Nat}
  {off : Nat} {fm : Bool}

namespace Calls

variable (w) in
/-- The blocks the calls reach. -/
def blocks (blockSize : Nat) : Finset Nat :=
  Finset.univ.biUnion fun i => (blocksOf blockSize (w.offset i) (w.buf i).length).toFinset

variable (w) in
/-- Those among them that have no entry yet. -/
def fresh (blockSize : Nat) (bat : List Nat) : Finset Nat :=
  (w.blocks blockSize).filter fun k => bat[k]? = some batUnallocated

theorem mem_blocks {k : Nat} : k ∈ w.blocks L.blockSize ↔ ∃ i, L.Touches (w.pay i) k := by
  simp only [blocks, Finset.mem_biUnion, Finset.mem_univ, true_and, List.mem_toFinset, blocksOf,
    List.mem_map, List.mem_range, pay, touches_payload]
  constructor
  · rintro ⟨i, j, lt, at_⟩
    exact ⟨i, w.offset i + j, Nat.le_add_right _ _, by omega, at_⟩
  · rintro ⟨i, b, low, high, at_⟩
    exact ⟨i, b - w.offset i, by omega, by rw [Nat.add_sub_cancel' low]; exact at_⟩

theorem mem_fresh {k : Nat} : k ∈ w.fresh L.blockSize bat ↔
    (∃ i, L.Touches (w.pay i) k) ∧ bat[k]? = some batUnallocated := by
  rw [fresh, Finset.mem_filter, mem_blocks]

end Calls

/-- The blocks of `ks` that the table has an entry for. -/
def added (ks : Finset Nat) (bat : List Nat) : Finset Nat :=
  ks.filter fun k => bat[k]? ≠ some batUnallocated

/-- What the calls have done to an image that had the table `bat` and the tail
    `off`. -/
structure Tally (L : Layout) (w : Calls ι) (s : Image) (bat : List Nat) (off : Nat) (s' : Image)
    (bat' : List Nat) (off' : Nat) : Prop where
  sound : Sound L s' bat' off'
  evolves : Evolves L (w.Carried fun _ => True) s s' bat bat'
  tail : off' = off + (added (w.fresh L.blockSize bat) bat').card * L.blockTotal

theorem Tally.free {bat' : List Nat} {off' k : Nat} (sound : Sound L s bat off)
    (tally : Tally L w s bat off s' bat' off') (free : bat'[k]? = some batUnallocated) :
    bat[k]? = some batUnallocated := by
  have lt : k < bat.length := by
    rw [sound.length, ← tally.sound.length]
    exact (List.getElem?_eq_some_iff.mp free).1
  have slot := List.getElem?_eq_getElem lt
  by_cases live : Live bat[k]
  · have still := tally.evolves.entry k _ slot live
    rw [free] at still
    exact absurd (Option.some.inj still).symm live
  · rw [slot, Decidable.not_not.mp live]

/-- A finished section of one of the calls adds its block, if it was not there. -/
theorem Tally.wrote {bat₁ : List Nat} {off₁ : Nat} {s₁ s₂ : Image} {i : ι} {k a : Nat} {src : Bytes}
    (sound : Sound L s bat off) (tally : Tally L w s bat off s₁ bat₁ off₁)
    (drifts : Drifts L (Carries (w.pay i)) s₁ s₂) (touched : L.Touches (w.pay i) k)
    (wrote : Wrote L s₁ s₂ k a src) : ∃ bat₂ off₂, Tally L w s bat off s₂ bat₂ off₂ := by
  obtain ⟨bat₂, off₂, sound₂, evolves⟩ := drifts bat₁ off₁ tally.sound
  have whole := tally.evolves.trans (evolves.mono fun b v carried => ⟨i, trivial, carried⟩)
  refine ⟨bat₂, off₂, sound₂, whole, ?_⟩
  have tail₁ := tally.sound.tail
  have tail₂ := sound₂.tail
  have cached₂ := sound₂.cached
  cases wrote.moved with
  | kept cached entry live bat' tail' size =>
      rw [bat', tally.sound.cached] at cached₂
      rw [tail', tail₁] at tail₂
      rw [← Option.some.inj cached₂, ← Option.some.inj tail₂]
      exact tally.tail
  | @allocated bat' off' cached free tail after =>
      obtain rfl := Option.some.inj (cached.symm.trans tally.sound.cached)
      obtain rfl := Option.some.inj (tail.symm.trans tail₁)
      obtain rfl := Option.some.inj (cached₂.symm.trans after.bat)
      obtain rfl := Option.some.inj (tail₂.symm.trans after.tail)
      have lt : k < bat'.length := (List.getElem?_eq_some_iff.mp free).1
      have member : k ∈ w.fresh L.blockSize bat :=
        Calls.mem_fresh.mpr ⟨⟨i, touched⟩, tally.free sound free⟩
      have grown : added (w.fresh L.blockSize bat) (bat'.set k (off' / 512)) =
          insert k (added (w.fresh L.blockSize bat) bat') := by
        ext j
        simp only [added, Finset.mem_filter, Finset.mem_insert]
        by_cases same : j = k
        · subst same
          rw [List.getElem?_set_self lt]
          have live := Nat.ne_of_lt after.nameable.below
          simp [member, live]
        · rw [List.getElem?_set_ne (Ne.symm same)]
          simp [same]
      have absent : k ∉ added (w.fresh L.blockSize bat) bat' := by
        simp [added, free]
      rw [grown, Finset.card_insert_of_notMem absent, Nat.add_mul, Nat.one_mul, ← Nat.add_assoc,
        ← tally.tail]

/-- Where the missing blocks have room, no section is denied. -/
theorem Tally.account (sound : Sound L s bat off) (aligned : off % 512 = 0)
    (room : ∀ n < (w.fresh L.blockSize bat).card, (off + n * L.blockTotal) / 512 < batUnallocated)
    (i : ι) : Account L (w.pay i) (fun s' => ∃ bat' off', Tally L w s bat off s' bat' off') False where
  sound s' free := by
    obtain ⟨bat', off', tally⟩ := free
    exact ⟨bat', off', tally.sound⟩
  wrote s₁ s₂ k a src free drifts touched wrote := by
    obtain ⟨bat₁, off₁, tally⟩ := free
    exact tally.wrote sound drifts touched wrote
  denied s₁ k e x free touched denied := by
    obtain ⟨bat₁, off₁, tally⟩ := free
    rcases denied with ⟨-, ⟨bat', cached, free⟩, ⟨off', tail, odd⟩ | ⟨len, lost⟩⟩ | beyond
    · obtain rfl := Option.some.inj (cached.symm.trans tally.sound.cached)
      obtain rfl := tally.sound.at_tail tail
      apply odd
      have member : k ∈ w.fresh L.blockSize bat :=
        Calls.mem_fresh.mpr ⟨⟨i, touched⟩, tally.free sound free⟩
      have fewer : (added (w.fresh L.blockSize bat) bat').card < (w.fresh L.blockSize bat).card := by
        apply Finset.card_lt_card
        refine ⟨Finset.filter_subset _ _, fun all => ?_⟩
        have here := (Finset.mem_filter.mp (all member)).2
        exact here free
      have whole := L.blockTotal_mod
      have sectors := Nat.mul_mod (added (w.fresh L.blockSize bat) bat').card L.blockTotal 512
      rw [whole, Nat.mul_zero, Nat.zero_mod] at sectors
      have below := room _ fewer
      rw [← tally.tail] at below
      have tail := tally.tail
      exact ⟨by omega, below⟩
    · exact lost
    · exact Faults.none_not_beyond beyond

/-! ## Every block once -/

/-- How often block `k` was allocated. -/
def allocations {ι : Type} (k : Nat) (t : List (ι × Event (Op Unit) Op.Res)) : Nat :=
  t.countP fun x => x.2.op.publishes k

variable {i : ι} {e : Event (Op Unit) Op.Res} {t : List (ι × Event (Op Unit) Op.Res)}

/-- Along a run: what had an entry keeps it, and the blocks of `ks` were allocated
    once as soon as they have one. -/
structure Counted (ks : Finset Nat) (bat : List Nat) (t : List (ι × Event (Op Unit) Op.Res))
    (bat' : List Nat) : Prop where
  length : bat'.length = bat.length
  entry : ∀ k e : Nat, bat[k]? = some e → Live e → bat'[k]? = some e
  once : ∀ k, allocations k t = if k ∈ added ks bat' then 1 else 0

theorem Counted.start : Counted (w.fresh L.blockSize bat) bat ([] : List (ι × _)) bat := by
  refine ⟨rfl, fun k e entry _ => entry, fun k => ?_⟩
  have absent : k ∉ added (w.fresh L.blockSize bat) bat := by
    simp only [added, Finset.mem_filter, Calls.mem_fresh]
    exact fun both => both.2 both.1.2
  rw [if_neg absent]
  rfl

theorem Counted.publish {bat' : List Nat} {k v : Nat}
    (counted : Counted (w.fresh L.blockSize bat) bat t bat') (is : e.op = .on () (.setBatEntry k v))
    (touched : L.Touches (w.pay i) k) (free : bat'[k]? = some batUnallocated) (live : Live v) :
    Counted (w.fresh L.blockSize bat) bat (t ++ [(i, e)]) (bat'.set k v) := by
  have lt : k < bat'.length := (List.getElem?_eq_some_iff.mp free).1
  have lt' : k < bat.length := by
    rw [← counted.length]
    exact lt
  have slot := List.getElem?_eq_getElem lt'
  have before : bat[k]? = some batUnallocated := by
    by_cases had : Live bat[k]
    · have still := counted.entry k _ slot had
      rw [free] at still
      exact absurd (Option.some.inj still).symm had
    · rw [slot, Decidable.not_not.mp had]
  refine ⟨by rw [List.length_set, counted.length], fun j e' entry had => ?_, fun j => ?_⟩
  · have other : k ≠ j := by
      rintro rfl
      rw [before] at entry
      exact had (Option.some.inj entry).symm
    rw [List.getElem?_set_ne other]
    exact counted.entry j e' entry had
  · unfold allocations
    rw [List.countP_append, List.countP_singleton, is]
    have earlier : t.countP (fun x => x.2.op.publishes j) = _ := counted.once j
    rw [earlier]
    by_cases same : k = j
    · subst same
      have absent : k ∉ added (w.fresh L.blockSize bat) bat' := by simp [added, free]
      have member : k ∈ added (w.fresh L.blockSize bat) (bat'.set k v) := by
        refine Finset.mem_filter.mpr ⟨Calls.mem_fresh.mpr ⟨⟨i, touched⟩, before⟩, ?_⟩
        rw [List.getElem?_set_self lt]
        exact fun no => live (Option.some.inj no)
      rw [if_neg absent, if_pos member]
      simp [Op.publishes]
    · have still : j ∈ added (w.fresh L.blockSize bat) (bat'.set k v) ↔
          j ∈ added (w.fresh L.blockSize bat) bat' := by
        simp only [added, Finset.mem_filter, List.getElem?_set_ne same]
      simp only [still, Op.publishes, beq_iff_eq, same, if_false, Nat.add_zero]

theorem Counted.quiet {bat' : List Nat} (counted : Counted (w.fresh L.blockSize bat) bat t bat')
    (other : ∀ k, e.op.publishes k = false) :
    Counted (w.fresh L.blockSize bat) bat (t ++ [(i, e)]) bat' := by
  refine ⟨counted.length, counted.entry, fun k => ?_⟩
  unfold allocations
  rw [List.countP_append, List.countP_singleton, other k, if_neg Bool.false_ne_true, Nat.add_zero]
  exact counted.once k

/-! ## Runs of the calls -/

theorem Tally.start (sound : Sound L s bat off) : Tally L w s bat off s bat off := by
  refine ⟨sound, .refl, ?_⟩
  have none_ : added (w.fresh L.blockSize bat) bat = ∅ := by
    apply Finset.filter_false_of_mem
    intro k member live
    exact live (Calls.mem_fresh.mp member).2
  rw [none_, Finset.card_empty, Nat.zero_mul, Nat.add_zero]

/-- In-range calls on an image with room for every block they miss. -/
structure Enough (L : Layout) (w : Calls ι) (s : Image) (bat : List Nat) (off : Nat) : Prop where
  clear : Clear L
  dynamic : L.footer.diskType = .dynamic
  within : ∀ i, w.offset i + (w.buf i).length ≤ L.virtualSize
  sound : Sound L s bat off
  aligned : off % 512 = 0
  room : ∀ n < (w.fresh L.blockSize bat).card, (off + n * L.blockTotal) / 512 < batUnallocated

/-- Where the calls stand, all along a run. -/
def Underway (L : Layout) (w : Calls ι) (fm : Bool) (s : Image) (bat : List Nat) (off : Nat)
    (P : Pool Image ι (Op Unit) Op.Res fun _ => Outcome Error Unit) : Prop :=
  Held (fun s' => ∃ bat' off', Tally L w s bat off s' bat' off')
    (fun i => Waiting L fm (w.offset i) (w.buf i) (w.Carried fun _ => True) True False)
    (fun i => Working L fm (w.offset i) (w.buf i) (w.Carried fun _ => True) True
      fun s' => ∃ bat' off', Tally L w s bat off s' bat' off') P

variable {P : Pool Image ι (Op Unit) Op.Res fun _ => Outcome Error Unit}

theorem Enough.mutex (enough : Enough L w s bat off) :
    Mutex Faults.none.handler Op.locking (fun _ => True)
      (fun s' => ∃ bat' off', Tally L w s bat off s' bat' off')
      (fun i => Waiting L fm (w.offset i) (w.buf i) (w.Carried fun _ => True) True False)
      (fun i => Working L fm (w.offset i) (w.buf i) (w.Carried fun _ => True) True
        fun s' => ∃ bat' off', Tally L w s bat off s' bat' off') :=
  Calls.mutex enough.clear
    (Tally.account enough.sound enough.aligned enough.room)

theorem Enough.kept (enough : Enough L w s bat off) :
    Underway L w fm s bat off (w.start (.base (L.core () true fm)) s) where
  free _ := ⟨bat, off, .start enough.sound⟩
  inside i no := by cases no
  outside i _ := .fresh enough.dynamic (Or.inl (enough.within i)) enough.sound

theorem Enough.tallied (enough : Enough L w s bat off) (kept : Underway L w fm s bat off P)
    (finished : P.Finished) : ∃ bat' off', Tally L w s bat off P.state bat' off' := by
  apply kept.free
  cases owner : P.holder with
  | none => rfl
  | some i =>
      obtain ⟨out, returned⟩ := finished i
      exact absurd owner (enough.mutex.unheld kept returned)

theorem Enough.returned (enough : Enough L w s bat off) (kept : Underway L w fm s bat off P)
    {out : Outcome Error Unit} (returned : P.todo i = .ret out) :
    out = .ok () ∧
      Known L (w.pay i) (w.Carried fun _ => True) (w.offset i + (w.buf i).length) P.state := by
  have waiting := kept.outside i (enough.mutex.unheld kept returned)
  rw [returned] at waiting
  obtain ⟨ok, known⟩ | ⟨never, -⟩ := waiting.returned
  · exact ⟨ok, known trivial⟩
  · exact never.elim

variable [DecidableEq ι]

theorem Enough.runs (enough : Enough L w s bat off)
    (run : (w.start (.base (L.core () true fm)) s).Runs Faults.none.handler Op.locking t P) :
    Underway L w fm s bat off P :=
  enough.mutex.runs enough.kept run fun _ _ => trivial

theorem Enough.counted (enough : Enough L w s bat off)
    (run : (w.start (.base (L.core () true fm)) s).Runs Faults.none.handler Op.locking t P) :
    ∃ bat', P.state.bat = some bat' ∧ Counted (w.fresh L.blockSize bat) bat t bat' := by
  induction run with
  | here => exact ⟨bat, enough.sound.cached, .start⟩
  | @step t P₁ i e P₂ before step ih =>
      obtain ⟨bat', cached, counted⟩ := ih
      have kept := enough.runs before
      rcases Calls.step_table enough.clear
        kept step with ⟨k, v, is, wanted, live, same⟩ | ⟨still, other⟩
      · obtain ⟨bat'', cached', free⟩ := wanted.free
        obtain rfl := Option.some.inj (cached.symm.trans cached')
        refine ⟨bat'.set k v, ?_, counted.publish is wanted.touched free live⟩
        rw [same]
        simp only [Image.step, cached, Option.map_some]
      · exact ⟨bat', still.trans cached, counted.quiet other⟩

omit [DecidableEq ι] in
theorem Enough.written {bat' : List Nat} {off' b : Nat} {v : UInt8} (enough : Enough L w s bat off)
    (apart : ∀ i j, i ≠ j → ∀ b, w.pay i b = none ∨ w.pay j b = none)
    (kept : Underway L w fm s bat off P) (finished : P.Finished)
    (sound : Sound L P.state bat' off') (carried : w.pay i b = some v) :
    L.own P.state.disk bat' b = some v := by
  obtain ⟨out, returned⟩ := finished i
  obtain ⟨-, bat₁, off₁, sound₁, written⟩ := enough.returned kept returned
  obtain ⟨rfl, rfl⟩ := sound.unique sound₁
  have inside := payload_inside carried
  obtain ⟨v', held, j, -, from_⟩ := written b v inside.2 carried
  have same : j = i := by
    by_contra other
    rcases apart j i other b with no | no
    · rw [no] at from_
      cases from_
    · rw [no] at carried
      cases carried
  subst same
  rw [held, ← from_, carried]

omit [DecidableEq ι] in
theorem Enough.settled {bat' : List Nat} {off' : Nat} (enough : Enough L w s bat off)
    (apart : ∀ i j, i ≠ j → ∀ b, w.pay i b = none ∨ w.pay j b = none)
    (kept : Underway L w fm s bat off P) (finished : P.Finished)
    (tally : Tally L w s bat off P.state bat' off') :
    (∀ b, (∀ i, w.pay i b = none) → L.value P.state.disk bat' b = L.value s.disk bat b) ∧
      added (w.fresh L.blockSize bat) bat' = w.fresh L.blockSize bat := by
  constructor
  · intro b uncovered
    rcases tally.evolves.value b with same | ⟨i, -, carried⟩
    · exact same
    · rw [uncovered i] at carried
      cases carried
  · apply Finset.filter_true_of_mem
    intro k member free
    obtain ⟨⟨i, touched⟩, -⟩ := Calls.mem_fresh.mp member
    obtain ⟨j, lt, some_⟩ := touched
    obtain ⟨v, carried⟩ := Option.isSome_iff_exists.mp some_
    have own := enough.written apart kept finished tally.sound carried
    rw [Layout.own_unallocated (by rw [(L.block_of lt).1]; exact free)] at own
    cases own

/-- Any number of in-range calls with no byte in common, on any image of a session,
    with room for the blocks they miss: they all come to an end, each call that
    returns returns `Ok`, and when all have, the disk is the one before with every
    payload in it, and every block that was missing was allocated once. -/
theorem concurrent_writers_lose_nothing {env : BuildEnv} {path : Path} {size bs : Nat} {s₀ s₁ : Image}
    {r₀ r : VhdReader Unit} {t₀ : List (Event (Op Unit) Op.Res)} {log : List Attempt}
    (word : bs < 2 ^ 32)
    (create : Prog.Runs Faults.none.handler (createDynamic env path size bs) s₀ t₀ (.ret (.ok r₀)) s₁)
    (session : Session .none (r₀, s₁) log (some r) s)
    (inside : ∀ i, w.offset i + (w.buf i).length ≤ r.virtualSize)
    (apart : ∀ i j, i ≠ j → ∀ b, w.pay i b = none ∨ w.pay j b = none)
    (cached : s.bat = some bat) (tail : s.nextAllocOff = some off)
    (room : ∀ n < (w.fresh bs bat).card,
      (off + n * (r.core.bitmapSize + bs)) / 512 < batUnallocated) :
    (w.start r s).Completes Faults.none.handler Op.locking ∧
    ∀ t P, (w.start r s).Runs Faults.none.handler Op.locking t P →
      (∀ i out, P.todo i = .ret out → out = .ok ()) ∧
      (P.Finished →
        (∃ held held' : Nat → UInt8,
          (∀ offset buf, offset + buf.length ≤ r.virtualSize →
            (r.readAt offset buf).run idealStep s =
              (.ok ((List.range buf.length).map fun i => held (offset + i)), s)) ∧
          (∀ offset buf, offset + buf.length ≤ r.virtualSize →
            (r.readAt offset buf).run idealStep P.state =
              (.ok ((List.range buf.length).map fun i => held' (offset + i)), P.state)) ∧
          (∀ i b v, w.pay i b = some v → held' b = v) ∧
          ∀ b, (∀ i, w.pay i b = none) → held' b = held b) ∧
        P.state.nextAllocOff = some (off + (w.fresh bs bat).card * (r.core.bitmapSize + bs)) ∧
        ∀ k, allocations k t = if k ∈ w.fresh bs bat then 1 else 0) := by
  obtain ⟨L, off₀, created, rfl, rfl, -⟩ := createDynamic_created word create
  obtain ⟨⟨bat₁, off₁, durable⟩, readers⟩ := session.durable created rfl
  obtain ⟨fm, rfl⟩ := readers r rfl
  obtain rfl := Option.some.inj (cached.symm.trans durable.sound.cached)
  obtain rfl := durable.sound.at_tail tail
  have enough : Enough L w s bat off :=
    ⟨created.clear, created.dynamic, inside, durable.sound, durable.trailed.aligned, room⟩
  refine ⟨enough.mutex.completes enough.kept fun s op => ⟨_, _, idealStep_allowed .none s op⟩,
    fun t P run => ⟨fun i out returned => ?_, fun finished => ?_⟩⟩
  · exact (enough.returned (enough.runs run) returned).1
  · have kept := enough.runs run
    obtain ⟨bat', off', tally⟩ := enough.tallied kept finished
    obtain ⟨same, all⟩ := enough.settled apart kept finished tally
    obtain ⟨bat'', cached'', counted⟩ := enough.counted run
    obtain rfl := Option.some.inj (cached''.symm.trans tally.sound.cached)
    refine ⟨⟨_, _, fun offset buf within => ?_, fun offset buf within => ?_, fun i b v carried => ?_,
      same⟩, ?_, fun k => ?_⟩
    · exact read_ideal durable.sound.ready cached within
    · exact read_ideal tally.sound.ready tally.sound.cached within
    · exact Layout.value_of_own (enough.written apart kept finished tally.sound carried)
    · rw [tally.sound.tail, tally.tail, all]
      rfl
    · rw [counted.once k, all]

/-- Two threads write the first two bytes of the small disk at once. -/
theorem small_disk_takes_two_writers : ∃ (r : VhdReader Unit) (s : Image) (w : Calls Bool)
    (t : List (Bool × Event (Op Unit) Op.Res))
    (P : Pool Image Bool (Op Unit) Op.Res fun _ => Outcome Error Unit) (held : Nat → UInt8),
    w.pay false 0 = some 1 ∧ w.pay true 1 = some 2 ∧
    (w.start r s).Runs Faults.none.handler Op.locking t P ∧ P.Finished ∧
    (r.readAt 0 [0, 0]).run idealStep P.state = (.ok [held 0, held 1], P.state) ∧
    held 0 = 1 ∧ held 1 = 2 ∧ ∀ k, allocations k t = if k = 0 then 1 else 0 := by
  obtain ⟨t₀, r, s, create, size⟩ := small_created
  obtain ⟨L, off, created, reader, block, -⟩ := createDynamic_created (by decide) create
  have virtual : L.virtualSize = 34816 := by
    rw [reader] at size
    exact size
  let w : Calls Bool := ⟨fun i => i.toNat, fun i => if i then [2] else [1]⟩
  have blocks : w.blocks 512 = {0} := by decide
  have index : 0 / L.blockSize < L.entries := L.block_lt (by omega)
  rw [Nat.zero_div] at index
  have slot := Layout.getElem?_table (d := s.disk) index
  have empty := created.empty _ (List.mem_of_getElem? slot)
  have fresh : w.fresh 512 (L.table s.disk) = {0} := by
    rw [Calls.fresh, blocks]
    apply Finset.filter_true_of_mem
    intro k member
    rw [Finset.mem_singleton.mp member, slot, empty]
  have sound := created.rests.1
  have nameable := created.nameable
  obtain ⟨completes, runs⟩ := concurrent_writers_lose_nothing (w := w) (by decide) create .start
    (fun i => by cases i <;> simp [w, size]) (fun i j other b => by
      cases i <;> cases j <;> simp_all [w, Calls.pay, payload] <;> omega)
    sound.cached sound.tail (fun n below => by
      rw [fresh, Finset.card_singleton, Nat.lt_one_iff] at below
      subst below
      rw [Nat.zero_mul]
      exact nameable.below)
  obtain ⟨t, P, run, finished⟩ := completes.finishes
  obtain ⟨-, ended⟩ := runs t P run
  obtain ⟨⟨-, held, -, reads, written, -⟩, -, once⟩ := ended finished
  refine ⟨r, s, w, t, P, held, rfl, rfl, run, finished, ?_, written false 0 1 rfl,
    written true 1 2 rfl, fun k => ?_⟩
  · have read := reads 0 [0, 0] (by simp [size])
    exact read
  · rw [once k, fresh]
    simp only [Finset.mem_singleton]

end Writers

end ImgVhd
