import ImgVhd.Session.Burst
import ImgVhd.Session.Order
import ImgVhd.Writing.Ranges

/-! # Calls that add a block

The allocator grows the file before it writes the footer's new copy, so between
the two the file ends in zeros. Calls that add no block never grow the file.
-/

namespace ImgVhd

open Foundation

/-- The call reaches a block the table has no entry for, and the next block's
    offset is one an entry can name. -/
def Adds (r : VhdReader Unit) (s : Image) (offset : Nat) (buf : Bytes) : Prop :=
  offset + buf.length ≤ r.virtualSize ∧ ∃ hdr bat off b, r.core.dynamic = some hdr ∧
    s.bat = some bat ∧ s.nextAllocOff = some off ∧ (∃ v, batEntryFor off = .ok v) ∧
    offset ≤ b ∧ b < offset + buf.length ∧ bat[b / hdr.blockSize]? = some batUnallocated

section Adding

variable {L : Layout} {d : ByteStore} {dataEnd off : Nat} {fm : Bool} {s s₀ s₁ : Image} {h : History}
  {f : Faults} {offset : Nat} {buf : Bytes} {r : VhdReader Unit}

theorem adds_iff {d : ByteStore} {off : Nat} :
    Adds (.base (L.core () true fm)) (L.opened d off) offset buf ↔
      offset + buf.length ≤ L.virtualSize ∧ Nameable off ∧ ∃ b, offset ≤ b ∧
        b < offset + buf.length ∧ (L.table d)[b / L.blockSize]? = some batUnallocated := by
  constructor
  · rintro ⟨within, hdr, bat, at_, b, is, cached, tail, ⟨v, named⟩, low, high, free⟩
    cases is
    cases cached
    cases tail
    exact ⟨within, (batEntryFor_eq_ok.mp named).1, b, low, high, free⟩
  · rintro ⟨within, nameable, b, low, high, free⟩
    exact ⟨within, L.header, L.table d, off, b, rfl, rfl, rfl, ⟨_, batEntryFor_of_nameable nameable⟩,
      low, high, free⟩

/-- Nothing has been added since the open: the table, the tail and the file's end
    are what they were, and no event says otherwise. -/
structure Unadded (L : Layout) (d : ByteStore) (off : Nat) (x : Image × History) : Prop where
  cached : x.1.bat = some (L.table d)
  tail : x.1.nextAllocOff = some off
  size : x.1.disk.size = d.size
  last : tailSector x.1.disk = tailSector d
  sent : sent x.2 = []
  tails : tails x.2 = []

theorem Unadded.quiet {x x' : Image × History} {e : Event (Op Unit) Op.Res} {d' : ByteStore}
    (unadded : Unadded L d off x) (left : x' = ({ x.1 with disk := d' }, e :: x.2))
    (sends : e.op.sends = none) (moves : e.op.moves = none) (size : d'.size = x.1.disk.size)
    (last : tailSector d' = tailSector x.1.disk) : Unadded L d off x' := by
  subst left
  refine ⟨unadded.cached, unadded.tail, size.trans unadded.size, last.trans unadded.last, ?_, ?_⟩
  · rw [sent_cons, sends, unadded.sent]
    rfl
  · rw [tails_cons, moves, unadded.tails]
    rfl

/-- Which steps of a write add something: the ones that grow the file. Any other
    step that is permitted leaves things as they were. -/
theorem Unadded.step {x x' : Image × History} {op : ImageOp} {r : op.Res}
    (opens : Opens d L false dataEnd off) (unadded : Unadded L d off x)
    (permitted : Permitted L (payload offset buf) x op)
    (stepped : f.handler.traced x (.on () op) r x') :
    Unadded L d off x' ∨ (∃ i, Wanted L (payload offset buf) x.1 i ∧ Nameable off) ∧
      op = .setLen (off + L.blockTotal + 512) := by
  have positive := L.blockTotal_pos
  have long := opens.size_ge
  have start : off = d.size - 512 := by
    have reached := opens.tail.reached
    simp only [Bool.false_eq_true, false_and, or_false] at reached
    exact reached
  have stop : dataEnd = d.size - 512 := by
    have is := opens.stop
    rw [Bool.false_and, if_neg Bool.false_ne_true] at is
    exact is
  have size := unadded.size
  have quiet {d' : ByteStore} (left : x'.1 = { x.1 with disk := d' })
      (sends : (Op.on () op).sends = none) (moves : (Op.on () op).moves = none)
      (size : d'.size = x.1.disk.size) (last : tailSector d' = tailSector x.1.disk) :
      Unadded L d off x' :=
    unadded.quiet (e := ⟨.on () op, r⟩) (Prod.ext left stepped.2) sends moves size last
  -- a write inside a block of the table stays clear of the last sector
  have inside {i e o : Nat} {bytes : Bytes} {role : WriteRole} (is : op = .writeAt role o bytes)
      (sends : (Op.on () op).sends = none) (named : Named L (payload offset buf) x.1 i e)
      (under : o + bytes.length ≤ hostOff e + L.blockTotal) : Unadded L d off x' := by
    subst is
    obtain ⟨bat, cached, entry⟩ := named.entry
    obtain rfl : bat = L.table d := Option.some.inj (cached.symm.trans unadded.cached)
    have place := opens.placed e (List.mem_of_getElem? entry) named.allocated
    have fits : o + bytes.length ≤ x.1.disk.size := by omega
    have same : tailSector (x.1.disk.write o bytes) = tailSector x.1.disk := by
      unfold tailSector
      exact ByteStore.read_write_disjoint (Or.inr (by
        rw [ByteStore.size_write, size]
        unfold footerSize
        omega))
    rcases Faults.handler_on stepped.1 with ideal | ⟨-, ⟨-, left⟩ | ⟨-, left⟩⟩
    · exact quiet ((congrArg Prod.snd ideal).trans (congrArg Prod.snd (Image.step_writeAt fits)))
        sends rfl rfl same
    · exact quiet left sends rfl rfl rfl
    · exact quiet (left.trans (congrArg Prod.snd (Image.step_writeAt fits))) sends rfl rfl same
  cases permitted with
  | look look_ =>
      refine Or.inl ?_
      have left : x'.1 = { x.1 with disk := x.1.disk } :=
        (Faults.handler_quiet op (quiet_step look_) stepped.1).1
      cases op <;> first | exact quiet left rfl rfl rfl rfl | exact look_.elim
  | @grow s h i at_ wanted tail nameable short =>
      obtain rfl : at_ = off := Option.some.inj (tail.symm.trans unadded.tail)
      exact Or.inr ⟨⟨i, wanted, nameable⟩, rfl⟩
  | @footer s h i at_ wanted tail nameable room =>
      obtain rfl : at_ = off := Option.some.inj (tail.symm.trans unadded.tail)
      have size : s.disk.size = d.size := size
      omega
  | @zero s h i at_ k n wanted tail nameable footed within =>
      obtain rfl : at_ = off := Option.some.inj (tail.symm.trans unadded.tail)
      have size : s.disk.size = d.size := size
      have room := footed.room
      omega
  | @commit s h i at_ wanted tail nameable fresh =>
      obtain rfl : at_ = off := Option.some.inj (tail.symm.trans unadded.tail)
      have size : s.disk.size = d.size := size
      have room := fresh.room
      omega
  | entry wanted tail nameable fresh => exact absurd unadded.tails (List.cons_ne_nil _ _)
  | publish wanted nameable stored => exact absurd unadded.sent (List.cons_ne_nil _ _)
  | @fill s h i e n p len named sector absent low high =>
      have whole := L.blockSize_mod
      have total := L.blockTotal_eq
      exact Or.inl (inside rfl rfl named (by rw [List.length_replicate]; omega))
  | @payload s h i e p src named within carries =>
      have total := L.blockTotal_eq
      exact Or.inl (inside rfl rfl named (by omega))
  | @bitmap s h i e bits named length kept defined =>
      have total := L.blockTotal_eq
      exact Or.inl (inside rfl rfl named (by omega))

theorem Unadded.ready {x : Image × History} (opens : Opens d L false dataEnd off)
    (unadded : Unadded L d off x) : Ready L x.1 := by
  have size := unadded.size
  refine ⟨⟨_, unadded.cached, L.length_table, fun e member live => ⟨L.table_lt member, ?_⟩⟩,
    ⟨off, unadded.tail⟩, by rw [size]; exact opens.tableEnd⟩
  have past := opens.past member live
  have top := opens.tail_le
  omega

/-- No byte below `c` of the call is in a block that is not there. -/
def Reached (L : Layout) (d : ByteStore) (offset c : Nat) : Prop :=
  ∀ b < c, offset ≤ b → (L.table d)[b / L.blockSize]? ≠ some batUnallocated

theorem Unadded.locks {x : Image × History} {e : Event (Op Unit) Op.Res} (unadded : Unadded L d off x)
    (lock : e.op = .on () .lockBat ∨ e.op = .on () .unlockBat) : Unadded L d off (x.1, e :: x.2) := by
  obtain ⟨sends, moves⟩ := silent_of_lock lock
  exact unadded.quiet rfl sends moves rfl rfl

/-- A call under a meaning of the interface that never lets it cache an entry: every
    block it gets past was there. -/
theorem absentRule {I : Image × History → Prop} {H : Handler (Image × History) (Op Unit) Op.Res}
    (smaller : ∀ x op r x', H x op r x' → f.handler.traced x op r x')
    (cached : ∀ x, I x → x.1.bat = some (L.table d)) (ready : ∀ x, I x → Ready L x.1)
    (locks : ∀ x e, I x → e.op = .on () .lockBat ∨ e.op = .on () .unlockBat → I (x.1, e :: x.2))
    (stays : ∀ x op r x', I x → Permitted L (payload offset buf) x op → H x (.on () op) r x' → I x') :
    WriteRule L f offset buf H (fun c x => I x ∧ Reached L d offset c)
      (fun c _ x => I x ∧ Reached L d offset c)
      (fun _ x => I x ∧
        ((∃ off, x.1.nextAllocOff = some off ∧ ¬ Nameable off) ∨ f.Faulty)) := by
  constructor
  case enter =>
    rintro c x r x' ⟨known, reached⟩ _ stepped
    obtain ⟨rfl, rfl⟩ := Faults.traced_lock (smaller _ _ _ _ stepped)
    have known' := locks x ⟨.on () .lockBat, x.1.bat⟩ known (Or.inl rfl)
    exact ⟨rfl, ready _ known', known', reached⟩
  case inside => exact fun c x₀ x op r x' _ _ stepped => smaller _ _ _ _ stepped
  case kept =>
    rintro c x₀ x op r x' ⟨known, reached⟩ permitted stepped _
    exact ⟨stays x op r x' known permitted stepped, reached⟩
  case done =>
    rintro c y q x₀ x src _ _ ⟨known, reached⟩ _ nonempty inside _ wrote
    refine ⟨known, fun b below from_ => ?_⟩
    by_cases earlier : b < c
    · exact reached b earlier from_
    · obtain ⟨bat, e, entries, entry, live, -⟩ := wrote.took
      obtain rfl : bat = L.table d := Option.some.inj (entries.symm.trans (cached x known))
      have split := L.block_split c
      obtain ⟨block, -⟩ := L.block_of (k := c / L.blockSize) (q := c % L.blockSize + (b - c))
        (by omega)
      rw [← Nat.add_assoc, split.1, Nat.add_sub_cancel' (by omega)] at block
      rw [block, entry]
      exact fun same => live (Option.some.inj same)
  case leave =>
    rintro c x r x' ⟨known, reached⟩ stepped
    obtain rfl := Faults.traced_unlock (smaller _ _ _ _ stepped)
    exact ⟨locks x _ known (Or.inr rfl), reached⟩
  case fail =>
    rintro c x₀ x e r x' ⟨known, -⟩ denied stepped
    obtain rfl := Faults.traced_unlock (smaller _ _ _ _ stepped)
    refine ⟨locks x _ known (Or.inr rfl), ?_⟩
    rcases denied with ⟨same, -, unnameable | ⟨len, lost⟩⟩ | ⟨op, landed | ⟨lost, -⟩⟩
    · rw [same]
      exact Or.inl unnameable
    · exact Or.inr ⟨_, Or.inl lost⟩
    · exact Or.inr ⟨op, Or.inr landed⟩
    · exact Or.inr ⟨op, Or.inl lost⟩

theorem Wanted.reaches {s : Image} {i : Nat} {bat : List Nat}
    (wanted : Wanted L (payload offset buf) s i) (cached : s.bat = some bat) :
    ∃ b, offset ≤ b ∧ b < offset + buf.length ∧ bat[b / L.blockSize]? = some batUnallocated := by
  obtain ⟨b, low, high, rfl⟩ := touches_payload.mp wanted.touched
  obtain ⟨bat', cached', free⟩ := wanted.free
  rw [cached] at cached'
  cases cached'
  exact ⟨b, low, high, free⟩

theorem Unadded.call {t : List (Event (Op Unit) Op.Res)} {p : Io Unit Unit}
    (opens : Opens d L false dataEnd off) (dynamic : L.footer.diskType = .dynamic)
    (unadded : Unadded L d off (s₁, []))
    (spared : ¬ Adds (.base (L.core () true false)) (L.opened d off) offset buf)
    (run : Prog.Runs f.handler ((VhdReader.base (L.core () true false)).writeAt offset buf) s₁ t p s) :
    Unadded L d off (s, []) := by
  have settle {x : Image × History} (here : Unadded L d off x) : Unadded L d off (x.1, []) :=
    ⟨here.cached, here.tail, here.size, here.last, rfl, rfl⟩
  by_cases idle : buf = [] ∨ L.virtualSize < offset + buf.length
  · obtain ⟨-, rfl, -⟩ := writeAt_runs dynamic idle run
    exact unadded
  have within : offset + buf.length ≤ L.virtualSize := Nat.not_lt.mp fun past => idle (Or.inr past)
  have rule : WriteRule L f offset buf f.handler.traced _ _ _ :=
    absentRule (I := Unadded L d off) (fun _ _ _ _ stepped => stepped) (fun _ here => here.cached)
      (fun _ here => here.ready opens) (fun _ _ here lock => here.locks lock)
      fun x op r x' here permitted stepped => by
      rcases here.step opens permitted stepped with still | ⟨⟨i, wanted, nameable⟩, -⟩
      · exact still
      · exact absurd (adds_iff.mpr ⟨within, nameable, wanted.reaches here.cached⟩) spared
  refine settle (Code.wp_cut (I := Unadded L d off) (writeAt_wp_rule false rule dynamic within
    (x := (s₁, [])) ⟨unadded, fun b below from_ => absurd below (by omega)⟩) (run.traced [])
    ?_ (fun _ _ reached => reached.1) fun _ _ reached => reached.1)
  rintro x op (⟨here, -⟩ | ⟨⟨here, -⟩, -⟩ | ⟨here, -⟩ | ⟨⟨here, -⟩, -⟩) <;> exact here

theorem tailSector_resize {n : Nat} {fits : n < 2 ^ 64} (grows : d.size + 512 ≤ n) :
    tailSector (d.resize n fits) = List.replicate 512 0 := by
  unfold tailSector
  refine (ByteStore.read_eq_iff List.length_replicate).mpr fun i inside => ?_
  rw [List.getElem_replicate, ByteStore.byte_resize (by omega), ByteStore.size_resize]
  exact d.beyond _ (by unfold footerSize at inside ⊢; omega)

/-- A call that adds a block can be cut where the file ends in no footer. -/
theorem Unadded.breaks (opens : Opens d L false dataEnd off) (dynamic : L.footer.diskType = .dynamic)
    (unadded : Unadded L d off (s₁, []))
    (adds : Adds (.base (L.core () true false)) (L.opened d off) offset buf) :
    ∃ t p s, Prog.Runs Faults.none.handler
      ((VhdReader.base (L.core () true false)).writeAt offset buf) s₁ t p s ∧
      ∀ footer, Footer.parse (tailSector s.disk) ≠ .ok footer := by
  obtain ⟨within, nameable, b, low, high, free⟩ := adds_iff.mp adds
  by_contra never
  push Not at never
  -- a run that always ends in a footer never grows the file, so it cannot finish
  have run := (Prog.run_trace idealStep (idealStep_allowed .none)
    ((VhdReader.base (L.core () true false)).writeAt offset buf) s₁).along never
  have rule : WriteRule L .none offset buf _ _ _ _ := absentRule (I := Unadded L d off)
    (H := Handler.traced fun s op r s' => Faults.none.handler s op r s' ∧
      ∃ footer, Footer.parse (tailSector s'.disk) = .ok footer)
    (fun _ _ _ _ stepped => ⟨stepped.1.1, stepped.2⟩) (fun _ here => here.cached)
    (fun _ here => here.ready opens) (fun _ _ here lock => here.locks lock)
    fun x op r x' here permitted stepped => by
      rcases here.step opens permitted ⟨stepped.1.1, stepped.2⟩ with still | ⟨-, rfl⟩
      · exact still
      · obtain ⟨footer, parses⟩ := stepped.1.2
        have small := nameable.lt
        have total := L.blockTotal_lt
        have long := L.blockTotal_pos
        have size := here.size
        have least : d.size - 512 ≤ off := opens.tail.least
        have left : x'.1 = (x.1.step (.setLen (off + L.blockTotal + 512))).2 :=
          congrArg Prod.snd (idealStep_only stepped.1.1)
        rw [left, Image.step_setLen (by omega), tailSector_resize (by omega),
          Footer.parse_zeros] at parses
        cases parses
  have reached := Prog.wp_finished (writeAt_wp_rule false rule dynamic within
    (x := (s₁, [])) ⟨unadded, fun b below from_ => absurd below (by omega)⟩) (run.traced [])
  revert reached
  cases (Prog.run idealStep ((VhdReader.base (L.core () true false)).writeAt offset buf) s₁).1 with
  | ok _ => exact fun reached => reached.2 b high low free
  | err e =>
      rintro ⟨here, ⟨at_, tail, odd⟩ | faulty⟩
      · obtain rfl : at_ = off := Option.some.inj (tail.symm.trans here.tail)
        exact odd nameable
      · exact Faults.none_not_faulty faulty
  | panic => exact id
  | outOfFuel => exact id

theorem Unadded.opened : Unadded L d off (L.opened d off, []) := ⟨rfl, rfl, rfl, rfl, rfl, rfl⟩

theorem Burst.unadded {log : List Attempt} {trace : List (Event (Op Unit) Op.Res)}
    (burst : Burst f (.base (L.core () true false)) (L.opened d off) log trace s₁)
    (opens : Opens d L false dataEnd off) (dynamic : L.footer.diskType = .dynamic)
    (spared : ∀ a ∈ log, ¬ Adds (.base (L.core () true false)) (L.opened d off) a.offset a.buf) :
    Unadded L d off (s₁, []) := by
  induction burst with
  | start => exact Unadded.opened
  | write before run ih =>
      exact (ih fun a member => spared a (List.mem_cons_of_mem _ member)).call opens dynamic
        (spared _ List.mem_cons_self) run

/-! ## The small disk -/

theorem Filled.adds {bat : List Nat} {held : Bytes} {b : Nat} (filled : Filled L held s bat off)
    (within : offset + buf.length ≤ L.virtualSize) (low : offset ≤ b) (high : b < offset + buf.length)
    (past : 1024 ≤ b) : Adds (.base (L.core () true false)) (L.opened s.disk off) offset buf := by
  have block := filled.block
  have index : b / L.blockSize < L.entries := L.block_lt (by omega)
  have behind : 2 ≤ b / L.blockSize := by rw [block]; omega
  have top := Option.some.inj (filled.order.sound.tail.symm.trans filled.packed.tail)
  refine adds_iff.mpr ⟨within, ?_, b, low, high, filled.reopened.free index behind⟩
  rw [top]
  exact filled.roomy 2 (by omega)

theorem Filled.not_adds {bat : List Nat} {held : Bytes} (filled : Filled L held s bat off)
    (inside : offset + buf.length ≤ 1024) :
    ¬ Adds (.base (L.core () true false)) (L.opened s.disk off) offset buf := by
  intro adds
  obtain ⟨-, -, b, low, high, free⟩ := adds_iff.mp adds
  rw [filled.block] at free
  refine (filled.reopened.packed.live_iff free).mpr ?_ rfl
  simp
  omega

end Adding

end ImgVhd
