import ImgVhd.Session.Reopen
import ImgVhd.Writing.Sequential

/-! # Writes that add no block

A call that reaches only blocks with entries writes inside those blocks and
nowhere else. It needs nothing of the image but that it opened, so it is proved
for images this code never made.
-/

namespace ImgVhd

open Foundation

/-- Every block the payload reaches has an entry. -/
def Backed (L : Layout) (pay : Nat → Option UInt8) (bat : List Nat) : Prop :=
  ∀ i, L.Touches pay i → bat[i]? ≠ some batUnallocated

/-- `y` is in no block that the payload reaches. -/
def Untouched (L : Layout) (pay : Nat → Option UInt8) (bat : List Nat) (y : Nat) : Prop :=
  ∀ i e : Nat, L.Touches pay i → bat[i]? = some e → Live e →
    ¬ (hostOff e ≤ y ∧ y < hostOff e + L.blockTotal)

/-- An image that opened from `d`, changed in its blocks alone. -/
structure Confined (L : Layout) (d : ByteStore) (off : Nat) (s : Image) : Prop where
  cached : s.bat = some (L.table d)
  tail : s.nextAllocOff = some off
  size : s.disk.size = d.size
  outside : ∀ y, (∀ e ∈ L.table d, Live e → ¬ (hostOff e ≤ y ∧ y < hostOff e + L.blockTotal)) →
    s.disk.byte y = d.byte y

section Confined

variable {L : Layout} {pay : Nat → Option UInt8} {d : ByteStore} {fm : Bool} {dataEnd off : Nat}
  {s : Image}

theorem Confined.opened : Confined L d off (L.opened d off) := ⟨rfl, rfl, rfl, fun _ _ => rfl⟩

theorem Confined.metadata (opens : Opens d L fm dataEnd off) (confined : Confined L d off s) {y : Nat}
    (below : y < L.dataStart) : s.disk.byte y = d.byte y :=
  confined.outside y fun e member live => by
    have place := opens.placed e member live
    omega

theorem Confined.table (opens : Opens d L fm dataEnd off) (confined : Confined L d off s) :
    L.table s.disk = L.table d := by
  have top := L.metadataEnd_le_dataStart
  have table := L.tableEnd_le_metadataEnd
  exact Layout.table_congr fun y _ high => confined.metadata opens (by omega)

theorem Confined.header (opens : Opens d L fm dataEnd off) (confined : Confined L d off s) :
    DynamicHeader.parse (s.disk.read L.headerOffset dynHeaderSize) = .ok L.header := by
  have top := L.metadataEnd_le_dataStart
  have header := L.headerEnd_le_metadataEnd
  rw [← opens.header]
  refine congrArg _ (ByteStore.read_congr fun j lt => confined.metadata opens ?_)
  have within : L.headerOffset + j < L.headerEnd := Nat.add_lt_add_left lt _
  omega

theorem Confined.ready (opens : Opens d L fm dataEnd off) (confined : Confined L d off s) :
    Ready L s := by
  have size := confined.size
  refine ⟨⟨_, confined.cached, L.length_table, fun e member live => ⟨L.table_lt member, ?_⟩⟩,
    ⟨off, confined.tail⟩, by rw [size]; exact opens.tableEnd⟩
  have past := opens.past member live
  have top := opens.tail_le
  omega

theorem Confined.sound (opens : Opens d L fm dataEnd off) (confined : Confined L d off s)
    (start : L.dataStart ≤ off) : Sound L s (L.table d) off := by
  have table := confined.table opens
  refine ⟨confined.cached, confined.tail, L.length_table, confined.header opens,
    fun i e entry _ => by rw [table]; exact entry, fun i e free there live => ?_,
    fun e member live => ?_, by rw [table]; exact opens.spread, start, ?_⟩
  · rw [table, free] at there
    exact absurd (Option.some.inj there).symm live
  · rw [table] at member
    exact ⟨(opens.placed e member live).1, opens.past member live⟩
  · rw [confined.size]
    exact opens.tail_le

/-- An image with its footer in place opens by it as it did before. -/
theorem Confined.opens (opens : Opens d L false dataEnd off) (confined : Confined L d off s) :
    Opens s.disk L false dataEnd off := by
  have table := confined.table opens
  have size := confined.size
  have long := opens.size_ge
  have stop := opens.stop
  rw [Bool.false_and, if_neg Bool.false_ne_true] at stop
  have last : tailSector s.disk = tailSector d := by
    unfold tailSector
    rw [size]
    refine ByteStore.read_congr fun j _ => confined.outside _ fun e member live => ?_
    have place := opens.placed e member live
    omega
  have cookie : tailHasCookie s.disk = tailHasCookie d := by
    unfold tailHasCookie
    rw [last]
  have footer : FooterOf s.disk ⟨L.footer, L.footerBytes, false, tailHasCookie s.disk⟩ := by
    have is : tailSector d = L.footerBytes := opens.footer.at_tail rfl
    rw [← is, ← last]
    exact .tail (by rw [last, is]; exact L.parses)
  refine ⟨footer, by rw [size]; exact opens.aligned, confined.header opens,
    by rw [size]; exact opens.headerEnd, by rw [size]; exact opens.tableEnd, ?_,
    by rw [table]; exact opens.placed, by rw [table]; exact opens.spread,
    by rw [table, size]; exact opens.tail⟩
  rw [Bool.false_and, if_neg Bool.false_ne_true, size]
  exact stop

end Confined

/-! ## One step -/

section Step

variable {L : Layout} {pay : Nat → Option UInt8} {bat : List Nat} {off : Nat} {x x' : Image × History}
  {op : ImageOp} {f : Faults}

theorem Backed.not_wanted {i : Nat} (backed : Backed L pay bat) (cached : x.1.bat = some bat) :
    ¬ Wanted L pay x.1 i := by
  rintro ⟨touched, -, bat', cached', free⟩
  rw [cached] at cached'
  cases cached'
  exact backed i touched free

/-- What such a call issues: it looks, or it writes inside a block it reaches. -/
theorem Permitted.in_place (permitted : Permitted L pay x op) (backed : Backed L pay bat)
    (sound : Sound L x.1 bat off) :
    op.Quiet ∨ ∃ i e role o bytes, op = .writeAt role o bytes ∧ Named L pay x.1 i e ∧
      hostOff e ≤ o ∧ o + bytes.length ≤ hostOff e + L.blockTotal ∧
      Sound L { x.1 with disk := x.1.disk.write o bytes } bat off ∧
      Evolves L (Carries pay) x.1 { x.1 with disk := x.1.disk.write o bytes } bat bat := by
  have total := L.blockTotal_eq
  have whole := L.blockSize_mod
  have never {i : Nat} := backed.not_wanted (i := i) sound.cached
  cases permitted with
  | look quiet => exact Or.inl quiet
  | grow wanted tail nameable short => exact absurd wanted never
  | footer wanted tail nameable room => exact absurd wanted never
  | zero wanted tail nameable footed inside => exact absurd wanted never
  | commit wanted tail nameable fresh => exact absurd wanted never
  | entry wanted tail nameable fresh => exact absurd wanted never
  | publish wanted nameable stored => exact absurd wanted never
  | @fill s h i e n p len named sector absent low high =>
      obtain ⟨sound', evolves⟩ := sound.fill_step (sound.of_named named) named.allocated
        sector absent low high
      exact Or.inr ⟨i, e, _, _, _, rfl, named, by omega, by rw [List.length_replicate]; omega, sound',
        evolves⟩
  | @payload s h i e p src named inside carries =>
      obtain ⟨sound', evolves⟩ := sound.payload_step (sound.of_named named) named.allocated inside carries
      exact Or.inr ⟨i, e, _, _, _, rfl, named, by omega, by omega, sound', evolves⟩
  | @bitmap s h i e bits named length kept defined =>
      obtain ⟨sound', evolves⟩ := sound.bitmap_step (sound.of_named named) named.allocated length kept
        defined
      exact Or.inr ⟨i, e, _, _, _, rfl, named, Nat.le_refl _, by omega, sound', evolves⟩

/-- What such a call has done so far, from `s`. -/
structure Published (L : Layout) (pay : Nat → Option UInt8) (d : ByteStore) (off : Nat) (s : Image)
    (x : Image) : Prop where
  confined : Confined L d off x
  evolves : Evolves L (Carries pay) s x (L.table d) (L.table d)
  outside : ∀ y, Untouched L pay (L.table d) y → x.disk.byte y = s.disk.byte y

variable {d : ByteStore} {fm : Bool} {dataEnd : Nat} {s : Image}

theorem Published.step {r : op.Res} (opens : Opens d L fm dataEnd off) (start : L.dataStart ≤ off)
    (backed : Backed L pay (L.table d)) (published : Published L pay d off s x.1)
    (permitted : Permitted L pay x op) (stepped : f.handler.traced x (.on () op) r x') :
    Published L pay d off s x'.1 ∧
      Evolves L (Carries pay) x.1 x'.1 (L.table d) (L.table d) := by
  have confined := published.confined
  have sound := confined.sound opens start
  have still (same : x'.1 = x.1) : Published L pay d off s x'.1 ∧
      Evolves L (Carries pay) x.1 x'.1 (L.table d) (L.table d) := by
    rw [same]
    exact ⟨published, .refl⟩
  rcases permitted.in_place backed sound with
    quiet | ⟨i, e, role, o, bytes, rfl, named, low, high, -, evolves⟩
  · exact still (Faults.handler_quiet op (quiet_step quiet) stepped.1).1
  · have entry := sound.of_named named
    have past := opens.past (List.mem_of_getElem? entry) named.allocated
    have top := opens.tail_le
    have size := confined.size
    have written : Published L pay d off s { x.1 with disk := x.1.disk.write o bytes } := by
      refine ⟨⟨confined.cached, confined.tail, size, fun y clear => ?_⟩,
        published.evolves.trans evolves, fun y clear => ?_⟩
      · have away := clear e (List.mem_of_getElem? entry) named.allocated
        rw [← confined.outside y clear]
        exact ByteStore.byte_write_outside (by omega)
      · have away := clear i e named.touched entry named.allocated
        rw [← published.outside y clear]
        exact ByteStore.byte_write_outside (by omega)
    have effect : (x.1.step (.writeAt role o bytes)).2 =
        { x.1 with disk := x.1.disk.write o bytes } :=
      congrArg Prod.snd (Image.step_writeAt (by omega))
    rcases Faults.handler_on stepped.1 with ideal | ⟨-, ⟨-, same⟩ | ⟨-, same⟩⟩
    · rw [show x'.1 = _ from (congrArg Prod.snd ideal).trans effect]
      exact ⟨written, evolves⟩
    · exact still same
    · rw [show x'.1 = _ from same.trans effect]
      exact ⟨written, evolves⟩

end Step

/-! ## A whole call -/

section Call

variable {L : Layout} {d : ByteStore} {fm : Bool} {dataEnd off offset : Nat} {s : Image} {buf : Bytes}
  {f : Faults}

/-- The payload below `c` is in the image. -/
structure PublishedTo (L : Layout) (d : ByteStore) (off : Nat) (s : Image) (offset : Nat) (buf : Bytes)
    (c : Nat) (x : Image) : Prop where
  reached : offset ≤ c
  published : Published L (payload offset buf) d off s x
  written : ∀ b v, b < c → payload offset buf b = some v → L.own x.disk (L.table d) b = some v

theorem inPlaceRule (opens : Opens d L fm dataEnd off) (start : L.dataStart ≤ off)
    (backed : Backed L (payload offset buf) (L.table d)) :
    WriteRule L f offset buf f.handler.traced (fun c x => PublishedTo L d off s offset buf c x.1)
      (fun c x₀ x => c < offset + buf.length ∧ x₀.1.bat = some (L.table d) ∧
        PublishedTo L d off s offset buf c x.1)
      (fun _ x => Published L (payload offset buf) d off s x.1 ∧ f.Beyond) := by
  constructor
  case enter =>
    rintro c x r x' known more stepped
    obtain ⟨rfl, rfl⟩ := Faults.traced_lock stepped
    have confined := known.published.confined
    exact ⟨rfl, confined.ready opens, more, confined.cached, known⟩
  case inside => exact fun c x₀ x op r x' _ _ stepped => stepped
  case kept =>
    rintro c x₀ x op r x' ⟨more, cached, known⟩ permitted stepped _
    obtain ⟨published, evolves⟩ := known.published.step opens start backed permitted stepped
    exact ⟨more, cached, known.reached, published, fun b v below carried =>
      evolves.own_same (known.written b v below carried) fun u other =>
        Option.some.inj (other.symm.trans carried)⟩
  case done =>
    rintro c y q x₀ x src _ _ ⟨-, -, known⟩ _ nonempty inside carries wrote
    exact ⟨Nat.le_add_right_of_le known.reached, known.published,
      wrote.written known.published.confined.cached inside carries known.written⟩
  case leave =>
    rintro c x r x' known stepped
    obtain rfl := Faults.traced_unlock stepped
    exact known
  case fail =>
    rintro c x₀ x e r x' ⟨more, cached, known⟩ denied stepped
    obtain rfl := Faults.traced_unlock stepped
    refine ⟨known.published, denied.resolve_left ?_⟩
    rintro ⟨-, ⟨bat, cached', free⟩, -⟩
    rw [cached] at cached'
    cases cached'
    exact backed _ (touches_payload.mpr ⟨c, known.reached, more, rfl⟩) free

/-- A call that reaches only blocks with entries: wherever it is cut it has
    published part of its payload, and when it returns all of it. It fails only by
    a fault. -/
theorem Confined.call {p : Io Unit Unit} {t : List (Event (Op Unit) Op.Res)} {s' : Image}
    (opens : Opens d L fm dataEnd off) (dynamic : L.footer.diskType = .dynamic)
    (confined : Confined L d off s) (within : offset + buf.length ≤ L.virtualSize)
    (backed : Backed L (payload offset buf) (L.table d))
    (run : Prog.Runs f.handler ((VhdReader.base (L.core () true fm)).writeAt offset buf) s t p s') :
    Published L (payload offset buf) d off s s' ∧
    (p.value? = some (.ok ()) → ∀ b v, payload offset buf b = some v →
      L.own s'.disk (L.table d) b = some v) ∧
    ∀ out, p = .ret out → out = .ok () ∨ ∃ e, out = .err e ∧ f.Beyond := by
  by_cases idle : buf = [] ∨ L.virtualSize < offset + buf.length
  · have empty : buf = [] := idle.resolve_right (Nat.not_lt.mpr within)
    subst empty
    have none_ (b : Nat) (v : UInt8) : payload offset [] b ≠ some v := by
      unfold payload
      split <;> simp
    obtain ⟨-, rfl, out, rfl, done⟩ := writeAt_runs dynamic idle run
    refine ⟨⟨confined, .refl, fun _ _ => rfl⟩, fun _ b v carried => absurd carried (none_ b v),
      fun out' same => Or.inl ?_⟩
    cases same
    exact done.mpr rfl
  obtain ⟨some_, -⟩ := not_or.mp idle
  have first : 0 < buf.length := List.length_pos_of_ne_nil some_
  -- a block with an entry, so the tail is past the metadata
  have start : L.dataStart ≤ off := by
    have index := L.block_lt (b := offset) (by omega)
    have some_ := backed _ (touches_payload.mpr ⟨offset, Nat.le_refl _, by omega, rfl⟩)
    have entry := Layout.getElem?_table (d := d) index
    rw [entry] at some_
    have live : Live (ofBe (d.read (L.tableOffset + offset / L.blockSize * 4) 4)) :=
      fun free => some_ (congrArg some free)
    have place := opens.placed _ (List.mem_of_getElem? entry) live
    have past := opens.past (List.mem_of_getElem? entry) live
    omega
  have whole := writeAt_wp_rule fm (inPlaceRule (f := f) (s := s) opens start backed) dynamic
    within (x := (s, [])) ⟨Nat.le_refl _, ⟨confined, .refl, fun _ _ => rfl⟩, fun b v below carried =>
      absurd (payload_inside carried).1 (Nat.not_le_of_lt below)⟩
  have traced := run.traced []
  refine ⟨?_, fun returned b v carried => ?_, fun out is => ?_⟩
  · refine Code.wp_cut (I := fun x => Published L (payload offset buf) d off s x.1) whole traced ?_
      (fun _ _ reached => reached.published) fun _ _ reached => reached.1
    rintro x op (known | ⟨⟨-, -, known⟩, -⟩ | known | ⟨⟨-, -, known⟩, -⟩) <;>
      exact known.published
  · cases p with
    | call op next => cases returned
    | ret out =>
        cases returned
        have reached := Prog.wp_finished whole traced
        exact reached.written b v (payload_inside carried).2 carried
  · subst is
    rcases Code.wp_finished whole traced with ⟨done, rfl, -⟩ | ⟨e, rfl, reached⟩
    · exact Or.inl rfl
    · exact Or.inr ⟨e, rfl, reached.2⟩

end Call

end ImgVhd
