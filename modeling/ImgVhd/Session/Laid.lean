import ImgVhd.Session.Adding

/-! # Where an allocation may go

An image is well laid if its allocations miss its metadata: the entries they may
write are clear of the mirror and the header, and the tail they start from is past
them and the table. Every operation of every write on a reader spares the metadata
exactly when the image it was opened on is well laid.
-/

namespace ImgVhd

open Foundation

/-- A byte of the footer mirror. -/
def InMirror (x : Nat) : Prop := x < 512

/-- A byte of the dynamic header. -/
def Core.InHeader (c : Core Unit) (x : Nat) : Prop :=
  c.footer.dataOffset ≤ x ∧ x < c.footer.dataOffset + 1024

/-- A byte of the table. -/
def Core.InTable (c : Core Unit) (x : Nat) : Prop :=
  ∃ h, c.dynamic = some h ∧ h.tableOffset ≤ x ∧ x < h.tableOffset + 4 * h.maxTableEntries

/-- A byte of entry `i` of the table. -/
def Core.InEntry (c : Core Unit) (i x : Nat) : Prop :=
  ∃ h, c.dynamic = some h ∧ h.tableOffset + 4 * i ≤ x ∧ x < h.tableOffset + 4 * i + 4

/-- The call is adding block `i` at `v`: it reaches the block, whose cached entry is
    still free, and the tail stands right behind the place that `v` names. -/
def Core.Places (c : Core Unit) (offset : Nat) (buf : Bytes) (s : Image) (i v : Nat) : Prop :=
  ∃ h bat b, c.dynamic = some h ∧ s.bat = some bat ∧ bat[i]? = some batUnallocated ∧
    offset ≤ b ∧ b < offset + buf.length ∧ b / h.blockSize = i ∧
    s.nextAllocOff = some (hostOff v + (c.bitmapSize + h.blockSize))

/-- What a call may issue on `s`: no write to the metadata, but for the entry of
    the block it is adding. -/
def Spares (c : Core Unit) (offset : Nat) (buf : Bytes) (s : Image) : Op Unit → Prop
  | .on _ (.writeAt (.batEntry i v) off bytes) =>
      c.Places offset buf s i v ∧ bytes = toBe 4 v ∧
      (∃ h, c.dynamic = some h ∧ i < h.maxTableEntries ∧ off = h.tableOffset + 4 * i) ∧
      ∀ x, off ≤ x → x < off + 4 → ¬ InMirror x ∧ ¬ c.InHeader x
  | .on _ (.writeAt _ off bytes) =>
      ∀ x, off ≤ x → x < off + bytes.length → ¬ InMirror x ∧ ¬ c.InHeader x ∧ ¬ c.InTable x
  | .on _ (.setLen len) => s.disk.size ≤ len
  | _ => True

/-- Block `i` is not there, and the tail is where an entry can name it. -/
def Core.Lacks (c : Core Unit) (s : Image) (i : Nat) : Prop :=
  ∃ h bat off, c.dynamic = some h ∧ s.bat = some bat ∧ s.nextAllocOff = some off ∧
    i * h.blockSize < c.virtualSize ∧ bat[i]? = some batUnallocated ∧ ∃ v, batEntryFor off = .ok v

/-- What an opened image must be for its allocations to miss its metadata: the
    entries still to be written overlap neither mirror nor header, and the table
    names a block or the metadata ends before the last sector. -/
structure WellLaid (c : Core Unit) (s : Image) : Prop where
  clear : ∀ i, c.Lacks s i → ∀ x, c.InEntry i x → ¬ InMirror x ∧ ¬ c.InHeader x
  past : ∀ i, c.Lacks s i → (∃ bat e, s.bat = some bat ∧ e ∈ bat ∧ e ≠ batUnallocated) ∨
    ∀ x, InMirror x ∨ c.InHeader x ∨ c.InTable x → x + 512 < s.disk.size

/-- A call that returns, after calls that all returned, issues `op` on `x`. -/
def Issued (r : VhdReader Unit) (s : Image) (offset : Nat) (buf : Bytes) (x : Image) (op : Op Unit) :
    Prop :=
  ∃ log trace s' t next t' s'', Burst .none r s log trace s' ∧ (∀ a ∈ log, a.done = true) ∧
    Prog.Runs Faults.none.handler (r.writeAt offset buf) s' t (.call op next) x ∧
    Prog.Runs Faults.none.handler (.call op next) x t' (.ret (.ok ())) s''

section Laid

variable {L : Layout} {fm : Bool} {d : ByteStore} {dataEnd off off₀ offset : Nat} {buf : Bytes}
  {s : Image} {x : Image × History} {op : ImageOp} {bat : List Nat}

theorem inTable_iff {y : Nat} : (L.core () true fm).InTable y ↔ L.tableOffset ≤ y ∧ y < L.tableEnd := by
  have stop : L.tableEnd = L.tableOffset + 4 * L.entries := by
    rw [Nat.mul_comm]
    rfl
  rw [stop]
  constructor
  · rintro ⟨h, same, low, high⟩
    cases same
    exact ⟨low, high⟩
  · rintro ⟨low, high⟩
    exact ⟨L.header, rfl, low, high⟩

theorem inHeader_iff {y : Nat} :
    (L.core () true fm).InHeader y ↔ L.headerOffset ≤ y ∧ y < L.headerEnd := Iff.rfl

theorem lacks_iff {i : Nat} :
    (L.core () true fm).Lacks (L.opened d off) i ↔
      i * L.blockSize < L.virtualSize ∧ (L.table d)[i]? = some batUnallocated ∧ Nameable off := by
  constructor
  · rintro ⟨h, bat, at_, is, cached, tail, inside, free, v, named⟩
    cases is
    cases cached
    cases tail
    exact ⟨inside, free, (batEntryFor_eq_ok.mp named).1⟩
  · rintro ⟨inside, free, nameable⟩
    exact ⟨L.header, L.table d, off, rfl, rfl, rfl, inside, free, _, batEntryFor_of_nameable nameable⟩

theorem entryClear_iff {i : Nat} :
    (∀ y, (L.core () true fm).InEntry i y → ¬ InMirror y ∧ ¬ (L.core () true fm).InHeader y) ↔
      EntryClear L i := by
  constructor
  · intro clear y low high
    obtain ⟨mirror, header⟩ := clear y ⟨L.header, rfl, by rw [Nat.mul_comm]; exact low, by
      rw [Nat.mul_comm]
      exact high⟩
    exact ⟨Nat.le_of_not_lt mirror, header⟩
  · rintro clear y ⟨h, is, low, high⟩
    cases is
    rw [Nat.mul_comm] at low high
    obtain ⟨mirror, header⟩ := clear y low high
    exact ⟨Nat.not_lt.mpr mirror, header⟩

theorem Layout.Touches.inside {i : Nat} (touched : L.Touches (payload offset buf) i)
    (within : offset + buf.length ≤ L.virtualSize) : i * L.blockSize < L.virtualSize := by
  obtain ⟨b, low, high, rfl⟩ := touches_payload.mp touched
  have below := Nat.div_mul_le_self b L.blockSize
  omega

/-! ## A write at a time -/

theorem spares_past {role : WriteRole} {at_ : Nat} {bytes : Bytes} (past : L.metadataEnd ≤ at_)
    (plain : ∀ i v, role ≠ .batEntry i v) :
    Spares (L.core () true fm) offset buf s (.on () (.writeAt role at_ bytes)) := by
  have footer := L.footer_le_metadataEnd
  have header := L.headerEnd_le_metadataEnd
  have table := L.tableEnd_le_metadataEnd
  have outside : ∀ y, at_ ≤ y → y < at_ + bytes.length →
      ¬ InMirror y ∧ ¬ (L.core () true fm).InHeader y ∧ ¬ (L.core () true fm).InTable y := by
    intro y low _
    rw [inTable_iff, inHeader_iff]
    unfold InMirror
    omega
  cases role with
  | batEntry i v => exact absurd rfl (plain i v)
  | footer => exact outside
  | zero => exact outside
  | fill => exact outside
  | payload => exact outside
  | bitmap => exact outside

theorem Sound.spares (sound : Sound L x.1 bat off) (permitted : Permitted L (payload offset buf) x op)
    (clear : ClearNext L (payload offset buf) x) :
    Spares (L.core () true fm) offset buf x.1 (.on () op) := by
  have start := sound.metadata_lt
  have top := L.metadataEnd_le_dataStart
  cases permitted with
  | look quiet =>
      cases op <;> trivial
  | grow wanted tail nameable short => exact Nat.le_of_lt short
  | footer wanted tail nameable room =>
      have here := sound.at_tail tail
      exact spares_past (by omega) (by simp)
  | zero wanted tail nameable footed inside =>
      have here := sound.at_tail tail
      exact spares_past (by omega) (by simp)
  | commit wanted tail nameable fresh => trivial
  | @entry s h i start r wanted tail nameable fresh =>
      have clear := clear i _ r h rfl wanted
      obtain ⟨b, low, high, block⟩ := touches_payload.mp wanted.touched
      obtain ⟨bat', cached, free⟩ := wanted.free
      refine ⟨⟨L.header, bat', b, rfl, cached, free, low, high, block, ?_⟩, rfl,
        ⟨L.header, rfl, wanted.index, ?_⟩, fun y low high => ?_⟩
      · rw [nameable.hostOff]
        exact tail
      · rw [Nat.mul_comm 4]
        rfl
      · obtain ⟨mirror, header⟩ := clear y low high
        exact ⟨Nat.not_lt.mpr mirror, header⟩
  | publish wanted nameable stored => trivial
  | fill named sector absent low high =>
      have place := sound.live_slot (sound.of_named named) named.allocated
      exact spares_past (by omega) (by simp)
  | payload named inside carries =>
      have place := sound.live_slot (sound.of_named named) named.allocated
      exact spares_past (by omega) (by simp)
  | bitmap named length kept defined =>
      have place := sound.live_slot (sound.of_named named) named.allocated
      exact spares_past (by omega) (by simp)

theorem Issues.spare {J : Nat → Image × History → Prop}
    {M : Nat → Image × History → Image × History → Prop} {op : Op Unit}
    (issues : Issues L .none (payload offset buf) J M x op)
    (inside : ∀ c x₀ x op, M c x₀ x → Permitted L (payload offset buf) x op →
      Spares (L.core () true fm) offset buf x.1 (.on () op)) :
    Spares (L.core () true fm) offset buf x.1 op := by
  cases issues with
  | lock known => trivial
  | inside held permitted => exact inside _ _ _ _ held permitted
  | unlock known => trivial
  | abandon held denied => trivial

theorem silent_of_quiet (quiet : op.Quiet) :
    (Op.on () op).sends = none ∧ (Op.on () op).moves = none := by
  cases op <;> first | exact ⟨rfl, rfl⟩ | exact quiet.elim

/-! ## What stays of the image as it was opened -/

/-- An entry that is free was free, and the tail moves only from where an entry can
    name it. -/
structure Lasts (L : Layout) (d : ByteStore) (off₀ : Nat) (x : Image × History) : Prop where
  free : ∀ (i : Nat) (bat : List Nat), x.1.bat = some bat → bat[i]? = some batUnallocated →
    (L.table d)[i]? = some batUnallocated
  tail : (x.1.nextAllocOff = some off₀ ∧ tails x.2 = []) ∨ Nameable off₀

theorem Lasts.quiet {x' : Image × History} {e : Event (Op Unit) Op.Res} {d' : ByteStore}
    (lasts : Lasts L d off₀ x) (left : x' = ({ x.1 with disk := d' }, e :: x.2))
    (moves : e.op.moves = none) : Lasts L d off₀ x' := by
  subst left
  refine ⟨lasts.free, lasts.tail.imp_left fun still => ⟨still.1, ?_⟩⟩
  rw [tails_cons, moves, still.2]
  rfl

theorem Lasts.locks {e : Event (Op Unit) Op.Res} (lasts : Lasts L d off₀ x)
    (lock : e.op = .on () .lockBat ∨ e.op = .on () .unlockBat) : Lasts L d off₀ (x.1, e :: x.2) :=
  lasts.quiet rfl (silent_of_lock lock).2

theorem setLen_leaves {n : Nat} {x' : Image × History} {r : Except FsCoreError Unit}
    (stepped : Faults.none.handler.traced x (.on () (.setLen n)) r x') :
    ∃ d', x' = ({ x.1 with disk := d' }, ⟨.on () (.setLen n), r⟩ :: x.2) := by
  have left : x'.1 = (x.1.step (.setLen n)).2 := congrArg Prod.snd (idealStep_only stepped.1)
  by_cases fits : n < 2 ^ 64
  · rw [Image.step_setLen fits] at left
    exact ⟨_, Prod.ext left stepped.2⟩
  · rw [show (x.1.step (.setLen n)).2 = { x.1 with disk := x.1.disk } from
      congrArg Prod.snd (dif_neg fits)] at left
    exact ⟨_, Prod.ext left stepped.2⟩

theorem Lasts.step {r : op.Res} {x' : Image × History} (lasts : Lasts L d off₀ x)
    (permitted : Permitted L (payload offset buf) x op)
    (stepped : Faults.none.handler.traced x (.on () op) r x') : Lasts L d off₀ x' := by
  have left : x'.1 = (x.1.step op).2 := congrArg Prod.snd (idealStep_only stepped.1)
  have write {role : WriteRole} {at_ : Nat} {bytes : Bytes} (is : op = .writeAt role at_ bytes) :
      Lasts L d off₀ x' := by
    subst is
    obtain ⟨d', left, -, remembered⟩ := writeAt_leaves stepped
    exact lasts.quiet (Prod.ext left remembered) rfl
  cases permitted with
  | look quiet =>
      rw [quiet_step quiet] at left
      exact lasts.quiet (Prod.ext left stepped.2) (silent_of_quiet quiet).2
  | grow wanted tail nameable short =>
      obtain ⟨d', left⟩ := setLen_leaves stepped
      exact lasts.quiet left rfl
  | @commit s h i at_ wanted tail nameable fresh cleared =>
      refine ⟨?_, Or.inr ?_⟩
      · rw [left]
        exact lasts.free
      · rcases lasts.tail with ⟨still, -⟩ | named
        · rwa [← Option.some.inj (tail.symm.trans still)]
        · exact named
  | @publish s h i at_ wanted nameable stored =>
      obtain ⟨bat, cached, free⟩ := wanted.free
      rw [show x' = (_, _) from Prod.ext left stepped.2]
      refine ⟨fun k bat' cached' free' => ?_, lasts.tail⟩
      simp only [Image.step, cached, Option.map_some, Option.some.injEq] at cached'
      subst cached'
      by_cases same : i = k
      · subst same
        exact lasts.free i bat cached free
      · rw [List.getElem?_set_ne same] at free'
        exact lasts.free k bat cached free'
  | footer => exact write rfl
  | zero => exact write rfl
  | entry => exact write rfl
  | fill => exact write rfl
  | payload => exact write rfl
  | bitmap => exact write rfl

theorem Lasts.clear (lasts : Lasts L d off₀ x) (within : offset + buf.length ≤ L.virtualSize)
    (laid : WellLaid (L.core () true fm) (L.opened d off₀)) : ClearNext L (payload offset buf) x := by
  intro i at_ r h moved wanted
  obtain ⟨bat, cached, free⟩ := wanted.free
  refine entryClear_iff.mp (laid.clear i (lacks_iff.mpr
    ⟨wanted.touched.inside within, lasts.free i bat cached free, ?_⟩))
  rcases lasts.tail with ⟨-, none_⟩ | named
  · rw [moved] at none_
    cases none_
  · exact named

/-- One call on an image that is well laid: what it leaves, and what it issues. -/
theorem write_spares {P : ByteStore → Nat → Prop} {p : Io Unit Unit} {s' : Image}
    {t : List (Event (Op Unit) Op.Res)} (trail : Trail L P) (dynamic : L.footer.diskType = .dynamic)
    (laid : WellLaid (L.core () true fm) (L.opened d off₀)) (sound : Sound L s bat off)
    (trailed : Trailed L P s.disk off) (lasts : Lasts L d off₀ (s, []))
    (run : Prog.Runs Faults.none.handler ((VhdReader.base (L.core () true fm)).writeAt offset buf)
      s t p s') :
    (p.value? = some (.ok ()) → ∃ bat' off', Intact L P (payload offset buf) s bat s' bat' off' ∧
      (P s.disk off → P s'.disk off') ∧ Lasts L d off₀ (s', [])) ∧
    ∀ op next, p = .call op next → Spares (L.core () true fm) offset buf s' op := by
  by_cases idle : buf = [] ∨ L.virtualSize < offset + buf.length
  · obtain ⟨-, rfl, out, rfl, -⟩ := writeAt_runs dynamic idle run
    exact ⟨fun _ => ⟨bat, off, ⟨sound, trailed, .refl⟩, id, lasts⟩, fun op next is => by cases is⟩
  have within : offset + buf.length ≤ L.virtualSize := Nat.not_lt.mp fun past => idle (Or.inr past)
  have rule : WriteRule L .none offset buf Faults.none.handler.traced
      (fun c x => Between L P s bat off offset buf c x ∧ Lasts L d off₀ x)
      (fun c _ x => Inside L P s bat offset buf c x ∧ Lasts L d off₀ x) _ :=
    sequentialRule_beside trail (fun _ known => known.clear within laid)
      (fun _ _ known lock => known.locks lock)
      fun _ _ _ _ known permitted stepped => known.step permitted stepped
  have whole := writeAt_wp_rule fm rule dynamic within
    ⟨Between.start offset buf sound trailed, lasts⟩
  have traced := run.traced []
  constructor
  · intro returned
    cases p with
    | call op next => cases returned
    | ret out =>
        cases returned
        obtain ⟨⟨bat', off', intact, rest, -⟩, lasts'⟩ := Prog.wp_finished whole traced
        refine ⟨bat', off', intact, rest, lasts'.free, ?_⟩
        exact lasts'.tail.imp_left fun still => ⟨still.1, rfl⟩
  · rintro op next rfl
    refine Issues.spare (Prog.wp_runs whole traced).1 ?_
    rintro c x₀ y op ⟨⟨bat', off', intact, -⟩, lasts'⟩ permitted
    exact intact.sound.spares permitted (lasts'.clear within laid)

/-! ## Where the tail starts -/

/-- The table names a block, or the metadata ends before the last sector. -/
def Layout.Past (L : Layout) (fm : Bool) (d : ByteStore) : Prop :=
  (∃ e ∈ L.table d, Live e) ∨
    ∀ y, InMirror y ∨ (L.core () true fm).InHeader y ∨ (L.core () true fm).InTable y → y + 512 < d.size

theorem laid_iff : WellLaid (L.core () true fm) (L.opened d off) ↔
    ∀ i, (L.core () true fm).Lacks (L.opened d off) i → EntryClear L i ∧ L.Past fm d := by
  constructor
  · intro laid i lacks
    refine ⟨entryClear_iff.mp (laid.clear i lacks), (laid.past i lacks).imp_left ?_⟩
    rintro ⟨bat, e, cached, member, live⟩
    cases cached
    exact ⟨e, member, live⟩
  · intro laid
    refine ⟨fun i lacks => entryClear_iff.mpr (laid i lacks).1, fun i lacks => ?_⟩
    refine (laid i lacks).2.imp_left ?_
    rintro ⟨e, member, live⟩
    exact ⟨_, e, rfl, member, live⟩

theorem Opens.start_of (opens : Opens d L fm dataEnd off) (some_ : 0 < L.entries)
    (past : L.Past fm d) : L.dataStart ≤ off := by
  have aligned := opens.aligned
  have long := opens.size_ge
  have least : d.size - 512 ≤ off := opens.tail.least
  rcases past with ⟨e, member, live⟩ | before
  · have place := opens.placed e member live
    have past := opens.past member live
    omega
  · have headerStop : L.headerEnd = L.headerOffset + 1024 := rfl
    have tableStop : L.tableEnd = L.tableOffset + L.entries * 4 := rfl
    have mirror : 511 + 512 < d.size := before 511 (Or.inl (by unfold InMirror; decide))
    have header : L.headerEnd - 1 + 512 < d.size :=
      before _ (Or.inr (Or.inl (inHeader_iff.mpr (by omega))))
    have table : L.tableEnd - 1 + 512 < d.size :=
      before _ (Or.inr (Or.inr (inTable_iff.mpr (by omega))))
    have behind : L.metadataEnd ≤ d.size - 512 :=
      Nat.max_le.mpr ⟨by unfold footerSize; omega, Nat.max_le.mpr ⟨by omega, by omega⟩⟩
    exact Nat.le_trans (L.dataStart_le (by omega) behind) least

/-- Nothing has been written, and no event says otherwise. -/
structure Idle (L : Layout) (d : ByteStore) (off : Nat) (x : Image × History) : Prop where
  image : x.1 = L.opened d off
  sent : sent x.2 = []
  tails : tails x.2 = []

theorem Idle.quiet {e : Event (Op Unit) Op.Res} (idle : Idle L d off x) (sends : e.op.sends = none)
    (moves : e.op.moves = none) : Idle L d off (x.1, e :: x.2) := by
  refine ⟨idle.image, ?_, ?_⟩
  · rw [sent_cons, sends, idle.sent]
    rfl
  · rw [tails_cons, moves, idle.tails]
    rfl

/-- A write of an image with no block and no room for one only looks. -/
theorem Idle.only_looks (idle : Idle L d off x) (empty : ∀ e ∈ L.table d, ¬ Live e)
    (full : ∀ i, ¬ (L.core () true fm).Lacks (L.opened d off) i)
    (within : offset + buf.length ≤ L.virtualSize) (permitted : Permitted L (payload offset buf) x op) :
    op.Quiet := by
  have denied {s : Image} {i at_ : Nat} (image : s = L.opened d off)
      (wanted : Wanted L (payload offset buf) s i) (tail : s.nextAllocOff = some at_)
      (nameable : Nameable at_) : op.Quiet := by
    subst image
    obtain rfl : off = at_ := Option.some.inj tail
    obtain ⟨bat, cached, free⟩ := wanted.free
    obtain rfl : L.table d = bat := Option.some.inj cached
    exact absurd (lacks_iff.mpr ⟨wanted.touched.inside within, free, nameable⟩) (full i)
  have absent {s : Image} {i e : Nat} (image : s = L.opened d off)
      (named : Named L (payload offset buf) s i e) : op.Quiet := by
    subst image
    obtain ⟨bat, cached, entry⟩ := named.entry
    obtain rfl : L.table d = bat := Option.some.inj cached
    exact absurd named.allocated (empty e (List.mem_of_getElem? entry))
  cases permitted with
  | look quiet => exact quiet
  | grow wanted tail nameable short => exact denied idle.image wanted tail nameable
  | footer wanted tail nameable room => exact denied idle.image wanted tail nameable
  | zero wanted tail nameable footed inside => exact denied idle.image wanted tail nameable
  | commit wanted tail nameable fresh cleared => exact denied idle.image wanted tail nameable
  | entry wanted tail nameable fresh => exact absurd idle.tails (List.cons_ne_nil _ _)
  | publish wanted nameable stored => exact absurd idle.sent (List.cons_ne_nil _ _)
  | fill named sector free low high => exact absent idle.image named
  | payload named inside carries => exact absent idle.image named
  | bitmap named length kept defined => exact absent idle.image named

/-- A call on an image with no block and no room for one. -/
theorem Idle.call {s' : Image} {p : Io Unit Unit} {t : List (Event (Op Unit) Op.Res)}
    (opens : Opens d L fm dataEnd off) (dynamic : L.footer.diskType = .dynamic)
    (empty : ∀ e ∈ L.table d, ¬ Live e)
    (full : ∀ i, ¬ (L.core () true fm).Lacks (L.opened d off) i)
    (run : Prog.Runs Faults.none.handler ((VhdReader.base (L.core () true fm)).writeAt offset buf)
      (L.opened d off) t p s') :
    s' = L.opened d off ∧
      ∀ op next, p = .call op next → Spares (L.core () true fm) offset buf s' op := by
  by_cases still : buf = [] ∨ L.virtualSize < offset + buf.length
  · obtain ⟨-, rfl, out, rfl, -⟩ := writeAt_runs dynamic still run
    exact ⟨rfl, fun op next is => by cases is⟩
  have within : offset + buf.length ≤ L.virtualSize := Nat.not_lt.mp fun past => still (Or.inr past)
  have rule : WriteRule L .none offset buf Faults.none.handler.traced _ _ _ :=
    absentRule (I := Idle L d off) (fun _ _ _ _ stepped => stepped)
      (fun _ idle => by rw [idle.image]; rfl) (fun _ idle => by rw [idle.image]; exact opens.ready)
      (fun _ _ idle lock => idle.quiet (silent_of_lock lock).1 (silent_of_lock lock).2)
      fun x op r x' idle permitted stepped => by
        have looks := idle.only_looks empty full within permitted
        have left : x'.1 = (x.1.step op).2 := congrArg Prod.snd (idealStep_only stepped.1)
        rw [quiet_step looks] at left
        have silent := silent_of_quiet looks
        have idle' := idle.quiet (e := ⟨.on () op, r⟩) silent.1 silent.2
        rwa [show x' = (x.1, ⟨.on () op, r⟩ :: x.2) from Prod.ext left stepped.2]
  have whole := writeAt_wp_rule fm rule dynamic within (x := (L.opened d off, []))
    ⟨⟨rfl, rfl, rfl⟩, fun b below from_ => absurd below (by omega)⟩
  have traced := run.traced []
  constructor
  · refine Idle.image (x := (s', t.reverse ++ [])) (Code.wp_cut whole traced ?_
      (fun _ _ reached => reached.1) fun _ _ reached => reached.1)
    rintro x op (⟨idle, -⟩ | ⟨⟨idle, -⟩, -⟩ | ⟨idle, -⟩ | ⟨⟨idle, -⟩, -⟩) <;> exact idle
  · rintro op next rfl
    refine Issues.spare (Prog.wp_runs whole traced).1 fun c x₀ y op held permitted => ?_
    have looks := held.1.only_looks empty full within permitted
    cases op <;> trivial

/-! ## A call that cannot spare the metadata -/

theorem Opens.past_of (opens : Opens d L fm dataEnd off)
    (free : ∀ y, off ≤ y → y < off + 512 → ¬ InMirror y ∧ ¬ (L.core () true fm).InHeader y ∧
      ¬ (L.core () true fm).InTable y) : L.Past fm d := by
  by_cases live : ∃ e ∈ L.table d, Live e
  · exact Or.inl live
  · refine Or.inr fun y inside => ?_
    have long := opens.size_ge
    have header := opens.headerEnd
    have table := opens.tableEnd
    have here : off = d.size - 512 := by
      rcases opens.tail.reached with here | ⟨-, e, member, allocated, -⟩
      · exact here
      · exact absurd ⟨e, member, allocated⟩ live
    have below : y < d.size := by
      rw [inTable_iff, inHeader_iff] at inside
      unfold InMirror at inside
      omega
    by_contra late
    obtain ⟨mirror, header, table⟩ := free y (by omega) (by omega)
    exact inside.elim mirror fun rest => rest.elim header table

/-- A call that never sends an entry: nothing is cached that was not, and the tail
    stays, unless the image lets it move. -/
structure Stuck (L : Layout) (fm : Bool) (d : ByteStore) (off : Nat) (x : Image × History) : Prop where
  cached : x.1.bat = some (L.table d)
  tail : ∃ o, x.1.nextAllocOff = some o
  size : d.size ≤ x.1.disk.size
  sent : sent x.2 = []
  still : (x.1.nextAllocOff = some off ∧ tails x.2 = []) ∨ L.Past fm d
  spared : ∀ at_ bytes r, ⟨.on () (.writeAt .zero at_ bytes), r⟩ ∈ x.2 → ∀ y, at_ ≤ y →
    y < at_ + bytes.length → ¬ InMirror y ∧ ¬ (L.core () true fm).InHeader y ∧
      ¬ (L.core () true fm).InTable y

theorem Stuck.ready (opens : Opens d L fm dataEnd off) (stuck : Stuck L fm d off x) : Ready L x.1 := by
  have size := stuck.size
  refine ⟨⟨_, stuck.cached, L.length_table, fun e member live => ⟨L.table_lt member, ?_⟩⟩,
    stuck.tail, Nat.le_trans opens.tableEnd size⟩
  have past := opens.past member live
  have top := opens.tail_le
  omega

theorem Stuck.quiet {x' : Image × History} {e : Event (Op Unit) Op.Res} {d' : ByteStore}
    (stuck : Stuck L fm d off x) (left : x' = ({ x.1 with disk := d' }, e :: x.2))
    (sends : e.op.sends = none) (moves : e.op.moves = none) (size : x.1.disk.size ≤ d'.size)
    (spares : Spares (L.core () true fm) offset buf x.1 e.op) : Stuck L fm d off x' := by
  subst left
  refine ⟨stuck.cached, stuck.tail, Nat.le_trans stuck.size size, ?_,
    stuck.still.imp_left fun still => ⟨still.1, ?_⟩, fun at_ bytes r member => ?_⟩
  · rw [sent_cons, sends, stuck.sent]
    rfl
  · rw [tails_cons, moves, still.2]
    rfl
  · cases member with
    | head => exact spares
    | tail _ earlier => exact stuck.spared at_ bytes r earlier

theorem Stuck.locks {e : Event (Op Unit) Op.Res} (stuck : Stuck L fm d off x)
    (lock : e.op = .on () .lockBat ∨ e.op = .on () .unlockBat) : Stuck L fm d off (x.1, e :: x.2) := by
  obtain ⟨sends, moves⟩ := silent_of_lock lock
  have spares : Spares (L.core () true fm) 0 [] x.1 e.op := by
    rcases lock with is | is <;> rw [is] <;> trivial
  exact stuck.quiet rfl sends moves (Nat.le_refl _) spares

/-- A call of one block whose entry may not go out where it would, or whose tail may
    not move, stays stuck. -/
theorem Stuck.step {i : Nat} {r : op.Res} {x' : Image × History} (opens : Opens d L fm dataEnd off)
    (one : ∀ j, L.Touches (payload offset buf) j → j = i) (bad : EntryClear L i → ¬ L.Past fm d)
    (stuck : Stuck L fm d off x) (permitted : Permitted L (payload offset buf) x op)
    (stepped : Faults.none.handler.traced x (.on () op) r x')
    (spares : Spares (L.core () true fm) offset buf x.1 (.on () op)) : Stuck L fm d off x' := by
  have left : x'.1 = (x.1.step op).2 := congrArg Prod.snd (idealStep_only stepped.1)
  have write {role : WriteRole} {at_ : Nat} {bytes : Bytes} (is : op = .writeAt role at_ bytes)
      (sends : (Op.on () op).sends = none) : Stuck L fm d off x' := by
    subst is
    obtain ⟨d', left, size, remembered⟩ := writeAt_leaves stepped
    exact stuck.quiet (Prod.ext left remembered) sends rfl (Nat.le_of_eq size.symm) spares
  cases permitted with
  | look quiet =>
      rw [quiet_step quiet] at left
      have silent := silent_of_quiet quiet
      exact stuck.quiet (Prod.ext left stepped.2) silent.1 silent.2 (Nat.le_refl _) spares
  | @grow s h j at_ wanted tail nameable short =>
      have small := L.blockTotal_lt
      have low := nameable.lt
      rw [Image.step_setLen (by omega)] at left
      exact stuck.quiet (Prod.ext left stepped.2) rfl rfl (Nat.le_of_lt short) spares
  | @commit s h j at_ wanted tail nameable fresh cleared =>
      have past : L.Past fm d := by
        rcases stuck.still with ⟨still, -⟩ | past
        · obtain rfl : at_ = off := Option.some.inj (tail.symm.trans still)
          obtain ⟨n, r', sector, member⟩ := cleared
          refine opens.past_of fun y low high => stuck.spared at_ _ r' member y low ?_
          rw [List.length_replicate]
          omega
        · exact past
      rw [show x' = (_, _) from Prod.ext left stepped.2]
      refine ⟨stuck.cached, ⟨_, rfl⟩, stuck.size, ?_, Or.inr past, fun at_ bytes r member => ?_⟩
      · rw [sent_cons, stuck.sent]
        rfl
      · cases member with
        | tail _ earlier => exact stuck.spared at_ bytes r earlier
  | @entry s h j start r' wanted tail nameable fresh =>
      -- the tail has moved, so only the entry can be in the way
      have past : L.Past fm d := by
        rcases stuck.still with ⟨-, never⟩ | past
        · exact absurd never (List.cons_ne_nil _ _)
        · exact past
      obtain rfl := one j wanted.touched
      obtain ⟨-, -, -, clear⟩ := spares
      refine absurd past (bad fun y low high => ?_)
      obtain ⟨mirror, header⟩ := clear y low high
      exact ⟨Nat.le_of_not_lt mirror, header⟩
  | publish wanted nameable stored => exact absurd stuck.sent (List.cons_ne_nil _ _)
  | footer => exact write rfl rfl
  | zero => exact write rfl rfl
  | fill => exact write rfl rfl
  | payload => exact write rfl rfl
  | bitmap => exact write rfl rfl

/-- The first write of a byte on an ideal device returns, where the tail can be
    named. -/
theorem Opens.takes {v : UInt8} (opens : Opens d L fm dataEnd off)
    (dynamic : L.footer.diskType = .dynamic) (nameable : Nameable off) (within : offset < L.virtualSize) :
    (((VhdReader.base (L.core () true fm)).writeAt offset [v]).run idealStep (L.opened d off)).1 =
      .ok () := by
  have rule : WriteRule L .none offset [v] Faults.none.handler.traced
      (fun c x => offset ≤ c ∧ (c = offset → x.1 = L.opened d off))
      (fun c x₀ _ => c = offset ∧ x₀.1 = L.opened d off) (fun _ _ => False) := by
    constructor
    case enter =>
      rintro c x r x' ⟨low, start⟩ (more : c < offset + 1) stepped
      obtain ⟨rfl, rfl⟩ := Faults.traced_lock stepped
      have here : c = offset := by omega
      have same := start here
      exact ⟨rfl, by simp only [same]; exact opens.ready, here, same⟩
    case inside => exact fun c x₀ x op r x' _ _ stepped => stepped
    case kept => exact fun c x₀ x op r x' held _ _ _ => held
    case done =>
      rintro c y q x₀ x src - - ⟨here, -⟩ - nonempty - - -
      exact ⟨by omega, fun no => absurd no (by omega)⟩
    case leave =>
      rintro c x r x' known stepped
      obtain rfl := Faults.traced_unlock stepped
      exact known
    case fail =>
      rintro c x₀ x e r x' ⟨-, same⟩ denied -
      rcases denied with ⟨-, -, ⟨at_, tail, odd⟩ | ⟨len, lost⟩⟩ | beyond
      · rw [same] at tail
        obtain rfl : off = at_ := Option.some.inj tail
        exact odd nameable
      · exact lost
      · exact Faults.none_not_beyond beyond
  have run := Prog.run_trace idealStep (idealStep_allowed .none)
    ((VhdReader.base (L.core () true fm)).writeAt offset [v]) (L.opened d off)
  rcases Code.wp_finished (writeAt_wp_rule fm rule dynamic (show offset + 1 ≤ L.virtualSize from within)
    (x := (L.opened d off, [])) ⟨Nat.le_refl _, fun _ => rfl⟩) (run.traced []) with
    ⟨_, returned, -⟩ | ⟨_, -, never⟩
  · exact returned
  · exact never.elim

/-- A byte written to a block that cannot be added properly: an operation of the
    call does not spare the metadata. -/
theorem Opens.unspared {v : UInt8} (opens : Opens d L fm dataEnd off)
    (dynamic : L.footer.diskType = .dynamic) (within : offset < L.virtualSize) (nameable : Nameable off)
    (free : (L.table d)[offset / L.blockSize]? = some batUnallocated)
    (bad : EntryClear L (offset / L.blockSize) → ¬ L.Past fm d) :
    ∃ x op, Issued (.base (L.core () true fm)) (L.opened d off) offset [v] x op ∧
      ¬ Spares (L.core () true fm) offset [v] x op := by
  by_contra never
  push Not at never
  have one (j : Nat) (touched : L.Touches (payload offset [v]) j) : j = offset / L.blockSize := by
    obtain ⟨b, low, (high : b < offset + 1), rfl⟩ := touches_payload.mp touched
    rw [show b = offset by omega]
  have returned := opens.takes (v := v) dynamic nameable within
  have run := Prog.run_trace idealStep (idealStep_allowed .none)
    ((VhdReader.base (L.core () true fm)).writeAt offset [v]) (L.opened d off)
  rw [returned] at run
  have run := run.guarded (P := Spares (L.core () true fm) offset [v]) fun t op next x t' first second =>
    never x op ⟨[], [], _, t, next, t', _, .start, fun a member => (by cases member), first, second⟩
  have rule : WriteRule L .none offset [v] _ _ _ _ := absentRule (I := Stuck L fm d off)
    (H := Handler.traced fun s op r s' => Faults.none.handler s op r s' ∧
      Spares (L.core () true fm) offset [v] s op)
    (fun _ _ _ _ stepped => ⟨stepped.1.1, stepped.2⟩) (fun _ stuck => stuck.cached)
    (fun _ stuck => stuck.ready opens) (fun _ _ stuck lock => stuck.locks lock)
    fun x op r x' stuck permitted stepped =>
      stuck.step opens one bad permitted ⟨stepped.1.1, stepped.2⟩ stepped.1.2
  have start : Stuck L fm d off (L.opened d off, []) :=
    ⟨rfl, ⟨off, rfl⟩, Nat.le_refl _, rfl, Or.inl ⟨rfl, rfl⟩, fun _ _ _ member => by cases member⟩
  have reached := Prog.wp_finished (writeAt_wp_rule fm rule dynamic
    (show offset + 1 ≤ L.virtualSize from within) (x := (L.opened d off, []))
    ⟨start, fun b below from_ => absurd below (by omega)⟩) (run.traced [])
  exact reached.2 offset (Nat.lt_succ_self _) (Nat.le_refl _) free

end Laid

end ImgVhd
