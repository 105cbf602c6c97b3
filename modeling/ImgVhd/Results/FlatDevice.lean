import ImgVhd.Reader.BlockDevice
import ImgVhd.Results.WriteCommand

/-! # A reader is a flat device

To a client that has nothing but a block device, the reader of an image is a device of
a fixed length with a disk on it and nothing else. No sequence of calls, chosen as it
likes from the answers, tells them apart, refusals and their texts included.
-/

namespace ImgVhd

open Foundation

/-! ## The flat device -/

/-- What a device of `size` bytes says to a range. -/
def flatRange (size off len : Nat) : Except FsCoreError Unit :=
  if len = 0 then .ok ()
  else if 2 ^ 64 ≤ off + len then .error (.custom "corrupt VHD: offset+len overflow")
  else if size < off + len then .error (.outOfBounds off len size)
  else .ok ()

/-- A device of `size` bytes that holds a disk. -/
def flatStep (writable : Bool) (size : Nat) (held : Nat → UInt8) :
    (op : BlockOp) → op.Res × (Nat → UInt8)
  | .sizeBytes => (size, held)
  | .isWritable => (writable, held)
  | .readAt off buf =>
      ((flatRange size off buf.length).map fun _ => (List.range buf.length).map fun i => held (off + i),
        held)
  | .writeAt off buf =>
      if writable then match flatRange size off buf.length with
        | .ok () => (.ok (), overlay off buf held)
        | .error e => (.error e, held)
      else (.error .readOnly, held)
  | .flush => (.ok (), held)

theorem flatRange_cases (size off len : Nat) :
    (flatRange size off len = .ok () ∧ (len = 0 ∨ off + len ≤ size)) ∨
      ∃ e, flatRange size off len = .error e ∧ len ≠ 0 := by
  unfold flatRange
  split
  · rename_i empty
    exact Or.inl ⟨rfl, Or.inl empty⟩
  rename_i some_
  split
  · exact Or.inr ⟨_, rfl, some_⟩
  split
  · exact Or.inr ⟨_, rfl, some_⟩
  · rename_i inside
    exact Or.inl ⟨rfl, Or.inr (Nat.not_lt.mp inside)⟩

/-! ## Ranges that are refused -/

section Refused

variable {δ : Type} {c : Core δ} {parent : Option (ParentView δ)} {off : Nat} {buf : Bytes}
  {e : FsCoreError}

theorem readAt_refused (refused : flatRange c.virtualSize off buf.length = .error e) :
    asDevice (c.readAt parent off buf) = .ret (.ok (.error e)) := by
  unfold flatRange at refused
  unfold Core.readAt
  dsimp only
  split at refused
  · cases refused
  rename_i some_
  rw [if_neg some_]
  split at refused
  · rename_i overflow
    rw [checkedAdd, if_neg (Nat.not_lt.mpr overflow)]
    cases refused
    rfl
  rename_i small
  rw [checkedAdd_of_lt (Nat.not_le.mp small), Code.lift_ok_bind]
  split at refused
  · rename_i past
    rw [if_pos past]
    cases refused
    rfl
  · cases refused

theorem writeAt_refused (writable : c.writable_ = true)
    (refused : flatRange c.virtualSize off buf.length = .error e) :
    asDevice (c.writeAt parent off buf) = .ret (.ok (.error e)) := by
  have opened : c.writable = true := (Bool.and_eq_true_iff.mp writable).1
  unfold flatRange at refused
  unfold Core.writeAt
  simp only [opened, writable, Bool.not_true, Bool.false_eq_true, if_false]
  split at refused
  · cases refused
  rename_i some_
  rw [if_neg some_]
  split at refused
  · rename_i overflow
    rw [checkedAdd, if_neg (Nat.not_lt.mpr overflow)]
    cases refused
    rfl
  rename_i small
  rw [checkedAdd_of_lt (Nat.not_le.mp small), Code.lift_ok_bind]
  split at refused
  · rename_i past
    rw [if_pos past]
    cases refused
    rfl
  · cases refused

theorem writeAt_read_only (closed : c.writable_ = false) :
    asDevice (c.writeAt parent off buf) = .ret (.ok (.error .readOnly)) := by
  unfold Core.writeAt
  cases opened : c.writable with
  | false => rfl
  | true =>
      simp only [closed, Bool.not_true, Bool.not_false, Bool.false_eq_true, if_false, if_true]
      rfl

end Refused

/-! ## What serves the device -/

/-- What a reader does to the disk it is related to by `rel`, for ranges inside it. -/
structure KeepsDisk (r : VhdReader Unit) (rel : Image → (Nat → UInt8) → Prop) : Prop where
  alone : r.parent = none
  reads : ∀ s held off buf, rel s held → off + buf.length ≤ r.virtualSize →
    Code.wp Faults.none.handler anything (r.readAt off buf)
      (fun out s' => out = (List.range buf.length).map (fun i => held (off + i)) ∧ s' = s)
      (fun _ _ => False) s
  writes : r.core.writable_ = true → ∀ s held off buf, rel s held → off + buf.length ≤ r.virtualSize →
    Code.wp Faults.none.handler anything (r.writeAt off buf)
      (fun _ s' => rel s' (overlay off buf held)) (fun _ _ => False) s

/-- Every call does what the flat device does. -/
theorem KeepsDisk.implements {r : VhdReader Unit} {rel : Image → (Nat → UInt8) → Prop}
    (keeps : KeepsDisk r rel) :
    Implements Faults.none.handler r.serve (flatStep r.core.writable_ r.virtualSize) rel := by
  have alone := keeps.alone
  have reads := keeps.reads
  have writes := keeps.writes
  cases r with
  | above c p => cases alone
  | base c =>
      intro op s held related
      cases op with
      | sizeBytes => exact ⟨rfl, related⟩
      | isWritable => exact ⟨rfl, related⟩
      | flush =>
          refine asDevice_wp (Code.wp_mono flushWrites_ideal (fun _ _ g => g) ?_ fun _ _ never => never.elim)
          rintro ⟨⟩ _ rfl
          exact ⟨rfl, related⟩
      | readAt off buf =>
          rcases flatRange_cases c.virtualSize off buf.length with ⟨fine, inside⟩ | ⟨e, refused, -⟩
          · rw [show flatStep _ _ held (.readAt off buf) =
              (.ok ((List.range buf.length).map fun i => held (off + i)), held) by
                simp only [flatStep, VhdReader.virtualSize, VhdReader.core, fine]; rfl]
            by_cases empty : buf.length = 0
            · obtain rfl := List.length_eq_zero_iff.mp empty
              exact ⟨rfl, related⟩
            · refine asDevice_wp (Code.wp_mono (reads s held off buf related (inside.resolve_left empty))
                (fun _ _ g => g) ?_ fun _ _ never => never.elim)
              rintro out _ ⟨rfl, rfl⟩
              exact ⟨rfl, related⟩
          · rw [show flatStep _ _ held (.readAt off buf) = (.error e, held) by
              simp only [flatStep, VhdReader.virtualSize, VhdReader.core, refused]; rfl]
            change Code.wp _ _ (asDevice (c.readAt none off buf)) _ _ _
            rw [readAt_refused refused]
            exact ⟨rfl, related⟩
      | writeAt off buf =>
          change Code.wp _ _ (asDevice (c.writeAt none off buf)) _ _ _
          cases writable : c.writable_ with
          | false =>
              rw [writeAt_read_only writable]
              simp only [flatStep, VhdReader.core, writable]
              exact ⟨rfl, related⟩
          | true =>
              rcases flatRange_cases c.virtualSize off buf.length with ⟨fine, inside⟩ | ⟨e, refused, -⟩
              · simp only [flatStep, VhdReader.core, VhdReader.virtualSize, writable, fine, if_true]
                by_cases empty : buf.length = 0
                · obtain rfl := List.length_eq_zero_iff.mp empty
                  have opened : c.writable = true := (Bool.and_eq_true_iff.mp writable).1
                  have idle : c.writeAt none off [] = .ret (.ok ()) := by
                    unfold Core.writeAt
                    simp only [opened, writable, Bool.not_true, Bool.false_eq_true, if_false]
                    exact if_pos rfl
                  rw [idle, overlay_nil]
                  exact ⟨rfl, related⟩
                · refine asDevice_wp (Code.wp_mono (writes writable s held off buf related
                    (inside.resolve_left empty)) (fun _ _ g => g) ?_ fun _ _ never => never.elim)
                  rintro ⟨⟩ s' after
                  exact ⟨rfl, after⟩
              · simp only [flatStep, VhdReader.core, VhdReader.virtualSize, writable, refused, if_true]
                rw [writeAt_refused writable refused]
                exact ⟨rfl, related⟩

/-! ## The two kinds of images -/

/-- An entry can name the place of every block the table lacks. -/
def Vast (r : VhdReader Unit) (s : Image) : Prop :=
  ∀ hdr bat tail, r.core.dynamic = some hdr → s.bat = some bat → s.nextAllocOff = some tail →
    ∀ k < bat.count batUnallocated, Nameable (tail + k * (r.core.bitmapSize + hdr.blockSize))

section Dynamic

variable {L : Layout} {s s' : Image} {bat : List Nat} {off i : Nat} {fm wr : Bool} {held : Nat → UInt8}

theorem Vast.section_ (vast : Vast (.base (L.core () wr fm)) s) (moved : Moved L s s' i) :
    Vast (.base (L.core () wr fm)) s' := by
  rintro hdr bat' tail' ⟨⟩ cached' at_ k below
  cases moved with
  | kept cached entry live same still size =>
      rw [same] at cached'
      rw [still] at at_
      exact vast _ bat' tail' rfl cached' at_ k below
  | @allocated bat off cached free tail after =>
      obtain rfl := Option.some.inj (after.bat.symm.trans cached')
      obtain rfl := Option.some.inj (after.tail.symm.trans at_)
      obtain ⟨slot, entry⟩ := List.getElem?_eq_some_iff.mp free
      have total : L.blockTotal =
          (VhdReader.base (L.core () wr fm)).core.bitmapSize + L.header.blockSize := L.blockTotal_eq
      have named : (off / 512 == batUnallocated) = false :=
        beq_eq_false_iff_ne.mpr (Nat.ne_of_lt after.nameable.below)
      rw [List.count_set slot, entry, beq_self_eq_true, if_pos rfl, named] at below
      have next := vast _ bat off rfl cached tail (k + 1) (by simp only [Bool.false_eq_true, if_false] at below; omega)
      rwa [Nat.succ_mul, Nat.add_comm (k * _), ← Nat.add_assoc, ← total] at next

/-- A dynamic image that is used as a device. -/
structure DynamicDisk (L : Layout) (fm wr : Bool) (s : Image) (held : Nat → UInt8) : Prop where
  durable : ∃ log bat off, Durable L log s bat off ∧ ∀ b < L.virtualSize, L.value s.disk bat b = held b
  vast : wr = true → Vast (.base (L.core () wr fm)) s

/-- A write anywhere returns, and the room is still enough. -/
theorem DynamicDisk.write {offset : Nat} {buf : Bytes} (clear : Clear L)
    (dynamic : L.footer.diskType = .dynamic) (disk : DynamicDisk L fm true s held)
    (inside : offset + buf.length ≤ L.virtualSize) :
    Code.wp Faults.none.handler anything ((VhdReader.base (L.core () true fm)).writeAt offset buf)
      (fun _ x => DynamicDisk L fm true x (overlay offset buf held)) (fun _ _ => False) s := by
  obtain ⟨⟨log, bat, off, durable, values⟩, vast⟩ := disk
  have sequential : WriteRule L .none offset buf Faults.none.handler.traced
      (Between L (AtTail L) s bat off offset buf) _ _ := sequentialRule clear (trail_atTail L)
  have rule := sequential.also (K := fun _ x => Vast (.base (L.core () true fm)) x)
    fun c x₀ x src account _ _ wrote => account.section_ wrote.moved
  refine Prog.wp_of_runs fun t out s' run => ?_
  rcases Code.wp_finished (writeAt_wp_rule fm rule dynamic inside
    (x := (s, [])) ⟨Between.start offset buf durable.sound durable.trailed, vast rfl⟩) (run.traced []) with
    ⟨done, rfl, ⟨bat', off', intact, -, written⟩, vast'⟩ |
    ⟨e, rfl, -, c, x₀, h, more, account, denied⟩
  · obtain ⟨bat'', off'', durable'⟩ := durable.write_cut clear dynamic inside run
    obtain rfl := Option.some.inj (intact.sound.cached.symm.trans durable'.sound.cached)
    refine ⟨⟨_, bat', off'', durable', fun b low => ?_⟩, fun _ => vast'⟩
    unfold overlay
    cases carried : payload offset buf b with
    | some v => exact Layout.value_of_own (written b v (payload_inside carried).2 carried)
    | none =>
        rcases intact.evolves.value b with same | never
        · exact same.trans (values b low)
        · exact absurd (never.symm.trans carried) (by simp)
  · rcases denied with ⟨-, ⟨bat', cached, free⟩, ⟨off', tail, odd⟩ | ⟨len, never⟩⟩ | beyond
    · -- the block that cannot be named is one the table lacks
      have first := account _ bat' off' rfl cached tail 0
        (List.count_pos_iff.mpr (List.mem_of_getElem? free))
      rw [Nat.zero_mul] at first
      exact odd first
    · exact never
    · exact Faults.none_not_beyond beyond

theorem keepsDisk_dynamic (clear : Clear L) (dynamic : L.footer.diskType = .dynamic) :
    KeepsDisk (.base (L.core () wr fm)) (DynamicDisk L fm wr) where
  alone := rfl
  reads s held offset buf disk inside := by
    obtain ⟨log, bat, off, durable, values⟩ := disk.durable
    have reads := (durable.sound.ready.holds (f := .none) (G := anything) durable.sound.cached
      fun _ _ => trivial).readAt_wp wr fm (E := fun _ _ => False) inside
      fun faulty => absurd faulty Faults.none_not_faulty
    refine Code.wp_mono reads (fun _ _ g => g) ?_ fun _ _ never => never
    rintro out s' ⟨rfl, length, values'⟩
    refine ⟨List.ext_getElem (by rw [length]; simp) fun i low high => ?_, rfl⟩
    rw [values' i _ (List.getElem?_eq_getElem low), values _ (by
      have size : (VhdReader.base (L.core () wr fm)).virtualSize = L.virtualSize := rfl
      omega)]
    simp
  writes writable s held offset buf disk inside := by
    obtain rfl : wr = true := (Bool.and_eq_true_iff.mp writable).1
    exact disk.write clear dynamic inside

end Dynamic

section Fixed

variable {found : FoundFooter} {wr : Bool}

theorem keepsDisk_fixed (fixed : found.footer.diskType = .fixed) :
    KeepsDisk (.base (fixedCore () wr found)) fun s held =>
      Plain found s.disk ∧ ∀ b < found.footer.currentSize, s.disk.byte b = held b where
  alone := rfl
  reads s held offset buf disk inside := by
    obtain ⟨plain, values⟩ := disk
    refine Code.wp_mono (readAt_plain (G := anything) (f := .none) plain inside fun _ => trivial)
      (fun _ _ g => g) ?_ fun _ _ failed => Faults.none_not_faulty failed.2
    rintro out s' ⟨rfl, rfl⟩
    refine ⟨(ByteStore.read_eq_iff (by simp)).mpr fun i low => ?_, rfl⟩
    have size : (VhdReader.base (fixedCore () wr found)).virtualSize = found.footer.currentSize := rfl
    simp only [List.getElem_map, List.getElem_range]
    exact values _ (by omega)
  writes writable s held offset buf disk inside := by
    obtain rfl : wr = true := (Bool.and_eq_true_iff.mp writable).1
    exact (writesOn_fixed fixed (Nat.le_refl _)).write offset held s buf disk inside

end Fixed

/-! ## Every client -/

section Client

open Img

variable {f : Faults} {r₀ : VhdReader Unit} {s s₁ : Image} {log : List Attempt}
  {last : Option (VhdReader Unit)}

/-- A reader that serves a flat disk. -/
def ServesDisk (r : VhdReader Unit) (x : Image) (held : Nat → UInt8) : Prop :=
  ∀ (α : Type) (client : Prog BlockOp BlockOp.Res α), ∃ x',
    (client.via r.serve).run idealStep x =
      (.ok (client.run (flatStep r.core.writable_ r.virtualSize) held).1, x') ∧
    Shows x'.disk r.virtualSize (client.run (flatStep r.core.writable_ r.virtualSize) held).2

theorem KeepsDisk.serves {r : VhdReader Unit} {rel : Image → (Nat → UInt8) → Prop} {x : Image}
    {held : Nat → UInt8} (keeps : KeepsDisk r rel) (related : rel x held)
    (shows : ∀ x held, rel x held → Shows x.disk r.virtualSize held) : ServesDisk r x held := by
  intro α client
  obtain ⟨x', ran, after⟩ := keeps.implements.run idealStep (idealStep_allowed .none) client related
  exact ⟨x', ran, shows _ _ after⟩

/-- Whatever was done to an image since it was made, and however it is opened then, no
    client of the block device it is can tell it from a flat disk of its size. -/
theorem reader_is_a_flat_device (made : Made f r₀ s₁) (session : Session f (r₀, s₁) log last s) :
    ∃ held, ∀ wr how, ∃ r x, (openAs () wr how).run idealStep s = (.ok r, x) ∧
      r.virtualSize = r₀.virtualSize ∧ r.core.writable_ = wr ∧
      ((wr = true → Vast r x) → ServesDisk r x held) := by
  cases made with
  | fixed word run =>
      obtain ⟨found, rfl, created⟩ := createFixed_plain word run
      obtain ⟨plain, -⟩ := session.plain created rfl
      refine ⟨s.disk.byte, fun wr how => ?_⟩
      refine ⟨_, _, openAs_plain_ideal plain wr how, rfl, ?_, fun _ => ?_⟩
      · simp [VhdReader.core, Core.writable_, fixedCore, plain.kind]
      · exact (keepsDisk_fixed plain.kind).serves ⟨plain, fun _ _ => rfl⟩ fun x held disk =>
          disk.1.shows disk.2
  | dynamic word run =>
      obtain ⟨L, off₀, created, rfl, -, -⟩ := createDynamic_created word run
      obtain ⟨⟨bat, off, durable⟩, -⟩ := session.durable created rfl
      obtain ⟨fm, dataEnd, off', opens, behind⟩ := durable.opens
      refine ⟨L.value s.disk bat, fun wr how => ⟨_, _, openAs_ideal opens created.dynamic, rfl, ?_, fun vast => ?_⟩⟩
      · simp [VhdReader.core, Core.writable_, Layout.core, created.dynamic]
      · refine (keepsDisk_dynamic created.clear created.dynamic).serves
          ⟨⟨_, _, _, durable.reopened opens behind, fun b low => durable.sound.value_table b low⟩, vast⟩ ?_
        rintro x held ⟨⟨log, bat, off, durable, values⟩, -⟩
        exact durable.shows created.dynamic values

/-- Writes across two blocks, reads some of it back, and reads past the end. -/
def smallClient : Prog BlockOp BlockOp.Res (Except FsCoreError Bytes × Except FsCoreError Bytes) :=
  .call (.writeAt 510 [7, 8, 9, 10]) fun _ =>
    .call (.readAt 511 [0, 0]) fun back => .call (.readAt 34816 [0]) fun past => .ret (back, past)

/-- The small disk serves the small client. -/
theorem small_disk_is_a_flat_device : ∃ (r : VhdReader Unit) (x x' : Image), Vast r x ∧
    (smallClient.via r.serve).run idealStep x =
      (.ok (.ok [8, 9], .error (.outOfBounds 34816 1 34816)), x') := by
  obtain ⟨t, r₀, s, create, size⟩ := small_created
  obtain ⟨held, opens⟩ := reader_is_a_flat_device (.dynamic (by decide) create) .start
  obtain ⟨r, x, opened, virtual, writable, serves⟩ := opens true none
  obtain ⟨L, off, created, rfl, block, -⟩ := createDynamic_created (by decide) create
  obtain ⟨first, rfl⟩ := Prod.mk.inj ((openAs_ideal created.opens created.dynamic).symm.trans opened)
  cases first
  have vast : Vast (.base (L.core () true false)) (L.opened s.disk off) := by
    rintro hdr bat tail ⟨⟩ ⟨⟩ ⟨⟩ k below
    have entries : k < L.entries := Nat.lt_of_lt_of_le below
      (Nat.le_trans List.count_le_length (Nat.le_of_eq L.length_table))
    have named := created.roomy block entries
    rwa [created.dataStart] at named
  obtain ⟨x', ran, -⟩ := serves (fun _ => vast) _ smallClient
  refine ⟨_, _, x', vast, ran.trans ?_⟩
  rw [virtual, size, writable]
  rfl

end Client

end ImgVhd
