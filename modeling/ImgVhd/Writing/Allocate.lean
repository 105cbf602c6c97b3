import ImgVhd.Writing.Steps

/-! # The allocator's specification

Each device call of the write path under any faults, and then the allocator:
what it may issue, and what it leaves when it returns.
-/

namespace ImgVhd

open Foundation

namespace Faults

/-- Something other than a clean refusal to grow can fail. -/
def Beyond (f : Faults) : Prop :=
  ∃ op, f.landed op ∨ (f.lost op ∧ ∀ len, op ≠ .setLen len)

theorem none_not_beyond : ¬ Faults.none.Beyond := by
  rintro ⟨op, landed | ⟨lost, _⟩⟩
  · exact landed
  · exact lost

theorem handler_on {f : Faults} {s s' : Image} {op : ImageOp} {r : op.Res}
    (h : f.handler s (.on () op) r s') :
    (r, s') = s.step op ∨
      (op.Refused r ∧ (f.lost op ∧ s' = s ∨ f.landed op ∧ s' = (s.step op).2)) := by
  rcases h with ideal | ⟨lost, refused, same⟩ | ⟨landed, refused, done⟩
  · exact Or.inl ideal
  · exact Or.inr ⟨refused, Or.inl ⟨lost, same⟩⟩
  · exact Or.inr ⟨refused, Or.inr ⟨landed, done⟩⟩

/-- Some operation can fail. -/
def Faulty (f : Faults) : Prop := ∃ op, f.lost op ∨ f.landed op

theorem faulty_of {f : Faults} {s s' : Image} {op : ImageOp}
    (fault : f.lost op ∧ s' = s ∨ f.landed op ∧ s' = (s.step op).2) : f.Faulty := by
  rcases fault with ⟨lost, _⟩ | ⟨landed, _⟩
  · exact ⟨op, Or.inl lost⟩
  · exact ⟨op, Or.inr landed⟩

theorem none_not_faulty : ¬ Faults.none.Faulty := by
  rintro ⟨op, lost | landed⟩
  · exact lost
  · exact landed

theorem handler_quiet {f : Faults} {s s' : Image} (op : ImageOp) {r : op.Res}
    (quiet : (s.step op).2 = s) (h : f.handler s (.on () op) r s') :
    s' = s ∧ (r = (s.step op).1 ∨ (f.Faulty ∧ op.Refused r)) := by
  rcases handler_on h with ideal | ⟨refused, ⟨lost, same⟩ | ⟨landed, same⟩⟩
  · have first := congrArg Prod.fst ideal
    have second := congrArg Prod.snd ideal
    simp only at first second
    exact ⟨second.trans quiet, Or.inl first⟩
  · exact ⟨same, Or.inr ⟨⟨op, Or.inl lost⟩, refused⟩⟩
  · exact ⟨same.trans quiet, Or.inr ⟨⟨op, Or.inr landed⟩, refused⟩⟩

theorem handler_firm {f : Faults} {s s' : Image} (op : ImageOp) {r : op.Res}
    (firm : ∀ r, ¬ op.Refused r) (h : f.handler s (.on () op) r s') : (r, s') = s.step op := by
  rcases handler_on h with ideal | ⟨refused, -⟩
  · exact ideal
  · exact absurd refused (firm r)

theorem handler_share {f : Faults} {s s' : Image} {bat : Option (List Nat)} {off : Option Nat}
    {r : Unit} (h : f.handler s (.on () (.share bat off)) r s') : s' = ⟨s.disk, bat, off⟩ :=
  congrArg Prod.snd (handler_firm (.share bat off) (fun _ no => no) h)

theorem traced_firm {f : Faults} {x x' : Image × History} (op : ImageOp) {r : op.Res}
    (firm : ∀ r, ¬ op.Refused r) (stepped : f.handler.traced x (.on () op) r x') :
    r = (x.1.step op).1 ∧ x' = ((x.1.step op).2, ⟨.on () op, r⟩ :: x.2) := by
  obtain ⟨s', h'⟩ := x'
  obtain ⟨allowed, remembered⟩ := stepped
  have ideal := handler_firm op firm allowed
  exact ⟨congrArg Prod.fst ideal, Prod.ext (congrArg Prod.snd ideal) remembered⟩

theorem traced_lock {f : Faults} {x x' : Image × History} {r : ImageOp.Res .lockBat}
    (stepped : f.handler.traced x (.on () .lockBat) r x') :
    r = x.1.bat ∧ x' = (x.1, ⟨.on () .lockBat, r⟩ :: x.2) := by
  exact traced_firm .lockBat (fun _ no => no) stepped

theorem traced_unlock {f : Faults} {x x' : Image × History} {r : ImageOp.Res .unlockBat}
    (stepped : f.handler.traced x (.on () .unlockBat) r x') :
    x' = (x.1, ⟨.on () .unlockBat, r⟩ :: x.2) := by
  exact (traced_firm .unlockBat (fun _ no => no) stepped).2

end Faults

section Calls

variable {f : Faults} {G : Image × History → Op Unit → Prop} {s : Image} {h : History}
  {E : Error → Image × History → Prop}

theorem perform_wp {op : ImageOp} {Q : op.Res → Image × History → Prop}
    (guard : G (s, h) (.on () op))
    (done : Q (s.step op).1 ((s.step op).2, ⟨.on () op, (s.step op).1⟩ :: h))
    (refused : ∀ r h' s', op.Refused r →
      (f.lost op ∧ s' = s ∨ f.landed op ∧ s' = (s.step op).2) → Q r (s', h')) :
    Code.wp f.handler.traced G (ask () op) Q E (s, h) := by
  refine (Code.wp_perform _).mpr ⟨guard, ?_⟩
  rintro r ⟨s', h'⟩ ⟨allowed, remembered⟩
  cases remembered
  rcases Faults.handler_on allowed with ideal | ⟨refusal, fault⟩
  · rw [← ideal] at done
    exact done
  · exact refused r _ s' refusal fault

theorem ask_wp {op : ImageOp} {Q : op.Res → Image × History → Prop}
    (firm : ∀ r, ¬ op.Refused r) (guard : G (s, h) (.on () op))
    (done : Q (s.step op).1 ((s.step op).2, ⟨.on () op, (s.step op).1⟩ :: h)) :
    Code.wp f.handler.traced G (ask () op) Q E (s, h) :=
  perform_wp guard done fun r _ _ refusal _ => absurd refusal (firm r)

theorem sizeBytes_wp {Q : Nat → Image × History → Prop} (guard : G (s, h) (.on () .sizeBytes))
    (done : Q s.disk.size (s, ⟨.on () .sizeBytes, s.disk.size⟩ :: h)) :
    Code.wp f.handler.traced G (sizeBytes ()) Q E (s, h) :=
  ask_wp (fun _ no => no) guard done

theorem beyond_of_refused {op : ImageOp} {s' : Image} (other : ∀ len, op ≠ .setLen len)
    (fault : f.lost op ∧ s' = s ∨ f.landed op ∧ s' = (s.step op).2) : f.Beyond := by
  rcases fault with ⟨lost, _⟩ | ⟨landed, _⟩
  · exact ⟨op, Or.inr ⟨lost, other⟩⟩
  · exact ⟨op, Or.inl landed⟩

theorem devRead_wp {off len : Nat} {Q : Bytes → Image × History → Prop}
    (guard : G (s, h) (.on () (.readAt off len))) (inside : off + len ≤ s.disk.size)
    (done : Q (s.disk.read off len)
      (s, ⟨.on () (.readAt off len), (.ok (s.disk.read off len) : Except FsCoreError Bytes)⟩ :: h))
    (failed : f.Beyond → ∀ e x, E e x) :
    Code.wp f.handler.traced G (devRead () off len) Q E (s, h) := by
  refine (Code.wp_bind _ _).mpr (perform_wp guard ?_ ?_)
  · rw [Image.step_readAt inside]
    exact done
  · rintro r h' s' ⟨e, rfl⟩ fault
    exact failed (beyond_of_refused (by simp) fault) _ _

theorem writeAt_wp {role : WriteRole} {off : Nat} {bytes : Bytes}
    {Q : Except FsCoreError Unit → Image × History → Prop}
    (guard : G (s, h) (.on () (.writeAt role off bytes)))
    (inside : off + bytes.length ≤ s.disk.size)
    (done : Q (.ok ()) ({ s with disk := s.disk.write off bytes },
      ⟨.on () (.writeAt role off bytes), (.ok () : Except FsCoreError Unit)⟩ :: h))
    (failed : f.Beyond → ∀ e h' s', (s' = s ∨ s' = { s with disk := s.disk.write off bytes }) →
      Q (.error e) (s', h')) :
    Code.wp f.handler.traced G (ask () (.writeAt role off bytes)) Q E (s, h) := by
  refine perform_wp guard ?_ ?_
  · rw [Image.step_writeAt inside]
    exact done
  · rintro r h' s' ⟨e, rfl⟩ fault
    refine failed (beyond_of_refused (by simp) fault) e h' s' ?_
    rcases fault with ⟨_, same⟩ | ⟨_, changed⟩
    · exact Or.inl same
    · rw [Image.step_writeAt inside] at changed
      exact Or.inr changed

theorem devWrite_wp {role : WriteRole} {off : Nat} {bytes : Bytes}
    {Q : Unit → Image × History → Prop}
    (guard : G (s, h) (.on () (.writeAt role off bytes)))
    (inside : off + bytes.length ≤ s.disk.size)
    (done : Q () ({ s with disk := s.disk.write off bytes },
      ⟨.on () (.writeAt role off bytes), (.ok () : Except FsCoreError Unit)⟩ :: h))
    (failed : f.Beyond → ∀ e x, E e x) :
    Code.wp f.handler.traced G (devWrite () role off bytes) Q E (s, h) :=
  (Code.wp_bind _ _).mpr (writeAt_wp guard inside done fun beyond _ _ _ _ => failed beyond _ _)

theorem devFlush_wp {Q : Unit → Image × History → Prop} (guard : G (s, h) (.on () .flush))
    (done : Q () (s, ⟨.on () .flush, (.ok () : Except FsCoreError Unit)⟩ :: h))
    (failed : f.Beyond → ∀ e x, E e x) :
    Code.wp f.handler.traced G (devFlush ()) Q E (s, h) := by
  refine (Code.wp_bind _ _).mpr (perform_wp guard done ?_)
  rintro r h' s' ⟨e, rfl⟩ fault
  exact failed (beyond_of_refused (by simp) fault) _ _

end Calls

section Allocate

variable {L : Layout} {pay : Nat → Option UInt8} {f : Faults} {s : Image} {h : History}
  {bat : List Nat} {i off : Nat}

variable (f s i) in
/-- How a write of block `i` fails: refused before it changed anything, because
    the block is not there and the entry has no room for the offset or the device
    did not grow; or by a fault. -/
def Denied (_ : Error) (x : Image × History) : Prop :=
  (x.1 = s ∧ (∃ bat, s.bat = some bat ∧ bat[i]? = some batUnallocated) ∧
    ((∃ off, s.nextAllocOff = some off ∧ ¬ Nameable off) ∨ ∃ len, f.lost (.setLen len))) ∨
    f.Beyond

theorem Denied.of_beyond (beyond : f.Beyond) (e : Error) (x : Image × History) : Denied f s i e x :=
  Or.inr beyond

theorem devGrowTo_wp {stop : Nat} {Q : Unit → Image × History → Prop} (wanted : Wanted L pay s i)
    (fits : stop < 2 ^ 64)
    (grow : s.disk.size < stop → ∀ h, Permitted L pay (s, h) (.setLen stop))
    (done : ∀ d h', (∀ j, d.byte j = s.disk.byte j) → d.size = max s.disk.size stop →
      Q () ({ s with disk := d }, h')) :
    Code.wp f.handler.traced (Permits L pay) (devGrowTo () stop) Q (Denied f s i) (s, h) := by
  refine (Code.wp_bind _ _).mpr (sizeBytes_wp (.look trivial) ?_)
  split
  · rename_i long
    exact done s.disk _ (fun _ => rfl) (by omega)
  · rename_i short
    refine (Code.wp_bind _ _).mpr (perform_wp (grow (by omega) _) ?_ ?_)
    · rw [Image.step_setLen fits]
      exact done _ _ (fun j => ByteStore.byte_resize (by omega)) (by
        rw [ByteStore.size_resize]; omega)
    · rintro r h' s' ⟨e, rfl⟩ (⟨lost, rfl⟩ | ⟨landed, _⟩)
      · exact Or.inl ⟨rfl, wanted.free, Or.inr ⟨_, lost⟩⟩
      · exact Or.inr ⟨_, Or.inl landed⟩

theorem writeFooterCopy_wp {Q : Unit → Image × History → Prop} (wanted : Wanted L pay s i)
    (tail : s.nextAllocOff = some off) (nameable : Nameable off)
    (room : off + L.blockTotal + 512 ≤ s.disk.size)
    (done : ∀ d h', d.size = s.disk.size → d.read (off + L.blockTotal) 512 = L.footerBytes →
      Q () ({ s with disk := d }, h')) {s₀ : Image} :
    Code.wp f.handler.traced (Permits L pay)
      (writeFooterCopy () (off + L.blockTotal) L.footerBytes) Q (Denied f s₀ i) (s, h) := by
  have long : L.footerBytes.length = 512 := L.whole
  have back (d : ByteStore) (same : d.size = s.disk.size) :
      (d.write (off + L.blockTotal) L.footerBytes).read (off + L.blockTotal) 512 =
        L.footerBytes := by
    have read := ByteStore.read_write_same d (off + L.blockTotal) L.footerBytes
      (by omega)
    rwa [long] at read
  refine (Code.wp_bind _ _).mpr (writeAt_wp (.footer wanted tail nameable room) (by omega)
    (done _ _ rfl (back _ rfl)) ?_)
  rintro beyond e h' s' (rfl | rfl)
  · exact (Code.wp_bind _ _).mpr (writeAt_wp (.footer wanted tail nameable room) (by omega)
      (done _ _ rfl (back _ rfl)) fun beyond _ _ _ _ => Or.inr beyond)
  · exact (Code.wp_bind _ _).mpr (writeAt_wp (.footer wanted.disk tail nameable room)
      (by simp only [ByteStore.size_write]; omega)
      (done _ _ rfl (back _ rfl)) fun beyond _ _ _ _ => Or.inr beyond)

theorem Cleared.later {h : History} {off : Nat} (cleared : Cleared off h)
    (e : Event (Op Unit) Op.Res) : Cleared off (e :: h) := by
  obtain ⟨n, r, sector, member⟩ := cleared
  exact ⟨n, r, sector, List.mem_cons_of_mem _ member⟩

/-- `s` with `written` bytes of the block at `off` zeroed. -/
def Zeroed (L : Layout) (s : Image) (off written : Nat) (x : Image × History) : Prop :=
  ∃ d, x.1 = { s with disk := d } ∧ d.size = s.disk.size ∧
    d.read (off + L.blockTotal) 512 = L.footerBytes ∧
    (∀ j < written, d.byte (off + j) = 0) ∧ (0 < written → Cleared off x.2)

theorem zeroRange_wp {Q : Unit → Image × History → Prop} (wanted : Wanted L pay s i)
    (tail : s.nextAllocOff = some off) (nameable : Nameable off) (footed : Footed L s off)
    (done : ∀ d h', Fresh L { s with disk := d } off → d.size = s.disk.size → Cleared off h' →
      Q () ({ s with disk := d }, h')) {s₀ : Image} :
    Code.wp f.handler.traced (Permits L pay) (zeroRange () off L.blockTotal) Q (Denied f s₀ i)
      (s, h) := by
  have positive := L.blockTotal_pos
  have whole := L.blockTotal_mod
  have small := L.blockTotal_lt
  have low := nameable.lt
  have chunkPos : 0 < min zeroChunk L.blockTotal := by unfold zeroChunk; omega
  refine (Code.wp_bind _ _).mpr ?_
  refine Code.wp_whileLoop (fun written x => written ≤ L.blockTotal ∧ Zeroed L s off written x)
    (fun written => L.blockTotal - written) ?positive ?turn ?done _ _ _ ?start (by omega)
  case start =>
    exact ⟨Nat.zero_le _, s.disk, rfl, rfl, footed.footer, fun j lt => absurd lt (by omega),
      fun no => absurd no (by omega)⟩
  case positive =>
    rintro written x - more
    have more := of_decide_eq_true more
    omega
  case turn =>
    rintro written ⟨s', h'⟩ ⟨le, d, rfl, size, footer, zeros, cleared⟩ more
    have more := of_decide_eq_true more
    have room : off + L.blockTotal + 512 ≤ d.size := by rw [size]; exact footed.room
    simp only [add64_of_lt (show off + written < 2 ^ 64 by omega), Code.lift_ok_bind]
    refine (Code.wp_bind _ _).mpr (devWrite_wp (.zero wanted.disk tail nameable
      ⟨room, footer⟩ (by omega)) ?_ ?_ Denied.of_beyond)
    · simp only [List.length_replicate]
      omega
    · refine ⟨⟨by omega, _, rfl, size, ?_, ?_, fun _ => ?_⟩, by omega⟩
      · rw [← footer]
        exact ByteStore.read_write_disjoint (by simp only [List.length_replicate]; omega)
      · intro j lt
        by_cases earlier : j < written
        · rw [ByteStore.byte_write_outside (Or.inl (by omega))]
          exact zeros j earlier
        · rw [ByteStore.byte_write_inside (by simp only [List.length_replicate]; omega)
            (by omega) (by simp only [List.length_replicate]; omega)]
          exact List.getD_replicate _ (by omega)
      · rcases Nat.eq_zero_or_pos written with rfl | some_
        · exact ⟨_, _, by unfold zeroChunk; omega, List.mem_cons_self⟩
        · exact (cleared some_).later _
  case done =>
    rintro written ⟨s', h'⟩ ⟨le, d, rfl, size, footer, zeros, cleared⟩ stop
    have stop := of_decide_eq_false stop
    exact done d h' ⟨⟨by rw [size]; exact footed.room, footer⟩, fun j lt => zeros j (by omega)⟩ size
      (cleared (by omega))

/-- What an allocation leaves: the cached entry and the tail moved on, and the
    device long enough. -/
structure Allocated (L : Layout) (s s' : Image) (bat : List Nat) (i off : Nat) : Prop where
  nameable : Nameable off
  bat : s'.bat = some (bat.set i (off / 512))
  tail : s'.nextAllocOff = some (off + L.blockTotal)
  size : s'.disk.size = max s.disk.size (off + L.blockTotal + 512)

theorem allocateBlockLocked_wp {w fm : Bool} (touched : L.Touches pay i) (index : i < L.entries)
    (cached : s.bat = some bat) (free : bat[i]? = some batUnallocated)
    (tail : s.nextAllocOff = some off) (table : L.tableEnd ≤ s.disk.size) :
    Code.wp f.handler.traced (Permits L pay) (allocateBlockLocked (L.core () w fm) i)
      (fun off' x' => off' = off ∧ Allocated L s x'.1 bat i off) (Denied f s i) (s, h) := by
  have small := L.blockTotal_lt
  have total := L.blockTotal_eq
  have stop : L.tableEnd = L.tableOffset + L.entries * 4 := rfl
  have tableEnd := L.tableEnd_lt
  have wanted (s' : Image) (same : s'.bat = s.bat) : Wanted L pay s' i :=
    ⟨touched, index, bat, same.trans cached, free⟩
  have sum : (add64 L.bitmapSize L.header.blockSize : Checked Nat) = .ok L.blockTotal :=
    add64_of_lt (by change L.bitmapSize + L.blockSize < 2 ^ 64; omega)
  unfold allocateBlockLocked
  simp only [Layout.core, okOr, Code.lift_ok_bind, sum]
  refine (Code.wp_bind _ _).mpr (ask_wp (fun _ no => no) (.look trivial) ?_)
  simp only [Image.step, tail, Code.lift_ok_bind]
  by_cases nameable : Nameable off
  case neg =>
    obtain ⟨e, refused⟩ := batEntryFor_refuses nameable
    rw [refused]
    exact Or.inl ⟨rfl, ⟨bat, cached, free⟩, Or.inl ⟨off, tail, nameable⟩⟩
  have low := nameable.lt
  rw [batEntryFor_of_nameable nameable, Code.lift_ok_bind, add64_of_lt (by omega),
    Code.lift_ok_bind, checkedAdd_of_lt (by unfold footerSize; omega), Code.lift_ok_bind]
  refine (Code.wp_bind _ _).mpr (devGrowTo_wp (wanted s rfl) (by unfold footerSize; omega)
    (fun short h => .grow (wanted s rfl) tail nameable short) ?_)
  intro d₁ h₁ _ size₁
  have room₁ : off + L.blockTotal + 512 ≤ d₁.size := by rw [size₁]; exact Nat.le_max_right _ _
  refine (Code.wp_bind _ _).mpr (writeFooterCopy_wp (s := { s with disk := d₁ }) (wanted _ rfl) tail
    nameable room₁ ?_)
  intro d₂ h₂ size₂ footer₂
  refine (Code.wp_bind _ _).mpr (devFlush_wp (.look trivial) ?_ Denied.of_beyond)
  refine (Code.wp_bind _ _).mpr (zeroRange_wp (s := { s with disk := d₂ }) (wanted _ rfl) tail
    nameable ⟨by rw [size₂]; exact room₁, footer₂⟩ ?_)
  intro d₃ h₃ fresh size₃ cleared
  refine (Code.wp_bind _ _).mpr (devFlush_wp (.look trivial) ?_ Denied.of_beyond)
  refine (Code.wp_bind _ _).mpr (ask_wp (fun _ no => no)
    (.commit (wanted _ rfl) tail nameable fresh (cleared.later _)) ?_)
  rw [mul64_of_lt (by omega), Code.lift_ok_bind,
    add64_of_lt (show L.header.tableOffset + i * 4 < 2 ^ 64 by
      change L.tableOffset + i * 4 < 2 ^ 64; omega), Code.lift_ok_bind]
  have stored : i * 4 + 4 ≤ L.entries * 4 := by omega
  have length₃ : L.tableOffset + i * 4 + (toBe 4 (off / 512)).length ≤ d₃.size := by
    rw [length_toBe]
    simp only at size₂ size₃
    omega
  refine (Code.wp_bind _ _).mpr (devWrite_wp (.entry (wanted _ rfl) rfl nameable
    ⟨⟨fresh.room, fresh.footer⟩, fresh.zeros⟩) length₃ ?_ Denied.of_beyond)
  refine (Code.wp_bind _ _).mpr (devFlush_wp (.look trivial) ?_ Denied.of_beyond)
  refine (Code.wp_bind _ _).mpr (ask_wp (fun _ no => no) (.publish (wanted _ rfl) nameable ?_) ?_)
  · have back := ByteStore.read_write_same _ _ _ length₃
    rwa [length_toBe] at back
  · refine ⟨rfl, nameable, ?_, rfl, ?_⟩
    · simp only [Image.step, cached, Option.map_some]
    · simp only [footerSize] at size₁ size₂ size₃
      simp only [Image.step, ByteStore.size_write]
      omega

end Allocate

end ImgVhd
