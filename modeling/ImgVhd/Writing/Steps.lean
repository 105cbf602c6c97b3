import ImgVhd.Layout

/-! # What a write does to an image, one operation at a time

`Permitted` lists every operation the write path issues to a dynamic image, each
with what holds of the image and of the events so far when it is issued. The
specifications of the write path say that nothing else is issued; what holds of
an image through any number of writes, interrupted or not, is then an invariant
of these cases.
-/

namespace ImgVhd

open Foundation

/-- The events so far, newest first. -/
abbrev History := List (Event (Op Unit) Op.Res)

/-- An offset a BAT entry can name. -/
structure Nameable (off : Nat) : Prop where
  aligned : off % 512 = 0
  below : off / 512 < batUnallocated

instance (off : Nat) : Decidable (Nameable off) :=
  decidable_of_iff (off % 512 = 0 ∧ off / 512 < batUnallocated)
    ⟨fun h => ⟨h.1, h.2⟩, fun h => ⟨h.aligned, h.below⟩⟩

theorem Nameable.hostOff {off : Nat} (h : Nameable off) : hostOff (off / 512) = off :=
  Nat.div_mul_cancel (Nat.dvd_of_mod_eq_zero h.aligned)

theorem Nameable.lt {off : Nat} (h : Nameable off) : off < 2 ^ 41 := by
  have below := h.below
  unfold batUnallocated at below
  omega

theorem batEntryFor_eq_ok {off v : Nat} :
    batEntryFor off = .ok v ↔ Nameable off ∧ v = off / 512 := by
  unfold batEntryFor sectorSize
  split
  · rename_i odd
    simp only [reduceCtorEq, false_iff, not_and]
    exact fun named => absurd named.aligned odd
  · rename_i aligned
    split
    · rename_i high
      simp only [reduceCtorEq, false_iff, not_and]
      intro named
      have below := named.below
      unfold batUnallocated at below
      omega
    · rename_i low
      split
      · rename_i reserved
        simp only [reduceCtorEq, false_iff, not_and]
        exact fun named => absurd named.below (by omega)
      · rename_i free
        simp only [Outcome.ok.injEq]
        constructor
        · rintro rfl
          unfold batUnallocated at free
          exact ⟨⟨by omega, by unfold batUnallocated; omega⟩, rfl⟩
        · exact fun named => named.2.symm

theorem batEntryFor_of_nameable {off : Nat} (h : Nameable off) :
    batEntryFor off = .ok (off / 512) := batEntryFor_eq_ok.mpr ⟨h, rfl⟩

theorem batEntryFor_refuses {off : Nat} (h : ¬ Nameable off) : ∃ e, batEntryFor off = .err e := by
  cases outcome : batEntryFor off with
  | ok v => exact absurd (batEntryFor_eq_ok.mp outcome).1 h
  | err e => exact ⟨e, rfl⟩
  | panic =>
      unfold batEntryFor at outcome
      repeat' split at outcome
      all_goals cases outcome
  | outOfFuel =>
      unfold batEntryFor at outcome
      repeat' split at outcome
      all_goals cases outcome

/-- Operations that only look, or only make durable. -/
def ImageOp.Quiet : ImageOp → Prop
  | .sizeBytes => True
  | .isWritable => True
  | .readAt _ _ => True
  | .flush => True
  | .fetchBat => True
  | .nextAllocOff => True
  | _ => False

theorem quiet_step {s : Image} {op : ImageOp} (quiet : op.Quiet) : (s.step op).2 = s := by
  cases op <;> first | rfl | exact quiet.elim

section Steps

variable (L : Layout) (pay : Nat → Option UInt8)

/-- The payload, a partial function of virtual bytes, reaches block `i`. -/
def Layout.Touches (i : Nat) : Prop := ∃ j < L.blockSize, (pay (i * L.blockSize + j)).isSome

/-- Block `i` is wanted and the cached table has no entry for it. -/
structure Wanted (s : Image) (i : Nat) : Prop where
  touched : L.Touches pay i
  index : i < L.entries
  free : ∃ bat, s.bat = some bat ∧ bat[i]? = some batUnallocated

/-- Block `i` is wanted and the cached table names it at `e`. -/
structure Named (s : Image) (i e : Nat) : Prop where
  touched : L.Touches pay i
  index : i < L.entries
  entry : ∃ bat, s.bat = some bat ∧ bat[i]? = some e
  allocated : e ≠ batUnallocated

/-- A footer's copy stands past the block at `off`. -/
structure Footed (s : Image) (off : Nat) : Prop where
  room : off + L.blockTotal + 512 ≤ s.disk.size
  footer : s.disk.read (off + L.blockTotal) 512 = L.footerBytes

/-- The block at `off` is all zeros, with a footer past it. -/
structure Fresh (s : Image) (off : Nat) : Prop extends Footed L s off where
  zeros : ∀ j < L.blockTotal, s.disk.byte (off + j) = 0

/-- A write of zeros went out that covers the sector at `off`. -/
def Cleared (off : Nat) (h : History) : Prop :=
  ∃ n r, 512 ≤ n ∧ ⟨.on () (.writeAt .zero off (List.replicate n 0)), r⟩ ∈ h

inductive Permitted : Image × History → ImageOp → Prop where
  /-- A section never asks for the lock it holds. -/
  | look {x op} (quiet : op.Quiet) (held : op ≠ .fetchBat := by simp) : Permitted x op
  | grow {s h i off} (wanted : Wanted L pay s i) (tail : s.nextAllocOff = some off)
      (nameable : Nameable off) (short : s.disk.size < off + L.blockTotal + 512) :
      Permitted (s, h) (.setLen (off + L.blockTotal + 512))
  | footer {s h i off} (wanted : Wanted L pay s i) (tail : s.nextAllocOff = some off)
      (nameable : Nameable off) (room : off + L.blockTotal + 512 ≤ s.disk.size) :
      Permitted (s, h) (.writeAt .footer (off + L.blockTotal) L.footerBytes)
  | zero {s h i off k n} (wanted : Wanted L pay s i) (tail : s.nextAllocOff = some off)
      (nameable : Nameable off) (footed : Footed L s off) (inside : k + n ≤ L.blockTotal) :
      Permitted (s, h) (.writeAt .zero (off + k) (List.replicate n 0))
  | commit {s h i off} (wanted : Wanted L pay s i) (tail : s.nextAllocOff = some off)
      (nameable : Nameable off) (fresh : Fresh L s off) (cleared : Cleared off h) :
      Permitted (s, h) (.setNextAllocOff (off + L.blockTotal))
  /-- The entry goes out right after the tail moved past the block. -/
  | entry {s h i off r} (wanted : Wanted L pay s i)
      (tail : s.nextAllocOff = some (off + L.blockTotal))
      (nameable : Nameable off) (fresh : Fresh L s off) :
      Permitted (s, ⟨.on () (.setNextAllocOff (off + L.blockTotal)), r⟩ :: h)
        (.writeAt (.batEntry i (off / 512)) (L.tableOffset + i * 4) (toBe 4 (off / 512)))
  /-- The cached entry follows a write and a flush that both succeeded. -/
  | publish {s h i off} (wanted : Wanted L pay s i) (nameable : Nameable off)
      (stored : s.disk.read (L.tableOffset + i * 4) 4 = toBe 4 (off / 512)) :
      Permitted (s, ⟨.on () .flush, (.ok () : Except FsCoreError Unit)⟩ ::
        ⟨.on () (.writeAt (.batEntry i (off / 512)) (L.tableOffset + i * 4) (toBe 4 (off / 512))),
          (.ok () : Except FsCoreError Unit)⟩ :: h)
        (.setBatEntry i (off / 512))
  /-- Part of a sector that no bit publishes yet. -/
  | fill {s h i e n p len} (named : Named L pay s i e) (sector : n < L.blockSize / 512)
      (absent : bitAt s.disk (hostOff e) n = false) (low : n * 512 ≤ p)
      (high : p + len ≤ n * 512 + 512) :
      Permitted (s, h) (.writeAt .fill (hostOff e + L.bitmapSize + p) (List.replicate len 0))
  | payload {s h i e p src} (named : Named L pay s i e) (inside : p + src.length ≤ L.blockSize)
      (carries : ∀ j (lt : j < src.length), pay (i * L.blockSize + p + j) = some src[j]) :
      Permitted (s, h) (.writeAt .payload (hostOff e + L.bitmapSize + p) src)
  /-- The bits only grow, and a sector they newly publish holds the payload, and
      zeros elsewhere. -/
  | bitmap {s h i e bits} (named : Named L pay s i e) (length : bits.length = L.bitmapSize)
      (kept : ∀ n < L.blockSize / 512, bitAt s.disk (hostOff e) n = true → present bits n = true)
      (defined : ∀ n < L.blockSize / 512, present bits n = true →
        bitAt s.disk (hostOff e) n = false → ∀ j < 512,
          s.disk.byte (hostOff e + L.bitmapSize + (n * 512 + j)) = 0 ∨
          pay (i * L.blockSize + (n * 512 + j)) =
            some (s.disk.byte (hostOff e + L.bitmapSize + (n * 512 + j)))) :
      Permitted (s, h) (.writeAt .bitmap (hostOff e) bits)

variable {L pay}

theorem Wanted.disk {s : Image} {i : Nat} {d : ByteStore} (h : Wanted L pay s i) :
    Wanted L pay { s with disk := d } i := ⟨h.touched, h.index, h.free⟩

theorem Named.disk {s : Image} {i e : Nat} {d : ByteStore} (h : Named L pay s i e) :
    Named L pay { s with disk := d } i e := ⟨h.touched, h.index, h.entry, h.allocated⟩

variable (L pay)

/-- `Permitted` as a guard on the whole interface. -/
def Permits (x : Image × History) : Op Unit → Prop
  | .on _ op => Permitted L pay x op
  | _ => False

variable {L pay}

theorem Permits.on_image {x : Image × History} {op : Op Unit} (h : Permits L pay x op) :
    ∃ o, op = .on () o ∧ Permitted L pay x o := by
  cases op with
  | on dev o => exact ⟨o, rfl, h⟩
  | pathExists path => exact h.elim
  | openFile path writable => exact h.elim
  | createFile path => exact h.elim

end Steps

end ImgVhd
