import ImgVhd.Cli.Feed
import ImgVhd.Session.Fixed
import ImgVhd.Session.Growth
import ImgVhd.Session.Room

/-! # `img.vhd write`, from a pipe and from a file

What comes of a write depends on the bytes that are on standard input, not on how
they get there.
-/

namespace ImgVhd.Img

open Foundation

/-- An image that was just made, and its reader. -/
inductive Made (f : Faults) : VhdReader Unit → Image → Prop where
  | fixed {env path size s t r s'} (word : size < 2 ^ 64)
      (run : Prog.Runs f.handler (createFixed env path size) s t (.ret (.ok r)) s') : Made f r s'
  | dynamic {env path size bs s t r s'} (word : bs < 2 ^ 32)
      (run : Prog.Runs f.handler (createDynamic env path size bs) s t (.ret (.ok r)) s') : Made f r s'

section Write

variable {f : Faults} {r₀ : VhdReader Unit} {s s₁ : Image} {log : List Attempt}
  {last : Option (VhdReader Unit)} {image : Path} {offset : Nat} {str : Bytes}

/-- What the verb finds when it opens an image: a disk that can be written on. -/
structure Finds (image : Path) (s : Image) (size : Nat) (held : Nat → UInt8) (r : VhdReader Unit)
    (x : Image) : Prop where
  opening : Code.wp Faults.none.handler (fun _ _ => True) (VhdReader.openRw image)
    (fun r' x' => r' = r ∧ x' = x) (fun _ _ => False) s
  disk : x.disk = s.disk
  virtual : r.virtualSize = size
  small : size + 1 < 2 ^ 64
  shows : Shows s.disk size held
  writesOn : ∀ c stop, stop ≤ size → ∃ keeps, WritesOn r stop keeps ∧
    (BatHasRoom r x c stop → keeps c held x)

/-- Whatever was done to an image since it was made. -/
theorem Made.finds (made : Made f r₀ s₁) (session : Session f (r₀, s₁) log last s) (image : Path) :
    ∃ held r x, Finds image s r₀.virtualSize held r x := by
  cases made with
  | fixed word run =>
      obtain ⟨found, rfl, created⟩ := createFixed_plain word run
      obtain ⟨plain, -⟩ := session.plain created rfl
      have small := plain.small
      have opening : Code.wp Faults.none.handler (fun _ _ => True) (openAs () true (some image)) _ _ s :=
        openAs_plain plain fun _ => trivial
      refine ⟨s.disk.byte, _, _, Code.wp_mono opening (fun _ _ g => g) (fun _ _ post => post)
        fun _ _ failed => Faults.none_not_faulty failed.2, rfl, rfl, ?_, plain.shows fun _ _ => rfl, ?_⟩
      · show found.footer.currentSize + 1 < 2 ^ 64
        omega
      · exact fun c stop within =>
          ⟨_, writesOn_fixed plain.kind within, fun _ => ⟨plain, fun _ _ => rfl⟩⟩
  | dynamic word run =>
      obtain ⟨L, off₀, created, rfl, -, -⟩ := createDynamic_created word run
      obtain ⟨⟨bat, off, durable⟩, -⟩ := session.durable created rfl
      obtain ⟨fm, dataEnd, off', opens, behind⟩ := durable.opens
      have again := durable.reopened opens behind
      have values (b : Nat) (low : b < L.virtualSize) : L.value s.disk (L.table s.disk) b =
          L.value s.disk bat b := durable.sound.value_table b low
      refine ⟨L.value s.disk bat, .base (L.core () true fm), L.opened s.disk off', ?_, rfl, rfl, ?_,
        durable.shows created.dynamic fun _ _ => rfl, ?_⟩
      · exact Code.wp_mono (reopen_wp (f := .none) (G := fun _ _ => True) (some image) opens created.dynamic
          fun _ => trivial) (fun _ _ g => g) (fun _ _ post => post)
          fun _ _ failed => Faults.none_not_faulty failed.2
      · have covers := L.virtualSize_le
        have block := L.blockSize_le
        have entries := L.entries_lt
        have product : L.entries * L.blockSize ≤ 2 ^ 32 * 2 ^ 31 :=
          Nat.mul_le_mul (Nat.le_of_lt entries) block
        show L.virtualSize + 1 < 2 ^ 64
        omega
      · exact fun c stop within => ⟨_, writesOn_dynamic fm created.clear created.dynamic within,
          fun room => ⟨⟨_, _, _, again, values⟩, room⟩⟩

/-- Whether it is a pipe in pieces of any size or a file from any position on: the
    write is refused exactly if the bytes reach past the disk, and then changes no
    byte of the image; else it reports all of them and they are what is changed. -/
theorem pipe_and_file_are_alike (made : Made f r₀ s₁) (session : Session f (r₀, s₁) log last s)
    (room : ∀ r x, (VhdReader.openRw image).run idealStep s = (.ok r, x) →
      BatHasRoom r x offset (offset + str.length)) :
    ∃ held, Shows s.disk r₀.virtualSize held ∧
      ∀ h t out s' h', Presents h str →
        Prog.Runs (Faults.none.handler.sides (Host.handler False)) (write image offset) (s, h) t
          (.ret out) (s', h') →
        (r₀.virtualSize < offset ∨ r₀.virtualSize - offset < str.length →
          (∃ e, out = .err e) ∧ s'.disk = s.disk) ∧
        (¬ (r₀.virtualSize < offset ∨ r₀.virtualSize - offset < str.length) →
          out = .ok (offset, str.length) ∧
          Shows s'.disk r₀.virtualSize (overlay offset str held)) := by
  obtain ⟨held, r, x, finds⟩ := made.finds session image
  refine ⟨held, finds.shows, fun h t out s' h' presents run => ?_⟩
  have size := finds.virtual
  have small := finds.small
  -- what was opened is what has room
  have roomy : BatHasRoom r x offset (offset + str.length) := by
    rcases Code.wp_run idealStep finds.opening (idealStep_allowed .none) with
      ⟨r', ended, rfl, same⟩ | ⟨e, -, never⟩
    · exact room _ _ (Prod.ext ended same)
    · exact never.elim
  obtain ⟨stop, within, stops⟩ : ∃ stop, stop ≤ r₀.virtualSize ∧
      (offset + str.length ≤ r₀.virtualSize → stop = offset + str.length) := by
    by_cases inside : offset + str.length ≤ r₀.virtualSize
    · exact ⟨_, inside, fun _ => rfl⟩
    · exact ⟨0, Nat.zero_le _, fun fits => absurd fits inside⟩
  obtain ⟨keeps, writes, start⟩ := finds.writesOn offset stop within
  have whole := write_wp offset held writes presents finds.opening (by rw [size]; exact small)
    fun inside => ⟨stops (size ▸ inside), start (stops (size ▸ inside) ▸ roomy)⟩
  rcases Code.wp_finished whole run with ⟨done, rfl, inside, rfl, kept⟩ | ⟨e, rfl, past, same⟩
  · refine ⟨fun refused => absurd refused (by omega), fun _ => ⟨rfl, ?_⟩⟩
    rw [← size]
    exact writes.shows _ _ _ kept
  · refine ⟨fun _ => ⟨⟨e, rfl⟩, ?_⟩, fun fits => absurd fits (by omega)⟩
    rw [show s' = x from same]
    exact finds.disk

theorem card_lacking_le {blockSize c stop : Nat} {bat : List Nat} :
    (lacking blockSize bat c stop).card ≤ bat.length := by
  rw [← Finset.card_range bat.length]
  refine Finset.card_le_card fun i member => Finset.mem_range.mpr ?_
  exact (List.getElem?_eq_some_iff.mp (Finset.mem_filter.mp member).2).1

/-- 700 bytes for the small disk, from a pipe and from the middle of a file. -/
theorem small_disk_is_fed : ∃ (s : Image) (str : Bytes) (held : Nat → UInt8), str.length = 700 ∧
    ∀ isFile, ∃ h t s' h', h.stdin.isFile = isFile ∧ Presents h str ∧
      Prog.Runs (Faults.none.handler.sides (Host.handler False)) (write [] 300) (s, h) t
        (.ret (.ok (300, 700))) (s', h') ∧ Shows s'.disk 34816 (overlay 300 str held) := by
  obtain ⟨t₀, r₀, s, create, size⟩ := small_created
  obtain ⟨L, off, created, rfl, block, -⟩ := createDynamic_created (by decide) create
  obtain ⟨str, length⟩ : ∃ str : Bytes, str.length = 700 :=
    ⟨List.replicate 700 7, List.length_replicate⟩
  have room : ∀ r x, (VhdReader.openRw []).run idealStep s = (.ok r, x) →
      BatHasRoom r x 300 (300 + str.length) := by
    intro r x ran
    have ideal := reopen_ideal (some []) created.opens created.dynamic
    obtain ⟨first, rfl⟩ := Prod.mk.inj (ran.symm.trans ideal)
    cases first
    rintro hdr bat tail ⟨⟩ ⟨⟩ ⟨⟩ k below
    have fits := Nat.lt_of_lt_of_le below card_lacking_le
    rw [L.length_table] at fits
    have named := created.roomy block fits
    rwa [created.dataStart] at named
  obtain ⟨held, -, outcomes⟩ := pipe_and_file_are_alike (.dynamic (by decide) create) .start room
  refine ⟨s, str, held, length, fun isFile => ?_⟩
  let h : Host := ⟨fun _ => none, 0, [], ⟨isFile, false, [1, 2, 3] ++ str, 3⟩⟩
  have presents : Presents h str := ⟨rfl, rfl⟩
  obtain ⟨t, out, ⟨s', h'⟩, run⟩ := Prog.finishes (Handler.sides_answered
    (fun s op => ⟨_, _, idealStep_allowed .none s op⟩) (Host.handler_answers False)) (write [] 300) (s, h)
  have fits : ¬ ((VhdReader.base (L.core () true false)).virtualSize < 300 ∨
      (VhdReader.base (L.core () true false)).virtualSize - 300 < str.length) := by
    omega
  obtain ⟨rfl, shows⟩ := (outcomes h t out s' h' presents run).2 fits
  rw [length] at run
  rw [size] at shows
  exact ⟨h, t, s', h', rfl, presents, run, shows⟩

end Write

end ImgVhd.Img
