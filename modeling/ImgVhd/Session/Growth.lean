import ImgVhd.Results.Crash
import ImgVhd.Session.Guest
import Mathlib.Data.Finset.Card
import Mathlib.Data.Finset.Image
import Mathlib.Order.Interval.Finset.Nat

/-! # Writing on a dynamic image

While the table has a number for every block that is missing, a dynamic image takes
whatever is written on it.
-/

namespace ImgVhd

open Foundation

/-- The blocks of the bytes `[c, stop)` the table has no entry for. -/
def lacking (blockSize : Nat) (bat : List Nat) (c stop : Nat) : Finset Nat :=
  ((Finset.Ico c stop).image (· / blockSize)).filter fun i => bat[i]? = some batUnallocated

/-- An entry can name the place of every block `[c, stop)` lacks. -/
def BatHasRoom (r : VhdReader Unit) (s : Image) (c stop : Nat) : Prop :=
  ∀ hdr bat tail, r.core.dynamic = some hdr → s.bat = some bat → s.nextAllocOff = some tail →
    ∀ k < (lacking hdr.blockSize bat c stop).card,
      Nameable (tail + k * (r.core.bitmapSize + hdr.blockSize))

section Growth

variable {L : Layout} {s s' : Image} {bat : List Nat} {off c stop n e i : Nat} {fm : Bool} {src : Bytes}

theorem lacking_subset {blockSize : Nat} :
    lacking blockSize bat (c + n) stop ⊆ lacking blockSize bat c stop := by
  apply Finset.filter_subset_filter
  apply Finset.image_subset_image
  exact Finset.Ico_subset_Ico_left (Nat.le_add_right _ _)

theorem mem_lacking {blockSize : Nat} (more : c < stop)
    (free : bat[c / blockSize]? = some batUnallocated) : c / blockSize ∈ lacking blockSize bat c stop := by
  refine Finset.mem_filter.mpr ⟨Finset.mem_image_of_mem _ ?_, free⟩
  exact Finset.mem_Ico.mpr ⟨Nat.le_refl _, more⟩

theorem card_lacking_set {blockSize : Nat} (more : c < stop)
    (free : bat[c / blockSize]? = some batUnallocated) (live : Live e) :
    (lacking blockSize (bat.set (c / blockSize) e) (c + n) stop).card <
      (lacking blockSize bat c stop).card := by
  refine Nat.lt_of_le_of_lt (Finset.card_le_card (fun i member => ?_))
    (Finset.card_erase_lt_of_mem (mem_lacking more free))
  obtain ⟨reached, lacks⟩ := Finset.mem_filter.mp member
  have other : i ≠ c / blockSize := by
    rintro rfl
    rw [List.getElem?_set_self (List.getElem?_eq_some_iff.mp free).1] at lacks
    exact live (Option.some.inj lacks)
  rw [List.getElem?_set_ne (Ne.symm other)] at lacks
  exact Finset.mem_erase.mpr ⟨other, lacking_subset (Finset.mem_filter.mpr ⟨reached, lacks⟩)⟩

theorem lacking_nil {blockSize : Nat} (past : stop ≤ c) : lacking blockSize bat c stop = ∅ := by
  simp [lacking, Finset.Ico_eq_empty_of_le past]

theorem BatHasRoom.section_ (room : BatHasRoom (.base (L.core () true fm)) s c stop)
    (moved : Moved L s s' (c / L.blockSize)) :
    BatHasRoom (.base (L.core () true fm)) s' (c + n) stop := by
  rintro hdr bat' tail' ⟨⟩ cached' at_ k below
  have total : L.blockTotal = (VhdReader.base (L.core () true fm)).core.bitmapSize + L.header.blockSize :=
    L.blockTotal_eq
  cases moved with
  | kept cached entry live same still size =>
      rw [same] at cached'
      rw [still] at at_
      exact room _ bat' tail' rfl cached' at_ k
        (Nat.lt_of_lt_of_le below (Finset.card_le_card lacking_subset))
  | @allocated bat off cached free tail after =>
      obtain rfl := Option.some.inj (after.bat.symm.trans cached')
      obtain rfl := Option.some.inj (after.tail.symm.trans at_)
      by_cases more : c < stop
      · have fewer : (lacking L.header.blockSize (bat.set (c / L.blockSize) (off / 512)) (c + n) stop).card <
            (lacking L.header.blockSize bat c stop).card :=
          card_lacking_set more free (Nat.ne_of_lt after.nameable.below)
        have next := room _ bat off rfl cached tail (k + 1) (Nat.lt_of_le_of_lt below fewer)
        rwa [Nat.succ_mul, Nat.add_comm (k * _), ← Nat.add_assoc, ← total] at next
      · rw [lacking_nil (by omega)] at below
        exact absurd below (Nat.not_lt_zero k)

/-- What stays of a dynamic image that is being written on. -/
structure Growing (L : Layout) (fm : Bool) (stop c : Nat) (held : Nat → UInt8) (s : Image) : Prop where
  durable : ∃ log bat off, Durable L log s bat off ∧ ∀ b < L.virtualSize, L.value s.disk bat b = held b
  room : BatHasRoom (.base (L.core () true fm)) s c stop

/-- One more call returns. -/
theorem Growing.write {held : Nat → UInt8} {buf : Bytes} (clear : Clear L)
    (dynamic : L.footer.diskType = .dynamic) (within : stop ≤ L.virtualSize)
    (growing : Growing L fm stop c held s) (inside : c + buf.length ≤ stop) :
    Code.wp Faults.none.handler (fun _ _ => True) ((VhdReader.base (L.core () true fm)).writeAt c buf)
      (fun _ x => Growing L fm stop (c + buf.length) (overlay c buf held) x) (fun _ _ => False) s := by
  obtain ⟨⟨log, bat, off, durable, values⟩, room⟩ := growing
  have sequential : WriteRule L .none c buf Faults.none.handler.traced
      (Between L (AtTail L) s bat off c buf) _ _ := sequentialRule clear (trail_atTail L)
  have rule := sequential.also (K := fun c x => BatHasRoom (.base (L.core () true fm)) x c stop)
    fun c x₀ x src account _ _ wrote => account.section_ wrote.moved
  refine Prog.wp_of_runs fun t out s' run => ?_
  rcases Code.wp_finished (writeAt_wp_rule fm rule dynamic (by omega)
    (x := (s, [])) ⟨Between.start c buf durable.sound durable.trailed, room⟩) (run.traced []) with
    ⟨done, rfl, ⟨bat', off', intact, -, written⟩, room'⟩ |
    ⟨e, rfl, -, c', x₀, h, more, account, denied⟩
  · obtain ⟨bat'', off'', durable'⟩ := durable.write_cut clear dynamic (by omega) run
    obtain rfl := Option.some.inj (intact.sound.cached.symm.trans durable'.sound.cached)
    refine ⟨⟨_, bat', off'', durable', fun b low => ?_⟩, room'⟩
    unfold overlay
    cases carried : payload c buf b with
    | some v => exact Layout.value_of_own (written b v (payload_inside carried).2 carried)
    | none =>
        rcases intact.evolves.value b with same | never
        · exact same.trans (values b low)
        · exact absurd (never.symm.trans carried) (by simp)
  · rcases denied with ⟨-, ⟨bat', cached, free⟩, ⟨off', tail, odd⟩ | ⟨len, never⟩⟩ | beyond
    · have some_ := mem_lacking (show c' < stop by omega) free
      have first := account _ bat' off' rfl cached tail 0 (Finset.card_pos.mpr ⟨_, some_⟩)
      rw [Nat.zero_mul] at first
      exact odd first
    · exact never
    · exact Faults.none_not_beyond beyond

theorem Durable.shows {log : List Attempt} (durable : Durable L log s bat off)
    (dynamic : L.footer.diskType = .dynamic) {held : Nat → UInt8}
    (values : ∀ b < L.virtualSize, L.value s.disk bat b = held b) :
    Shows s.disk L.virtualSize held := by
  intro wr how
  obtain ⟨fm, dataEnd, off', opens, -⟩ := durable.opens
  refine ⟨_, _, openAs_ideal (s := ⟨s.disk, none, none⟩) opens dynamic, rfl, fun o b inside => ?_⟩
  exact reads_as held opens.ready rfl
    (fun x low => (durable.sound.value_table x low).trans (values x low)) inside

theorem writesOn_dynamic (fm : Bool) (clear : Clear L) (dynamic : L.footer.diskType = .dynamic)
    (within : stop ≤ L.virtualSize) :
    WritesOn (.base (L.core () true fm)) stop (Growing L fm stop) where
  writable := by
    change (L.core () true fm).writable_ = true
    simp [Core.writable_, Layout.core, dynamic]
  write c held x buf growing inside := growing.write clear dynamic within inside
  shows c held x growing := by
    obtain ⟨⟨log, bat, off, durable, values⟩, -⟩ := growing
    exact durable.shows dynamic values

end Growth

end ImgVhd
