import ImgVhd.Session.Run
import ImgVhd.Writing.Packing

/-! # Room for every block

Where every block of an image has a place an entry can name, no write is refused.
A small new image is such.
-/

namespace ImgVhd

open Foundation

section Room

variable {L : Layout} {f : Faults} {s s' : Image} {bat seen : List Nat} {off offset : Nat} {buf : Bytes}

theorem Created.packed (created : Created L s off) : Packed L [] s (L.table s.disk) := by
  have image := created.image
  refine ⟨by rw [image]; rfl, L.length_table, fun j k there => (by cases there), fun k index _ => ?_, ?_⟩
  · have slot := Layout.getElem?_table (L := L) (d := s.disk) index
    rw [slot, created.empty _ (List.mem_of_getElem? slot)]
  · rw [created.dataStart, image]
    simp [Layout.opened]

/-- Where every block has room, growth is not refused and nothing else can fail, a
    call returns. -/
theorem Packed.returns {fm : Bool} {out : Outcome Error Unit} {t : List (Event (Op Unit) Op.Res)}
    (clear : Clear L) (dynamic : L.footer.diskType = .dynamic)
    (within : offset + buf.length ≤ L.virtualSize) (sound : Sound L s bat off)
    (aligned : off % 512 = 0) (rest : AtFooter L s.disk off) (packed : Packed L seen.eraseDups s bat)
    (nameable : ∀ n < L.entries, Nameable (L.dataStart + n * L.blockTotal))
    (grows : ∀ len, ¬ f.lost (.setLen len)) (never : ¬ f.Beyond)
    (run : Prog.Runs f.handler ((VhdReader.base (L.core () true fm)).writeAt offset buf) s t
      (.ret out) s') : out = .ok () := by
  rcases packed.call clear (trail_atFooter L) dynamic within sound ⟨aligned, Or.inl rest⟩ run with
    ⟨returned, -⟩ | ⟨e, -, c, x₀, h, more, account, denied⟩
  · exact returned
  · exact absurd denied (account.not_denied nameable (L.block_lt (by omega)) grows never)

theorem Created.roomy (created : Created L s off) (block : L.blockSize = 512) {n : Nat}
    (index : n < L.entries) : Nameable (L.dataStart + n * L.blockTotal) := by
  have total : L.blockTotal = 1024 := by
    rw [L.blockTotal_eq, block, show L.bitmapSize = bitmapSizeFor L.blockSize from rfl, block]
    decide
  have table : L.tableEnd = L.tableOffset + L.entries * 4 := rfl
  have behind := L.tableEnd_le_metadataEnd
  have top := L.metadataEnd_le_dataStart
  have near := created.near
  have aligned := created.rests.2.1
  rw [created.dataStart] at top ⊢
  rw [total]
  exact ⟨by omega, by unfold batUnallocated; omega⟩

/-- Sevens for two blocks of the small disk, as a list that stays folded. -/
theorem small_buffer : ∃ buf : Bytes, buf = List.replicate 700 7 ∧ buf.length = 700 :=
  ⟨_, rfl, List.length_replicate⟩

/-- The small disk takes a write across two of its blocks. -/
theorem small_written (length : buf.length = 700) : ∃ t₀ L s₁ off₀ t₁ s₂, Prog.Runs Faults.none.handler
    (createDynamic smallEnv [] 4096 512) ⟨.empty, none, none⟩ t₀
      (.ret (.ok (.base (L.core () true false)))) s₁ ∧
    Created L s₁ off₀ ∧ L.virtualSize = 34816 ∧ L.blockSize = 512 ∧
    Prog.Runs Faults.none.handler ((VhdReader.base (L.core () true false)).writeAt 300 buf) s₁ t₁
      (.ret (.ok ())) s₂ := by
  obtain ⟨t₀, r, s₁, create, size⟩ := small_created
  obtain ⟨L, off, created, rfl, block, -⟩ := createDynamic_created (by decide) create
  have virtual : L.virtualSize = 34816 := size
  obtain ⟨sound, aligned, rest⟩ := created.rests
  obtain ⟨t₁, run⟩ := Prog.run_runs idealStep (idealStep_allowed .none)
    ((VhdReader.base (L.core () true false)).writeAt 300 buf) s₁
  have packed : Packed L ([] : List Nat).eraseDups s₁ (L.table s₁.disk) := created.packed
  have returned := Packed.returns created.clear created.dynamic (by omega) sound aligned
    rest packed (fun n index => created.roomy block index) (fun _ lost => lost)
    Faults.none_not_beyond run
  rw [returned] at run
  exact ⟨t₀, L, s₁, off, t₁, _, create, created, virtual, block, run⟩

end Room

end ImgVhd
