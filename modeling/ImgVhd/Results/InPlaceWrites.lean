import ImgVhd.Results.Space
import ImgVhd.Session.Answers
import ImgVhd.Session.Burst
import ImgVhd.Writing.InPlace

/-! # Writes into blocks that are there

On anybody's image, a call that reaches only allocated blocks returns, and its
payload is all that changes.
-/

namespace ImgVhd

open Foundation

/-- Every byte of the call is in a block the table has an entry for. -/
def Provided (hdr : DynamicHeader) (bat : List Nat) (offset : Nat) (buf : Bytes) : Prop :=
  ∀ b, offset ≤ b → b < offset + buf.length → bat[b / hdr.blockSize]? ≠ some batUnallocated

section InPlaceWrites

variable {L : Layout} {d : ByteStore} {fm : Bool} {dataEnd off offset : Nat} {s s₀ s₁ : Image}
  {buf : Bytes} {r : VhdReader Unit} {log : List Attempt}
  {t trace : List (Event (Op Unit) Op.Res)} {hdr : DynamicHeader} {bat : List Nat}

theorem backed_iff :
    Backed L (payload offset buf) bat ↔ Provided L.header bat offset buf := by
  constructor
  · exact fun backed b low high => backed _ (touches_payload.mpr ⟨b, low, high, rfl⟩)
  · intro provided i touched
    obtain ⟨b, low, high, rfl⟩ := touches_payload.mp touched
    exact provided b low high

theorem Burst.confined {f : Faults}
    (burst : Burst f (.base (L.core () true fm)) (L.opened d off) log trace s₁)
    (opens : Opens d L fm dataEnd off) (dynamic : L.footer.diskType = .dynamic)
    (provided : ∀ a ∈ log, a.offset + a.buf.length ≤ L.virtualSize →
      Provided L.header (L.table d) a.offset a.buf) : Confined L d off s₁ := by
  induction burst with
  | start => exact Confined.opened
  | @write log trace s' offset buf t out s'' before run ih =>
      have confined := ih fun a member => provided a (List.mem_cons_of_mem _ member)
      by_cases within : offset + buf.length ≤ L.virtualSize
      · exact (confined.call opens dynamic within
          (backed_iff.mpr (provided _ List.mem_cons_self within)) run).1.confined
      · obtain ⟨-, rfl, -⟩ := writeAt_runs dynamic (Or.inr (Nat.lt_of_not_le within)) run
        exact confined

/-- After any number of such calls, one more returns, the reader and every fresh
    reader see the payload over what was there, and no byte outside the blocks it
    reaches is touched. -/
theorem in_place_write_is_exact
    (opened : Prog.Runs Faults.none.handler (VhdReader.openRwOnDevice ()) s t (.ret (.ok r)) s₀)
    (dynamic : r.diskType = .dynamic) (sparse : r.core.dynamic = some hdr) (cached : s₀.bat = some bat)
    (burst : Burst .none r s₀ log trace s₁)
    (before : ∀ a ∈ log, a.offset + a.buf.length ≤ r.virtualSize → Provided hdr bat a.offset a.buf)
    (within : offset + buf.length ≤ r.virtualSize) (provided : Provided hdr bat offset buf) :
    ∃ (held : Nat → UInt8) (s₂ : Image), (r.writeAt offset buf).run idealStep s₁ = (.ok (), s₂) ∧
      (∀ o b, o + b.length ≤ r.virtualSize →
        (r.readAt o b).run idealStep s₁ =
          (.ok ((List.range b.length).map fun i => held (o + i)), s₁) ∧
        (r.readAt o b).run idealStep s₂ =
          (.ok ((List.range b.length).map fun i =>
            (payload offset buf (o + i)).getD (held (o + i))), s₂)) ∧
      (r.footerRecoveredFromMirror = false → ∀ wr how, ∃ u x,
        (openAs () wr how).run idealStep ⟨s₂.disk, none, none⟩ = (.ok u, x) ∧
        u.virtualSize = r.virtualSize ∧ ∀ o b, o + b.length ≤ r.virtualSize →
          (u.readAt o b).run idealStep x =
            (.ok ((List.range b.length).map fun i =>
              (payload offset buf (o + i)).getD (held (o + i))), x)) ∧
      s₂.disk.size = s₁.disk.size ∧
      ∀ y, (∀ b e : Nat, offset ≤ b → b < offset + buf.length → bat[b / hdr.blockSize]? = some e →
        ¬ (hostOff e ≤ y ∧ y < hostOff e + (r.core.bitmapSize + hdr.blockSize))) →
        s₂.disk.byte y = s₁.disk.byte y := by
  obtain ⟨L, fm, dataEnd, off, opens, kind, rfl, rfl⟩ :=
    (openRwOnDevice_opened opened).layout dynamic
  cases sparse
  cases cached
  have confined := burst.confined opens kind before
  obtain ⟨t', run⟩ := Prog.run_runs idealStep (idealStep_allowed .none)
    ((VhdReader.base (L.core () true fm)).writeAt offset buf) s₁
  obtain ⟨s₂, left⟩ : ∃ s₂, (Prog.run idealStep
    ((VhdReader.base (L.core () true fm)).writeAt offset buf) s₁).2 = s₂ := ⟨_, rfl⟩
  rw [left] at run
  obtain ⟨published, written, ended⟩ := confined.call opens kind within (backed_iff.mpr provided) run
  have returned := (ended _ rfl).resolve_right fun ⟨_, _, beyond⟩ => Faults.none_not_beyond beyond
  have confined₂ := published.confined
  have values (b : Nat) (inside : b < L.virtualSize) : L.value s₂.disk (L.table s.disk) b =
      (payload offset buf b).getD (L.value s₁.disk (L.table s.disk) b) := by
    cases carried : payload offset buf b with
    | some v => exact Layout.value_of_own (written (by rw [returned]; rfl) b v carried)
    | none =>
        rcases published.evolves.value b with same | never
        · exact same
        · exact absurd (never.symm.trans carried) (by simp)
  refine ⟨L.value s₁.disk (L.table s.disk), s₂, Prod.ext returned left, fun o b inside => ⟨?_, ?_⟩,
    fun tail wr how => ?_, confined₂.size.trans confined.size.symm, fun y clear => ?_⟩
  · exact reads_as _ (confined.ready opens) confined.cached (fun _ _ => rfl) inside
  · exact reads_as _ (confined₂.ready opens) confined₂.cached values inside
  · obtain rfl : fm = false := tail
    have again := confined₂.opens opens
    refine ⟨_, _, openAs_ideal (s := ⟨s₂.disk, none, none⟩) again kind, rfl, fun o b inside => ?_⟩
    refine reads_as (fun v => (payload offset buf v).getD (L.value s₁.disk (L.table s.disk) v))
      again.ready rfl (fun v lt => ?_) inside
    show L.value s₂.disk (L.table s₂.disk) v = _
    rw [confined₂.table opens]
    exact values v lt
  · refine published.outside y fun i e touched entry live => ?_
    obtain ⟨b, low, high, rfl⟩ := touches_payload.mp touched
    exact clear b e low high entry

/-- Twenty bytes over part of what the small disk was given, after it was opened
    again. -/
theorem small_disk_is_rewritten : ∃ (r : VhdReader Unit) (s₀ s₂ : Image) (buf : Bytes)
    (held : Nat → UInt8), buf.length = 20 ∧ (r.writeAt 310 buf).run idealStep s₀ = (.ok (), s₂) ∧
    ∀ o b, o + b.length ≤ r.virtualSize → (r.readAt o b).run idealStep s₂ =
      (.ok ((List.range b.length).map fun i => (payload 310 buf (o + i)).getD (held (o + i))), s₂) := by
  obtain ⟨first, length⟩ : ∃ first : Bytes, first.length = 700 :=
    ⟨List.replicate 700 7, List.length_replicate⟩
  obtain ⟨-, L, -, -, -, s, bat, off, -, -, -, given⟩ := small_filled length
  have size := given.size
  -- the table of the opened image has an entry for the first block
  have provided : Provided L.header (L.table s.disk) 310 (List.replicate 20 (7 : UInt8)) := by
    intro b low high free
    rw [List.length_replicate] at high
    rw [show L.header.blockSize = 512 from given.block, show b / 512 = 0 by omega] at free
    exact (given.reopened.packed.live_iff free).mpr List.mem_cons_self rfl
  obtain ⟨t, opened⟩ := reopen_runs .none none (s := ⟨s.disk, none, none⟩) given.order.opens given.dynamic
  obtain ⟨buf, filled, length'⟩ : ∃ buf : Bytes, buf = List.replicate 20 7 ∧ buf.length = 20 :=
    ⟨_, rfl, List.length_replicate⟩
  rw [← filled] at provided
  obtain ⟨held, s₂, wrote, reads, -⟩ := in_place_write_is_exact opened given.dynamic rfl rfl .start
    (fun a member => by cases member) (show 310 + buf.length ≤ L.virtualSize by omega) provided
  exact ⟨_, _, s₂, buf, held, length', wrote, fun o b inside => (reads o b inside).2⟩

end InPlaceWrites

end ImgVhd
