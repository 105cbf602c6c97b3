import ImgVhd.Opening.Inner
import ImgVhd.Reading.Static
import ImgVhd.Writing.Sound

/-! # Closing and opening again

An open starts from a sound image, and a sound image opens again, by its tail or
by its mirror: the invariant of the writes and what an open demands meet here.
-/

namespace ImgVhd

open Foundation

namespace Faults

variable {f : Faults} {s : Image} {G : Image → Op Unit → Prop}

theorem sees (quiet : ∀ op : ImageOp, op.Quiet → G s (.on () op)) :
    Sees f.handler G () s s.disk f.Faulty where
  asksSize := quiet _ trivial
  size r s' stepped := by
    obtain ⟨same, rfl | ⟨_, refused⟩⟩ := handler_quiet .sizeBytes rfl stepped
    · exact ⟨rfl, same⟩
    · exact refused.elim
  asksRead _ _ := quiet _ trivial
  read off len r s' stepped := by
    obtain ⟨same, rfl | ⟨faulty, e, rfl⟩⟩ := handler_quiet (.readAt off len) rfl stepped
    · refine ⟨same, ?_⟩
      by_cases inside : off + len ≤ s.disk.size
      · exact Or.inl ⟨inside, congrArg Prod.fst (Image.step_readAt inside)⟩
      · exact Or.inr ⟨Or.inl (by omega), _, if_neg inside⟩
    · exact ⟨same, Or.inr ⟨Or.inr faulty, e, rfl⟩⟩

end Faults

section Reopen

variable {L : Layout} {f : Faults} {G : Image → Op Unit → Prop} {s : Image} {bat : List Nat}
  {off : Nat} {d : ByteStore}

theorem Ready.holds (ready : Ready L s) (cached : s.bat = some bat)
    (quiet : ∀ op : ImageOp, op.Quiet → G s (.on () op)) :
    Holds f.handler G L () s s.disk bat f.Faulty := by
  obtain ⟨bat', cached', length, roomy⟩ := ready.cached
  rw [cached] at cached'
  cases cached'
  refine ⟨length, fun e member => ?_, quiet _ trivial, fun r s' stepped => ?_,
    fun _ _ _ _ _ _ _ _ => quiet _ trivial, fun e member live at_ n low high r s' stepped => ?_⟩
  · by_cases live : e = batUnallocated
    · rw [live]
      decide
    · exact (roomy e member live).word
  · obtain ⟨same, rfl | ⟨_, refused⟩⟩ := Faults.handler_quiet .fetchBat rfl stepped
    · exact ⟨cached, same⟩
    · exact refused.elim
  · have room := (roomy e member live).room
    obtain ⟨same, rfl | ⟨faulty, refused⟩⟩ :=
      Faults.handler_quiet (.readAt at_ n) rfl stepped
    · exact ⟨same, Or.inl (congrArg Prod.fst (Image.step_readAt (by omega)))⟩
    · exact ⟨same, Or.inr ⟨faulty, refused⟩⟩

/-! ## What an open starts from -/

/-- What a reader holds right after its open. -/
def Layout.opened (L : Layout) (d : ByteStore) (off : Nat) : Image where
  disk := d
  bat := some (L.table d)
  nextAllocOff := some off

variable {fm : Bool} {dataEnd : Nat}

theorem Opens.dataEnd_le (opens : Opens d L fm dataEnd off) : dataEnd ≤ d.size := by
  rw [opens.stop]
  split <;> omega

theorem Opens.tail_le (opens : Opens d L fm dataEnd off) : off ≤ d.size := by
  have stop := opens.dataEnd_le
  rcases opens.tail.reached with here | ⟨-, e, member, live, here⟩
  · omega
  · have place := opens.placed e member live
    omega

theorem Opens.past (opens : Opens d L fm dataEnd off) {e : Nat} (member : e ∈ L.table d)
    (live : Live e) : hostOff e + L.blockTotal ≤ off := by
  cases fm with
  | true => exact opens.tail.past rfl e member live
  | false =>
      have place := opens.placed e member live
      have stop := opens.stop
      have least := opens.tail.least
      simp only [Bool.false_and, Bool.false_eq_true, if_false] at stop
      omega

theorem Opens.ready (opens : Opens d L fm dataEnd off) : Ready L (L.opened d off) := by
  refine ⟨⟨_, rfl, L.length_table, fun e member live => ⟨L.table_lt member, ?_⟩⟩, ⟨off, rfl⟩,
    opens.tableEnd⟩
  exact Nat.le_trans (opens.past member live) opens.tail_le

theorem Opens.sound (opens : Opens d L fm dataEnd off) (start : L.dataStart ≤ off) :
    Sound L (L.opened d off) (L.table d) off := by
  refine ⟨rfl, rfl, L.length_table, opens.header, fun _ _ entry _ => entry,
    fun i e free there live => ?_, fun e member live => ?_, opens.spread, start, opens.tail_le⟩
  · rw [show (L.opened d off).disk = d from rfl, free] at there
    exact absurd (Option.some.inj there).symm live
  · exact ⟨(opens.placed e member live).1, opens.past member live⟩

/-! ## A sound image opens -/

theorem Sound.own_table (sound : Sound L s bat off) (b : Nat) (inside : b < L.virtualSize) :
    L.own s.disk (L.table s.disk) b = L.own s.disk bat b := by
  have index := L.block_lt inside
  have slot : b / L.blockSize < bat.length := by rw [sound.length]; exact index
  have split := L.block_split b
  have whole := L.blockSize_mod
  have entry := List.getElem?_eq_getElem slot
  by_cases live : Live bat[b / L.blockSize]
  · have stored := sound.stored _ _ entry live
    exact Layout.own_congr (by rw [stored, entry]) fun _ _ _ _ _ => rfl
  · rw [Decidable.not_not.mp live] at entry
    rw [Layout.own_unallocated entry]
    have there := Layout.getElem?_table (L := L) (d := s.disk) index
    by_cases landed : Live (ofBe (s.disk.read (L.tableOffset + b / L.blockSize * 4) 4))
    · rw [Layout.own_allocated there landed,
        sound.blank _ _ entry there landed _ (by omega)]
      rfl
    · rw [Decidable.not_not.mp landed] at there
      exact Layout.own_unallocated there

theorem Sound.value_table (sound : Sound L s bat off) (b : Nat) (inside : b < L.virtualSize) :
    L.value s.disk (L.table s.disk) b = L.value s.disk bat b := by
  unfold Layout.value
  rw [sound.own_table b inside]

/-- A sound image opens by any footer that is its own, if its blocks end before
    the data area does. -/
theorem Sound.opens (sound : Sound L s bat off)
    (footer : FooterOf s.disk ⟨L.footer, L.footerBytes, fm, tailHasCookie s.disk⟩)
    (aligned : s.disk.size % 512 = 0)
    (stop : dataEnd =
      if (fm && !tailHasCookie s.disk) = true then s.disk.size else s.disk.size - footerSize)
    (within : off ≤ dataEnd) : ∃ off', Opens s.disk L fm dataEnd off' := by
  have top := sound.metadata_lt
  have room := sound.room
  have header := L.headerEnd_le_metadataEnd
  have table := L.tableEnd_le_metadataEnd
  obtain ⟨off', -, tail⟩ := recoveredTail_eq fm (s.disk.size - footerSize)
    (Nat.lt_trans L.blockTotal_lt (by decide))
    fun e (member : e ∈ L.table s.disk) => L.table_lt member
  refine ⟨off', footer, aligned, sound.header, by omega, by omega, stop, fun e member live => ?_,
    sound.spread, tail⟩
  have place := sound.placed e member live
  exact ⟨place.1, by omega⟩

theorem Sound.opens_tail (sound : Sound L s bat off) (aligned : s.disk.size % 512 = 0)
    (room : off + 512 ≤ s.disk.size) (tail : tailSector s.disk = L.footerBytes) :
    Opens s.disk L false (s.disk.size - footerSize) (s.disk.size - footerSize) := by
  have parses : Footer.parse (tailSector s.disk) = .ok L.footer := by rw [tail]; exact L.parses
  have footer : FooterOf s.disk ⟨L.footer, L.footerBytes, false, tailHasCookie s.disk⟩ := by
    rw [← tail]
    exact .tail parses
  obtain ⟨off', opens⟩ := sound.opens footer aligned rfl (by
    rw [Bool.false_and, if_neg Bool.false_ne_true]
    exact Nat.le_sub_of_add_le room)
  have reached := opens.tail.reached
  simp only [Bool.false_eq_true, false_and, or_false] at reached
  rw [reached] at opens
  exact opens

theorem Sound.opens_mirror (sound : Sound L s bat off) {err : Error}
    (aligned : s.disk.size % 512 = 0) (long : 1024 ≤ s.disk.size)
    (damaged : Footer.parse (tailSector s.disk) = .err err)
    (mirror : s.disk.read 0 512 = L.footerBytes)
    (within : off + 512 ≤ s.disk.size ∨ tailHasCookie s.disk = false) :
    ∃ dataEnd off', Opens s.disk L true dataEnd off' := by
  have footer : FooterOf s.disk ⟨L.footer, L.footerBytes, true, tailHasCookie s.disk⟩ := by
    rw [← mirror]
    exact .mirror damaged long (by rw [show footerSize = 512 from rfl, mirror]; exact L.parses)
      L.sparse
  refine ⟨_, sound.opens footer aligned rfl ?_⟩
  have room := sound.room
  rcases within with inside | absent
  · split
    · exact room
    · exact Nat.le_sub_of_add_le inside
  · rw [absent]
    exact room

end Reopen

end ImgVhd
