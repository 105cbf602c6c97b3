import ImgVhd.Writing.Call
import ImgVhd.Opening.Walk

/-! # What every write keeps

`Sound` relates the cached table, the table on the device, the blocks and the
tail, at any point of any write, with any operation lost or landed although it
failed. A table entry that reached the device without being cached names a blank
block, so it reads as the hole it replaced. `Evolves` is what a step can do to
what the image holds: a virtual byte keeps its value or takes the payload's.
-/

namespace ImgVhd

open Foundation

/-- The table shares no byte with the footer mirror or the dynamic header. -/
structure Clear (L : Layout) : Prop where
  mirror : ∀ x, L.tableOffset ≤ x → x < L.tableEnd → 512 ≤ x
  header : ∀ x, L.tableOffset ≤ x → x < L.tableEnd → ¬ (L.headerOffset ≤ x ∧ x < L.headerEnd)

/-- Entry `i` of the table shares no byte with the footer mirror or the dynamic
    header. -/
def EntryClear (L : Layout) (i : Nat) : Prop :=
  ∀ x, L.tableOffset + i * 4 ≤ x → x < L.tableOffset + i * 4 + 4 →
    512 ≤ x ∧ ¬ (L.headerOffset ≤ x ∧ x < L.headerEnd)

/-- If an entry goes out next, it is clear. -/
def ClearNext (L : Layout) (pay : Nat → Option UInt8) (x : Image × History) : Prop :=
  ∀ i off r h', x.2 = ⟨.on () (.setNextAllocOff off), r⟩ :: h' → Wanted L pay x.1 i → EntryClear L i

theorem Clear.entry {L : Layout} {i : Nat} (clear : Clear L) (index : i < L.entries) :
    EntryClear L i := by
  intro y low high
  have stop : L.tableEnd = L.tableOffset + L.entries * 4 := rfl
  exact ⟨clear.mirror y (by omega) (by omega), clear.header y (by omega) (by omega)⟩

theorem Clear.next {L : Layout} {pay : Nat → Option UInt8} {x : Image × History} (clear : Clear L) :
    ClearNext L pay x :=
  fun _ _ _ _ _ wanted => clear.entry wanted.index

/-- No bit of the block at `e` is set. -/
def Blank (L : Layout) (d : ByteStore) (e : Nat) : Prop :=
  ∀ n < L.blockSize / 512, bitAt d (hostOff e) n = false

structure Sound (L : Layout) (s : Image) (bat : List Nat) (off : Nat) : Prop where
  cached : s.bat = some bat
  tail : s.nextAllocOff = some off
  length : bat.length = L.entries
  header : DynamicHeader.parse (s.disk.read L.headerOffset dynHeaderSize) = .ok L.header
  /-- What is cached is on the device. -/
  stored : ∀ i e : Nat, bat[i]? = some e → Live e → (L.table s.disk)[i]? = some e
  /-- What is only on the device is blank. -/
  blank : ∀ i e : Nat, bat[i]? = some batUnallocated → (L.table s.disk)[i]? = some e → Live e →
    Blank L s.disk e
  placed : Placed L.dataStart off L.blockTotal (L.table s.disk)
  spread : Spread hostOff Live L.blockTotal (L.table s.disk)
  start : L.dataStart ≤ off
  room : off ≤ s.disk.size

/-- The block between a tail that has just moved and its old value belongs to no
    entry yet. -/
def Committed (L : Layout) (s : Image) (h : History) (off : Nat) : Prop :=
  ∀ r h', h = ⟨.on () (.setNextAllocOff off), r⟩ :: h' →
    ∃ start, off = start + L.blockTotal ∧ L.dataStart ≤ start ∧
      ∀ e ∈ L.table s.disk, Live e → hostOff e + L.blockTotal ≤ start

/-- The payload puts `v` at virtual byte `b`. -/
def Carries (pay : Nat → Option UInt8) (b : Nat) (v : UInt8) : Prop := pay b = some v

/-- What the image holds, before and after steps of writes that carry `W`. -/
structure Evolves (L : Layout) (W : Nat → UInt8 → Prop) (s s' : Image) (bat bat' : List Nat) :
    Prop where
  entry : ∀ k e : Nat, bat[k]? = some e → Live e → bat'[k]? = some e
  bit : ∀ k e n : Nat, bat[k]? = some e → Live e → n < L.blockSize / 512 →
    bitAt s.disk (hostOff e) n = true → bitAt s'.disk (hostOff e) n = true
  value : ∀ b, L.value s'.disk bat' b = L.value s.disk bat b ∨ W b (L.value s'.disk bat' b)
  mirror : ∀ x < 512, s'.disk.byte x = s.disk.byte x
  size : s.disk.size ≤ s'.disk.size

section Sound

variable {L : Layout} {pay : Nat → Option UInt8} {W : Nat → UInt8 → Prop} {s : Image}
  {bat : List Nat} {off : Nat}

theorem Evolves.refl : Evolves L W s s bat bat :=
  ⟨fun _ _ entry _ => entry, fun _ _ _ _ _ _ bit => bit, fun _ => Or.inl rfl, fun _ _ => rfl,
    Nat.le_refl _⟩

theorem Evolves.trans {s' s'' : Image} {bat' bat'' : List Nat}
    (first : Evolves L W s s' bat bat') (then_ : Evolves L W s' s'' bat' bat'') :
    Evolves L W s s'' bat bat'' := by
  refine ⟨fun k e entry live => then_.entry k e (first.entry k e entry live) live,
    fun k e n entry live sector bit => then_.bit k e n (first.entry k e entry live) live sector
      (first.bit k e n entry live sector bit),
    fun b => ?_, fun x lt => (then_.mirror x lt).trans (first.mirror x lt),
    Nat.le_trans first.size then_.size⟩
  rcases then_.value b with same | carried
  · rw [same]
    exact first.value b
  · exact Or.inr carried

theorem Evolves.mono {W' : Nat → UInt8 → Prop} {s' : Image} {bat' : List Nat}
    (evolves : Evolves L W s s' bat bat') (wider : ∀ b v, W b v → W' b v) :
    Evolves L W' s s' bat bat' :=
  { evolves with value := fun b => (evolves.value b).imp_right (wider b _) }

theorem Evolves.own {s' : Image} {bat' : List Nat} {b : Nat} {v : UInt8}
    (evolves : Evolves L W s s' bat bat') (held : L.own s.disk bat b = some v) :
    ∃ v', L.own s'.disk bat' b = some v' ∧ (v' = v ∨ W b v') := by
  obtain ⟨e, entry, live, bit, _⟩ := Layout.own_eq_some.mp held
  have inBlock : b % L.blockSize < L.blockSize := Nat.mod_lt _ L.blockSize_pos
  have whole := L.blockSize_mod
  have still := evolves.bit _ e _ entry live (by omega) bit
  have now : L.own s'.disk bat' b =
      some (s'.disk.byte (hostOff e + L.bitmapSize + b % L.blockSize)) :=
    Layout.own_eq_some.mpr ⟨e, evolves.entry _ e entry live, live, still, rfl⟩
  have value := evolves.value b
  rw [Layout.value_of_own held, Layout.value_of_own now] at value
  exact ⟨_, now, value⟩

theorem Evolves.own_same {s' : Image} {bat' : List Nat} {b : Nat} {v : UInt8}
    (evolves : Evolves L W s s' bat bat') (held : L.own s.disk bat b = some v)
    (agrees : ∀ u, W b u → u = v) : L.own s'.disk bat' b = some v := by
  obtain ⟨v', now, rfl | carried⟩ := evolves.own held
  · exact now
  · rw [← agrees _ carried]
    exact now

/-! ## Where things are -/

theorem Sound.live_slot (sound : Sound L s bat off) {i e : Nat} (entry : bat[i]? = some e)
    (live : Live e) : L.dataStart ≤ hostOff e ∧ hostOff e + L.blockTotal ≤ off :=
  sound.placed e (List.mem_of_getElem? (sound.stored i e entry live)) live

theorem Sound.metadata_lt (sound : Sound L s bat off) : L.metadataEnd ≤ off :=
  Nat.le_trans L.metadataEnd_le_dataStart sound.start

theorem Sound.ready (sound : Sound L s bat off) : Ready L s := by
  refine ⟨⟨bat, sound.cached, sound.length, fun e member live => ?_⟩, ⟨off, sound.tail⟩, ?_⟩
  · obtain ⟨i, lt, rfl⟩ := List.getElem_of_mem member
    have slot := List.getElem?_eq_getElem lt
    have room := sound.room
    have within := sound.live_slot slot live
    exact ⟨L.table_lt (List.mem_of_getElem? (sound.stored i _ slot live)), by omega⟩
  · have room := sound.room
    have top := sound.metadata_lt
    have table := L.tableEnd_le_metadataEnd
    omega

/-! ## Changes of the bytes alone -/

theorem Sound.disk (sound : Sound L s bat off) {d : ByteStore} (room : off ≤ d.size)
    (header : ∀ x, L.headerOffset ≤ x → x < L.headerEnd → d.byte x = s.disk.byte x)
    (table : ∀ x, L.tableOffset ≤ x → x < L.tableEnd → d.byte x = s.disk.byte x)
    (blank : ∀ i e : Nat, bat[i]? = some batUnallocated → (L.table s.disk)[i]? = some e → Live e →
      Blank L s.disk e → Blank L d e) :
    Sound L { s with disk := d } bat off := by
  have same : L.table d = L.table s.disk := Layout.table_congr table
  have parsed : d.read L.headerOffset dynHeaderSize = s.disk.read L.headerOffset dynHeaderSize :=
    ByteStore.read_congr fun i lt => header _ (Nat.le_add_right _ _)
      (Nat.add_lt_add_left lt _)
  refine ⟨sound.cached, sound.tail, sound.length, ?_, ?_, ?_, ?_, ?_, sound.start, room⟩
  · simp only [parsed, sound.header]
  · simp only [same]
    exact sound.stored
  · simp only [same]
    exact fun i e free there live => blank i e free there live (sound.blank i e free there live)
  · simp only [same]
    exact sound.placed
  · simp only [same]
    exact sound.spread

theorem blank_congr {d d' : ByteStore} {e : Nat}
    (same : ∀ j < L.blockTotal, d'.byte (hostOff e + j) = d.byte (hostOff e + j))
    (blank : Blank L d e) : Blank L d' e := by
  intro n sector
  have covers := L.bitmapSize_covers
  have total := L.blockTotal_eq
  have small := L.bitmapSize_le
  unfold bitAt
  rw [same _ (by omega)]
  exact blank n sector

/-- Writing at or past the tail changes nothing that is in use. -/
theorem Sound.past_tail (sound : Sound L s bat off) {d : ByteStore} (grown : s.disk.size ≤ d.size)
    (below : ∀ x < off, d.byte x = s.disk.byte x) :
    Sound L { s with disk := d } bat off ∧ Evolves L (Carries pay) s { s with disk := d } bat bat := by
  have top := sound.metadata_lt
  have footer := L.footer_le_metadataEnd
  have header := L.headerEnd_le_metadataEnd
  have table := L.tableEnd_le_metadataEnd
  have inBlock (e : Nat) (member : e ∈ L.table s.disk) (live : Live e) (j : Nat)
      (lt : j < L.blockTotal) : d.byte (hostOff e + j) = s.disk.byte (hostOff e + j) := by
    have place := sound.placed e member live
    exact below _ (by omega)
  constructor
  · refine sound.disk (Nat.le_trans sound.room grown) (fun x _ lt => below x (by omega))
      (fun x _ lt => below x (by omega)) fun i e _ there live blank => ?_
    exact blank_congr (fun j lt => inBlock e (List.mem_of_getElem? there) live j lt) blank
  · refine ⟨fun _ _ entry _ => entry, fun k e n entry live sector bit => ?_, fun b => Or.inl ?_,
      fun x lt => below x (by omega), grown⟩
    · have covers := L.bitmapSize_covers
      have total := L.blockTotal_eq
      unfold bitAt at bit ⊢
      rw [inBlock e (List.mem_of_getElem? (sound.stored k e entry live)) live _ (by omega)]
      exact bit
    · unfold Layout.value
      rw [Layout.own_congr rfl fun e entry live j lt =>
        inBlock e (List.mem_of_getElem? (sound.stored _ e entry live)) live j lt]

/-- Writing inside the block of a cached entry changes no other block and no
    metadata; what it does to its own block is `own`. -/
theorem Sound.in_block (sound : Sound L s bat off) {d : ByteStore} {i e : Nat}
    (entry : bat[i]? = some e) (live : Live e) (size : d.size = s.disk.size)
    (outside : ∀ x, ¬ (hostOff e ≤ x ∧ x < hostOff e + L.blockTotal) → d.byte x = s.disk.byte x)
    (bits : ∀ n < L.blockSize / 512, bitAt s.disk (hostOff e) n = true →
      bitAt d (hostOff e) n = true)
    (own : ∀ b, b / L.blockSize = i → L.value d bat b = L.value s.disk bat b ∨
      pay b = some (L.value d bat b)) :
    Sound L { s with disk := d } bat off ∧ Evolves L (Carries pay) s { s with disk := d } bat bat := by
  have top := L.metadataEnd_le_dataStart
  have footer := L.footer_le_metadataEnd
  have header := L.headerEnd_le_metadataEnd
  have table := L.tableEnd_le_metadataEnd
  have place := sound.live_slot entry live
  have here := sound.stored i e entry live
  have other (k e' : Nat) (different : k ≠ i) (there : (L.table s.disk)[k]? = some e')
      (live' : Live e') (j : Nat) (lt : j < L.blockTotal) :
      d.byte (hostOff e' + j) = s.disk.byte (hostOff e' + j) :=
    outside _ ((sound.spread k i e' e different there here live' live).not_both (by omega))
  constructor
  · refine sound.disk (by rw [size]; exact sound.room) (fun x _ lt => outside x (by omega))
      (fun x _ lt => outside x (by omega)) fun k e' free there live' blank => ?_
    have different : k ≠ i := by
      rintro rfl
      rw [entry] at free
      exact live (Option.some.inj free)
    exact blank_congr (other k e' different there live') blank
  · refine ⟨fun _ _ entry _ => entry, fun k e' n entry' live' sector bit => ?_, fun b => ?_,
      fun x lt => outside x (by omega), Nat.le_of_eq size.symm⟩
    · by_cases same : k = i
      · subst same
        rw [entry] at entry'
        cases entry'
        exact bits n sector bit
      · have covers := L.bitmapSize_covers
        have total := L.blockTotal_eq
        unfold bitAt at bit ⊢
        rw [other k e' same (sound.stored k e' entry' live') live' _ (by omega)]
        exact bit
    · by_cases same : b / L.blockSize = i
      · exact own b same
      · refine Or.inl ?_
        unfold Layout.value
        rw [Layout.own_congr rfl fun e' entry' live' j lt =>
          other _ e' same (sound.stored _ e' entry' live') live' j lt]

/-! ## One step -/

theorem committed_other {h : History} {op : ImageOp} {r : op.Res}
    (other : ∀ v, op ≠ .setNextAllocOff v) : Committed L s (⟨.on () op, r⟩ :: h) off := by
  intro r' h' same
  injection same with event _
  injection event with op_
  injection op_ with _ op_
  exact absurd op_ (other _)

theorem Sound.fill_step (sound : Sound L s bat off) {i e n p len : Nat}
    (entry : bat[i]? = some e) (live : Live e) (sector : n < L.blockSize / 512)
    (absent : bitAt s.disk (hostOff e) n = false) (low : n * 512 ≤ p)
    (high : p + len ≤ n * 512 + 512) :
    Sound L { s with disk := s.disk.write (hostOff e + L.bitmapSize + p) (List.replicate len 0) }
      bat off ∧
    Evolves L (Carries pay) s
      { s with disk := s.disk.write (hostOff e + L.bitmapSize + p) (List.replicate len 0) }
      bat bat := by
  have total := L.blockTotal_eq
  have whole := L.blockSize_mod
  have covers := L.bitmapSize_covers
  have bits (m : Nat) (lt : m < L.blockSize / 512) :
      bitAt (s.disk.write (hostOff e + L.bitmapSize + p) (List.replicate len 0)) (hostOff e) m =
        bitAt s.disk (hostOff e) m := by
    unfold bitAt
    rw [ByteStore.byte_write_outside (Or.inl (by omega))]
  refine sound.in_block entry live rfl (fun x out => ByteStore.byte_write_outside ?_)
    (fun m lt set_ => (bits m lt).trans set_) fun b here => Or.inl ?_
  · rw [List.length_replicate]
    omega
  · have split := L.block_split b
    subst here
    rw [Layout.value_allocated entry live, Layout.value_allocated entry live, bits _ (by omega)]
    split
    · rename_i there
      have other : b % L.blockSize / 512 ≠ n := by
        rintro rfl
        rw [absent] at there
        cases there
      refine ByteStore.byte_write_outside ?_
      rw [List.length_replicate]
      omega
    · rfl

theorem Sound.payload_step (sound : Sound L s bat off) {i e p : Nat} {src : Bytes}
    (entry : bat[i]? = some e) (live : Live e) (inside : p + src.length ≤ L.blockSize)
    (carries : ∀ j (lt : j < src.length), pay (i * L.blockSize + p + j) = some src[j]) :
    Sound L { s with disk := s.disk.write (hostOff e + L.bitmapSize + p) src } bat off ∧
    Evolves L (Carries pay) s { s with disk := s.disk.write (hostOff e + L.bitmapSize + p) src } bat bat := by
  have total := L.blockTotal_eq
  have whole := L.blockSize_mod
  have covers := L.bitmapSize_covers
  have place := sound.live_slot entry live
  have room := sound.room
  have bits (m : Nat) (lt : m < L.blockSize / 512) :
      bitAt (s.disk.write (hostOff e + L.bitmapSize + p) src) (hostOff e) m =
        bitAt s.disk (hostOff e) m := by
    unfold bitAt
    rw [ByteStore.byte_write_outside (Or.inl (by omega))]
  refine sound.in_block entry live rfl (fun x out => ByteStore.byte_write_outside (by omega))
    (fun m lt set_ => (bits m lt).trans set_) fun b here => ?_
  have split := L.block_split b
  subst here
  rw [Layout.value_allocated entry live, Layout.value_allocated entry live, bits _ (by omega)]
  split
  · by_cases covered : p ≤ b % L.blockSize ∧ b % L.blockSize < p + src.length
    · refine Or.inr ?_
      have carried := carries (b % L.blockSize - p) (by omega)
      have at_ : b / L.blockSize * L.blockSize + p + (b % L.blockSize - p) = b := by omega
      rw [at_] at carried
      rw [ByteStore.byte_write_inside (by omega) (by omega) (by omega),
        List.getD_eq_getElem _ _ (by omega), carried]
      congr 2
      omega
    · exact Or.inl (ByteStore.byte_write_outside (by omega))
  · exact Or.inl rfl

theorem Sound.bitmap_step (sound : Sound L s bat off) {i e : Nat} {bits : Bytes}
    (entry : bat[i]? = some e) (live : Live e) (length : bits.length = L.bitmapSize)
    (kept : ∀ n < L.blockSize / 512, bitAt s.disk (hostOff e) n = true → present bits n = true)
    (defined : ∀ n < L.blockSize / 512, present bits n = true →
      bitAt s.disk (hostOff e) n = false → ∀ j < 512,
        s.disk.byte (hostOff e + L.bitmapSize + (n * 512 + j)) = 0 ∨
        pay (i * L.blockSize + (n * 512 + j)) =
          some (s.disk.byte (hostOff e + L.bitmapSize + (n * 512 + j)))) :
    Sound L { s with disk := s.disk.write (hostOff e) bits } bat off ∧
    Evolves L (Carries pay) s { s with disk := s.disk.write (hostOff e) bits } bat bat := by
  have total := L.blockTotal_eq
  have whole := L.blockSize_mod
  have covers := L.bitmapSize_covers
  have place := sound.live_slot entry live
  have room := sound.room
  have back := ByteStore.read_write_same s.disk (hostOff e) bits (by omega)
  rw [length] at back
  have now (m : Nat) (lt : m < L.blockSize / 512) :
      bitAt (s.disk.write (hostOff e) bits) (hostOff e) m = present bits m := by
    rw [← present_read L.bitmapSize (by omega), back]
  have data (x : Nat) (above : hostOff e + L.bitmapSize ≤ x) :
      (s.disk.write (hostOff e) bits).byte x = s.disk.byte x :=
    ByteStore.byte_write_outside (Or.inr (by omega))
  refine sound.in_block entry live rfl (fun x out => ByteStore.byte_write_outside (by omega))
    (fun m lt set_ => (now m lt).trans (kept m lt set_)) fun b here => ?_
  have split := L.block_split b
  subst here
  have sector : b % L.blockSize / 512 < L.blockSize / 512 := by omega
  rw [Layout.value_allocated entry live, Layout.value_allocated entry live, now _ sector,
    data _ (by omega)]
  cases before : bitAt s.disk (hostOff e) (b % L.blockSize / 512) with
  | true =>
      rw [kept _ sector before]
      exact Or.inl rfl
  | false =>
      cases after : present bits (b % L.blockSize / 512) with
      | false => exact Or.inl rfl
      | true =>
          have at_ := defined _ sector after before (b % L.blockSize % 512) (by omega)
          rw [show b % L.blockSize / 512 * 512 + b % L.blockSize % 512 = b % L.blockSize by omega,
            split.1] at at_
          simp only [if_true, Bool.false_eq_true, if_false]
          exact at_

/-- The entry of a fresh block reaches the device. -/
theorem Sound.entry_step (sound : Sound L s bat off) {i start : Nat} (clear : EntryClear L i)
    (free : bat[i]? = some batUnallocated) (index : i < L.entries) (nameable : Nameable start)
    (tail : off = start + L.blockTotal) (low : L.dataStart ≤ start)
    (below : ∀ e ∈ L.table s.disk, Live e → hostOff e + L.blockTotal ≤ start)
    (fresh : Fresh L s start) :
    Sound L { s with disk := s.disk.write (L.tableOffset + i * 4) (toBe 4 (start / 512)) } bat off ∧
    Evolves L (Carries pay) s
      { s with disk := s.disk.write (L.tableOffset + i * 4) (toBe 4 (start / 512)) } bat bat := by
  have named := nameable.hostOff
  have word := nameable.below
  have top := L.metadataEnd_le_dataStart
  have header := L.headerEnd_le_metadataEnd
  have tableTop := L.tableEnd_le_metadataEnd
  have stop : L.tableEnd = L.tableOffset + L.entries * 4 := rfl
  have room := sound.room
  have outside (x : Nat) (out : x < L.tableOffset ∨ L.tableEnd ≤ x) :
      (s.disk.write (L.tableOffset + i * 4) (toBe 4 (start / 512))).byte x = s.disk.byte x :=
    ByteStore.byte_write_outside (by rw [length_toBe]; omega)
  have table := Layout.table_write_entry (d := s.disk) (v := start / 512) index (by omega)
    (by unfold batUnallocated at word; omega)
  have inBlock (e : Nat) (member : e ∈ L.table s.disk) (live : Live e) (j : Nat)
      (_ : j < L.blockTotal) :
      (s.disk.write (L.tableOffset + i * 4) (toBe 4 (start / 512))).byte (hostOff e + j) =
        s.disk.byte (hostOff e + j) := by
    have place := sound.placed e member live
    exact outside _ (Or.inr (by omega))
  have parsed : (s.disk.write (L.tableOffset + i * 4) (toBe 4 (start / 512))).read L.headerOffset
      dynHeaderSize = s.disk.read L.headerOffset dynHeaderSize := by
    refine ByteStore.read_congr fun j lt => ByteStore.byte_write_outside ?_
    have apart := clear (L.headerOffset + j)
    have within : L.headerOffset + j < L.headerEnd := Nat.add_lt_add_left lt _
    rw [length_toBe]
    omega
  constructor
  · refine ⟨sound.cached, sound.tail, sound.length, ?_, ?_, ?_, ?_, ?_, sound.start, room⟩
    · simp only [parsed, sound.header]
    · intro k e entry live
      have different : i ≠ k := by
        rintro rfl
        rw [free] at entry
        exact live (Option.some.inj entry).symm
      simp only [table]
      rw [List.getElem?_set_ne different]
      exact sound.stored k e entry live
    · intro k e free' there live
      simp only [table] at there
      by_cases same : i = k
      · subst same
        rw [List.getElem?_set_self (by rw [Layout.length_table]; exact index)] at there
        cases there
        intro n sector
        have covers := L.bitmapSize_covers
        have total := L.blockTotal_eq
        have small := L.bitmapSize_le
        unfold bitAt
        rw [named, outside _ (Or.inr (by omega)), fresh.zeros _ (by omega), bitOf_zero]
      · rw [List.getElem?_set_ne same] at there
        exact blank_congr (inBlock e (List.mem_of_getElem? there) live)
          (sound.blank k e free' there live)
    · intro e member live
      simp only [table] at member
      rcases List.mem_or_eq_of_mem_set member with old | rfl
      · exact sound.placed e old live
      · rw [named]
        omega
    · simp only [table]
      refine sound.spread.set fun k e _ there live => ?_
      rw [named]
      exact Or.inr (below e (List.mem_of_getElem? there) live)
  · refine ⟨fun _ _ entry _ => entry, fun k e n entry live sector bit => ?_, fun b => Or.inl ?_,
      fun x lt => ByteStore.byte_write_outside ?_, Nat.le_refl _⟩
    · have covers := L.bitmapSize_covers
      have total := L.blockTotal_eq
      unfold bitAt at bit ⊢
      rw [inBlock e (List.mem_of_getElem? (sound.stored k e entry live)) live _ (by omega)]
      exact bit
    · unfold Layout.value
      rw [Layout.own_congr rfl fun e entry live j lt =>
        inBlock e (List.mem_of_getElem? (sound.stored _ e entry live)) live j lt]
    · have apart := clear x
      rw [length_toBe]
      omega

/-- The entry of a block whose entry is on the device is cached. -/
theorem Sound.publish_step (sound : Sound L s bat off) {i v : Nat}
    (free : bat[i]? = some batUnallocated) (index : i < L.entries) (live : Live v)
    (stored : (L.table s.disk)[i]? = some v) :
    Sound L { s with bat := some (bat.set i v) } (bat.set i v) off ∧
    Evolves L (Carries pay) s { s with bat := some (bat.set i v) } bat (bat.set i v) := by
  have slot : i < bat.length := by rw [sound.length]; exact index
  have blank := sound.blank i v free stored live
  constructor
  · refine ⟨rfl, sound.tail, by rw [List.length_set]; exact sound.length, sound.header, ?_, ?_,
      sound.placed, sound.spread, sound.start, sound.room⟩
    · intro k e entry live'
      by_cases same : i = k
      · subst same
        rw [List.getElem?_set_self slot] at entry
        cases entry
        exact stored
      · rw [List.getElem?_set_ne same] at entry
        exact sound.stored k e entry live'
    · intro k e free' there live'
      by_cases same : i = k
      · subst same
        rw [List.getElem?_set_self slot] at free'
        exact absurd (Option.some.inj free') live
      · rw [List.getElem?_set_ne same] at free'
        exact sound.blank k e free' there live'
  · have others (k : Nat) (different : k ≠ i) : (bat.set i v)[k]? = bat[k]? :=
      List.getElem?_set_ne (Ne.symm different)
    refine ⟨fun k e entry live' => ?_, fun k e n _ _ _ bit => bit, fun b => Or.inl ?_,
      fun _ _ => rfl, Nat.le_refl _⟩
    · by_cases same : k = i
      · subst same
        rw [free] at entry
        exact absurd (Option.some.inj entry).symm live'
      · rw [others k same]
        exact entry
    · by_cases same : b / L.blockSize = i
      · have split := L.block_split b
        have whole := L.blockSize_mod
        subst same
        rw [Layout.value_unallocated free,
          Layout.value_allocated (List.getElem?_set_self slot) live, blank _ (by omega)]
        rfl
      · unfold Layout.value
        rw [Layout.own_congr (others _ same) fun _ _ _ _ _ => rfl]

theorem Sound.of_wanted {i : Nat} (sound : Sound L s bat off) (wanted : Wanted L pay s i) :
    bat[i]? = some batUnallocated := by
  obtain ⟨bat', cached, free⟩ := wanted.free
  rw [sound.cached] at cached
  cases cached
  exact free

theorem Sound.of_named {i e : Nat} (sound : Sound L s bat off) (named : Named L pay s i e) :
    bat[i]? = some e := by
  obtain ⟨bat', cached, entry⟩ := named.entry
  rw [sound.cached] at cached
  cases cached
  exact entry

theorem Sound.at_tail {off' : Nat} (sound : Sound L s bat off) (tail : s.nextAllocOff = some off') :
    off' = off := by
  rw [sound.tail] at tail
  exact (Option.some.inj tail).symm

theorem Sound.commit_step (sound : Sound L s bat off) (pay : Nat → Option UInt8)
    (room : off + L.blockTotal ≤ s.disk.size) :
    Sound L { s with nextAllocOff := some (off + L.blockTotal) } bat (off + L.blockTotal) ∧
    Evolves L (Carries pay) s { s with nextAllocOff := some (off + L.blockTotal) } bat bat := by
  refine ⟨⟨sound.cached, rfl, sound.length, sound.header, sound.stored, sound.blank,
    fun e member live => ?_, sound.spread, Nat.le_trans sound.start (Nat.le_add_right _ _), room⟩,
    fun _ _ entry _ => entry, fun _ _ _ _ _ _ bit => bit, fun _ => Or.inl rfl, fun _ _ => rfl,
    Nat.le_refl _⟩
  have place := sound.placed e member live
  exact ⟨place.1, by omega⟩

/-- What one operation of a write keeps. -/
structure Kept (L : Layout) (pay : Nat → Option UInt8) (s : Image) (bat : List Nat) (off : Nat)
    (x : Image × History) (bat' : List Nat) (off' : Nat) : Prop where
  sound : Sound L x.1 bat' off'
  committed : Committed L x.1 x.2 off'
  evolves : Evolves L (Carries pay) s x.1 bat bat'
  tail : off ≤ off'

/-- An operation of a write, taking effect. -/
theorem Sound.step {h : History} {op : ImageOp} (clear : ClearNext L pay (s, h))
    (sound : Sound L s bat off) (committed : Committed L s h off) (permitted : Permitted L pay (s, h) op) (r : op.Res) :
    ∃ bat' off', Kept L pay s bat off ((s.step op).2, ⟨.on () op, r⟩ :: h) bat' off' := by
  have room := sound.room
  have total := L.blockTotal_eq
  have small := L.blockTotal_lt
  -- every step but the one that moves the tail
  have same {s' : Image} (bat' : List Nat) (step : (s.step op).2 = s')
      (other : ∀ v, op ≠ .setNextAllocOff v)
      (kept : Sound L s' bat' off ∧ Evolves L (Carries pay) s s' bat bat') :
      ∃ bat' off', Kept L pay s bat off ((s.step op).2, ⟨.on () op, r⟩ :: h) bat' off' :=
    ⟨bat', off, by rw [step]; exact kept.1, committed_other other, by rw [step]; exact kept.2,
      Nat.le_refl _⟩
  cases permitted with
  | look quiet =>
      refine same bat (quiet_step quiet) ?_ ⟨sound, .refl⟩
      rintro v rfl
      exact quiet.elim
  | @grow _ _ i off' wanted tail nameable short =>
      have here := sound.at_tail tail
      subst here
      have low := nameable.lt
      have fits : off' + L.blockTotal + 512 < 2 ^ 64 := by omega
      refine same bat (congrArg Prod.snd (Image.step_setLen fits)) (by simp) (sound.past_tail ?_ ?_)
      · exact Nat.le_of_lt short
      · exact fun x _ => ByteStore.byte_resize (Nat.le_of_lt short)
  | @footer _ _ i off' wanted tail nameable room' =>
      have here := sound.at_tail tail
      subst here
      have long : L.footerBytes.length = 512 := L.whole
      refine same bat (congrArg Prod.snd (Image.step_writeAt (by omega))) (by simp)
        (sound.past_tail (Nat.le_refl _) fun x below => ?_)
      exact ByteStore.byte_write_outside (Or.inl (by omega))
  | @zero _ _ i off' k n wanted tail nameable footed inside =>
      have here := sound.at_tail tail
      subst here
      have room' := footed.room
      have long : (List.replicate n (0 : UInt8)).length = n := List.length_replicate
      refine same bat (congrArg Prod.snd (Image.step_writeAt (by omega))) (by simp)
        (sound.past_tail (Nat.le_refl _) fun x below => ?_)
      exact ByteStore.byte_write_outside (Or.inl (by omega))
  | @commit _ _ i off' wanted tail nameable fresh =>
      have here := sound.at_tail tail
      subst here
      have room' := fresh.room
      obtain ⟨sound', evolves⟩ := sound.commit_step pay (by omega)
      refine ⟨bat, off' + L.blockTotal, sound', ?_, evolves, Nat.le_add_right _ _⟩
      exact fun _ _ _ => ⟨off', rfl, sound.start, fun e member live =>
        (sound.placed e member live).2⟩
  | @entry _ h' i start r' wanted tail nameable fresh =>
      have here := sound.at_tail tail
      subst here
      obtain ⟨start', moved, low, below⟩ := committed r' h' rfl
      have one : start' = start := by omega
      subst one
      have table := L.tableEnd_le_metadataEnd
      have top := sound.metadata_lt
      have index := wanted.index
      have stop : L.tableEnd = L.tableOffset + L.entries * 4 := rfl
      refine same bat (congrArg Prod.snd (Image.step_writeAt (by rw [length_toBe]; omega)))
        (by simp) ?_
      exact sound.entry_step (clear i _ r' h' rfl wanted) (sound.of_wanted wanted) index nameable
        moved low below fresh
  | @publish _ h' i start wanted nameable stored =>
      have word := nameable.below
      refine same (bat.set i (start / 512))
        (show _ = { s with bat := some (bat.set i (start / 512)) } from ?_) (by simp) ?_
      · simp only [Image.step, sound.cached, Option.map_some]
      refine sound.publish_step (sound.of_wanted wanted) wanted.index (Nat.ne_of_lt word) ?_
      rw [Layout.getElem?_table wanted.index, stored, ofBe_toBe]
      unfold batUnallocated at word
      omega
  | @fill _ _ i e n p len named sector absent low high =>
      have entry := sound.of_named named
      have place := sound.live_slot entry named.allocated
      have whole := L.blockSize_mod
      have long : (List.replicate len (0 : UInt8)).length = len := List.length_replicate
      refine same bat (congrArg Prod.snd (Image.step_writeAt (by omega))) (by simp) ?_
      exact sound.fill_step entry named.allocated sector absent low high
  | @payload _ _ i e p src named inside carries =>
      have entry := sound.of_named named
      have place := sound.live_slot entry named.allocated
      refine same bat (congrArg Prod.snd (Image.step_writeAt (by omega))) (by simp) ?_
      exact sound.payload_step entry named.allocated inside carries
  | @bitmap _ _ i e bits named length kept defined =>
      have entry := sound.of_named named
      have place := sound.live_slot entry named.allocated
      refine same bat (congrArg Prod.snd (Image.step_writeAt (by omega))) (by simp) ?_
      exact sound.bitmap_step entry named.allocated length kept defined

theorem Sound.traced_step {f : Faults} {x x' : Image × History} {op : ImageOp} {r : op.Res}
    (clear : ClearNext L pay x) (sound : Sound L x.1 bat off) (committed : Committed L x.1 x.2 off)
    (permitted : Permitted L pay x op) (stepped : f.handler.traced x (.on () op) r x') :
    ∃ bat' off', Kept L pay x.1 bat off x' bat' off' := by
  obtain ⟨s, h⟩ := x
  obtain ⟨s', h'⟩ := x'
  obtain ⟨allowed, remembered⟩ := stepped
  cases remembered
  have done := sound.step clear committed permitted r
  rcases Faults.handler_on allowed with ideal | ⟨refused, ⟨-, same⟩ | ⟨-, same⟩⟩
  · rw [show s' = (s.step op).2 from congrArg Prod.snd ideal]
    exact done
  · simp only at same
    subst same
    refine ⟨bat, off, sound, committed_other ?_, .refl, Nat.le_refl _⟩
    rintro v rfl
    exact refused.elim
  · simp only at same
    subst same
    exact done

end Sound

end ImgVhd
