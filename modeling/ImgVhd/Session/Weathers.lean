import ImgVhd.Foundation.Volatile
import ImgVhd.Results.Crash

/-! # Versions of an image that a power loss may mix

`Weathers` is what holds of all the versions of a file that may survive, pair by
pair: one version's table is safe to read with another version's blocks. Any
mixture of their sectors is then a durable image.
-/

namespace ImgVhd

open Foundation

/-- What a data byte may be, by virtual offset. -/
abbrev Values := Nat → UInt8 → Prop

/-- A version by itself. The blocks of its table end before `off`. -/
structure Version (L : Layout) (A : Values) (off : Nat) (e : ByteStore) : Prop where
  aligned : e.size % 512 = 0
  long : L.dataStart + 512 ≤ e.size
  mirror : e.read 0 512 = L.footerBytes
  header : DynamicHeader.parse (e.read L.headerOffset dynHeaderSize) = .ok L.header
  placed : Placed L.dataStart off L.blockTotal (L.table e)
  holes : ∀ i : Nat, (L.table e)[i]? = some batUnallocated → ∀ q < L.blockSize,
    A (i * L.blockSize + q) 0

/-- The footer, or zeros. -/
def Ending (L : Layout) (bytes : Bytes) : Prop :=
  bytes = L.footerBytes ∨ bytes = List.replicate 512 0

/-- What `e'` holds in the block at `v`, should slot `i` name it. -/
def Retained (L : Layout) (A : Values) (i v : Nat) (e' : ByteStore) : Prop :=
  ∀ q < L.blockSize, A (i * L.blockSize + q) (e'.byte (hostOff v + L.bitmapSize + q)) ∧
    (bitAt e' (hostOff v) (q / 512) = false → A (i * L.blockSize + q) 0)

/-- The metadata of `e` with the size and the blocks of `e'`. -/
structure Beside (L : Layout) (A : Values) (e e' : ByteStore) : Prop where
  header : ∀ x, L.headerOffset ≤ x → x < L.headerEnd → e.byte x = e'.byte x
  ends : Ending L (e.read (e'.size - 512) 512)
  inside : ∀ v ∈ L.table e, Live v → hostOff v + L.blockTotal + 512 ≤ e'.size
  spread : ∀ i j v w : Nat, (L.table e)[i]? = some v → (L.table e')[j]? = some w → Live v →
    Live w → (i ≠ j ∨ v ≠ w) → Apart L.blockTotal (hostOff v) (hostOff w)
  held : ∀ i v : Nat, (L.table e)[i]? = some v → Live v → Retained L A i v e'

structure Weathers (L : Layout) (A : Values) (off : Nat) (H : List ByteStore) : Prop where
  version : ∀ e ∈ H, Version L A off e
  beside : ∀ e ∈ H, ∀ e' ∈ H, Beside L A e e'

/-- What may survive of the file `d` with its tail at `off`. -/
structure Sheltered (L : Layout) (A : Values) (off : Nat) (d : ByteStore) (H : List ByteStore) : Prop where
  weathers : Weathers L A off H
  here : d ∈ H
  below : ∀ e ∈ H, e.size ≤ d.size

section Weathers

variable {L : Layout} {A A' : Values} {off off' : Nat} {H H' : List ByteStore} {d e : ByteStore}

theorem Retained.mono {i v : Nat} (held : Retained L A i v e)
    (wider : ∀ b u, A b u → A' b u) : Retained L A' i v e := by
  intro q lt
  obtain ⟨byte, hole⟩ := held q lt
  exact ⟨wider _ _ byte, fun clear => wider _ _ (hole clear)⟩

theorem Retained.congr {i v : Nat} (held : Retained L A i v d)
    (same : ∀ j < L.blockTotal, e.byte (hostOff v + j) = d.byte (hostOff v + j)) : Retained L A i v e := by
  have covers := L.bitmapSize_covers
  have whole := L.blockSize_mod
  have total := L.blockTotal_eq
  intro q lt
  have bit : bitAt e (hostOff v) (q / 512) = bitAt d (hostOff v) (q / 512) := by
    unfold bitAt
    rw [same _ (by omega)]
  have byte := same (L.bitmapSize + q) (by omega)
  rw [← Nat.add_assoc] at byte
  rw [byte, bit]
  exact held q lt

theorem Weathers.subset (weathers : Weathers L A off H) (fewer : ∀ e ∈ H', e ∈ H) :
    Weathers L A off H' :=
  ⟨fun e member => weathers.version e (fewer e member),
    fun e member e' member' => weathers.beside e (fewer e member) e' (fewer e' member')⟩

theorem Weathers.revalue (weathers : Weathers L A off H)
    (holes : ∀ e ∈ H, ∀ i : Nat, (L.table e)[i]? = some batUnallocated → ∀ q < L.blockSize,
      A (i * L.blockSize + q) 0 → A' (i * L.blockSize + q) 0)
    (held : ∀ e ∈ H, ∀ e' ∈ H, ∀ i v : Nat, (L.table e)[i]? = some v → Live v → Retained L A i v e' →
      Retained L A' i v e') : Weathers L A' off H := by
  constructor
  · intro e member
    have version := weathers.version e member
    exact { version with
      holes := fun i free q lt => holes e member i free q lt (version.holes i free q lt) }
  · intro e member e' member'
    have beside := weathers.beside e member e' member'
    exact { beside with
      held := fun i v slot live => held e member e' member' i v slot live (beside.held i v slot live) }

theorem Weathers.mono (weathers : Weathers L A off H) (wider : ∀ b v, A b v → A' b v) :
    Weathers L A' off H :=
  weathers.revalue (fun _ _ _ _ _ _ => wider _ _) fun _ _ _ _ _ _ _ _ held => held.mono wider

theorem Weathers.further (weathers : Weathers L A off H)
    (past : ∀ e ∈ H, ∀ v ∈ L.table e, Live v → hostOff v + L.blockTotal ≤ off') :
    Weathers L A off' H :=
  ⟨fun e member =>
    let version := weathers.version e member
    { version with
      placed := fun v inTable live => ⟨(version.placed v inTable live).1, past e member v inTable live⟩ },
    weathers.beside⟩

theorem Sheltered.reopened (sheltered : Sheltered L A off d H) (behind : d.size = off' + 512) :
    Sheltered L A off' d H := by
  refine ⟨sheltered.weathers.further fun e member v inTable live => ?_, sheltered.here, sheltered.below⟩
  have inside := (sheltered.weathers.beside e member d sheltered.here).inside v inTable live
  omega

theorem Sheltered.same (sheltered : Sheltered L A off d H) (still : ∀ e ∈ H', e = d ∨ e ∈ H) (here : d ∈ H') :
    Sheltered L A off d H' := by
  have fewer : ∀ e ∈ H', e ∈ H := fun e member =>
    (still e member).elim (fun is => is ▸ sheltered.here) id
  exact ⟨sheltered.weathers.subset fewer, here, fun e member => sheltered.below e (fewer e member)⟩

/-- One more version, of the same table, after `d`. -/
theorem Weathers.evolve (weathers : Weathers L A off H) (here : d ∈ H) (grown : d.size ≤ e.size)
    (aligned : e.size % 512 = 0) (below : ∀ x < L.metadataEnd, e.byte x = d.byte x)
    (ends : ∀ e' ∈ e :: H, Ending L (e.read (e'.size - 512) 512))
    (ends' : ∀ e' ∈ H, Ending L (e'.read (e.size - 512) 512))
    (held : ∀ e' ∈ H, ∀ i v : Nat, (L.table e')[i]? = some v → Live v → Retained L A i v e) :
    Weathers L A off (e :: H) := by
  have footer := L.footer_le_metadataEnd
  have header := L.headerEnd_le_metadataEnd
  have tableTop := L.tableEnd_le_metadataEnd
  have table : L.table e = L.table d := Layout.table_congr fun x _ lt => below x (by omega)
  have version := weathers.version d here
  -- what `d` is to a version, `e` is too
  have as_ {e' : ByteStore} (member : e' ∈ H) : Beside L A e e' := by
    have beside := weathers.beside d here e' member
    refine ⟨fun x low lt => (below x (by omega)).trans (beside.header x low lt),
      ends e' (List.mem_cons_of_mem _ member), ?_, ?_, ?_⟩
    · rw [table]
      exact beside.inside
    · rw [table]
      exact beside.spread
    · rw [table]
      exact beside.held
  have to_ {e' : ByteStore} (member : e' ∈ H) : Beside L A e' e := by
    have beside := weathers.beside e' member d here
    refine ⟨fun x low lt => (beside.header x low lt).trans (below x (by omega)).symm, ends' e' member,
      fun v inTable live => ?_, ?_, held e' member⟩
    · have inside := beside.inside v inTable live
      omega
    · rw [table]
      exact beside.spread
  have itself : Beside L A e e := by
    have beside := to_ here
    refine ⟨fun _ _ _ => rfl, ends e List.mem_cons_self, ?_, ?_, ?_⟩
    · rw [table]
      exact beside.inside
    · have spread := (as_ here).spread
      rw [table] at spread ⊢
      exact spread
    · rw [table]
      exact beside.held
  constructor
  · intro e' member
    rcases List.mem_cons.mp member with rfl | earlier
    · refine ⟨aligned, Nat.le_trans version.long grown, ?_, ?_, ?_, ?_⟩
      · rw [← version.mirror]
        exact ByteStore.read_congr fun j lt => below _ (by omega)
      · rw [← version.header]
        refine congrArg DynamicHeader.parse (ByteStore.read_congr fun j lt => below _ ?_)
        have within : L.headerOffset + j < L.headerEnd := Nat.add_lt_add_left lt _
        omega
      · rw [table]
        exact version.placed
      · rw [table]
        exact version.holes
    · exact weathers.version e' earlier
  · intro e₁ member₁ e₂ member₂
    rcases List.mem_cons.mp member₁ with rfl | earlier₁
    · rcases List.mem_cons.mp member₂ with rfl | earlier₂
      · exact itself
      · exact as_ earlier₂
    · rcases List.mem_cons.mp member₂ with rfl | earlier₂
      · exact to_ earlier₁
      · exact weathers.beside e₁ earlier₁ e₂ earlier₂

/-- A version that differs from `d` inside one block of `d`. -/
theorem Weathers.in_block {i v : Nat} (weathers : Weathers L A off H) (here : d ∈ H)
    (slot : (L.table d)[i]? = some v) (live : Live v) (size : e.size = d.size)
    (outside : ∀ x, ¬ (hostOff v ≤ x ∧ x < hostOff v + L.blockTotal) → e.byte x = d.byte x)
    (held : Retained L A i v e) : Weathers L A off (e :: H) := by
  have top := L.metadataEnd_le_dataStart
  have version := weathers.version d here
  have low := (version.placed v (List.mem_of_getElem? slot) live).1
  have room {e' : ByteStore} (member : e' ∈ H) : hostOff v + L.blockTotal + 512 ≤ e'.size :=
    (weathers.beside d here e' member).inside v (List.mem_of_getElem? slot) live
  have last {n : Nat} (behind : hostOff v + L.blockTotal + 512 ≤ n) :
      e.read (n - 512) 512 = d.read (n - 512) 512 :=
    ByteStore.read_congr fun j _ => outside _ (by omega)
  refine weathers.evolve here (Nat.le_of_eq size.symm) (by rw [size]; exact version.aligned)
    (fun x lt => outside x (by omega)) (fun e' member => ?_) (fun e' member => ?_) fun e' member k w slot' live' => ?_
  · rcases List.mem_cons.mp member with rfl | earlier
    · rw [size, last (room here)]
      exact (weathers.beside d here d here).ends
    · rw [last (room earlier)]
      exact (weathers.beside d here e' earlier).ends
  · rw [size]
    exact (weathers.beside e' member d here).ends
  · have beside := weathers.beside e' member d here
    by_cases same : k = i ∧ w = v
    · obtain ⟨rfl, rfl⟩ := same
      exact held
    · have apart := beside.spread k i w v slot' slot live' live (not_and_or.mp same)
      exact (beside.held k w slot' live').congr fun j lt =>
        outside _ (apart.not_both ⟨Nat.le_add_right _ _, Nat.add_lt_add_left lt _⟩)

theorem Weathers.past_tail (weathers : Weathers L A off H) (here : d ∈ H) (start : L.dataStart ≤ off)
    (grown : d.size ≤ e.size) (aligned : e.size % 512 = 0) (below : ∀ x < off, e.byte x = d.byte x)
    (ends : ∀ e' ∈ e :: H, Ending L (e.read (e'.size - 512) 512))
    (ends' : ∀ e' ∈ H, Ending L (e'.read (e.size - 512) 512)) : Weathers L A off (e :: H) := by
  have top := L.metadataEnd_le_dataStart
  refine weathers.evolve here grown aligned (fun x lt => below x (by omega)) ends ends'
    fun e' member i v slot live => ?_
  have place := (weathers.version e' member).placed v (List.mem_of_getElem? slot) live
  exact ((weathers.beside e' member d here).held i v slot live).congr fun j lt => below _ (by omega)

/-- The entry of a zeroed block at the tail, before and after it is written. -/
theorem Weathers.entry {i start : Nat} (clear : Clear L) (weathers : Weathers L A off [d])
    (index : i < L.entries) (nameable : Nameable start) (tail : off = start + L.blockTotal)
    (low : L.dataStart ≤ start) (past : ∀ v ∈ L.table d, Live v → hostOff v + L.blockTotal ≤ start)
    (zeros : ∀ j < L.blockTotal, d.byte (start + j) = 0) (room : off + 512 ≤ d.size)
    (hole : ∀ q < L.blockSize, A (i * L.blockSize + q) 0) :
    Weathers L A off [d.write (L.tableOffset + i * 4) (toBe 4 (start / 512)), d] := by
  have top := L.metadataEnd_le_dataStart
  have footer := L.footer_le_metadataEnd
  have tableTop := L.tableEnd_le_metadataEnd
  have total := L.blockTotal_eq
  have named := nameable.hostOff
  have word := nameable.below
  have stop : L.tableEnd = L.tableOffset + L.entries * 4 := rfl
  have version := weathers.version d List.mem_cons_self
  have beside := weathers.beside d List.mem_cons_self d List.mem_cons_self
  obtain ⟨e, is⟩ : ∃ e, e = d.write (L.tableOffset + i * 4) (toBe 4 (start / 512)) := ⟨_, rfl⟩
  have table : L.table e = (L.table d).set i (start / 512) := by
    rw [is]
    exact Layout.table_write_entry index (by omega) (by unfold batUnallocated at word; omega)
  rw [← is]
  -- both versions agree with `d` outside the table
  have agrees {y : ByteStore} (member : y ∈ [e, d]) :
      y.size = d.size ∧ ∀ x, x < L.tableOffset ∨ L.tableEnd ≤ x → y.byte x = d.byte x := by
    rcases List.mem_pair.mp member with rfl | rfl
    · refine ⟨by rw [is]; rfl, fun x out => ?_⟩
      rw [is]
      exact ByteStore.byte_write_outside (by rw [length_toBe]; omega)
    · exact ⟨rfl, fun _ _ => rfl⟩
  -- and both tables hold entries of `d` and the new one
  have slots {y : ByteStore} {k v : Nat} (member : y ∈ [e, d]) (slot : (L.table y)[k]? = some v) :
      (L.table d)[k]? = some v ∨ (k = i ∧ v = start / 512) := by
    rcases List.mem_pair.mp member with rfl | rfl
    · rw [table, List.getElem?_set] at slot
      split at slot
      · rename_i here
        split at slot
        · exact Or.inr ⟨here.symm, (Option.some.inj slot).symm⟩
        · cases slot
      · exact Or.inl slot
    · exact Or.inl slot
  have header (y : ByteStore) (member : y ∈ [e, d]) (x : Nat) (low : L.headerOffset ≤ x)
      (lt : x < L.headerEnd) : y.byte x = d.byte x := by
    refine (agrees member).2 x ?_
    have apart := clear.header x
    omega
  constructor
  · intro y member
    obtain ⟨size, same⟩ := agrees member
    refine ⟨by rw [size]; exact version.aligned, by rw [size]; exact version.long, ?_, ?_,
      fun v inTable live => ?_, fun k free q lt => ?_⟩
    · rw [← version.mirror]
      refine ByteStore.read_congr fun j lt => same _ ?_
      have apart := clear.mirror (0 + j)
      omega
    · rw [← version.header]
      exact congrArg DynamicHeader.parse (ByteStore.read_congr fun j lt =>
        header y member _ (Nat.le_add_right _ _) (Nat.add_lt_add_left lt _))
    · obtain ⟨k, slot⟩ := List.getElem?_of_mem inTable
      rcases slots member slot with old | ⟨-, rfl⟩
      · exact version.placed v (List.mem_of_getElem? old) live
      · rw [named]
        omega
    · rcases slots member free with old | ⟨-, no⟩
      · exact version.holes k old q lt
      · omega
  · intro x atX y atY
    obtain ⟨sizeY, sameY⟩ := agrees atY
    refine ⟨fun p low lt => (header x atX p low lt).trans (header y atY p low lt).symm, ?_,
      fun v inTable live => ?_, fun j k v w slotX slotY liveV liveW other => ?_,
      fun k v slot live => ?_⟩
    · rw [sizeY]
      have same : x.read (d.size - 512) 512 = d.read (d.size - 512) 512 :=
        ByteStore.read_congr fun j _ => (agrees atX).2 _ (by omega)
      rw [same]
      exact beside.ends
    · obtain ⟨k, slot⟩ := List.getElem?_of_mem inTable
      rw [sizeY]
      rcases slots atX slot with old | ⟨-, rfl⟩
      · exact beside.inside v (List.mem_of_getElem? old) live
      · rw [named]
        omega
    · rcases slots atX slotX with oldX | ⟨rfl, rfl⟩
      · rcases slots atY slotY with oldY | ⟨rfl, rfl⟩
        · exact beside.spread j k v w oldX oldY liveV liveW other
        · rw [named]
          exact Or.inl (past v (List.mem_of_getElem? oldX) liveV)
      · rcases slots atY slotY with oldY | ⟨rfl, rfl⟩
        · rw [named]
          exact Or.inr (past w (List.mem_of_getElem? oldY) liveW)
        · simp at other
    · rcases slots atX slot with old | ⟨rfl, rfl⟩
      · have place := version.placed v (List.mem_of_getElem? old) live
        exact (beside.held k v old live).congr fun j lt => sameY _ (by omega)
      · intro q lt
        rw [named, sameY _ (by omega), Nat.add_assoc, zeros _ (by omega)]
        exact ⟨hole q lt, fun _ => hole q lt⟩

end Weathers

end ImgVhd
