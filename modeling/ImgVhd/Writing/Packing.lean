import ImgVhd.Foundation.FirstSeen
import ImgVhd.Writing.Sequential

/-! # Blocks are packed in the order they are first written

The cached table and the tail of an image that packs its blocks from the start of
its data area, and what the sections of a write do to them.
-/

namespace ImgVhd

open Foundation

/-- The block of each byte of a call. -/
def blocksOf (blockSize offset n : Nat) : List Nat :=
  (List.range n).map fun i => (offset + i) / blockSize

/-- The blocks of `order` stand one behind the other from the start of the data
    area, and there are no others. -/
structure Packed (L : Layout) (order : List Nat) (s : Image) (bat : List Nat) : Prop where
  cached : s.bat = some bat
  length : bat.length = L.entries
  placed : ∀ j k : Nat, order[j]? = some k → ∃ e, bat[k]? = some e ∧ Live e ∧
    hostOff e = L.dataStart + j * L.blockTotal
  free : ∀ k < L.entries, k ∉ order → bat[k]? = some batUnallocated
  tail : s.nextAllocOff = some (L.dataStart + order.length * L.blockTotal)

section Packing

variable {L : Layout} {f : Faults} {seen : List Nat} {s s' : Image} {bat : List Nat} {i offset : Nat}
  {buf : Bytes}

theorem blocksOf_add {blockSize n m : Nat} :
    blocksOf blockSize offset (n + m) =
      blocksOf blockSize offset n ++ blocksOf blockSize (offset + n) m := by
  unfold blocksOf
  rw [List.range_add, List.map_append, List.map_map]
  refine congrArg _ (List.map_congr_left fun i _ => ?_)
  simp only [Function.comp_apply, Nat.add_assoc]

theorem blocksOf_inside {c n : Nat} (inside : c % L.blockSize + n ≤ L.blockSize) :
    blocksOf L.blockSize c n = List.replicate n (c / L.blockSize) := by
  refine List.eq_replicate_iff.mpr ⟨by simp [blocksOf], fun k member => ?_⟩
  obtain ⟨i, low, rfl⟩ := List.mem_map.mp member
  have lt := List.mem_range.mp low
  have split := L.block_split c
  obtain ⟨block, -⟩ := L.block_of (k := c / L.blockSize) (q := c % L.blockSize + i) (by omega)
  rwa [← Nat.add_assoc, split.1] at block

theorem Packed.live_iff {order : List Nat} {k e : Nat} (packed : Packed L order s bat)
    (entry : bat[k]? = some e) : Live e ↔ k ∈ order := by
  constructor
  · intro live
    by_contra unseen
    have index : k < L.entries := by
      rw [← packed.length]
      exact (List.getElem?_eq_some_iff.mp entry).1
    rw [packed.free k index unseen] at entry
    exact live (Option.some.inj entry).symm
  · intro member
    obtain ⟨j, there⟩ := List.getElem?_of_mem member
    obtain ⟨e', entry', live, -⟩ := packed.placed j k there
    rw [entry] at entry'
    rwa [Option.some.inj entry']

theorem Packed.room {order : List Nat} {k : Nat} (packed : Packed L order s bat) (nodup : order.Nodup)
    (index : k < L.entries) (lacks : k ∉ order) : order.length < L.entries := by
  have inside : ∀ k' ∈ k :: order, k' ∈ List.range L.entries := by
    intro k' member
    rw [List.mem_range]
    rcases List.mem_cons.mp member with rfl | earlier
    · exact index
    · obtain ⟨j, there⟩ := List.getElem?_of_mem earlier
      obtain ⟨e, entry, -⟩ := packed.placed j k' there
      rw [← packed.length]
      exact (List.getElem?_eq_some_iff.mp entry).1
  have fits := (List.subperm_of_subset (List.nodup_cons.mpr ⟨lacks, nodup⟩) inside).length_le
  rwa [List.length_cons, List.length_range] at fits

/-- A finished section: its block takes its place behind the others, unless it
    has one. -/
theorem Packed.moved (packed : Packed L seen.eraseDups s bat) (moved : Moved L s s' i) :
    ∃ bat', Packed L (seen ++ [i]).eraseDups s' bat' := by
  cases moved with
  | @kept bat₁ e cached entry live bat' tail' size =>
      obtain rfl : bat₁ = bat := Option.some.inj (cached.symm.trans packed.cached)
      rw [eraseDups_seen (List.mem_eraseDups.mp ((packed.live_iff entry).mp live))]
      exact ⟨bat₁, bat'.trans cached, packed.length, packed.placed, packed.free,
        tail'.trans packed.tail⟩
  | @allocated bat₁ off cached free tail after =>
      obtain rfl : bat₁ = bat := Option.some.inj (cached.symm.trans packed.cached)
      obtain rfl : off = _ := Option.some.inj (tail.symm.trans packed.tail)
      have unseen : i ∉ seen.eraseDups := fun member =>
        (packed.live_iff free).mpr member rfl
      have slot : i < bat₁.length := (List.getElem?_eq_some_iff.mp free).1
      rw [eraseDups_unseen fun member => unseen (List.mem_eraseDups.mpr member)]
      refine ⟨_, after.bat, by rw [List.length_set]; exact packed.length, fun j k there => ?_,
        fun k index out => ?_, ?_⟩
      · rcases Nat.lt_or_ge j seen.eraseDups.length with earlier | last
        · rw [List.getElem?_append_left earlier] at there
          obtain ⟨e, entry, live, place⟩ := packed.placed j k there
          have other : i ≠ k := fun same => unseen (same ▸ List.mem_of_getElem? there)
          exact ⟨e, by rw [List.getElem?_set_ne other]; exact entry, live, place⟩
        · rw [List.getElem?_append_right last, List.getElem?_singleton] at there
          split at there
          · rename_i here
            cases there
            refine ⟨_, List.getElem?_set_self slot, Nat.ne_of_lt after.nameable.below, ?_⟩
            rw [after.nameable.hostOff, show j = seen.eraseDups.length by omega]
          · cases there
      · rw [List.mem_append, List.mem_singleton, not_or] at out
        rw [List.getElem?_set_ne (Ne.symm out.2)]
        exact packed.free k index out.1
      · rw [after.tail, List.length_append, List.length_singleton, Nat.add_mul, Nat.one_mul,
          Nat.add_assoc]

/-- The account a write keeps: the bytes below `c` have their blocks. -/
def PackedTo (L : Layout) (seen : List Nat) (offset c : Nat) (s : Image) : Prop :=
  offset ≤ c ∧
    ∃ bat, Packed L (seen ++ blocksOf L.blockSize offset (c - offset)).eraseDups s bat

theorem PackedTo.section_ {c : Nat} {src : Bytes} (packed : PackedTo L seen offset c s)
    (nonempty : 0 < src.length) (inside : c % L.blockSize + src.length ≤ L.blockSize)
    (wrote : Wrote L s s' (c / L.blockSize) (c % L.blockSize) src) :
    PackedTo L seen offset (c + src.length) s' := by
  obtain ⟨reached, bat, packed⟩ := packed
  obtain ⟨n, length⟩ := Nat.exists_eq_succ_of_ne_zero (Nat.ne_of_gt nonempty)
  refine ⟨by omega, ?_⟩
  rw [Nat.sub_add_comm reached, blocksOf_add, Nat.add_sub_cancel' reached, blocksOf_inside inside,
    length, ← List.append_assoc, eraseDups_replicate]
  exact packed.moved wrote.moved

/-- What a call leaves: the blocks it reached for the first time, in order, behind
    the others; or the reason it failed. -/
theorem Packed.call {P : ByteStore → Nat → Prop} {off : Nat} {fm : Bool} {out : Outcome Error Unit}
    {t : List (Event (Op Unit) Op.Res)} (clear : Clear L) (trail : Trail L P)
    (dynamic : L.footer.diskType = .dynamic) (within : offset + buf.length ≤ L.virtualSize)
    (sound : Sound L s bat off) (trailed : Trailed L P s.disk off)
    (packed : Packed L seen.eraseDups s bat)
    (run : Prog.Runs f.handler ((VhdReader.base (L.core () true fm)).writeAt offset buf) s t
      (.ret out) s') :
    (out = .ok () ∧
      ∃ bat', Packed L (seen ++ blocksOf L.blockSize offset buf.length).eraseDups s' bat') ∨
    (∃ e, out = .err e ∧ ∃ c x₀ h, c < offset + buf.length ∧ PackedTo L seen offset c x₀ ∧
      Denied f x₀ (c / L.blockSize) e (s', h)) := by
  have sequential : WriteRule L f offset buf f.handler.traced (Between L P s bat off offset buf) _ _ :=
    sequentialRule clear trail
  have rule := sequential.also (K := PackedTo L seen offset)
    fun c x₀ x src account nonempty inside wrote => account.section_ nonempty inside wrote
  have start : PackedTo L seen offset offset s := by
    refine ⟨Nat.le_refl _, bat, ?_⟩
    rw [Nat.sub_self, blocksOf, List.range_zero, List.map_nil, List.append_nil]
    exact packed
  rcases Code.wp_finished (writeAt_wp_rule fm rule dynamic within
    (x := (s, [])) ⟨Between.start offset buf sound trailed, start⟩) (run.traced []) with
    ⟨done, rfl, -, -, bat', packed'⟩ | ⟨e, rfl, reached⟩
  · rw [Nat.add_sub_cancel_left] at packed'
    exact Or.inl ⟨rfl, bat', packed'⟩
  · exact Or.inr ⟨e, rfl, reached.2⟩

theorem PackedTo.not_denied {c : Nat} {e : Error} {x : Image × History} (packed : PackedTo L seen offset c s)
    (nameable : ∀ n < L.entries, Nameable (L.dataStart + n * L.blockTotal))
    (index : c / L.blockSize < L.entries) (grows : ∀ len, ¬ f.lost (.setLen len)) (never : ¬ f.Beyond) :
    ¬ Denied f s (c / L.blockSize) e x := by
  rintro (⟨-, ⟨bat', cached, free⟩, ⟨off, tail, odd⟩ | ⟨len, lost⟩⟩ | beyond)
  · obtain ⟨-, bat, packed⟩ := packed
    obtain rfl : off = _ := Option.some.inj (tail.symm.trans packed.tail)
    exact odd (nameable _ (packed.room (nodup_eraseDups _) index fun member =>
      (packed.live_iff (by rw [← Option.some.inj (cached.symm.trans packed.cached)]; exact free)).mpr
        member rfl))
  · exact grows len lost
  · exact never beyond

end Packing

end ImgVhd
