import ImgVhd.Reading.Walk

/-! # Reading an image nobody writes to

`Holds` is the quiet case of what a read relies on: the table and the bytes stay
what they are. Then a read answers each byte from the image itself, and where the
image holds none, from what is below it.
-/

namespace ImgVhd

open Foundation

section Holds

variable {σ δ : Type}

/-- In state `s` the reader on `dev` has the table `bat` over the bytes `d`, and
    every block of the table can be read. Reads may be refused when `Lost`. -/
structure Holds (R : Handler σ (Op δ) Op.Res) (G : σ → Op δ → Prop) (L : Layout) (dev : δ) (s : σ)
    (d : ByteStore) (bat : List Nat) (Lost : Prop) : Prop where
  length : bat.length = L.entries
  words : ∀ e ∈ bat, e < 2 ^ 32
  asksTable : G s (.on dev .fetchBat)
  table : ∀ r s', R s (.on dev .fetchBat) r s' → r = some bat ∧ s' = s
  asksBlock : ∀ e ∈ bat, e ≠ batUnallocated → ∀ off n, 0 < n → hostOff e ≤ off →
    off + n ≤ hostOff e + L.blockTotal → G s (.on dev (.readAt off n))
  block : ∀ e ∈ bat, e ≠ batUnallocated → ∀ off n, hostOff e ≤ off →
    off + n ≤ hostOff e + L.blockTotal → ∀ r s', R s (.on dev (.readAt off n)) r s' →
      s' = s ∧ (r = (.ok (d.read off n) : Except FsCoreError Bytes) ∨
        (Lost ∧ ∃ e, r = (.error e : Except FsCoreError Bytes)))

variable {R : Handler σ (Op δ) Op.Res} {G : σ → Op δ → Prop} {L : Layout} {dev : δ} {s : σ}
  {d : ByteStore} {bat : List Nat} {Lost : Prop} {E : Error → σ → Prop}

theorem own_in_block {k e q : Nat} (entry : bat[k]? = some e) (live : e ≠ batUnallocated)
    (inside : q < L.blockSize) :
    L.own d bat (k * L.blockSize + q) =
      if bitAt d (hostOff e) (q / 512) = true then some (d.byte (hostOff e + L.bitmapSize + q))
      else none := by
  obtain ⟨block, place⟩ := L.block_of (k := k) inside
  rw [Layout.own_allocated (e := e) (by rw [block]; exact entry) live, place]

/-- The quiet image, as what a read relies on. -/
theorem Holds.served (holds : Holds R G L dev s d bat Lost) (parent : Option (ParentView δ))
    (below : Nat → UInt8)
    (defer : ∀ virt dst, 0 < dst.length → virt + dst.length ≤ L.virtualSize →
      (∀ j < dst.length, L.own d bat (virt + j) = none) →
      Code.wp R G (readBlockUnallocated parent virt dst)
        (fun out s' => s' = s ∧ out.length = dst.length ∧
          ∀ j v, out[j]? = some v → v = below (virt + j)) E s)
    (failed : Lost → ∀ e, E (fsCoreToVhdError e) s) :
    Served R G L dev parent (· = ·) (· = s) (fun k e _ => bat[k]? = some e ∧ e ≠ batUnallocated)
      (fun k e bits _ => (bat[k]? = some e ∧ e ≠ batUnallocated) ∧
        bits = d.read (hostOff e) L.bitmapSize)
      (fun b => L.own d bat b = none) (fun b v => v = (L.own d bat b).getD (below b)) E where
  refl _ := rfl
  trans _ _ _ first second := first.trans second
  keeps s' s'' same here := same.symm.trans here
  keepsEntry _ _ _ _ _ entry := entry
  keepsBits _ _ _ _ _ _ bits := bits
  length k e bits _ known := by rw [known.2, ByteStore.length_read]
  word k e _ entry := holds.words e (List.mem_of_getElem? entry.1)
  fetch k s' here index := by
    subst here
    refine ⟨holds.asksTable, fun r s'' stepped => ?_⟩
    obtain ⟨rfl, rfl⟩ := holds.table r s'' stepped
    have slot : k < bat.length := by rw [holds.length]; exact index
    refine ⟨rfl, bat, bat[k], rfl, List.getElem?_eq_getElem slot, fun free b at_ => ?_,
      fun live => ⟨List.getElem?_eq_getElem slot, live⟩⟩
    refine Layout.own_unallocated ?_
    rw [at_, List.getElem?_eq_getElem slot, free]
  bitmap k e s' here entry := by
    subst here
    have member := List.mem_of_getElem? entry.1
    have total := L.blockTotal_eq
    have positive := L.bitmapSize_ge
    refine ⟨holds.asksBlock e member entry.2 _ _ (by omega) (Nat.le_refl _) (by omega),
      fun r s'' stepped => ?_⟩
    obtain ⟨rfl, rfl | ⟨lost, err, rfl⟩⟩ :=
      holds.block e member entry.2 _ _ (Nat.le_refl _) (by omega) r s'' stepped
    · refine ⟨rfl, fun bits same => ?_, fun err same => ?_⟩
      · cases same
        exact ⟨entry, rfl⟩
      · cases same
    · refine ⟨rfl, fun bits same => ?_, fun err same => failed lost _⟩
      cases same
  data k e bits p n s' here entry known positive inside there := by
    subst here
    have member := List.mem_of_getElem? entry.1
    have total := L.blockTotal_eq
    have covers := L.bitmapSize_covers
    have whole := L.blockSize_mod
    refine ⟨holds.asksBlock e member entry.2 _ _ positive (by omega) (by omega),
      fun r s'' stepped => ?_⟩
    obtain ⟨rfl, rfl | ⟨lost, err, rfl⟩⟩ :=
      holds.block e member entry.2 _ _ (by omega) (by omega) r s'' stepped
    · refine ⟨rfl, fun out same => ?_, fun err same => ?_⟩
      · cases same
        refine ⟨ByteStore.length_read, fun j v at_ => ?_⟩
        obtain ⟨lt, is⟩ := ByteStore.getElem?_read_eq_some.mp at_
        have bit := there (p + j) (by omega) (by omega)
        rw [known.2, present_read _ (by omega)] at bit
        rw [Nat.add_assoc, own_in_block entry.1 entry.2 (by omega), if_pos bit, Option.getD_some,
          ← Nat.add_assoc]
        exact is
      · cases same
    · refine ⟨rfl, fun out same => ?_, fun err same => failed lost _⟩
      cases same
  absent k e bits s' n known sector clear q here := by
    have covers := L.bitmapSize_covers
    have whole := L.blockSize_mod
    rw [known.2, present_read _ (by omega)] at clear
    rw [own_in_block known.1.1 known.1.2 (by omega), here, clear]
    rfl
  defer virt dst s' here positive within absent := by
    subst here
    refine Code.wp_mono (defer virt dst positive within absent) (fun _ _ g => g) ?_
      fun _ _ e => e
    rintro out s'' ⟨rfl, length, values⟩
    refine ⟨rfl, length, fun j v at_ => ?_⟩
    obtain ⟨lt, _⟩ := List.getElem?_eq_some_iff.mp at_
    rw [absent j (by omega)]
    exact values j v at_

/-- What a child has no bytes for comes from its parent, and is zero past it. -/
theorem readBlockUnallocated_wp {p : ParentView δ} {value : Nat → UInt8} {virt : Nat} {dst : Bytes}
    (below : ∀ {off : Nat} {buf : Bytes}, off + buf.length ≤ p.virtualSize →
      Code.wp R G (p.readAt off buf) (fun out s' => s' = s ∧ out.length = buf.length ∧
        ∀ j v, out[j]? = some v → v = value (off + j)) E s)
    (small : virt + dst.length < 2 ^ 64) :
    Code.wp R G (readBlockUnallocated (some p) virt dst)
      (fun out s' => s' = s ∧ out.length = dst.length ∧ ∀ j v, out[j]? = some v →
        v = if p.virtualSize ≤ virt + j then 0 else value (virt + j)) E s := by
  unfold readBlockUnallocated
  simp only
  split
  · rename_i past
    refine ⟨rfl, List.length_replicate, fun j v at_ => ?_⟩
    rw [if_pos (by omega)]
    exact List.eq_of_mem_replicate (List.mem_of_getElem? at_)
  rename_i before
  rw [add64_of_lt (by omega), Code.lift_ok_bind]
  split
  · rename_i crosses
    rw [sub64_of_le (by omega), Code.lift_ok_bind, sliceOf_of_le (by omega) (by omega),
      Code.lift_ok_bind, List.drop_zero, Nat.sub_zero]
    have short : (dst.take (p.virtualSize - virt)).length = p.virtualSize - virt := by
      rw [List.length_take]
      omega
    refine Code.wp_seq (below (by rw [short]; omega)) ?_
    rintro got s' ⟨rfl, length, values⟩
    rw [short] at length
    refine ⟨rfl, by rw [List.length_append, List.length_replicate, length]; omega,
      fun j v at_ => ?_⟩
    by_cases lt : j < p.virtualSize - virt
    · rw [List.getElem?_append_left (by omega)] at at_
      rw [if_neg (by omega)]
      exact values j v at_
    · rw [List.getElem?_append_right (by omega)] at at_
      rw [if_pos (by omega)]
      exact List.eq_of_mem_replicate (List.mem_of_getElem? at_)
  · rename_i fits
    refine Code.wp_mono (below (by omega)) (fun _ _ g => g) ?_ fun _ _ e => e
    rintro out s' ⟨same, length, values⟩
    refine ⟨same, length, fun j v at_ => ?_⟩
    obtain ⟨lt, -⟩ := List.getElem?_eq_some_iff.mp at_
    rw [if_neg (by omega)]
    exact values j v at_

theorem Holds.readAt_wp (holds : Holds R G L dev s d bat Lost) (w fm : Bool) {off : Nat} {buf : Bytes}
    (within : off + buf.length ≤ L.virtualSize) (failed : Lost → ∀ e, E (fsCoreToVhdError e) s) :
    Code.wp R G ((L.core dev w fm).readAt none off buf)
      (fun out s' => s' = s ∧ out.length = buf.length ∧
        ∀ j v, out[j]? = some v → v = L.value d bat (off + j)) E s := by
  refine Code.wp_mono (ImgVhd.readAt_wp (holds.served none (fun _ => 0) ?_ failed) rfl within)
    (fun _ _ g => g) ?_ fun _ _ e => e
  · intro virt dst _ _ _
    refine ⟨rfl, List.length_replicate, fun j v at_ => ?_⟩
    exact List.eq_of_mem_replicate (List.mem_of_getElem? at_)
  · rintro out s' ⟨same, length, values⟩
    exact ⟨same.symm, length, values⟩

end Holds

end ImgVhd
