import ImgVhd.Session.Answers
import ImgVhd.Session.Room

/-! # Images at rest

Between two writes that return, the file ends in the footer right behind the tail,
and what the image holds is the log.
-/

namespace ImgVhd

open Foundation

/-- An image at rest that holds the log. -/
structure InOrder (L : Layout) (log : List Attempt) (s : Image) (bat : List Nat) (off : Nat) :
    Prop where
  sound : Sound L s bat off
  aligned : off % 512 = 0
  rest : AtFooter L s.disk off
  values : ∀ b < L.virtualSize, L.value s.disk bat b = flat log b

section InOrder

variable {L : Layout} {log : List Attempt} {s s' : Image} {bat : List Nat} {off : Nat} {buf : Bytes}

theorem Created.in_order (created : Created L s off) : InOrder L [] s (L.table s.disk) off := by
  obtain ⟨sound, aligned, rest⟩ := created.rests
  exact ⟨sound, aligned, rest, fun b inside => created.value_zero inside⟩

theorem InOrder.opens (order : InOrder L log s bat off) : Opens s.disk L false off off := by
  have size := order.rest.1
  have aligned := order.aligned
  have tail : tailSector s.disk = L.footerBytes := by
    unfold tailSector
    rw [size, show off + 512 - footerSize = off from Nat.add_sub_cancel _ _]
    exact order.rest.2
  have opens := order.sound.opens_tail (by omega) (Nat.le_of_eq size.symm) tail
  rw [size, show off + 512 - footerSize = off from Nat.add_sub_cancel _ _] at opens
  exact opens

theorem InOrder.reopened (order : InOrder L log s bat off) :
    InOrder L log (L.opened s.disk off) (L.table s.disk) off :=
  ⟨order.opens.sound order.sound.start, order.aligned, order.rest, fun b inside => by
    rw [← order.values b inside]
    exact order.sound.value_table b inside⟩

/-- A write that returned leaves the image at rest, holding one write more. -/
theorem InOrder.written {offset : Nat} {buf : Bytes} {fm : Bool} {p : Io Unit Unit} {t}
    (order : InOrder L log s bat off) (clear : Clear L) (dynamic : L.footer.diskType = .dynamic)
    (within : offset + buf.length ≤ L.virtualSize)
    (run : Prog.Runs Faults.none.handler ((VhdReader.base (L.core () true fm)).writeAt offset buf)
      s t p s') (returned : p.value? = some (.ok ())) :
    ∃ bat' off', InOrder L (⟨offset, buf, true⟩ :: log) s' bat' off' := by
  obtain ⟨bat', off', intact, rest, written⟩ := (write_cut clear (trail_atFooter L) dynamic within
    order.sound ⟨order.aligned, Or.inl order.rest⟩ run).2 returned
  refine ⟨bat', off', intact.sound, intact.trailed.aligned, rest order.rest, fun b inside => ?_⟩
  unfold flat
  cases carried : payload offset buf b with
  | some u => exact Layout.value_of_own (written b u carried)
  | none =>
      rcases intact.evolves.value b with same | never
      · exact same.trans (order.values b inside)
      · exact absurd (never.symm.trans carried) (by simp)

theorem Session.in_order {r₀ : VhdReader Unit} {s₀ : Image} {off₀ : Nat} {last : Option (VhdReader Unit)}
    (created : Created L s₀ off₀) (reader : r₀ = .base (L.core () true false))
    (session : Session .none (r₀, s₀) log last s) (done : ∀ a ∈ log, a.done = true) :
    (∃ bat off, InOrder L log s bat off) ∧
      ∀ r, last = some r → ∃ fm, r = .base (L.core () true fm) := by
  refine session.keeps (K := fun log => ∀ a ∈ log, a.done = true)
    (I := fun log s => ∃ bat off, InOrder L log s bat off) done
    (fun late log done a member => done a (List.mem_append_right late member)) ⟨_, _, created.in_order⟩
    ⟨false, reader⟩ ?_ ?_
  · rintro log _ s call t p s' done ⟨bat, off, order⟩ ⟨fm, rfl⟩ inside run
    cases call with
    | write offset buf =>
        have returned : succeeded p = true := done _ (List.mem_append_left _ List.mem_cons_self)
        obtain ⟨bat', off', order'⟩ := order.written created.clear created.dynamic inside run
          (succeeded_iff.mp returned)
        rw [returned]
        exact ⟨bat', off', order'⟩
    | read offset buf =>
        rw [read_cut order.sound.ready inside run]
        exact ⟨bat, off, order⟩
  · rintro log s how t p s' ⟨bat, off, order⟩ run
    rcases reopen_cut order.opens created.dynamic run with ⟨none_, same⟩ | ⟨some_, same⟩
    · rw [none_, same]
      exact ⟨⟨bat, off, order⟩, nofun⟩
    · rw [some_, same]
      exact ⟨⟨_, _, order.reopened⟩, fun r is => ⟨false, (Option.some.inj is).symm⟩⟩

theorem flat_written {a : Attempt} :
    ((List.range a.buf.length).map fun i => flat (a :: log) (a.offset + i)) = a.buf := by
  refine List.ext_getElem (by simp) fun i low high => ?_
  simp only [List.getElem_map, List.getElem_range, flat, payload]
  rw [if_pos (Nat.le_add_right _ _), Nat.add_sub_cancel_left, List.getElem?_eq_getElem high,
    Option.getD_some]

theorem InOrder.reads_last {a : Attempt} {wr fm : Bool} (order : InOrder L (a :: log) s bat off)
    (within : a.offset + a.buf.length ≤ L.virtualSize) :
    ((VhdReader.base (L.core () wr fm)).readAt a.offset a.buf).run idealStep s = (.ok a.buf, s) :=
  (reads_as _ order.sound.ready order.sound.cached order.values within).trans (by rw [flat_written])

/-! ## The small disk with two blocks -/

/-- The small disk once `buf` was written across its first two blocks. -/
structure Filled (L : Layout) (buf : Bytes) (s : Image) (bat : List Nat) (off : Nat) : Prop where
  dynamic : L.footer.diskType = .dynamic
  clear : Clear L
  size : L.virtualSize = 34816
  block : L.blockSize = 512
  roomy : ∀ n < L.entries, Nameable (L.dataStart + n * L.blockTotal)
  order : InOrder L [⟨300, buf, true⟩] s bat off
  packed : Packed L [0, 1] s bat

/-- The blocks leave no room below the tail, so the device's table is the cached
    one. -/
theorem Packed.table {blocks : List Nat} (packed : Packed L blocks s bat) (sound : Sound L s bat off) :
    L.table s.disk = bat := by
  have positive := L.blockTotal_pos
  have top := Option.some.inj (sound.tail.symm.trans packed.tail)
  apply List.ext_getElem?
  intro k
  by_cases index : k < L.entries
  · have inTable : k < bat.length := by rw [packed.length]; exact index
    have slot := List.getElem?_eq_getElem inTable
    have there := Layout.getElem?_table (d := s.disk) index
    by_cases live : Live bat[k]
    · rw [slot]
      exact sound.stored k _ slot live
    · have unseen : k ∉ blocks := fun member => live ((packed.live_iff slot).mpr member)
      rw [slot, Decidable.not_not.mp live]
      by_cases landed : Live (ofBe (s.disk.read (L.tableOffset + k * 4) 4))
      case neg => rw [there, Decidable.not_not.mp landed]
      generalize ofBe (s.disk.read (L.tableOffset + k * 4) 4) = e at there landed
      have place := sound.placed e (List.mem_of_getElem? there) landed
      have whole := Nat.div_add_mod (hostOff e - L.dataStart) L.blockTotal
      have rest := Nat.mod_lt (hostOff e - L.dataStart) (show 0 < L.blockTotal by omega)
      rw [Nat.mul_comm] at whole
      generalize (hostOff e - L.dataStart) / L.blockTotal = j at whole
      have inside : j < blocks.length := by
        by_contra past
        have more := Nat.mul_le_mul_right L.blockTotal (Nat.le_of_not_lt past)
        omega
      obtain ⟨e', entry, live', here⟩ := packed.placed j blocks[j] (List.getElem?_eq_getElem inside)
      have other : blocks[j] ≠ k := fun same => unseen (same ▸ List.getElem_mem inside)
      have apart := sound.spread _ _ e' e other (sound.stored _ _ entry live') there live' landed
      unfold Apart at apart
      omega
  · rw [List.getElem?_eq_none (by rw [Layout.length_table]; omega),
      List.getElem?_eq_none (by rw [packed.length]; omega)]

theorem Filled.free {i : Nat} (filled : Filled L buf s bat off) (index : i < L.entries) (past : 2 ≤ i) :
    bat[i]? = some batUnallocated :=
  filled.packed.free i index (by simp; omega)

theorem Filled.takes {offset : Nat} {more : Bytes} {t : List (Event (Op Unit) Op.Res)}
    {out : Outcome Error Unit} (filled : Filled L buf s bat off)
    (within : offset + more.length ≤ L.virtualSize)
    (run : Prog.Runs Faults.none.handler ((VhdReader.base (L.core () true false)).writeAt offset more)
      s t (.ret out) s') : out = .ok () := by
  have order := filled.order
  have packed : Packed L ([0, 1] : List Nat).eraseDups s bat := filled.packed
  exact packed.returns filled.clear filled.dynamic within order.sound order.aligned order.rest
    filled.roomy (fun _ lost => lost) Faults.none_not_beyond run

/-- Opening it again finds it as it was. -/
theorem Filled.reopened (filled : Filled L buf s bat off) :
    Filled L buf (L.opened s.disk off) (L.table s.disk) off := by
  have table := filled.packed.table filled.order.sound
  refine ⟨filled.dynamic, filled.clear, filled.size, filled.block, filled.roomy,
    filled.order.reopened, congrArg some rfl, L.length_table, ?_, ?_, ?_⟩
  · rw [table]
    exact filled.packed.placed
  · rw [table]
    exact filled.packed.free
  · rw [← filled.packed.tail, filled.order.sound.tail]
    rfl

theorem small_filled {buf : Bytes} (length : buf.length = 700) : ∃ t₀ L s₁ off₀ t₁ s bat off,
    Prog.Runs Faults.none.handler (createDynamic smallEnv [] 4096 512) ⟨.empty, none, none⟩ t₀
      (.ret (.ok (.base (L.core () true false)))) s₁ ∧ Created L s₁ off₀ ∧
    Prog.Runs Faults.none.handler ((VhdReader.base (L.core () true false)).writeAt 300 buf) s₁ t₁
      (.ret (.ok ())) s ∧ Filled L buf s bat off := by
  obtain ⟨t₀, L, s₁, off₀, t₁, s, create, created, size, block, run⟩ := small_written length
  have within : 300 + buf.length ≤ L.virtualSize := by omega
  obtain ⟨bat, off, order⟩ := created.in_order.written created.clear created.dynamic within run rfl
  obtain ⟨sound, aligned, rest⟩ := created.rests
  have empty : Packed L ([] : List Nat).eraseDups s₁ (L.table s₁.disk) := created.packed
  rcases empty.call created.clear (trail_atFooter L) created.dynamic within sound
    ⟨aligned, Or.inl rest⟩ run with ⟨-, bat', packed⟩ | ⟨e, never, -⟩
  · obtain rfl := Option.some.inj (packed.cached.symm.trans order.sound.cached)
    refine ⟨t₀, L, s₁, off₀, t₁, s, bat', off, create, created, run, created.dynamic, created.clear,
      size, block, fun n index => created.roomy block index, order, ?_⟩
    have blocks : ([] ++ blocksOf 512 300 700 : List Nat).eraseDups = [0, 1] := by decide +kernel
    rw [block, length, blocks] at packed
    exact packed
  · cases never

end InOrder

end ImgVhd
