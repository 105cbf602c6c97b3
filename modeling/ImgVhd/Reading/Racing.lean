import ImgVhd.Reading.Static
import ImgVhd.Session.Reopen
import ImgVhd.Writing.Threads

/-! # Reading an image others write to

Between any two operations of a read, sections of writes may do what they like as
long as the image stays sound: entries and bits stay once they are there, and a
byte changes only to what a write carries. That is all a read relies on.
-/

namespace ImgVhd

open Foundation

/-- The operations of a read. -/
def Op.Observes : Op Unit → Prop
  | .on _ .fetchBat => True
  | .on _ (.readAt _ _) => True
  | _ => False

theorem Op.Observes.cases {op : Op Unit} (observes : op.Observes) :
    op = .on () .fetchBat ∨ ∃ at_ n, op = .on () (.readAt at_ n) := by
  cases op with
  | on dev o =>
      cases o with
      | fetchBat => exact Or.inl rfl
      | readAt at_ n => exact Or.inr ⟨at_, n, rfl⟩
      | _ => exact observes.elim
  | _ => exact observes.elim

section Racing

variable {L : Layout} {W : Nat → UInt8 → Prop} {D : Nat → Prop} {s s' : Image} {bat : List Nat}
  {off k e : Nat} {bits : Bytes}

/-- An image that was `s`, with the table `bat`, at first. -/
def Follows (L : Layout) (W : Nat → UInt8 → Prop) (s : Image) (bat : List Nat) (s' : Image) : Prop :=
  ∃ bat' off', Sound L s' bat' off' ∧ Evolves L W s s' bat bat'

/-- Block `k` has the entry `e`. -/
def Occupied (L : Layout) (k e : Nat) (s : Image) : Prop :=
  ∃ bat off, Sound L s bat off ∧ bat[k]? = some e ∧ Live e

/-- A bitmap that was read some time ago. -/
structure Glimpsed (L : Layout) (D : Nat → Prop) (k e : Nat) (bits : Bytes) (s : Image) : Prop where
  occupied : Occupied L k e s
  length : bits.length = L.bitmapSize
  still : ∀ n < L.blockSize / 512, present bits n = true → bitAt s.disk (hostOff e) n = true
  clear : ∀ n < L.blockSize / 512, present bits n = false →
    ∀ q, q / 512 = n → D (k * L.blockSize + q)

theorem Follows.start (sound : Sound L s bat off) : Follows L W s bat s :=
  ⟨bat, off, sound, .refl⟩

theorem Follows.drifts {s'' : Image} (follows : Follows L W s bat s') (drifts : Drifts L W s' s'') :
    Follows L W s bat s'' := by
  obtain ⟨bat', off', sound, evolves⟩ := follows
  obtain ⟨bat'', off'', sound', evolves'⟩ := drifts bat' off' sound
  exact ⟨bat'', off'', sound', evolves.trans evolves'⟩

theorem Occupied.drifts (occupied : Occupied L k e s) (drifts : Drifts L W s s') :
    Occupied L k e s' := by
  obtain ⟨bat, off, sound, entry, live⟩ := occupied
  obtain ⟨bat', off', sound', evolves⟩ := drifts bat off sound
  exact ⟨bat', off', sound', evolves.entry k e entry live, live⟩

theorem Glimpsed.drifts (glimpsed : Glimpsed L D k e bits s) (drifts : Drifts L W s s') :
    Glimpsed L D k e bits s' := by
  obtain ⟨bat, off, sound, entry, live⟩ := glimpsed.occupied
  obtain ⟨bat', off', sound', evolves⟩ := drifts bat off sound
  exact ⟨glimpsed.occupied.drifts drifts, glimpsed.length, fun n sector there =>
    evolves.bit k e n entry live sector (glimpsed.still n sector there), glimpsed.clear⟩

theorem Occupied.reads (occupied : Occupied L k e s) {at_ n : Nat} (low : hostOff e ≤ at_)
    (high : at_ + n ≤ hostOff e + L.blockTotal) {r : Except FsCoreError Bytes}
    (stepped : Faults.none.handler s (.on () (.readAt at_ n)) r s') :
    s' = s ∧ r = .ok (s.disk.read at_ n) := by
  obtain ⟨bat, off, sound, entry, live⟩ := occupied
  have holds := sound.ready.holds (f := .none) (G := fun _ _ => True) sound.cached fun _ _ => trivial
  obtain ⟨same, is | ⟨faulty, -⟩⟩ :=
    holds.block e (List.mem_of_getElem? entry) live at_ n low high r s' stepped
  · exact ⟨same, is⟩
  · exact absurd faulty Faults.none_not_faulty

/-- The value at first, or one of a write. -/
def Regular (L : Layout) (W : Nat → UInt8 → Prop) (s : Image) (bat : List Nat) (b : Nat) (v : UInt8) :
    Prop :=
  v = L.value s.disk bat b ∨ W b v

theorem Follows.regular {bat' : List Nat} {off' : Nat} (follows : Follows L W s bat s')
    (sound : Sound L s' bat' off') (b : Nat) : Regular L W s bat b (L.value s'.disk bat' b) := by
  obtain ⟨bat₁, off₁, sound₁, evolves⟩ := follows
  obtain ⟨rfl, rfl⟩ := sound.unique sound₁
  exact evolves.value b

/-- What the image was and what the writes may change is all that a read needs. -/
theorem served_amidst (W : Nat → UInt8 → Prop) (s : Image) (bat : List Nat) :
    Served (Faults.none.handler.amidst (Drifts L W)) (fun _ op => op.Observes) L () none (Drifts L W)
      (Follows L W s bat) (Occupied L) (Glimpsed L fun b => Regular L W s bat b 0)
      (fun b => Regular L W s bat b 0) (Regular L W s bat) (fun _ _ => False) where
  refl _ := .refl
  trans _ _ _ := .trans
  keeps _ _ drifts follows := follows.drifts drifts
  keepsEntry _ _ _ _ drifts occupied := occupied.drifts drifts
  keepsBits _ _ _ _ _ drifts glimpsed := glimpsed.drifts drifts
  length _ _ _ _ glimpsed := glimpsed.length
  word k e s' occupied := by
    obtain ⟨bat', off', sound, entry, live⟩ := occupied
    have index : k < L.entries := by
      rw [← sound.length]
      exact (List.getElem?_eq_some_iff.mp entry).1
    exact L.table_lt (List.mem_of_getElem? (sound.stored k e entry live))
  fetch k s' follows index := by
    refine ⟨trivial, fun r s'' stepped => ?_⟩
    obtain ⟨x, drifts, answered⟩ := stepped
    have now := follows.drifts drifts
    obtain ⟨bat', off', sound, -⟩ := id now
    obtain ⟨rfl, rfl⟩ : r = x.bat ∧ s'' = x := by
      have exact_ := idealStep_only answered
      exact ⟨congrArg Prod.fst exact_, congrArg Prod.snd exact_⟩
    have slot : k < bat'.length := by rw [sound.length]; exact index
    have entry := List.getElem?_eq_getElem slot
    refine ⟨drifts, bat', bat'[k], sound.cached, entry, fun free b at_ => ?_,
      fun live => ⟨bat', off', sound, entry, live⟩⟩
    have regular := now.regular sound b
    rw [Layout.value_unallocated (by rw [at_, entry, free])] at regular
    exact regular
  bitmap k e s' follows occupied := by
    refine ⟨trivial, fun r s'' stepped => ?_⟩
    obtain ⟨x, drifts, answered⟩ := stepped
    have now := follows.drifts drifts
    have there := occupied.drifts drifts
    have total := L.blockTotal_eq
    have covers := L.bitmapSize_covers
    obtain ⟨rfl, rfl⟩ := there.reads (Nat.le_refl _) (by omega) answered
    refine ⟨drifts, fun bits same => ?_, fun err no => by cases no⟩
    cases same
    refine ⟨there, ByteStore.length_read, fun n sector bit => ?_, fun n sector bit q here => ?_⟩
    · rw [present_read _ (by omega)] at bit
      exact bit
    · rw [present_read _ (by omega)] at bit
      obtain ⟨bat', off', sound, entry, live⟩ := there
      have regular := now.regular sound (k * L.blockSize + q)
      have whole := L.blockSize_mod
      have none_ : L.own s''.disk bat' (k * L.blockSize + q) = none := by
        rw [own_in_block entry live (by omega), here, bit]
        rfl
      rw [Layout.value, none_] at regular
      exact regular
  data k e bits p n s' follows occupied glimpsed positive inside there := by
    refine ⟨trivial, fun r s'' stepped => ?_⟩
    obtain ⟨x, drifts, answered⟩ := stepped
    have now := follows.drifts drifts
    have total := L.blockTotal_eq
    have whole := L.blockSize_mod
    have still := (glimpsed.drifts drifts).still
    obtain ⟨rfl, rfl⟩ := (occupied.drifts drifts).reads (by omega) (by omega) answered
    refine ⟨drifts, fun out same => ?_, fun err no => by cases no⟩
    cases same
    refine ⟨ByteStore.length_read, fun j v at_ => ?_⟩
    obtain ⟨lt, is⟩ := ByteStore.getElem?_read_eq_some.mp at_
    obtain ⟨bat', off', sound, entry, live⟩ := occupied.drifts drifts
    have bit := still ((p + j) / 512) (by omega) (there (p + j) (by omega) (by omega))
    have own : L.own s''.disk bat' (k * L.blockSize + p + j) = some v := by
      rw [Nat.add_assoc, own_in_block entry live (by omega), if_pos bit, ← Nat.add_assoc, is]
    have regular := now.regular sound (k * L.blockSize + p + j)
    rw [Layout.value_of_own own] at regular
    exact regular
  absent k e bits s' n glimpsed sector clear q here := glimpsed.clear n sector clear q here
  defer virt dst s' follows positive within absent := by
    refine ⟨.refl, List.length_replicate, fun j v at_ => ?_⟩
    obtain ⟨lt, -⟩ := List.getElem?_eq_some_iff.mp at_
    rw [List.length_replicate] at lt
    rw [List.eq_of_mem_replicate (List.mem_of_getElem? at_)]
    exact absent j lt

/-- What a read of `len` bytes may return. -/
def Answered (L : Layout) (W : Nat → UInt8 → Prop) (s : Image) (bat : List Nat) (offset len : Nat)
    (out : Outcome Error Bytes) : Prop :=
  ∃ bytes, out = .ok bytes ∧ bytes.length = len ∧
    ∀ j v, bytes[j]? = some v → Regular L W s bat (offset + j) v

/-- What is left of a read among writes of `W`. -/
def Reading (L : Layout) (W : Nat → UInt8 → Prop) (Q : Outcome Error Bytes → Prop) (s : Image)
    (p : Io Unit Bytes) : Prop :=
  p.Amidst (Drifts L W) Faults.none.handler Op.Observes Q s

theorem Reading.start {fm : Bool} {offset : Nat} {buf : Bytes} (sound : Sound L s bat off)
    (within : offset + buf.length ≤ L.virtualSize) :
    Reading L W (Answered L W s bat offset buf.length) s
      ((VhdReader.base (L.core () true fm)).readAt offset buf) := by
  refine ⟨s, .refl, ?_⟩
  apply Prog.wp_mono (readAt_wp (served_amidst W s bat) (Follows.start sound) within)
  · intro y op observes
    exact observes
  · intro out y reached
    cases out with
    | ok bytes => exact ⟨bytes, rfl, reached.2⟩
    | err e => exact reached.elim
    | panic => exact reached.elim
    | outOfFuel => exact reached.elim

theorem Reading.drifts {Q : Outcome Error Bytes → Prop} {p : Io Unit Bytes} (reading : Reading L W Q s p)
    (drifts : Drifts L W s s') : Reading L W Q s' p :=
  reading.steady (fun _ _ _ => .trans) drifts

theorem Reading.returned {Q : Outcome Error Bytes → Prop} {out : Outcome Error Bytes}
    (reading : Reading L W Q s (.ret out)) : Q out :=
  Prog.Amidst.returned reading

theorem Reading.look {Q : Outcome Error Bytes → Prop} {op : Op Unit} {next : op.Res → Io Unit Bytes}
    (reading : Reading L W Q s (.call op next)) :
    op.locking ≠ .takes ∧ op.locking ≠ .drops ∧
      ∀ r s', Faults.none.handler s op r s' → s' = s ∧ Reading L W Q s' (next r) := by
  obtain ⟨observes, rest⟩ := Prog.Amidst.look (fun _ => .refl) reading
  have free : op.locking ≠ .takes ∧ op.locking ≠ .drops := by
    rcases observes.cases with rfl | ⟨at_, n, rfl⟩
    · simp [Op.locking]
    · simp [Op.locking]
  refine ⟨free.1, free.2, fun r s' stepped => ⟨?_, rest r s' stepped⟩⟩
  have same := congrArg Prod.snd (idealStep_only stepped)
  rcases observes.cases with rfl | ⟨at_, n, rfl⟩
  · exact same
  · exact same

end Racing

end ImgVhd
