import ImgVhd.Writing.Sound

/-! # A write with the image to itself

`Trailed` is what the end of the file looks like at any point of a write: at rest
behind the tail, or grown for a block that is not committed yet. With `Sound` it
is the invariant of every write under every fault, and a write that returns has
its whole payload in the image.
-/

namespace ImgVhd

open Foundation

/-- A way for the file to end behind the tail when no block is being added. -/
structure Trail (L : Layout) (P : ByteStore → Nat → Prop) : Prop where
  short : ∀ d off, P d off → d.size ≤ off + 512
  stable : ∀ d d' off, d'.size = d.size → (∀ x, off ≤ x → d'.byte x = d.byte x) → P d off → P d' off
  moved : ∀ d off, off % 512 = 0 → d.size = off + 512 → d.read off 512 = L.footerBytes → P d off

/-- The file is long enough for a block that is not committed yet. -/
structure Grown (L : Layout) (d : ByteStore) (off : Nat) : Prop where
  size : d.size = off + L.blockTotal + 512
  last : d.read (off + L.blockTotal) 512 = L.footerBytes ∨
    d.read (off + L.blockTotal) 512 = List.replicate 512 0

structure Trailed (L : Layout) (P : ByteStore → Nat → Prop) (d : ByteStore) (off : Nat) : Prop where
  aligned : off % 512 = 0
  ends : P d off ∨ Grown L d off

/-- The file ends in the footer, right behind the tail. -/
def AtFooter (L : Layout) (d : ByteStore) (off : Nat) : Prop :=
  d.size = off + 512 ∧ d.read off 512 = L.footerBytes

theorem trail_atFooter (L : Layout) : Trail L (AtFooter L) where
  short _ _ rest := Nat.le_of_eq rest.1
  stable _ _ _ size same rest := ⟨size.trans rest.1, by
    rw [← rest.2]
    exact ByteStore.read_congr fun i _ => same _ (Nat.le_add_right _ _)⟩
  moved _ _ _ size last := ⟨size, last⟩

section Trailed

variable {L : Layout} {P : ByteStore → Nat → Prop} {pay : Nat → Option UInt8} {f : Faults}
  {s : Image} {h : History} {bat : List Nat} {off : Nat}

theorem Trailed.below {d d' : ByteStore} (trail : Trail L P) (trailed : Trailed L P d off)
    (size : d'.size = d.size) (same : ∀ x, off ≤ x → d'.byte x = d.byte x) :
    Trailed L P d' off := by
  refine ⟨trailed.aligned, ?_⟩
  rcases trailed.ends with rest | grown
  · exact Or.inl (trail.stable d d' off size same rest)
  · refine Or.inr ⟨size.trans grown.size, ?_⟩
    have last : d'.read (off + L.blockTotal) 512 = d.read (off + L.blockTotal) 512 :=
      ByteStore.read_congr fun i _ => same _ (by omega)
    rw [last]
    exact grown.last

theorem Trailed.below_write {o : Nat} {bytes : Bytes} (trail : Trail L P)
    (trailed : Trailed L P s.disk off) (under : o + bytes.length ≤ off) :
    Trailed L P (s.disk.write o bytes) off :=
  trailed.below trail rfl fun _ above => ByteStore.byte_write_outside (Or.inr (by omega))

theorem Trailed.grown (trail : Trail L P) (trailed : Trailed L P s.disk off)
    (room : off + L.blockTotal + 512 ≤ s.disk.size) : Grown L s.disk off := by
  have positive := L.blockTotal_pos
  rcases trailed.ends with rest | grown
  · have short := trail.short _ _ rest
    omega
  · exact grown

theorem Trailed.step {op : ImageOp} {off' : Nat} (trail : Trail L P) (sound : Sound L s bat off)
    (trailed : Trailed L P s.disk off) (permitted : Permitted L pay (s, h) op)
    (tail : (s.step op).2.nextAllocOff = some off') : Trailed L P (s.step op).2.disk off' := by
  have room := sound.room
  have total := L.blockTotal_eq
  have positive := L.blockTotal_pos
  have small := L.blockTotal_lt
  have aligned := trailed.aligned
  -- every step but the one that moves the tail
  have same {s' : Image} (step : (s.step op).2 = s') (still : s'.nextAllocOff = s.nextAllocOff)
      (kept : Trailed L P s'.disk off) : Trailed L P (s.step op).2.disk off' := by
    rw [step, still, sound.tail] at tail
    rw [step, ← Option.some.inj tail]
    exact kept
  cases permitted with
  | look quiet => exact same (quiet_step quiet) rfl trailed
  | @grow _ _ i at_ wanted tail' nameable short =>
      have here := sound.at_tail tail'
      subst here
      have low := nameable.lt
      have fits : at_ + L.blockTotal + 512 < 2 ^ 64 := by omega
      refine same (congrArg Prod.snd (Image.step_setLen fits)) rfl ⟨aligned, Or.inr ⟨rfl, Or.inr ?_⟩⟩
      have shorter : s.disk.size ≤ at_ + L.blockTotal := by
        rcases trailed.ends with rest | grown
        · have short := trail.short _ _ rest
          omega
        · have size := grown.size
          omega
      refine (ByteStore.read_eq_iff (by rw [List.length_replicate])).mpr fun j lt => ?_
      rw [ByteStore.byte_resize (by omega), s.disk.beyond _ (by omega), List.getElem_replicate]
  | @footer _ _ i at_ wanted tail' nameable room' =>
      have here := sound.at_tail tail'
      subst here
      have long : L.footerBytes.length = 512 := L.whole
      have grown := trailed.grown trail room'
      have back := ByteStore.read_write_same s.disk (at_ + L.blockTotal) L.footerBytes
        (by omega)
      rw [long] at back
      exact same (congrArg Prod.snd (Image.step_writeAt (by omega))) rfl
        ⟨aligned, Or.inr ⟨grown.size, Or.inl back⟩⟩
  | @zero _ _ i at_ k n wanted tail' nameable footed inside =>
      have here := sound.at_tail tail'
      subst here
      have room' := footed.room
      have long : (List.replicate n (0 : UInt8)).length = n := List.length_replicate
      have grown := trailed.grown trail room'
      refine same (congrArg Prod.snd (Image.step_writeAt (by omega))) rfl
        ⟨aligned, Or.inr ⟨grown.size, Or.inl ?_⟩⟩
      rw [← footed.footer]
      exact ByteStore.read_write_disjoint (by omega)
  | @commit _ _ i at_ wanted tail' nameable fresh =>
      have here := sound.at_tail tail'
      subst here
      have grown := trailed.grown trail fresh.room
      have whole := L.blockTotal_mod
      obtain rfl := Option.some.inj tail
      exact ⟨by omega, Or.inl (trail.moved _ _ (by omega) grown.size fresh.footer)⟩
  | @entry _ h' i start r' wanted tail' nameable fresh =>
      have table := L.tableEnd_le_metadataEnd
      have top := sound.metadata_lt
      have index := wanted.index
      have stop : L.tableEnd = L.tableOffset + L.entries * 4 := rfl
      have under : L.tableOffset + i * 4 + (toBe 4 (start / 512)).length ≤ off := by
        rw [length_toBe]
        omega
      exact same (congrArg Prod.snd (Image.step_writeAt (by omega))) rfl
        (trailed.below_write trail under)
  | @publish _ h' i start wanted nameable stored =>
      exact same rfl rfl trailed
  | @fill _ _ i e n p len named sector absent low high =>
      have place := sound.live_slot (sound.of_named named) named.allocated
      have whole := L.blockSize_mod
      have long : (List.replicate len (0 : UInt8)).length = len := List.length_replicate
      exact same (congrArg Prod.snd (Image.step_writeAt (by omega))) rfl
        (trailed.below_write trail (by omega))
  | @payload _ _ i e p src named inside carries =>
      have place := sound.live_slot (sound.of_named named) named.allocated
      exact same (congrArg Prod.snd (Image.step_writeAt (by omega))) rfl
        (trailed.below_write trail (by omega))
  | @bitmap _ _ i e bits named length kept defined =>
      have place := sound.live_slot (sound.of_named named) named.allocated
      exact same (congrArg Prod.snd (Image.step_writeAt (by omega))) rfl
        (trailed.below_write trail (by omega))

theorem Trailed.traced_step {x x' : Image × History} {op : ImageOp} {r : op.Res} {off' : Nat}
    (trail : Trail L P) (sound : Sound L x.1 bat off) (trailed : Trailed L P x.1.disk off)
    (permitted : Permitted L pay x op) (stepped : f.handler.traced x (.on () op) r x')
    (tail : x'.1.nextAllocOff = some off') : Trailed L P x'.1.disk off' := by
  have done {off' : Nat} : (x.1.step op).2.nextAllocOff = some off' →
      Trailed L P (x.1.step op).2.disk off' := trailed.step trail sound permitted
  rcases Faults.handler_on stepped.1 with ideal | ⟨-, ⟨-, same⟩ | ⟨-, same⟩⟩
  · have same : x'.1 = (x.1.step op).2 := congrArg Prod.snd ideal
    rw [same] at tail ⊢
    exact done tail
  · rw [same, sound.tail] at tail
    rw [same, ← Option.some.inj tail]
    exact trailed
  · rw [same] at tail ⊢
    exact done tail

end Trailed

/-! ## The invariant of a write -/

/-- What holds at every point of a write that started from `s`. -/
structure Intact (L : Layout) (P : ByteStore → Nat → Prop) (pay : Nat → Option UInt8) (s : Image)
    (bat : List Nat) (s' : Image) (bat' : List Nat) (off' : Nat) : Prop where
  sound : Sound L s' bat' off'
  trailed : Trailed L P s'.disk off'
  evolves : Evolves L (Carries pay) s s' bat bat'

section Sequential

variable {L : Layout} {P : ByteStore → Nat → Prop} {f : Faults} {s : Image} {h : History}
  {bat : List Nat} {off offset : Nat} {buf : Bytes} {fm : Bool}

theorem Wrote.own {s₀ s' : Image} {bat' : List Nat} {i a b : Nat} {src : Bytes}
    (wrote : Wrote L s₀ s' i a src) (cached : s'.bat = some bat') (block : b / L.blockSize = i)
    (low : a ≤ b % L.blockSize) (high : b % L.blockSize - a < src.length) :
    L.own s'.disk bat' b = some src[b % L.blockSize - a] := by
  obtain ⟨bat'', e, cached', entry, live, took⟩ := wrote.took
  rw [cached] at cached'
  cases cached'
  refine Layout.own_eq_some.mpr ⟨e, by rw [block]; exact entry, live,
    took.bit _ low (by omega), ?_⟩
  rw [← took.byte _ high, Nat.add_sub_cancel' low]

theorem Wrote.here {s₀ s' : Image} {bat' : List Nat} {c b : Nat} {src : Bytes} {v : UInt8}
    (wrote : Wrote L s₀ s' (c / L.blockSize) (c % L.blockSize) src) (cached : s'.bat = some bat')
    (inside : c % L.blockSize + src.length ≤ L.blockSize)
    (carries : ∀ j (lt : j < src.length), payload offset buf (c + j) = some src[j])
    (low : c ≤ b) (high : b < c + src.length) (carried : payload offset buf b = some v) :
    L.own s'.disk bat' b = some v := by
  have same := carries (b - c) (by omega)
  rw [Nat.add_sub_cancel' low, carried] at same
  have split := L.block_split c
  obtain ⟨block, place⟩ := L.block_of (k := c / L.blockSize)
    (q := c % L.blockSize + (b - c)) (by omega)
  rw [← Nat.add_assoc, split.1, Nat.add_sub_cancel' low] at block place
  rw [wrote.own cached block (by omega) (by omega), Option.some.inj same]
  congr 2
  omega

theorem Wrote.written {s₀ s' : Image} {bat' : List Nat} {c : Nat} {src : Bytes}
    (wrote : Wrote L s₀ s' (c / L.blockSize) (c % L.blockSize) src) (cached : s'.bat = some bat')
    (inside : c % L.blockSize + src.length ≤ L.blockSize)
    (carries : ∀ j (lt : j < src.length), payload offset buf (c + j) = some src[j])
    (written : ∀ b v, b < c → payload offset buf b = some v → L.own s'.disk bat' b = some v) :
    ∀ b v, b < c + src.length → payload offset buf b = some v → L.own s'.disk bat' b = some v := by
  intro b v below carried
  by_cases earlier : b < c
  · exact written b v earlier carried
  · exact wrote.here cached inside carries (by omega) below carried

theorem Moved.at_rest {s₀ s' : Image} {i off₀ off' : Nat} (trail : Trail L P)
    (moved : Moved L s₀ s' i) (tail₀ : s₀.nextAllocOff = some off₀)
    (tail' : s'.nextAllocOff = some off') (rest : P s₀.disk off₀)
    (trailed : Trailed L P s'.disk off') : P s'.disk off' := by
  have short := trail.short _ _ rest
  have positive := L.blockTotal_pos
  refine trailed.ends.resolve_right fun grown => ?_
  have size := grown.size
  cases moved with
  | kept cached entry live bat' same size' =>
      rw [same, tail₀] at tail'
      obtain rfl := Option.some.inj tail'
      omega
  | allocated cached free tail after =>
      have size' := after.size
      rw [tail₀] at tail
      rw [after.tail] at tail'
      obtain rfl := Option.some.inj tail
      obtain rfl := Option.some.inj tail'
      omega

variable (L P f offset buf s bat off) in
/-- Between sections: the payload below `c` is in the image. -/
def Between (c : Nat) (x : Image × History) : Prop :=
  ∃ bat' off', Intact L P (payload offset buf) s bat x.1 bat' off' ∧
    (P s.disk off → P x.1.disk off') ∧
    ∀ b v, b < c → payload offset buf b = some v → L.own x.1.disk bat' b = some v

variable (L P offset buf s bat) in
/-- Inside the section that starts at `c`. -/
def Inside (c : Nat) (x : Image × History) : Prop :=
  ∃ bat' off', Intact L P (payload offset buf) s bat x.1 bat' off' ∧ Committed L x.1 x.2 off' ∧
    ∀ b v, b < c → payload offset buf b = some v → L.own x.1.disk bat' b = some v

theorem Between.start (offset : Nat) (buf : Bytes) (sound : Sound L s bat off)
    (trailed : Trailed L P s.disk off) :
    Between L P s bat off offset buf offset (s, h) := by
  refine ⟨bat, off, ⟨sound, trailed, .refl⟩, id, fun b v below carried => ?_⟩
  exact absurd (payload_inside carried).1 (Nat.not_le_of_lt below)

/-- A call of `write_at` with the image to itself, beside an account `K` that its
    steps keep and that keeps the entries it writes clear. -/
theorem sequentialRule_beside {K : Image × History → Prop} (trail : Trail L P)
    (clear : ∀ x, K x → ClearNext L (payload offset buf) x)
    (locks : ∀ x e, K x → e.op = .on () .lockBat ∨ e.op = .on () .unlockBat → K (x.1, e :: x.2))
    (keeps : ∀ x op r x', K x → Permitted L (payload offset buf) x op →
      f.handler.traced x (.on () op) r x' → K x') :
    WriteRule L f offset buf f.handler.traced
      (fun c x => Between L P s bat off offset buf c x ∧ K x)
      (fun c _ x => Inside L P s bat offset buf c x ∧ K x)
      (fun _ x => ∃ bat' off', Intact L P (payload offset buf) s bat x.1 bat' off') := by
  constructor
  case enter =>
    rintro c x r x' ⟨⟨bat', off', intact, -, written⟩, account⟩ _ stepped
    obtain ⟨rfl, rfl⟩ := Faults.traced_lock stepped
    exact ⟨rfl, intact.sound.ready, ⟨bat', off', intact, committed_other (by simp), written⟩,
      locks x _ account (Or.inl rfl)⟩
  case inside => exact fun c x₀ x op r x' _ _ stepped => stepped
  case kept =>
    rintro c x₀ x op r x' ⟨⟨bat', off', intact, committed, written⟩, account⟩ permitted stepped _
    obtain ⟨bat'', off'', kept⟩ := intact.sound.traced_step (clear x account) committed permitted
      stepped
    refine ⟨⟨bat'', off'', ⟨kept.sound, ?_, intact.evolves.trans kept.evolves⟩, kept.committed,
      fun b v below carried => kept.evolves.own_same (written b v below carried) fun u other =>
        Option.some.inj (other.symm.trans carried)⟩, keeps x op r x' account permitted stepped⟩
    exact intact.trailed.traced_step trail intact.sound permitted stepped kept.sound.tail
  case done =>
    rintro c y q x₀ x src ⟨⟨bat₀, off₀, intact₀, rest₀, -⟩, -⟩ locked
      ⟨⟨bat', off', intact, -, written⟩, account⟩ _ nonempty inside carries wrote
    obtain ⟨-, rfl⟩ := Faults.traced_lock locked
    exact ⟨⟨bat', off', intact, fun rest => wrote.moved.at_rest trail intact₀.sound.tail
      intact.sound.tail (rest₀ rest) intact.trailed,
      wrote.written intact.sound.cached inside carries written⟩, account⟩
  case leave =>
    rintro c x r x' ⟨known, account⟩ stepped
    obtain rfl := Faults.traced_unlock stepped
    exact ⟨known, locks x _ account (Or.inr rfl)⟩
  case fail =>
    rintro c x₀ x e r x' ⟨⟨bat', off', intact, -, -⟩, -⟩ _ stepped
    obtain rfl := Faults.traced_unlock stepped
    exact ⟨bat', off', intact⟩

/-- A call of `write_at` with the image to itself. -/
theorem sequentialRule (clear : Clear L) (trail : Trail L P) :
    WriteRule L f offset buf f.handler.traced (Between L P s bat off offset buf)
      (fun c _ => Inside L P s bat offset buf c)
      (fun _ x => ∃ bat' off', Intact L P (payload offset buf) s bat x.1 bat' off') := by
  have rule : WriteRule L f offset buf f.handler.traced
      (fun c x => Between L P s bat off offset buf c x ∧ True)
      (fun c _ x => Inside L P s bat offset buf c x ∧ True) _ :=
    sequentialRule_beside trail (fun _ _ => clear.next) (fun _ _ _ _ => trivial)
      fun _ _ _ _ _ _ _ => trivial
  simpa only [and_true] using rule

end Sequential

end ImgVhd
