import ImgVhd.Session.Weathers
import ImgVhd.Writing.Ordered

/-! # A write over a volatile cache

What each operation of a write adds to the versions that may survive. The order
of the flushes is what makes it safe: zeros go out when every version has the
new length, and the entry when every version has the zeros.
-/

namespace ImgVhd

open Foundation

/-- What may survive in the middle of a write. -/
structure Outlasts (L : Layout) (A : Values) (s : Image) (h : History) (H : List ByteStore)
    (off : Nat) : Prop extends Sheltered L A off s.disk H where
  level : Level h → ∀ e ∈ H, e.size = s.disk.size
  clean : Clean h → ∀ e ∈ H, e = s.disk

section Outlasts

variable {L : Layout} {A : Values} {pay : Nat → Option UInt8} {s : Image} {h : History}
  {H : List ByteStore} {bat : List Nat} {off : Nat} {d : ByteStore}

/-! ## Inside a block -/

theorem Retained.write_data {i v p : Nat} {bytes : Bytes} (held : Retained L A i v d)
    (written : ∀ q < L.blockSize, p ≤ q → q < p + bytes.length →
      A (i * L.blockSize + q)
        ((d.write (hostOff v + L.bitmapSize + p) bytes).byte (hostOff v + L.bitmapSize + q))) :
    Retained L A i v (d.write (hostOff v + L.bitmapSize + p) bytes) := by
  have covers := L.bitmapSize_covers
  have whole := L.blockSize_mod
  intro q lt
  have bit : bitAt (d.write (hostOff v + L.bitmapSize + p) bytes) (hostOff v) (q / 512) =
      bitAt d (hostOff v) (q / 512) := by
    unfold bitAt
    rw [ByteStore.byte_write_outside (Or.inl (by omega))]
  rw [bit]
  refine ⟨?_, (held q lt).2⟩
  by_cases covered : p ≤ q ∧ q < p + bytes.length
  · exact written q lt covered.1 covered.2
  · rw [ByteStore.byte_write_outside (by omega)]
    exact (held q lt).1

theorem Retained.fill {i v n p len : Nat} (held : Retained L A i v d) (absent : bitAt d (hostOff v) n = false)
    (low : n * 512 ≤ p) (high : p + len ≤ n * 512 + 512)
    (fits : hostOff v + L.bitmapSize + p + len ≤ d.size) :
    Retained L A i v (d.write (hostOff v + L.bitmapSize + p) (List.replicate len 0)) := by
  have long : (List.replicate len (0 : UInt8)).length = len := List.length_replicate
  refine held.write_data fun q lt from_ to_ => ?_
  rw [ByteStore.byte_write_inside (by omega) (by omega) (by omega), List.getD_replicate _ (by omega)]
  have sector : q / 512 = n := by omega
  exact (held q lt).2 (by rw [sector]; exact absent)

theorem Retained.payload {i v p : Nat} {src : Bytes} (held : Retained L A i v d)
    (carries : ∀ j (lt : j < src.length), A (i * L.blockSize + p + j) src[j])
    (fits : hostOff v + L.bitmapSize + p + src.length ≤ d.size) :
    Retained L A i v (d.write (hostOff v + L.bitmapSize + p) src) := by
  refine held.write_data fun q lt from_ to_ => ?_
  have carried := carries (q - p) (by omega)
  rw [ByteStore.byte_write_inside (by omega) (by omega) (by omega),
    List.getD_eq_getElem _ _ (by omega)]
  have at_ : i * L.blockSize + p + (q - p) = i * L.blockSize + q := by omega
  have index : hostOff v + L.bitmapSize + q - (hostOff v + L.bitmapSize + p) = q - p := by omega
  simp only [index]
  rw [at_] at carried
  exact carried

theorem Retained.bitmap {i v : Nat} {bits : Bytes} (held : Retained L A i v d)
    (length : bits.length = L.bitmapSize)
    (kept : ∀ n < L.blockSize / 512, bitAt d (hostOff v) n = true → present bits n = true)
    (fits : hostOff v + L.bitmapSize ≤ d.size) : Retained L A i v (d.write (hostOff v) bits) := by
  have covers := L.bitmapSize_covers
  have whole := L.blockSize_mod
  intro q lt
  have back := ByteStore.read_write_same d (hostOff v) bits (by omega)
  rw [length] at back
  have bit : bitAt (d.write (hostOff v) bits) (hostOff v) (q / 512) = present bits (q / 512) := by
    rw [← present_read L.bitmapSize (by omega), back]
  rw [bit, ByteStore.byte_write_outside (Or.inr (by omega))]
  refine ⟨(held q lt).1, fun clear => (held q lt).2 ?_⟩
  cases before : bitAt d (hostOff v) (q / 512) with
  | false => rfl
  | true =>
      rw [kept _ (by omega) before] at clear
      cases clear

/-! ## One operation -/

theorem Weathers.ends_write {at_ : Nat} {bytes : Bytes} (weathers : Weathers L A off H) (here : d ∈ H)
    (apart : ∀ e ∈ H, at_ + bytes.length ≤ e.size - 512 ∨ e.size ≤ at_) :
    ∀ e ∈ d.write at_ bytes :: H, Ending L ((d.write at_ bytes).read (e.size - 512) 512) := by
  have same {e : ByteStore} (member : e ∈ H) :
      (d.write at_ bytes).read (e.size - 512) 512 = d.read (e.size - 512) 512 := by
    have long := (weathers.version e member).long
    have beside := apart e member
    exact ByteStore.read_write_disjoint (by omega)
  intro e member
  rcases List.mem_cons.mp member with rfl | earlier
  · rw [ByteStore.size_write, same here]
    exact (weathers.beside d here d here).ends
  · rw [same earlier]
    exact (weathers.beside d here e earlier).ends

theorem Outlasts.grow (outlasts : Outlasts L A s h H off) (start : L.dataStart ≤ off)
    (aligned : off % 512 = 0) (short : s.disk.size < off + L.blockTotal + 512)
    (fits : off + L.blockTotal + 512 < 2 ^ 64) :
    Weathers L A off (s.disk.resize (off + L.blockTotal + 512) fits :: H) := by
  have whole := L.blockTotal_mod
  have weathers := outlasts.weathers
  have here := outlasts.here
  have same (x : Nat) : (s.disk.resize (off + L.blockTotal + 512) fits).byte x = s.disk.byte x :=
    ByteStore.byte_resize (Nat.le_of_lt short)
  have sectors := (weathers.version _ here).aligned
  have zeros {e : ByteStore} (member : e ∈ H) :
      Ending L (e.read (off + L.blockTotal + 512 - 512) 512) := by
    have le := outlasts.below e member
    refine Or.inr ((ByteStore.read_eq_iff (by rw [List.length_replicate])).mpr fun j lt => ?_)
    rw [e.beyond _ (by omega), List.getElem_replicate]
  refine weathers.past_tail here start (Nat.le_of_lt short) (by rw [ByteStore.size_resize]; omega)
    (fun x _ => same x) (fun e member => ?_) fun e member => zeros member
  rw [ByteStore.read_congr fun j _ => same _]
  rcases List.mem_cons.mp member with rfl | earlier
  · exact zeros here
  · exact (weathers.beside _ here e earlier).ends

theorem Outlasts.footer (outlasts : Outlasts L A s h H off) (start : L.dataStart ≤ off)
    (aligned : off % 512 = 0) (size : s.disk.size = off + L.blockTotal + 512) :
    Weathers L A off (s.disk.write (off + L.blockTotal) L.footerBytes :: H) := by
  have whole := L.blockTotal_mod
  have long : L.footerBytes.length = 512 := L.whole
  have weathers := outlasts.weathers
  have here := outlasts.here
  have back := ByteStore.read_write_same s.disk (off + L.blockTotal) L.footerBytes (by omega)
  rw [long] at back
  refine weathers.past_tail here start (Nat.le_refl _) (weathers.version _ here).aligned
    (fun x lt => ByteStore.byte_write_outside (Or.inl (by omega))) (fun e member => ?_)
    fun e member => (weathers.beside e member _ here).ends
  rcases List.mem_cons.mp member with rfl | earlier
  · rw [ByteStore.size_write, size, show off + L.blockTotal + 512 - 512 = off + L.blockTotal from
      Nat.add_sub_cancel _ _]
    exact Or.inl back
  · have version := weathers.version e earlier
    have sectors := version.aligned
    have behind := version.long
    by_cases last : e.size - 512 = off + L.blockTotal
    · rw [last]
      exact Or.inl back
    · rw [ByteStore.read_write_disjoint (by omega)]
      exact (weathers.beside _ here e earlier).ends

theorem Outlasts.zero {k n : Nat} (outlasts : Outlasts L A s h H off) (start : L.dataStart ≤ off)
    (level : Level h) (inside : k + n ≤ L.blockTotal) (room : off + L.blockTotal + 512 ≤ s.disk.size) :
    Weathers L A off (s.disk.write (off + k) (List.replicate n 0) :: H) := by
  have weathers := outlasts.weathers
  have here := outlasts.here
  refine weathers.past_tail here start (Nat.le_refl _) (weathers.version _ here).aligned
    (fun x lt => ByteStore.byte_write_outside (Or.inl (by omega)))
    (weathers.ends_write here fun e member => ?_)
    fun e member => (weathers.beside e member _ here).ends
  rw [outlasts.level level e member, List.length_replicate]
  omega

/-- What an operation of a write adds to the versions that may survive. -/
theorem Outlasts.step {op : ImageOp} (clear : Clear L) (sound : Sound L s bat off)
    (trailed : Trailed L (AtTail L) s.disk off) (committed : Committed L s h off)
    (permitted : Permitted L pay (s, h) op) (ordered : Ordered h (.on () op))
    (carried : ∀ b v, pay b = some v → A b v) (outlasts : Outlasts L A s h H off) :
    ∃ off', (s.step op).2.nextAllocOff = some off' ∧ Weathers L A off' ((s.step op).2.disk :: H) := by
  have weathers := outlasts.weathers
  have here := outlasts.here
  have room := sound.room
  have start := sound.start
  have total := L.blockTotal_eq
  have small := L.blockTotal_lt
  have aligned := trailed.aligned
  -- every step that moves no tail
  have same {s' : Image} (step : (s.step op).2 = s') (still : s'.nextAllocOff = s.nextAllocOff)
      (after : Weathers L A off (s'.disk :: H)) : ∃ off', (s.step op).2.nextAllocOff = some off' ∧
        Weathers L A off' ((s.step op).2.disk :: H) := by
    rw [step, still]
    exact ⟨off, sound.tail, after⟩
  have again : Weathers L A off (s.disk :: H) :=
    weathers.subset (List.forall_mem_cons.mpr ⟨here, fun _ member => member⟩)
  -- a block of the cached table is one of the device's
  have block {i e : Nat} (named : Named L pay s i e) : (L.table s.disk)[i]? = some e ∧
      Retained L A i e s.disk ∧ hostOff e + L.blockTotal ≤ s.disk.size := by
    have slot := sound.stored i e (sound.of_named named) named.allocated
    have place := sound.live_slot (sound.of_named named) named.allocated
    exact ⟨slot, (weathers.beside _ here _ here).held i e slot named.allocated, by omega⟩
  cases permitted with
  | look quiet => exact same (quiet_step quiet) rfl again
  | @grow _ _ i at_ wanted tail nameable short =>
      have is := sound.at_tail tail
      subst is
      have low := nameable.lt
      exact same (congrArg Prod.snd (Image.step_setLen (by omega))) rfl
        (outlasts.grow start aligned short (by omega))
  | @footer _ _ i at_ wanted tail nameable room' =>
      have is := sound.at_tail tail
      subst is
      have long : L.footerBytes.length = 512 := L.whole
      exact same (congrArg Prod.snd (Image.step_writeAt (by omega))) rfl
        (outlasts.footer start aligned (trailed.grown (trail_atTail L) room').size)
  | @zero _ _ i at_ k n wanted tail nameable footed inside =>
      have is := sound.at_tail tail
      subst is
      have room' := footed.room
      have long : (List.replicate n (0 : UInt8)).length = n := List.length_replicate
      exact same (congrArg Prod.snd (Image.step_writeAt (by omega))) rfl
        (outlasts.zero start ordered inside room')
  | @commit _ _ i at_ wanted tail nameable fresh =>
      have is := sound.at_tail tail
      subst is
      refine ⟨at_ + L.blockTotal, rfl, again.further fun e member v inTable live => ?_⟩
      have place := (again.version e member).placed v inTable live
      omega
  | @entry _ h' i at_ r wanted tail nameable fresh =>
      have is := sound.at_tail tail
      subst is
      obtain ⟨at', moved, low, past⟩ := committed r h' rfl
      obtain rfl : at' = at_ := by omega
      have tableTop := L.tableEnd_le_metadataEnd
      have top := sound.metadata_lt
      have index := wanted.index
      have stop : L.tableEnd = L.tableOffset + L.entries * 4 := rfl
      have room' := fresh.room
      -- what was in the slot before read as zeros
      have hole : ∀ q < L.blockSize, A (i * L.blockSize + q) 0 := by
        have slot := Layout.getElem?_table (L := L) (d := s.disk) index
        by_cases landed : Live (ofBe (s.disk.read (L.tableOffset + i * 4) 4))
        · have blank := sound.blank i _ (sound.of_wanted wanted) slot landed
          intro q lt
          have whole := L.blockSize_mod
          exact ((weathers.beside _ here _ here).held i _ slot landed q lt).2 (blank _ (by omega))
        · rw [Decidable.not_not.mp landed] at slot
          exact (weathers.version _ here).holes i slot
      have one : Weathers L A (at' + L.blockTotal) [s.disk] :=
        weathers.subset fun e member => by rw [List.mem_singleton.mp member]; exact here
      have both := one.entry clear index nameable rfl low past fresh.zeros (by omega) hole
      refine same (congrArg Prod.snd (Image.step_writeAt (by rw [length_toBe]; omega))) rfl
        (both.subset fun e member => ?_)
      rcases List.mem_cons.mp member with rfl | earlier
      · exact List.mem_cons_self
      · rw [outlasts.clean ordered e earlier]
        exact List.mem_cons_of_mem _ List.mem_cons_self
  | @publish _ h' i at_ wanted nameable stored => exact same rfl rfl again
  | @fill _ _ i e n p len named sector absent low high =>
      obtain ⟨slot, held, fits⟩ := block named
      have whole := L.blockSize_mod
      have long : (List.replicate len (0 : UInt8)).length = len := List.length_replicate
      refine same (congrArg Prod.snd (Image.step_writeAt (by omega))) rfl
        (weathers.in_block here slot named.allocated rfl (fun x out => ?_)
          (held.fill absent low high (by omega)))
      exact ByteStore.byte_write_outside (by omega)
  | @payload _ _ i e p src named inside carries =>
      obtain ⟨slot, held, fits⟩ := block named
      refine same (congrArg Prod.snd (Image.step_writeAt (by omega))) rfl
        (weathers.in_block here slot named.allocated rfl (fun x out => ?_)
          (held.payload (fun j lt => carried _ _ (carries j lt)) (by omega)))
      exact ByteStore.byte_write_outside (by omega)
  | @bitmap _ _ i e bits named length kept defined =>
      obtain ⟨slot, held, fits⟩ := block named
      refine same (congrArg Prod.snd (Image.step_writeAt (by omega))) rfl
        (weathers.in_block here slot named.allocated rfl (fun x out => ?_)
          (held.bitmap length kept (by omega)))
      exact ByteStore.byte_write_outside (by omega)

/-! ## A whole write -/

/-- One file behind a device that may keep what it is given in a volatile cache. -/
def Faults.cached (f : Faults) : Handler (Image × List ByteStore) (Op Unit) Op.Res :=
  f.handler.volatile Image.disk Flushed

theorem Faults.cached_only {f : Faults} {x x' : Image × List ByteStore} {op : Op Unit} {r : op.Res}
    (stepped : f.cached x op r x') : f.handler x.1 op r x'.1 := stepped.1

theorem Faults.handler_still {κ : Type} (key : Image → κ) {f : Faults} {s s' : Image} {op : ImageOp}
    {r : op.Res} (same : key (s.step op).2 = key s) (stepped : f.handler s (.on () op) r s') :
    key s' = key s := by
  rcases Faults.handler_on stepped with ideal | ⟨-, ⟨-, rfl⟩ | ⟨-, rfl⟩⟩
  · rw [show s' = (s.step op).2 from congrArg Prod.snd ideal]
    exact same
  · rfl
  · exact same

theorem Faults.handler_level {f : Faults} {s s' : Image} {op : Op Unit} {r : op.Res}
    (still : ¬ op.Resizes) (stepped : f.handler s op r s') : s'.disk.size = s.disk.size := by
  cases op with
  | on dev op =>
      refine Faults.handler_still (fun s => s.disk.size) ?_ stepped
      cases op with
      | writeAt role off bytes =>
          simp only [Image.step]
          split <;> rfl
      | setLen len => exact absurd trivial still
      | fileSetLen len => exact absurd trivial still
      | fileWriteAll off bytes => exact absurd trivial still
      | _ => rfl
  | pathExists path => rw [stepped.2]
  | openFile path writable => rw [stepped.2]
  | createFile path => exact absurd trivial still

theorem Faults.handler_clean {f : Faults} {s s' : Image} {op : Op Unit} {r : op.Res}
    (still : ¬ op.Alters) (stepped : f.handler s op r s') : s'.disk = s.disk := by
  cases op with
  | on dev op =>
      refine Faults.handler_still Image.disk ?_ stepped
      cases op with
      | writeAt role off bytes => exact absurd trivial still
      | setLen len => exact absurd trivial still
      | fileSetLen len => exact absurd trivial still
      | fileWriteAll off bytes => exact absurd trivial still
      | _ => rfl
  | pathExists path => rw [stepped.2]
  | openFile path writable => rw [stepped.2]
  | createFile path => exact absurd trivial still

/-- What survives of one operation, if its effect keeps the versions sound. -/
theorem Outlasts.kept {f : Faults} {op : ImageOp} {r : op.Res} {x' : (Image × List ByteStore) × History}
    (outlasts : Outlasts L A s h H off) (tail : s.nextAllocOff = some off)
    (stepped : f.cached.traced ((s, H), h) (.on () op) r x') (grown : s.disk.size ≤ x'.1.1.disk.size)
    (after : ∃ off', (s.step op).2.nextAllocOff = some off' ∧
      Weathers L A off' ((s.step op).2.disk :: H)) :
    ∃ off', x'.1.1.nextAllocOff = some off' ∧ Outlasts L A x'.1.1 x'.2 x'.1.2 off' := by
  obtain ⟨⟨s', H'⟩, h'⟩ := x'
  obtain ⟨stepped, rfl⟩ := stepped
  have only : f.handler s (.on () op) r s' := Faults.cached_only stepped
  have fewer := Handler.volatile_subset stepped
  obtain ⟨off', tail', weathers⟩ : ∃ off', s'.nextAllocOff = some off' ∧
      Weathers L A off' (s'.disk :: H) := by
    rcases Faults.handler_on only with ideal | ⟨-, ⟨-, rfl⟩ | ⟨-, rfl⟩⟩
    · rw [show s' = (s.step op).2 from congrArg Prod.snd ideal]
      exact after
    · exact ⟨off, tail, outlasts.weathers.subset
        (List.forall_mem_cons.mpr ⟨outlasts.here, fun _ member => member⟩)⟩
    · exact after
  refine ⟨off', tail', ⟨weathers.subset fun e member => List.mem_cons.mpr (fewer e member),
    Handler.volatile_here stepped, fun e member => ?_⟩, ?_, ?_⟩
  · rcases fewer e member with rfl | earlier
    · exact Nat.le_refl _
    · exact Nat.le_trans (outlasts.below e earlier) grown
  · exact Handler.volatile_agrees ByteStore.size
      (fun _ _ _ _ still stepped => Faults.handler_level still stepped) outlasts.level stepped
  · exact Handler.volatile_agrees id
      (fun _ _ _ _ still stepped => Faults.handler_clean still stepped) outlasts.clean stepped

theorem Sheltered.looks {α : Type} {f : Faults} {p p' : Prog (Op Unit) Op.Res α} {s' : Image}
    {H' : List ByteStore} {t} (sheltered : Sheltered L A off s.disk H)
    (run : Prog.Runs f.cached p (s, H) t p' (s', H'))
    (cut : ∀ t p' s', Prog.Runs f.handler p s t p' s' → s'.disk = s.disk) :
    Sheltered L A off s'.disk H' := by
  have along := run.along (P := fun x => x.1.disk = s.disk) fun t p' x rest =>
    cut t p' x.1 (rest.part Prod.fst fun _ _ _ _ stepped => Faults.cached_only stepped)
  have kept := along.keeps (I := fun x => x.1.disk = s.disk ∧ Sheltered L A off s.disk x.2) ?_ ⟨rfl, sheltered⟩
  · rw [kept.1]
    exact kept.2
  · rintro x op r x' ⟨stepped, same⟩ ⟨-, sheltered⟩
    refine ⟨same, sheltered.same (fun e member => ?_) ?_⟩
    · rw [← same]
      exact Handler.volatile_subset stepped e member
    · rw [← same]
      exact Handler.volatile_here stepped

end Outlasts

end ImgVhd
