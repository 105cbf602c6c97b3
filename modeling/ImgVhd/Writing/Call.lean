import ImgVhd.Writing.Block

/-! # A whole write

One block's critical section, and the rule for a call of `write_at`: what its
caller knows while no lock is held, what holds inside a section, and what these
have to do with each other. The rule does not say what other threads do in
between, so it serves a single writer and many.
-/

namespace ImgVhd

open Foundation

section Section_

variable {L : Layout} {pay : Nat → Option UInt8} {f : Faults} {s : Image} {h : History}
  {i a : Nat} {w fm : Bool} {src : Bytes}

/-- What a write needs of an image: a cached table whose blocks are on the
    device, a tail, and room for the table. -/
structure Ready (L : Layout) (s : Image) : Prop where
  cached : ∃ bat, s.bat = some bat ∧ bat.length = L.entries ∧
    ∀ e ∈ bat, e ≠ batUnallocated → Roomy L s e
  tail : ∃ off, s.nextAllocOff = some off
  table : L.tableEnd ≤ s.disk.size

/-- What a finished section did to the cached table, the tail and the length. -/
inductive Moved (L : Layout) (s s' : Image) (i : Nat) : Prop where
  | kept {bat e} (cached : s.bat = some bat) (entry : bat[i]? = some e)
      (allocated : e ≠ batUnallocated) (bat' : s'.bat = s.bat)
      (tail' : s'.nextAllocOff = s.nextAllocOff) (size : s'.disk.size = s.disk.size)
  | allocated {bat off} (cached : s.bat = some bat) (free : bat[i]? = some batUnallocated)
      (tail : s.nextAllocOff = some off) (after : Allocated L s s' bat i off)

/-- What a finished section leaves: block `i` holds the payload from byte `a`. -/
structure Wrote (L : Layout) (s s' : Image) (i a : Nat) (src : Bytes) : Prop where
  moved : Moved L s s' i
  took : ∃ bat e, s'.bat = some bat ∧ bat[i]? = some e ∧ e ≠ batUnallocated ∧
    Took L s'.disk e a src

theorem writeBlockLocked_wp (ready : Ready L s) (index : i < L.entries)
    (nonempty : 0 < src.length) (inside : a + src.length ≤ L.blockSize)
    (carries : ∀ j (lt : j < src.length), pay (i * L.blockSize + a + j) = some src[j]) :
    Code.wp f.handler.traced (Permits L pay)
      (writeBlockLocked (L.core () w fm) none s.bat i a src)
      (fun _ x' => Wrote L s x'.1 i a src) (Denied f s i) (s, h) := by
  obtain ⟨bat, cached, length, roomy⟩ := ready.cached
  obtain ⟨off, tail⟩ := ready.tail
  have touched : L.Touches pay i := by
    refine ⟨a, by omega, ?_⟩
    have first := carries 0 nonempty
    rw [Nat.add_zero] at first
    rw [first]
    rfl
  have slot : i < bat.length := by omega
  unfold writeBlockLocked
  simp only [cached, okOr, Code.lift_ok_bind]
  rw [if_neg (by omega), getAt_of_lt slot, Code.lift_ok_bind]
  split
  · rename_i free
    have free : bat[i]? = some batUnallocated := by rw [List.getElem?_eq_getElem slot, free]
    refine Code.wp_seq (allocateBlockLocked_wp touched index cached free tail ready.table) ?_
    rintro off' ⟨s₁, h₁⟩ ⟨rfl, after⟩
    have here := after.nameable.hostOff
    have size := after.size
    have below := after.nameable.below
    simp only at size
    have fresh : (bat.set i (off' / 512))[i]? = some (off' / 512) := List.getElem?_set_self slot
    rw [← here]
    refine fillBlock_wp ⟨touched, index, ⟨_, after.bat, fresh⟩, Nat.ne_of_lt below⟩ ⟨?_, ?_⟩
      nonempty inside carries fun d h' size' took => ?_
    · unfold batUnallocated at below
      omega
    · rw [here]
      omega
    · refine ⟨.allocated cached free tail ⟨after.nameable, after.bat, after.tail, ?_⟩,
        _, _, after.bat, fresh, Nat.ne_of_lt below, took⟩
      simp only
      rw [size']
      exact size
  · rename_i allocated
    have entry : bat[i]? = some bat[i] := List.getElem?_eq_getElem slot
    have block := roomy bat[i] (List.getElem_mem slot) allocated
    rw [mul64_hostOff block.word, Code.lift_ok_bind]
    exact fillBlock_wp ⟨touched, index, ⟨_, cached, entry⟩, allocated⟩ block nonempty inside
      carries fun d h' size took =>
        ⟨.kept cached entry allocated rfl rfl size, _, _, cached, entry, allocated, took⟩

end Section_

/-- The payload of a call, as a partial function of virtual bytes. -/
def payload (offset : Nat) (buf : Bytes) (b : Nat) : Option UInt8 :=
  if offset ≤ b then buf[b - offset]? else none

theorem payload_inside {offset b : Nat} {buf : Bytes} {v : UInt8}
    (carried : payload offset buf b = some v) : offset ≤ b ∧ b < offset + buf.length := by
  unfold payload at carried
  split at carried
  · rename_i low
    obtain ⟨inside, -⟩ := List.getElem?_eq_some_iff.mp carried
    exact ⟨low, by omega⟩
  · cases carried

theorem touches_payload {L : Layout} {offset : Nat} {buf : Bytes} {i : Nat} :
    L.Touches (payload offset buf) i ↔
      ∃ b, offset ≤ b ∧ b < offset + buf.length ∧ b / L.blockSize = i := by
  constructor
  · rintro ⟨j, lt, carried⟩
    obtain ⟨block, -⟩ := L.block_of (k := i) lt
    obtain ⟨v, carried⟩ := Option.isSome_iff_exists.mp carried
    obtain ⟨low, high⟩ := payload_inside carried
    exact ⟨i * L.blockSize + j, low, high, block⟩
  · rintro ⟨b, low, high, rfl⟩
    have split := L.block_split b
    refine ⟨b % L.blockSize, split.2, ?_⟩
    rw [split.1, payload, if_pos low, List.getElem?_eq_getElem (by omega)]
    rfl

theorem payload_chunk {offset c written n j : Nat} {buf : Bytes} (reached : offset + written = c)
    (lt : j < ((buf.drop written).take n).length) :
    payload offset buf (c + j) = some ((buf.drop written).take n)[j] := by
  have inside : j < (buf.drop written).length := Nat.lt_of_lt_of_le lt (List.length_take_le' _ _)
  rw [List.length_drop] at inside
  rw [payload, if_pos (by omega), List.getElem_take, List.getElem_drop,
    ← List.getElem?_eq_getElem]
  congr 1
  omega

/-- What makes a call of `write_at` go through under `H`. `J c` is known between
    sections, when the bytes below `c` are written; `M c x₀` inside the section
    that starts at `c`, from `x₀`. -/
structure WriteRule (L : Layout) (f : Faults) (offset : Nat) (buf : Bytes)
    (H : Handler (Image × History) (Op Unit) Op.Res) (J : Nat → Image × History → Prop)
    (M : Nat → Image × History → Image × History → Prop)
    (E : Error → Image × History → Prop) : Prop where
  enter : ∀ c x r x', J c x → c < offset + buf.length → H x (.on () .lockBat) r x' →
    r = x'.1.bat ∧ Ready L x'.1 ∧ M c x' x'
  inside : ∀ c x₀ x op r x', M c x₀ x → Permitted L (payload offset buf) x op →
    H x (.on () op) r x' → f.handler.traced x (.on () op) r x'
  kept : ∀ c x₀ x op r x', M c x₀ x → Permitted L (payload offset buf) x op →
    H x (.on () op) r x' → f.handler.traced x (.on () op) r x' → M c x₀ x'
  done : ∀ c y q x₀ x src, J c y → H y (.on () .lockBat) q x₀ → M c x₀ x → Ready L x₀.1 →
    0 < src.length →
    c % L.blockSize + src.length ≤ L.blockSize →
    (∀ j (lt : j < src.length), payload offset buf (c + j) = some src[j]) →
    Wrote L x₀.1 x.1 (c / L.blockSize) (c % L.blockSize) src → J (c + src.length) x
  leave : ∀ c x r x', J c x → H x (.on () .unlockBat) r x' → J c x'
  fail : ∀ c x₀ x e r x', M c x₀ x → Denied f x₀.1 (c / L.blockSize) e x →
    H x (.on () .unlockBat) r x' → E e x'

/-- What a call issues, and when. -/
inductive Issues (L : Layout) (f : Faults) (pay : Nat → Option UInt8)
    (J : Nat → Image × History → Prop) (M : Nat → Image × History → Image × History → Prop) :
    Image × History → Op Unit → Prop where
  | lock {c x} (known : J c x) : Issues L f pay J M x (.on () .lockBat)
  | inside {c x₀ x op} (held : M c x₀ x) (permitted : Permitted L pay x op) :
      Issues L f pay J M x (.on () op)
  | unlock {c x} (known : J c x) : Issues L f pay J M x (.on () .unlockBat)
  | abandon {c e} {x₀ x : Image × History} (held : M c x₀ x)
      (denied : Denied f x₀.1 (c / L.blockSize) e x) : Issues L f pay J M x (.on () .unlockBat)

/-- A rule may keep an account `K` of the finished sections besides. When the call
    fails, it tells what the account was at the section that failed. -/
theorem WriteRule.also {L : Layout} {f : Faults} {offset : Nat} {buf : Bytes}
    {J : Nat → Image × History → Prop} {M : Nat → Image × History → Image × History → Prop}
    {E : Error → Image × History → Prop} {K : Nat → Image → Prop}
    (rule : WriteRule L f offset buf f.handler.traced J M E)
    (section_ : ∀ c x₀ x src, K c x₀ → 0 < src.length →
      c % L.blockSize + src.length ≤ L.blockSize → Wrote L x₀ x (c / L.blockSize) (c % L.blockSize) src →
      K (c + src.length) x) :
    WriteRule L f offset buf f.handler.traced (fun c x => J c x ∧ K c x.1)
      (fun c x₀ x => M c x₀ x ∧ c < offset + buf.length ∧ K c x₀.1)
      (fun e x => E e x ∧ ∃ c x₀ h, c < offset + buf.length ∧ K c x₀ ∧
        Denied f x₀ (c / L.blockSize) e (x.1, h)) := by
  constructor
  case enter =>
    rintro c x r x' ⟨known, account⟩ more locked
    obtain ⟨answer, ready, held⟩ := rule.enter c x r x' known more locked
    obtain ⟨-, rfl⟩ := Faults.traced_lock locked
    exact ⟨answer, ready, held, more, account⟩
  case inside =>
    exact fun c x₀ x op r x' held permitted stepped => stepped
  case kept =>
    exact fun c x₀ x op r x' held permitted stepped inside =>
      ⟨rule.kept c x₀ x op r x' held.1 permitted stepped inside, held.2⟩
  case done =>
    rintro c y q x₀ x src ⟨known, -⟩ locked ⟨held, -, account⟩ ready nonempty inside carries wrote
    exact ⟨rule.done c y q x₀ x src known locked held ready nonempty inside carries wrote,
      section_ c _ _ src account nonempty inside wrote⟩
  case leave =>
    rintro c x r x' ⟨known, account⟩ unlocked
    have known' := rule.leave c x r x' known unlocked
    obtain rfl := Faults.traced_unlock unlocked
    exact ⟨known', account⟩
  case fail =>
    rintro c x₀ x e r x' ⟨held, more, account⟩ denied unlocked
    have failed := rule.fail c x₀ x e r x' held denied unlocked
    obtain rfl := Faults.traced_unlock unlocked
    exact ⟨failed, c, x₀.1, x.2, more, account, denied⟩

section Call

variable {L : Layout} {f : Faults} {offset : Nat} {buf : Bytes} {w fm : Bool}
  {H : Handler (Image × History) (Op Unit) Op.Res} {J : Nat → Image × History → Prop}
  {M : Nat → Image × History → Image × History → Prop} {E : Error → Image × History → Prop}

theorem writeBlock_wp (rule : WriteRule L f offset buf H J M E) {x : Image × History}
    {t : WriteCursor} (within : offset + buf.length ≤ L.virtualSize)
    (reached : offset + t.written = t.cursor) (more : t.cursor < offset + buf.length)
    (known : J t.cursor x) :
    Code.wp H (Issues L f (payload offset buf) J M)
      (writeBlock (L.core () w fm) none L.blockSize (L.blockSize - 1) (offset + buf.length) buf t)
      (fun t' x' => offset + t'.written = t'.cursor ∧ t.cursor < t'.cursor ∧
        t'.cursor ≤ offset + buf.length ∧ J t'.cursor x') E x := by
  have small := L.virtualSize_lt
  have inBlock : t.cursor % L.blockSize < L.blockSize := Nat.mod_lt _ L.blockSize_pos
  have split := Nat.div_add_mod t.cursor L.blockSize
  have index : t.cursor / L.blockSize < L.entries := L.block_lt (by omega)
  unfold writeBlock
  simp only [L.validBlockSize.mask]
  rw [sub64_of_le (by omega), Code.lift_ok_bind, sub64_of_le (by omega), Code.lift_ok_bind]
  generalize length : min (L.blockSize - t.cursor % L.blockSize) (offset + buf.length - t.cursor) = n
  have positive : 0 < n := by omega
  have inside : t.cursor % L.blockSize + n ≤ L.blockSize := by omega
  have stop : t.cursor + n ≤ offset + buf.length := by omega
  refine (Code.wp_bind _ _).mpr ((Code.wp_perform _).mpr ⟨.lock known, ?_⟩)
  rintro r ⟨s₁, h₁⟩ locked
  obtain ⟨rfl, ready, held⟩ := rule.enter _ _ _ _ known more locked
  refine (Code.wp_bind _ _).mpr (Code.wp_ensuring ?_)
  rw [sliceOf_of_le (by omega) (by omega), Code.lift_ok_bind, Nat.add_sub_cancel_left]
  obtain ⟨src, chunk⟩ : ∃ src, src = (buf.drop t.written).take n := ⟨_, rfl⟩
  have sliced : src.length = n := by
    rw [chunk, List.length_take, List.length_drop]
    omega
  have carries : ∀ j (lt : j < src.length), payload offset buf (t.cursor + j) = some src[j] := by
    subst chunk
    exact fun j lt => payload_chunk reached lt
  rw [← chunk]
  have locally : Code.wp f.handler.traced (Permits L (payload offset buf))
      (writeBlockLocked (L.core () w fm) none s₁.bat (t.cursor / L.blockSize)
        (t.cursor % L.blockSize) src)
      (fun _ x' => Wrote L s₁ x'.1 (t.cursor / L.blockSize) (t.cursor % L.blockSize) src)
      (Denied f s₁ (t.cursor / L.blockSize)) (s₁, h₁) := by
    refine writeBlockLocked_wp ready index (by omega) (by omega) fun j lt => ?_
    rw [Nat.mul_comm, split]
    exact carries j lt
  refine Code.wp_mono (Code.wp_invariant (I := M t.cursor (s₁, h₁)) locally ?inside ?kept held)
    ?guard ?ok ?err
  case inside =>
    intro x op r x' permits held stepped
    obtain ⟨o, rfl, permitted⟩ := permits.on_image
    exact rule.inside _ _ _ _ _ _ held permitted stepped
  case kept =>
    intro x op r x' permits held stepped
    obtain ⟨o, rfl, permitted⟩ := permits.on_image
    exact rule.kept _ _ _ _ _ _ held permitted stepped (rule.inside _ _ _ _ _ _ held permitted stepped)
  case guard =>
    rintro x op ⟨permits, held⟩
    obtain ⟨o, rfl, permitted⟩ := permits.on_image
    exact .inside held permitted
  case ok =>
    rintro _ x' ⟨wrote, held'⟩
    have reached' := rule.done _ _ _ _ _ src known locked held' ready (by omega) (by omega) carries wrote
    rw [sliced] at reached'
    refine ⟨.unlock reached', fun r x'' unlocked => ?_⟩
    rw [add64_of_lt (by omega), Code.lift_ok_bind, add64_of_lt (by omega)]
    exact ⟨by simp only; omega, by simp only; omega, by simp only; omega,
      rule.leave _ _ _ _ reached' unlocked⟩
  case err =>
    rintro e x' ⟨denied, held'⟩
    exact ⟨.abandon held' denied, fun r x'' unlocked =>
      rule.fail _ _ _ _ _ _ held' denied unlocked⟩

/-- The rule of a whole call. -/
theorem writeAt_wp_rule (fm : Bool) (rule : WriteRule L f offset buf H J M E)
    (dynamic : L.footer.diskType = .dynamic) (within : offset + buf.length ≤ L.virtualSize)
    {x : Image × History} (known : J offset x) :
    Code.wp H (Issues L f (payload offset buf) J M)
      ((VhdReader.base (L.core () true fm)).writeAt offset buf)
      (fun _ x' => J (offset + buf.length) x') E x := by
  have small := L.virtualSize_lt
  have opened : (L.core () true fm).writable = true := rfl
  have kind : (L.core () true fm).footer.diskType = .dynamic := dynamic
  have writable : (L.core () true fm).writable_ = true := by
    simp [Core.writable_, opened, kind]
  change Code.wp H _ ((L.core () true fm).writeAt none offset buf) _ E x
  unfold Core.writeAt
  simp only [writable, opened, kind, Bool.not_true, Bool.false_eq_true, if_false]
  by_cases empty : buf.length = 0
  · rw [if_pos empty, empty]
    exact known
  rw [if_neg empty, checkedAdd_of_lt (by omega), Code.lift_ok_bind,
    if_neg (show ¬ (L.core () true fm).virtualSize < offset + buf.length from
      Nat.not_lt.mpr within)]
  unfold writeSparse
  change Code.wp H _ (liftM (okOr _ (some L.header)) >>= _) _ E x
  simp only [okOr, Code.lift_ok_bind]
  have positive := L.blockSize_pos
  rw [sub64_of_le (show 1 ≤ L.header.blockSize from positive), Code.lift_ok_bind,
    add64_of_lt (by omega), Code.lift_ok_bind]
  refine (Code.wp_bind _ _).mpr (Code.wp_whileLoop
    (fun t x => offset + t.written = t.cursor ∧ t.cursor ≤ offset + buf.length ∧ J t.cursor x)
    (fun t => offset + buf.length - t.cursor) ?positive ?turn ?done _ _ _
    ⟨by simp, by simp, known⟩ (by simp only; omega))
  case positive =>
    rintro t x - more
    have more := of_decide_eq_true more
    omega
  case turn =>
    rintro t x ⟨reached, -, known⟩ more
    have more := of_decide_eq_true more
    refine Code.wp_mono (writeBlock_wp rule within reached more known) (fun _ _ g => g) ?_
      fun _ _ e => e
    rintro t' x' ⟨reached', forward, le, known'⟩
    exact ⟨⟨reached', le, known'⟩, by omega⟩
  case done =>
    rintro t x ⟨-, le, known⟩ stop
    have stop := of_decide_eq_false stop
    have finished : t.cursor = offset + buf.length := by omega
    rw [finished] at known
    exact known

end Call

section Outside

variable {L : Layout} {fm : Bool} {offset : Nat} {buf : Bytes}

theorem writeAt_idle (fm : Bool) (dynamic : L.footer.diskType = .dynamic)
    (idle : buf = [] ∨ L.virtualSize < offset + buf.length) :
    ∃ out, (VhdReader.base (L.core () true fm)).writeAt offset buf = .ret out ∧
      (out = .ok () ↔ buf = []) := by
  have opened : (L.core () true fm).writable = true := rfl
  have kind : (L.core () true fm).footer.diskType = .dynamic := dynamic
  have writable : (L.core () true fm).writable_ = true := by
    simp [Core.writable_, opened, kind]
  change ∃ out, (L.core () true fm).writeAt none offset buf = .ret out ∧ _
  unfold Core.writeAt
  simp only [writable, opened, Bool.not_true, Bool.false_eq_true, if_false]
  by_cases empty : buf.length = 0
  · rw [if_pos empty]
    exact ⟨_, rfl, fun _ => List.length_eq_zero_iff.mp empty, fun _ => rfl⟩
  have some_ : buf ≠ [] := fun none_ => empty (by rw [none_]; rfl)
  have outside : L.virtualSize < offset + buf.length := idle.resolve_left some_
  rw [if_neg empty]
  by_cases fits : offset + buf.length < 2 ^ 64
  · rw [checkedAdd_of_lt fits, Code.lift_ok_bind,
      if_pos (show (L.core () true fm).virtualSize < offset + buf.length from outside)]
    exact ⟨_, rfl, fun no => (by cases no), fun none_ => absurd none_ some_⟩
  · rw [checkedAdd, if_neg fits]
    exact ⟨_, rfl, fun no => (by cases no), fun none_ => absurd none_ some_⟩

theorem writeAt_runs {f : Faults} {s s' : Image} {t : List (Event (Op Unit) Op.Res)} {p : Io Unit Unit}
    (dynamic : L.footer.diskType = .dynamic)
    (idle : buf = [] ∨ L.virtualSize < offset + buf.length)
    (run : Prog.Runs f.handler ((VhdReader.base (L.core () true fm)).writeAt offset buf) s t p s') :
    t = [] ∧ s' = s ∧ ∃ out, p = .ret out ∧ (out = .ok () ↔ buf = []) := by
  obtain ⟨out, is, empty⟩ := writeAt_idle fm dynamic idle
  rw [is] at run
  cases run
  exact ⟨rfl, rfl, out, rfl, empty⟩

end Outside

end ImgVhd
