import ImgVhd.Writing.Sections
import ImgVhd.Writing.Sequential
import ImgVhd.Foundation.Pool

/-! # A write among others

A call of `write_at` has its sections under the BAT lock, and between them it knows
nothing but what it has written. `Paused` is such a call outside its sections and
`Amid` inside one. What other threads do to the image in the meantime is `Drifts`.
-/

namespace ImgVhd

open Foundation

/-- What an operation does with the BAT lock. -/
def Op.locking {δ : Type} : Op δ → Locking
  | .on _ .lockBat => .takes
  | .on _ .unlockBat => .drops
  | .on _ .fetchBat => .waits
  | _ => .passes

section Drifts

variable {L : Layout} {pay : Nat → Option UInt8} {W W' : Nat → UInt8 → Prop} {s s' s'' : Image}
  {bat bat' : List Nat} {off off' c i : Nat} {src : Bytes}

/-- How an image may change while writes of `W` go on. -/
def Drifts (L : Layout) (W : Nat → UInt8 → Prop) (s s' : Image) : Prop :=
  ∀ bat off, Sound L s bat off → ∃ bat' off', Sound L s' bat' off' ∧ Evolves L W s s' bat bat'

theorem Drifts.refl : Drifts L W s s :=
  fun bat off sound => ⟨bat, off, sound, .refl⟩

theorem Drifts.trans (first : Drifts L W s s') (then_ : Drifts L W s' s'') : Drifts L W s s'' := by
  intro bat off sound
  obtain ⟨bat', off', sound', evolves⟩ := first bat off sound
  obtain ⟨bat'', off'', sound'', evolves'⟩ := then_ bat' off' sound'
  exact ⟨bat'', off'', sound'', evolves.trans evolves'⟩

theorem Drifts.mono (drifts : Drifts L W s s') (wider : ∀ b v, W b v → W' b v) : Drifts L W' s s' := by
  intro bat off sound
  obtain ⟨bat', off', sound', evolves⟩ := drifts bat off sound
  exact ⟨bat', off', sound', evolves.mono wider⟩

theorem Sound.unique (sound : Sound L s bat off) (sound' : Sound L s bat' off') :
    bat' = bat ∧ off' = off :=
  ⟨Option.some.inj (sound'.cached.symm.trans sound.cached), sound.at_tail sound'.tail⟩

theorem Drifts.of_evolves (sound : Sound L s bat off) (sound' : Sound L s' bat' off')
    (evolves : Evolves L W s s' bat bat') : Drifts L W s s' := by
  intro bat₁ off₁ sound₁
  obtain ⟨rfl, rfl⟩ := sound.unique sound₁
  exact ⟨bat', off', sound', evolves⟩

theorem Sound.drifts {h : History} {op : ImageOp} {r : op.Res} (clear : Clear L)
    (sound : Sound L s bat off) (committed : Committed L s h off)
    (permitted : Permitted L pay (s, h) op) (stepped : Faults.none.handler s (.on () op) r s') :
    ∃ bat' off', Sound L s' bat' off' ∧ Committed L s' (⟨.on () op, r⟩ :: h) off' ∧
      Drifts L (Carries pay) s s' := by
  have traced : Faults.none.handler.traced (s, h) (.on () op) r (s', ⟨.on () op, r⟩ :: h) :=
    ⟨stepped, rfl⟩
  obtain ⟨bat', off', kept⟩ := sound.traced_step clear.next committed permitted traced
  exact ⟨bat', off', kept.sound, kept.committed, .of_evolves sound kept.sound kept.evolves⟩

theorem Permitted.passes {x : Image × History} {op : ImageOp} (permitted : Permitted L pay x op) :
    Op.locking (.on () op) = .passes := by
  cases permitted with
  | look quiet held =>
      cases op <;> first | rfl | exact absurd rfl held | exact quiet.elim
  | _ => rfl

/-! ## What a call has written -/

/-- The payload below `c` reached the image, and what is there now was carried by
    a write of `W`. -/
def Known (L : Layout) (pay : Nat → Option UInt8) (W : Nat → UInt8 → Prop) (c : Nat) (s : Image) :
    Prop :=
  ∃ bat off, Sound L s bat off ∧ ∀ b v, b < c → pay b = some v →
    ∃ v', L.own s.disk bat b = some v' ∧ W b v'

theorem Known.drifts (known : Known L pay W c s) (drifts : Drifts L W' s s')
    (wider : ∀ b v, W' b v → W b v) : Known L pay W c s' := by
  obtain ⟨bat, off, sound, written⟩ := known
  obtain ⟨bat', off', sound', evolves⟩ := drifts bat off sound
  refine ⟨bat', off', sound', fun b v below carried => ?_⟩
  obtain ⟨v', held, from_⟩ := written b v below carried
  obtain ⟨v'', now, rfl | later⟩ := evolves.own held
  · exact ⟨v'', now, from_⟩
  · exact ⟨v'', now, wider b v'' later⟩

theorem Known.wrote {s₀ : Image} {offset : Nat} {buf : Bytes}
    (known : Known L (payload offset buf) W c s₀) (drifts : Drifts L (Carries (payload offset buf)) s₀ s)
    (wider : ∀ b v, payload offset buf b = some v → W b v)
    (wrote : Wrote L s₀ s (c / L.blockSize) (c % L.blockSize) src)
    (inside : c % L.blockSize + src.length ≤ L.blockSize)
    (carries : ∀ j (lt : j < src.length), payload offset buf (c + j) = some src[j]) :
    Known L (payload offset buf) W (c + src.length) s := by
  obtain ⟨bat, off, sound, written⟩ := known.drifts drifts wider
  refine ⟨bat, off, sound, fun b v below carried => ?_⟩
  by_cases earlier : b < c
  · exact written b v earlier carried
  · exact ⟨v, wrote.here sound.cached inside carries (by omega) below carried, wider b v carried⟩

end Drifts

section Thread

variable {L : Layout} {fm : Bool} {offset c : Nat} {buf : Bytes} {s₀ s s' : Image} {p : Io Unit Unit}
  {bat : List Nat} {off : Nat}

/-! ## One call -/

/-- What a call does when a section that reached `c` is over. -/
def Layout.resume (L : Layout) (fm : Bool) (offset : Nat) (buf : Bytes) (c : Nat)
    (out : Outcome Error Unit) : Io Unit Unit :=
  Code.bind (Code.lift out) fun _ => L.sections (L.core () true fm) c (buf.drop (c - offset))

/-- Outside its sections, when the bytes below `c` are written. -/
structure Paused (L : Layout) (fm : Bool) (offset : Nat) (buf : Bytes) (c : Nat) (p : Io Unit Unit) :
    Prop where
  low : offset ≤ c
  high : c ≤ offset + buf.length
  within : c < offset + buf.length → offset + buf.length ≤ L.virtualSize
  rest : p = L.sections (L.core () true fm) c (buf.drop (c - offset))

/-- The part of the payload that the section from `c` writes. -/
def Layout.part (L : Layout) (offset : Nat) (buf : Bytes) (c : Nat) : Bytes :=
  (buf.drop (c - offset)).take (L.chunk c (buf.drop (c - offset)).length)

/-- Inside the section from `c`, which it entered when the image was `s₀`. -/
structure Amid (L : Layout) (fm : Bool) (offset : Nat) (buf : Bytes) (c : Nat) (s₀ s : Image)
    (p : Io Unit Unit) : Prop where
  low : offset ≤ c
  more : c < offset + buf.length
  within : offset + buf.length ≤ L.virtualSize
  drifts : Drifts L (Carries (payload offset buf)) s₀ s
  left : ∃ (q : Io Unit Unit) (h : History) (bat : List Nat) (off : Nat), Sound L s bat off ∧
    Committed L s h off ∧
    Code.wp Faults.none.handler.traced (Permits L (payload offset buf)) q
      (fun _ x => Wrote L s₀ x.1 (c / L.blockSize) (c % L.blockSize) (L.part offset buf c))
      (Denied .none s₀ (c / L.blockSize)) (s, h) ∧
    p = Prog.bind q fun out => Prog.call (.on () .unlockBat) fun _ =>
      L.resume fm offset buf (c + (L.part offset buf c).length) out

theorem Layout.part_spec (low : offset ≤ c) (more : c < offset + buf.length) :
    0 < (L.part offset buf c).length ∧ c + (L.part offset buf c).length ≤ offset + buf.length ∧
      c % L.blockSize + (L.part offset buf c).length ≤ L.blockSize ∧
      ∀ j (lt : j < (L.part offset buf c).length),
        payload offset buf (c + j) = some (L.part offset buf c)[j] := by
  have inside := L.chunk_le c (buf.drop (c - offset)).length
  have positive := L.chunk_pos c (show 0 < (buf.drop (c - offset)).length by
    rw [List.length_drop]
    omega)
  have length : (L.part offset buf c).length = L.chunk c (buf.drop (c - offset)).length := by
    rw [Layout.part, List.length_take]
    omega
  rw [List.length_drop] at inside positive length
  exact ⟨by omega, by omega, by omega, fun j lt => payload_chunk (Nat.add_sub_cancel' low) lt⟩

/-- What a call does from byte `c` on when it got the lock. -/
def Layout.locked (L : Layout) (fm : Bool) (offset : Nat) (buf : Bytes) (c : Nat)
    (held : Option (List Nat)) : Io Unit Unit :=
  Prog.bind (writeBlockLocked (L.core () true fm) none held (c / L.blockSize) (c % L.blockSize)
      (L.part offset buf c)) fun out =>
    Prog.call (.on () .unlockBat) fun _ =>
      L.resume fm offset buf (c + (L.part offset buf c).length) out

theorem blockSection_bind {i a : Nat} {src : Bytes} (core : Core Unit) (f : Unit → Io Unit Unit) :
    (blockSection core i a src >>= f) = (Prog.call (.on core.dev .lockBat) fun held =>
      Prog.bind (writeBlockLocked core none held i a src) fun out =>
        Prog.call (.on core.dev .unlockBat) fun _ => Code.bind (Code.lift out) f : Io Unit Unit) := by
  have whole : (blockSection core i a src >>= f) = ask core.dev .lockBat >>= fun held =>
      Code.ensuring (writeBlockLocked core none held i a src) (.on core.dev .unlockBat) >>= f :=
    Code.bind_assoc (ask core.dev .lockBat) _ _
  rw [whole]
  refine congrArg (Prog.call _) (funext fun held => ?_)
  exact Code.ensuring_bind _ _ _

theorem sections_locked (more : c < offset + buf.length) (low : offset ≤ c) :
    L.sections (L.core () true fm) c (buf.drop (c - offset)) =
      Prog.call (.on () .lockBat) (L.locked fm offset buf c) := by
  have some_ : 0 < (buf.drop (c - offset)).length := by
    rw [List.length_drop]
    omega
  have length : (L.part offset buf c).length = L.chunk c (buf.drop (c - offset)).length := by
    have fits := L.chunk_le c (buf.drop (c - offset)).length
    rw [Layout.part, List.length_take]
    omega
  have further : (buf.drop (c - offset)).drop (L.chunk c (buf.drop (c - offset)).length) =
      buf.drop (c + (L.part offset buf c).length - offset) := by
    rw [List.drop_drop, length]
    congr 1
    omega
  have reached : c + L.chunk c (buf.drop (c - offset)).length = c + (L.part offset buf c).length := by
    rw [length]
  rw [Layout.sections_cons some_, further, reached]
  exact blockSection_bind _ _

theorem Paused.enter (paused : Paused L fm offset buf c p) :
    (c = offset + buf.length ∧ p = .ret (.ok ())) ∨
      c < offset + buf.length ∧ p = Prog.call (.on () .lockBat) (L.locked fm offset buf c) ∧
        ∀ s bat off, Sound L s bat off → Amid L fm offset buf c s s (L.locked fm offset buf c s.bat) := by
  have low := paused.low
  have high := paused.high
  by_cases more : c < offset + buf.length
  · refine Or.inr ⟨more, paused.rest.trans (sections_locked more low), fun s bat off sound => ?_⟩
    obtain ⟨nonempty, inside, block, carries⟩ := L.part_spec low more
    have within := paused.within more
    have fresh : Committed L s [] off := by
      intro r h' no
      cases no
    refine ⟨low, more, within, .refl, _, [], bat, off, sound, fresh, ?_, rfl⟩
    apply writeBlockLocked_wp sound.ready (L.block_lt (by omega)) nonempty block
    have split := L.block_split c
    rw [split.1]
    exact carries
  · have nothing : buf.drop (c - offset) = [] := List.drop_eq_nil_of_le (by omega)
    have rest := paused.rest
    rw [nothing, Layout.sections_nil] at rest
    exact Or.inl ⟨by omega, rest⟩

/-- What is left of a section is one of its operations, or the end of it. -/
theorem Amid.step (clear : Clear L) (amid : Amid L fm offset buf c s₀ s p) :
    (∃ op h, ∃ next : op.Res → Io Unit Unit, p = Prog.call (.on () op) next ∧
      Permitted L (payload offset buf) (s, h) op ∧
      ∀ r s', Faults.none.handler s (.on () op) r s' →
        Drifts L (Carries (payload offset buf)) s s' ∧ Amid L fm offset buf c s₀ s' (next r)) ∨
    ∃ next : Unit → Io Unit Unit, p = Prog.call (.on () .unlockBat) next ∧
      ((Wrote L s₀ s (c / L.blockSize) (c % L.blockSize) (L.part offset buf c) ∧
        Paused L fm offset buf (c + (L.part offset buf c).length) (next ())) ∨
      ∃ e x, x.1 = s ∧ Denied .none s₀ (c / L.blockSize) e x ∧ next () = .ret (.err e)) := by
  obtain ⟨q, h, bat, off, sound, committed, spec, rfl⟩ := amid.left
  obtain ⟨nonempty, inside, -⟩ := L.part_spec amid.low amid.more
  have low := amid.low
  cases q with
  | ret out =>
      refine Or.inr ⟨_, rfl, ?_⟩
      cases out with
      | ok _ => exact Or.inl ⟨spec, by omega, inside, fun _ => amid.within, rfl⟩
      | err e => exact Or.inr ⟨e, (s, h), rfl, spec, rfl⟩
      | panic => exact spec.elim
      | outOfFuel => exact spec.elim
  | call op next =>
      obtain ⟨permits, rest⟩ := spec
      obtain ⟨o, rfl, permitted⟩ := permits.on_image
      refine Or.inl ⟨o, h, _, rfl, permitted, fun r s' stepped => ?_⟩
      obtain ⟨bat', off', sound', committed', drifts⟩ := sound.drifts clear committed permitted stepped
      exact ⟨drifts, low, amid.more, amid.within, amid.drifts.trans drifts, next r, _, bat', off', sound',
        committed', rest r (s', _) ⟨stepped, rfl⟩, rfl⟩

/-! ## One call among others -/

/-- What is known of the image while nobody has the lock, kept by the sections of
    calls with the payload `pay`, and what follows when one is denied. -/
structure Account (L : Layout) (pay : Nat → Option UInt8) (A : Image → Prop) (E : Prop) : Prop where
  sound : ∀ s, A s → ∃ bat off, Sound L s bat off
  wrote : ∀ s s' i a src, A s → Drifts L (Carries pay) s s' → L.Touches pay i →
    Wrote L s s' i a src → A s'
  denied : ∀ s i e x, A s → L.Touches pay i → Denied .none s i e x → E

variable {A : Image → Prop} {E sel : Prop} {W : Nat → UInt8 → Prop}

/-- A call that does not have the lock. -/
def Waiting (L : Layout) (fm : Bool) (offset : Nat) (buf : Bytes) (W : Nat → UInt8 → Prop)
    (sel E : Prop) (s : Image) (p : Io Unit Unit) : Prop :=
  (∃ c, Paused L fm offset buf c p ∧ (sel → Known L (payload offset buf) W c s)) ∨
    (E ∧ ∃ e, p = .ret (.err e))

/-- The call that has the lock. -/
def Working (L : Layout) (fm : Bool) (offset : Nat) (buf : Bytes) (W : Nat → UInt8 → Prop)
    (sel : Prop) (A : Image → Prop) (s : Image) (p : Io Unit Unit) : Prop :=
  ∃ c s₀, A s₀ ∧ (sel → Known L (payload offset buf) W c s₀) ∧ Amid L fm offset buf c s₀ s p

theorem Waiting.takes {op : Op Unit} {next : op.Res → Io Unit Unit}
    (account : Account L (payload offset buf) A E)
    (waiting : Waiting L fm offset buf W sel E s (.call op next)) :
    op.locking = .takes ∧ ∀ r s', Faults.none.handler s op r s' → A s →
      s' = s ∧ Working L fm offset buf W sel A s' (next r) := by
  obtain ⟨c, paused, known⟩ | ⟨-, e, no⟩ := waiting
  · obtain ⟨-, no⟩ | ⟨more, is, enters⟩ := paused.enter
    · cases no
    · cases is
      refine ⟨rfl, fun r s' stepped free => ?_⟩
      obtain ⟨bat, off, sound⟩ := account.sound s free
      obtain ⟨rfl, rfl⟩ : r = s.bat ∧ s' = s := by
        have exact_ := idealStep_only stepped
        exact ⟨congrArg Prod.fst exact_, congrArg Prod.snd exact_⟩
      exact ⟨rfl, c, s', free, known, enters s' bat off sound⟩
  · cases no

theorem Working.moves {op : Op Unit} {next : op.Res → Io Unit Unit} (clear : Clear L)
    (account : Account L (payload offset buf) A E)
    (wider : ∀ b v, payload offset buf b = some v → W b v)
    (working : Working L fm offset buf W sel A s (.call op next)) {r : op.Res}
    (stepped : Faults.none.handler s op r s') :
    Drifts L (Carries (payload offset buf)) s s' ∧
      (op.locking = .passes ∧ Working L fm offset buf W sel A s' (next r) ∨
        op.locking = .drops ∧ A s' ∧ Waiting L fm offset buf W sel E s' (next r)) := by
  obtain ⟨c, s₀, free, known, amid⟩ := working
  obtain ⟨nonempty, inside, block, carries⟩ := L.part_spec amid.low amid.more
  have touched : L.Touches (payload offset buf) (c / L.blockSize) := by
    have split := L.block_split c
    refine ⟨c % L.blockSize, split.2, ?_⟩
    have first := carries 0 nonempty
    rw [Nat.add_zero] at first
    rw [split.1, first]
    rfl
  obtain ⟨o, h, next', is, permitted, moves⟩ | ⟨next', is, finished⟩ := amid.step clear
  · cases is
    obtain ⟨drifts, amid'⟩ := moves r s' stepped
    exact ⟨drifts, Or.inl ⟨permitted.passes, c, s₀, free, known, amid'⟩⟩
  · cases is
    obtain rfl : s' = s := congrArg Prod.snd (idealStep_only stepped)
    refine ⟨.refl, Or.inr ⟨rfl, ?_⟩⟩
    obtain ⟨wrote, paused⟩ | ⟨e, x, rfl, denied, is⟩ := finished
    · exact ⟨account.wrote _ _ _ _ _ free amid.drifts touched wrote, Or.inl ⟨_, paused, fun chosen =>
        (known chosen).wrote amid.drifts wider wrote block carries⟩⟩
    · have same : x.1 = s₀ := by
        rcases denied with ⟨same, -⟩ | beyond
        · exact same
        · exact absurd beyond Faults.none_not_beyond
      rw [same]
      exact ⟨free, Or.inr ⟨account.denied _ _ _ _ free touched denied, e, is⟩⟩

theorem Working.busy (clear : Clear L) {out : Outcome Error Unit} :
    ¬ Working L fm offset buf W sel A s (.ret out) := by
  intro working
  obtain ⟨c, s₀, -, -, amid⟩ := working
  obtain ⟨o, h, next', no, -⟩ | ⟨next', no, -⟩ := amid.step clear
  · cases no
  · cases no

theorem Waiting.drifts {W' : Nat → UInt8 → Prop} (waiting : Waiting L fm offset buf W sel E s p)
    (drifts : Drifts L W' s s') (wider : ∀ b v, W' b v → W b v) :
    Waiting L fm offset buf W sel E s' p := by
  obtain ⟨c, paused, known⟩ | failed := waiting
  · exact Or.inl ⟨c, paused, fun chosen => (known chosen).drifts drifts wider⟩
  · exact Or.inr failed

theorem Waiting.fresh (dynamic : L.footer.diskType = .dynamic)
    (range : offset + buf.length ≤ L.virtualSize ∨ E) (sound : Sound L s bat off) :
    Waiting L fm offset buf W sel E s ((VhdReader.base (L.core () true fm)).writeAt offset buf) := by
  have fresh : Known L (payload offset buf) W offset s := by
    refine ⟨bat, off, sound, fun b v below carried => ?_⟩
    exact absurd (payload_inside carried).1 (Nat.not_le_of_lt below)
  by_cases within : buf.length = 0 ∨ offset + buf.length ≤ L.virtualSize
  · refine Or.inl ⟨offset, ⟨Nat.le_refl _, Nat.le_add_right _ _, by omega, ?_⟩, fun _ => fresh⟩
    rw [writeAt_sections dynamic within, Nat.sub_self, List.drop_zero]
  · exact Or.inr ⟨by tauto, writeAt_outside dynamic (by tauto) (by omega)⟩

theorem Waiting.returned {out : Outcome Error Unit}
    (waiting : Waiting L fm offset buf W sel E s (.ret out)) :
    (out = .ok () ∧ (sel → Known L (payload offset buf) W (offset + buf.length) s)) ∨
      (E ∧ ∃ e, out = .err e) := by
  obtain ⟨c, paused, known⟩ | ⟨may, e, is⟩ := waiting
  · obtain ⟨rfl, is⟩ | ⟨-, no, -⟩ := paused.enter
    · cases is
      exact Or.inl ⟨rfl, known⟩
    · cases no
  · cases is
    exact Or.inr ⟨may, e, rfl⟩

end Thread

/-- The operation with which an allocation of block `k` is over. -/
def Op.publishes {δ : Type} (k : Nat) : Op δ → Bool
  | .on _ (.setBatEntry i _) => i == k
  | _ => false

theorem Permitted.table {pay : Nat → Option UInt8} {h : History} {op : ImageOp}
    (permitted : Permitted L pay (s, h) op) :
    (∃ k v, op = .setBatEntry k v ∧ Wanted L pay s k ∧ Live v) ∨
      ((s.step op).2.bat = s.bat ∧ ∀ k v, op ≠ .setBatEntry k v) := by
  cases permitted with
  | look quiet held =>
      refine Or.inr ⟨congrArg Image.bat (quiet_step quiet), fun k v same => ?_⟩
      subst same
      exact quiet.elim
  | publish wanted nameable stored =>
      exact Or.inl ⟨_, _, rfl, wanted, Nat.ne_of_lt nameable.below⟩
  | commit wanted tail nameable fresh => exact Or.inr ⟨rfl, fun k v no => by cases no⟩
  | grow wanted tail nameable short =>
      refine Or.inr ⟨?_, fun k v no => by cases no⟩
      simp only [Image.step]
      split <;> rfl
  | _ =>
      refine Or.inr ⟨?_, fun k v no => by cases no⟩
      simp only [Image.step]
      split <;> rfl

/-! ## Several calls -/

/-- Calls of `write_at`, each on a thread of its own. Calls of one thread are such
    calls too, of which each begins after the one before. -/
structure Calls (ι : Type) where
  offset : ι → Nat
  buf : ι → Bytes

namespace Calls

variable {ι : Type} (w : Calls ι)

/-- What call `i` puts where. -/
def pay (i : ι) : Nat → Option UInt8 := payload (w.offset i) (w.buf i)

/-- A call of `acts` puts `v` at virtual byte `b`. -/
def Carried (acts : ι → Prop) (b : Nat) (v : UInt8) : Prop := ∃ i, acts i ∧ w.pay i b = some v

/-- The calls on one reader, before any of them has begun. -/
def start (r : VhdReader Unit) (s : Image) :
    Pool Image ι (Op Unit) Op.Res fun _ => Outcome Error Unit where
  state := s
  holder := none
  todo i := r.writeAt (w.offset i) (w.buf i)

variable {w} {L : Layout} {fm : Bool} {acts sel : ι → Prop} {A : Image → Prop} {E : Prop}

theorem mutex (clear : Clear L) (account : ∀ i, Account L (w.pay i) A E) :
    Mutex Faults.none.handler Op.locking acts A
      (fun i => Waiting L fm (w.offset i) (w.buf i) (w.Carried acts) (sel i) E)
      (fun i => Working L fm (w.offset i) (w.buf i) (w.Carried acts) (sel i) A) where
  take i s op next r s' _ free waiting _ stepped := by
    obtain ⟨rfl, working⟩ := (waiting.takes (account i)).2 r s' stepped free
    exact ⟨rfl, working⟩
  look i s op next r s' _ waiting firm _ :=
    absurd (waiting.takes (account i)).1 firm
  never i s op next waiting drops := by
    rw [(waiting.takes (account i)).1] at drops
    cases drops
  work i s op next r s' active working stepped := by
    have wider (b : Nat) (v : UInt8) (carried : w.pay i b = some v) : w.Carried acts b v :=
      ⟨i, active, carried⟩
    obtain ⟨drifts, moved⟩ := working.moves clear (account i) wider stepped
    exact ⟨fun j _ p waiting => waiting.drifts drifts wider, moved⟩
  busy i s out := Working.busy clear

variable [DecidableEq ι] {P P' : Pool Image ι (Op Unit) Op.Res fun _ => Outcome Error Unit} {i : ι}
  {e : Event (Op Unit) Op.Res}

/-- Only the thread that has the lock changes the cached table, and only by the
    entry of a block it wants. -/
theorem step_table (clear : Clear L)
    (held : Held A (fun i => Waiting L fm (w.offset i) (w.buf i) (w.Carried acts) (sel i) E)
      (fun i => Working L fm (w.offset i) (w.buf i) (w.Carried acts) (sel i) A) P)
    (step : P.Step Faults.none.handler Op.locking i e P') :
    (∃ k v, e.op = .on () (.setBatEntry k v) ∧ Wanted L (w.pay i) P.state k ∧ Live v ∧
      P'.state = (P.state.step (.setBatEntry k v)).2) ∨
    (P'.state.bat = P.state.bat ∧ ∀ k, e.op.publishes k = false) := by
  cases step with
  | @step op next r s' holder ready allowed turn =>
      by_cases mine : P.holder = some i
      · have working := held.inside i mine
        rw [ready] at working
        obtain ⟨c, s₀, -, -, amid⟩ := working
        obtain ⟨o, h, next', is, permitted, -⟩ | ⟨next', is, -⟩ := amid.step clear
        · cases is
          have same : s' = (P.state.step o).2 := congrArg Prod.snd (idealStep_only allowed)
          rcases permitted.table with ⟨k, v, rfl, wanted, live⟩ | ⟨still, other⟩
          · exact Or.inl ⟨k, v, rfl, wanted, live, same⟩
          · refine Or.inr ⟨by simp only [same, still], fun k => ?_⟩
            cases o with
            | setBatEntry j v => exact absurd rfl (other j v)
            | _ => rfl
        · cases is
          have same : s' = P.state := congrArg Prod.snd (idealStep_only allowed)
          exact Or.inr ⟨by simp only [same], fun k => rfl⟩
      · have waiting := held.outside i mine
        rw [ready] at waiting
        obtain ⟨c, paused, -⟩ | ⟨-, e, no⟩ := waiting
        · obtain ⟨-, no⟩ | ⟨-, is, -⟩ := paused.enter
          · cases no
          · cases is
            have same : s' = P.state := congrArg Prod.snd (idealStep_only allowed)
            exact Or.inr ⟨by simp only [same], fun k => rfl⟩
        · cases no

end Calls

end ImgVhd
