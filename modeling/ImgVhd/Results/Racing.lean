import ImgVhd.Reading.Racing
import ImgVhd.Results.Crash
import ImgVhd.Session.Answers

/-! # A read among writers is regular

One read and any number of writes at once, in any order of their operations that
the BAT lock admits. Each byte the read answers was there when it began, or was
carried by a write that went on meanwhile.
-/

namespace ImgVhd

open Foundation

/-- What a thread returns: the reader bytes, the writers nothing. -/
def Answer {ι : Type} : Option ι → Type
  | none => Outcome Error Bytes
  | some _ => Outcome Error Unit

section Racing

variable {L : Layout} {ι : Type} {w : Calls ι} {s : Image} {bat : List Nat} {off offset : Nat}
  {buf : Bytes} {fm : Bool} {acts sel : ι → Prop} {Q : Outcome Error Bytes → Prop}

/-- A read and the calls on one reader, before any of them has begun. -/
def Calls.race (w : Calls ι) (r : VhdReader Unit) (offset : Nat) (buf : Bytes) (s : Image) :
    Pool Image (Option ι) (Op Unit) Op.Res Answer where
  state := s
  holder := none
  todo
    | none => r.readAt offset buf
    | some i => r.writeAt (w.offset i) (w.buf i)

/-- Where a thread stands that does not have the lock, when the calls of `acts` go
    on and those of `sel` are watched. -/
def Asleep (L : Layout) (w : Calls ι) (fm : Bool) (acts sel : ι → Prop) (Q : Outcome Error Bytes → Prop) :
    (i : Option ι) → Image → Prog (Op Unit) Op.Res (Answer i) → Prop
  | none, s, p => Reading L (w.Carried acts) Q s p
  | some i, s, p => Waiting L fm (w.offset i) (w.buf i) (w.Carried acts) (sel i) True s p

/-- The call that has the lock. -/
def Awake (L : Layout) (w : Calls ι) (fm : Bool) (acts sel : ι → Prop) :
    (i : Option ι) → Image → Prog (Op Unit) Op.Res (Answer i) → Prop
  | none, _, _ => False
  | some i, s, p => Working L fm (w.offset i) (w.buf i) (w.Carried acts) (sel i)
      (fun s' => ∃ bat off, Sound L s' bat off) s p

/-- The reader, and the calls of `acts`. -/
def joins (acts : ι → Prop) : Option ι → Prop
  | none => True
  | some i => acts i

theorem soundAccount (pay : Nat → Option UInt8) :
    Account L pay (fun s => ∃ bat off, Sound L s bat off) True where
  sound _ free := free
  wrote s s' i a src free drifts _ _ := by
    obtain ⟨bat, off, sound⟩ := free
    obtain ⟨bat', off', sound', -⟩ := drifts bat off sound
    exact ⟨bat', off', sound'⟩
  denied _ _ _ _ _ _ _ := trivial

theorem race_mutex (clear : Clear L) :
    Mutex Faults.none.handler Op.locking (joins acts) (fun s => ∃ bat off, Sound L s bat off)
      (Asleep L w fm acts sel Q) (Awake L w fm acts sel) where
  take i s op next r s' _ free asleep takes stepped := by
    cases i with
    | none => exact absurd takes (Reading.look asleep).1
    | some i =>
        obtain ⟨rfl, working⟩ := (Waiting.takes (soundAccount _) asleep).2 r s' stepped free
        exact ⟨rfl, working⟩
  look i s op next r s' _ asleep firm stepped := by
    cases i with
    | none =>
        obtain ⟨rfl, reading⟩ := (Reading.look asleep).2.2 r s' stepped
        exact ⟨rfl, reading⟩
    | some i => exact absurd (Waiting.takes (soundAccount _) asleep).1 firm
  never i s op next asleep drops := by
    cases i with
    | none => exact absurd drops (Reading.look asleep).2.1
    | some i =>
        rw [(Waiting.takes (soundAccount _) asleep).1] at drops
        cases drops
  work i s op next r s' active awake stepped := by
    cases i with
    | none => exact awake.elim
    | some i =>
        have wider (b : Nat) (v : UInt8) (carried : w.pay i b = some v) : w.Carried acts b v :=
          ⟨i, active, carried⟩
        obtain ⟨drifts, moved⟩ := Working.moves clear (soundAccount _) wider awake stepped
        refine ⟨fun j _ p asleep => ?_, moved⟩
        cases j with
        | none => exact Reading.drifts asleep (drifts.mono wider)
        | some j => exact Waiting.drifts asleep drifts wider
  busy i s out awake := by
    cases i with
    | none => exact awake
    | some i => exact Working.busy clear awake

variable {P P' : Pool Image (Option ι) (Op Unit) Op.Res Answer}

theorem raced_sound (held : Held (fun s => ∃ bat off, Sound L s bat off) (Asleep L w fm acts sel Q)
    (Awake L w fm acts sel) P) : ∃ bat off, Sound L P.state bat off := by
  cases owner : P.holder with
  | none => exact held.free owner
  | some i =>
      have awake := held.inside i owner
      cases i with
      | none => exact awake.elim
      | some i =>
          obtain ⟨c, s₀, -, -, amid⟩ := awake
          obtain ⟨q, h, bat, off, sound, -⟩ := amid.left
          exact ⟨bat, off, sound⟩

/-- From here on other calls may be watched, as long as they have not begun. -/
theorem rewatch {acts' sel' : ι → Prop} {Q' : Outcome Error Bytes → Prop}
    (dynamic : L.footer.diskType = .dynamic)
    (held : Held (fun s => ∃ bat off, Sound L s bat off) (Asleep L w fm acts sel Q)
      (Awake L w fm acts sel) P)
    (reading : Reading L (w.Carried acts') Q' P.state (P.todo none))
    (fresh : ∀ i, sel' i → P.holder ≠ some (some i) ∧
      P.todo (some i) = (VhdReader.base (L.core () true fm)).writeAt (w.offset i) (w.buf i)) :
    Held (fun s => ∃ bat off, Sound L s bat off) (Asleep L w fm acts' sel' Q')
      (Awake L w fm acts' sel') P where
  free := held.free
  inside i owner := by
    have awake := held.inside i owner
    cases i with
    | none => exact awake
    | some i =>
        obtain ⟨c, s₀, sound, -, amid⟩ := awake
        exact ⟨c, s₀, sound, fun chosen => absurd owner (fresh i chosen).1, amid⟩
  outside i other := by
    have asleep := held.outside i other
    cases i with
    | none => exact reading
    | some i =>
        by_cases chosen : sel' i
        · obtain ⟨bat, off, sound⟩ := raced_sound held
          show Waiting L fm (w.offset i) (w.buf i) (w.Carried acts') (sel' i) True _ _
          rw [(fresh i chosen).2]
          exact .fresh dynamic (Or.inr trivial) sound
        · rcases asleep with ⟨c, paused, -⟩ | failed
          · exact Or.inl ⟨c, paused, fun no => absurd no chosen⟩
          · exact Or.inr failed

variable [DecidableEq ι] {e : Event (Op Unit) Op.Res} {t t' : List (Option ι × Event (Op Unit) Op.Res)}

/-- An operation of the reader changes nothing, and one of a call nothing but what
    the call carries. -/
theorem raced_step {i : Option ι} (clear : Clear L)
    (held : Held (fun s => ∃ bat off, Sound L s bat off) (Asleep L w fm acts sel Q)
      (Awake L w fm acts sel) P)
    (active : joins acts i) (step : P.Step Faults.none.handler Op.locking i e P') :
    Drifts L (w.Carried acts) P.state P'.state := by
  cases step with
  | @step op next r s' holder ready allowed turn =>
      by_cases mine : P.holder = some i
      · have awake := held.inside i mine
        rw [ready] at awake
        cases i with
        | none => exact awake.elim
        | some i =>
            have wider (b : Nat) (v : UInt8) (carried : w.pay i b = some v) : w.Carried acts b v :=
              ⟨i, active, carried⟩
            exact (Working.moves clear (soundAccount _) wider awake allowed).1.mono wider
      · have asleep := held.outside i mine
        rw [ready] at asleep
        have same : s' = P.state := by
          by_cases takes : op.locking = .takes
          · rw [takes] at turn
            generalize before : P.holder = holder₀ at turn
            cases turn with
            | takes =>
                exact ((race_mutex clear).take i _ op next r s' active (held.free before) asleep
                  takes allowed).1
          · exact ((race_mutex clear).look i _ op next r s' active asleep takes allowed).1
        rw [same]
        exact .refl

theorem raced_drifts (clear : Clear L)
    (held : Held (fun s => ∃ bat off, Sound L s bat off) (Asleep L w fm acts sel Q)
      (Awake L w fm acts sel) P)
    (run : P.Runs Faults.none.handler Op.locking t P') (active : ∀ x ∈ t, joins acts x.1) :
    Drifts L (w.Carried acts) P.state P'.state := by
  induction run with
  | here => exact .refl
  | @step t P₁ i e P₂ before step ih =>
      have earlier : ∀ x ∈ t, joins acts x.1 := fun x member => active x (List.mem_append_left _ member)
      have between := (race_mutex clear).runs held before earlier
      have last := active (i, e) (List.mem_append_right _ List.mem_cons_self)
      exact (ih earlier).trans (raced_step clear between last step)

/-- The calls that did something. -/
def stepping (t : List (Option ι × Event (Op Unit) Op.Res)) (i : ι) : Prop :=
  ∃ x ∈ t, x.1 = some i

omit [DecidableEq ι] in
theorem joins_stepping : ∀ x ∈ t, joins (stepping t) x.1 := by
  intro x member
  cases who : x.1 with
  | none => trivial
  | some i => exact ⟨x, member, who⟩

omit [DecidableEq ι] in
theorem race_held (dynamic : L.footer.diskType = .dynamic) (sound : Sound L s bat off)
    (within : offset + buf.length ≤ L.virtualSize) (acts sel : ι → Prop) :
    Held (fun s => ∃ bat off, Sound L s bat off)
      (Asleep L w fm acts sel (Answered L (w.Carried acts) s bat offset buf.length))
      (Awake L w fm acts sel) (w.race (.base (L.core () true fm)) offset buf s) where
  free _ := ⟨bat, off, sound⟩
  inside i no := by cases no
  outside i _ := by
    cases i with
    | none => exact .start sound within
    | some i => exact Waiting.fresh dynamic (Or.inr trivial) sound

theorem raced_held (clear : Clear L) (dynamic : L.footer.diskType = .dynamic) (sound : Sound L s bat off)
    (within : offset + buf.length ≤ L.virtualSize)
    (run : (w.race (.base (L.core () true fm)) offset buf s).Runs Faults.none.handler Op.locking t P)
    (idle : ∀ x ∈ t, x.1 ≠ none) (sel : ι → Prop)
    (fresh : ∀ i, sel i → ∀ x ∈ t, x.1 ≠ some i) {bat' : List Nat} {off' : Nat}
    (sound' : Sound L P.state bat' off') (acts : ι → Prop) :
    Held (fun s => ∃ bat off, Sound L s bat off)
      (Asleep L w fm acts sel (Answered L (w.Carried acts) P.state bat' offset buf.length))
      (Awake L w fm acts sel) P := by
  have held := (race_mutex clear).runs (race_held dynamic sound within
    (stepping t) fun _ => False) run joins_stepping
  refine rewatch dynamic held ?_ fun i chosen => ⟨?_, ?_⟩
  · rw [run.unmoved idle]
    exact .start sound' within
  · exact run.unheld (fresh i chosen) fun no => by cases no
  · exact run.unmoved (fresh i chosen)

theorem raced_returned {i : Option ι} {out : Answer i} (clear : Clear L)
    (held : Held (fun s => ∃ bat off, Sound L s bat off) (Asleep L w fm acts sel Q)
      (Awake L w fm acts sel) P)
    (run : P.Runs Faults.none.handler Op.locking t P') (active : ∀ x ∈ t, joins acts x.1)
    (returned : P'.todo i = .ret out) : Asleep L w fm acts sel Q i P'.state (.ret out) := by
  have after := (race_mutex clear).runs held run active
  have asleep := after.outside i ((race_mutex clear).unheld after returned)
  rw [returned] at asleep
  exact asleep

theorem raced_committed (clear : Clear L) (dynamic : L.footer.diskType = .dynamic)
    (sound : Sound L s bat off) (within : offset + buf.length ≤ L.virtualSize)
    (run : (w.race (.base (L.core () true fm)) offset buf s).Runs Faults.none.handler Op.locking
      (t ++ t') P)
    (idle : ∀ x ∈ t ++ t', x.1 ≠ none) {i : ι} (before : ∀ x ∈ t, x.1 ≠ some i)
    (returned : P.todo (some i) = .ret (.ok () : Outcome Error Unit)) {bat' : List Nat} {off' b : Nat}
    (sound' : Sound L P.state bat' off') (covered : (w.pay i b).isSome) :
    w.Carried (stepping t') b (L.value P.state.disk bat' b) := by
  obtain ⟨P₁, first, second⟩ := run.split
  have idle₁ : ∀ x ∈ t, x.1 ≠ none := fun x member => idle x (List.mem_append_left _ member)
  obtain ⟨bat₁, off₁, sound₁⟩ := raced_sound ((race_mutex clear).runs
    (race_held dynamic sound within (stepping t) fun _ => False) first joins_stepping)
  have held := raced_held clear dynamic sound within first idle₁ (· = i)
    (fun j same => by rw [same]; exact before) sound₁ (stepping t')
  have waiting := raced_returned clear held second joins_stepping returned
  obtain ⟨-, known⟩ | ⟨-, e, no⟩ := Waiting.returned waiting
  · obtain ⟨v, carried⟩ := Option.isSome_iff_exists.mp covered
    obtain ⟨bat₂, off₂, sound₂, written⟩ := known rfl
    obtain ⟨rfl, rfl⟩ := sound'.unique sound₂
    obtain ⟨v', own, from_⟩ := written b v (payload_inside carried).2 carried
    rw [Layout.value_of_own own]
    exact from_
  · cases no

theorem race_completes [Finite ι] (clear : Clear L) (dynamic : L.footer.diskType = .dynamic)
    (sound : Sound L s bat off) (within : offset + buf.length ≤ L.virtualSize) :
    (w.race (.base (L.core () true fm)) offset buf s).Completes Faults.none.handler Op.locking := by
  have everyone : joins (fun _ : ι => True) = fun _ => True := by
    funext i
    cases i <;> rfl
  apply Mutex.completes (everyone ▸ race_mutex clear)
  · exact race_held dynamic sound within (fun _ => True) fun _ => False
  · exact fun s op => ⟨_, _, idealStep_allowed .none s op⟩

/-- One read and any number of writes at once, on any image of a session: they all
    come to an end, and the read returns `Ok`. The bytes it answers were there when
    it began, or were carried by a call that did something since. What was there
    then was there from the start or carried by a call, and where a call had
    returned, by one that did something since that one began. -/
theorem racing_read_is_regular [Finite ι] {env : BuildEnv} {path : Path} {size bs : Nat} {s₀ s₁ : Image}
    {r₀ r : VhdReader Unit} {t₀ : List (Event (Op Unit) Op.Res)} {log : List Attempt}
    (word : bs < 2 ^ 32)
    (create : Prog.Runs Faults.none.handler (createDynamic env path size bs) s₀ t₀ (.ret (.ok r₀)) s₁)
    (session : Session .none (r₀, s₁) log (some r) s)
    (inside : offset + buf.length ≤ r.virtualSize) :
    (w.race r offset buf s).Completes Faults.none.handler Op.locking ∧
    ∃ held : Nat → UInt8,
      (∀ at_ out, at_ + out.length ≤ r.virtualSize → (r.readAt at_ out).run idealStep s =
        (.ok ((List.range out.length).map fun j => held (at_ + j)), s)) ∧
      ∀ t₁ P₁ t₂ P₂, (w.race r offset buf s).Runs Faults.none.handler Op.locking t₁ P₁ →
        (∀ x ∈ t₁, x.1 ≠ none) → P₁.Runs Faults.none.handler Op.locking t₂ P₂ →
        ∃ before : Nat → UInt8,
          (∀ at_ out, at_ + out.length ≤ r.virtualSize → (r.readAt at_ out).run idealStep P₁.state =
            (.ok ((List.range out.length).map fun j => before (at_ + j)), P₁.state)) ∧
          (∀ b, before b = held b ∨ w.Carried (stepping t₁) b (before b)) ∧
          (∀ i b t t', P₁.todo (some i) = .ret (.ok () : Outcome Error Unit) → (w.pay i b).isSome →
            t₁ = t ++ t' → (∀ x ∈ t, x.1 ≠ some i) → w.Carried (stepping t') b (before b)) ∧
          ∀ out : Outcome Error Bytes, P₂.todo none = .ret out →
            ∃ bytes, out = .ok bytes ∧ bytes.length = buf.length ∧ ∀ j v, bytes[j]? = some v →
              v = before (offset + j) ∨ w.Carried (stepping t₂) (offset + j) v := by
  obtain ⟨L, off₀, created, rfl, rfl, -⟩ := createDynamic_created word create
  obtain ⟨⟨bat, off, durable⟩, readers⟩ := session.durable created rfl
  obtain ⟨fm, rfl⟩ := readers r rfl
  have sound := durable.sound
  have start (acts : ι → Prop) : Held (fun s => ∃ bat off, Sound L s bat off)
      (Asleep L w fm acts (fun _ => False) (Answered L (w.Carried acts) s bat offset buf.length))
      (Awake L w fm acts fun _ => False) (w.race (.base (L.core () true fm)) offset buf s) :=
    race_held created.dynamic sound inside acts fun _ => False
  refine ⟨race_completes created.clear created.dynamic sound inside, L.value s.disk bat,
    fun at_ out within => read_ideal sound.ready sound.cached within, ?_⟩
  intro t₁ P₁ t₂ P₂ first idle second
  have held₁ := (race_mutex created.clear).runs (start (stepping t₁)) first joins_stepping
  obtain ⟨bat₁, off₁, sound₁⟩ := raced_sound held₁
  refine ⟨L.value P₁.state.disk bat₁,
    fun at_ out within => read_ideal sound₁.ready sound₁.cached within, fun b => ?_, ?_, ?_⟩
  · obtain ⟨bat', off', sound', evolves⟩ :=
      raced_drifts created.clear (start (stepping t₁)) first joins_stepping bat off sound
    obtain ⟨rfl, rfl⟩ := sound₁.unique sound'
    exact evolves.value b
  · intro i b t t' returned covered split before
    subst split
    exact raced_committed created.clear created.dynamic sound inside first idle before returned sound₁
      covered
  · intro out returned
    have held := raced_held created.clear created.dynamic sound inside first idle (fun _ => False)
      (fun i no => no.elim) sound₁ (stepping t₂)
    have reading : Reading L (w.Carried (stepping t₂)) (Answered L (w.Carried (stepping t₂)) P₁.state
        bat₁ offset buf.length) P₂.state (.ret out) :=
      raced_returned created.clear held second joins_stepping returned
    exact reading.returned

/-- A read of the first two bytes of the small disk, while the first is written. -/
theorem small_disk_read_races : ∃ (r : VhdReader Unit) (s : Image) (w : Calls Unit)
    (t : List (Option Unit × Event (Op Unit) Op.Res))
    (P : Pool Image (Option Unit) (Op Unit) Op.Res Answer) (before : Nat → UInt8) (bytes : Bytes),
    (w.race r 0 [0, 0] s).Runs Faults.none.handler Op.locking t P ∧
    P.todo none = .ret (.ok bytes : Outcome Error Bytes) ∧ bytes.length = 2 ∧
    (r.readAt 0 [0, 0]).run idealStep s = (.ok [before 0, before 1], s) ∧
    ∀ j v, bytes[j]? = some v → v = before j ∨ (j = 0 ∧ v = 7) := by
  obtain ⟨t₀, r, s, create, size⟩ := small_created
  have inside : 0 + ([0, 0] : Bytes).length ≤ r.virtualSize := by simp [size]
  obtain ⟨completes, held, -, runs⟩ := racing_read_is_regular (w := ⟨fun _ : Unit => 0, fun _ => [7]⟩)
    (by decide) create .start inside
  obtain ⟨t, P, run, finished⟩ := completes.finishes
  obtain ⟨before, reads, -, -, ended⟩ := runs [] _ t P .here (fun x no => by cases no) run
  obtain ⟨out, returned⟩ := finished none
  obtain ⟨bytes, rfl, length, answers⟩ := ended out returned
  refine ⟨r, s, _, t, P, before, bytes, run, returned, length, reads 0 [0, 0] (by simp [size]),
    fun j v at_ => ?_⟩
  rw [← Nat.zero_add j]
  rcases answers j v at_ with old | ⟨i, -, carried⟩
  · exact Or.inl old
  · have inside := payload_inside carried
    obtain rfl : j = 0 := by simpa using inside.2
    exact Or.inr ⟨rfl, (Option.some.inj carried).symm⟩

end Racing

end ImgVhd
