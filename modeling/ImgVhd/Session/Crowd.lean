import ImgVhd.Session.Failing
import Mathlib.Data.Finite.Sum

/-! # A crowd on one reader

Any number of writes and reads at once on a device that fails as it likes, in any
order of their operations that the BAT lock admits. Wherever they stand, the image
will open, and what it holds was there before or was carried by one of the writes.
-/

namespace ImgVhd

open Foundation

/-- What a call returns: a write nothing, a read bytes. -/
def Reply {ι κ : Type} : ι ⊕ κ → Type
  | .inl _ => Outcome Error Unit
  | .inr _ => Outcome Error Bytes

section Crowd

variable {L : Layout} {ι κ : Type} {w : Calls ι} {looks : Calls κ} {f : Faults} {s : Image}
  {bat : List Nat} {off : Nat} {fm : Bool} {watch : κ → ι → Prop} {acts sel : ι → Prop}
  {Q : κ → Outcome Error Bytes → Prop}

/-- The writes of `w` and reads into the buffers of `looks` on one reader, before any
    of them has begun. -/
def Calls.crowd (w : Calls ι) (looks : Calls κ) (r : VhdReader Unit) (s : Image) :
    Pool Image (ι ⊕ κ) (Op Unit) Op.Res Reply where
  state := s
  holder := none
  todo
    | .inl i => r.writeAt (w.offset i) (w.buf i)
    | .inr k => r.readAt (looks.offset k) (looks.buf k)

/-- Where a call stands that does not have the lock, when the writes of `acts` go on
    and those of `sel` are watched. Read `k` puts up with the writes of `watch k`. -/
def Resting (f : Faults) (L : Layout) (w : Calls ι) (fm : Bool) (watch : κ → ι → Prop)
    (acts sel : ι → Prop) (Q : κ → Outcome Error Bytes → Prop) :
    (i : ι ⊕ κ) → Image → Prog (Op Unit) Op.Res (Reply i) → Prop
  | .inl i, s, p => Waiting L fm (w.offset i) (w.buf i) (w.Carried acts) (sel i) True s p
  | .inr k, s, p => Looking f L (w.Carried (watch k)) (Q k) s p

/-- The write that has the lock. -/
def Acting (f : Faults) (L : Layout) (w : Calls ι) (fm : Bool) (acts sel : ι → Prop) :
    (i : ι ⊕ κ) → Image → Prog (Op Unit) Op.Res (Reply i) → Prop
  | .inl i, s, p => Labours L fm f (w.offset i) (w.buf i) (w.Carried acts) (sel i) s p
  | .inr _, _, _ => False

/-- The reads, and the writes of `acts`. -/
def attends (acts : ι → Prop) : ι ⊕ κ → Prop
  | .inl i => acts i
  | .inr _ => True

/-- What holds of a crowd all along. -/
abbrev Attended (f : Faults) (L : Layout) (w : Calls ι) (fm : Bool) (watch : κ → ι → Prop)
    (acts sel : ι → Prop) (Q : κ → Outcome Error Bytes → Prop)
    (P : Pool Image (ι ⊕ κ) (Op Unit) Op.Res Reply) : Prop :=
  Held (fun s => ∃ bat off, Whole L s bat off) (Resting f L w fm watch acts sel Q)
    (Acting f L w fm acts sel) P

theorem crowd_mutex (clear : Clear L) (seen : ∀ k i, acts i → watch k i) :
    Mutex f.handler Op.locking (attends acts) (fun s => ∃ bat off, Whole L s bat off)
      (Resting f L w fm watch acts sel Q) (Acting f L w fm acts sel) where
  take i s op next r s' _ free resting takes stepped := by
    cases i with
    | inl i =>
        obtain ⟨rfl, labours⟩ := (Waiting.enters resting).2 r s' stepped free
        exact ⟨rfl, labours⟩
    | inr k => exact absurd takes (Looking.look resting).1
  look i s op next r s' _ resting firm stepped := by
    cases i with
    | inl i => exact absurd (Waiting.enters (f := f) resting).1 firm
    | inr k =>
        obtain ⟨rfl, looking⟩ := (Looking.look resting).2.2 r s' stepped
        exact ⟨rfl, looking⟩
  never i s op next resting drops := by
    cases i with
    | inl i =>
        rw [(Waiting.enters (f := f) resting).1] at drops
        cases drops
    | inr k => exact absurd drops (Looking.look resting).2.1
  work i s op next r s' active acting stepped := by
    cases i with
    | inl i =>
        have wider (b : Nat) (v : UInt8) (carried : w.pay i b = some v) : w.Carried acts b v :=
          ⟨i, active, carried⟩
        obtain ⟨drifts, moved⟩ := Labours.moves clear wider acting stepped
        refine ⟨fun j _ p resting => ?_, moved⟩
        cases j with
        | inl j => exact Waiting.drifts resting drifts wider
        | inr k => exact Looking.drifts resting (drifts.mono fun b v carried => ⟨i, seen k i active, carried⟩)
    | inr k => exact acting.elim
  busy i s out acting := by
    cases i with
    | inl i =>
        obtain ⟨c, s₀, -, beset⟩ := acting
        exact beset.busy
    | inr k => exact acting

variable {P P' : Pool Image (ι ⊕ κ) (Op Unit) Op.Res Reply}

theorem crowd_whole (held : Attended f L w fm watch acts sel Q P) : ∃ bat off, Whole L P.state bat off := by
  refine held.always (fun s free => free) fun i s p acting => ?_
  cases i with
  | inl i => exact Labours.whole acting
  | inr k => exact acting.elim

theorem crowd_held (dynamic : L.footer.diskType = .dynamic) (whole : Whole L s bat off)
    (watch : κ → ι → Prop) (acts sel : ι → Prop) :
    Attended f L w fm watch acts sel
      (fun k => Replied L (w.Carried (watch k)) s bat (looks.offset k) (looks.buf k).length)
      (w.crowd looks (.base (L.core () true fm)) s) where
  free _ := ⟨bat, off, whole⟩
  inside i no := by cases no
  outside i _ := by
    cases i with
    | inl i => exact Waiting.fresh dynamic (Or.inr trivial) whole.sound
    | inr k => exact .start f fm _ _ _ whole.sound

/-- From here on other calls may be watched, as long as they have not begun. -/
theorem Attended.rewatch {watch' : κ → ι → Prop} {acts' sel' : ι → Prop}
    {Q' : κ → Outcome Error Bytes → Prop} (dynamic : L.footer.diskType = .dynamic)
    (held : Attended f L w fm watch acts sel Q P)
    (reads : ∀ k, Looking f L (w.Carried (watch' k)) (Q' k) P.state (P.todo (.inr k)))
    (fresh : ∀ i, sel' i → P.holder ≠ some (.inl i) ∧
      P.todo (.inl i) = (VhdReader.base (L.core () true fm)).writeAt (w.offset i) (w.buf i)) :
    Attended f L w fm watch' acts' sel' Q' P where
  free := held.free
  inside i owner := by
    have acting := held.inside i owner
    cases i with
    | inl i =>
        obtain ⟨c, s₀, -, beset⟩ := acting
        exact ⟨c, s₀, fun chosen => absurd owner (fresh i chosen).1, beset⟩
    | inr k => exact acting
  outside i other := by
    have resting := held.outside i other
    cases i with
    | inl i =>
        by_cases chosen : sel' i
        · obtain ⟨bat, off, whole⟩ := crowd_whole held
          show Waiting L fm (w.offset i) (w.buf i) (w.Carried acts') (sel' i) True _ _
          rw [(fresh i chosen).2]
          exact .fresh dynamic (Or.inr trivial) whole.sound
        · rcases resting with ⟨c, paused, -⟩ | failed
          · exact Or.inl ⟨c, paused, fun no => absurd no chosen⟩
          · exact Or.inr failed
    | inr k => exact reads k

variable [DecidableEq ι] [DecidableEq κ] {t : List ((ι ⊕ κ) × Event (Op Unit) Op.Res)}

theorem crowd_drifts (clear : Clear L) (seen : ∀ k i, acts i → watch k i)
    (held : Attended f L w fm watch acts sel Q P)
    (run : P.Runs f.handler Op.locking t P') (active : ∀ x ∈ t, attends acts x.1) :
    Drifts L (w.Carried acts) P.state P'.state := by
  refine (crowd_mutex clear seen).drifts (fun _ => .refl) (fun _ _ _ => .trans) ?_ held run active
  intro i s op next r s' active acting stepped
  cases i with
  | inl i =>
      have wider (b : Nat) (v : UInt8) (carried : w.pay i b = some v) : w.Carried acts b v :=
        ⟨i, active, carried⟩
      exact (Labours.moves clear wider acting stepped).1.mono wider
  | inr k => exact acting.elim

/-! ## What a crowd leaves -/

/-- Whose the steps of a run are, as far as they are a write's. -/
def writers {ι κ : Type} (t : List ((ι ⊕ κ) × Event (Op Unit) Op.Res)) : List ι :=
  t.filterMap fun x => x.1.getLeft?

omit [DecidableEq ι] [DecidableEq κ] in
theorem mem_writers {i : ι} : i ∈ writers t ↔ ∃ x ∈ t, x.1 = .inl i := by
  simp only [writers, List.mem_filterMap, Sum.getLeft?_eq_some_iff]

omit [DecidableEq ι] [DecidableEq κ] in
theorem attends_writers : ∀ x ∈ t, @attends ι κ (· ∈ writers t) x.1 := by
  intro x member
  cases who : x.1 with
  | inl i => exact mem_writers.mpr ⟨x, member, who⟩
  | inr k => trivial

variable {t' : List ((ι ⊕ κ) × Event (Op Unit) Op.Res)} {b : Nat}

theorem crowd_completes [Finite ι] [Finite κ] (clear : Clear L) (dynamic : L.footer.diskType = .dynamic)
    (whole : Whole L s bat off) :
    (w.crowd looks (.base (L.core () true fm)) s).Completes f.handler Op.locking := by
  have everyone : @attends ι κ (fun _ => True) = fun _ => True := by
    funext i
    cases i <;> rfl
  refine Mutex.completes (everyone ▸ crowd_mutex clear fun _ _ _ => trivial)
    (crowd_held dynamic whole (fun _ _ => True) (fun _ => True) fun _ => False) ?_
  exact fun s op => ⟨_, _, idealStep_allowed f s op⟩

theorem crowd_settled (clear : Clear L) (dynamic : L.footer.diskType = .dynamic) (whole : Whole L s bat off)
    (run : (w.crowd looks (.base (L.core () true fm)) s).Runs f.handler Op.locking t P) {i : ι}
    {out : Outcome Error Unit} (returned : P.todo (.inl i) = .ret out) :
    out = .ok () ∨ ∃ e, out = .err e := by
  have seen : ∀ (_ : κ) i, i ∈ writers t → True := fun _ _ _ => trivial
  have waiting := (crowd_mutex clear seen).returned (crowd_held dynamic whole (fun _ _ => True)
    (· ∈ writers t) fun _ => False) run attends_writers returned
  exact (Waiting.returned waiting).imp (·.1) (·.2)

/-- A write that began after `t` and returned `Ok` has committed its bytes: what they
    hold was carried by a write that did something since. -/
theorem crowd_committed (clear : Clear L) (dynamic : L.footer.diskType = .dynamic)
    (whole : Whole L s bat off)
    (run : (w.crowd looks (.base (L.core () true fm)) s).Runs f.handler Op.locking (t ++ t') P)
    {i : ι} (before : ∀ x ∈ t, x.1 ≠ .inl i)
    (returned : P.todo (.inl i) = .ret (.ok () : Outcome Error Unit)) {bat' : List Nat} {off' : Nat}
    (whole' : Whole L P.state bat' off') (covered : (w.pay i b).isSome) :
    w.Carried (· ∈ writers t') b (L.value P.state.disk bat' b) := by
  have seen (acts : ι → Prop) : ∀ (_ : κ) i, acts i → True := fun _ _ _ => trivial
  obtain ⟨P₁, first, second⟩ := run.split
  have held₁ := (crowd_mutex clear (seen _)).runs (crowd_held dynamic whole (fun _ _ => True)
    (· ∈ writers t) fun _ => False) first attends_writers
  have held : Attended f L w fm (fun _ _ => True) (· ∈ writers t') (· = i)
      (fun k => Replied L (w.Carried fun _ => True) s bat (looks.offset k) (looks.buf k).length) P₁ := by
    refine Attended.rewatch dynamic held₁ (fun k => ?_) fun j same => ⟨?_, ?_⟩
    · exact held₁.outside (.inr k) fun owner => held₁.inside _ owner
    · rw [same]
      exact first.unheld before fun no => by cases no
    · rw [same]
      exact first.unmoved before
  have waiting := (crowd_mutex clear (seen _)).returned held second attends_writers returned
  obtain ⟨-, known⟩ | ⟨-, e, no⟩ := Waiting.returned waiting
  · obtain ⟨v, carried⟩ := Option.isSome_iff_exists.mp covered
    obtain ⟨bat₂, off₂, sound₂, written⟩ := known rfl
    obtain ⟨rfl, rfl⟩ := whole'.sound.unique sound₂
    obtain ⟨v', own, from_⟩ := written b v (payload_inside carried).2 carried
    rw [Layout.value_of_own own]
    exact from_
  · cases no

/-- A read that began after `t` answers what the image held then, or what a write
    carried that did something since. -/
theorem crowd_replied (clear : Clear L) (dynamic : L.footer.diskType = .dynamic)
    (whole : Whole L s bat off)
    (first : (w.crowd looks (.base (L.core () true fm)) s).Runs f.handler Op.locking t P) {k : κ}
    (idle : ∀ x ∈ t, x.1 ≠ .inr k) (second : P.Runs f.handler Op.locking t' P') {bat' : List Nat}
    {off' : Nat} (whole' : Whole L P.state bat' off') {out : Outcome Error Bytes}
    (returned : P'.todo (.inr k) = .ret out) :
    Replied L (w.Carried (· ∈ writers t')) P.state bat' (looks.offset k) (looks.buf k).length out := by
  have seen : ∀ (_ : κ) i, i ∈ writers t → True := fun _ _ _ => trivial
  have held := (crowd_mutex clear seen).runs (crowd_held dynamic whole (fun _ _ => True)
    (· ∈ writers t) fun _ => False) first attends_writers
  have held' : Attended f L w fm (fun k' i => k' = k → i ∈ writers t') (· ∈ writers t') (fun _ => False)
      (fun k' out => k' = k → Replied L (w.Carried (· ∈ writers t')) P.state bat' (looks.offset k)
        (looks.buf k).length out) P := by
    refine Attended.rewatch dynamic held (fun k' => ?_) fun i no => no.elim
    by_cases same : k' = k
    · subst same
      simp only [forall_const]
      rw [first.unmoved idle]
      exact .start f fm _ _ _ whole'.sound
    · have looking := held.outside (.inr k') fun owner => held.inside _ owner
      simp only [same, false_implies]
      exact Looking.mono looking fun _ _ => trivial
  have seen' : ∀ k' i, i ∈ writers t' → k' = k → i ∈ writers t' := fun _ _ member _ => member
  have replied := (crowd_mutex clear seen').returned held' second attends_writers returned
  exact Prog.Amidst.returned replied rfl

theorem crowd_left (clear : Clear L) (dynamic : L.footer.diskType = .dynamic) (whole : Whole L s bat off)
    (run : (w.crowd looks (.base (L.core () true fm)) s).Runs f.handler Op.locking t P) :
    ∃ bat' off', Whole L P.state bat' off' ∧
      ∀ b, L.value P.state.disk bat' b = L.value s.disk bat b ∨
        w.Carried (· ∈ writers t) b (L.value P.state.disk bat' b) := by
  have seen : ∀ (_ : κ) i, i ∈ writers t → True := fun _ _ _ => trivial
  have held : Attended f L w fm _ _ _ _ (w.crowd looks (.base (L.core () true fm)) s) :=
    crowd_held dynamic whole (fun _ _ => True) (· ∈ writers t) fun _ => False
  obtain ⟨bat', off', whole'⟩ := crowd_whole ((crowd_mutex clear seen).runs held run attends_writers)
  obtain ⟨bat₂, off₂, sound₂, evolves⟩ :=
    crowd_drifts clear seen held run attends_writers bat off whole.sound
  obtain ⟨rfl, rfl⟩ := whole'.sound.unique sound₂
  exact ⟨_, _, whole', evolves.value⟩

end Crowd

end ImgVhd
