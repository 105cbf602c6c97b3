import ImgVhd.Session.Crowd
import ImgVhd.Session.Growth

/-! # Crowds, failures and crashes

Round after round any number of writes and reads go on at once on one reader, any
operation may fail with or without its effect, and any round may be cut anywhere.
The file still opens as the same disk. What it holds was carried by the writes, and
no write that returned is undone by one that was over before it began.
-/

namespace ImgVhd

open Foundation

/-- The writes of a round, whose its steps were, oldest first, and which of them
    returned `Ok`. -/
structure Round where
  ι : Type
  calls : Calls ι
  order : List ι
  done : ι → Prop

namespace Round

/-- Where a write that returned covers the byte, the value was carried by one that
    did something since that one began. -/
def Settles (R : Round) (b : Nat) (v : UInt8) : Prop :=
  ∀ i, R.done i → (R.calls.pay i b).isSome → ∀ early late, R.order = early ++ late → i ∉ early →
    R.calls.Carried (· ∈ late) b v

/-- What a run of a crowd amounts to. -/
def of {ι κ : Type} (w : Calls ι) (t : List ((ι ⊕ κ) × Event (Op Unit) Op.Res))
    (P : Pool Image (ι ⊕ κ) (Op Unit) Op.Res Reply) : Round :=
  ⟨ι, w, writers t, fun i => P.todo (.inl i) = .ret (.ok () : Outcome Error Unit)⟩

end Round

/-- What a byte may read as after rounds of writes, newest first. -/
def Possible : List Round → Nat → UInt8 → Prop
  | [], _, v => v = 0
  | R :: log, b, v => R.Settles b v ∧ (R.calls.Carried (· ∈ R.order) b v ∨ Possible log b v)

/-- Sessions of crowds, each finished or cut off between two operations. There is a
    reader afterwards if every call has returned, or the last open succeeded. -/
inductive Crowds (f : Faults) (start : VhdReader Unit × Image) :
    List Round → Option (VhdReader Unit) → Image → Prop where
  | start : Crowds f start [] (some start.1) start.2
  | crowd {ι κ : Type} [DecidableEq ι] [DecidableEq κ] {log r s last} {w : Calls ι} {looks : Calls κ} {t P}
      (before : Crowds f start log (some r) s)
      (run : (w.crowd looks r s).Runs f.handler Op.locking t P)
      (left : ∀ r', last = some r' → r' = r ∧ P.Finished) :
      Crowds f start (.of w t P :: log) last P.state
  | reopen {log last s} {how : Option Path} {t p s'} (before : Crowds f start log last s)
      (run : Prog.Runs f.handler (reopen () how) s t p s') : Crowds f start log (opened p) s'

section Crowds

variable {L : Layout} {f : Faults} {log : List Round} {s : Image} {bat : List Nat} {off : Nat}

/-- An image that will open, and reads within what the rounds allow. -/
structure Lasting (L : Layout) (log : List Round) (s : Image) (bat : List Nat) (off : Nat) : Prop where
  whole : Whole L s bat off
  values : ∀ b < L.virtualSize, Possible log b (L.value s.disk bat b)

theorem Created.lasting (created : Created L s off) : Lasting L [] s (L.table s.disk) off :=
  ⟨created.durable.whole, fun _ inside => created.value_zero inside⟩

theorem Lasting.crowd {ι κ : Type} [DecidableEq ι] [DecidableEq κ] {w : Calls ι} {looks : Calls κ}
    {fm : Bool} {t : List ((ι ⊕ κ) × Event (Op Unit) Op.Res)}
    {P : Pool Image (ι ⊕ κ) (Op Unit) Op.Res Reply} (lasting : Lasting L log s bat off) (clear : Clear L)
    (dynamic : L.footer.diskType = .dynamic)
    (run : (w.crowd looks (.base (L.core () true fm)) s).Runs f.handler Op.locking t P) :
    ∃ bat' off', Lasting L (.of w t P :: log) P.state bat' off' := by
  obtain ⟨bat', off', whole, values⟩ := crowd_left clear dynamic lasting.whole run
  refine ⟨bat', off', whole, fun b inside => ⟨?_, ?_⟩⟩
  · intro i returned covered early late split idle
    obtain ⟨t₁, t₂, rfl, rfl, rfl⟩ := List.filterMap_eq_append_iff.mp split
    refine crowd_committed clear dynamic lasting.whole run (fun x member mine => ?_) returned whole covered
    exact idle (mem_writers.mpr ⟨x, member, mine⟩)
  · rcases values b with same | carried
    · rw [same]
      exact Or.inr (lasting.values b inside)
    · exact Or.inl carried

theorem Lasting.opens (lasting : Lasting L log s bat off) :
    ∃ fm dataEnd off', Opens s.disk L fm dataEnd off' ∧
      Lasting L log (L.opened s.disk off') (L.table s.disk) off' := by
  obtain ⟨_, durable⟩ := lasting.whole.durable
  obtain ⟨fm, dataEnd, off', opens, behind⟩ := durable.opens
  refine ⟨fm, dataEnd, off', opens, (durable.reopened opens behind).whole, fun b inside => ?_⟩
  show Possible log b (L.value s.disk (L.table s.disk) b)
  rw [durable.sound.value_table b inside]
  exact lasting.values b inside

theorem Crowds.lasting {start : VhdReader Unit × Image} {last : Option (VhdReader Unit)} {off₀ : Nat}
    (created : Created L start.2 off₀) (reader : start.1 = .base (L.core () true false))
    (crowds : Crowds f start log last s) :
    (∃ bat off, Lasting L log s bat off) ∧ ∀ r, last = some r → ∃ fm, r = .base (L.core () true fm) := by
  induction crowds with
  | start => exact ⟨⟨_, _, created.lasting⟩, fun r is => ⟨false, (Option.some.inj is).symm.trans reader⟩⟩
  | crowd before run left ih =>
      obtain ⟨⟨bat, off, lasting⟩, readers⟩ := ih
      obtain ⟨fm, rfl⟩ := readers _ rfl
      refine ⟨lasting.crowd created.clear created.dynamic run, fun r' is => ⟨fm, (left r' is).1⟩⟩
  | reopen before run ih =>
      obtain ⟨⟨bat, off, lasting⟩, -⟩ := ih
      obtain ⟨fm, dataEnd, off', opens, again⟩ := lasting.opens
      rcases reopen_cut opens created.dynamic run with ⟨none_, same⟩ | ⟨some_, same⟩
      · rw [none_, same]
        exact ⟨⟨bat, off, lasting⟩, fun r no => (by cases no)⟩
      · rw [some_, same]
        exact ⟨⟨_, _, again⟩, fun r is => ⟨fm, (Option.some.inj is).symm⟩⟩

theorem Whole.shows (whole : Whole L s bat off) (dynamic : L.footer.diskType = .dynamic) :
    Shows s.disk L.virtualSize (L.value s.disk bat) := by
  obtain ⟨_, durable⟩ := whole.durable
  exact durable.shows dynamic fun _ _ => rfl

/-- Wherever a session of crowds stops, everyone who opens the file finds the same
    disk, and every byte is one its writes allow. -/
theorem crowds_survive_a_crash {env : BuildEnv} {path : Path} {size bs : Nat} {s₀ s₁ : Image}
    {r₀ : VhdReader Unit} {t₀ : List (Event (Op Unit) Op.Res)} {last : Option (VhdReader Unit)}
    (word : bs < 2 ^ 32)
    (create : Prog.Runs Faults.any.handler (createDynamic env path size bs) s₀ t₀ (.ret (.ok r₀)) s₁)
    (crowds : Crowds .any (r₀, s₁) log last s) :
    ∃ held, Shows s.disk r₀.virtualSize held ∧ ∀ b < r₀.virtualSize, Possible log b (held b) := by
  obtain ⟨L, off₀, created, rfl, -, -⟩ := createDynamic_created word create
  obtain ⟨⟨bat, off, lasting⟩, -⟩ := crowds.lasting created rfl
  exact ⟨_, lasting.whole.shows created.dynamic, lasting.values⟩

theorem small_made : ∃ t r s, Prog.Runs Faults.any.handler (createDynamic smallEnv [] 4096 512)
    ⟨.empty, none, none⟩ t (.ret (.ok r)) s ∧ r.virtualSize = 34816 := by
  obtain ⟨t, r, s, create, size⟩ := small_created
  exact ⟨t, r, s, create.mono fun _ _ _ _ => ideal_allowed .any, size⟩

/-- Two writes of the same byte of the small disk and a read of it, all of them to the
    end, and the file opened afresh. -/
theorem small_crowd_is_survived : ∃ (r : VhdReader Unit) (s : Image) (w : Calls Bool)
    (looks : Calls Unit) (t : List ((Bool ⊕ Unit) × Event (Op Unit) Op.Res))
    (P : Pool Image (Bool ⊕ Unit) (Op Unit) Op.Res Reply) (held : Nat → UInt8),
    (∀ i, w.pay i 1 = some (bif i then 2 else 1)) ∧
    (w.crowd looks r s).Runs Faults.any.handler Op.locking t P ∧ P.Finished ∧
    Shows P.state.disk 34816 held ∧ ∀ b < 34816, Possible [.of w t P] b (held b) := by
  obtain ⟨t₀, r, s, create, size⟩ := small_made
  obtain ⟨L, off, created, rfl, -, -⟩ := createDynamic_created (by decide) create
  let w : Calls Bool := ⟨fun i => i.toNat, fun i => if i then [2] else [1, 1]⟩
  let looks : Calls Unit := ⟨fun _ => 0, fun _ => [0, 0]⟩
  have completes : (w.crowd looks (.base (L.core () true false)) s).Completes Faults.any.handler
      Op.locking := crowd_completes created.clear created.dynamic created.durable.whole
  obtain ⟨t, P, run, finished⟩ := completes.finishes
  have crowds : Crowds .any (.base (L.core () true false), s) [.of w t P]
      (some (.base (L.core () true false))) P.state :=
    Crowds.crowd .start run fun r' same => ⟨(Option.some.inj same).symm, finished⟩
  obtain ⟨held, shows, possible⟩ := crowds_survive_a_crash (by decide) create crowds
  rw [size] at shows possible
  exact ⟨_, s, w, looks, t, P, held, fun i => by cases i <;> rfl, run, finished, shows, possible⟩

/-- On the same devices a crowd comes to its end, each write with `Ok` or an error. A
    read that returns bytes returns what a crash would have left when it began, or
    what a write carried that did something since. -/
theorem crowds_read_regularly {ι κ : Type} [DecidableEq ι] [DecidableEq κ] [Finite ι] [Finite κ]
    {w : Calls ι} {looks : Calls κ} {env : BuildEnv} {path : Path} {size bs : Nat} {s₀ s₁ : Image}
    {r₀ r : VhdReader Unit} {t₀ : List (Event (Op Unit) Op.Res)} (word : bs < 2 ^ 32)
    (create : Prog.Runs Faults.any.handler (createDynamic env path size bs) s₀ t₀ (.ret (.ok r₀)) s₁)
    (crowds : Crowds .any (r₀, s₁) log (some r) s) :
    (w.crowd looks r s).Completes Faults.any.handler Op.locking ∧
    ∀ k t₁ P₁ t₂ P₂, (w.crowd looks r s).Runs Faults.any.handler Op.locking t₁ P₁ →
      (∀ x ∈ t₁, x.1 ≠ .inr k) → P₁.Runs Faults.any.handler Op.locking t₂ P₂ →
      ∃ before, Shows P₁.state.disk r₀.virtualSize before ∧
        (∀ b < r₀.virtualSize, Possible (.of w t₁ P₁ :: log) b (before b)) ∧
        (∀ i (out : Outcome Error Unit), P₂.todo (.inl i) = .ret out → out = .ok () ∨ ∃ e, out = .err e) ∧
        ∀ out : Outcome Error Bytes, P₂.todo (.inr k) = .ret out → (∃ e, out = .err e) ∨
          ∃ bytes, out = .ok bytes ∧ bytes.length = (looks.buf k).length ∧ ∀ j v, bytes[j]? = some v →
            v = before (looks.offset k + j) ∨ w.Carried (· ∈ writers t₂) (looks.offset k + j) v := by
  obtain ⟨L, off₀, created, rfl, -, -⟩ := createDynamic_created word create
  obtain ⟨⟨bat, off, lasting⟩, readers⟩ := crowds.lasting created rfl
  obtain ⟨fm, rfl⟩ := readers r rfl
  have clear := created.clear
  have dynamic := created.dynamic
  have whole := lasting.whole
  refine ⟨crowd_completes clear dynamic whole, fun k t₁ P₁ t₂ P₂ first idle second => ?_⟩
  obtain ⟨bat₁, off₁, lasting₁⟩ := lasting.crowd clear dynamic first
  refine ⟨_, lasting₁.whole.shows dynamic, lasting₁.values, fun i out returned => ?_,
    fun out returned => ?_⟩
  · exact crowd_settled clear dynamic whole (first.append second) returned
  · rcases crowd_replied clear dynamic whole first idle second lasting₁.whole returned with
      failed | ⟨bytes, rfl, length, values⟩
    · exact Or.inl failed
    · exact Or.inr ⟨bytes, rfl, length, values⟩

/-- Two writes and a read of the same byte of the small disk, to the end. -/
theorem small_crowd_is_read : ∃ (r : VhdReader Unit) (s : Image) (w : Calls Bool) (looks : Calls Unit)
    (t : List ((Bool ⊕ Unit) × Event (Op Unit) Op.Res))
    (P : Pool Image (Bool ⊕ Unit) (Op Unit) Op.Res Reply) (before : Nat → UInt8)
    (out : Outcome Error Bytes),
    (w.crowd looks r s).Runs Faults.any.handler Op.locking t P ∧ P.Finished ∧
    Shows s.disk 34816 before ∧ P.todo (.inr ()) = .ret out ∧ ((∃ e, out = .err e) ∨
      ∃ bytes, out = .ok bytes ∧ bytes.length = 2 ∧ ∀ j v, bytes[j]? = some v →
        v = before j ∨ w.Carried (· ∈ writers t) j v) := by
  obtain ⟨t₀, r, s, create, size⟩ := small_made
  let w : Calls Bool := ⟨fun i => i.toNat, fun i => if i then [2] else [1, 1]⟩
  let looks : Calls Unit := ⟨fun _ => 0, fun _ => [0, 0]⟩
  obtain ⟨completes, regular⟩ : (w.crowd looks r s).Completes _ _ ∧ _ :=
    crowds_read_regularly (by decide) create .start
  obtain ⟨t, P, run, finished⟩ := completes.finishes
  obtain ⟨before, shows, -, -, ended⟩ := regular () [] _ t P .here (fun x no => by cases no) run
  obtain ⟨out, returned⟩ := finished (.inr ())
  rw [size] at shows
  have reads := ended out returned
  simp only [looks, Nat.zero_add] at reads
  exact ⟨r, s, w, looks, t, P, before, out, run, finished, shows, returned, reads⟩

end Crowds

end ImgVhd
