import ImgVhd.Foundation.Prog
import Mathlib.Data.DFinsupp.WellFounded
import Mathlib.SetTheory.Ordinal.Family

/-! # Threads that share a state and a lock

A `Pool` is any number of programs over one state, of which one at a time may hold
a lock. A step is one operation of one thread, and a run is any interleaving.
`Mutex` is what makes an account of such runs: what holds while the lock is free,
and what holds of each thread inside its section and outside.
-/

namespace ImgVhd.Foundation

/-- What an operation does with the lock: it takes it, drops it, waits until
    nobody has it, or does not look at it. -/
inductive Locking where
  | takes
  | drops
  | waits
  | passes

/-- Who has the lock before and after an operation of thread `i`. -/
inductive Turn {ι : Type} (i : ι) : Locking → Option ι → Option ι → Prop where
  | takes : Turn i .takes none (some i)
  | drops : Turn i .drops (some i) none
  | waits : Turn i .waits none none
  | passes {holder} : Turn i .passes holder holder

theorem Turn.holds {ι : Type} {i j : ι} {lock : Locking} {holder holder' : Option ι}
    (turn : Turn i lock holder holder') (mine : holder' = some j) : j = i ∨ holder = some j := by
  cases turn with
  | takes => exact Or.inl (Option.some.inj mine).symm
  | drops => cases mine
  | waits => cases mine
  | passes => exact Or.inr mine

/-- A state, who has the lock, and what each thread has left to do. -/
structure Pool (σ ι Op : Type) (Res : Op → Type) (α : ι → Type) where
  state : σ
  holder : Option ι
  todo : (i : ι) → Prog Op Res (α i)

namespace Pool

variable {σ ι Op : Type} {Res : Op → Type} {α : ι → Type} [DecidableEq ι]

/-- One operation of thread `i`. -/
inductive Step (R : Handler σ Op Res) (locking : Op → Locking) (P : Pool σ ι Op Res α) (i : ι) :
    Event Op Res → Pool σ ι Op Res α → Prop where
  | step {op next r s' holder} (ready : P.todo i = .call op next) (allowed : R P.state op r s')
      (turn : Turn i (locking op) P.holder holder) :
      Step R locking P i ⟨op, r⟩ ⟨s', holder, Function.update P.todo i (next r)⟩

/-- Any interleaving, with who did what, oldest first. -/
inductive Runs (R : Handler σ Op Res) (locking : Op → Locking) (P : Pool σ ι Op Res α) :
    List (ι × Event Op Res) → Pool σ ι Op Res α → Prop where
  | here : Runs R locking P [] P
  | step {t P' i e P''} (before : Runs R locking P t P') (step : Step R locking P' i e P'') :
      Runs R locking P (t ++ [(i, e)]) P''

/-- Every thread has returned. -/
def Finished (P : Pool σ ι Op Res α) : Prop := ∀ i, ∃ a, P.todo i = .ret a

/-- However the threads are interleaved, they all return: no run is stuck before
    that, and none goes on forever. -/
structure Completes (R : Handler σ Op Res) (locking : Op → Locking) (P : Pool σ ι Op Res α) : Prop where
  progress : ∀ t P', P.Runs R locking t P' → P'.Finished ∨ ∃ i e P'', P'.Step R locking i e P''
  ends : ¬ ∃ Q : Nat → Pool σ ι Op Res α, Q 0 = P ∧ ∀ n, ∃ i e, (Q n).Step R locking i e (Q (n + 1))

variable {R : Handler σ Op Res} {locking : Op → Locking} {P P' : Pool σ ι Op Res α} {i : ι}
  {e : Event Op Res} {t t' : List (ι × Event Op Res)}

theorem Step.others (step : Step R locking P i e P') {j : ι} (other : j ≠ i) :
    P'.todo j = P.todo j := by
  cases step with
  | step ready allowed turn => exact Function.update_of_ne other _ _

theorem Runs.split (run : Runs R locking P (t ++ t') P') :
    ∃ P₁, Runs R locking P t P₁ ∧ Runs R locking P₁ t' P' := by
  generalize whole : t ++ t' = u at run
  induction run generalizing t' with
  | here =>
      obtain ⟨rfl, rfl⟩ := List.append_eq_nil_iff.mp whole
      exact ⟨P, .here, .here⟩
  | @step u P₂ j e P₃ before step ih =>
      cases t' using List.reverseRecOn with
      | nil =>
          rw [List.append_nil] at whole
          subst whole
          exact ⟨P₃, before.step step, .here⟩
      | append_singleton t' x =>
          rw [← List.append_assoc] at whole
          obtain ⟨earlier, last⟩ := List.append_inj' whole rfl
          cases last
          obtain ⟨P₁, first, second⟩ := ih earlier
          exact ⟨P₁, first, second.step step⟩

theorem Runs.append (first : Runs R locking P t P') {P'' : Pool σ ι Op Res α}
    (second : Runs R locking P' t' P'') : Runs R locking P (t ++ t') P'' := by
  induction second with
  | here =>
      rw [List.append_nil]
      exact first
  | step before step ih =>
      rw [← List.append_assoc]
      exact ih.step step

theorem Runs.unmoved (run : Runs R locking P t P') (idle : ∀ x ∈ t, x.1 ≠ i) :
    P'.todo i = P.todo i := by
  induction run with
  | here => rfl
  | @step t P₁ j e P₂ before step ih =>
      have other : j ≠ i := idle (j, e) (List.mem_append_right _ List.mem_cons_self)
      rw [step.others (Ne.symm other)]
      exact ih fun x member => idle x (List.mem_append_left _ member)

theorem Runs.unheld (run : Runs R locking P t P') (idle : ∀ x ∈ t, x.1 ≠ i)
    (free : P.holder ≠ some i) : P'.holder ≠ some i := by
  induction run with
  | here => exact free
  | @step t P₁ j e P₂ before step ih =>
      have other : j ≠ i := idle (j, e) (List.mem_append_right _ List.mem_cons_self)
      have earlier := ih fun x member => idle x (List.mem_append_left _ member)
      cases step with
      | step ready allowed turn =>
          intro mine
          exact (turn.holds mine).elim (fun same => other same.symm) earlier

end Pool

/-! ## One lock -/

section Mutex

variable {σ ι Op : Type} {Res : Op → Type} {α : ι → Type}

/-- Threads that respect the lock, as far as those of `acts` move. `Free` holds
    while nobody has the lock, `In i` of the thread that has it, and `Out i` of
    every other thread. -/
structure Mutex (R : Handler σ Op Res) (locking : Op → Locking) (acts : ι → Prop) (Free : σ → Prop)
    (Out In : (i : ι) → σ → Prog Op Res (α i) → Prop) : Prop where
  /-- A thread enters its section. -/
  take : ∀ i s op next r s', acts i → Free s → Out i s (.call op next) → locking op = .takes →
    R s op r s' → s' = s ∧ In i s (next r)
  /-- Outside its section a thread changes nothing. -/
  look : ∀ i s op next r s', acts i → Out i s (.call op next) → locking op ≠ .takes →
    R s op r s' → s' = s ∧ Out i s (next r)
  never : ∀ i s op next, Out i s (.call op next) → locking op ≠ .drops
  /-- Inside its section it moves on, or leaves. -/
  work : ∀ i s op next r s', acts i → In i s (.call op next) → R s op r s' →
    (∀ j, j ≠ i → ∀ p, Out j s p → Out j s' p) ∧
    (locking op = .passes ∧ In i s' (next r) ∨
      locking op = .drops ∧ Free s' ∧ Out i s' (next r))
  /-- It does not end there. -/
  busy : ∀ i s a, ¬ In i s (.ret a)

/-- What a `Mutex` keeps. -/
structure Held (Free : σ → Prop) (Out In : (i : ι) → σ → Prog Op Res (α i) → Prop)
    (P : Pool σ ι Op Res α) : Prop where
  free : P.holder = none → Free P.state
  inside : ∀ i, P.holder = some i → In i P.state (P.todo i)
  outside : ∀ i, P.holder ≠ some i → Out i P.state (P.todo i)

variable {R : Handler σ Op Res} {locking : Op → Locking} {acts : ι → Prop}
  {Free : σ → Prop} {Out In : (i : ι) → σ → Prog Op Res (α i) → Prop} {P P' : Pool σ ι Op Res α}
  {i : ι} {e : Event Op Res} {t : List (ι × Event Op Res)}

theorem Held.always {I : σ → Prop} (held : Held Free Out In P) (free : ∀ s, Free s → I s)
    (inside : ∀ i s p, In i s p → I s) : I P.state := by
  cases owner : P.holder with
  | none => exact free _ (held.free owner)
  | some i => exact inside i _ _ (held.inside i owner)

theorem Mutex.unheld (mutex : Mutex R locking acts Free Out In) (held : Held Free Out In P) {a : α i}
    (returned : P.todo i = .ret a) : P.holder ≠ some i := by
  intro mine
  have inside := held.inside i mine
  rw [returned] at inside
  exact mutex.busy i _ a inside

variable [DecidableEq ι]

theorem Held.update {s' : σ} {holder : Option ι} {p : Prog Op Res (α i)}
    (free : holder = none → Free s') (inside : holder = some i → In i s' p)
    (outside : holder ≠ some i → Out i s' p)
    (insides : ∀ j, j ≠ i → holder = some j → In j s' (P.todo j))
    (outsides : ∀ j, j ≠ i → holder ≠ some j → Out j s' (P.todo j)) :
    Held Free Out In ⟨s', holder, Function.update P.todo i p⟩ := by
  refine ⟨free, fun j here => ?_, fun j other => ?_⟩
  · by_cases same : j = i
    · subst same
      simp only [Function.update_self]
      exact inside here
    · simp only [Function.update_of_ne same]
      exact insides j same here
  · by_cases same : j = i
    · subst same
      simp only [Function.update_self]
      exact outside other
    · simp only [Function.update_of_ne same]
      exact outsides j same other

theorem Mutex.step_inside {op : Op} {next : Res op → Prog Op Res (α i)} {r : Res op} {s' : σ}
    {holder : Option ι} (mutex : Mutex R locking acts Free Out In) (held : Held Free Out In P)
    (active : acts i) (mine : P.holder = some i) (ready : P.todo i = .call op next)
    (allowed : R P.state op r s') (turn : Turn i (locking op) P.holder holder) :
    Held Free Out In ⟨s', holder, Function.update P.todo i (next r)⟩ := by
  have inside := held.inside i mine
  rw [ready] at inside
  obtain ⟨others, moved⟩ := mutex.work i _ op next r s' active inside allowed
  have outside (j : ι) (other : j ≠ i) : Out j s' (P.todo j) := by
    apply others j other
    apply held.outside j
    rw [mine]
    exact fun same => other (Option.some.inj same).symm
  rw [mine] at turn
  generalize locking op = lock at turn moved
  cases turn with
  | drops =>
      obtain ⟨-, free, out⟩ := moved.resolve_left fun no => by cases no.1
      exact .update (fun _ => free) (fun no => by cases no) (fun _ => out)
        (fun j _ no => by cases no) fun j other _ => outside j other
  | passes =>
      obtain ⟨-, still⟩ := moved.resolve_right fun no => by cases no.1
      exact .update (fun no => by cases no) (fun _ => still) (fun no => absurd rfl no)
        (fun j other same => absurd (Option.some.inj same).symm other) fun j other _ => outside j other

/-- Any other thread enters its section, or changes nothing. -/
theorem Mutex.step_outside {op : Op} {next : Res op → Prog Op Res (α i)} {r : Res op} {s' : σ}
    {holder : Option ι} (mutex : Mutex R locking acts Free Out In) (held : Held Free Out In P)
    (active : acts i) (other : P.holder ≠ some i) (ready : P.todo i = .call op next)
    (allowed : R P.state op r s') (turn : Turn i (locking op) P.holder holder) :
    Held Free Out In ⟨s', holder, Function.update P.todo i (next r)⟩ := by
  have outside := held.outside i other
  rw [ready] at outside
  have looked (firm : locking op ≠ .takes) (same : holder = P.holder) :
      Held Free Out In ⟨s', holder, Function.update P.todo i (next r)⟩ := by
    obtain ⟨rfl, out⟩ := mutex.look i _ op next r s' active outside firm allowed
    subst same
    exact .update held.free (fun no => absurd no other) (fun _ => out) (fun j _ => held.inside j)
      fun j _ => held.outside j
  cases kind : locking op with
  | takes =>
      rw [kind] at turn
      generalize before : P.holder = holder₀ at turn
      cases turn with
      | takes =>
          obtain ⟨rfl, inside⟩ :=
            mutex.take i _ op next r s' active (held.free before) outside kind allowed
          refine .update (fun no => by cases no) (fun _ => inside) (fun no => absurd rfl no)
            (fun j apart same => absurd (Option.some.inj same).symm apart) fun j _ _ => ?_
          apply held.outside j
          rw [before]
          exact fun no => by cases no
  | drops => exact absurd kind (mutex.never i _ op next outside)
  | waits =>
      rw [kind] at turn
      generalize before : P.holder = holder₀ at turn
      cases turn with
      | waits => exact looked (by rw [kind]; exact fun no => by cases no) before.symm
  | passes =>
      rw [kind] at turn
      generalize before : P.holder = holder₀ at turn
      cases turn with
      | passes => exact looked (by rw [kind]; exact fun no => by cases no) before.symm

theorem Mutex.step (mutex : Mutex R locking acts Free Out In) (held : Held Free Out In P)
    (active : acts i) (step : P.Step R locking i e P') : Held Free Out In P' := by
  cases step with
  | step ready allowed turn =>
      by_cases mine : P.holder = some i
      · exact mutex.step_inside held active mine ready allowed turn
      · exact mutex.step_outside held active mine ready allowed turn

theorem Mutex.runs (mutex : Mutex R locking acts Free Out In) (held : Held Free Out In P)
    (run : P.Runs R locking t P') (active : ∀ x ∈ t, acts x.1) : Held Free Out In P' := by
  induction run with
  | here => exact held
  | step before step ih =>
      have earlier := ih fun x member => active x (List.mem_append_left _ member)
      exact mutex.step earlier (active _ (List.mem_append_right _ List.mem_cons_self)) step

/-- What the threads inside their sections may do to the state is what a run does to
    it. -/
theorem Mutex.drifts {V : σ → σ → Prop} (mutex : Mutex R locking acts Free Out In)
    (refl : ∀ s, V s s) (trans : ∀ s s' s'', V s s' → V s' s'' → V s s'')
    (inside : ∀ i s op next r s', acts i → In i s (.call op next) → R s op r s' → V s s')
    (held : Held Free Out In P) (run : P.Runs R locking t P') (active : ∀ x ∈ t, acts x.1) :
    V P.state P'.state := by
  induction run with
  | here => exact refl _
  | @step t P₁ i e P₂ before step ih =>
      have earlier : ∀ x ∈ t, acts x.1 := fun x member => active x (List.mem_append_left _ member)
      have between := mutex.runs held before earlier
      have last := active (i, e) (List.mem_append_right _ List.mem_cons_self)
      refine trans _ _ _ (ih earlier) ?_
      cases step with
      | @step op next r s' holder ready allowed turn =>
          by_cases mine : P₁.holder = some i
          · have here := between.inside i mine
            rw [ready] at here
            exact inside i _ op next r s' last here allowed
          · have out := between.outside i mine
            rw [ready] at out
            have same : s' = P₁.state := by
              by_cases takes : locking op = .takes
              · rw [takes] at turn
                generalize owner : P₁.holder = holder₀ at turn
                cases turn with
                | takes =>
                    exact (mutex.take i _ op next r s' last (between.free owner) out takes allowed).1
              · exact (mutex.look i _ op next r s' last out takes allowed).1
            rw [same]
            exact refl _

theorem Mutex.returned (mutex : Mutex R locking acts Free Out In) (held : Held Free Out In P)
    (run : P.Runs R locking t P') (active : ∀ x ∈ t, acts x.1) {a : α i} (ended : P'.todo i = .ret a) :
    Out i P'.state (.ret a) := by
  have after := mutex.runs held run active
  have outside := after.outside i (mutex.unheld after ended)
  rw [ended] at outside
  exact outside

/-- As long as a thread has something left to do, some thread can move. -/
theorem Mutex.progress (mutex : Mutex R locking (fun _ => True) Free Out In)
    (held : Held Free Out In P) (total : ∀ s op, ∃ r s', R s op r s') :
    P.Finished ∨ ∃ i e P', P.Step R locking i e P' := by
  cases owner : P.holder with
  | some i =>
      have inside := held.inside i owner
      cases rest : P.todo i with
      | ret a => exact absurd owner (mutex.unheld held rest)
      | call op next =>
          rw [rest] at inside
          obtain ⟨r, s', allowed⟩ := total P.state op
          obtain ⟨-, ⟨kind, -⟩ | ⟨kind, -⟩⟩ := mutex.work i _ op next r s' trivial inside allowed
          · exact Or.inr ⟨i, _, _, .step rest allowed (by rw [kind]; exact .passes)⟩
          · exact Or.inr ⟨i, _, _, .step rest allowed (by rw [kind, owner]; exact .drops)⟩
  | none =>
      by_cases finished : P.Finished
      · exact Or.inl finished
      obtain ⟨i, unreturned⟩ := not_forall.mp finished
      cases rest : P.todo i with
      | ret a => exact absurd ⟨a, rest⟩ unreturned
      | call op next =>
          have outside := held.outside i (by rw [owner]; exact fun no => by cases no)
          rw [rest] at outside
          obtain ⟨r, s', allowed⟩ := total P.state op
          cases kind : locking op with
          | takes => exact Or.inr ⟨i, _, _, .step rest allowed (by rw [kind, owner]; exact .takes)⟩
          | drops => exact absurd kind (mutex.never i _ op next outside)
          | waits => exact Or.inr ⟨i, _, _, .step rest allowed (by rw [kind, owner]; exact .waits)⟩
          | passes => exact Or.inr ⟨i, _, _, .step rest allowed (by rw [kind]; exact .passes)⟩

end Mutex

/-! ## One program among others -/

section Amidst

variable {σ Op : Type} {Res : Op → Type} {α : Type} {V : σ → σ → Prop} {R : Handler σ Op Res}
  {G : Op → Prop} {Q : α → Prop} {s s' : σ}

/-- `R`, when others may change the state by `V` before each operation. -/
def Handler.amidst (V : σ → σ → Prop) (R : Handler σ Op Res) : Handler σ Op Res :=
  fun y op r s' => ∃ s, V y s ∧ R s op r s'

/-- What is left of a program that keeps to its specification whatever the others
    do. -/
def Prog.Amidst (V : σ → σ → Prop) (R : Handler σ Op Res) (G : Op → Prop) (Q : α → Prop) (s : σ)
    (p : Prog Op Res α) : Prop :=
  ∃ y, V y s ∧ p.wp (R.amidst V) (fun _ => G) (fun a _ => Q a) y

theorem Prog.Amidst.steady {p : Prog Op Res α} (trans : ∀ s s' s'', V s s' → V s' s'' → V s s'')
    (left : p.Amidst V R G Q s) (drift : V s s') : p.Amidst V R G Q s' := by
  obtain ⟨y, earlier, spec⟩ := left
  exact ⟨y, trans _ _ _ earlier drift, spec⟩

theorem Prog.Amidst.look {op : Op} {next : Res op → Prog Op Res α} (refl : ∀ s, V s s)
    (left : (Prog.call op next).Amidst V R G Q s) :
    G op ∧ ∀ r s', R s op r s' → (next r).Amidst V R G Q s' := by
  obtain ⟨y, earlier, guard, spec⟩ := left
  exact ⟨guard, fun r s' allowed => ⟨s', refl s', spec r s' ⟨s, earlier, allowed⟩⟩⟩

theorem Prog.Amidst.returned {a : α} (left : (Prog.ret a).Amidst V R G Q s) : Q a := by
  obtain ⟨y, -, spec⟩ := left
  exact spec

end Amidst

/-! ## No run goes on forever -/

/-- How far a program is from its end: more than any of its branches. -/
noncomputable def Prog.rank {Op : Type} {Res : Op → Type} {α : Type} : Prog Op Res α → Ordinal.{0}
  | .ret _ => 0
  | .call _ next => ⨆ r, Order.succ (next r).rank

theorem Prog.rank_next {Op : Type} {Res : Op → Type} {α : Type} {op : Op}
    (next : Res op → Prog Op Res α) (r : Res op) : (next r).rank < (Prog.call op next).rank := by
  have below := Ordinal.le_iSup (fun r => Order.succ (next r).rank) r
  exact Order.succ_le_iff.mp below

/-- Finitely many threads come to an end, however they interleave. -/
theorem Pool.ends {σ ι Op : Type} {Res : Op → Type} {α : ι → Type} [DecidableEq ι] [Finite ι]
    {R : Handler σ Op Res} {locking : Op → Locking} (P : Nat → Pool σ ι Op Res α) :
    ¬ ∀ n, ∃ i e, (P n).Step R locking i e (P (n + 1)) := by
  intro forever
  obtain ⟨n, stuck⟩ := WellFounded.not_rel_apply_succ
    (r := fun x y : ι → Ordinal.{0} => x < y) fun n i => ((P n).todo i).rank
  obtain ⟨i, e, step⟩ := forever n
  apply stuck
  generalize P (n + 1) = P' at step
  cases step with
  | @step op next r s' holder ready allowed turn =>
      have lower := Prog.rank_next next r
      rw [← ready] at lower
      refine lt_of_eq_of_lt (funext fun j => ?_) (update_lt_self_iff.mpr lower)
      by_cases same : j = i
      · subst same
        simp only [Function.update_self]
      · simp only [Function.update_of_ne same]

section Completes

variable {σ ι Op : Type} {Res : Op → Type} {α : ι → Type} [DecidableEq ι] {R : Handler σ Op Res}
  {locking : Op → Locking} {P : Pool σ ι Op Res α}

theorem Mutex.completes [Finite ι] {Free : σ → Prop}
    {Out In : (i : ι) → σ → Prog Op Res (α i) → Prop}
    (mutex : Mutex R locking (fun _ => True) Free Out In) (held : Held Free Out In P)
    (total : ∀ s op, ∃ r s', R s op r s') : P.Completes R locking where
  progress _ _ run := mutex.progress (mutex.runs held run fun _ _ => trivial) total
  ends := by
    intro ⟨Q, _, forever⟩
    exact Pool.ends Q forever

theorem Pool.Completes.finishes (completes : P.Completes R locking) :
    ∃ t P', P.Runs R locking t P' ∧ P'.Finished := by
  by_contra never
  have more (x : { x : List (ι × Event Op Res) × Pool σ ι Op Res α // P.Runs R locking x.1 x.2 }) :
      ∃ y : { x : List (ι × Event Op Res) × Pool σ ι Op Res α // P.Runs R locking x.1 x.2 },
        ∃ i e, x.1.2.Step R locking i e y.1.2 := by
    obtain ⟨⟨t, P'⟩, run⟩ := x
    obtain finished | ⟨i, e, P'', step⟩ := completes.progress t P' run
    · exact absurd ⟨t, P', run, finished⟩ never
    · exact ⟨⟨(_, P''), run.step step⟩, i, e, step⟩
  choose next step using more
  apply completes.ends
  refine ⟨fun n => (next^[n] ⟨([], P), .here⟩).1.2, rfl, fun n => ?_⟩
  simp only [Function.iterate_succ_apply']
  exact step _

end Completes

end ImgVhd.Foundation
