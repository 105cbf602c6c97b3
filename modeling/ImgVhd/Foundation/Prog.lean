import ImgVhd.Foundation.Outcome
import Mathlib.Logic.Function.Basic

/-! # Programs over an interface, and every run of them

A `Prog` is code seen from the interface it calls: a tree whose nodes are the
operations it issues and whose branches are the answers it may get. One tree is
read under many meanings of the interface. A `Handler` is such a meaning: a
relation saying which answers and which next states an operation may have, so a
failing or a partly failing device is a handler like any other.

`Runs` is every run, finished or cut between two operations. `wp` is the rule a
proof uses instead: a guard that holds at each operation when it is issued, and
a postcondition of the value returned.
-/

namespace ImgVhd.Foundation

inductive Prog (Op : Type) (Res : Op → Type) (α : Type) where
  | ret (value : α)
  | call (op : Op) (next : Res op → Prog Op Res α)

/-- An operation together with the answer it got. -/
structure Event (Op : Type) (Res : Op → Type) where
  op : Op
  result : Res op

/-- The answers and next states an operation may have. -/
abbrev Handler (σ Op : Type) (Res : Op → Type) := σ → (op : Op) → Res op → σ → Prop

/-- The same meaning over states that also remember the events so far, newest
    first. -/
def Handler.traced {σ Op : Type} {Res : Op → Type} (R : Handler σ Op Res) :
    Handler (σ × List (Event Op Res)) Op Res :=
  fun x op r x' => R x.1 op r x'.1 ∧ x'.2 = ⟨op, r⟩ :: x.2

namespace Prog

variable {Op : Type} {Res : Op → Type} {α β σ : Type}

def bind : Prog Op Res α → (α → Prog Op Res β) → Prog Op Res β
  | .ret a, f => f a
  | .call op next, f => .call op fun r => (next r).bind f

instance : Monad (Prog Op Res) where
  pure := .ret
  bind := bind

theorem bind_ret (p : Prog Op Res α) : p.bind .ret = p := by
  induction p with
  | ret a => rfl
  | call op next ih => simp only [bind, ih]

theorem bind_assoc (p : Prog Op Res α) {γ : Type} (f : α → Prog Op Res β)
    (g : β → Prog Op Res γ) : (p.bind f).bind g = p.bind fun a => (f a).bind g := by
  induction p with
  | ret a => rfl
  | call op next ih => simp only [bind, ih]

instance : LawfulMonad (Prog Op Res) := LawfulMonad.mk' _
  (by intro _ p; exact bind_ret p)
  (by intros; rfl)
  (by intro _ _ _ p f g; exact bind_assoc p f g)

/-- The value of a program with nothing left to do. -/
def value? : Prog Op Res α → Option α
  | .ret a => some a
  | .call _ _ => none

/-- The run of a program under a handler that is a function. -/
def run (step : σ → (op : Op) → Res op × σ) : Prog Op Res α → σ → α × σ
  | .ret a, s => (a, s)
  | .call op next, s => (next (step s op).1).run step (step s op).2

theorem run_bind (step : σ → (op : Op) → Res op × σ) (p : Prog Op Res α)
    (f : α → Prog Op Res β) (s : σ) :
    (p.bind f).run step s = (f (p.run step s).1).run step (p.run step s).2 := by
  induction p generalizing s with
  | ret a => rfl
  | call op next ih => exact ih _ _

/-- `Runs R p s trace p' s'`: from `s`, the program `p` can issue the operations
    of `trace` with the answers recorded there and be left with `p'` to do in
    `s'`. The run is finished when `p'` is a `ret`, and cut short otherwise. -/
inductive Runs (R : Handler σ Op Res) :
    Prog Op Res α → σ → List (Event Op Res) → Prog Op Res α → σ → Prop where
  | here {p s} : Runs R p s [] p s
  | step {op next s r s' trace p' s''} (allowed : R s op r s')
      (rest : Runs R (next r) s' trace p' s'') :
      Runs R (.call op next) s (⟨op, r⟩ :: trace) p' s''

theorem Runs.trans {R : Handler σ Op Res} {p p' p'' : Prog Op Res α} {s s' s'' : σ} {t t'}
    (first : Runs R p s t p' s') (rest : Runs R p' s' t' p'' s'') :
    Runs R p s (t ++ t') p'' s'' := by
  induction first with
  | here => exact rest
  | step allowed _ ih => exact .step allowed (ih rest)

theorem Runs.bind {R : Handler σ Op Res} {p : Prog Op Res α} {f : α → Prog Op Res β}
    {q : Prog Op Res β} {a : α} {s s' s'' : σ} {t t'} (first : Runs R p s t (.ret a) s')
    (rest : Runs R (f a) s' t' q s'') : Runs R (p.bind f) s (t ++ t') q s'' := by
  generalize ended : (ret a : Prog Op Res α) = p' at first
  induction first with
  | here =>
      subst ended
      exact rest
  | step allowed _ ih => exact .step allowed (ih rest ended)

theorem Runs.of_bind {R : Handler σ Op Res} {p : Prog Op Res α} {f : α → Prog Op Res β} {b : β}
    {s s' : σ} {t} (run : Runs R (p.bind f) s t (.ret b) s') :
    ∃ a s₁ t₁ t₂, t = t₁ ++ t₂ ∧ Runs R p s t₁ (.ret a) s₁ ∧ Runs R (f a) s₁ t₂ (.ret b) s' := by
  induction p generalizing s t with
  | ret a => exact ⟨a, s, [], t, rfl, .here, run⟩
  | call op next ih =>
      cases run with
      | step allowed rest =>
          obtain ⟨a, s₁, t₁, t₂, rfl, first, second⟩ := ih _ rest
          exact ⟨a, s₁, _, t₂, rfl, .step allowed first, second⟩

theorem Runs.mono {R R' : Handler σ Op Res} {p p' : Prog Op Res α} {s s' : σ} {t}
    (smaller : ∀ s op r s', R s op r s' → R' s op r s') (h : Runs R p s t p' s') :
    Runs R' p s t p' s' := by
  induction h with
  | here => exact .here
  | step allowed _ ih => exact .step (smaller _ _ _ _ allowed) ih

theorem Runs.part {τ : Type} {R : Handler σ Op Res} {H : Handler τ Op Res} (part : τ → σ)
    {p p' : Prog Op Res α} {x x' : τ} {t} (run : Runs H p x t p' x')
    (steps : ∀ x op r x', H x op r x' → R (part x) op r (part x')) :
    Runs R p (part x) t p' (part x') := by
  induction run with
  | here => exact .here
  | step allowed _ ih => exact .step (steps _ _ _ _ allowed) ih

theorem Runs.split {R : Handler σ Op Res} {p p' : Prog Op Res α} {s s' : σ} {t t'}
    (run : Runs R p s (t ++ t') p' s') : ∃ q x, Runs R p s t q x ∧ Runs R q x t' p' s' := by
  induction t generalizing p s with
  | nil => exact ⟨p, s, .here, run⟩
  | cons e t ih =>
      cases run with
      | step allowed rest =>
          obtain ⟨q, x, first, second⟩ := ih rest
          exact ⟨q, x, .step allowed first, second⟩

theorem Runs.issued {R : Handler σ Op Res} {p p' : Prog Op Res α} {s s' : σ} {e : Event Op Res} {t t'}
    (run : Runs R p s (t ++ e :: t') p' s') : ∃ next x, Runs R p s t (.call e.op next) x ∧
      Runs R (.call e.op next) x (e :: t') p' s' := by
  obtain ⟨q, x, first, second⟩ := run.split
  cases second with
  | step allowed rest => exact ⟨_, x, first, .step allowed rest⟩

/-- What every step keeps holds after every run. -/
theorem Runs.keeps {R : Handler σ Op Res} {I : σ → Prop} {p p' : Prog Op Res α} {s s' : σ} {t}
    (run : Runs R p s t p' s') (kept : ∀ s op r s', R s op r s' → I s → I s') (start : I s) : I s' := by
  induction run with
  | here => exact start
  | step allowed _ ih => exact ih (kept _ _ _ _ allowed start)

theorem Runs.traced {R : Handler σ Op Res} {p p' : Prog Op Res α} {s s' : σ} {t}
    (run : Runs R p s t p' s') (h : List (Event Op Res)) :
    Runs R.traced p (s, h) t p' (s', t.reverse ++ h) := by
  induction run generalizing h with
  | here => exact .here
  | step allowed _ ih =>
      rw [List.reverse_cons, List.append_assoc]
      exact .step ⟨allowed, rfl⟩ (ih _)

theorem Runs.events {R : Handler σ Op Res} {P : (op : Op) → Res op → Prop} {p p' : Prog Op Res α}
    {s s' : σ} {t} (run : Runs R p s t p' s') (holds : ∀ s op r s', R s op r s' → P op r) :
    ∀ e ∈ t, P e.op e.result := by
  induction run with
  | here => intro e member; cases member
  | step allowed _ ih =>
      intro e member
      cases member with
      | head => exact holds _ _ _ _ allowed
      | tail _ later => exact ih e later

theorem Runs.restrict {R : Handler σ Op Res} {P : (op : Op) → Res op → Prop}
    {p p' : Prog Op Res α} {s s' : σ} {t} (run : Runs R p s t p' s')
    (all : ∀ e ∈ t, P e.op e.result) :
    Runs (fun s op r s' => R s op r s' ∧ P op r) p s t p' s' := by
  induction run with
  | here => exact .here
  | step allowed _ ih =>
      exact .step ⟨allowed, all _ List.mem_cons_self⟩
        (ih fun e member => all e (List.mem_cons_of_mem _ member))

theorem Runs.along {R : Handler σ Op Res} {P : σ → Prop} {p p' : Prog Op Res α} {s s' : σ} {t}
    (run : Runs R p s t p' s') (cut : ∀ t p' s', Runs R p s t p' s' → P s') :
    Runs (fun s op r s' => R s op r s' ∧ P s') p s t p' s' := by
  induction run with
  | here => exact .here
  | step allowed _ ih =>
      exact .step ⟨allowed, cut _ _ _ (.step allowed .here)⟩
        (ih fun t p' s' rest => cut _ _ _ (.step allowed rest))

theorem Runs.guarded {R : Handler σ Op Res} {P : σ → Op → Prop} {p p' : Prog Op Res α} {s s' : σ} {t}
    (run : Runs R p s t p' s')
    (issued : ∀ t op next x t', Runs R p s t (.call op next) x → Runs R (.call op next) x t' p' s' →
      P x op) : Runs (fun s op r s' => R s op r s' ∧ P s op) p s t p' s' := by
  induction run with
  | here => exact .here
  | step allowed rest ih =>
      exact .step ⟨allowed, issued [] _ _ _ _ .here (.step allowed rest)⟩
        (ih fun t op next x t' first second => issued _ op next x t' (.step allowed first) second)

/-- The events of the functional run. -/
def trace (step : σ → (op : Op) → Res op × σ) : Prog Op Res α → σ → List (Event Op Res)
  | .ret _, _ => []
  | .call op next, s => ⟨op, (step s op).1⟩ :: (next (step s op).1).trace step (step s op).2

theorem run_trace {R : Handler σ Op Res} (step : σ → (op : Op) → Res op × σ)
    (allowed : ∀ s op, R s op (step s op).1 (step s op).2) (p : Prog Op Res α) (s : σ) :
    Runs R p s (p.trace step s) (.ret (p.run step s).1) (p.run step s).2 := by
  induction p generalizing s with
  | ret a => exact .here
  | call op next ih => exact .step (allowed s op) (ih _ _)

theorem run_runs {R : Handler σ Op Res} (step : σ → (op : Op) → Res op × σ)
    (allowed : ∀ s op, R s op (step s op).1 (step s op).2) (p : Prog Op Res α) (s : σ) :
    ∃ trace, Runs R p s trace (.ret (p.run step s).1) (p.run step s).2 :=
  ⟨_, run_trace step allowed p s⟩

/-- Every operation a program can come to is in `P`, whatever it is answered. -/
def Asks (P : Op → Prop) : Prog Op Res α → Prop
  | .ret _ => True
  | .call op next => P op ∧ ∀ r, (next r).Asks P

theorem Asks.bind {P : Op → Prop} {p : Prog Op Res α} {f : α → Prog Op Res β} (first : p.Asks P)
    (rest : ∀ a, (f a).Asks P) : (p.bind f).Asks P := by
  induction p with
  | ret a => exact rest a
  | call op next ih => exact ⟨first.1, fun r => ih r (first.2 r)⟩

theorem Asks.events {R : Handler σ Op Res} {P : Op → Prop} {p p' : Prog Op Res α} {s s' : σ} {t}
    (asks : p.Asks P) (run : Runs R p s t p' s') : ∀ e ∈ t, P e.op := by
  induction run with
  | here =>
      intro e member
      cases member
  | step allowed rest ih =>
      intro e member
      cases member with
      | head => exact asks.1
      | tail _ later => exact ih (asks.2 _) e later

/-- `G` holds at every operation when it is issued and `Q` when a value is
    returned, on every run of `p` from `s`. -/
def wp (R : Handler σ Op Res) (G : σ → Op → Prop) :
    Prog Op Res α → (α → σ → Prop) → σ → Prop
  | .ret a, Q, s => Q a s
  | .call op next, Q, s => G s op ∧ ∀ r s', R s op r s' → (next r).wp R G Q s'

variable {R : Handler σ Op Res} {G : σ → Op → Prop}

theorem wp_bind (p : Prog Op Res α) (f : α → Prog Op Res β) (Q : β → σ → Prop) (s : σ) :
    (p.bind f).wp R G Q s ↔ p.wp R G (fun a s' => (f a).wp R G Q s') s := by
  induction p generalizing s with
  | ret a => rfl
  | call op next ih => simp only [bind, wp, ih]

theorem wp_mono {p : Prog Op Res α} {G' : σ → Op → Prop} {Q Q' : α → σ → Prop} {s : σ}
    (h : p.wp R G Q s) (guard : ∀ s op, G s op → G' s op) (post : ∀ a s, Q a s → Q' a s) :
    p.wp R G' Q' s := by
  induction p generalizing s with
  | ret a => exact post a s h
  | call op next ih => exact ⟨guard s op h.1, fun r s' allowed => ih r (h.2 r s' allowed)⟩

theorem wp_invariant {H : Handler σ Op Res} {p : Prog Op Res α} {Q : α → σ → Prop} {I : σ → Prop}
    {s : σ} (h : p.wp R G Q s) (inside : ∀ s op r s', G s op → I s → H s op r s' → R s op r s')
    (kept : ∀ s op r s', G s op → I s → H s op r s' → I s') (start : I s) :
    p.wp H (fun s op => G s op ∧ I s) (fun a s => Q a s ∧ I s) s := by
  induction p generalizing s with
  | ret a => exact ⟨h, start⟩
  | call op next ih =>
      exact ⟨⟨h.1, start⟩, fun r s' allowed =>
        ih r (h.2 r s' (inside s op r s' h.1 start allowed)) (kept s op r s' h.1 start allowed)⟩

theorem wp_and {p : Prog Op Res α} {G' : σ → Op → Prop} {Q Q' : α → σ → Prop} {s : σ}
    (h : p.wp R G Q s) (h' : p.wp R G' Q' s) :
    p.wp R (fun s op => G s op ∧ G' s op) (fun a s => Q a s ∧ Q' a s) s := by
  induction p generalizing s with
  | ret a => exact ⟨h, h'⟩
  | call op next ih =>
      exact ⟨⟨h.1, h'.1⟩, fun r s' allowed => ih r (h.2 r s' allowed) (h'.2 r s' allowed)⟩

theorem wp_part {τ : Type} {H : Handler τ Op Res} (part : τ → σ) {p : Prog Op Res α}
    {Q : α → σ → Prop} {x : τ} (h : p.wp R G Q (part x))
    (steps : ∀ x op r x', H x op r x' → R (part x) op r (part x')) :
    p.wp H (fun x op => G (part x) op) (fun a x => Q a (part x)) x := by
  induction p generalizing x with
  | ret a => exact h
  | call op next ih =>
      exact ⟨h.1, fun r x' allowed => ih r (h.2 r (part x') (steps x op r x' allowed))⟩

theorem wp_runs {p p' : Prog Op Res α} {Q : α → σ → Prop} {s s' : σ} {t}
    (h : p.wp R G Q s) (run : Runs R p s t p' s') : p'.wp R G Q s' := by
  induction run with
  | here => exact h
  | step allowed _ ih => exact ih (h.2 _ _ allowed)

theorem wp_finished {p : Prog Op Res α} {Q : α → σ → Prop} {s s' : σ} {t a}
    (h : p.wp R G Q s) (run : Runs R p s t (.ret a) s') : Q a s' :=
  wp_runs h run

theorem wp_cut {p p' : Prog Op Res α} {Q : α → σ → Prop} {I : σ → Prop} {s s' : σ} {t}
    (h : p.wp R G Q s) (run : Runs R p s t p' s') (guard : ∀ s op, G s op → I s)
    (post : ∀ a s, Q a s → I s) : I s' := by
  have rest := wp_runs h run
  cases p' with
  | ret a => exact post a s' rest
  | call op next => exact guard s' op rest.1

theorem wp_events {p p' : Prog Op Res α} {Q : α → σ → Prop} {P : Op → Prop} {s s' : σ} {t}
    (h : p.wp R G Q s) (run : Runs R p s t p' s') (guard : ∀ s op, G s op → P op) :
    ∀ e ∈ t, P e.op := by
  induction run with
  | here => intro e member; cases member
  | step allowed _ ih =>
      intro e member
      cases member with
      | head => exact guard _ _ h.1
      | tail _ later => exact ih (h.2 _ _ allowed) e later

theorem finishes (answered : ∀ s op, ∃ r s', R s op r s') (p : Prog Op Res α) (s : σ) :
    ∃ t a s', Runs R p s t (.ret a) s' := by
  induction p generalizing s with
  | ret a => exact ⟨[], a, s, .here⟩
  | call op next ih =>
      obtain ⟨r, s', allowed⟩ := answered s op
      obtain ⟨t, a, s'', rest⟩ := ih r s'
      exact ⟨_, a, s'', .step allowed rest⟩

theorem wp_of_runs {p : Prog Op Res α} {Q : α → σ → Prop} {s : σ}
    (ends : ∀ t a s', Runs R p s t (.ret a) s' → Q a s') : p.wp R (fun _ _ => True) Q s := by
  induction p generalizing s with
  | ret a => exact ends [] a s .here
  | call op next ih =>
      exact ⟨trivial, fun r s' allowed => ih r fun t a s'' rest => ends _ a s'' (.step allowed rest)⟩

theorem wp_run {p : Prog Op Res α} {Q : α → σ → Prop} {s : σ}
    (step : σ → (op : Op) → Res op × σ) (h : p.wp R G Q s)
    (allowed : ∀ s op, R s op (step s op).1 (step s op).2) :
    Q (p.run step s).1 (p.run step s).2 := by
  obtain ⟨_, run⟩ := run_runs step allowed p s
  exact wp_finished h run

theorem wp_trace {R' : Handler σ Op Res} {p : Prog Op Res α} {Q : α → σ → Prop} {s : σ}
    (step : σ → (op : Op) → Res op × σ) (h : p.wp R G Q s)
    (allowed : ∀ s op, R s op (step s op).1 (step s op).2)
    (guarded : ∀ s op, G s op → R' s op (step s op).1 (step s op).2) :
    Runs R' p s (p.trace step s) (.ret (p.run step s).1) (p.run step s).2 := by
  induction p generalizing s with
  | ret a => exact .here
  | call op next ih => exact .step (guarded s op h.1) (ih _ (h.2 _ _ (allowed s op)))

end Prog

/-- Fallible code over an interface. -/
def Code (ε Op : Type) (Res : Op → Type) (α : Type) := Prog Op Res (Outcome ε α)

namespace Code

variable {ε Op : Type} {Res : Op → Type} {α β σ τ : Type}

def bind (c : Code ε Op Res α) (f : α → Code ε Op Res β) : Code ε Op Res β :=
  Prog.bind c fun
    | .ok a => f a
    | .err e => Prog.ret (.err e)
    | .panic => Prog.ret .panic
    | .outOfFuel => Prog.ret .outOfFuel

instance : Monad (Code ε Op Res) where
  pure a := Prog.ret (.ok a)
  bind := bind

/-- Run pure checked code. -/
def lift (x : Outcome ε α) : Code ε Op Res α := Prog.ret x

instance : MonadLift (Outcome ε) (Code ε Op Res) := ⟨lift⟩

/-- Issue one operation. -/
def perform (op : Op) : Code ε Op Res (Res op) := Prog.call op fun r => Prog.ret (.ok r)

def fail (e : ε) : Code ε Op Res α := Prog.ret (.err e)

/-- Run the cleanup `op` however `c` ends: what dropping a guard does. -/
def ensuring (c : Code ε Op Res α) (op : Op) : Code ε Op Res α :=
  Prog.bind c fun out => Prog.call op fun _ => Prog.ret out

/-- `while cond { body }`. Each turn costs one unit of fuel; a loop that still
    has work when the fuel is gone comes to `outOfFuel`. -/
def whileLoop (cond : τ → Bool) (body : τ → Code ε Op Res τ) : Nat → τ → Code ε Op Res τ
  | 0, t => if cond t then Prog.ret .outOfFuel else pure t
  | fuel + 1, t => if cond t then bind (body t) (whileLoop cond body fuel) else pure t

/-- The weakest precondition of fallible code: one postcondition for a value,
    one for an error, and no run that panics or runs out of fuel. -/
def wp (R : Handler σ Op Res) (G : σ → Op → Prop) (c : Code ε Op Res α) (Q : α → σ → Prop)
    (E : ε → σ → Prop) (s : σ) : Prop :=
  Prog.wp R G c (fun out s' => match out with
    | .ok a => Q a s'
    | .err e => E e s'
    | .panic => False
    | .outOfFuel => False) s

variable {R : Handler σ Op Res} {G : σ → Op → Prop} {Q : α → σ → Prop} {E : ε → σ → Prop} {s : σ}

@[simp] theorem wp_pure (a : α) : wp R G (pure a : Code ε Op Res α) Q E s ↔ Q a s := Iff.rfl

theorem wp_lift (x : Outcome ε α) :
    wp R G (liftM x : Code ε Op Res α) Q E s ↔ match x with
      | .ok a => Q a s
      | .err e => E e s
      | .panic => False
      | .outOfFuel => False := Iff.rfl

theorem wp_perform (op : Op) {Q : Res op → σ → Prop} :
    wp R G (perform op : Code ε Op Res (Res op)) Q E s ↔
      G s op ∧ ∀ r s', R s op r s' → Q r s' := Iff.rfl

theorem wp_bind (c : Code ε Op Res α) (f : α → Code ε Op Res β) {Q : β → σ → Prop} :
    wp R G (c >>= f) Q E s ↔ wp R G c (fun a s' => wp R G (f a) Q E s') E s := by
  refine (Prog.wp_bind c _ _ s).trans ?_
  unfold wp
  constructor
  · intro h
    refine Prog.wp_mono h (fun _ _ g => g) fun out s' post => ?_
    cases out <;> exact post
  · intro h
    refine Prog.wp_mono h (fun _ _ g => g) fun out s' post => ?_
    cases out <;> exact post

theorem wp_mono {c : Code ε Op Res α} {G' : σ → Op → Prop} {Q' : α → σ → Prop}
    {E' : ε → σ → Prop} (h : wp R G c Q E s) (guard : ∀ s op, G s op → G' s op)
    (post : ∀ a s, Q a s → Q' a s) (error : ∀ e s, E e s → E' e s) : wp R G' c Q' E' s := by
  refine Prog.wp_mono h guard fun out s' reached => ?_
  cases out with
  | ok a => exact post a s' reached
  | err e => exact error e s' reached
  | panic => exact reached
  | outOfFuel => exact reached

theorem wp_seq {c : Code ε Op Res α} {f : α → Code ε Op Res β} {Q : β → σ → Prop}
    {P : α → σ → Prop} (first : wp R G c P E s)
    (rest : ∀ a s', P a s' → wp R G (f a) Q E s') : wp R G (c >>= f) Q E s :=
  (wp_bind c f).mpr (wp_mono first (fun _ _ g => g) rest fun _ _ e => e)

theorem wp_invariant {H : Handler σ Op Res} {c : Code ε Op Res α} {I : σ → Prop} (h : wp R G c Q E s)
    (inside : ∀ s op r s', G s op → I s → H s op r s' → R s op r s')
    (kept : ∀ s op r s', G s op → I s → H s op r s' → I s') (start : I s) :
    wp H (fun s op => G s op ∧ I s) c (fun a s => Q a s ∧ I s) (fun e s => E e s ∧ I s) s := by
  refine Prog.wp_mono (Prog.wp_invariant h inside kept start) (fun _ _ g => g) fun out s' reached => ?_
  cases out with
  | ok a => exact reached
  | err e => exact reached
  | panic => exact reached.1
  | outOfFuel => exact reached.1

theorem wp_finished {c : Code ε Op Res α} {out : Outcome ε α} {s' : σ} {t} (h : wp R G c Q E s)
    (run : Prog.Runs R c s t (.ret out) s') :
    (∃ a, out = .ok a ∧ Q a s') ∨ ∃ e, out = .err e ∧ E e s' := by
  have reached := Prog.wp_finished h run
  cases out with
  | ok a => exact Or.inl ⟨a, rfl, reached⟩
  | err e => exact Or.inr ⟨e, rfl, reached⟩
  | panic => exact reached.elim
  | outOfFuel => exact reached.elim

theorem wp_cut {c : Code ε Op Res α} {p : Prog Op Res (Outcome ε α)} {I : σ → Prop} {s' : σ} {t}
    (h : wp R G c Q E s) (run : Prog.Runs R c s t p s') (guard : ∀ s op, G s op → I s)
    (done : ∀ a s, Q a s → I s) (failed : ∀ e s, E e s → I s) : I s' := by
  apply Prog.wp_cut h run guard
  intro out s' reached
  cases out with
  | ok a => exact done a s' reached
  | err e => exact failed e s' reached
  | panic => exact reached.elim
  | outOfFuel => exact reached.elim

theorem wp_run {c : Code ε Op Res α} (step : σ → (op : Op) → Res op × σ) (h : wp R G c Q E s)
    (allowed : ∀ s op, R s op (step s op).1 (step s op).2) :
    (∃ a, (Prog.run step c s).1 = .ok a ∧ Q a (Prog.run step c s).2) ∨
      ∃ e, (Prog.run step c s).1 = .err e ∧ E e (Prog.run step c s).2 := by
  obtain ⟨_, run⟩ := Prog.run_runs step allowed c s
  exact wp_finished h run

@[simp] theorem lift_ok_bind (a : α) (f : α → Code ε Op Res β) :
    ((liftM (Outcome.ok a : Outcome ε α) : Code ε Op Res α) >>= f) = f a := rfl

@[simp] theorem lift_err_bind (e : ε) (f : α → Code ε Op Res β) :
    ((liftM (Outcome.err e : Outcome ε α) : Code ε Op Res α) >>= f) = fail e := rfl

@[simp] theorem pure_bind (a : α) (f : α → Code ε Op Res β) :
    ((pure a : Code ε Op Res α) >>= f) = f a := rfl

theorem bind_assoc {γ : Type} (c : Code ε Op Res α) (f : α → Code ε Op Res β)
    (g : β → Code ε Op Res γ) : (c >>= f) >>= g = c >>= fun a => f a >>= g := by
  refine (Prog.bind_assoc c _ _).trans ?_
  refine congrArg (Prog.bind c) (funext fun out => ?_)
  cases out <;> rfl

theorem bind_pure (c : Code ε Op Res α) : (c >>= fun a => pure a) = c := by
  refine Eq.trans (congrArg (Prog.bind c) (funext fun out => ?_)) (Prog.bind_ret c)
  cases out <;> rfl

theorem wp_ensuring {c : Code ε Op Res α} {op : Op}
    (h : wp R G c (fun a s' => G s' op ∧ ∀ r s'', R s' op r s'' → Q a s'')
      (fun e s' => G s' op ∧ ∀ r s'', R s' op r s'' → E e s'') s) :
    wp R G (ensuring c op) Q E s := by
  refine (Prog.wp_bind c _ _ s).mpr (Prog.wp_mono h (fun _ _ g => g) fun out s' post => ?_)
  cases out with
  | ok a => exact post
  | err e => exact post
  | panic => exact post.elim
  | outOfFuel => exact post.elim

theorem ensuring_bind (c : Code ε Op Res α) (op : Op) (f : α → Code ε Op Res β) :
    (ensuring c op >>= f) =
      Prog.bind c fun out => Prog.call op fun _ => bind (lift out) f :=
  Prog.bind_assoc c _ _

/-- Some run of `c` from `s` ends with `a` in `s'`. -/
def Reaches (R : Handler σ Op Res) (c : Code ε Op Res α) (s : σ) (a : α) (s' : σ) : Prop :=
  ∃ t, Prog.Runs R c s t (.ret (.ok a)) s'

theorem Reaches.bind {c : Code ε Op Res α} {f : α → Code ε Op Res β} {a : α} {b : β} {s' s'' : σ}
    (first : Reaches R c s a s') (rest : Reaches R (f a) s' b s'') : Reaches R (c >>= f) s b s'' := by
  obtain ⟨t, first⟩ := first
  obtain ⟨t', rest⟩ := rest
  exact ⟨t ++ t', first.bind rest⟩

theorem Reaches.pure (a : α) : Reaches R (Pure.pure a : Code ε Op Res α) s a s := ⟨[], .here⟩

theorem wp_reaches {c : Code ε Op Res α} (h : wp R G c Q E s) (answered : ∀ s op, ∃ r s', R s op r s')
    (sound : ∀ e s', ¬ E e s') : ∃ a s', Reaches R c s a s' ∧ Q a s' := by
  obtain ⟨t, out, s', run⟩ := Prog.finishes answered c s
  rcases wp_finished h run with ⟨a, rfl, reached⟩ | ⟨e, rfl, reached⟩
  · exact ⟨a, s', ⟨t, run⟩, reached⟩
  · exact absurd reached (sound e s')

/-- Every operation fallible code can come to is in `P`. -/
def Asks (P : Op → Prop) (c : Code ε Op Res α) : Prop := Prog.Asks P c

theorem Asks.bind {P : Op → Prop} {c : Code ε Op Res α} {f : α → Code ε Op Res β} (first : c.Asks P)
    (rest : ∀ a, (f a).Asks P) : (c >>= f).Asks P := by
  apply Prog.Asks.bind first
  intro out
  cases out with
  | ok a => exact rest a
  | err e => trivial
  | panic => trivial
  | outOfFuel => trivial

theorem asks_lift {P : Op → Prop} (x : Outcome ε α) : Asks P (liftM x : Code ε Op Res α) := trivial

theorem asks_pure {P : Op → Prop} (a : α) : Asks P (pure a : Code ε Op Res α) := trivial

theorem asks_fail {P : Op → Prop} (e : ε) : Asks P (fail e : Code ε Op Res α) := trivial

theorem asks_perform {P : Op → Prop} {op : Op} (asked : P op) :
    Asks P (perform op : Code ε Op Res (Res op)) := ⟨asked, fun _ => trivial⟩

section Loop

variable {cond : τ → Bool} {body : τ → Code ε Op Res τ} {fuel : Nat} {t : τ}

theorem whileLoop_stop (stop : cond t = false) : whileLoop cond body fuel t = pure t := by
  cases fuel with
  | zero =>
      unfold whileLoop
      rw [stop]
      rfl
  | succ fuel => simp only [whileLoop, stop, Bool.false_eq_true, if_false]

theorem whileLoop_more (more : cond t = true) :
    whileLoop cond body (fuel + 1) t = body t >>= whileLoop cond body fuel := by
  simp only [whileLoop, more, if_true]
  rfl

theorem asks_whileLoop {P : Op → Prop} (turn : ∀ t, (body t).Asks P) :
    (whileLoop cond body fuel t).Asks P := by
  induction fuel generalizing t with
  | zero =>
      cases more : cond t with
      | true =>
          simp only [whileLoop, more]
          trivial
      | false =>
          rw [whileLoop_stop more]
          exact asks_pure t
  | succ fuel ih =>
      cases more : cond t with
      | true =>
          rw [whileLoop_more more]
          exact (turn t).bind fun _ => ih
      | false =>
          rw [whileLoop_stop more]
          exact asks_pure t

end Loop

/-- The loop rule. `J` holds before each turn, a loop with work left has a
    positive measure `m`, a turn lowers it, and there is fuel for it. -/
theorem wp_whileLoop {cond : τ → Bool} {body : τ → Code ε Op Res τ} {Q : τ → σ → Prop}
    (J : τ → σ → Prop) (m : τ → Nat) (positive : ∀ t s, J t s → cond t = true → 0 < m t)
    (turn : ∀ t s, J t s → cond t = true →
      wp R G (body t) (fun t' s' => J t' s' ∧ m t' < m t) E s)
    (done : ∀ t s, J t s → cond t = false → Q t s) :
    ∀ (fuel : Nat) (t : τ) (s : σ), J t s → m t ≤ fuel → wp R G (whileLoop cond body fuel t) Q E s := by
  intro fuel
  induction fuel with
  | zero =>
      intro t s holds enough
      cases more : cond t with
      | true =>
          exact absurd (positive t s holds more) (by omega)
      | false =>
          simp only [whileLoop, more, Bool.false_eq_true]
          exact done t s holds more
  | succ fuel ih =>
      intro t s holds enough
      cases more : cond t with
      | true =>
          simp only [whileLoop, more, if_true]
          refine wp_seq (turn t s holds more) fun t' s' after => ?_
          exact ih t' s' after.1 (by omega)
      | false =>
          simp only [whileLoop, more, Bool.false_eq_true, if_false]
          exact done t s holds more

end Code

end ImgVhd.Foundation
