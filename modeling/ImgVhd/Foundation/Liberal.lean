import ImgVhd.Foundation.Prog

/-! # Code that may fail

The weakest liberal precondition of fallible code: a guard at each operation when
it is issued, and a postcondition of the value, if there is one. Errors, panics
and running out of fuel are all let through, so a rule about the order of
operations needs nothing of the answers.
-/

namespace ImgVhd.Foundation

/-- Any answer at all. The state is the events so far, newest first. -/
def Handler.unknown {Op : Type} {Res : Op → Type} : Handler (List (Event Op Res)) Op Res :=
  fun h op r h' => h' = ⟨op, r⟩ :: h

/-- Since an event that settles there was no operation that unsettles. -/
def Since {Op : Type} {Res : Op → Type} (settles : Event Op Res → Prop) (unsettles : Op → Prop) :
    List (Event Op Res) → Prop
  | [] => False
  | e :: h => settles e ∨ (¬ unsettles e.op ∧ Since settles unsettles h)

theorem Prog.Runs.unknown {σ α Op : Type} {Res : Op → Type} {R : Handler σ Op Res}
    {p p' : Prog Op Res α} {s s' : σ} {t} (run : Prog.Runs R p s t p' s') :
    Prog.Runs Handler.unknown p [] t p' t.reverse := by
  have unknown := (run.traced []).part (R := Handler.unknown) Prod.snd fun _ _ _ _ stepped => stepped.2
  rw [List.append_nil] at unknown
  exact unknown

namespace Code

variable {ε Op : Type} {Res : Op → Type} {α β σ τ : Type}

def wlp (R : Handler σ Op Res) (G : σ → Op → Prop) (c : Code ε Op Res α) (Q : α → σ → Prop)
    (s : σ) : Prop :=
  Prog.wp R G c (fun out s' => ∀ a, out = .ok a → Q a s') s

variable {R : Handler σ Op Res} {G : σ → Op → Prop} {Q : α → σ → Prop} {s : σ}

theorem wlp_pure {a : α} (h : Q a s) : wlp R G (pure a : Code ε Op Res α) Q s := by
  rintro _ ⟨⟩
  exact h

theorem wlp_fail {e : ε} : wlp R G (fail e : Code ε Op Res α) Q s := nofun

theorem wlp_outOfFuel : wlp R G (Prog.ret .outOfFuel : Code ε Op Res α) Q s := nofun

theorem wlp_lift {x : Outcome ε α} (h : ∀ a, x = .ok a → Q a s) :
    wlp R G (liftM x : Code ε Op Res α) Q s := h

theorem wlp_perform {op : Op} {Q : Res op → σ → Prop} (guard : G s op)
    (done : ∀ r s', R s op r s' → Q r s') :
    wlp R G (perform op : Code ε Op Res (Res op)) Q s := by
  refine ⟨guard, fun r s' allowed => ?_⟩
  rintro _ ⟨⟩
  exact done r s' allowed

theorem wlp_mono {c : Code ε Op Res α} {Q' : α → σ → Prop} (h : wlp R G c Q s)
    (post : ∀ a s, Q a s → Q' a s) : wlp R G c Q' s :=
  Prog.wp_mono h (fun _ _ g => g) fun _ s' reached a is => post a s' (reached a is)

theorem wlp_bind {c : Code ε Op Res α} {f : α → Code ε Op Res β} {Q : β → σ → Prop}
    (h : wlp R G c (fun a s' => wlp R G (f a) Q s') s) : wlp R G (c >>= f) Q s := by
  refine (Prog.wp_bind c _ _ s).mpr (Prog.wp_mono h (fun _ _ g => g) fun out s' reached => ?_)
  cases out with
  | ok a => exact reached a rfl
  | err e => exact nofun
  | panic => exact nofun
  | outOfFuel => exact nofun

theorem wlp_ensuring {c : Code ε Op Res α} {op : Op} (anywhere : ∀ s, G s op)
    (h : wlp R G c (fun a s' => ∀ r s'', R s' op r s'' → Q a s'') s) :
    wlp R G (ensuring c op) Q s := by
  refine (Prog.wp_bind c _ _ s).mpr (Prog.wp_mono h (fun _ _ g => g) fun out s' reached => ?_)
  exact ⟨anywhere s', fun r s'' allowed a is => reached a is r s'' allowed⟩

/-- The loop rule needs no measure: running out of fuel is let through. -/
theorem wlp_whileLoop {cond : τ → Bool} {body : τ → Code ε Op Res τ} {Q : τ → σ → Prop}
    (J : τ → σ → Prop)
    (turn : ∀ t s, J t s → cond t = true → wlp R G (body t) (fun t' s' => J t' s') s)
    (done : ∀ t s, J t s → cond t = false → Q t s) :
    ∀ (fuel : Nat) (t : τ) (s : σ), J t s → wlp R G (whileLoop cond body fuel t) Q s := by
  intro fuel
  induction fuel with
  | zero =>
      intro t s holds
      cases more : cond t with
      | true =>
          simp only [whileLoop, more]
          exact wlp_outOfFuel
      | false =>
          simp only [whileLoop, more, Bool.false_eq_true]
          exact wlp_pure (done t s holds more)
  | succ fuel ih =>
      intro t s holds
      cases more : cond t with
      | true =>
          simp only [whileLoop, more, if_true]
          exact wlp_bind (wlp_mono (turn t s holds more) fun t' s' after => ih t' s' after)
      | false =>
          simp only [whileLoop, more, Bool.false_eq_true, if_false]
          exact wlp_pure (done t s holds more)

theorem wlp_order {G : List (Event Op Res) → Op → Prop} {c : Code ε Op Res α}
    {Q : α → List (Event Op Res) → Prop} {R : Handler σ Op Res} {p : Prog Op Res (Outcome ε α)}
    {s' : σ} {t} (h : wlp .unknown G c Q []) (run : Prog.Runs R c s t p s') :
    (∀ before e after, t = before ++ e :: after → G before.reverse e.op) ∧
      ∀ a, p.value? = some (.ok a) → Q a t.reverse := by
  constructor
  · rintro before e after rfl
    obtain ⟨q, x, first, rest⟩ := run.split
    have left := Prog.wp_runs h first.unknown
    cases rest with
    | step allowed _ => exact left.1
  · intro a value
    cases p with
    | call op next => cases value
    | ret out =>
        cases value
        exact Prog.wp_finished h run.unknown a rfl

theorem wlp_asks {P : Op → Prop} {c : Code ε Op Res α} {I : σ → Prop} (asks : c.Asks P)
    (guard : ∀ s op, P op → I s → G s op) (kept : ∀ s op r s', P op → I s → R s op r s' → I s')
    (start : I s) : wlp R G c (fun _ s' => I s') s := by
  unfold Asks at asks
  unfold wlp
  induction c generalizing s with
  | ret out => exact fun _ _ => start
  | call op next ih =>
      exact ⟨guard s op asks.1 start, fun r s' allowed =>
        ih r (asks.2 r) (kept s op r s' asks.1 start allowed)⟩

end Code

end ImgVhd.Foundation
