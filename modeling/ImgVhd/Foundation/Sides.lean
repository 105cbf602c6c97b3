import ImgVhd.Foundation.Prog

/-! # Two interfaces side by side

A program over one interface is a program over two of which it uses the left one.
Its runs are the same, and leave the other side alone. Two interfaces may also be
to one state.
-/

namespace ImgVhd.Foundation

/-- The answers of two interfaces. -/
abbrev Sides {Op₁ Op₂ : Type} (Res₁ : Op₁ → Type) (Res₂ : Op₂ → Type) : Op₁ ⊕ Op₂ → Type
  | .inl op => Res₁ op
  | .inr op => Res₂ op

section Sides

variable {σ τ Op₁ Op₂ α : Type} {Res₁ : Op₁ → Type} {Res₂ : Op₂ → Type}

/-- Each interface has its own state. -/
def Handler.sides (L : Handler σ Op₁ Res₁) (R : Handler τ Op₂ Res₂) :
    Handler (σ × τ) (Op₁ ⊕ Op₂) (Sides Res₁ Res₂)
  | x, .inl op, r, x' => L x.1 op r x'.1 ∧ x'.2 = x.2
  | x, .inr op, r, x' => R x.2 op r x'.2 ∧ x'.1 = x.1

theorem Handler.sides_answered {L : Handler σ Op₁ Res₁} {R : Handler τ Op₂ Res₂}
    (left : ∀ s op, ∃ r s', L s op r s') (right : ∀ y op, ∃ r y', R y op r y') (x : σ × τ)
    (op : Op₁ ⊕ Op₂) : ∃ r x', L.sides R x op r x' := by
  cases op with
  | inl op =>
      obtain ⟨r, s', allowed⟩ := left x.1 op
      exact ⟨r, (s', x.2), allowed, rfl⟩
  | inr op =>
      obtain ⟨r, y', allowed⟩ := right x.2 op
      exact ⟨r, (x.1, y'), allowed, rfl⟩

/-- A program that uses the left interface only. -/
def Prog.left : Prog Op₁ Res₁ α → Prog (Op₁ ⊕ Op₂) (Sides Res₁ Res₂) α
  | .ret a => .ret a
  | .call op next => .call (.inl op) fun r => (next r).left

variable {L : Handler σ Op₁ Res₁} {R : Handler τ Op₂ Res₂}

theorem Prog.wp_left {p : Prog Op₁ Res₁ α} {G : σ → Op₁ → Prop} {Q : α → σ → Prop}
    {G' : σ × τ → Op₁ ⊕ Op₂ → Prop} {s : σ} {y : τ} (h : p.wp L G Q s)
    (guard : ∀ s op, G s op → G' (s, y) (.inl op)) :
    (p.left : Prog _ (Sides Res₁ Res₂) α).wp (L.sides R) G' (fun a x => Q a x.1 ∧ x.2 = y) (s, y) := by
  induction p generalizing s with
  | ret a => exact ⟨h, rfl⟩
  | call op next ih =>
      refine ⟨guard s op h.1, ?_⟩
      rintro r ⟨s', y'⟩ ⟨stepped, rfl⟩
      exact ih r (h.2 r s' stepped)

theorem Prog.Runs.left {p p' : Prog Op₁ Res₁ α} {s s' : σ} {t : List (Event Op₁ Res₁)} (y : τ)
    (run : Runs L p s t p' s') :
    Runs (L.sides R) (p.left : Prog _ (Sides Res₁ Res₂) α) (s, y)
      (t.map fun e => (⟨.inl e.op, e.result⟩ : Event (Op₁ ⊕ Op₂) (Sides Res₁ Res₂))) p'.left (s', y) := by
  induction run with
  | here => exact .here
  | @step op next s r s' t p' s'' allowed _ ih =>
      have both : L.sides R (s, y) (.inl op) r (s', y) := ⟨allowed, rfl⟩
      exact .step both ih

end Sides

namespace Code

variable {σ τ ε ε' Op₁ Op₂ Op α : Type} {Res₁ : Op₁ → Type} {Res₂ : Op₂ → Type} {Res : Op → Type}

/-- Code over the left interface, its errors translated: `map_err(report)?`. -/
def left (report : ε → ε') (c : Code ε Op₁ Res₁ α) : Code ε' (Op₁ ⊕ Op₂) (Sides Res₁ Res₂) α :=
  Prog.bind (Prog.left c) fun
    | .ok a => Prog.ret (.ok a)
    | .err e => Prog.ret (.err (report e))
    | .panic => Prog.ret .panic
    | .outOfFuel => Prog.ret .outOfFuel

theorem wp_left {L : Handler σ Op₁ Res₁} {R : Handler τ Op₂ Res₂} {c : Code ε Op₁ Res₁ α}
    {G : σ → Op₁ → Prop} {Q : α → σ → Prop} {E : ε → σ → Prop} {G' : σ × τ → Op₁ ⊕ Op₂ → Prop}
    {report : ε → ε'} {s : σ} {y : τ} {Q' : α → σ × τ → Prop} {E' : ε' → σ × τ → Prop}
    (h : wp L G c Q E s) (guard : ∀ s op, G s op → G' (s, y) (.inl op))
    (done : ∀ a s', Q a s' → Q' a (s', y)) (failed : ∀ e s', E e s' → E' (report e) (s', y)) :
    wp (L.sides R) G' (left report c) Q' E' (s, y) := by
  apply (Prog.wp_bind _ _ _ _).mpr
  refine Prog.wp_mono (Prog.wp_left (R := R) h guard) (fun _ _ g => g) ?_
  rintro out ⟨s', y'⟩ ⟨post, rfl⟩
  cases out with
  | ok a => exact done a s' post
  | err e => exact failed e s' post
  | panic => exact post.elim
  | outOfFuel => exact post.elim

theorem Reaches.left {L : Handler σ Op₁ Res₁} {R : Handler τ Op₂ Res₂} {c : Code ε Op₁ Res₁ α}
    {report : ε → ε'} {a : α} {s s' : σ} (y : τ) (reached : Reaches L c s a s') :
    Reaches (L.sides R) (Code.left report c) (s, y) a (s', y) := by
  obtain ⟨t, run⟩ := reached
  exact ⟨_, (run.left y).bind .here⟩

/-- `if let Err(e) = c { handle(e) }` -/
def onErr (c : Code ε Op Res α) (handle : ε → Code ε Op Res α) : Code ε Op Res α :=
  Prog.bind c fun
    | .err e => handle e
    | .ok a => Prog.ret (.ok a)
    | .panic => Prog.ret .panic
    | .outOfFuel => Prog.ret .outOfFuel

theorem Reaches.onErr {R : Handler σ Op Res} {c : Code ε Op Res α} {handle : ε → Code ε Op Res α}
    {a : α} {s s' : σ} (reached : Reaches R c s a s') : Reaches R (Code.onErr c handle) s a s' := by
  obtain ⟨t, run⟩ := reached
  exact ⟨_, run.bind .here⟩

end Code

end ImgVhd.Foundation
