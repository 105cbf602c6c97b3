import ImgVhd.Foundation.Prog

/-! # Code that settles

Code that comes to a value or an error from any state, with the answers of any
handler one has in mind: it never panics and its loops never run out of fuel.
Nothing is known of the state and errors are let through, so a rule needs only
what holds of the answers and of the values handed on.
-/

namespace ImgVhd.Foundation

namespace Code

variable {ε Op : Type} {Res : Op → Type} {α β σ τ : Type}

/-- From any state the code settles, and a value it comes to is one of `Q`. -/
def Settles (R : Handler σ Op Res) (c : Code ε Op Res α) (Q : α → Prop) : Prop :=
  ∀ s, wp R (fun _ _ => True) c (fun a _ => Q a) (fun _ _ => True) s

variable {R : Handler σ Op Res} {P Q : α → Prop}

theorem settles_pure {a : α} (h : Q a) : Settles R (pure a : Code ε Op Res α) Q := fun _ => h

theorem settles_fail {e : ε} : Settles R (fail e : Code ε Op Res α) Q := fun _ => trivial

theorem settles_perform {op : Op} {Q : Res op → Prop} (answers : ∀ s r s', R s op r s' → Q r) :
    Settles R (perform op : Code ε Op Res (Res op)) Q :=
  fun s => ⟨trivial, fun r s' stepped => answers s r s' stepped⟩

theorem settles_lift {x : Outcome ε α} (settled : x.Settled) (h : ∀ a, x = .ok a → Q a) :
    Settles R (liftM x : Code ε Op Res α) Q := by
  intro s
  cases x with
  | ok a => exact h a rfl
  | err e => trivial
  | panic => exact settled.elim
  | outOfFuel => exact settled.elim

theorem settles_mono {c : Code ε Op Res α} (h : Settles R c P) (post : ∀ a, P a → Q a) :
    Settles R c Q :=
  fun s => wp_mono (h s) (fun _ _ g => g) (fun a _ => post a) fun _ _ e => e

theorem settles_bind {c : Code ε Op Res α} {f : α → Code ε Op Res β} {Q : β → Prop}
    (first : Settles R c P) (rest : ∀ a, P a → Settles R (f a) Q) : Settles R (c >>= f) Q :=
  fun s => wp_seq (first s) fun a s' h => rest a h s'

theorem settles_lift_bind {x : Outcome ε α} {f : α → Code ε Op Res β} {Q : β → Prop}
    (settled : x.Settled) (rest : ∀ a, x = .ok a → Settles R (f a) Q) :
    Settles R ((liftM x : Code ε Op Res α) >>= f) Q :=
  settles_bind (settles_lift settled fun _ is => is) rest

theorem settles_ensuring {c : Code ε Op Res α} {op : Op} (h : Settles R c Q) :
    Settles R (ensuring c op) Q :=
  fun s => wp_ensuring (wp_mono (h s) (fun _ _ g => g)
    (fun _ _ post => ⟨trivial, fun _ _ _ => post⟩) fun _ _ _ => ⟨trivial, fun _ _ _ => trivial⟩)

theorem settles_whileLoop {cond : τ → Bool} {body : τ → Code ε Op Res τ} {Q : τ → Prop} {fuel : Nat}
    {start : τ} (J : τ → Prop) (m : τ → Nat) (positive : ∀ t, J t → cond t = true → 0 < m t)
    (turn : ∀ t, J t → cond t = true → Settles R (body t) fun t' => J t' ∧ m t' < m t)
    (done : ∀ t, J t → cond t = false → Q t) (holds : J start) (enough : m start ≤ fuel) :
    Settles R (whileLoop cond body fuel start) Q :=
  fun _ => wp_whileLoop (fun t _ => J t) m (fun t _ => positive t) (fun t s holds more =>
    wp_mono (turn t holds more s) (fun _ _ g => g) (fun _ _ post => post) fun _ _ e => e)
    (fun t _ => done t) _ _ _ holds enough

theorem Settles.runs {c : Code ε Op Res α} {out : Outcome ε α} {s s' : σ} {t} (h : Settles R c Q)
    (run : Prog.Runs R c s t (.ret out) s') : out.Settled ∧ ∀ a, out = .ok a → Q a := by
  rcases wp_finished (h s) run with ⟨a, rfl, holds⟩ | ⟨e, rfl, -⟩
  · refine ⟨trivial, ?_⟩
    rintro _ ⟨⟩
    exact holds
  · exact ⟨trivial, nofun⟩

end Code

end ImgVhd.Foundation
