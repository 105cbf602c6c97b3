import ImgVhd.Foundation.Prog

/-! # One interface on top of another

Each operation of an interface is served by code over another one. When every
operation answers and leaves what a meaning of the interface says, every program over
it does, however its next operation depends on the answers before.
-/

namespace ImgVhd.Foundation

variable {σ τ ε Op Op' α : Type} {Res : Op → Type} {Res' : Op' → Type}

/-- A program over an interface that is served by code over another. -/
def Prog.via (serve : (op : Op) → Code ε Op' Res' (Res op)) : Prog Op Res α → Code ε Op' Res' α
  | .ret a => pure a
  | .call op next => serve op >>= fun r => (next r).via serve

/-- From states that are related, what serves an operation answers what the meaning
    `step` answers, and leaves related states. -/
def Implements (R : Handler σ Op' Res') (serve : (op : Op) → Code ε Op' Res' (Res op))
    (step : τ → (op : Op) → Res op × τ) (rel : σ → τ → Prop) : Prop :=
  ∀ op s x, rel s x → Code.wp R (fun _ _ => True) (serve op)
    (fun r s' => r = (step x op).1 ∧ rel s' (step x op).2) (fun _ _ => False) s

variable {R : Handler σ Op' Res'} {serve : (op : Op) → Code ε Op' Res' (Res op)}
  {step : τ → (op : Op) → Res op × τ} {rel : σ → τ → Prop}

theorem Implements.via (implements : Implements R serve step rel) (p : Prog Op Res α) :
    ∀ s x, rel s x → Code.wp R (fun _ _ => True) (p.via serve)
      (fun a s' => a = (p.run step x).1 ∧ rel s' (p.run step x).2) (fun _ _ => False) s := by
  induction p with
  | ret a => exact fun s x related => (Code.wp_pure a).mpr ⟨rfl, related⟩
  | call op next ih =>
      intro s x related
      refine (Code.wp_bind _ _).mpr (Code.wp_mono (implements op s x related) (fun _ _ g => g) ?_
        fun _ _ never => never)
      rintro _ s' ⟨rfl, after⟩
      exact ih _ s' _ after

/-- Where the lower interface has a functional meaning, the two run alike. -/
theorem Implements.run (implements : Implements R serve step rel)
    (lower : σ → (op : Op') → Res' op × σ) (allowed : ∀ s op, R s op (lower s op).1 (lower s op).2)
    (p : Prog Op Res α) {s : σ} {x : τ} (related : rel s x) :
    ∃ s', Prog.run lower (p.via serve) s = (.ok (p.run step x).1, s') ∧ rel s' (p.run step x).2 := by
  rcases Code.wp_run lower (implements.via p s x related) allowed with
    ⟨a, ended, rfl, after⟩ | ⟨e, -, never⟩
  · exact ⟨_, Prod.ext ended rfl, after⟩
  · exact never.elim

end ImgVhd.Foundation
