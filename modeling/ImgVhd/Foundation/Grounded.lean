/-! # Following a relation to its ground

`Grounded base up n a`: at most `n` elements, each `up` from the one before, lead
from `a` to one in `base`. What is closed under `up` and has no ground in it, a
cycle for one, is never grounded.
-/

namespace ImgVhd.Foundation

inductive Grounded {α : Type} (base : α → Prop) (up : α → α → Prop) : Nat → α → Prop where
  | here {n a} (ground : base a) : Grounded base up (n + 1) a
  | above {n a b} (next : up a b) (rest : Grounded base up n b) : Grounded base up (n + 1) a

section Grounded

variable {α : Type} {base : α → Prop} {up : α → α → Prop} {n m : Nat} {a : α}

theorem Grounded.mono (grounded : Grounded base up n a) (more : n ≤ m) : Grounded base up m a := by
  induction grounded generalizing m with
  | here ground =>
      obtain ⟨m, rfl⟩ := Nat.exists_eq_succ_of_ne_zero (show m ≠ 0 by omega)
      exact .here ground
  | above next _ ih =>
      obtain ⟨m, rfl⟩ := Nat.exists_eq_succ_of_ne_zero (show m ≠ 0 by omega)
      exact .above next (ih (by omega))

theorem Grounded.escapes {S : α → Prop} (grounded : Grounded base up n a) (inside : S a)
    (floating : ∀ a, S a → ¬ base a) : ¬ ∀ a b, S a → up a b → S b := by
  intro closed
  induction grounded with
  | here ground => exact floating _ inside ground
  | above next _ ih => exact ih (closed _ _ inside next)

end Grounded

end ImgVhd.Foundation
