import Mathlib.Data.List.Basic
import Mathlib.Control.Basic
import Mathlib.Algebra.Group.Nat.Defs

/-! # Outcomes of checked code

`Outcome` is what a call of ordinary, terminating, fallible code comes to: a
value, an error the caller can inspect, a panic (an arithmetic overflow or an
index out of range), or a loop that ran past the fuel its embedding was given.
The last two are never caught, so a proof that neither occurs is a proof that
the arithmetic is exact and that every loop ends.
-/

namespace ImgVhd.Foundation

inductive Outcome (ε α : Type) where
  | ok (value : α)
  | err (error : ε)
  | panic
  | outOfFuel
  deriving DecidableEq, Repr

namespace Outcome

variable {ε α β : Type}

def bind : Outcome ε α → (α → Outcome ε β) → Outcome ε β
  | .ok a, f => f a
  | .err e, _ => .err e
  | .panic, _ => .panic
  | .outOfFuel, _ => .outOfFuel

instance : Monad (Outcome ε) where
  pure := .ok
  bind := bind

instance : LawfulMonad (Outcome ε) := LawfulMonad.mk' _
  (by intro _ x; cases x <;> rfl)
  (by intros; rfl)
  (by intro _ _ _ x _ _; cases x <;> rfl)

@[simp] theorem ok_bind (a : α) (f : α → Outcome ε β) : (Outcome.ok a >>= f) = f a := rfl
@[simp] theorem err_bind (e : ε) (f : α → Outcome ε β) :
    ((Outcome.err e : Outcome ε α) >>= f) = .err e := rfl
@[simp] theorem panic_bind (f : α → Outcome ε β) :
    ((Outcome.panic : Outcome ε α) >>= f) = .panic := rfl
@[simp] theorem outOfFuel_bind (f : α → Outcome ε β) :
    ((Outcome.outOfFuel : Outcome ε α) >>= f) = .outOfFuel := rfl
@[simp] theorem pure_eq_ok (a : α) : (pure a : Outcome ε α) = .ok a := rfl

theorem bind_eq_ok {x : Outcome ε α} {f : α → Outcome ε β} {b : β} :
    (x >>= f) = .ok b ↔ ∃ a, x = .ok a ∧ f a = .ok b := by
  cases x <;> simp

/-- Neither a panic nor an exhausted loop: what a caller can observe as a
    `Result`. -/
def Settled : Outcome ε α → Prop
  | .ok _ => True
  | .err _ => True
  | .panic => False
  | .outOfFuel => False

instance (x : Outcome ε α) : Decidable x.Settled :=
  match x with
  | .ok _ => .isTrue trivial
  | .err _ => .isTrue trivial
  | .panic => .isFalse id
  | .outOfFuel => .isFalse id

/-- The value, if there is one. -/
def value? : Outcome ε α → Option α
  | .ok a => some a
  | _ => none

theorem ok_of_isSome {x : Outcome ε α} (h : x.value?.isSome = true) : ∃ a, x = .ok a := by
  cases x with
  | ok a => exact ⟨a, rfl⟩
  | err e => cases h
  | panic => cases h
  | outOfFuel => cases h

theorem settled_bind {x : Outcome ε α} {f : α → Outcome ε β} (first : x.Settled)
    (rest : ∀ a, x = .ok a → (f a).Settled) : (x >>= f).Settled := by
  cases x with
  | ok a => exact rest a rfl
  | err e => trivial
  | panic => exact first
  | outOfFuel => exact first

end Outcome

section Arithmetic

variable {ε α : Type}

/-- `ok_or` on an option. -/
def okOr (e : ε) : Option α → Outcome ε α
  | some a => .ok a
  | none => .err e

/-- Unchecked `+` on `u64`: an overflow panics. -/
def add64 (a b : Nat) : Outcome ε Nat := if a + b < 2 ^ 64 then .ok (a + b) else .panic

/-- Unchecked `-` on `u64`. -/
def sub64 (a b : Nat) : Outcome ε Nat := if b ≤ a then .ok (a - b) else .panic

/-- Unchecked `*` on `u64`. -/
def mul64 (a b : Nat) : Outcome ε Nat := if a * b < 2 ^ 64 then .ok (a * b) else .panic

/-- `checked_add(..).ok_or(e)?` -/
def checkedAdd (e : ε) (a b : Nat) : Outcome ε Nat :=
  if a + b < 2 ^ 64 then .ok (a + b) else .err e

/-- `checked_mul(..).ok_or(e)?` -/
def checkedMul (e : ε) (a b : Nat) : Outcome ε Nat :=
  if a * b < 2 ^ 64 then .ok (a * b) else .err e

/-- `u64::div_ceil`. -/
def divCeil (a b : Nat) : Nat := if a % b = 0 then a / b else a / b + 1

/-- Indexing, which panics out of range. -/
def getAt (xs : List α) (i : Nat) : Outcome ε α :=
  match xs[i]? with
  | some x => .ok x
  | none => .panic

/-- The slice `xs[start..stop]`, which panics when it is not inside `xs`. -/
def sliceOf (xs : List α) (start stop : Nat) : Outcome ε (List α) :=
  if start ≤ stop ∧ stop ≤ xs.length then .ok ((xs.drop start).take (stop - start)) else .panic

theorem add64_of_lt {a b : Nat} (h : a + b < 2 ^ 64) : (add64 a b : Outcome ε Nat) = .ok (a + b) :=
  if_pos h

theorem sub64_of_le {a b : Nat} (h : b ≤ a) : (sub64 a b : Outcome ε Nat) = .ok (a - b) :=
  if_pos h

theorem mul64_of_lt {a b : Nat} (h : a * b < 2 ^ 64) : (mul64 a b : Outcome ε Nat) = .ok (a * b) :=
  if_pos h

theorem checkedAdd_of_lt {e : ε} {a b : Nat} (h : a + b < 2 ^ 64) :
    checkedAdd e a b = .ok (a + b) := if_pos h

theorem checkedMul_of_lt {e : ε} {a b : Nat} (h : a * b < 2 ^ 64) :
    checkedMul e a b = .ok (a * b) := if_pos h

theorem checkedAdd_eq_ok {e : ε} {a b c : Nat} :
    checkedAdd e a b = .ok c ↔ a + b < 2 ^ 64 ∧ c = a + b := by
  unfold checkedAdd
  split
  · rename_i fits
    simp only [Outcome.ok.injEq, fits, true_and, eq_comm]
  · rename_i past
    simp only [reduceCtorEq, past, false_and]

theorem getAt_of_lt {xs : List α} {i : Nat} (h : i < xs.length) :
    (getAt xs i : Outcome ε α) = .ok xs[i] := by
  simp [getAt, List.getElem?_eq_getElem h]

theorem sliceOf_of_le {xs : List α} {start stop : Nat} (ordered : start ≤ stop)
    (inside : stop ≤ xs.length) :
    (sliceOf xs start stop : Outcome ε (List α)) = .ok ((xs.drop start).take (stop - start)) :=
  if_pos ⟨ordered, inside⟩

theorem divCeil_eq {a b : Nat} (h : 0 < b) : divCeil a b = (a + b - 1) / b := by
  unfold divCeil
  have split := Nat.div_add_mod a b
  have small := Nat.mod_lt a h
  split
  · rename_i even
    rw [even, Nat.add_zero] at split
    refine (Nat.div_eq_of_lt_le ?_ ?_).symm
    · rw [Nat.mul_comm]; omega
    · rw [Nat.succ_mul, Nat.mul_comm]; omega
  · refine (Nat.div_eq_of_lt_le ?_ ?_).symm
    · rw [Nat.succ_mul, Nat.mul_comm]; omega
    · rw [Nat.succ_mul, Nat.succ_mul, Nat.mul_comm]; omega

theorem le_divCeil_mul {a b : Nat} (h : 0 < b) : a ≤ divCeil a b * b := by
  unfold divCeil
  have split := Nat.div_add_mod a b
  have small := Nat.mod_lt a h
  rw [Nat.mul_comm] at split
  split
  · omega
  · rw [Nat.succ_mul]; omega

theorem divCeil_mul_lt {a b : Nat} (h : 0 < b) : divCeil a b * b < a + b := by
  unfold divCeil
  have split := Nat.div_add_mod a b
  have small := Nat.mod_lt a h
  rw [Nat.mul_comm] at split
  split
  · omega
  · rw [Nat.succ_mul]; omega

theorem divCeil_le_iff {a b c : Nat} (h : 0 < b) : divCeil a b ≤ c ↔ a ≤ c * b := by
  constructor
  · intro le
    exact Nat.le_trans (le_divCeil_mul h) (Nat.mul_le_mul_right b le)
  · intro le
    refine Nat.le_of_lt_succ ((Nat.mul_lt_mul_right h).mp ?_)
    have above := divCeil_mul_lt (a := a) h
    rw [Nat.succ_mul]
    omega

end Arithmetic

end ImgVhd.Foundation
