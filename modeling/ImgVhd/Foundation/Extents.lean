import Mathlib.Data.List.Sort
import Mathlib.Data.List.TakeWhile

/-! # Extents of one length

Positions of extents that are all `n` long: when two are apart, when a table of
them is spread out, why looking at the neighbours of a sorted table is enough,
and why one of them decides whether any other extent meets the table.
-/

namespace ImgVhd.Foundation

/-- The extents of length `n` at `a` and at `b` share nothing. -/
def Apart (n a b : Nat) : Prop := a + n ≤ b ∨ b + n ≤ a

instance (n a b : Nat) : Decidable (Apart n a b) := inferInstanceAs (Decidable (_ ∨ _))

theorem Apart.symm {n a b : Nat} (h : Apart n a b) : Apart n b a := Or.symm h

theorem Apart.not_both {n a b x : Nat} (h : Apart n a b) (first : a ≤ x ∧ x < a + n) :
    ¬ (b ≤ x ∧ x < b + n) := by
  unfold Apart at h
  omega

/-- No position is both in `[start, stop)` and in `[low, high)`. -/
def Misses (start stop low high : Nat) : Prop := ∀ x, start ≤ x → x < stop → ¬ (low ≤ x ∧ x < high)

theorem misses_iff {start stop low high : Nat} (filled : start < stop) (other : low < high) :
    Misses start stop low high ↔ stop ≤ low ∨ high ≤ start := by
  constructor
  · intro misses
    by_cases meet : start < high ∧ low < stop
    · exact absurd ⟨Nat.le_max_right start low, Nat.max_lt.mpr ⟨meet.1, other⟩⟩
        (misses (max start low) (Nat.le_max_left _ _) (Nat.max_lt.mpr ⟨filled, meet.2⟩))
    · omega
  · intro beside x low_ high_ both
    omega

section Tables

variable {α : Type} {pos : α → Nat} {live : α → Prop} {n : Nat} {l : List α}

/-- Different slots of a table with live entries name extents that are apart. -/
def Spread (pos : α → Nat) (live : α → Prop) (n : Nat) (l : List α) : Prop :=
  ∀ (i j : Nat) (a b : α), i ≠ j → l[i]? = some a → l[j]? = some b → live a → live b → Apart n (pos a) (pos b)

theorem spread_iff_pairwise :
    Spread pos live n l ↔
      l.Pairwise fun a b => live a → live b → Apart n (pos a) (pos b) := by
  rw [List.pairwise_iff_getElem]
  constructor
  · intro spread i j low high order liveI liveJ
    exact spread i j _ _ (by omega) (List.getElem?_eq_getElem low) (List.getElem?_eq_getElem high)
      liveI liveJ
  · intro pairs i j a b other atI atJ liveA liveB
    obtain ⟨low, rfl⟩ := List.getElem?_eq_some_iff.mp atI
    obtain ⟨high, rfl⟩ := List.getElem?_eq_some_iff.mp atJ
    rcases Nat.lt_or_gt_of_ne other with before | after
    · exact pairs i j low high before liveA liveB
    · exact (pairs j i high low after liveB liveA).symm

theorem isChain_iff_spread (positive : 0 < n) (sorted : l.Pairwise fun a b => pos a ≤ pos b) :
    l.IsChain (fun a b => pos a + n ≤ pos b) ↔
      l.Pairwise fun a b => Apart n (pos a) (pos b) := by
  have trans : Trans (fun a b => pos a + n ≤ pos b) (fun a b => pos a + n ≤ pos b)
      (fun a b => pos a + n ≤ pos b) := ⟨fun {a b c} (first : pos a + n ≤ pos b) second => by omega⟩
  rw [List.isChain_iff_pairwise]
  constructor
  · intro chain
    exact chain.imp fun before => Or.inl before
  · intro pairs
    refine (pairs.and sorted).imp fun {a b} both => ?_
    rcases both with ⟨before | after, order⟩
    · exact before
    · omega

theorem pairwise_apart_perm {l' : List α} (same : l'.Perm l) :
    l'.Pairwise (fun a b => Apart n (pos a) (pos b)) ↔
      l.Pairwise (fun a b => Apart n (pos a) (pos b)) :=
  same.pairwise_iff fun apart => apart.symm

theorem before_partition_point {stop : Nat} (sorted : l.Pairwise fun a b => pos a ≤ pos b) {i : Nat}
    {a : α} (entry : l[i]? = some a) :
    i < (l.takeWhile fun a => decide (pos a < stop)).length ↔ pos a < stop := by
  induction l generalizing i with
  | nil => cases entry
  | cons b rest ih =>
      obtain ⟨first, later⟩ := List.pairwise_cons.mp sorted
      by_cases before : pos b < stop
      · rw [List.takeWhile_cons_of_pos (by exact decide_eq_true before), List.length_cons]
        cases i with
        | zero =>
            cases entry
            exact ⟨fun _ => before, fun _ => Nat.succ_pos _⟩
        | succ i => rw [Nat.succ_lt_succ_iff, ih later entry]
      · rw [List.takeWhile_cons_of_neg (by simpa using before)]
        have order : pos b ≤ pos a := by
          cases i with
          | zero =>
              cases entry
              exact Nat.le_refl _
          | succ i => exact first a (List.mem_of_getElem? entry)
        exact ⟨fun none_ => absurd none_ (Nat.not_lt_zero _), fun low => by omega⟩

/-- Of extents in order, the last that starts before `stop` decides whether any
    of them meets `[start, stop)`. -/
theorem misses_all_iff (pos : α → Nat) {start stop : Nat} (positive : 0 < n) (filled : start < stop)
    (chain : l.IsChain fun a b => pos a + n ≤ pos b) :
    (∀ a ∈ l, Misses start stop (pos a) (pos a + n)) ↔
      ∀ k a, (l.takeWhile fun a => decide (pos a < stop)).length = k + 1 → l[k]? = some a →
        pos a + n ≤ start := by
  have trans : Trans (fun a b => pos a + n ≤ pos b) (fun a b => pos a + n ≤ pos b)
      (fun a b => pos a + n ≤ pos b) := ⟨fun {a b c} (first : pos a + n ≤ pos b) second => by omega⟩
  have order := List.isChain_iff_pairwise.mp chain
  have sorted : l.Pairwise fun a b => pos a ≤ pos b := order.imp fun before => by omega
  constructor
  · intro all k a count entry
    have before := (before_partition_point sorted entry).mp (by rw [count]; exact Nat.lt_succ_self k)
    have beside := (misses_iff filled (by omega)).mp (all a (List.mem_of_getElem? entry))
    omega
  · intro last a member
    obtain ⟨i, entry⟩ := List.getElem?_of_mem member
    refine (misses_iff filled (by omega)).mpr ?_
    by_cases before : pos a < stop
    · have inside := (before_partition_point sorted entry).mpr before
      obtain ⟨k, count⟩ := Nat.exists_eq_succ_of_ne_zero (Nat.ne_of_gt (Nat.zero_lt_of_lt inside))
      have short : k < l.length := by
        have whole := (List.takeWhile_prefix (fun a => decide (pos a < stop)) (l := l)).length_le
        omega
      have furthest := last k l[k] count (List.getElem?_eq_getElem short)
      rcases Nat.lt_or_eq_of_le (Nat.le_of_lt_succ (count ▸ inside)) with earlier | same
      · have low := List.pairwise_iff_getElem.mp order i k (by omega) short earlier
        obtain ⟨_, rfl⟩ := List.getElem?_eq_some_iff.mp entry
        omega
      · subst same
        rw [List.getElem?_eq_getElem short] at entry
        cases entry
        exact Or.inr furthest
    · exact Or.inl (Nat.not_lt.mp before)

theorem Spread.set {i : Nat} {v : α} (h : Spread pos live n l)
    (fresh : ∀ (j : Nat) (b : α), j ≠ i → l[j]? = some b → live b → Apart n (pos v) (pos b)) :
    Spread pos live n (l.set i v) := by
  intro j k a b other atJ atK liveA liveB
  rw [List.getElem?_set] at atJ atK
  split at atJ
  · rename_i here
    subst here
    rw [if_neg other] at atK
    split at atJ
    · cases atJ
      exact fresh k b (Ne.symm other) atK liveB
    · cases atJ
  · rename_i there
    split at atK
    · rename_i here
      subst here
      split at atK
      · cases atK
        exact (fresh j a other atJ liveA).symm
      · cases atK
    · exact h j k a b other atJ atK liveA liveB

end Tables

end ImgVhd.Foundation
