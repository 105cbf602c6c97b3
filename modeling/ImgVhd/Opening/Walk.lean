import ImgVhd.Layout

/-! # The BAT walk decides the table

The walk accepts a table exactly when every allocated entry names a block inside
the data area and no two of them overlap, in whatever order they stand; and the
tail it gives a recovered image is at or past every block.
-/

namespace ImgVhd

open Foundation

section Walk

variable {dataStart dataEnd blockTotal : Nat} {bat : List Nat}

/-- Entries other than the one that means "absent". -/
def Live (e : Nat) : Prop := e ≠ batUnallocated

instance (e : Nat) : Decidable (Live e) := inferInstanceAs (Decidable (_ ≠ _))

/-- Every allocated entry names a block inside the data area. -/
def Placed (dataStart dataEnd blockTotal : Nat) (bat : List Nat) : Prop :=
  ∀ e ∈ bat, Live e → dataStart ≤ hostOff e ∧ hostOff e + blockTotal ≤ dataEnd

theorem collectBlocks_eq (small : blockTotal < 2 ^ 33) (words : ∀ e ∈ bat, e < 2 ^ 32) :
    (Placed dataStart dataEnd blockTotal bat →
      collectBlocks dataStart dataEnd blockTotal bat = .ok (bat.filter fun e => decide (Live e))) ∧
    (¬ Placed dataStart dataEnd blockTotal bat →
      ∃ err, collectBlocks dataStart dataEnd blockTotal bat = .err err) := by
  induction bat with
  | nil =>
      exact ⟨fun _ => rfl, fun bad => absurd (by intro e member; cases member) bad⟩
  | cons e rest ih =>
      obtain ⟨good, bad⟩ := ih fun e' member => words e' (List.mem_cons_of_mem _ member)
      have low := hostOff_lt (words e List.mem_cons_self)
      have both : Placed dataStart dataEnd blockTotal (e :: rest) ↔
          (Live e → dataStart ≤ hostOff e ∧ hostOff e + blockTotal ≤ dataEnd) ∧
            Placed dataStart dataEnd blockTotal rest := List.forall_mem_cons
      unfold collectBlocks
      by_cases live : Live e
      · rw [if_neg live, mul64_hostOff (words e List.mem_cons_self), Outcome.ok_bind,
          checkedAdd_of_lt (by omega), Outcome.ok_bind]
        constructor
        · intro placed
          have here := (both.mp placed).1 live
          rw [if_neg (by omega), if_neg (by omega), good (both.mp placed).2, Outcome.ok_bind,
            List.filter_cons_of_pos (p := fun e => decide (Live e)) (decide_eq_true live)]
          rfl
        · intro unplaced
          split
          · exact ⟨_, rfl⟩
          · split
            · exact ⟨_, rfl⟩
            · obtain ⟨err, refused⟩ := bad fun placed =>
                unplaced (both.mpr ⟨fun _ => by omega, placed⟩)
              exact ⟨err, by rw [refused]; rfl⟩
      · rw [if_pos (not_not.mp live)]
        constructor
        · intro placed
          rw [good (both.mp placed).2,
            List.filter_cons_of_neg (p := fun e => decide (Live e)) (by simpa using live)]
        · intro unplaced
          exact bad fun placed => unplaced (both.mpr ⟨fun is => absurd is live, placed⟩)

theorem neighboursOverlap_eq (small : blockTotal < 2 ^ 33) :
    ∀ l : List Nat, (∀ e ∈ l, e < 2 ^ 32) → ∃ overlap, neighboursOverlap blockTotal l = .ok overlap ∧
      (overlap = false ↔ l.IsChain fun a b => hostOff a + blockTotal ≤ hostOff b)
  | [], _ => ⟨false, rfl, by simp⟩
  | [a], _ => ⟨false, rfl, by simp⟩
  | a :: b :: rest, words => by
      have first : a < 2 ^ 32 := words a (by simp)
      have second : b < 2 ^ 32 := words b (by simp)
      have low := hostOff_lt first
      obtain ⟨overlap, run, iff⟩ := neighboursOverlap_eq small (b :: rest)
        fun e member => words e (List.mem_cons_of_mem _ member)
      unfold neighboursOverlap
      rw [mul64_hostOff second, Outcome.ok_bind, mul64_hostOff first, Outcome.ok_bind,
        add64_of_lt (by omega), Outcome.ok_bind, List.isChain_cons_cons]
      split
      · rename_i near
        exact ⟨true, rfl, by simp only [Bool.true_eq_false, false_iff, not_and]; omega⟩
      · rename_i far
        exact ⟨overlap, run, by rw [iff]; simp only [Nat.not_lt.mp far, true_and]⟩

/-- The allocated entries in ascending order. -/
def sortedBlocks (bat : List Nat) : List Nat :=
  (bat.filter fun e => decide (Live e)).insertionSort (· ≤ ·)

theorem mem_sortedBlocks {e : Nat} : e ∈ sortedBlocks bat ↔ e ∈ bat ∧ Live e := by
  rw [sortedBlocks, (List.perm_insertionSort _ _).mem_iff, List.mem_filter, decide_eq_true_iff]

theorem sortedBlocks_sorted (bat : List Nat) : (sortedBlocks bat).Pairwise (· ≤ ·) :=
  List.pairwise_insertionSort _ _

theorem hostOff_mono {a b : Nat} (h : a ≤ b) : hostOff a ≤ hostOff b := Nat.mul_le_mul_right _ h

theorem sortedBlocks_chain (positive : 0 < blockTotal) :
    (sortedBlocks bat).IsChain (fun a b => hostOff a + blockTotal ≤ hostOff b) ↔
      Spread hostOff Live blockTotal bat := by
  rw [isChain_iff_spread positive ((sortedBlocks_sorted bat).imp hostOff_mono), sortedBlocks,
    pairwise_apart_perm (List.perm_insertionSort _ _), List.pairwise_filter, spread_iff_pairwise]
  simp only [decide_eq_true_iff]

/-- The walk accepts exactly the tables that can be believed. -/
theorem walkBat_eq (dataStart dataEnd : Nat) (positive : 0 < blockTotal) (small : blockTotal < 2 ^ 33)
    (words : ∀ e ∈ bat, e < 2 ^ 32) :
    (Placed dataStart dataEnd blockTotal bat ∧ Spread hostOff Live blockTotal bat →
      walkBat bat dataStart dataEnd blockTotal = .ok (sortedBlocks bat)) ∧
    (¬ (Placed dataStart dataEnd blockTotal bat ∧ Spread hostOff Live blockTotal bat) →
      ∃ err, walkBat bat dataStart dataEnd blockTotal = .err err) := by
  obtain ⟨good, bad⟩ := collectBlocks_eq small words
  obtain ⟨overlap, run, iff⟩ := neighboursOverlap_eq small (sortedBlocks bat)
    fun e member => words e (mem_sortedBlocks.mp member).1
  rw [sortedBlocks_chain positive] at iff
  unfold walkBat
  constructor
  · rintro ⟨placed, spread⟩
    rw [good placed, Outcome.ok_bind]
    change (neighboursOverlap blockTotal (sortedBlocks bat) >>= _) = _
    rw [run, iff.mpr spread]
    rfl
  · intro unbelievable
    by_cases placed : Placed dataStart dataEnd blockTotal bat
    · rw [good placed, Outcome.ok_bind]
      change ∃ err, (neighboursOverlap blockTotal (sortedBlocks bat) >>= _) = _
      rw [run]
      cases overlap with
      | true => exact ⟨_, rfl⟩
      | false => exact absurd ⟨placed, iff.mp rfl⟩ unbelievable
    · obtain ⟨err, refused⟩ := bad placed
      exact ⟨err, by rw [refused]; rfl⟩

/-- The tail of an opened image: past the last sector's start, and past every
    block when the footer was recovered. -/
structure TailOf (fromMirror : Bool) (nextAlloc blockTotal : Nat) (bat : List Nat) (off : Nat) :
    Prop where
  least : nextAlloc ≤ off
  past : fromMirror = true → ∀ e ∈ bat, Live e → hostOff e + blockTotal ≤ off
  reached : off = nextAlloc ∨
    (fromMirror = true ∧ ∃ e ∈ bat, Live e ∧ off = hostOff e + blockTotal)

theorem recoveredTail_eq (fromMirror : Bool) (nextAlloc : Nat) (small : blockTotal < 2 ^ 33)
    (words : ∀ e ∈ bat, e < 2 ^ 32) :
    ∃ off, recoveredTail fromMirror nextAlloc blockTotal (sortedBlocks bat) = .ok off ∧
      TailOf fromMirror nextAlloc blockTotal bat off := by
  unfold recoveredTail
  cases top : (sortedBlocks bat).getLast? with
  | none =>
      refine ⟨nextAlloc, rfl, Nat.le_refl _, fun _ e member live => ?_, Or.inl rfl⟩
      have inside := mem_sortedBlocks.mpr ⟨member, live⟩
      rw [List.getLast?_eq_none_iff.mp top] at inside
      cases inside
  | some last =>
      have member := mem_sortedBlocks.mp (List.mem_of_getLast? top)
      have low := hostOff_lt (words last member.1)
      have largest : ∀ e ∈ sortedBlocks bat, e ≤ last := by
        obtain ⟨init, whole⟩ := List.getLast?_eq_some_iff.mp top
        intro e inside
        have sorted := sortedBlocks_sorted bat
        rw [whole] at inside sorted
        rcases List.mem_append.mp inside with earlier | here
        · exact (List.pairwise_append.mp sorted).2.2 e earlier last (by simp)
        · rw [List.mem_singleton.mp here]
      cases fromMirror with
      | false =>
          exact ⟨nextAlloc, rfl, Nat.le_refl _, fun no => absurd no (by decide), Or.inl rfl⟩
      | true =>
          simp only [if_true]
          rw [mul64_hostOff (words last member.1), Outcome.ok_bind, add64_of_lt (by omega),
            Outcome.ok_bind]
          refine ⟨_, rfl, Nat.le_max_left _ _, fun _ e inside live => ?_, ?_⟩
          · have order := hostOff_mono (largest e (mem_sortedBlocks.mpr ⟨inside, live⟩))
            omega
          · rcases Nat.le_total nextAlloc (hostOff last + blockTotal) with further | nearer
            · exact Or.inr ⟨rfl, last, member.1, member.2, Nat.max_eq_right further⟩
            · exact Or.inl (Nat.max_eq_left nearer)

end Walk

end ImgVhd
