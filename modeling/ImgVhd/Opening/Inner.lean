import ImgVhd.Opening.Sparse

/-! # The whole open

One specification of `open_inner`: what a fixed, a dynamic and a differencing
image must each satisfy for the open to end well, with no run that panics. The
recursion into the parent is left to the caller, who knows the file system.
-/

namespace ImgVhd

open Foundation

/-! ## The locators -/

/-- The ends of blocks can be computed. -/
structure SparseTables.Bounded (t : SparseTables) : Prop where
  total : t.blockTotal < 2 ^ 33
  words : ∀ e ∈ t.allocated, e < 2 ^ 32

section Locators

variable {footer : Footer} {t : SparseTables} {headerEnd : Nat}

theorem Layout.tables_bounded {L : Layout} {d : ByteStore} {dataEnd off : Nat} :
    (L.tables d dataEnd off).Bounded where
  total := Nat.lt_trans L.blockTotal_lt (by decide)
  words e member := L.table_lt (mem_sortedBlocks.mp member).1

/-- Every index is in range and every sum fits, whatever the locators say. -/
theorem checkLocator_settled (bounded : t.Bounded) (loc : ParentLocator) :
    (checkLocator footer t headerEnd loc).Settled := by
  have small := bounded.total
  unfold checkLocator
  split
  · trivial
  refine Outcome.settled_bind ?_ fun stop _ => ?_
  · unfold checkedAdd
    split <;> trivial
  simp only
  split
  · trivial
  split
  · trivial
  rename_i some_
  have prefix_ : (t.allocated.takeWhile fun e => decide (e * sectorSize < stop)).length ≤
      t.allocated.length := (List.takeWhile_prefix _).length_le
  have reach (last : Nat) (member : last ∈ t.allocated) :
      (mul64 last sectorSize : Checked Nat) = .ok (hostOff last) ∧
      (add64 (hostOff last) t.blockTotal : Checked Nat) = .ok (hostOff last + t.blockTotal) := by
    have word := bounded.words last member
    have low := hostOff_lt word
    exact ⟨mul64_hostOff word, add64_of_lt (by omega)⟩
  rw [getAt_of_lt (by omega), Outcome.ok_bind]
  obtain ⟨first, second⟩ := reach _ (List.getElem_mem _)
  rw [first, Outcome.ok_bind, second, Outcome.ok_bind]
  split <;> trivial

theorem checkEach_settled (bounded : t.Bounded) : ∀ locs, (checkEach footer t headerEnd locs).Settled
  | [] => trivial
  | loc :: rest =>
      Outcome.settled_bind (checkLocator_settled bounded loc) fun _ _ => checkEach_settled bounded rest

theorem checkLocators_settled (fits : footer.dataOffset + dynHeaderSize < 2 ^ 64)
    (bounded : t.Bounded) : (checkLocators footer t).Settled := by
  unfold checkLocators
  rw [add64_of_lt fits, Outcome.ok_bind]
  exact checkEach_settled bounded _

theorem checkEach_absent : ∀ locs : List ParentLocator, (∀ l ∈ locs, l.platformCode = [0, 0, 0, 0]) →
    checkEach footer t headerEnd locs = .ok ()
  | [], _ => rfl
  | loc :: rest, absent => by
      have first : checkLocator footer t headerEnd loc = .ok () :=
        if_pos (Or.inl (absent loc List.mem_cons_self))
      rw [checkEach, first, Outcome.ok_bind]
      exact checkEach_absent rest fun l member => absent l (List.mem_cons_of_mem _ member)

theorem checkLocators_absent (fits : footer.dataOffset + dynHeaderSize < 2 ^ 64)
    (absent : ∀ l ∈ t.header.parentLocators, l.platformCode = [0, 0, 0, 0]) :
    checkLocators footer t = .ok () := by
  unfold checkLocators
  rw [add64_of_lt fits, Outcome.ok_bind]
  exact checkEach_absent _ absent

end Locators

theorem parentFileName_settled (name : List Char) : (parentFileName name).Settled := by
  unfold parentFileName
  repeat' split
  all_goals trivial

section Inner

variable {σ δ : Type} {R : Handler σ (Op δ) Op.Res} {G : σ → Op δ → Prop} {dev : δ} {s : σ}
  {d : ByteStore} {Lost : Prop} {E : Error → σ → Prop}

theorem settled_wp {α β : Type} {x : Outcome Error α} {f : α → Io δ β} {Q : β → σ → Prop}
    (settled : x.Settled) (done : ∀ a, x = .ok a → Code.wp R G (f a) Q E s) (failed : ∀ e, E e s) :
    Code.wp R G ((liftM x : Io δ α) >>= f) Q E s := by
  cases x with
  | ok a => exact done a rfl
  | err e => exact failed e
  | panic => exact settled.elim
  | outOfFuel => exact settled.elim

/-- What is left of an open once the parent is there. -/
def overParent (dev : δ) (w fm : Bool) (L : Layout) (d : ByteStore) (off : Nat)
    (parent : VhdReader δ) : Io δ (VhdReader δ) := do
  ask dev (.share (some (L.table d)) (some off))
  return .above (L.core dev w fm) parent

theorem openInner_wp {w : Bool} {depth : Nat} {path : Option Path} {Q : VhdReader δ → σ → Prop}
    (sees : Sees R G dev s d Lost)
    (fixed : ∀ found, FooterOf d found → footerSize ≤ d.size → found.footer.diskType = .fixed →
      G s (.on dev (.share none none)) ∧ ∀ r s', R s (.on dev (.share none none)) r s' →
        Q (.base (fixedCore dev w found)) s')
    (dynamic : ∀ L fm dataEnd off, Opens d L fm dataEnd off → L.footer.diskType = .dynamic →
      G s (.on dev (.share (some (L.table d)) (some off))) ∧
      ∀ r s', R s (.on dev (.share (some (L.table d)) (some off))) r s' →
        Q (.base (L.core dev w fm)) s')
    (differencing : ∀ L fm dataEnd off child, Opens d L fm dataEnd off →
      L.footer.diskType = .differencing → path = some child →
      Code.wp R G (openParent (openInner depth false) child L.header >>= overParent dev w fm L d off)
        Q E s)
    (failed : ∀ e, E e s) :
    Code.wp R G (openInner (depth + 1) w dev path) Q E s := by
  unfold openInner
  refine (Code.wp_bind _ _).mpr ((Code.wp_perform _).mpr ⟨sees.asksSize, ?_⟩)
  intro r s₁ answered
  obtain ⟨rfl, rfl⟩ := sees.size _ _ answered
  split
  · exact failed _
  rename_i long
  refine (Code.wp_bind _ _).mpr (Code.wp_mono (readFooter_wp sees (Nat.not_lt.mp long))
    (fun _ _ g => g) ?_ ?_)
  case refine_2 =>
    rintro e s₂ ⟨rfl, -⟩
    exact failed e
  rintro found s₂ ⟨rfl, is⟩
  -- a sparse image goes through its tables first, whatever its type
  have tables (sparse : found.footer.diskType ≠ .fixed) (rest : SparseTables → Io δ (VhdReader δ))
      (next : ∀ L dataEnd off, Opens d L found.fromMirror dataEnd off → L.footer = found.footer →
        L.core dev w found.fromMirror = sparseCore dev w found (L.tables d dataEnd off) →
        Code.wp R G (rest (L.tables d dataEnd off)) Q E s₂) :
      Code.wp R G (openSparse dev d.size found >>= rest) Q E s₂ := by
    refine (Code.wp_bind _ _).mpr (Code.wp_mono (openSparse_wp sees is sparse) (fun _ _ g => g)
      ?_ ?_)
    · rintro t s₃ ⟨rfl, L, dataEnd, off, opens, footer, bytes, rfl⟩
      refine next L dataEnd off opens footer ?_
      unfold Layout.core sparseCore
      rw [← footer, ← bytes]
      rfl
    · rintro e s₃ ⟨rfl, -⟩
      exact failed e
  cases kind : found.footer.diskType with
  | fixed =>
      obtain ⟨guard, shared⟩ := fixed found is (Nat.not_lt.mp long) kind
      exact (Code.wp_bind _ _).mpr ((Code.wp_perform _).mpr ⟨guard, fun r s' step => shared r s' step⟩)
  | dynamic =>
      refine tables (by rw [kind]; exact fun no => by cases no) _ fun L dataEnd off opens footer core => ?_
      obtain ⟨guard, shared⟩ := dynamic L found.fromMirror dataEnd off opens (by rw [footer]; exact kind)
      refine (Code.wp_bind _ _).mpr ((Code.wp_perform _).mpr ⟨guard, fun r s' step => ?_⟩)
      rw [← core]
      exact shared r s' step
  | differencing =>
      refine tables (by rw [kind]; exact fun no => by cases no) _ fun L dataEnd off opens footer core => ?_
      rw [← footer]
      refine settled_wp (checkLocators_settled L.headerFits L.tables_bounded) (fun _ _ => ?_) failed
      cases path with
      | none => exact failed _
      | some child =>
          rw [← core]
          exact differencing L found.fromMirror dataEnd off child opens (by rw [footer]; exact kind)
            rfl

/-- An image that opens as a differencing one goes on to its parent. -/
theorem openInner_differencing_wp {L : Layout} {fm w : Bool} {dataEnd off depth : Nat} {child : Path}
    {Q : VhdReader δ → σ → Prop} (sees : Sees R G dev s d Lost) (opens : Opens d L fm dataEnd off)
    (differencing : L.footer.diskType = .differencing)
    (locators : checkLocators L.footer (L.tables d dataEnd off) = .ok ())
    (parent : Code.wp R G (openParent (openInner depth false) child L.header >>=
      overParent dev w fm L d off) Q E s)
    (failed : Lost → ∀ e, ¬ e.IsCorrupt → E e s) :
    Code.wp R G (openInner (depth + 1) w dev (some child)) Q E s := by
  have long := opens.size_ge
  unfold openInner
  refine (Code.wp_bind _ _).mpr ((Code.wp_perform _).mpr ⟨sees.asksSize, fun r s₁ answered => ?_⟩)
  obtain ⟨rfl, rfl⟩ := sees.size _ _ answered
  rw [if_neg (by unfold footerSize; omega)]
  refine opens.found_wp sees ?_ failed
  simp only [differencing]
  refine opens.tables_wp sees ?_ failed
  rw [locators, Code.lift_ok_bind]
  exact parent

end Inner

end ImgVhd
