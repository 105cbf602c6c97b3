import ImgVhd.Creating.Fixed

/-! # A refused create

What is at the path when a create refuses its arguments. The path may hold
nothing, or a file; an operation on it may fail.
-/

namespace ImgVhd

open Foundation

/-- The meaning of the interface for one path, where there may be a file. -/
def Faults.atPath (f : Faults) : Handler (Option Image) (Op Unit) Op.Res
  | x, .on _ op, r, x' => ∃ s s', x = some s ∧ f.handler s (.on () op) r s' ∧ x' = some s'
  | x, .pathExists _, r, x' => r = x.isSome ∧ x' = x
  | x, .openFile _ _, r, x' =>
      (x.isSome ∧ r = (.ok () : Except FsCoreError Unit) ∧ x' = x) ∨
        ((∃ e, r = (.error e : Except FsCoreError Unit)) ∧ x' = x)
  | x, .createFile _, r, x' =>
      (r = (.ok () : Except IoError Unit) ∧ x' = some ⟨.empty, .none, .none⟩) ∨
        ((∃ e, r = (.error e : Except IoError Unit)) ∧ x' = x)

section Refused

variable {f : Faults} {env : BuildEnv} {path : Path} {size bs : Nat} {x x' : Option Image}
  {t : List (Event (Op Unit) Op.Res)} {e : Error}

theorem Faults.filing_atPath (f : Faults) : Filing f f.atPath some True where
  on s op r x' stepped := by
    obtain ⟨s₀, s', same, below, rfl⟩ := stepped
    cases same
    exact ⟨s', below, rfl⟩
  create x path r x' stepped := by
    rcases stepped with ⟨rfl, rfl⟩ | ⟨failed, -⟩
    · exact Or.inl ⟨rfl, _, rfl, rfl⟩
    · exact Or.inr ⟨trivial, failed⟩
  open_ s path w r x' stepped := by
    rcases stepped with ⟨-, rfl, rfl⟩ | ⟨failed, -⟩
    · exact Or.inl ⟨rfl, rfl⟩
    · exact Or.inr ⟨trivial, failed⟩
  lost _ := trivial

theorem createDynamic_refusal (word : bs < 2 ^ 32)
    (run : Prog.Runs f.atPath (createDynamic env path size bs) x t (.ret (.err e)) x')
    (refusal : e.IsCorrupt) : x' = x := by
  unfold createDynamic at run
  cases accepted : planDynamic env size bs with
  | ok plan =>
      rw [accepted] at run
      have whole := f.filing_atPath.createPlanned_wp path (x := x) (Q := fun _ _ => True)
        (planDynamic_ok word accepted) fun _ _ _ _ _ _ => trivial
      have failed := Prog.wp_finished whole run
      exact absurd refusal failed.2
  | err e =>
      rw [accepted] at run
      cases run
      rfl
  | panic =>
      rw [accepted] at run
      cases run
  | outOfFuel =>
      rw [accepted] at run
      cases run

/-- A create of a fixed image refuses before it touches the path, but for one
    size, which it refuses once the file is truncated. -/
theorem createFixed_refusal (word : size < 2 ^ 64)
    (run : Prog.Runs f.atPath (createFixed env path size) x t (.ret (.err e)) x')
    (refusal : e.IsCorrupt) :
    x' = x ∨ (size = 2 ^ 64 - 512 ∧ x'.map Image.disk = some .empty) := by
  cases fixedPlan env path word with
  | refused why is =>
      rw [is] at run
      cases run
      exact Or.inl rfl
  | late why at_ is =>
      have whole : Code.wp f.atPath anything (createFixed env path size) (fun _ _ => False)
          (fun e x' => e.IsCorrupt → x'.map Image.disk = some .empty) x := by
        rw [is]
        refine (Code.wp_bind _ _).mpr (Code.wp_mono (f.filing_atPath.createTruncate_wp
          (Q := fun _ x' => x'.map Image.disk = some .empty) fun s empty => ?_) (fun _ _ g => g)
          (fun _ _ truncated _ => truncated) fun _ _ failed refusal => absurd refusal failed.2)
        rw [← empty]
        rfl
      have left := Prog.wp_finished whole run
      exact Or.inr ⟨at_, left refusal⟩
  | made v bytes made =>
      have whole := f.filing_atPath.createFixed_wp path (x := x) (Q := fun _ _ => True)
        made fun _ _ _ _ _ _ => trivial
      have failed := Prog.wp_finished whole run
      exact absurd refusal failed.2

theorem createFixed_late (f : Faults) (env : BuildEnv) (path : Path) (x : Option Image) :
    ∃ t e, Prog.Runs f.atPath (createFixed env path (2 ^ 64 - 512)) x t (.ret (.err e))
      (some ⟨.empty, none, none⟩) ∧ e.IsCorrupt := by
  have rounded : sizeWithExactGeometry (2 ^ 64 - 512) = .ok (2 ^ 64 - 512) :=
    sizeWithExactGeometry_past (by decide)
  cases fixedPlan env path (show 2 ^ 64 - 512 < 2 ^ 64 by decide) with
  | refused why is =>
      unfold createFixed at is
      rw [if_neg (by decide)] at is
      cases is
  | late why at_ is =>
      rw [is]
      exact ⟨_, _, .step (Or.inl ⟨rfl, rfl⟩) .here, trivial⟩
  | made v bytes made =>
      have room := made.room
      rw [← Outcome.ok.inj (rounded.symm.trans made.rounded)] at room
      omega

/-- A create that refuses its arguments leaves the path as it was, unless it is
    asked for the one size it refuses late and there was something to truncate. -/
theorem refused_create_leaves_the_path (word : size < 2 ^ 64) (small : bs < 2 ^ 32) :
    (∀ f env path t e x', Prog.Runs (Faults.atPath f) (createFixed env path size) x t (.ret (.err e)) x' →
        e.IsCorrupt → x'.map Image.disk = x.map Image.disk) ∧
      (∀ f env path t e x', Prog.Runs (Faults.atPath f) (createDynamic env path size bs) x t
        (.ret (.err e)) x' → e.IsCorrupt → x'.map Image.disk = x.map Image.disk) ↔
    size ≠ 2 ^ 64 - 512 ∨ x.map Image.disk = some .empty := by
  constructor
  · rintro ⟨fixed, -⟩
    by_cases late : size = 2 ^ 64 - 512
    · subst late
      obtain ⟨t, e, run, refusal⟩ := createFixed_late .none smallEnv [] x
      exact Or.inr (fixed _ _ _ _ _ _ run refusal).symm
    · exact Or.inl late
  · intro spared
    refine ⟨fun f env path t e x' run refusal => ?_, fun f env path t e x' run refusal => ?_⟩
    · rcases createFixed_refusal word run refusal with rfl | ⟨at_, truncated⟩
      · rfl
      · rcases spared with other | already
        · exact absurd at_ other
        · rw [truncated, already]
    · rw [createDynamic_refusal small run refusal]

/-- A one-byte file is emptied by a create that is refused. -/
theorem refused_create_truncates : ∃ t e d, d ≠ ByteStore.empty ∧
    Prog.Runs (Faults.atPath .none) (createFixed smallEnv [] (2 ^ 64 - 512)) (some ⟨d, none, none⟩) t
      (.ret (.err e)) (some ⟨.empty, none, none⟩) ∧ e.IsCorrupt := by
  obtain ⟨t, e, run, refusal⟩ :=
    createFixed_late .none smallEnv [] (some ⟨.ofBytes [7] (by decide), none, none⟩)
  refine ⟨t, e, _, fun same => ?_, run, refusal⟩
  have length := congrArg ByteStore.size same
  exact absurd length (by decide)

/-- A create of three bytes is refused, and leaves an absent file absent. -/
theorem ragged_create_makes_no_file : ∃ t e x',
    Prog.Runs (Faults.atPath .none) (createFixed smallEnv [] 3) none t (.ret (.err e)) x' ∧
      e.IsCorrupt ∧ x'.map Image.disk = none := by
  have run : Prog.Runs (Faults.atPath .none) (createFixed smallEnv [] 3) none []
      (.ret (.err (.corrupt "create_fixed: virtual_size must be a positive multiple of 512"))) none :=
    .here
  have spared := (refused_create_leaves_the_path (x := none) (show 3 < 2 ^ 64 by decide)
    (show 512 < 2 ^ 32 by decide)).mpr (Or.inl (by decide))
  exact ⟨_, _, _, run, trivial, spared.1 _ _ _ _ _ _ run trivial⟩

end Refused

end ImgVhd
