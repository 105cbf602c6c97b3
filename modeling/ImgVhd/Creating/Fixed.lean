import ImgVhd.Creating.Created
import ImgVhd.Creating.Geometry

/-! # A created fixed image

What `create_fixed` leaves behind when it succeeds, and that it fails for nothing
but a failing file system once the file is there and its length fits.
-/

namespace ImgVhd

open Foundation

section Fixed

variable {σ : Type} {f : Faults} {R : Handler σ (Op Unit) Op.Res} {put : Image → σ} {Lost : Prop}
  {env : BuildEnv} {path : Path} {size v : Nat} {bytes : Bytes}

theorem buildFooter_ok (env : BuildEnv) (size type off : Nat) :
    ∃ bytes, buildFooter env size type off = .ok bytes := by
  obtain ⟨c, h, spt, geometry, -⟩ := chsForSize_ok size
  unfold buildFooter
  rw [geometry]
  exact ⟨_, rfl⟩

theorem planDynamic_accepts {bs : Nat} (env : BuildEnv) (positive : size ≠ 0) (aligned : size % 512 = 0)
    (power : bs.isPowerOfTwo) (sector : sectorSize ≤ bs) (rounded : sizeWithExactGeometry size = .ok v)
    (few : divCeil v bs ≤ maxCreateBatEntries) : ∃ plan, planDynamic env size bs = .ok plan := by
  unfold planDynamic
  rw [if_neg (show ¬ (size = 0 ∨ size % sectorSize ≠ 0) from not_or.mpr ⟨positive, not_not.mpr aligned⟩),
    if_neg (not_or.mpr ⟨not_not.mpr power, Nat.not_lt.mpr sector⟩), rounded, Outcome.ok_bind]
  have few' : divCeil v bs ≤ 2 ^ 24 := few
  have table : divCeil (divCeil v bs * 4) 512 * 512 < divCeil v bs * 4 + 512 :=
    divCeil_mul_lt (by decide)
  simp only
  rw [if_neg (by omega), if_neg (Nat.not_lt.mpr few), add64_of_lt (by decide), Outcome.ok_bind,
    mul64_of_lt (by omega), Outcome.ok_bind, mul64_of_lt (by unfold sectorSize; omega), Outcome.ok_bind,
    add64_of_lt (by unfold sectorSize dynHeaderSize; omega), Outcome.ok_bind]
  obtain ⟨footer, built⟩ := buildFooter_ok env v DiskTypeWire.dynamic sectorSize
  unfold buildDynamicFooter
  rw [built]
  exact ⟨_, rfl⟩

/-- The footer of the image a create makes. -/
structure MadeFixed (env : BuildEnv) (size v : Nat) (bytes : Bytes) : Prop where
  positive : size ≠ 0
  aligned : size % 512 = 0
  rounded : sizeWithExactGeometry size = .ok v
  room : v + 512 < 2 ^ 64
  built : buildFixedFooter env v = .ok bytes

/-- A new fixed image: zeros, and the footer behind them. -/
structure CreatedFixed (env : BuildEnv) (size v : Nat) (bytes : Bytes) (d : ByteStore) : Prop
    extends MadeFixed env size v bytes where
  size : d.size = v + 512
  last : tailSector d = bytes

/-- The run of a create whose size is taken, down to the bytes it leaves. -/
theorem Filing.createFixed_laid_wp (filing : Filing f R put Lost) (path : Path)
    (made : MadeFixed env size v bytes) {Q : VhdReader Unit → σ → Prop} {x : σ}
    (done : ∀ d found, (∀ b < v, d.byte b = 0) → CreatedFixed env size v bytes d → FooterOf d found →
      found.footer.diskType = .fixed → found.footer.currentSize = v →
      Q (.base (fixedCore () true found)) (put ⟨d, none, none⟩)) :
    Code.wp R anything (createFixed env path size) Q (faulted Lost) x := by
  have room := made.room
  obtain ⟨length, parses⟩ := parse_buildFooter (t := .fixed) made.built (by omega) (by decide) rfl
    (by decide)
  unfold createFixed
  rw [if_neg (show ¬ (size = 0 ∨ size % sectorSize ≠ 0) from
    not_or.mpr ⟨made.positive, not_not.mpr made.aligned⟩)]
  refine (Code.wp_bind _ _).mpr (filing.createTruncate_wp fun s empty => ?_)
  rw [made.rounded, Code.lift_ok_bind, checkedAdd_of_lt (by unfold footerSize; omega),
    Code.lift_ok_bind]
  refine (Code.wp_bind _ _).mpr (filing.fileSetLen_wp (by unfold footerSize; omega) ?_)
  rw [made.built, Code.lift_ok_bind]
  refine (Code.wp_bind _ _).mpr (filing.fileWrite_wp (by
    simp only [ByteStore.size_resize, footerSize]; omega) ?_)
  refine (Code.wp_bind _ _).mpr (filing.fileSyncData_wp (filing.openRw_wp ?_))
  simp only [empty]
  obtain ⟨d, is⟩ : ∃ d, d = (ByteStore.empty.resize (v + footerSize)
    (by unfold footerSize; omega)).write v bytes := ⟨_, rfl⟩
  have long : d.size = v + 512 := by
    rw [is]
    rfl
  have last : tailSector d = bytes := by
    have back := ByteStore.read_write_same (ByteStore.empty.resize (v + footerSize) room) v
      bytes (show v + bytes.length ≤ v + 512 by omega)
    unfold tailSector
    rw [long, show v + 512 - footerSize = v from Nat.add_sub_cancel _ _, is]
    rwa [length] at back
  have zeros : ∀ b < v, d.byte b = 0 := by
    intro b low
    rw [is, ByteStore.byte_write_outside (Or.inl low)]
    exact ByteStore.byte_resize_below (by unfold footerSize; omega)
  rw [← is]
  rw [← last] at parses
  have footer := FooterOf.tail parses
  refine openInner_fixed_wp filing.sees footer (by rw [long]; unfold footerSize; omega) rfl
    ⟨trivial, fun r x' shared => ?_⟩ fun lost _ other => ⟨lost, other⟩
  rw [filing.share shared]
  exact done d _ zeros ⟨made, long, last⟩ footer rfl rfl

theorem Filing.createFixed_wp (filing : Filing f R put Lost) (path : Path) (made : MadeFixed env size v bytes)
    {Q : VhdReader Unit → σ → Prop} {x : σ}
    (done : ∀ d found, CreatedFixed env size v bytes d → FooterOf d found →
      found.footer.diskType = .fixed → found.footer.currentSize = v →
      Q (.base (fixedCore () true found)) (put ⟨d, none, none⟩)) :
    Code.wp R anything (createFixed env path size) Q (faulted Lost) x :=
  filing.createFixed_laid_wp path made fun d found _ => done d found

/-- What a create comes to: a refusal at once, a refusal once the file is
    truncated, or an image. -/
inductive FixedPlan (env : BuildEnv) (path : Path) (size : Nat) : Prop where
  | refused (why : String) (is : createFixed (δ := Unit) env path size = .ret (.err (.corrupt why)))
  | late (why : String) (at_ : size = 2 ^ 64 - 512) (is : createFixed (δ := Unit) env path size =
      (createTruncate path >>= fun _ => Code.fail (.corrupt why)))
  | made (v : Nat) (bytes : Bytes) (made : MadeFixed env size v bytes)

theorem fixedPlan (env : BuildEnv) (path : Path) (word : size < 2 ^ 64) :
    FixedPlan env path size := by
  by_cases sane : size = 0 ∨ size % sectorSize ≠ 0
  · refine .refused "create_fixed: virtual_size must be a positive multiple of 512" ?_
    unfold createFixed
    rw [if_pos sane]
    rfl
  obtain ⟨positive, aligned⟩ := not_or.mp sane
  have aligned : size % 512 = 0 := not_not.mp aligned
  obtain ⟨v, rounded, top⟩ := sizeWithExactGeometry_ok size
  by_cases room : v + 512 < 2 ^ 64
  · obtain ⟨bytes, built⟩ := buildFooter_ok env v _ _
    exact .made v bytes ⟨positive, aligned, rounded, room, built⟩
  · refine .late "create_fixed: size overflow" (by omega) ?_
    unfold createFixed
    rw [if_neg sane]
    refine congrArg (createTruncate path >>= ·) (funext fun file => ?_)
    rw [rounded, Code.lift_ok_bind, checkedAdd, if_neg (show ¬ v + footerSize < 2 ^ 64 from room)]
    rfl

/-- Whatever may fail, a create that succeeds leaves a new image, opened. -/
theorem createFixed_created {s s' : Image} {t} {r : VhdReader Unit} (word : size < 2 ^ 64)
    (run : Prog.Runs f.handler (createFixed env path size) s t (.ret (.ok r)) s') :
    ∃ v bytes, CreatedFixed env size v bytes s'.disk := by
  cases fixedPlan env path word with
  | refused why is =>
      rw [is] at run
      cases run
  | late why at_ is =>
      have whole : Code.wp f.handler anything (createFixed (δ := Unit) env path size)
          (fun _ _ => False) (fun _ _ => True) s := by
        rw [is]
        refine (Code.wp_bind _ _).mpr (Code.wp_mono (f.filing.createTruncate_wp (Q := fun _ _ => True)
          fun _ _ => trivial) (fun _ _ g => g) (fun _ _ _ => trivial) fun _ _ _ => trivial)
      exact (Prog.wp_finished whole run).elim
  | made v bytes made =>
      have whole := f.filing.createFixed_wp path made (x := s) (Q := fun _ s' =>
        ∃ v bytes, CreatedFixed env size v bytes s'.disk)
        fun d found created _ _ _ => ⟨_, _, created⟩
      have left := Prog.wp_finished whole run
      exact left

/-- Both footers a create of a dynamic image leaves are the one it built. -/
theorem createDynamic_footers {s s' : Image} {t} {r : VhdReader Unit} {bs : Nat} (word : bs < 2 ^ 32)
    (run : Prog.Runs f.handler (createDynamic env path size bs) s t (.ret (.ok r)) s') :
    ∃ v bytes, sizeWithExactGeometry size = .ok v ∧ v < 2 ^ 64 ∧
      buildDynamicFooter env v 512 = .ok bytes ∧ tailSector s'.disk = bytes ∧
      s'.disk.read 0 512 = bytes := by
  have whole (plan : DynamicPlan) (planned : Planned env size bs plan) :=
    f.filing.createPlanned_wp path planned (x := s) (Q := fun _ s' =>
      plan.virtualSize < 2 ^ 64 ∧ tailSector s'.disk = plan.footer ∧ s'.disk.read 0 512 = plan.footer)
      fun L d created virtual _ bytes => by
        refine ⟨by rw [← virtual]; exact L.virtualSize_lt, ?_, ?_⟩
        · rw [← bytes]
          exact created.opens.footer.at_tail rfl
        · rw [← bytes]
          exact created.mirror
  unfold createDynamic at run
  cases accepted : planDynamic env size bs with
  | ok plan =>
      have planned := planDynamic_ok word accepted
      rw [accepted] at run
      obtain ⟨small, tail, mirror⟩ := Prog.wp_finished (whole plan planned) run
      exact ⟨_, _, planned.rounded, small, planned.footer, tail, mirror⟩
  | err e =>
      rw [accepted] at run
      cases run
  | panic =>
      rw [accepted] at run
      cases run
  | outOfFuel =>
      rw [accepted] at run
      cases run

end Fixed

end ImgVhd
