import ImgVhd.Chain.World
import ImgVhd.Session.Answers
import ImgVhd.Creating.Fixed
import ImgVhd.Writing.Unruly

/-! # No answer panics

Whatever the devices, the file system and the other threads answer, no call of a
reader panics, overflows or loops for ever.
-/

namespace ImgVhd

open Foundation

section Unruly

variable {σ δ : Type} {R : Handler σ (Op δ) Op.Res} {dev : δ}

theorem open_settles (unruly : Unruly R) {path : Path} :
    Code.Settles R (VhdReader.open_ path) fun r : VhdReader δ => Formed r := by
  refine Code.settles_bind (Code.settles_perform fun _ _ _ _ => trivial) fun answer _ => ?_
  cases answer with
  | error e => exact Code.settles_fail
  | ok dev' => exact openInner_settles unruly

theorem openRw_settles (unruly : Unruly R) {path : Path} :
    Code.Settles R (VhdReader.openRw path) fun r : VhdReader δ => Formed r := by
  refine Code.settles_bind (Code.settles_perform fun _ _ _ _ => trivial) fun answer _ => ?_
  cases answer with
  | error e => exact Code.settles_fail
  | ok dev' => exact openInner_settles unruly

theorem openAs_settles (unruly : Unruly R) {wr : Bool} {how : Option Path} :
    Code.Settles R (openAs dev wr how) Formed := by
  cases how with
  | some path =>
      cases wr with
      | false => exact open_settles unruly
      | true => exact openRw_settles unruly
  | none =>
      cases wr with
      | false => exact openInner_settles unruly
      | true =>
          refine Code.settles_bind (Code.settles_perform fun _ _ _ _ => trivial) fun writable _ => ?_
          cases writable with
          | false => exact Code.settles_fail
          | true => exact openInner_settles unruly

/-! ## Creating -/

theorem fileSetLen_settles {len : Nat} : Code.Settles R (fileSetLen dev len) fun _ => True := by
  refine Code.settles_bind (Code.settles_perform fun _ _ _ _ => trivial) fun answer _ => ?_
  cases answer with
  | ok u => exact Code.settles_pure trivial
  | error e => exact Code.settles_fail

theorem fileWrite_settles {off : Nat} {bytes : Bytes} :
    Code.Settles R (fileWrite dev off bytes) fun _ => True := by
  refine Code.settles_bind (Code.settles_perform fun _ _ _ _ => trivial) fun answer _ => ?_
  cases answer with
  | ok u => exact Code.settles_pure trivial
  | error e => exact Code.settles_fail

theorem fileSyncData_settles : Code.Settles R (fileSyncData dev) fun _ => True := by
  refine Code.settles_bind (Code.settles_perform fun _ _ _ _ => trivial) fun answer _ => ?_
  cases answer with
  | ok u => exact Code.settles_pure trivial
  | error e => exact Code.settles_fail

theorem createTruncate_settles {path : Path} :
    Code.Settles R (createTruncate path) fun (_ : δ) => True := by
  refine Code.settles_bind (Code.settles_perform fun _ _ _ _ => trivial) fun answer _ => ?_
  cases answer with
  | ok u => exact Code.settles_pure trivial
  | error e => exact Code.settles_fail

theorem writeEmptyBat_settles {tableOffset tableLen : Nat} :
    Code.Settles R (writeEmptyBat dev tableOffset tableLen) fun _ => True := by
  unfold writeEmptyBat
  simp only
  refine Code.settles_bind (P := fun _ => True) (Code.settles_whileLoop
    (fun left => left ≤ tableLen) (fun left => left) ?_ ?_ ?_ (Nat.le_refl _) (Nat.le_refl _))
    fun _ _ => Code.settles_pure trivial
  · rintro left - more
    exact of_decide_eq_true more
  · rintro left le more
    have more := of_decide_eq_true more
    refine Code.settles_bind fileWrite_settles fun _ _ => Code.settles_pure ?_
    omega
  · exact fun _ _ _ => trivial

theorem planDynamic_settled (env : BuildEnv) (size bs : Nat) : (planDynamic env size bs).Settled := by
  by_cases sane : size = 0 ∨ size % sectorSize ≠ 0
  · unfold planDynamic
    rw [if_pos sane]
    trivial
  by_cases valid : ¬ bs.isPowerOfTwo ∨ bs < sectorSize
  · unfold planDynamic
    rw [if_neg sane, if_pos valid]
    trivial
  obtain ⟨v, rounded, -⟩ := sizeWithExactGeometry_ok size
  by_cases few : divCeil v bs ≤ maxCreateBatEntries
  · obtain ⟨positive, aligned⟩ := not_or.mp sane
    obtain ⟨power, sector⟩ := not_or.mp valid
    obtain ⟨plan, is⟩ := planDynamic_accepts env positive (not_not.mp aligned) (not_not.mp power)
      (Nat.not_lt.mp sector) rounded few
    rw [is]
    trivial
  · unfold planDynamic
    rw [if_neg sane, if_neg valid, rounded, Outcome.ok_bind]
    simp only
    split
    · trivial
    rw [if_pos (Nat.not_le.mp few)]
    trivial

/-- The ways to a reader. -/
inductive Obtains : Io δ (VhdReader δ) → Prop where
  | opened (dev : δ) (wr : Bool) (how : Option Path) : Obtains (openAs dev wr how)
  | createdFixed (env : BuildEnv) (path : Path) (size : Nat) : Obtains (createFixed env path size)
  | createdDynamic (env : BuildEnv) (path : Path) (size : Nat) {bs : Nat} (word : bs < 2 ^ 32) :
      Obtains (createDynamic env path size bs)

theorem Obtains.settles {c : Io δ (VhdReader δ)} (obtains : Obtains c) (unruly : Unruly R) :
    Code.Settles R c Formed := by
  cases obtains with
  | opened dev wr how => exact openAs_settles unruly
  | createdFixed env path size =>
      unfold createFixed
      split
      · exact Code.settles_fail
      obtain ⟨v, rounded, -⟩ := sizeWithExactGeometry_ok size
      refine Code.settles_bind createTruncate_settles fun file _ => ?_
      rw [rounded, Code.lift_ok_bind]
      -- how long a footer is plays no part
      generalize footerSize = tail
      refine checkedAdd_settles fun total _ _ => ?_
      refine Code.settles_bind fileSetLen_settles fun _ _ => ?_
      obtain ⟨bytes, built⟩ := buildFooter_ok env v DiskTypeWire.fixed (2 ^ 64 - 1)
      unfold buildFixedFooter
      rw [built, Code.lift_ok_bind]
      refine Code.settles_bind fileWrite_settles fun _ _ => ?_
      refine Code.settles_bind fileSyncData_settles fun _ _ => ?_
      exact openRw_settles unruly
  | @createdDynamic env path size bs word =>
      unfold createDynamic
      refine Code.settles_lift_bind (planDynamic_settled env size bs) fun plan accepted => ?_
      have planned := planDynamic_ok word accepted
      have few : plan.entries ≤ 2 ^ 24 := planned.few
      have table : divCeil (plan.entries * 4) 512 * 512 < plan.entries * 4 + 512 :=
        divCeil_mul_lt (by decide)
      have room : plan.footerAt + footerSize < 2 ^ 64 := by
        rw [planned.footerAt, planned.tableLen]
        unfold footerSize
        omega
      refine Code.settles_bind createTruncate_settles fun file _ => ?_
      rw [add64_of_lt room, Code.lift_ok_bind]
      refine Code.settles_bind fileSetLen_settles fun _ _ => ?_
      refine Code.settles_bind fileWrite_settles fun _ _ => ?_
      refine Code.settles_bind fileWrite_settles fun _ _ => ?_
      refine Code.settles_bind fileWrite_settles fun _ _ => ?_
      refine Code.settles_bind writeEmptyBat_settles fun _ _ => ?_
      refine Code.settles_bind fileSyncData_settles fun _ _ => ?_
      exact openRw_settles unruly

/-- A reader is opened or created, and then used, over any answers of the right
    types. Each call comes to a value or an error, and a read that returns fills
    its buffer. -/
theorem no_answer_panics (unruly : Unruly R) {c : Io δ (VhdReader δ)} (obtains : Obtains c) {s s' : σ}
    {t : List (Event (Op δ) Op.Res)} {out : Outcome Error (VhdReader δ)}
    (run : Prog.Runs R c s t (.ret out) s') :
    out.Settled ∧ ∀ r, out = .ok r → ∀ s₁ t' s₂,
      (∀ offset buf out', Prog.Runs R (r.readAt offset buf) s₁ t' (.ret out') s₂ →
        out'.Settled ∧ ∀ bytes, out' = .ok bytes → bytes.length = buf.length) ∧
      (∀ offset buf out', Prog.Runs R (r.writeAt offset buf) s₁ t' (.ret out') s₂ → out'.Settled) ∧
      (∀ out', Prog.Runs R r.flushWrites s₁ t' (.ret out') s₂ → out'.Settled) := by
  obtain ⟨settled, formed⟩ := (obtains.settles unruly).runs run
  refine ⟨settled, fun r is s₁ t' s₂ => ⟨fun offset buf out' read => ?_, fun offset buf out' write => ?_,
    fun out' flush => ?_⟩⟩
  · exact ((formed r is).readAt_settles unruly offset buf).runs read
  · exact (((formed r is).writeAt_settles unruly offset buf).runs write).1
  · exact ((flushWrites_settles r).runs flush).1

end Unruly

/-- Any answers of the right types, in any order. -/
def typedAnswers : Handler Image (Op Unit) Op.Res := fun _ op r _ => op.Typed r

theorem unruly_typedAnswers : Unruly typedAnswers := fun _ _ _ _ typed => typed

/-- The small disk is opened by answers of the right types, and whatever is answered
    to a write after that, it settles. -/
theorem small_disk_never_panics : ∃ (r : VhdReader Unit) (s x : Image) (t : List (Event (Op Unit) Op.Res)),
    Prog.Runs typedAnswers (openAs () true (some [])) s t (.ret (.ok r)) x ∧
      r.virtualSize = 34816 ∧ ∀ offset buf t' out s₁ s₂,
        Prog.Runs typedAnswers (r.writeAt offset buf) s₁ t' (.ret out) s₂ → out.Settled := by
  obtain ⟨L, s, off, created, size, -⟩ := small_image
  let fresh : Image := ⟨s.disk, none, none⟩
  have opens : Opens fresh.disk L false off off := created.opens
  have whole : Code.wp Faults.none.handler (fun x _ => x = fresh) (openAs () true (some []))
      (fun r _ => r = .base (L.core () true false)) (fun _ _ => False) fresh := by
    refine openAs_wp (fun _ => rfl) fun path => openInner_dynamic_wp (Faults.sees fun _ _ => rfl)
      opens created.dynamic ⟨rfl, fun _ _ _ => rfl⟩ fun faulty => absurd faulty Faults.none_not_faulty
  have small : s.disk.size ≤ 2 ^ 64 - sectorSize := by
    have near := created.near
    rw [created.size]
    unfold sectorSize
    omega
  have typed (x : Image) (op : Op Unit) (at_ : x = fresh) : op.Typed (idealStep x op).1 := by
    subst at_
    cases op with
    | on dev op =>
        cases op with
        | readAt o n =>
            intro bytes is
            by_cases inside : o + n ≤ fresh.disk.size
            · rw [show (idealStep fresh (.on dev (.readAt o n))).1 = .ok (fresh.disk.read o n) from
                congrArg Prod.fst (Image.step_readAt inside)] at is
              cases is
              exact ⟨ByteStore.length_read, Nat.le_trans inside small⟩
            · rw [show (idealStep fresh (.on dev (.readAt o n))).1 =
                .error (.outOfBounds o n fresh.disk.size) from if_neg inside] at is
              cases is
        | lockBat => exact nofun
        | fetchBat => exact nofun
        | _ => trivial
    | _ => trivial
  have run : Prog.Runs typedAnswers (openAs () true (some [])) fresh _ _ _ :=
    Prog.wp_trace idealStep whole (idealStep_allowed .none) typed
  obtain ⟨r, ended, is⟩ : ∃ r, ((openAs () true (some [])).run idealStep fresh).1 = .ok r ∧
      r = .base (L.core () true false) := by
    rcases Code.wp_run idealStep whole (idealStep_allowed .none) with ⟨r, ended, is⟩ | ⟨e, -, never⟩
    · exact ⟨r, ended, is⟩
    · exact never.elim
  rw [ended] at run
  refine ⟨r, _, _, _, run, by rw [is]; exact size, fun offset buf t' out s₁ s₂ write => ?_⟩
  exact ((no_answer_panics unruly_typedAnswers (.opened () true (some [])) run).2 r rfl s₁ t' s₂).2.1 offset buf out write

end ImgVhd
