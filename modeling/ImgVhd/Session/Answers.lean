import ImgVhd.Chain.World
import ImgVhd.Session.Run

/-! # What an image answers

On an ideal device: any way in to an image that opens gives a reader of it, and a
reader answers with the values the image holds.
-/

namespace ImgVhd

open Foundation

section Ways

variable {f : Faults} {s : Image} {wr : Bool} {G : Image → Op Unit → Prop}
  {Q : VhdReader Unit → Image → Prop} {E : Error → Image → Prop}

theorem reopen_eq_openAs {how : Option Path} : reopen () how = openAs () true how := by
  cases how with
  | none => rfl
  | some path => rfl

theorem openAs_wp {how : Option Path} (asks : ∀ op, G s op)
    (inner : ∀ path, Code.wp f.handler G (openInner maxParentDepth wr () path) Q E s) :
    Code.wp f.handler G (openAs () wr how) Q E s := by
  have atPath (path : Path) : Code.wp f.handler G
      (do
        let answer : Except FsCoreError Unit ← Code.perform (Op.openFile path wr)
        let dev ← lifted answer
        openInner maxParentDepth wr dev (some path) : Io Unit (VhdReader Unit)) Q E s := by
    refine (Code.wp_bind _ _).mpr ((Code.wp_perform _).mpr ⟨asks _, ?_⟩)
    rintro r x ⟨rfl, rfl⟩
    exact inner (some path)
  cases how with
  | some path =>
      cases wr with
      | true => exact atPath path
      | false => exact atPath path
  | none =>
      cases wr with
      | false => exact inner none
      | true =>
          refine (Code.wp_bind _ _).mpr ((Code.wp_perform _).mpr ⟨asks _, fun r x answered => ?_⟩)
          obtain ⟨rfl, rfl | ⟨_, refused⟩⟩ := Faults.handler_quiet .isWritable rfl answered
          · exact inner none
          · exact refused.elim

end Ways

section Answers

variable {L : Layout} {s : Image} {bat : List Nat} {off offset : Nat} {buf : Bytes} {fm wr : Bool}

theorem openAs_ideal {dataEnd : Nat} {how : Option Path}
    (opens : Opens s.disk L fm dataEnd off) (dynamic : L.footer.diskType = .dynamic) :
    (openAs () wr how).run idealStep s = (.ok (.base (L.core () wr fm)), L.opened s.disk off) := by
  have whole : Code.wp Faults.none.handler (fun _ _ => True) (openAs () wr how)
      (fun r x => r = .base (L.core () wr fm) ∧ x = L.opened s.disk off) (fun _ _ => False) s := by
    refine openAs_wp (fun _ => trivial) fun path => openInner_dynamic_wp
      (Faults.sees fun _ _ => trivial) opens dynamic ⟨trivial, fun r x shared => ?_⟩
      fun faulty => absurd faulty Faults.none_not_faulty
    exact ⟨rfl, Faults.handler_share shared⟩
  rcases Code.wp_run idealStep whole (idealStep_allowed .none) with
    ⟨r, ended, rfl, same⟩ | ⟨e, -, never⟩
  · exact Prod.ext ended same
  · exact never.elim

theorem reads_as (held : Nat → UInt8) (ready : Ready L s) (cached : s.bat = some bat)
    (values : ∀ b < L.virtualSize, L.value s.disk bat b = held b)
    (within : offset + buf.length ≤ L.virtualSize) :
    ((VhdReader.base (L.core () wr fm)).readAt offset buf).run idealStep s =
      (.ok ((List.range buf.length).map fun i => held (offset + i)), s) := by
  rw [read_ideal ready cached within]
  refine congrArg (fun out => (Outcome.ok out, s)) (List.map_congr_left fun i member => ?_)
  have lt := List.mem_range.mp member
  exact values _ (by omega)

end Answers

end ImgVhd
