import ImgVhd.Chain.Parents
import ImgVhd.Creating.HeaderLayout

/-! # Parents are siblings

The name an image gives its parent is looked for in the image's own directory or
nowhere: it is one component, or it is refused before a path is asked about. A
parent's own parent is then in that directory too.
-/

namespace ImgVhd

open Foundation

/-- The path an operation names. -/
def Op.path? {δ : Type} : Op δ → Option Path
  | .on _ _ => none
  | .pathExists path => some path
  | .openFile path _ => some path
  | .createFile path => some path

/-- An operation on an opened image, or on a file in the directory of `child`. -/
def InDirectory {δ : Type} (child : Path) (op : Op δ) : Prop :=
  ∀ path, op.path? = some path → ∃ name, FileName name ∧ path = beside child name

section Asks

variable {δ : Type} {P : Op δ → Prop} {dev : δ} {path : Path} {header : DynamicHeader}
  {inner : δ → Option Path → Io δ (VhdReader δ)}

theorem devRead_asks {off len : Nat} (reads : ∀ off len, P (.on dev (.readAt off len))) :
    (devRead dev off len).Asks P :=
  (Code.asks_perform (reads _ _)).bind fun _ => Code.asks_lift _

theorem readFooter_asks {devSize : Nat} (reads : ∀ off len, P (.on dev (.readAt off len))) :
    (readFooter dev devSize).Asks P := by
  unfold readFooter
  apply (devRead_asks reads).bind
  intro footerBytes
  apply (Code.asks_lift _).bind
  intro tail
  cases tail with
  | ok footer => exact Code.asks_pure _
  | error tailErr =>
      simp only
      split
      · exact Code.asks_fail _
      · apply (Code.asks_perform (reads _ _)).bind
        intro answer
        cases answer with
        | error e => exact Code.asks_fail _
        | ok mirrorBytes =>
            apply (Code.asks_lift _).bind
            intro mirror
            cases mirror with
            | error e => exact Code.asks_fail _
            | ok mirror =>
                simp only
                split
                · exact Code.asks_pure _
                · exact Code.asks_fail _

theorem openSparse_asks {devSize : Nat} {found : FoundFooter}
    (reads : ∀ off len, P (.on dev (.readAt off len))) :
    (openSparse dev devSize found).Asks P := by
  unfold openSparse
  simp only
  split
  · exact Code.asks_fail _
  split
  · exact Code.asks_fail _
  apply (devRead_asks reads).bind
  intro hdrBytes
  apply (Code.asks_lift _).bind
  intro header
  apply (Code.asks_lift _).bind
  intro batBytesLen
  split
  · exact Code.asks_fail _
  split
  · exact Code.asks_fail _
  apply (Code.asks_lift _).bind
  intro tableEnd
  split
  · exact Code.asks_fail _
  · apply (devRead_asks reads).bind
    intro batBytes
    exact Code.asks_lift _

/-- All a parent's open comes to is a look at one file beside the child, and what
    `inner` does with it. -/
theorem openParent_asks (near : FileName header.parentName →
      P (.pathExists (beside path header.parentName)) ∧
      P (.openFile (beside path header.parentName) false) ∧
      ∀ dev, (inner dev (some (beside path header.parentName))).Asks P) :
    (openParent inner path header).Asks P := by
  unfold openParent
  cases outcome : parentFileName header.parentName with
  | ok name =>
      obtain ⟨rfl, is⟩ := parentFileName_ok outcome
      obtain ⟨look, opened, below⟩ := near is
      rw [Code.lift_ok_bind, is.candidate]
      apply (Code.asks_perform look).bind
      intro there
      split
      · apply (Code.asks_perform opened).bind
        intro answer
        apply (Code.asks_lift _).bind
        intro dev
        apply (below dev).bind
        intro parent
        exact Code.asks_lift _
      · exact Code.asks_fail _
  | err e => exact Code.asks_fail _
  | panic => exact trivial
  | outOfFuel => exact trivial

theorem openParent_looks (is : FileName header.parentName) (plain : '\x00' ∉ header.parentName) :
    ∃ next, openParent inner path header =
      Code.perform (Op.pathExists (beside path header.parentName)) >>= next := by
  unfold openParent
  rw [parentFileName_of_name is plain, Code.lift_ok_bind, is.candidate]
  exact ⟨_, rfl⟩

theorem openParent_refused (other : ¬ FileName header.parentName) :
    ∃ m, openParent inner path header = Code.fail (.parentNotFound m) := by
  obtain ⟨m, refused⟩ := parentFileName_refused other
  refine ⟨m, ?_⟩
  unfold openParent
  rw [refused, Code.lift_err_bind]

/-- An open by a path stays in the directory of the path, however deep the chain. -/
theorem openInner_asks {depth : Nat} {wr : Bool} :
    (openInner depth wr dev (some path)).Asks (InDirectory path) := by
  induction depth generalizing wr dev path with
  | zero => exact Code.asks_fail _
  | succ depth ih =>
      have own (op : ImageOp) : InDirectory path (.on dev op) := by
        intro p named
        cases named
      unfold openInner
      apply (Code.asks_perform (own _)).bind
      intro devSize
      split
      · exact Code.asks_fail _
      apply (readFooter_asks fun _ _ => own _).bind
      intro found
      cases found.footer.diskType with
      | fixed =>
          apply (Code.asks_perform (own _)).bind
          intro shared
          exact Code.asks_pure _
      | dynamic =>
          apply (openSparse_asks fun _ _ => own _).bind
          intro t
          apply (Code.asks_perform (own _)).bind
          intro shared
          exact Code.asks_pure _
      | differencing =>
          apply (openSparse_asks fun _ _ => own _).bind
          intro t
          apply (Code.asks_lift _).bind
          intro checked
          simp only [okOr, Code.lift_ok_bind]
          have parent : (openParent (openInner depth false) path t.header).Asks
              (InDirectory (δ := δ) path) := by
            apply openParent_asks
            intro is
            have here : InDirectory (δ := δ) path (.pathExists (beside path t.header.parentName)) := by
              rintro p ⟨⟩
              exact ⟨_, is, rfl⟩
            refine ⟨here, here, fun dev => ?_⟩
            -- the parent's own siblings are the child's
            have same : InDirectory (δ := δ) (beside path t.header.parentName) = InDirectory path := by
              funext op
              simp only [InDirectory, beside_beside]
            rw [← same]
            exact ih
          apply parent.bind
          intro parent
          apply (Code.asks_perform (own _)).bind
          intro shared
          exact Code.asks_pure _

end Asks

/-- No parent name escapes the child's directory: whatever the bytes of the field, its
    name is one component looked for beside the child, or refused before any path is
    asked about, and no file that the chain above names is anywhere else. -/
theorem no_parent_name_escapes {δ : Type} (childPath : Path) {header : DynamicHeader} {field : Bytes}
    (named : header.parentName = decodeUtf16Be field)
    (inner : δ → Option Path → Io δ (VhdReader δ)) :
    (FileName (decodeUtf16Be field) →
      (∃ next, openParent inner childPath header =
        Code.perform (Op.pathExists (childPath.parent.getD [] ++ [.normal (decodeUtf16Be field)])) >>=
          next) ∧
      ∀ P : Op δ → Prop, P (.pathExists (childPath.parent.getD [] ++ [.normal (decodeUtf16Be field)])) →
        P (.openFile (childPath.parent.getD [] ++ [.normal (decodeUtf16Be field)]) false) →
        (∀ dev, (inner dev (some (childPath.parent.getD [] ++ [.normal (decodeUtf16Be field)]))).Asks P) →
        (openParent inner childPath header).Asks P) ∧
    (¬ FileName (decodeUtf16Be field) →
      ∃ m, openParent inner childPath header = Code.fail (.parentNotFound m)) ∧
    ∀ depth wr (dev : δ), (openInner depth wr dev (some childPath)).Asks fun op =>
      ∀ path, op.path? = some path →
        ∃ name, FileName name ∧ path = childPath.parent.getD [] ++ [.normal name] := by
  rw [← named]
  refine ⟨fun is => ⟨?_, fun P look opened below => ?_⟩, fun other => ?_, fun depth wr dev => ?_⟩
  · apply openParent_looks is
    rw [named]
    exact decodeUtf16Be_plain field
  · apply openParent_asks
    intro _
    exact ⟨look, opened, below⟩
  · exact openParent_refused other
  · exact openInner_asks

/-- The field of `base` leads from `d/child` to `d/base`, and the field of `..` nowhere. -/
theorem base_is_beside_child : ∃ (base up : Bytes) (header header' : DynamicHeader),
    header.parentName = decodeUtf16Be base ∧ header'.parentName = decodeUtf16Be up ∧
    (∃ next, openParent (openInner (δ := Nat) 15 false) [.normal ['d'], .normal ['c']] header =
      Code.perform (Op.pathExists [.normal ['d'], .normal ['b', 'a', 's', 'e']]) >>= next) ∧
    ∃ m, openParent (openInner (δ := Nat) 15 false) [.normal ['d'], .normal ['c']] header' =
      Code.fail (.parentNotFound m) := by
  have named (name : List Char) (plain : '\x00' ∉ name) (short : (encodeUtf16 name).length ≤ 256) :
      { DynamicHeader.parentless 1536 1 512 with parentName := name }.parentName =
        decodeUtf16Be (nameField name (List.replicate 512 0)) :=
    (decode_nameField plain short _).symm
  have base := named ['b', 'a', 's', 'e'] (by decide) (by decide)
  have up := named ['.', '.'] (by decide) (by decide)
  refine ⟨_, _, _, _, base, up, ?_, ?_⟩
  · have looks := (no_parent_name_escapes [.normal ['d'], .normal ['c']] base (openInner (δ := Nat) 15
      false)).1
    rw [← base] at looks
    exact (looks ⟨by decide, by decide, by decide, by decide, by decide, by decide⟩).1
  · apply (no_parent_name_escapes [.normal ['d'], .normal ['c']] up (openInner (δ := Nat) 15 false)).2.1
    rw [← up]
    exact fun is => is.dots rfl

end ImgVhd
