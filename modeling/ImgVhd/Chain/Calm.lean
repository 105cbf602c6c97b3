import ImgVhd.Results.SiblingParents
import ImgVhd.Writing.Ordered

/-! # What opening and reading ask for

Opening an image and reading it only look, on every device of the chain, and any
file that is opened on the way up is opened for reading.
-/

namespace ImgVhd

open Foundation

/-- Operations that only look, make a reader's mutexes, or open a file to read. -/
def Calm {δ : Type} : Op δ → Prop
  | .on _ op => op.Quiet ∨ ∃ bat off, op = .share bat off
  | .pathExists _ => True
  | .openFile _ writable => writable = false
  | .createFile _ => False

section Calm

variable {δ : Type} {dev : δ} {c : Core δ} {parent : Option (ParentView δ)}

theorem calm_quiet (op : ImageOp) (quiet : op.Quiet) : Calm (.on dev op) := Or.inl quiet

theorem calm_share {bat : Option (List Nat)} {off : Option Nat} : Calm (.on dev (.share bat off)) :=
  Or.inr ⟨bat, off, rfl⟩

theorem Calm.still {op : Op δ} (calm : Calm op) : ¬ op.Alters := by
  intro alters
  cases op with
  | on dev op =>
      rcases calm with quiet | ⟨bat, off, rfl⟩
      · cases op <;> first | exact quiet | exact alters
      · exact alters
  | pathExists path => exact alters
  | openFile path writable => exact alters
  | createFile path => exact calm

theorem openInner_calm {depth : Nat} {wr : Bool} {path : Option Path} :
    (openInner depth wr dev path).Asks Calm := by
  induction depth generalizing wr dev path with
  | zero => exact Code.asks_fail _
  | succ depth ih =>
      have reads (off len : Nat) : Calm (.on dev (.readAt off len)) := calm_quiet _ trivial
      unfold openInner
      apply (Code.asks_perform (calm_quiet .sizeBytes trivial)).bind
      intro devSize
      split
      · exact Code.asks_fail _
      apply (readFooter_asks reads).bind
      intro found
      cases found.footer.diskType with
      | fixed => exact (Code.asks_perform calm_share).bind fun _ => Code.asks_pure _
      | dynamic =>
          apply (openSparse_asks reads).bind
          intro t
          exact (Code.asks_perform calm_share).bind fun _ => Code.asks_pure _
      | differencing =>
          apply (openSparse_asks reads).bind
          intro t
          apply (Code.asks_lift _).bind
          intro checked
          apply (Code.asks_lift _).bind
          intro path
          apply (openParent_asks (P := Calm) fun _ => ⟨trivial, rfl, fun _ => ih⟩).bind
          intro parent
          exact (Code.asks_perform calm_share).bind fun _ => Code.asks_pure _

/-! ## Reading -/

theorem readBlockUnallocated_calm {virt : Nat} {dst : Bytes}
    (above : ∀ p ∈ parent, ∀ offset buf, (p.readAt offset buf).Asks Calm) :
    (readBlockUnallocated parent virt dst).Asks Calm := by
  cases parent with
  | none => exact Code.asks_pure _
  | some p =>
      have reads := above p rfl
      unfold readBlockUnallocated
      simp only
      split
      · exact Code.asks_pure _
      · apply (Code.asks_lift _).bind
        intro stop
        split
        · exact (Code.asks_lift _).bind fun _ => (Code.asks_lift _).bind fun _ =>
            (reads _ _).bind fun _ => Code.asks_pure _
        · exact reads _ _

theorem deferInto_calm {virt written len : Nat} {buf : Bytes}
    (above : ∀ p ∈ parent, ∀ offset buf, (p.readAt offset buf).Asks Calm) :
    (deferInto parent virt buf written len).Asks Calm :=
  (Code.asks_lift _).bind fun _ => (readBlockUnallocated_calm above).bind fun _ => Code.asks_pure _

theorem readInto_calm {off written len : Nat} {buf : Bytes} :
    (readInto dev off buf written len).Asks Calm :=
  (Code.asks_lift _).bind fun _ =>
    (devRead_asks fun _ _ => calm_quiet _ trivial).bind fun _ => Code.asks_pure _

theorem readRun_calm {blockSize bitmapSize blockIdx hostOff stop : Nat} {bitmap : Bytes} {t : RunCursor}
    (above : ∀ p ∈ parent, ∀ offset buf, (p.readAt offset buf).Asks Calm) :
    (readRun dev parent blockSize bitmapSize bitmap blockIdx hostOff stop t).Asks Calm := by
  have last (len : Nat) (buf : Bytes) : Code.Asks Calm (do
      let blockCursor ← liftM (add64 t.blockCursor len : Checked Nat)
      let written ← liftM (add64 t.written len : Checked Nat)
      pure ({ blockCursor, written, buf } : RunCursor) : Io δ RunCursor) :=
    (Code.asks_lift _).bind fun _ => (Code.asks_lift _).bind fun _ => Code.asks_pure _
  unfold readRun
  refine (Code.asks_lift _).bind fun bit => (Code.asks_lift _).bind fun _ =>
    (Code.asks_lift _).bind fun _ => (Code.asks_lift _).bind fun _ => (Code.asks_lift _).bind fun _ =>
      (Code.asks_lift _).bind fun _ => ?_
  split
  · exact (Code.asks_lift _).bind fun _ => (Code.asks_lift _).bind fun _ =>
      (Code.asks_lift _).bind fun _ => (Code.asks_lift _).bind fun _ =>
        readInto_calm.bind fun _ => last _ _
  · exact (Code.asks_lift _).bind fun _ => (Code.asks_lift _).bind fun _ =>
      (deferInto_calm above).bind fun _ => last _ _

theorem readBlock_calm {blockSize mask stop : Nat} {t : ReadCursor}
    (above : ∀ p ∈ parent, ∀ offset buf, (p.readAt offset buf).Asks Calm) :
    (readBlock c parent blockSize mask stop t).Asks Calm := by
  unfold readBlock
  refine (Code.asks_lift _).bind fun _ => (Code.asks_lift _).bind fun _ =>
    (Code.asks_perform (calm_quiet .fetchBat trivial)).bind fun held => (Code.asks_lift _).bind fun bat => ?_
  split
  · exact Code.asks_fail _
  refine (Code.asks_lift _).bind fun entry => ?_
  split
  · exact (deferInto_calm above).bind fun _ => (Code.asks_lift _).bind fun _ =>
      (Code.asks_lift _).bind fun _ => Code.asks_pure _
  · exact (Code.asks_lift _).bind fun _ => (devRead_asks fun _ _ => calm_quiet _ trivial).bind fun _ =>
      (Code.asks_lift _).bind fun _ => (Code.asks_whileLoop fun _ => readRun_calm above).bind fun _ =>
        (Code.asks_lift _).bind fun _ => Code.asks_pure _

theorem readAt_core_calm {offset : Nat} {buf : Bytes}
    (above : ∀ p ∈ parent, ∀ offset buf, (p.readAt offset buf).Asks Calm) :
    (c.readAt parent offset buf).Asks Calm := by
  have sparse : (readSparse c parent offset buf).Asks Calm :=
    (Code.asks_lift _).bind fun _ => (Code.asks_lift _).bind fun _ => (Code.asks_lift _).bind fun _ =>
      (Code.asks_whileLoop fun _ => readBlock_calm above).bind fun _ => Code.asks_pure _
  unfold Core.readAt
  simp only
  split
  · exact Code.asks_pure _
  apply (Code.asks_lift _).bind
  intro stop
  split
  · exact Code.asks_fail _
  split
  · exact devRead_asks fun _ _ => calm_quiet _ trivial
  · exact sparse
  · exact sparse

theorem readAt_calm (r : VhdReader δ) (offset : Nat) (buf : Bytes) : (r.readAt offset buf).Asks Calm := by
  induction r generalizing offset buf with
  | base c => exact readAt_core_calm nofun
  | above c p ih =>
      apply readAt_core_calm
      rintro _ ⟨⟩
      exact ih

end Calm

end ImgVhd
