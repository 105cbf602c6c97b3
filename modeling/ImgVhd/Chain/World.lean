import ImgVhd.Session.Reopen

/-! # A file system of images

Files by path, and the images opened from them by handle. A handle is new each
time a file is opened, and what is done to one image is not seen by another.
-/

namespace ImgVhd

open Foundation

structure World where
  files : Path → Option ByteStore
  image : Nat → Image
  next : Nat

namespace World

/-- `w` with another image behind `dev`. -/
def put (w : World) (dev : Nat) (im : Image) : World :=
  { w with image := Function.update w.image dev im }

/-- `w` with a file just opened. -/
def opening (w : World) (d : ByteStore) : World :=
  { w.put w.next ⟨d, none, none⟩ with next := w.next + 1 }

/-- The meaning of the interface for a file system. A file that is there may
    still fail to open. -/
def handler (f : Faults) : Handler World (Op Nat) Op.Res
  | w, .on dev op, r, w' => ∃ im, f.handler (w.image dev) (.on () op) r im ∧ w' = w.put dev im
  | w, .pathExists path, r, w' => r = (w.files path).isSome ∧ w' = w
  | w, .openFile path _, r, w' =>
      (∃ d, w.files path = some d ∧ r = (.ok w.next : Except FsCoreError Nat) ∧ w' = w.opening d) ∨
        ((∃ e, r = (.error e : Except FsCoreError Nat)) ∧ w' = w)
  | w, .createFile _, r, w' =>
      (r = (.ok w.next : Except IoError Nat) ∧ w' = w.opening .empty) ∨
        ((∃ e, r = (.error e : Except IoError Nat)) ∧ w' = w)

variable {w : World} {dev : Nat} {im : Image}

@[simp] theorem image_put : (w.put dev im).image dev = im := Function.update_self _ _ _

theorem image_put_ne {e : Nat} (other : e ≠ dev) : (w.put dev im).image e = w.image e :=
  Function.update_of_ne other _ _

@[simp] theorem next_put : (w.put dev im).next = w.next := rfl

@[simp] theorem put_same : w.put dev (w.image dev) = w := by
  unfold put
  rw [Function.update_eq_self]

theorem image_opening {d : ByteStore} : (w.opening d).image w.next = ⟨d, none, none⟩ :=
  Function.update_self _ _ _

theorem image_opening_ne {d : ByteStore} {e : Nat} (other : e ≠ w.next) :
    (w.opening d).image e = w.image e := Function.update_of_ne other _ _

@[simp] theorem next_opening {d : ByteStore} : (w.opening d).next = w.next + 1 := rfl

theorem handler_quiet {f : Faults} {w' : World} (op : ImageOp) {r : op.Res}
    (quiet : ((w.image dev).step op).2 = w.image dev) (h : handler f w (.on dev op) r w') :
    w' = w ∧ (r = ((w.image dev).step op).1 ∨ (f.Faulty ∧ op.Refused r)) := by
  obtain ⟨im, stepped, rfl⟩ := h
  obtain ⟨rfl, answer⟩ := Faults.handler_quiet op quiet stepped
  exact ⟨put_same, answer⟩

theorem sees {f : Faults} {G : World → Op Nat → Prop} (size : G w (.on dev .sizeBytes))
    (read : ∀ off len, G w (.on dev (.readAt off len))) :
    Sees (handler f) G dev w (w.image dev).disk f.Faulty where
  asksSize := size
  size r w' stepped := by
    obtain ⟨same, rfl | ⟨_, refused⟩⟩ := handler_quiet .sizeBytes rfl stepped
    · exact ⟨rfl, same⟩
    · exact refused.elim
  asksRead := read
  read off len r w' stepped := by
    obtain ⟨same, rfl | ⟨faulty, e, rfl⟩⟩ := handler_quiet (.readAt off len) rfl stepped
    · refine ⟨same, ?_⟩
      by_cases inside : off + len ≤ (w.image dev).disk.size
      · exact Or.inl ⟨inside, congrArg Prod.fst (Image.step_readAt inside)⟩
      · exact Or.inr ⟨Or.inl (by omega), _, if_neg inside⟩
    · exact ⟨same, Or.inr ⟨Or.inr faulty, e, rfl⟩⟩

/-- The world on ideal devices, where a file that is there opens. -/
def idealStep (w : World) : (op : Op Nat) → op.Res × World
  | .on dev op => (((w.image dev).step op).1, w.put dev ((w.image dev).step op).2)
  | .pathExists path => ((w.files path).isSome, w)
  | .openFile path _ =>
      match w.files path with
      | some d => (.ok w.next, w.opening d)
      | none => (.error (.custom "no such file"), w)
  | .createFile _ => (.ok w.next, w.opening .empty)

theorem idealStep_allowed (f : Faults) (w : World) (op : Op Nat) :
    handler f w op (w.idealStep op).1 (w.idealStep op).2 := by
  cases op with
  | on dev op => exact ⟨_, Or.inl rfl, rfl⟩
  | pathExists path => exact ⟨rfl, rfl⟩
  | createFile path => exact Or.inl ⟨rfl, rfl⟩
  | openFile path writable =>
      cases there : w.files path with
      | some d =>
          have step : w.idealStep (.openFile path writable) = (.ok w.next, w.opening d) := by
            simp only [idealStep, there]
          rw [step]
          exact Or.inl ⟨d, there, rfl, rfl⟩
      | none =>
          have step : w.idealStep (.openFile path writable) =
              (.error (.custom "no such file"), w) := by
            simp only [idealStep, there]
          rw [step]
          exact Or.inr ⟨⟨_, rfl⟩, rfl⟩

end World

/-- The ways in: on a device, or by a path, to read or also to write. -/
def openAs {δ : Type} (dev : δ) (writable : Bool) : Option Path → Io δ (VhdReader δ)
  | none => if writable then VhdReader.openRwOnDevice dev else VhdReader.openOnDevice dev
  | some path => if writable then VhdReader.openRw path else VhdReader.open_ path

namespace World

variable {f : Faults} {G : World → Op Nat → Prop} {Q : VhdReader Nat → World → Prop}
  {E : Error → World → Prop} {w : World} {dev : Nat} {wr : Bool}

theorem openAt_wp {path : Path} (asks : G w (.openFile path wr))
    (inner : ∀ d, w.files path = some d →
      Code.wp (handler f) G (openInner maxParentDepth wr w.next (some path)) Q E (w.opening d))
    (missing : ∀ e, E e w) : Code.wp (handler f) G (openAs dev wr (some path)) Q E w := by
  have both : Code.wp (handler f) G
      (do
        let answer : Except FsCoreError Nat ← Code.perform (Op.openFile path wr)
        let dev ← lifted answer
        openInner maxParentDepth wr dev (some path) : Io Nat (VhdReader Nat)) Q E w := by
    refine (Code.wp_bind _ _).mpr ((Code.wp_perform _).mpr ⟨asks, ?_⟩)
    rintro answer w' (⟨d, there, rfl, rfl⟩ | ⟨⟨e, rfl⟩, rfl⟩)
    · exact inner d there
    · exact missing _
  cases wr with
  | true => exact both
  | false => exact both

theorem openOn_wp (asks : G w (.on dev .isWritable))
    (inner : Code.wp (handler f) G (openInner maxParentDepth wr dev none) Q E w) :
    Code.wp (handler f) G (openAs dev wr none) Q E w := by
  cases wr with
  | false => exact inner
  | true =>
      refine (Code.wp_bind _ _).mpr ((Code.wp_perform _).mpr ⟨asks, fun b w' answered => ?_⟩)
      obtain ⟨rfl, rfl | ⟨-, refused⟩⟩ := handler_quiet .isWritable rfl answered
      · exact inner
      · exact refused.elim

end World

end ImgVhd
