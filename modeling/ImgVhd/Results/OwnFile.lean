import ImgVhd.Chain.Calm
import ImgVhd.Chain.Open
import ImgVhd.Session.Outlasts

/-! # A reader alters its own file

Whatever the devices answer, a reader that was opened by a path alters the file of that
path and no other: its parents are opened for reading and only looked at, and where the
reader has a parent, or was opened for reading, nothing is altered at all.
-/

namespace ImgVhd

open Foundation

section Own

variable {σ δ : Type} {R : Handler σ (Op δ) Op.Res} {dev : δ} {wr : Bool} {path : Path}
  {r : VhdReader δ} {s s₁ s₂ : σ} {t t' : List (Event (Op δ) Op.Res)}

/-- Calls on one reader, one after the other, each of them cut anywhere. -/
inductive Uses (R : Handler σ (Op δ) Op.Res) (r : VhdReader δ) (s : σ) :
    List (Event (Op δ) Op.Res) → σ → Prop where
  | opened : Uses R r s [] s
  | read {t s₁ offset buf t' p s₂} (before : Uses R r s t s₁)
      (run : Prog.Runs R (r.readAt offset buf) s₁ t' p s₂) : Uses R r s (t ++ t') s₂
  | write {t s₁ offset buf t' p s₂} (before : Uses R r s t s₁)
      (run : Prog.Runs R (r.writeAt offset buf) s₁ t' p s₂) : Uses R r s (t ++ t') s₂
  | flush {t s₁ t' p s₂} (before : Uses R r s t s₁) (run : Prog.Runs R r.flushWrites s₁ t' p s₂) :
      Uses R r s (t ++ t') s₂

/-- What a reader may ask for: a look, or anything of the device it may write. -/
def OwnOnly (r : VhdReader δ) (op : Op δ) : Prop :=
  Calm op ∨ (r.core.writable_ = true ∧ ∃ o, op = .on r.core.dev o)

/-- What is true of the reader of `dev`. -/
structure ReaderOf (dev : δ) (wr : Bool) (r : VhdReader δ) : Prop where
  dev : r.core.dev = dev
  alone : r.core.writable_ = true → wr = true ∧ r.parent = none

theorem calm_wlp {α : Type} {c : Io δ α} {h : List (Event (Op δ) Op.Res)}
    {Q : α → List (Event (Op δ) Op.Res) → Prop} (asks : c.Asks Calm) (done : ∀ a h', Q a h') :
    Code.wlp .unknown (fun _ => Calm) c Q h :=
  Code.wlp_mono (Code.wlp_asks (I := fun _ => True) asks (fun _ _ calm _ => calm)
    (fun _ _ _ _ _ _ _ => trivial) trivial) fun a h' _ => done a h'

theorem openInner_reader {depth : Nat} {how : Option Path} {h : List (Event (Op δ) Op.Res)} :
    Code.wlp .unknown (fun _ => Calm) (openInner depth wr dev how) (fun r _ => ReaderOf dev wr r) h := by
  cases depth with
  | zero => exact Code.wlp_fail
  | succ depth =>
      have reads (off len : Nat) : Calm (.on dev (.readAt off len)) := calm_quiet _ trivial
      unfold openInner
      refine Code.wlp_bind (calm_wlp (Code.asks_perform (calm_quiet .sizeBytes trivial)) fun size _ => ?_)
      split
      · exact Code.wlp_fail
      refine Code.wlp_bind (calm_wlp (readFooter_asks reads) fun found _ => ?_)
      cases kind : found.footer.diskType with
      | fixed =>
          refine Code.wlp_bind (calm_wlp (Code.asks_perform calm_share) fun _ _ => Code.wlp_pure ⟨rfl, ?_⟩)
          exact fun writable => ⟨(Bool.and_eq_true_iff.mp writable).1, rfl⟩
      | dynamic =>
          refine Code.wlp_bind (calm_wlp (openSparse_asks reads) fun tables _ => ?_)
          refine Code.wlp_bind (calm_wlp (Code.asks_perform calm_share) fun _ _ => Code.wlp_pure ⟨rfl, ?_⟩)
          exact fun writable => ⟨(Bool.and_eq_true_iff.mp writable).1, rfl⟩
      | differencing =>
          refine Code.wlp_bind (calm_wlp (openSparse_asks reads) fun tables _ => ?_)
          refine Code.wlp_bind (Code.wlp_lift fun checked _ => Code.wlp_bind (Code.wlp_lift fun path _ => ?_))
          have parent : (openParent (openInner (δ := δ) depth false) path tables.header).Asks Calm :=
            openParent_asks fun _ => ⟨trivial, rfl, fun _ => openInner_calm⟩
          refine Code.wlp_bind (calm_wlp parent fun p _ => ?_)
          refine Code.wlp_bind (calm_wlp (Code.asks_perform calm_share) fun _ _ => Code.wlp_pure ⟨rfl, ?_⟩)
          intro writable
          have closed : (sparseCore dev wr found tables).writable_ = false := by
            simp [Core.writable_, sparseCore, kind]
          exact absurd (writable.symm.trans closed) Bool.noConfusion

/-- A write asks nothing of any other device, and nothing at all when it is refused. -/
theorem writeAt_own {h : List (Event (Op δ) Op.Res)} (reader : ReaderOf dev wr r) (offset : Nat) (buf : Bytes) :
    Code.wlp .unknown (fun _ => OwnOnly r) (r.writeAt offset buf) (fun _ _ => True) h := by
  have closed {c : Core δ} {parent : Option (ParentView δ)} {G : List (Event (Op δ) Op.Res) → Op δ → Prop}
      (shut : c.writable_ = false) :
      Code.wlp .unknown G (c.writeAt parent offset buf) (fun _ _ => True) h := by
    unfold Core.writeAt
    split
    · exact Code.wlp_fail
    · rw [shut]
      exact Code.wlp_fail
  cases r with
  | above c p =>
      have shut : c.writable_ = false := by
        by_contra open_
        have := (reader.alone (Bool.eq_true_of_not_eq_false open_)).2
        cases this
      exact closed shut
  | base c =>
      cases writable : c.writable_ with
      | false => exact closed writable
      | true =>
          have lets (h : List (Event (Op δ) Op.Res)) (op : ImageOp) : OwnOnly (.base c) (.on c.dev op) :=
            Or.inr ⟨writable, op, rfl⟩
          cases kind : c.footer.diskType with
          | dynamic =>
              exact Code.wlp_mono (writeAt_ordered c (fun h op _ => lets h op) offset buf kind h)
                fun _ _ _ => trivial
          | fixed =>
              change Code.wlp _ _ (c.writeAt none offset buf) _ h
              unfold Core.writeAt
              split
              · exact Code.wlp_fail
              split
              · exact Code.wlp_fail
              simp only
              split
              · exact Code.wlp_pure trivial
              refine Code.wlp_bind (Code.wlp_lift fun stop _ => ?_)
              split
              · exact Code.wlp_fail
              rw [kind]
              exact Code.wlp_bind (ask_wlp (lets h _) fun r => Code.wlp_lift fun _ _ => trivial)
          | differencing =>
              have shut : c.writable_ = false := by
                simp [Core.writable_, kind]
              exact absurd (writable.symm.trans shut) Bool.noConfusion

theorem Uses.own (reader : ReaderOf dev wr r) (uses : Uses R r s t s₁) : ∀ e ∈ t, OwnOnly r e.op := by
  have events {α : Type} {c : Io δ α} {Q : α → List (Event (Op δ) Op.Res) → Prop} {s₁ s₂ : σ}
      {t : List (Event (Op δ) Op.Res)} {p : Io δ α}
      (h : Code.wlp .unknown (fun _ => OwnOnly r) c Q []) (run : Prog.Runs R c s₁ t p s₂) :
      ∀ e ∈ t, OwnOnly r e.op :=
    Prog.wp_events h run.unknown fun _ _ own => own
  induction uses with
  | opened => nofun
  | read before run ih =>
      intro e member
      rcases List.mem_append.mp member with earlier | now
      · exact ih e earlier
      · exact Or.inl ((readAt_calm r _ _).events run e now)
  | write before run ih =>
      intro e member
      rcases List.mem_append.mp member with earlier | now
      · exact ih e earlier
      · exact events (writeAt_own reader _ _) run e now
  | flush before run ih =>
      intro e member
      rcases List.mem_append.mp member with earlier | now
      · exact ih e earlier
      · have looks : r.flushWrites.Asks Calm := by
          unfold VhdReader.flushWrites
          split
          · exact Code.asks_pure _
          · exact (Code.asks_perform (calm_quiet .flush trivial)).bind fun _ => Code.asks_lift _
        exact Or.inl (looks.events run e now)

/-- Whatever the devices and the file system answer, of all files an open and the calls
    on its reader touch only the one that was named is altered, and only by a reader that
    may write and has no parent; every other file is opened for reading. -/
theorem only_the_named_file_is_altered
    (opened : Prog.Runs R (openAs dev wr (some path)) s t (.ret (.ok r)) s₁) (uses : Uses R r s₁ t' s₂) :
    ∃ t₁, t = ⟨.openFile path wr, (.ok r.core.dev : Except FsCoreError δ)⟩ :: t₁ ∧
      ∀ e ∈ t₁ ++ t', (∀ path' wr', e.op = .openFile path' wr' → wr' = false) ∧
        (e.op.Alters → (∃ op, e.op = .on r.core.dev op) ∧ wr = true ∧ r.parent = none) := by
  have way : openAs dev wr (some path) = (do
      let answer : Except FsCoreError δ ← Code.perform (Op.openFile path wr)
      let dev ← lifted answer
      openInner maxParentDepth wr dev (some path) : Io δ (VhdReader δ)) := by
    cases wr <;> rfl
  rw [way] at opened
  obtain ⟨answer, x, rest, rfl, inner⟩ : ∃ (dev' : δ) (x : σ) (t₁ : List (Event (Op δ) Op.Res)),
      t = ⟨.openFile path wr, (.ok dev' : Except FsCoreError δ)⟩ :: t₁ ∧
        Prog.Runs R (openInner maxParentDepth wr dev' (some path)) x t₁ (.ret (.ok r)) s₁ := by
    cases opened with
    | @step _ _ _ answer x t₁ _ _ allowed run =>
        cases (answer : Except FsCoreError δ) with
        | error e => cases run
        | ok dev' => exact ⟨dev', x, t₁, rfl, run⟩
  have reader : ReaderOf answer wr r := by
    have reads : Code.wlp .unknown (fun _ => Calm) (openInner maxParentDepth wr answer (some path))
        (fun r _ => ReaderOf answer wr r) [] := openInner_reader
    exact Prog.wp_finished reads inner.unknown r rfl
  have same := reader.dev
  subst same
  refine ⟨rest, rfl, fun e member => ?_⟩
  have own : OwnOnly r e.op := by
    rcases List.mem_append.mp member with opening | using_
    · exact Or.inl (openInner_calm.events inner e opening)
    · exact uses.own reader e using_
  rcases own with calm | ⟨writable, op, is⟩
  · refine ⟨fun path' wr' is => ?_, fun alters => absurd alters calm.still⟩
    rw [is] at calm
    exact calm
  · refine ⟨fun path' wr' other => ?_, fun _ => ⟨⟨op, is⟩, reader.alone writable⟩⟩
    rw [is] at other
    cases other

end Own

section Beside

variable {f : Faults} {w w' : World} {dev : Nat} {op : Op Nat} {r : op.Res}

theorem World.handler_spares (known : dev < w.next)
    (spares : op.Alters → ∃ own o, own ≠ dev ∧ op = .on own o) (stepped : handler f w op r w') :
    dev < w'.next ∧ (w'.image dev).disk = (w.image dev).disk := by
  cases op with
  | on own o =>
      obtain ⟨im, stepped, rfl⟩ := stepped
      refine ⟨known, ?_⟩
      by_cases here : own = dev
      · subst here
        rw [image_put]
        refine Faults.handler_clean (fun alters => ?_) stepped
        obtain ⟨_, _, other, ⟨⟩⟩ := spares alters
        exact other rfl
      · rw [image_put_ne (Ne.symm here)]
  | pathExists path =>
      obtain ⟨-, rfl⟩ := stepped
      exact ⟨known, rfl⟩
  | openFile path wr =>
      rcases stepped with ⟨d, -, -, rfl⟩ | ⟨-, rfl⟩
      · exact ⟨Nat.lt_succ_of_lt known, by rw [image_opening_ne (Nat.ne_of_lt known)]⟩
      · exact ⟨known, rfl⟩
  | createFile path =>
      obtain ⟨_, _, _, ⟨⟩⟩ := spares trivial

theorem World.runs_spare {α : Type} {p p' : Io Nat α} {t : List (Event (Op Nat) Op.Res)}
    (run : Prog.Runs (handler f) p w t p' w') (known : dev < w.next)
    (spares : ∀ e ∈ t, e.op.Alters → ∃ own o, own ≠ dev ∧ e.op = .on own o) :
    dev < w'.next ∧ (w'.image dev).disk = (w.image dev).disk :=
  (run.restrict (P := fun op _ => op.Alters → ∃ own o, own ≠ dev ∧ op = .on own o) spares).keeps
    (I := fun x => dev < x.next ∧ (x.image dev).disk = (w.image dev).disk)
    (fun _ _ _ _ stepped kept =>
      have step := handler_spares kept.1 stepped.2 stepped.1
      ⟨step.1, step.2.trans kept.2⟩) ⟨known, rfl⟩

/-- The delta and its parent, each behind a handle already. -/
def pairInUse : World :=
  { pair with
    image dev :=
      if dev = 0 then ⟨deltaDisk, some [4, batUnallocated], some 3584⟩
      else ⟨baseDisk, some [4], some 3072⟩
    next := 2 }

/-- The parent, opened once more to be written: the bytes go to its new handle, and
    the files behind the two others stay. -/
theorem base_is_written_apart : ∃ (r : VhdReader Nat) (w w' : World)
    (t t' : List (Event (Op Nat) Op.Res)),
    Prog.Runs (World.handler .none) (openAs 0 true (some [.normal ['b', 'a', 's', 'e']])) pairInUse t
      (.ret (.ok r)) w ∧
    Prog.Runs (World.handler .none) (r.writeAt 100 [1, 2, 3]) w t' (.ret (.ok ())) w' ∧
    r.core.dev = 2 ∧ (∀ e ∈ t ++ t', e.op.Alters → ∃ op, e.op = .on 2 op) ∧
    (w'.image 2).disk.read 2659 5 = [7, 1, 2, 3, 7] ∧
    (w'.image 0).disk = deltaDisk ∧ (w'.image 1).disk = baseDisk := by
  let r : VhdReader Nat := .base (baseLayout.core 2 true false)
  let w : World := (pairInUse.opening baseDisk).put 2 ⟨baseDisk, some [4], some 3072⟩
  obtain ⟨t, opened⟩ : ∃ t, Prog.Runs (World.handler .none)
      (openAs 0 true (some [.normal ['b', 'a', 's', 'e']])) pairInUse t (.ret (.ok r)) w := by
    have table : baseLayout.table baseDisk = [4] := by decide +kernel
    have opened := World.openFile_ideal (w := pairInUse) [.normal ['b', 'a', 's', 'e']] 0 true rfl
      baseDisk_opens rfl
    rw [table] at opened
    exact opened
  obtain ⟨t', wrote⟩ := Prog.run_runs World.idealStep (World.idealStep_allowed .none)
    (r.writeAt 100 [1, 2, 3]) w
  have done : ((r.writeAt 100 [1, 2, 3]).run World.idealStep w).1 = .ok () := by decide +kernel
  have bytes : (((r.writeAt 100 [1, 2, 3]).run World.idealStep w).2.image 2).disk.read 2659 5 =
      [7, 1, 2, 3, 7] := by decide +kernel
  generalize (r.writeAt 100 [1, 2, 3]).run World.idealStep w = ended at wrote done bytes
  obtain ⟨out, w'⟩ := ended
  obtain rfl : out = .ok () := done
  obtain ⟨t₁, is, own⟩ := only_the_named_file_is_altered opened (Uses.write .opened wrote)
  have altered : ∀ e ∈ t ++ t', e.op.Alters → ∃ op, e.op = .on 2 op := by
    subst is
    intro e member alters
    cases member with
    | head => exact absurd alters id
    | tail _ member => exact ((own e member).2 alters).1
  have kept {dev : Nat} (known : dev < 2) : (w'.image dev).disk = (pairInUse.image dev).disk := by
    have apart : ∀ e ∈ t ++ t', e.op.Alters → ∃ own o, own ≠ dev ∧ e.op = .on own o :=
      fun e member alters => by
        obtain ⟨op, is⟩ := altered e member alters
        exact ⟨2, op, Nat.ne_of_gt known, is⟩
    obtain ⟨known, same⟩ := World.runs_spare opened known fun e member =>
      apart e (List.mem_append_left _ member)
    obtain ⟨-, again⟩ := World.runs_spare wrote known fun e member =>
      apart e (List.mem_append_right _ member)
    exact again.trans same
  exact ⟨r, w, w', t, t', opened, wrote, rfl, altered, bytes, kept (by decide), kept (by decide)⟩

end Beside

end ImgVhd
