import ImgVhd.Foundation.Liberal
import ImgVhd.Writing.Steps

/-! # The order of a write's operations

What a write flushes before what, whatever the device answers: a block is zeroed
when its room is flushed, and neither the tail nor the entry moves before its
zeros are. Nothing here depends on the bytes.
-/

namespace ImgVhd

open Foundation

/-- Operations that may change the length of the file. -/
def ImageOp.Resizes : ImageOp → Prop
  | .setLen _ => True
  | .fileSetLen _ => True
  | .fileWriteAll _ _ => True
  | _ => False

/-- Operations that may change the file. -/
def ImageOp.Alters : ImageOp → Prop
  | .writeAt _ _ _ => True
  | op => op.Resizes

/-- A flush that succeeded. -/
def ImageOp.Flushes : (op : ImageOp) → op.Res → Prop
  | .flush, r => r = (.ok () : Except FsCoreError Unit)
  | .fileSyncData, r => r = (.ok () : Except IoError Unit)
  | _, _ => False

section Order

variable {δ : Type}

def Op.Resizes : Op δ → Prop
  | .on _ op => op.Resizes
  | .createFile _ => True
  | _ => False

def Op.Alters : Op δ → Prop
  | .on _ op => op.Alters
  | .createFile _ => True
  | _ => False

def Flushed (e : Event (Op δ) Op.Res) : Prop :=
  match e with
  | ⟨.on _ op, r⟩ => op.Flushes r
  | _ => False

/-- The length is flushed. -/
abbrev Level : List (Event (Op δ) Op.Res) → Prop := Since Flushed Op.Resizes

/-- The whole file is flushed. -/
abbrev Clean : List (Event (Op δ) Op.Res) → Prop := Since Flushed Op.Alters

def Ordered (h : List (Event (Op δ) Op.Res)) : Op δ → Prop
  | .on _ (.writeAt .zero _ _) => Level h
  | .on _ (.writeAt (.batEntry _ _) _ _) => Clean h
  | .on _ (.setNextAllocOff _) => Clean h
  | _ => True

variable {h : List (Event (Op δ) Op.Res)} {dev : δ} {c : Core δ}

/-- A guard that lets through what is ordered on `dev`. -/
def Lets (dev : δ) (G : List (Event (Op δ) Op.Res) → Op δ → Prop) : Prop :=
  ∀ h op, Ordered h (.on dev op) → G h (.on dev op)

variable {G : List (Event (Op δ) Op.Res) → Op δ → Prop}

theorem ask_wlp {op : ImageOp} {Q : op.Res → List (Event (Op δ) Op.Res) → Prop}
    (guard : G h (.on dev op)) (done : ∀ r, Q r (⟨.on dev op, r⟩ :: h)) :
    Code.wlp .unknown G (ask dev op) Q h := by
  refine Code.wlp_perform guard ?_
  rintro r _ rfl
  exact done r

theorem devFlush_wlp (lets : Lets dev G) {Q : Unit → List (Event (Op δ) Op.Res) → Prop}
    (done : ∀ h', Clean h' → Q () h') : Code.wlp .unknown G (devFlush dev) Q h := by
  refine Code.wlp_bind (ask_wlp (lets _ _ trivial) fun r => Code.wlp_lift ?_)
  rintro ⟨⟩ is
  cases r with
  | error e => cases is
  | ok _ => exact done _ (Or.inl rfl)

theorem devWrite_wlp {role : WriteRole} {off : Nat} {bytes : Bytes}
    {Q : Unit → List (Event (Op δ) Op.Res) → Prop} (guard : G h (.on dev (.writeAt role off bytes)))
    (done : ∀ r, Q () (⟨.on dev (.writeAt role off bytes), r⟩ :: h)) :
    Code.wlp .unknown G (devWrite dev role off bytes) Q h :=
  Code.wlp_bind (ask_wlp guard fun r => Code.wlp_lift fun _ _ => done r)

theorem Clean.level (clean : Clean h) : Level h := by
  induction h with
  | nil => exact clean
  | cons e h ih =>
      rcases clean with flushed | ⟨still, before⟩
      · exact Or.inl flushed
      · refine Or.inr ⟨fun resizes => still ?_, ih before⟩
        obtain ⟨op, r⟩ := e
        cases op with
        | on dev op => cases op <;> first | exact resizes | exact resizes.elim
        | pathExists path => exact resizes
        | openFile path writable => exact resizes
        | createFile path => exact resizes

/-- Operations that are let through at any time. -/
def Free (G : List (Event (Op δ) Op.Res) → Op δ → Prop) (op : Op δ) : Prop := ∀ h, G h op

theorem lets_ordered : Lets dev Ordered := fun _ _ ordered => ordered

theorem Lets.free (lets : Lets dev G) (op : ImageOp) (routine : ∀ h, Ordered h (.on dev op)) :
    Free G (.on dev op) := fun h => lets h op (routine h)

theorem free_wlp {ε α : Type} {code : Code ε (Op δ) Op.Res α} (asks : code.Asks (Free G))
    {Q : α → List (Event (Op δ) Op.Res) → Prop} (done : ∀ a h', Q a h') :
    Code.wlp .unknown G code Q h :=
  Code.wlp_mono (Code.wlp_asks (I := fun _ => True) asks (fun h _ free _ => free h)
    (fun _ _ _ _ _ _ _ => trivial) trivial) fun a h' _ => done a h'

theorem devWrite_free {role : WriteRole} {off : Nat} {bytes : Bytes}
    (free : Free G (.on dev (.writeAt role off bytes))) : (devWrite dev role off bytes).Asks (Free G) :=
  (Code.asks_perform free).bind fun _ => Code.asks_lift _

theorem devRead_free (lets : Lets dev G) {off len : Nat} : (devRead dev off len).Asks (Free G) :=
  (Code.asks_perform (lets.free (.readAt off len) fun _ => trivial)).bind fun _ => Code.asks_lift _

theorem devGrowTo_free (lets : Lets dev G) {stop : Nat} : (devGrowTo dev stop).Asks (Free G) := by
  apply (Code.asks_perform (lets.free .sizeBytes fun _ => trivial)).bind
  intro size
  split
  · exact Code.asks_pure _
  · exact (Code.asks_perform (lets.free (.setLen stop) fun _ => trivial)).bind fun _ => Code.asks_lift _

theorem writeFooterCopy_free (lets : Lets dev G) {off : Nat} {footerBytes : Bytes} :
    (writeFooterCopy dev off footerBytes).Asks (Free G) := by
  apply (Code.asks_perform (lets.free (.writeAt .footer off footerBytes) fun _ => trivial)).bind
  intro first
  cases first with
  | ok _ => exact Code.asks_pure _
  | error e =>
      apply (Code.asks_perform (lets.free (.writeAt .footer off footerBytes) fun _ => trivial)).bind
      intro again
      cases again with
      | ok _ => exact Code.asks_pure _
      | error _ => exact Code.asks_fail _

theorem definePartialSector_free (lets : Lets c.dev G) {blockSize hostOff blockIdx inBlock len sector : Nat} {bitmap : Bytes} :
    (definePartialSector c none blockSize bitmap hostOff blockIdx inBlock len sector).Asks (Free G) := by
  have fill {off : Nat} {bytes : Bytes} : (devWrite c.dev .fill off bytes).Asks (Free G) :=
    devWrite_free (lets.free _ fun _ => trivial)
  unfold definePartialSector
  refine (Code.asks_lift _).bind fun present => ?_
  split
  · exact Code.asks_pure _
  refine (Code.asks_lift _).bind fun start => (Code.asks_lift _).bind fun stop => ?_
  simp only
  split
  · exact Code.asks_pure _
  refine (Code.asks_lift _).bind fun _ => (Code.asks_lift _).bind fun _ =>
    (Code.asks_pure _).bind fun zeros => (Code.asks_lift _).bind fun _ =>
      (Code.asks_lift _).bind fun at_ => ?_
  have behind : Code.Asks (Free G) (if min (stop - start) sectorSize < sectorSize then do
      let after ← liftM (sliceOf zeros (min (stop - start) sectorSize) sectorSize : Checked Bytes)
      let afterOff ← liftM (add64 at_ (min (stop - start) sectorSize) : Checked Nat)
      devWrite c.dev WriteRole.fill afterOff after
    else pure ()) := by
    split
    · exact (Code.asks_lift _).bind fun _ => (Code.asks_lift _).bind fun _ => fill
    · exact Code.asks_pure _
  split
  · exact (Code.asks_lift _).bind fun _ => fill.bind fun _ => behind
  · exact behind

theorem definePartialSectors_free (lets : Lets c.dev G) {hostOff blockIdx inBlock len : Nat} :
    (definePartialSectors c none hostOff blockIdx inBlock len).Asks (Free G) := by
  unfold definePartialSectors
  refine (Code.asks_lift _).bind fun header => (devRead_free lets).bind fun _ =>
    (Code.asks_lift _).bind fun _ => (Code.asks_lift _).bind fun _ =>
      (definePartialSector_free lets).bind fun _ => ?_
  split
  · exact definePartialSector_free lets
  · exact Code.asks_pure _

theorem setBitmapRange_free (lets : Lets c.dev G) {hostOff inBlock len : Nat} :
    (setBitmapRange c hostOff inBlock len).Asks (Free G) :=
  (devRead_free lets).bind fun _ => (Code.asks_lift _).bind fun _ => (Code.asks_lift _).bind fun _ =>
    (Code.asks_lift _).bind fun _ => devWrite_free (lets.free _ fun _ => trivial)

theorem zeroRange_wlp (lets : Lets dev G) {off blockTotal : Nat} {Q : Unit → List (Event (Op δ) Op.Res) → Prop}
    (level : Level h) (done : ∀ h', Q () h') :
    Code.wlp .unknown G (zeroRange dev off blockTotal) Q h := by
  refine Code.wlp_bind (Code.wlp_whileLoop (fun _ h => Level h) ?turn ?stop _ _ _ level)
  case turn =>
    intro written h level _
    refine Code.wlp_bind (Code.wlp_lift fun at_ _ => Code.wlp_bind (devWrite_wlp (lets _ _ level) fun r => ?_))
    exact Code.wlp_pure (Or.inr ⟨id, level⟩)
  case stop =>
    exact fun _ h' _ _ => Code.wlp_pure (done h')

set_option maxRecDepth 1024 in
theorem allocateBlockLocked_wlp (lets : Lets c.dev G) {blockIdx : Nat} {Q : Nat → List (Event (Op δ) Op.Res) → Prop}
    (done : ∀ off h', Q off h') :
    Code.wlp .unknown G (allocateBlockLocked c blockIdx) Q h := by
  unfold allocateBlockLocked
  refine Code.wlp_bind (Code.wlp_lift fun header _ => Code.wlp_bind (Code.wlp_lift fun total _ =>
    Code.wlp_bind (ask_wlp (lets _ _ trivial) fun tail => Code.wlp_bind (Code.wlp_lift fun off _ => ?_))))
  refine Code.wlp_bind (Code.wlp_lift fun value _ => ?_)
  refine Code.wlp_bind (Code.wlp_lift fun footerOff _ => ?_)
  refine Code.wlp_bind (Code.wlp_lift fun stop _ => ?_)
  refine Code.wlp_bind (free_wlp (devGrowTo_free lets) fun _ _ => ?_)
  refine Code.wlp_bind (free_wlp (writeFooterCopy_free lets) fun _ _ => ?_)
  refine Code.wlp_bind (devFlush_wlp lets fun h₁ clean₁ => ?_)
  refine Code.wlp_bind (zeroRange_wlp lets clean₁.level fun _ => ?_)
  refine Code.wlp_bind (devFlush_wlp lets fun h₂ clean₂ => ?_)
  refine Code.wlp_bind (ask_wlp (lets _ _ clean₂) fun r => ?_)
  refine Code.wlp_bind (Code.wlp_lift fun _ _ => Code.wlp_bind (Code.wlp_lift fun entryOff _ => ?_))
  refine Code.wlp_bind (devWrite_wlp (lets _ _ (Or.inr ⟨id, clean₂⟩)) fun _ => ?_)
  refine Code.wlp_bind (devFlush_wlp lets fun h₃ _ =>
    Code.wlp_bind (ask_wlp (lets _ _ trivial) fun _ => ?_))
  exact Code.wlp_pure (done off _)

theorem writeBlockLocked_wlp (lets : Lets c.dev G) {held : Option (List Nat)} {blockIdx inBlock : Nat} {src : Bytes}
    {Q : Unit → List (Event (Op δ) Op.Res) → Prop} (done : ∀ h', Clean h' → Q () h') :
    Code.wlp .unknown G (writeBlockLocked c none held blockIdx inBlock src) Q h := by
  have fill (hostOff : Nat) (h : List (Event (Op δ) Op.Res)) : Code.wlp .unknown G (do
      definePartialSectors c none hostOff blockIdx inBlock src.length
      let bitmapEnd ← (add64 hostOff c.bitmapSize : Checked Nat)
      let dataOff ← (add64 bitmapEnd inBlock : Checked Nat)
      devWrite c.dev .payload dataOff src
      setBitmapRange c hostOff inBlock src.length
      devFlush c.dev) Q h := by
    refine Code.wlp_bind (free_wlp (definePartialSectors_free lets) fun _ _ => ?_)
    refine Code.wlp_bind (Code.wlp_lift fun _ _ => Code.wlp_bind (Code.wlp_lift fun _ _ => ?_))
    refine Code.wlp_bind (devWrite_wlp (lets _ _ trivial) fun _ => ?_)
    exact Code.wlp_bind (free_wlp (setBitmapRange_free lets) fun _ _ => devFlush_wlp lets done)
  unfold writeBlockLocked
  refine Code.wlp_bind (Code.wlp_lift fun bat _ => ?_)
  split
  · exact Code.wlp_fail
  refine Code.wlp_bind (Code.wlp_lift fun entry _ => ?_)
  split
  · exact Code.wlp_bind (allocateBlockLocked_wlp lets fun off h' => fill off h')
  · exact Code.wlp_bind (Code.wlp_lift fun off _ => fill off h)

/-- A write keeps the order, and one that succeeds leaves the file flushed. -/
theorem writeAt_ordered (c : Core δ) (lets : Lets c.dev G) (offset : Nat) (buf : Bytes)
    (dynamic : c.footer.diskType = .dynamic)
    (h : List (Event (Op δ) Op.Res)) :
    Code.wlp .unknown G ((VhdReader.base c).writeAt offset buf)
      (fun _ h' => buf = [] ∨ Clean h') h := by
  change Code.wlp .unknown G (c.writeAt none offset buf) _ h
  unfold Core.writeAt
  split
  · exact Code.wlp_fail
  split
  · exact Code.wlp_fail
  simp only
  split
  · rename_i empty
    exact Code.wlp_pure (Or.inl (List.length_eq_zero_iff.mp empty))
  rename_i some_
  refine Code.wlp_bind (Code.wlp_lift fun stop _ => ?_)
  split
  · exact Code.wlp_fail
  rw [dynamic]
  simp only
  refine Code.wlp_bind (Code.wlp_lift fun header _ => Code.wlp_bind (Code.wlp_lift fun mask _ =>
    Code.wlp_bind (Code.wlp_lift fun stop bound => ?_)))
  have bound : stop = offset + buf.length := by
    unfold add64 at bound
    split at bound
    · exact (Outcome.ok.inj bound).symm
    · cases bound
  -- a turn moves the cursor behind a flush
  refine Code.wlp_bind (Code.wlp_whileLoop
    (fun t h' => t.cursor = offset ∨ Clean h') ?turn ?done _ _ _ (Or.inl rfl))
  case turn =>
    intro t h' _ _
    refine Code.wlp_bind (Code.wlp_lift fun _ _ => Code.wlp_bind (Code.wlp_lift fun _ _ => ?_))
    refine Code.wlp_bind (ask_wlp (lets _ _ trivial) fun held => Code.wlp_bind (Code.wlp_ensuring
      (fun _ => lets _ _ trivial) ?_))
    refine Code.wlp_bind (Code.wlp_lift fun src _ => writeBlockLocked_wlp lets fun h₁ clean => ?_)
    rintro r _ rfl
    refine Code.wlp_bind (Code.wlp_lift fun _ _ => Code.wlp_bind (Code.wlp_lift fun _ _ => ?_))
    exact Code.wlp_pure (Or.inr (Or.inr ⟨id, clean⟩))
  case done =>
    intro t h' reached stop_
    have stop_ := of_decide_eq_false stop_
    refine Code.wlp_pure (reached.elim (fun start => ?_) Or.inr)
    have empty : buf.length = 0 := by omega
    exact absurd empty some_

end Order

end ImgVhd
