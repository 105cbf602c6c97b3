import ImgVhd.Foundation.Settles
import ImgVhd.Opening.Inner

/-! # Opening over unruly answers

Nothing is assumed of the devices and the file system but what the types promise.
The contents may be others at every look, a device may lie about its length, an
operation may fail at any time, and a handle may be handed out twice. The open
still settles, on a reader whose arithmetic cannot overflow.
-/

namespace ImgVhd

open Foundation

/-- What the types promise of an answer. A buffer is filled whole, a table holds
    words, and no read reaches the last sector below `2 ^ 64`. -/
def ImageOp.Typed : (op : ImageOp) → op.Res → Prop
  | .readAt off len, r => ∀ bytes, r = (.ok bytes : Except FsCoreError Bytes) →
      bytes.length = len ∧ off + len ≤ 2 ^ 64 - sectorSize
  | .lockBat, r => ∀ bat, r = some bat → ∀ e ∈ bat, e < 2 ^ 32
  | .fetchBat, r => ∀ bat, r = some bat → ∀ e ∈ bat, e < 2 ^ 32
  | _, _ => True

def Op.Typed {δ : Type} : (op : Op δ) → op.Res → Prop
  | .on _ op, r => op.Typed r
  | _, _ => True

/-- Each answer is of its type. -/
def Unruly {σ δ : Type} (R : Handler σ (Op δ) Op.Res) : Prop :=
  ∀ s op r s', R s op r s' → op.Typed r

section Unruly

variable {σ δ : Type} {R : Handler σ (Op δ) Op.Res} {dev : δ}

theorem devRead_settles (unruly : Unruly R) {off len : Nat} :
    Code.Settles R (devRead dev off len)
      fun bytes => bytes.length = len ∧ off + len ≤ 2 ^ 64 - sectorSize := by
  refine Code.settles_bind (Code.settles_perform fun s r s' stepped => unruly s _ r s' stepped)
    fun r typed => ?_
  cases r with
  | ok bytes => exact Code.settles_pure (typed bytes rfl)
  | error e => exact Code.settles_fail

theorem devWrite_settles {role : WriteRole} {off : Nat} {bytes : Bytes} :
    Code.Settles R (devWrite dev role off bytes) fun _ => True := by
  refine Code.settles_bind (Code.settles_perform fun _ _ _ _ => trivial) fun r _ => ?_
  cases r with
  | ok u => exact Code.settles_pure trivial
  | error e => exact Code.settles_fail

theorem devFlush_settles : Code.Settles R (devFlush dev) fun _ => True := by
  refine Code.settles_bind (Code.settles_perform fun _ _ _ _ => trivial) fun r _ => ?_
  cases r with
  | ok u => exact Code.settles_pure trivial
  | error e => exact Code.settles_fail

theorem checkedAdd_settles {β : Type} {e : Error} {a b : Nat} {f : Nat → Io δ β} {Q : β → Prop}
    (rest : ∀ c < 2 ^ 64, c = a + b → Code.Settles R (f c) Q) :
    Code.Settles R ((liftM (checkedAdd e a b : Checked Nat) : Io δ Nat) >>= f) Q := by
  by_cases fits : a + b < 2 ^ 64
  · rw [checkedAdd_of_lt fits, Code.lift_ok_bind]
    exact rest _ fits rfl
  · rw [checkedAdd, if_neg fits]
    exact Code.settles_fail

/-- Whatever is found parses, and is as long as a footer. -/
theorem readFooter_settles (unruly : Unruly R) {devSize : Nat} :
    Code.Settles R (readFooter dev devSize)
      fun found => found.bytes.length = footerSize ∧ Footer.parse found.bytes = .ok found.footer := by
  unfold readFooter
  refine Code.settles_bind (devRead_settles unruly) ?_
  rintro bytes ⟨whole, -⟩
  rcases attempt_parse bytes with ⟨footer, parses, run⟩ | ⟨tailErr, -, run⟩
  · simp only [run, Code.lift_ok_bind]
    exact Code.settles_pure ⟨whole, parses⟩
  simp only [run, Code.lift_ok_bind]
  split
  · exact Code.settles_fail
  refine Code.settles_bind (Code.settles_perform fun s r s' stepped => unruly s _ r s' stepped)
    fun r typed => ?_
  cases r with
  | error e => exact Code.settles_fail
  | ok mirrorBytes =>
      obtain ⟨whole', -⟩ := typed mirrorBytes rfl
      simp only
      rcases attempt_parse mirrorBytes with ⟨mirror, parses, run'⟩ | ⟨err, -, run'⟩
      · rw [run', Code.lift_ok_bind]
        simp only
        split
        · exact Code.settles_pure ⟨whole', parses⟩
        · exact Code.settles_fail
      · rw [run', Code.lift_ok_bind]
        exact Code.settles_fail

/-! ## The tables -/

/-- What bounds a table is computed from what was read, so its sums fit. -/
theorem sparseTables_settled {tableEnd : Nat} {header : DynamicHeader} {bat : List Nat}
    (devSize : Nat) (found : FoundFooter) (parsed : header.Parsed)
    (headerFits : found.footer.dataOffset + dynHeaderSize ≤ 2 ^ 64 - sectorSize)
    (tableFits : tableEnd ≤ 2 ^ 64 - sectorSize) (words : ∀ e ∈ bat, e < 2 ^ 32) :
    (sparseTables devSize found header tableEnd bat).Settled ∧
      ∀ t, sparseTables devSize found header tableEnd bat = .ok t →
        t.header = header ∧ t.bitmapSize = header.bitmapSizeBytes ∧ t.Bounded := by
  have block := parsed.block.le_top
  have positive := parsed.block.pos
  have bitmap : header.bitmapSizeBytes ≤ 2 ^ 20 := bitmapSizeFor_le block
  have first (e : Error) : checkedAdd e found.footer.dataOffset dynHeaderSize =
      .ok (found.footer.dataOffset + dynHeaderSize) :=
    checkedAdd_of_lt (by unfold sectorSize at headerFits; omega)
  have second : (mul64 (divCeil (max footerSize (max (found.footer.dataOffset + dynHeaderSize) tableEnd))
      sectorSize) sectorSize : Checked Nat) = .ok (divCeil (max footerSize
        (max (found.footer.dataOffset + dynHeaderSize) tableEnd)) sectorSize * sectorSize) := by
    refine mul64_of_lt (Nat.lt_of_lt_of_le (divCeil_mul_lt (by decide)) ?_)
    have top : max footerSize (max (found.footer.dataOffset + dynHeaderSize) tableEnd) ≤
        2 ^ 64 - sectorSize := Nat.max_le.mpr ⟨by decide, Nat.max_le.mpr ⟨headerFits, tableFits⟩⟩
    unfold sectorSize at top ⊢
    omega
  have third (e : Error) : checkedAdd e header.bitmapSizeBytes header.blockSize =
      .ok (header.bitmapSizeBytes + header.blockSize) := checkedAdd_of_lt (by omega)
  unfold sparseTables
  simp only [first, second, third, Outcome.ok_bind]
  generalize divCeil _ sectorSize * sectorSize = dataStart
  generalize (if (found.fromMirror && !found.tailHasCookie) = true then devSize
    else devSize - footerSize) = dataEnd
  have some_ : 0 < header.bitmapSizeBytes + header.blockSize := by omega
  have small : header.bitmapSizeBytes + header.blockSize < 2 ^ 33 := by omega
  obtain ⟨good, bad⟩ := walkBat_eq dataStart dataEnd some_ small words
  by_cases believable : Placed dataStart dataEnd (header.bitmapSizeBytes + header.blockSize) bat ∧
      Spread hostOff Live (header.bitmapSizeBytes + header.blockSize) bat
  · obtain ⟨off, tail, -⟩ := recoveredTail_eq found.fromMirror (devSize - footerSize) small words
    rw [good believable, Outcome.ok_bind, tail, Outcome.ok_bind]
    refine ⟨trivial, ?_⟩
    rintro _ ⟨⟩
    exact ⟨rfl, rfl, small, fun e member => words e (mem_sortedBlocks.mp member).1⟩
  · obtain ⟨err, refused⟩ := bad believable
    rw [refused]
    exact ⟨trivial, nofun⟩

/-- What the open of a sparse image hands on makes a reader with a layout. -/
theorem openSparse_settles (unruly : Unruly R) {devSize : Nat} {found : FoundFooter}
    (whole : found.bytes.length = footerSize) (parses : Footer.parse found.bytes = .ok found.footer)
    (sparse : found.footer.diskType ≠ .fixed) :
    Code.Settles R (openSparse dev devSize found) fun t => t.Bounded ∧
      ∃ L : Layout, L.footer = found.footer ∧
        ∀ wr, sparseCore dev wr found t = L.core dev wr found.fromMirror := by
  unfold openSparse
  simp only
  split
  · exact Code.settles_fail
  split
  · exact Code.settles_fail
  refine Code.settles_bind (devRead_settles unruly) ?_
  rintro hdrBytes ⟨-, headerFits⟩
  refine Code.settles_lift_bind (DynamicHeader.parse_settled _) fun header parses' => ?_
  have parsed := DynamicHeader.parsed parses'
  have entries := parsed.entries
  have positive := parsed.block.pos
  rw [checkedMul_of_lt (by omega), Code.lift_ok_bind, if_neg (Nat.ne_of_gt positive)]
  split
  · exact Code.settles_fail
  rename_i enough
  have covers := (divCeil_le_iff positive).mp (Nat.not_lt.mp enough)
  refine checkedAdd_settles fun tableEnd tableFits is => ?_
  subst is
  split
  · exact Code.settles_fail
  refine Code.settles_bind (devRead_settles unruly) ?_
  rintro batBytes ⟨-, tableIn⟩
  have words : ∀ e ∈ decodeBat batBytes, e < 2 ^ 32 := fun _ => decodeBat_lt
  have computed := sparseTables_settled devSize found parsed headerFits tableIn words
  generalize sparseTables devSize found header _ _ = tables at computed ⊢
  obtain ⟨settled, made⟩ := computed
  refine Code.settles_mono (Code.settles_lift settled made) ?_
  rintro t ⟨same, bitmap, bounded⟩
  have fits : found.footer.dataOffset + dynHeaderSize < 2 ^ 64 :=
    Nat.lt_of_le_of_lt headerFits (by decide)
  let L : Layout := {
    footerBytes := found.bytes
    footer := found.footer
    header := header
    whole := whole
    parses := parses
    sparse := sparse
    parsed := parsed
    covers := covers
    tableFits := tableFits
    headerFits := fits }
  refine ⟨bounded, L, rfl, fun wr => ?_⟩
  unfold sparseCore
  rw [same, bitmap]
  rfl

/-! ## The readers -/

/-- The readers an open hands out. -/
inductive Formed : VhdReader δ → Prop where
  | fixed {dev wr found} (kind : found.footer.diskType = .fixed) : Formed (.base (fixedCore dev wr found))
  | dynamic {L : Layout} {dev wr fm} (kind : L.footer.diskType = .dynamic) :
      Formed (.base (L.core dev wr fm))
  | above {L : Layout} {dev wr fm p} (kind : L.footer.diskType = .differencing) (parent : Formed p) :
      Formed (.above (L.core dev wr fm) p)

/-- No chain of parents is deep enough to matter. -/
theorem openInner_settles (unruly : Unruly R) {depth : Nat} {wr : Bool} {how : Option Path} :
    Code.Settles R (openInner depth wr dev how) Formed := by
  induction depth generalizing wr dev how with
  | zero => exact Code.settles_fail
  | succ depth ih =>
      unfold openInner
      refine Code.settles_bind (Code.settles_perform fun _ _ _ _ => trivial) fun devSize _ => ?_
      split
      · exact Code.settles_fail
      refine Code.settles_bind (readFooter_settles unruly) ?_
      rintro found ⟨whole, parses⟩
      cases kind : found.footer.diskType with
      | fixed =>
          exact Code.settles_bind (Code.settles_perform fun _ _ _ _ => trivial) fun _ _ =>
            Code.settles_pure (.fixed kind)
      | dynamic =>
          have sparse : found.footer.diskType ≠ .fixed := by
            rw [kind]
            exact fun no => by cases no
          refine Code.settles_bind (openSparse_settles unruly whole parses sparse) ?_
          rintro t ⟨-, L, footer, core⟩
          refine Code.settles_bind (Code.settles_perform fun _ _ _ _ => trivial) fun _ _ =>
            Code.settles_pure ?_
          rw [core]
          exact .dynamic (by rw [footer, kind])
      | differencing =>
          have sparse : found.footer.diskType ≠ .fixed := by
            rw [kind]
            exact fun no => by cases no
          refine Code.settles_bind (openSparse_settles unruly whole parses sparse) ?_
          rintro t ⟨bounded, L, footer, core⟩
          rw [← footer]
          refine Code.settles_lift_bind (checkLocators_settled L.headerFits bounded) fun _ _ => ?_
          cases how with
          | none => exact Code.settles_fail
          | some child =>
              refine Code.settles_bind (P := Formed) ?_ fun parent formed => ?_
              · unfold openParent
                refine Code.settles_lift_bind (parentFileName_settled _) fun name _ => ?_
                refine Code.settles_bind (Code.settles_perform fun _ _ _ _ => trivial) fun there _ => ?_
                split
                · refine Code.settles_bind (Code.settles_perform fun _ _ _ _ => trivial) fun answer _ => ?_
                  cases answer with
                  | error e => exact Code.settles_fail
                  | ok dev' =>
                      refine Code.settles_lift_bind trivial fun dev'' _ => ?_
                      refine Code.settles_bind ih fun parent formed => ?_
                      unfold checkParentIdentity
                      split
                      · exact Code.settles_fail
                      · exact Code.settles_pure formed
                · exact Code.settles_fail
              · refine Code.settles_bind (Code.settles_perform fun _ _ _ _ => trivial) fun _ _ =>
                  Code.settles_pure ?_
                rw [core]
                exact .above (by rw [footer, kind]) formed

end Unruly

end ImgVhd
