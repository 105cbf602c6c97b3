import ImgVhd.Opening.Walk

/-! # What an open accepts

`Opens` says which bytes open as a sparse image, with which layout, data area and
tail. The open is specified over any meaning of the interface under which the
device can be seen to hold some bytes, so one specification serves a single image
and a file system of them.
-/

namespace ImgVhd

open Foundation

/-! ## The footer -/

def tailSector (d : ByteStore) : Bytes := d.read (d.size - footerSize) footerSize

def tailHasCookie (d : ByteStore) : Bool :=
  decide ((tailSector d).take footerCookie.length = footerCookie)

/-- Which footer an open goes by. -/
inductive FooterOf (d : ByteStore) : FoundFooter → Prop where
  | tail {footer} (parses : Footer.parse (tailSector d) = .ok footer) :
      FooterOf d ⟨footer, tailSector d, false, tailHasCookie d⟩
  | mirror {footer err} (damaged : Footer.parse (tailSector d) = .err err)
      (long : 2 * footerSize ≤ d.size) (parses : Footer.parse (d.read 0 footerSize) = .ok footer)
      (sparse : footer.diskType ≠ .fixed) :
      FooterOf d ⟨footer, d.read 0 footerSize, true, tailHasCookie d⟩

theorem FooterOf.parses {d : ByteStore} {found : FoundFooter} (h : FooterOf d found) :
    found.bytes.length = footerSize ∧ Footer.parse found.bytes = .ok found.footer := by
  cases h with
  | tail parses => exact ⟨by simp only [tailSector, ByteStore.length_read], parses⟩
  | mirror damaged long parses sparse => exact ⟨by simp only [ByteStore.length_read], parses⟩

theorem FooterOf.damaged {d : ByteStore} {found : FoundFooter} (h : FooterOf d found)
    (mirror : found.fromMirror = true) :
    (∃ err, Footer.parse (tailSector d) = .err err) ∧ d.read 0 512 = found.bytes := by
  cases h with
  | tail parses => cases mirror
  | mirror damaged long parses sparse => exact ⟨⟨_, damaged⟩, rfl⟩

theorem FooterOf.at_tail {d : ByteStore} {found : FoundFooter} (h : FooterOf d found)
    (tail : found.fromMirror = false) : tailSector d = found.bytes := by
  cases h with
  | tail parses => rfl
  | mirror damaged long parses sparse => cases tail

theorem parse_without_cookie {d : ByteStore} (absent : tailHasCookie d = false) :
    Footer.parse (tailSector d) = .err .notVhd := by
  have different : (tailSector d).take 8 ≠ footerCookie := of_decide_eq_false absent
  rw [Footer.parse_eq (by unfold tailSector; rw [ByteStore.length_read]), if_pos different]

theorem FooterOf.unique {d : ByteStore} {found found' : FoundFooter} (h : FooterOf d found)
    (h' : FooterOf d found') : found = found' := by
  cases h with
  | tail parses =>
      cases h' with
      | tail parses' =>
          rw [parses] at parses'
          cases parses'
          rfl
      | mirror damaged long parses' sparse =>
          rw [parses] at damaged
          cases damaged
  | mirror damaged long parses sparse =>
      cases h' with
      | tail parses' =>
          rw [damaged] at parses'
          cases parses'
      | mirror damaged' long' parses' sparse' =>
          rw [parses] at parses'
          cases parses'
          rfl

section Sees

variable {σ δ : Type}

/-- In state `s` the device `dev` holds `d`: its size and its reads say so, and
    change nothing. Reads may be refused when `Lost`. -/
structure Sees (R : Handler σ (Op δ) Op.Res) (G : σ → Op δ → Prop) (dev : δ) (s : σ)
    (d : ByteStore) (Lost : Prop) : Prop where
  asksSize : G s (.on dev .sizeBytes)
  size : ∀ r s', R s (.on dev .sizeBytes) r s' → r = d.size ∧ s' = s
  asksRead : ∀ off len, G s (.on dev (.readAt off len))
  read : ∀ off len r s', R s (.on dev (.readAt off len)) r s' → s' = s ∧
    ((off + len ≤ d.size ∧ r = (.ok (d.read off len) : Except FsCoreError Bytes)) ∨
      ((d.size < off + len ∨ Lost) ∧ ∃ e, r = (.error e : Except FsCoreError Bytes)))

variable {R : Handler σ (Op δ) Op.Res} {G : σ → Op δ → Prop} {dev : δ} {s : σ} {d : ByteStore}
  {Lost : Prop} {E : Error → σ → Prop}

theorem Sees.smaller {H : Handler σ (Op δ) Op.Res} {Lost' : Prop} (sees : Sees R G dev s d Lost)
    (smaller : ∀ s op r s', H s op r s' → R s op r s') (lost : Lost → Lost') :
    Sees H G dev s d Lost' where
  asksSize := sees.asksSize
  size r s' stepped := sees.size r s' (smaller _ _ _ _ stepped)
  asksRead := sees.asksRead
  read off len r s' stepped := by
    obtain ⟨same, answer⟩ := sees.read off len r s' (smaller _ _ _ _ stepped)
    exact ⟨same, answer.imp_right fun ⟨why, refused⟩ => ⟨why.imp_right lost, refused⟩⟩

theorem Sees.devRead_wp (sees : Sees R G dev s d Lost) {off len : Nat} {Q : Bytes → σ → Prop}
    (done : off + len ≤ d.size → Q (d.read off len) s)
    (failed : ∀ e, ¬ e.IsCorrupt → d.size < off + len ∨ Lost → E e s) :
    Code.wp R G (devRead dev off len) Q E s := by
  refine (Code.wp_bind _ _).mpr ((Code.wp_perform _).mpr ⟨sees.asksRead off len, ?_⟩)
  intro r s' answered
  obtain ⟨rfl, ⟨inside, rfl⟩ | ⟨why, e, rfl⟩⟩ := sees.read _ _ _ _ answered
  · exact done inside
  · exact failed _ (fsCoreToVhdError_not_corrupt e) why

theorem attempt_parse (bytes : Bytes) :
    (∃ footer, Footer.parse bytes = .ok footer ∧ attempt (Footer.parse bytes) = .ok (.ok footer)) ∨
    (∃ err, Footer.parse bytes = .err err ∧ attempt (Footer.parse bytes) = .ok (.error err)) := by
  have settled := Footer.parse_settled bytes
  cases parsed : Footer.parse bytes with
  | ok footer => exact Or.inl ⟨footer, rfl, rfl⟩
  | err err => exact Or.inr ⟨err, rfl, rfl⟩
  | panic => rw [parsed] at settled; exact settled.elim
  | outOfFuel => rw [parsed] at settled; exact settled.elim

/-- No footer to go by, when the tail does not parse and the mirror is no help. -/
theorem no_footer {err : Error} (damaged : Footer.parse (tailSector d) = .err err)
    (useless : 2 * footerSize ≤ d.size →
      ∀ footer, Footer.parse (d.read 0 footerSize) = .ok footer → footer.diskType = .fixed) :
    ∀ found, ¬ FooterOf d found := by
  intro found is
  cases is with
  | tail parses =>
      rw [damaged] at parses
      cases parses
  | mirror _ long parses sparse => exact sparse (useless long _ parses)

theorem readFooter_wp (sees : Sees R G dev s d Lost) (long : footerSize ≤ d.size) :
    Code.wp R G (readFooter dev d.size) (fun found s' => s' = s ∧ FooterOf d found)
      (fun e s' => s' = s ∧ ((Lost ∧ ¬ e.IsCorrupt) ∨ ∀ found, ¬ FooterOf d found)) s := by
  unfold readFooter
  refine (Code.wp_bind _ _).mpr (sees.devRead_wp ?_ ?_)
  case refine_2 =>
    rintro e other (outside | lost)
    · omega
    · exact ⟨rfl, Or.inl ⟨lost, other⟩⟩
  intro _
  change Code.wp R G (liftM (attempt (Footer.parse (tailSector d))) >>= _) _ _ s
  rcases attempt_parse (tailSector d) with ⟨footer, parses, run⟩ | ⟨tailErr, damaged, run⟩
  · rw [run, Code.lift_ok_bind]
    exact ⟨rfl, .tail parses⟩
  rw [run, Code.lift_ok_bind]
  simp only
  split
  · rename_i short
    exact ⟨rfl, Or.inr (no_footer damaged fun long' => absurd short (by omega))⟩
  rename_i mirrored
  refine (Code.wp_bind _ _).mpr ((Code.wp_perform _).mpr ⟨sees.asksRead _ _, ?_⟩)
  intro r s' answered
  obtain ⟨rfl, ⟨inside, rfl⟩ | ⟨outside | lost, e, rfl⟩⟩ := sees.read _ _ _ _ answered
  · simp only
    rcases attempt_parse (d.read 0 footerSize) with ⟨mirror, parses, run⟩ | ⟨err, unparsed, run⟩
    · rw [run, Code.lift_ok_bind]
      simp only
      split
      · rename_i sparse
        refine ⟨rfl, .mirror damaged (Nat.not_lt.mp mirrored) parses fun fixed => ?_⟩
        rw [fixed] at sparse
        simp at sparse
      · rename_i neither
        refine ⟨rfl, Or.inr (no_footer damaged fun _ footer parses' => ?_)⟩
        rw [parses] at parses'
        cases parses'
        cases kind : mirror.diskType with
        | fixed => rfl
        | dynamic => exact absurd (Or.inl kind) neither
        | differencing => exact absurd (Or.inr kind) neither
    · rw [run, Code.lift_ok_bind]
      refine ⟨rfl, Or.inr (no_footer damaged fun _ footer parses' => ?_)⟩
      rw [unparsed] at parses'
      cases parses'
  · omega
  · exact ⟨rfl, Or.inl ⟨lost, Footer.parse_not_corrupt
      (by unfold tailSector; rw [ByteStore.length_read]) damaged⟩⟩

/-! ## The tables -/

/-- `d` opens as a sparse image with this layout, data area and tail. -/
structure Opens (d : ByteStore) (L : Layout) (fromMirror : Bool) (dataEnd off : Nat) : Prop where
  footer : FooterOf d ⟨L.footer, L.footerBytes, fromMirror, tailHasCookie d⟩
  aligned : d.size % 512 = 0
  header : DynamicHeader.parse (d.read L.headerOffset dynHeaderSize) = .ok L.header
  headerEnd : L.headerEnd ≤ d.size
  tableEnd : L.tableEnd ≤ d.size
  stop : dataEnd =
    if (fromMirror && !tailHasCookie d) = true then d.size else d.size - footerSize
  placed : Placed L.dataStart dataEnd L.blockTotal (L.table d)
  spread : Spread hostOff Live L.blockTotal (L.table d)
  tail : TailOf fromMirror (d.size - footerSize) L.blockTotal (L.table d) off

def Layout.tables (L : Layout) (d : ByteStore) (dataEnd off : Nat) : SparseTables where
  header := L.header
  bat := L.table d
  bitmapSize := L.bitmapSize
  blockTotal := L.blockTotal
  tableEnd := L.tableEnd
  dataStart := L.dataStart
  dataEnd := dataEnd
  allocated := sortedBlocks (L.table d)
  nextAlloc := off

theorem Opens.size_ge {L : Layout} {fm : Bool} {dataEnd off : Nat} (h : Opens d L fm dataEnd off) :
    1024 ≤ d.size := by
  have stop := h.headerEnd
  unfold Layout.headerEnd dynHeaderSize at stop
  omega

theorem Opens.dataStart_le {L : Layout} (aligned : d.size % 512 = 0) (header : L.headerEnd ≤ d.size)
    (table : L.tableEnd ≤ d.size) : L.dataStart ≤ d.size := by
  have top : L.metadataEnd ≤ d.size := by
    have long : 1024 ≤ L.headerEnd := Nat.le_add_left _ _
    refine Nat.max_le.mpr ⟨?_, Nat.max_le.mpr ⟨header, table⟩⟩
    unfold footerSize
    omega
  exact L.dataStart_le aligned top

/-- What bounds the table is computed exactly, and the table is accepted when it
    can be believed. -/
theorem sparseTables_eq {L : Layout} (fm cookie : Bool) {dataEnd : Nat}
    (aligned : d.size % 512 = 0) (headerEnd : L.headerEnd ≤ d.size) (tableEnd : L.tableEnd ≤ d.size)
    (stop : dataEnd = if (fm && !cookie) = true then d.size else d.size - footerSize) :
    (Placed L.dataStart dataEnd L.blockTotal (L.table d) ∧
      Spread hostOff Live L.blockTotal (L.table d) →
      ∃ off, TailOf fm (d.size - footerSize) L.blockTotal (L.table d) off ∧
        sparseTables d.size ⟨L.footer, L.footerBytes, fm, cookie⟩ L.header L.tableEnd (L.table d) =
          .ok (L.tables d dataEnd off)) ∧
    (¬ (Placed L.dataStart dataEnd L.blockTotal (L.table d) ∧
      Spread hostOff Live L.blockTotal (L.table d)) →
      ∃ err, sparseTables d.size ⟨L.footer, L.footerBytes, fm, cookie⟩ L.header L.tableEnd
        (L.table d) = .err err) := by
  have diskLt := d.size_lt
  have start := Opens.dataStart_le aligned headerEnd tableEnd
  have total : L.bitmapSize + L.blockSize < 2 ^ 32 := L.blockTotal_lt
  have words : ∀ e ∈ L.table d, e < 2 ^ 32 := fun e member => L.table_lt member
  obtain ⟨good, bad⟩ := walkBat_eq L.dataStart dataEnd
    (Nat.lt_of_lt_of_le (by decide) L.blockTotal_pos)
    (Nat.lt_trans L.blockTotal_lt (by decide)) words
  have computed : sparseTables d.size ⟨L.footer, L.footerBytes, fm, cookie⟩ L.header L.tableEnd
      (L.table d) =
      walkBat (L.table d) L.dataStart dataEnd L.blockTotal >>= fun allocated =>
        recoveredTail fm (d.size - footerSize) L.blockTotal allocated >>= fun off =>
          .ok { L.tables d dataEnd off with allocated := allocated } := by
    have first (e : Error) : checkedAdd e L.footer.dataOffset dynHeaderSize = .ok L.headerEnd :=
      checkedAdd_of_lt L.headerFits
    have second : (mul64 (divCeil (max footerSize (max L.headerEnd L.tableEnd)) sectorSize)
        sectorSize : Checked Nat) = .ok L.dataStart :=
      mul64_of_lt (Nat.lt_of_le_of_lt start diskLt)
    have third (e : Error) : checkedAdd e L.header.bitmapSizeBytes L.header.blockSize =
        .ok L.blockTotal :=
      checkedAdd_of_lt (show L.bitmapSize + L.blockSize < 2 ^ 64 by omega)
    unfold sparseTables
    simp only [first, second, third, Outcome.ok_bind]
    rw [stop]
    rfl
  rw [computed]
  constructor
  · intro believable
    obtain ⟨off, tail, is⟩ := recoveredTail_eq fm (d.size - footerSize)
      (Nat.lt_trans L.blockTotal_lt (by decide)) words
    refine ⟨off, is, ?_⟩
    rw [good believable, Outcome.ok_bind, tail]
    rfl
  · intro unbelievable
    obtain ⟨err, refused⟩ := bad unbelievable
    exact ⟨err, by rw [refused]; rfl⟩

theorem Opens.is {L : Layout} {fm : Bool} {dataEnd off : Nat} {found : FoundFooter}
    {header : DynamicHeader} (opens : Opens d L fm dataEnd off) (is : FooterOf d found)
    (parsed : DynamicHeader.parse (d.read found.footer.dataOffset dynHeaderSize) = .ok header) :
    L.header = header := by
  have own := opens.header
  have one := is.unique opens.footer
  subst one
  rw [Layout.headerOffset, parsed] at own
  cases own
  rfl

theorem sparseTables_cases {found : FoundFooter} {header : DynamicHeader} (is : FooterOf d found)
    (sparse : found.footer.diskType ≠ .fixed) (aligned : d.size % 512 = 0)
    (headerIn : found.footer.dataOffset + dynHeaderSize ≤ d.size)
    (parsed : DynamicHeader.parse (d.read found.footer.dataOffset dynHeaderSize) = .ok header)
    (covers : found.footer.currentSize ≤ header.maxTableEntries * header.blockSize)
    (tableIn : header.tableOffset + header.maxTableEntries * 4 ≤ d.size) :
    (∃ L dataEnd off, Opens d L found.fromMirror dataEnd off ∧ L.footer = found.footer ∧
      L.footerBytes = found.bytes ∧
      sparseTables d.size found header (header.tableOffset + header.maxTableEntries * 4)
        (decodeBat (d.read header.tableOffset (header.maxTableEntries * 4))) =
          .ok (L.tables d dataEnd off)) ∨
    (∃ err, sparseTables d.size found header (header.tableOffset + header.maxTableEntries * 4)
      (decodeBat (d.read header.tableOffset (header.maxTableEntries * 4))) = .err err ∧
      ∀ L fm dataEnd off, ¬ Opens d L fm dataEnd off) := by
  have diskLt := d.size_lt
  obtain ⟨whole, parses⟩ := is.parses
  let L : Layout := {
    footerBytes := found.bytes
    footer := found.footer
    header := header
    whole := whole
    parses := parses
    sparse := sparse
    parsed := DynamicHeader.parsed parsed
    covers := covers
    tableFits := Nat.lt_of_le_of_lt tableIn diskLt
    headerFits := Nat.lt_of_le_of_lt headerIn diskLt }
  have cookie : found.tailHasCookie = tailHasCookie d := by cases is <;> rfl
  obtain ⟨good, bad⟩ := sparseTables_eq (d := d) (L := L)
    found.fromMirror found.tailHasCookie aligned headerIn tableIn rfl
  by_cases believable : Placed L.dataStart (if (found.fromMirror && !found.tailHasCookie) = true
      then d.size else d.size - footerSize) L.blockTotal (L.table d) ∧
      Spread hostOff Live L.blockTotal (L.table d)
  · obtain ⟨off, tail, run⟩ := good believable
    refine Or.inl ⟨L, _, off, ⟨?_, aligned, parsed, headerIn, tableIn, ?_, believable.1,
      believable.2, tail⟩, rfl, rfl, run⟩
    · rw [← cookie]
      exact is
    · rw [cookie]
  · obtain ⟨err, run⟩ := bad believable
    refine Or.inr ⟨err, run, fun L' fm dataEnd off opens => believable ?_⟩
    have one := is.unique opens.footer
    have same : L' = L := Layout.ext (congrArg FoundFooter.footer one).symm
      (congrArg FoundFooter.bytes one).symm (opens.is is parsed)
    have stop := opens.stop
    have placed := opens.placed
    rw [show fm = found.fromMirror by rw [one], ← cookie] at stop
    rw [stop, same] at placed
    refine ⟨placed, ?_⟩
    rw [← same]
    exact opens.spread

theorem openSparse_wp (sees : Sees R G dev s d Lost) {found : FoundFooter}
    (is : FooterOf d found) (sparse : found.footer.diskType ≠ .fixed) :
    Code.wp R G (openSparse dev d.size found)
      (fun t s' => s' = s ∧ ∃ L dataEnd off, Opens d L found.fromMirror dataEnd off ∧
        L.footer = found.footer ∧ L.footerBytes = found.bytes ∧ t = L.tables d dataEnd off)
      (fun e s' => s' = s ∧
        ((Lost ∧ ¬ e.IsCorrupt) ∨ ∀ L fm dataEnd off, ¬ Opens d L fm dataEnd off)) s := by
  have diskLt := d.size_lt
  have same {L : Layout} {fm : Bool} {dataEnd off : Nat} (opens : Opens d L fm dataEnd off) :
      L.footer = found.footer := by rw [is.unique opens.footer]
  unfold openSparse
  simp only
  split
  · rename_i absent
    refine ⟨rfl, Or.inr fun L fm dataEnd off opens => ?_⟩
    have fits := L.headerFits
    rw [same opens, absent] at fits
    exact absurd fits (by decide)
  split
  · rename_i ragged
    exact ⟨rfl, Or.inr fun L fm dataEnd off opens => ragged opens.aligned⟩
  rename_i aligned
  have aligned : d.size % 512 = 0 := Decidable.not_not.mp aligned
  refine (Code.wp_bind _ _).mpr (sees.devRead_wp ?_ ?_)
  case refine_2 =>
    rintro e other (outside | lost)
    · refine ⟨rfl, Or.inr fun L fm dataEnd off opens => ?_⟩
      have stop := opens.headerEnd
      rw [Layout.headerEnd, Layout.headerOffset, same opens] at stop
      omega
    · exact ⟨rfl, Or.inl ⟨lost, other⟩⟩
  intro headerIn
  have settled := DynamicHeader.parse_settled (d.read found.footer.dataOffset dynHeaderSize)
  cases parsed : DynamicHeader.parse (d.read found.footer.dataOffset dynHeaderSize) with
  | panic => rw [parsed] at settled; exact settled.elim
  | outOfFuel => rw [parsed] at settled; exact settled.elim
  | err e =>
      refine ⟨rfl, Or.inr fun L fm dataEnd off opens => ?_⟩
      have own := opens.header
      rw [Layout.headerOffset, same opens, parsed] at own
      cases own
  | ok header =>
      have bounds := DynamicHeader.parsed parsed
      have entries := bounds.entries
      have positive := bounds.block.pos
      rw [Code.lift_ok_bind, checkedMul_of_lt (by omega), Code.lift_ok_bind,
        if_neg (Nat.ne_of_gt positive)]
      split
      · rename_i few
        refine ⟨rfl, Or.inr fun L fm dataEnd off opens => ?_⟩
        have covers := L.covers
        rw [opens.is is parsed, same opens] at covers
        exact absurd ((divCeil_le_iff positive).mpr covers) (Nat.not_le.mpr few)
      rename_i enough
      have covers := (divCeil_le_iff positive).mp (Nat.not_lt.mp enough)
      by_cases tableFits : header.tableOffset + header.maxTableEntries * 4 < 2 ^ 64
      case neg =>
        rw [checkedAdd, if_neg tableFits]
        refine ⟨rfl, Or.inr fun L fm dataEnd off opens => ?_⟩
        have fits := L.tableFits
        rw [opens.is is parsed] at fits
        exact tableFits fits
      rw [checkedAdd_of_lt tableFits, Code.lift_ok_bind]
      split
      · rename_i outside
        refine ⟨rfl, Or.inr fun L fm dataEnd off opens => ?_⟩
        have stop := opens.tableEnd
        rw [Layout.tableEnd, Layout.tableOffset, Layout.entries, opens.is is parsed] at stop
        omega
      rename_i tableIn
      refine (Code.wp_bind _ _).mpr (sees.devRead_wp ?_ ?_)
      case refine_2 =>
        rintro e other (outside | lost)
        · omega
        · exact ⟨rfl, Or.inl ⟨lost, other⟩⟩
      intro _
      have outcome := sparseTables_cases is sparse aligned headerIn parsed covers
        (Nat.not_lt.mp tableIn)
      generalize sparseTables d.size found header _ _ = tables at outcome ⊢
      rcases outcome with ⟨L, dataEnd, off, opens, footer, bytes, rfl⟩ | ⟨err, rfl, refused⟩
      · exact ⟨rfl, L, dataEnd, off, opens, footer, bytes, rfl⟩
      · exact ⟨rfl, Or.inr refused⟩

/-- What the bytes open as is settled by the bytes. -/
theorem Opens.unique {L L' : Layout} {fm fm' : Bool} {dataEnd dataEnd' off off' : Nat}
    (opens : Opens d L fm dataEnd off) (opens' : Opens d L' fm' dataEnd' off') :
    L = L' ∧ fm = fm' ∧ dataEnd = dataEnd' := by
  have one := opens.footer.unique opens'.footer
  have footer : L.footer = L'.footer := congrArg FoundFooter.footer one
  have mirror : fm = fm' := congrArg FoundFooter.fromMirror one
  have parsed := opens'.header
  rw [Layout.headerOffset, ← footer] at parsed
  refine ⟨Layout.ext footer (congrArg FoundFooter.bytes one) (opens.is opens.footer parsed),
    mirror, ?_⟩
  rw [opens.stop, opens'.stop, mirror]

theorem TailOf.unique {fm : Bool} {next total off off' : Nat} {bat : List Nat}
    (h : TailOf fm next total bat off) (h' : TailOf fm next total bat off') : off = off' := by
  have le {a b : Nat} (x : TailOf fm next total bat a) (y : TailOf fm next total bat b) : a ≤ b := by
    rcases x.reached with here | ⟨mirror, e, member, live, here⟩
    · rw [here]
      exact y.least
    · rw [here]
      exact y.past mirror e member live
  exact Nat.le_antisymm (le h h') (le h' h)

theorem openInner_fixed_wp {found : FoundFooter} {w : Bool} {depth : Nat} {path : Option Path}
    {Q : VhdReader δ → σ → Prop} (sees : Sees R G dev s d Lost) (is : FooterOf d found)
    (long : footerSize ≤ d.size) (fixed : found.footer.diskType = .fixed)
    (share : G s (.on dev (.share none none)) ∧ ∀ r s', R s (.on dev (.share none none)) r s' →
      Q (.base (fixedCore dev w found)) s')
    (failed : Lost → ∀ e, ¬ e.IsCorrupt → E e s) :
    Code.wp R G (openInner (depth + 1) w dev path) Q E s := by
  unfold openInner
  refine (Code.wp_bind _ _).mpr ((Code.wp_perform _).mpr ⟨sees.asksSize, fun r s₁ answered => ?_⟩)
  obtain ⟨rfl, rfl⟩ := sees.size _ _ answered
  rw [if_neg (Nat.not_lt.mpr long)]
  refine (Code.wp_bind _ _).mpr (Code.wp_mono (readFooter_wp sees long) (fun _ _ g => g) ?_ ?_)
  · rintro found' s₂ ⟨rfl, is'⟩
    obtain rfl := is.unique is'
    simp only [fixed]
    exact (Code.wp_bind _ _).mpr ((Code.wp_perform _).mpr ⟨share.1, fun r s' shared =>
      share.2 r s' shared⟩)
  · rintro e s₂ ⟨rfl, ⟨lost, other⟩ | none_⟩
    · exact failed lost e other
    · exact absurd is (none_ _)

section Known

variable {α : Type} {L : Layout} {fm w : Bool} {dataEnd off : Nat} {Q : α → σ → Prop}

theorem Opens.found_wp {rest : FoundFooter → Io δ α} (sees : Sees R G dev s d Lost)
    (opens : Opens d L fm dataEnd off)
    (next : Code.wp R G (rest ⟨L.footer, L.footerBytes, fm, tailHasCookie d⟩) Q E s)
    (failed : Lost → ∀ e, ¬ e.IsCorrupt → E e s) : Code.wp R G (readFooter dev d.size >>= rest) Q E s := by
  have long := opens.size_ge
  refine (Code.wp_bind _ _).mpr (Code.wp_mono (readFooter_wp sees (by unfold footerSize; omega))
    (fun _ _ g => g) ?_ ?_)
  · rintro found s₂ ⟨rfl, is⟩
    obtain rfl := is.unique opens.footer
    exact next
  · rintro e s₂ ⟨rfl, ⟨lost, other⟩ | none⟩
    · exact failed lost e other
    · exact absurd opens.footer (none _)

theorem Opens.tables_wp {rest : SparseTables → Io δ α} (sees : Sees R G dev s d Lost)
    (opens : Opens d L fm dataEnd off) (next : Code.wp R G (rest (L.tables d dataEnd off)) Q E s)
    (failed : Lost → ∀ e, ¬ e.IsCorrupt → E e s) :
    Code.wp R G (openSparse dev d.size ⟨L.footer, L.footerBytes, fm, tailHasCookie d⟩ >>= rest) Q E
      s := by
  refine (Code.wp_bind _ _).mpr (Code.wp_mono (openSparse_wp sees opens.footer L.sparse)
    (fun _ _ g => g) ?_ ?_)
  · rintro t s₃ ⟨rfl, L', dataEnd', off', opens', footer, bytes, rfl⟩
    obtain ⟨rfl, -, rfl⟩ := opens.unique opens'
    obtain rfl := opens.tail.unique opens'.tail
    exact next
  · rintro e s₃ ⟨rfl, ⟨lost, other⟩ | none⟩
    · exact failed lost e other
    · exact absurd opens (none _ _ _ _)

end Known

theorem openInner_dynamic_wp {L : Layout} {fm w : Bool} {dataEnd off depth : Nat}
    {path : Option Path} {Q : VhdReader δ → σ → Prop} (sees : Sees R G dev s d Lost)
    (opens : Opens d L fm dataEnd off) (dynamic : L.footer.diskType = .dynamic)
    (share : G s (.on dev (.share (some (L.table d)) (some off))) ∧
      ∀ r s', R s (.on dev (.share (some (L.table d)) (some off))) r s' →
        Q (.base (L.core dev w fm)) s')
    (failed : Lost → ∀ e, ¬ e.IsCorrupt → E e s) :
    Code.wp R G (openInner (depth + 1) w dev path) Q E s := by
  have long := opens.size_ge
  unfold openInner
  refine (Code.wp_bind _ _).mpr ((Code.wp_perform _).mpr ⟨sees.asksSize, ?_⟩)
  intro r s₁ answered
  obtain ⟨rfl, rfl⟩ := sees.size _ _ answered
  rw [if_neg (by unfold footerSize; omega)]
  refine opens.found_wp sees ?_ failed
  simp only [dynamic]
  refine opens.tables_wp sees ?_ failed
  exact (Code.wp_bind _ _).mpr ((Code.wp_perform _).mpr ⟨share.1, fun r s' shared =>
    share.2 r s' shared⟩)

end Sees

end ImgVhd
