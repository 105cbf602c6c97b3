import ImgVhd.Chain.World

/-! # Chains of images

`Chain` is what an open leaves: an image at every level, each with its table
cached, and no device at two levels. The open is by recursion on the depth that
is left, so what it leaves is by induction on it.
-/

namespace ImgVhd

open Foundation

/-- The devices of a reader and of its parents. -/
def VhdReader.devices {δ : Type} : VhdReader δ → List δ
  | .base c => [c.dev]
  | .above c p => c.dev :: p.devices

/-- A reader and what is behind its handles, nobody having written since. -/
inductive Chain (w : World) : VhdReader Nat → Prop where
  | fixed {dev wr found} (is : FooterOf (w.image dev).disk found)
      (long : footerSize ≤ (w.image dev).disk.size) (kind : found.footer.diskType = .fixed) :
      Chain w (.base (fixedCore dev wr found))
  | dynamic {L fm dataEnd off dev wr} (opens : Opens (w.image dev).disk L fm dataEnd off)
      (kind : L.footer.diskType = .dynamic)
      (cached : (w.image dev).bat = some (L.table (w.image dev).disk)) :
      Chain w (.base (L.core dev wr fm))
  | above {L fm dataEnd off dev wr p} (opens : Opens (w.image dev).disk L fm dataEnd off)
      (kind : L.footer.diskType = .differencing)
      (cached : (w.image dev).bat = some (L.table (w.image dev).disk)) (parent : Chain w p)
      (apart : dev ∉ p.devices) : Chain w (.above (L.core dev wr fm) p)

section Chain

variable {w w' : World} {r : VhdReader Nat} {f : Faults}

theorem Chain.frame (chain : Chain w r) (same : ∀ dev ∈ r.devices, w'.image dev = w.image dev) :
    Chain w' r := by
  induction chain with
  | @fixed dev wr found is long kind =>
      refine .fixed ?_ ?_ kind <;> rw [same dev List.mem_cons_self]
      · exact is
      · exact long
  | @dynamic L fm dataEnd off dev wr opens kind cached =>
      have here : w'.image dev = w.image dev := same dev List.mem_cons_self
      have opens' : Opens (w'.image dev).disk L fm dataEnd off := here ▸ opens
      exact .dynamic opens' kind (by rw [here]; exact cached)
  | @above L fm dataEnd off dev wr p opens kind cached parent apart ih =>
      have here : w'.image dev = w.image dev := same dev List.mem_cons_self
      have opens' : Opens (w'.image dev).disk L fm dataEnd off := here ▸ opens
      exact .above opens' kind (by rw [here]; exact cached)
        (ih fun e member => same e (List.mem_cons_of_mem _ member)) apart

/-- What an open of `dev` leaves. -/
structure Chained (w : World) (dev : Nat) (wr : Bool) (r : VhdReader Nat) (w' : World) : Prop where
  chain : Chain w' r
  own : r.core.dev = dev
  writable : r.core.writable = wr
  disk : (w'.image dev).disk = (w.image dev).disk
  fresh : ∀ e ∈ r.devices, e = dev ∨ w.next ≤ e
  frame : ∀ e < w.next, e ≠ dev → w'.image e = w.image e
  next : w.next ≤ w'.next

theorem World.handler_share {dev : Nat} {bat : Option (List Nat)} {off : Option Nat} {r : Unit}
    (h : handler f w (.on dev (.share bat off)) r w') :
    w' = w.put dev ⟨(w.image dev).disk, bat, off⟩ := by
  obtain ⟨im, stepped, rfl⟩ := h
  rw [Faults.handler_share stepped]

theorem openInner_chain {depth : Nat} {wr : Bool} {dev : Nat} {path : Option Path} :
    ∀ {w : World}, dev < w.next → Code.wp (World.handler f) (fun _ _ => True)
      (openInner depth wr dev path) (Chained w dev wr) (fun _ _ => True) w := by
  induction depth generalizing wr dev path with
  | zero => exact fun _ => trivial
  | succ depth ih =>
      intro w known
      refine openInner_wp (World.sees trivial fun _ _ => trivial)
        (fun found is long kind => ⟨trivial, fun r w' shared => ?_⟩)
        (fun L fm dataEnd off opens kind => ⟨trivial, fun r w' shared => ?_⟩)
        (fun L fm dataEnd off child opens kind path => ?_) fun _ => trivial
      · obtain rfl := World.handler_share shared
        refine ⟨.fixed (by rw [World.image_put]; exact is) (by rw [World.image_put]; exact long) kind,
          rfl, rfl, by rw [World.image_put], fun e member => Or.inl (List.mem_singleton.mp member),
          fun e _ other => World.image_put_ne other, Nat.le_refl _⟩
      · obtain rfl := World.handler_share shared
        refine ⟨.dynamic (by rw [World.image_put]; exact opens) kind (by rw [World.image_put]), rfl,
          rfl, by rw [World.image_put],
          fun e member => Or.inl (List.mem_singleton.mp member),
          fun e _ other => World.image_put_ne other, Nat.le_refl _⟩
      · refine (Code.wp_bind _ _).mpr ?_
        unfold openParent
        refine settled_wp (parentFileName_settled _) (fun name _ => ?_) fun _ => trivial
        refine (Code.wp_bind _ _).mpr ((Code.wp_perform _).mpr ⟨trivial, ?_⟩)
        rintro there w₁ ⟨-, rfl⟩
        cases there with
        | false => trivial
        | true =>
            rw [if_pos rfl]
            refine (Code.wp_bind _ _).mpr ((Code.wp_perform _).mpr ⟨trivial, ?_⟩)
            rintro answer w₂ (⟨d, -, rfl, rfl⟩ | ⟨⟨e, rfl⟩, rfl⟩)
            case inr => trivial
            simp only [lifted, Code.lift_ok_bind]
            refine Code.wp_seq (ih (by rw [World.next_opening]; exact Nat.lt_succ_self _)) ?_
            intro p w₃ below
            unfold checkParentIdentity
            split
            · trivial
            have other : dev ≠ w₁.next := Nat.ne_of_lt known
            have image : w₃.image dev = w₁.image dev := by
              rw [below.frame dev (by rw [World.next_opening]; omega) other,
                World.image_opening_ne other]
            have apart : dev ∉ p.devices := by
              intro member
              have fresh := below.fresh dev member
              rw [World.next_opening] at fresh
              omega
            refine (Code.wp_bind _ _).mpr ((Code.wp_perform _).mpr ⟨trivial, fun r w' shared => ?_⟩)
            obtain rfl := World.handler_share shared
            rw [image]
            refine ⟨.above (by rw [World.image_put]; exact opens) kind
              (by rw [World.image_put]) (below.chain.frame fun e member => ?_) apart, rfl, rfl,
              by rw [World.image_put], ?_, fun e lt differs => ?_, ?_⟩
            · refine World.image_put_ne ?_
              rintro rfl
              exact apart member
            · rintro e (_ | ⟨_, member⟩)
              · exact Or.inl rfl
              · have fresh := below.fresh e member
                rw [World.next_opening] at fresh
                exact Or.inr (by omega)
            · rw [World.image_put_ne differs, below.frame e (by rw [World.next_opening]; omega) (by omega),
                World.image_opening_ne (by omega)]
            · have next := below.next
              rw [World.next_opening] at next
              rw [World.next_put]
              omega

theorem openAs_chain {how : Option Path} {dev : Nat} (wr : Bool)
    (known : how = none → dev < w.next) :
    Code.wp (World.handler f) (fun _ _ => True) (openAs dev wr how)
      (fun r w' => Chain w' r ∧ r.core.writable = wr) (fun _ _ => True) w := by
  have inner {w : World} {dev : Nat} {path : Option Path} (known : dev < w.next) :
      Code.wp (World.handler f) (fun _ _ => True) (openInner maxParentDepth wr dev path)
        (fun r w' => Chain w' r ∧ r.core.writable = wr) (fun _ _ => True) w :=
    Code.wp_mono (openInner_chain known) (fun _ _ g => g) (fun r w' done => ⟨done.chain, done.writable⟩)
      fun _ _ e => e
  cases how with
  | none => exact World.openOn_wp trivial (inner (known rfl))
  | some path =>
      refine World.openAt_wp trivial (fun d _ => inner ?_) fun _ => trivial
      rw [World.next_opening]
      exact Nat.lt_succ_self _

theorem World.openInner_ideal {L : Layout} {fm : Bool} {dev dataEnd off : Nat} (wr : Bool)
    (path : Option Path) (opens : Opens (w.image dev).disk L fm dataEnd off)
    (dynamic : L.footer.diskType = .dynamic) :
    ∃ t, Prog.Runs (handler .none) (openInner maxParentDepth wr dev path) w t
      (.ret (.ok (.base (L.core dev wr fm))))
      (w.put dev ⟨(w.image dev).disk, some (L.table (w.image dev).disk), some off⟩) := by
  have whole : Code.wp (handler .none) (fun _ _ => True) (openInner maxParentDepth wr dev path)
      (fun r w' => r = .base (L.core dev wr fm) ∧
        w' = w.put dev ⟨(w.image dev).disk, some (L.table (w.image dev).disk), some off⟩)
      (fun _ _ => False) w :=
    openInner_dynamic_wp (World.sees trivial fun _ _ => trivial) opens dynamic
      ⟨trivial, fun r w' shared => ⟨rfl, handler_share shared⟩⟩
      fun faulty => absurd faulty Faults.none_not_faulty
  obtain ⟨r, w', ⟨t, run⟩, rfl, rfl⟩ := Code.wp_reaches whole
    (fun w op => ⟨_, _, idealStep_allowed .none w op⟩) fun _ _ never => never
  exact ⟨t, run⟩

theorem World.openFile_ideal {L : Layout} {fm : Bool} {dataEnd off : Nat} {d : ByteStore}
    (path : Path) (dev : Nat) (wr : Bool) (there : w.files path = some d) (opens : Opens d L fm dataEnd off)
    (dynamic : L.footer.diskType = .dynamic) :
    ∃ t, Prog.Runs (handler .none) (openAs dev wr (some path)) w t
      (.ret (.ok (.base (L.core w.next wr fm))))
      ((w.opening d).put w.next ⟨d, some (L.table d), some off⟩) := by
  have same : ((w.opening d).image w.next).disk = d := by rw [image_opening]
  obtain ⟨t, run⟩ := openInner_ideal (w := w.opening d) wr (some path) (same.symm ▸ opens) dynamic
  rw [same] at run
  cases wr with
  | true => exact ⟨_, .step (Or.inl ⟨d, there, rfl, rfl⟩) run⟩
  | false => exact ⟨_, .step (Or.inl ⟨d, there, rfl, rfl⟩) run⟩

/-- The functional world, as a meaning of the interface. -/
def World.ideal : Handler World (Op Nat) Op.Res := fun w op r w' => (r, w') = w.idealStep op

theorem World.sees_ideal {dev : Nat} {d : ByteStore} (holds : (w.image dev).disk = d) :
    Sees ideal (fun _ _ => True) dev w d False := by
  subst holds
  refine (World.sees (f := .none) trivial fun _ _ => trivial).smaller ?_ Faults.none_not_faulty
  rintro s op r s' stepped
  obtain ⟨rfl, rfl⟩ := Prod.ext_iff.mp stepped
  exact idealStep_allowed .none s op

theorem World.idealStep_openFile {path : Path} {d : ByteStore} {wr : Bool}
    (there : w.files path = some d) : w.idealStep (.openFile path wr) = (.ok w.next, w.opening d) := by
  simp only [idealStep, there]

/-- A delta whose parent is beside it opens over it, where that is a dynamic image
    with the identity the delta names. -/
theorem World.openDelta_ideal {L Lp : Layout} {fm fmp : Bool} {dataEnd off dataEndp offp : Nat}
    {d dp : ByteStore} {name : List Char} (path : Path) (dev : Nat) (there : w.files path = some d)
    (opens : Opens d L fm dataEnd off) (differencing : L.footer.diskType = .differencing)
    (locators : checkLocators L.footer (L.tables d dataEnd off) = .ok ())
    (named : parentFileName L.header.parentName = .ok name)
    (parent : w.files (parentCandidate path name) = some dp)
    (opensp : Opens dp Lp fmp dataEndp offp) (dynamic : Lp.footer.diskType = .dynamic)
    (identity : Lp.footer.uniqueId = L.header.parentUniqueId) :
    ∃ w', (openAs dev false (some path)).run idealStep w =
        (.ok (.above (L.core w.next false fm) (.base (Lp.core (w.next + 1) false fmp))), w') ∧
      (w'.image w.next).disk = d ∧ (w'.image (w.next + 1)).disk = dp := by
  have whole : Code.wp ideal (fun _ _ => True) (openAs dev false (some path))
      (fun r w' => r = .above (L.core w.next false fm) (.base (Lp.core (w.next + 1) false fmp)) ∧
        (w'.image w.next).disk = d ∧ (w'.image (w.next + 1)).disk = dp) (fun _ _ => False) w := by
    refine (Code.wp_bind _ _).mpr ((Code.wp_perform _).mpr ⟨trivial, fun answer w₁ answered => ?_⟩)
    obtain ⟨rfl, rfl⟩ := Prod.ext_iff.mp (answered.trans (idealStep_openFile there))
    simp only [lifted, Code.lift_ok_bind]
    have own : ((w.opening d).image w.next).disk = d := by rw [image_opening]
    refine openInner_differencing_wp (sees_ideal own) opens differencing locators ?_
      fun no => no.elim
    refine (Code.wp_bind _ _).mpr ?_
    unfold openParent
    rw [named, Code.lift_ok_bind]
    refine (Code.wp_bind _ _).mpr ((Code.wp_perform _).mpr ⟨trivial, fun exists_ w₂ answered => ?_⟩)
    obtain ⟨rfl, rfl⟩ := Prod.ext_iff.mp answered
    have parent' : (w.opening d).files (parentCandidate path name) = some dp := parent
    simp only [idealStep, parent', Option.isSome_some, if_true]
    refine (Code.wp_bind _ _).mpr ((Code.wp_perform _).mpr ⟨trivial, fun answer w₃ answered => ?_⟩)
    obtain ⟨rfl, rfl⟩ := Prod.ext_iff.mp (answered.trans (idealStep_openFile parent'))
    simp only [lifted, Code.lift_ok_bind]
    have below : (((w.opening d).opening dp).image (w.next + 1)).disk = dp := by
      rw [← next_opening, image_opening]
    have kept : (((w.opening d).opening dp).image w.next).disk = d := by
      rw [image_opening_ne (by simp), own]
    refine Code.wp_seq (openInner_dynamic_wp (sees_ideal below) opensp dynamic
      (Q := fun p x => p = .base (Lp.core (w.next + 1) false fmp) ∧ (x.image w.next).disk = d ∧
        (x.image (w.next + 1)).disk = dp) ⟨trivial, fun r x shared => ?_⟩ fun no => no.elim) ?_
    · obtain ⟨-, rfl⟩ := Prod.ext_iff.mp shared
      refine ⟨rfl, ?_, ?_⟩
      · exact (congrArg Image.disk (image_put_ne (by simp))).trans kept
      · exact (congrArg Image.disk image_put).trans below
    · rintro p x ⟨rfl, top, bottom⟩
      have same : checkParentIdentity (.base (Lp.core (w.next + 1) false fmp)) L.header =
          .ok (.base (Lp.core (w.next + 1) false fmp)) := if_neg (not_not.mpr identity)
      rw [same]
      refine (Code.wp_bind _ _).mpr ((Code.wp_perform _).mpr ⟨trivial, fun r y shared => ?_⟩)
      obtain ⟨-, rfl⟩ := Prod.ext_iff.mp shared
      refine ⟨rfl, ?_, ?_⟩
      · exact (congrArg Image.disk image_put).trans top
      · exact (congrArg Image.disk (image_put_ne (by omega))).trans bottom
  rcases Code.wp_run idealStep whole fun _ _ => rfl with ⟨r, ended, rfl, images⟩ | ⟨e, -, never⟩
  · exact ⟨_, Prod.ext ended rfl, images⟩
  · exact never.elim

end Chain

/-! ## A delta over a shorter disk -/

section Pair

/-- A sparse image of one block: a footer, a header and a table of a sector, the
    block with the bits of its first eight sectors, and the footer again. -/
def oneBlock (footer header table : Bytes) (bits : UInt8) (data : Nat → UInt8) (blockSize : Nat)
    (short : footer.length ≤ 512) (fits : blockSize < 2 ^ 32) : ByteStore where
  size := 2560 + blockSize + 512
  byte i :=
    if i < 512 then footer.getD i 0
    else if i < 1536 then header.getD (i - 512) 0
    else if i < 2048 then table.getD (i - 1536) 255
    else if i < 2049 then bits
    else if i < 2560 then 0
    else if i < 2560 + blockSize then data (i - 2560)
    else footer.getD (i - (2560 + blockSize)) 0
  size_lt := by omega
  beyond i h := by
    rw [if_neg (by omega), if_neg (by omega), if_neg (by omega), if_neg (by omega), if_neg (by omega),
      if_neg (by omega), List.getD_eq_default _ _ (by omega)]

/-- A dynamic disk of 508 bytes, all sevens. -/
def baseDisk : ByteStore :=
  oneBlock
    [99, 111, 110, 101, 99, 116, 105, 120, 0, 0, 0, 2, 0, 1, 0, 0, 0, 0, 0, 0, 0, 0, 2, 0, 0, 0, 0, 0,
      97, 109, 32, 32, 0, 0, 0, 1, 77, 97, 99, 32, 0, 0, 0, 0, 0, 0, 1, 252, 0, 0, 0, 0, 0, 0, 1, 252,
      0, 0, 4, 17, 0, 0, 0, 3, 255, 255, 247, 195, 1, 2, 3, 4, 5, 6, 7, 8, 9, 10, 11, 12, 13, 14, 15, 16]
    [99, 120, 115, 112, 97, 114, 115, 101, 255, 255, 255, 255, 255, 255, 255, 255, 0, 0, 0, 0, 0, 0,
      6, 0, 0, 1, 0, 0, 0, 0, 0, 1, 0, 0, 2, 0, 255, 255, 244, 148]
    [0, 0, 0, 4] 128 (fun _ => 7) 512 (by decide) (by decide)

/-- A delta over it of 2048 bytes, with nines in its second sector. -/
def deltaDisk : ByteStore :=
  oneBlock
    [99, 111, 110, 101, 99, 116, 105, 120, 0, 0, 0, 2, 0, 1, 0, 0, 0, 0, 0, 0, 0, 0, 2, 0, 0, 0, 0, 0,
      97, 109, 32, 32, 0, 0, 0, 1, 77, 97, 99, 32, 0, 0, 0, 0, 0, 0, 8, 0, 0, 0, 0, 0, 0, 0, 8, 0,
      0, 0, 4, 17, 0, 0, 0, 4, 255, 255, 248, 172, 17, 18, 19, 20, 21, 22, 23, 24, 25, 26, 27, 28, 29,
      30, 31, 32]
    [99, 120, 115, 112, 97, 114, 115, 101, 255, 255, 255, 255, 255, 255, 255, 255, 0, 0, 0, 0, 0, 0,
      6, 0, 0, 1, 0, 0, 0, 0, 0, 2, 0, 0, 4, 0, 255, 255, 242, 110, 1, 2, 3, 4, 5, 6, 7, 8, 9, 10,
      11, 12, 13, 14, 15, 16, 0, 0, 0, 0, 0, 0, 0, 0, 0, 98, 0, 97, 0, 115, 0, 101]
    [0, 0, 0, 4] 64 (fun i => if i < 512 then 0 else 9) 1024 (by decide) (by decide)

def baseFooter : Footer where
  features := 2
  fileFormatVersion := 0x00010000
  dataOffset := 512
  originalSize := 508
  currentSize := 508
  diskType := .dynamic
  uniqueId := [1, 2, 3, 4, 5, 6, 7, 8, 9, 10, 11, 12, 13, 14, 15, 16]

def baseHeader : DynamicHeader where
  dataOffset := 2 ^ 64 - 1
  tableOffset := 1536
  headerVersion := 0x00010000
  maxTableEntries := 1
  blockSize := 512
  parentUniqueId := List.replicate 16 0
  parentTimestamp := 0
  parentName := []
  parentLocators := List.replicate 8 ⟨[0, 0, 0, 0], 0, 0, 0, 0⟩

def deltaFooter : Footer where
  features := 2
  fileFormatVersion := 0x00010000
  dataOffset := 512
  originalSize := 2048
  currentSize := 2048
  diskType := .differencing
  uniqueId := [17, 18, 19, 20, 21, 22, 23, 24, 25, 26, 27, 28, 29, 30, 31, 32]

def deltaHeader : DynamicHeader where
  dataOffset := 2 ^ 64 - 1
  tableOffset := 1536
  headerVersion := 0x00010000
  maxTableEntries := 2
  blockSize := 1024
  parentUniqueId := [1, 2, 3, 4, 5, 6, 7, 8, 9, 10, 11, 12, 13, 14, 15, 16]
  parentTimestamp := 0
  parentName := ['b', 'a', 's', 'e']
  parentLocators := List.replicate 8 ⟨[0, 0, 0, 0], 0, 0, 0, 0⟩

theorem baseDisk_tail : Footer.parse (tailSector baseDisk) = .ok baseFooter := by decide +kernel

theorem deltaDisk_tail : Footer.parse (tailSector deltaDisk) = .ok deltaFooter := by decide +kernel

theorem baseDisk_header : DynamicHeader.parse (baseDisk.read 512 1024) = .ok baseHeader :=
  DynamicHeader.parse_of (by rw [ByteStore.length_read]; decide) (by decide +kernel)
    (by decide +kernel) (by decide) (by decide) (by decide +kernel)

theorem deltaDisk_header : DynamicHeader.parse (deltaDisk.read 512 1024) = .ok deltaHeader :=
  DynamicHeader.parse_of (by rw [ByteStore.length_read]; decide) (by decide +kernel)
    (by decide +kernel) (by decide) (by decide) (by decide +kernel)

def baseLayout : Layout where
  footerBytes := tailSector baseDisk
  footer := baseFooter
  header := baseHeader
  whole := ByteStore.length_read
  parses := baseDisk_tail
  sparse := by decide
  parsed := DynamicHeader.parsed baseDisk_header
  covers := by decide
  tableFits := by decide
  headerFits := by decide

def deltaLayout : Layout where
  footerBytes := tailSector deltaDisk
  footer := deltaFooter
  header := deltaHeader
  whole := ByteStore.length_read
  parses := deltaDisk_tail
  sparse := by decide
  parsed := DynamicHeader.parsed deltaDisk_header
  covers := by decide
  tableFits := by decide
  headerFits := by decide

theorem baseDisk_opens : Opens baseDisk baseLayout false 3072 3072 := by
  have table : baseLayout.table baseDisk = [4] := by decide +kernel
  refine ⟨.tail baseDisk_tail, by decide, baseDisk_header, by decide, by decide, rfl, ?_,
    spread_iff_pairwise.mpr ?_, ⟨Nat.le_refl _, fun no => (by cases no), Or.inl rfl⟩⟩
  · unfold Placed
    rw [table]
    decide
  · rw [table]
    exact List.pairwise_singleton _ _

theorem deltaDisk_opens : Opens deltaDisk deltaLayout false 3584 3584 := by
  have table : deltaLayout.table deltaDisk = [4, batUnallocated] := by decide +kernel
  refine ⟨.tail deltaDisk_tail, by decide, deltaDisk_header, by decide, by decide, rfl, ?_,
    spread_iff_pairwise.mpr ?_, ⟨Nat.le_refl _, fun no => (by cases no), Or.inl rfl⟩⟩
  · unfold Placed
    rw [table]
    decide
  · rw [table]
    refine List.pairwise_pair.mpr fun _ never => absurd rfl never

/-- A file system of the two. -/
def pair : World where
  files path :=
    if path = [.normal ['d', 'e', 'l', 't', 'a']] then some deltaDisk
    else if path = [.normal ['b', 'a', 's', 'e']] then some baseDisk
    else none
  image _ := ⟨.empty, none, none⟩
  next := 0

/-- The delta opens over the disk it names. -/
theorem pair_opens : ∃ w', (openAs 0 false (some [.normal ['d', 'e', 'l', 't', 'a']])).run
      World.idealStep pair =
        (.ok (.above (deltaLayout.core 0 false false) (.base (baseLayout.core 1 false false))), w') ∧
      (w'.image 0).disk = deltaDisk ∧ (w'.image 1).disk = baseDisk :=
  World.openDelta_ideal [.normal ['d', 'e', 'l', 't', 'a']] 0 rfl deltaDisk_opens rfl
    (checkLocators_absent (by decide) (by decide))
    (show parentFileName deltaLayout.header.parentName = .ok ['b', 'a', 's', 'e'] from rfl) rfl
    baseDisk_opens rfl rfl

end Pair

end ImgVhd
