import ImgVhd.Creating.Underway
import ImgVhd.Results.PowerLoss
import ImgVhd.Session.Burst
import ImgVhd.Session.Fixed

/-! # A create that is cut

Creating an image at a path where there was none is all or nothing for whoever opens
the path later: at whatever point the power goes, and whatever mixture of sectors is
left, the file is refused or it is the whole disk of zeros that was to be created.
-/

namespace ImgVhd

open Foundation

/-- Whichever way `d` is opened, and whatever the device may refuse meanwhile, an open
    that succeeds is of a disk of `v` zeros. -/
def ShowsZeros (v : Nat) (d : ByteStore) : Prop :=
  ∀ (wr : Bool) (how : Option Path) (r : VhdReader Unit) (s : Image) (t : List (Event (Op Unit) Op.Res)),
    Prog.Runs Faults.any.handler (openAs () wr how) ⟨d, none, none⟩ t (.ret (.ok r)) s →
      r.virtualSize = v ∧ ∀ offset buf out t' s', offset + buf.length ≤ v →
        Prog.Runs Faults.any.handler (r.readAt offset buf) s t' (.ret (.ok out)) s' →
          out = List.replicate buf.length 0

theorem openAs_found {f : Faults} {wr : Bool} {s : Image} (how : Option Path)
    (parentless : ∀ L fm dataEnd off, Opens s.disk L fm dataEnd off →
      L.footer.diskType ≠ .differencing) :
    Code.wp f.handler anything (openAs () wr how) (OpenedAs s wr) (fun _ _ => True) s := by
  refine openAs_wp (fun _ => trivial) fun path => openInner_wp
    (Faults.sees (G := anything) fun _ _ => trivial) (fun found is _ kind => ⟨trivial, fun r x shared => ?_⟩)
    (fun L fm dataEnd off opens kind => ⟨trivial, fun r x shared => ?_⟩)
    (fun L fm dataEnd off child opens kind _ => absurd kind (parentless L fm dataEnd off opens))
    fun _ => trivial
  · exact .fixed is kind rfl (Faults.handler_share shared)
  · exact .dynamic opens kind rfl (Faults.handler_share shared)

section Footers

variable {d e : ByteStore} {found : FoundFooter}

theorem tailSector_at {v : Nat} (sized : d.size = v + 512) : tailSector d = d.read v 512 := by
  unfold tailSector
  rw [sized, show v + 512 - footerSize = v from Nat.add_sub_cancel _ _]
  rfl

/-- A footer that is found in a file underway is one of the finished file's. -/
theorem FooterOf.partly (is : FooterOf e found) (partly : ByteStore.Partly 512 d e)
    (aligned : d.size % 512 = 0) :
    e.size = d.size ∧ (found.bytes = tailSector d ∨
      (found.bytes = d.read 0 512 ∧ found.footer.diskType ≠ .fixed)) := by
  have sized (long : e.size ≠ 0) : e.size = d.size := partly.size.resolve_left long
  cases is with
  | @tail footer parses =>
      by_cases long : e.size = 0
      · have blank : tailSector e = List.replicate 512 0 := by
          exact ByteStore.read_blank fun i _ => e.beyond _ (by omega)
        rw [blank, Footer.parse_zeros] at parses
        cases parses
      · have whole := sized long
        refine ⟨whole, Or.inl ?_⟩
        rcases partly.read ((e.size - 512) / 512) (e.size - footerSize) footerSize
          (fun j lt => by unfold footerSize at lt ⊢; omega) with blank | same
        · rw [tailSector, blank, show footerSize = 512 from rfl, Footer.parse_zeros] at parses
          cases parses
        · rw [whole] at same
          unfold tailSector
          rw [whole]
          exact same
  | @mirror footer err damaged long parses sparse =>
      have whole := sized (by unfold footerSize at long; omega)
      refine ⟨whole, Or.inr ⟨?_, sparse⟩⟩
      rcases partly.read 0 0 footerSize
        (fun j lt => by unfold footerSize at lt; omega) with blank | same
      · rw [blank, show footerSize = 512 from rfl, Footer.parse_zeros] at parses
        cases parses
      · exact same

theorem shows_nothing {v : Nat} (partly : ByteStore.Partly 512 .empty e) : ShowsZeros v e := by
  have lacks (found : FoundFooter) (is : FooterOf e found) : False := by
    obtain ⟨-, tail | ⟨mirror, -⟩⟩ := is.partly partly rfl
    · obtain ⟨-, parses⟩ := is.parses
      rw [tail, show tailSector ByteStore.empty = List.replicate 512 0 from ByteStore.read_blank fun _ _ => rfl,
        Footer.parse_zeros] at parses
      cases parses
    · obtain ⟨-, parses⟩ := is.parses
      rw [mirror, ByteStore.read_blank (d := .empty) fun _ _ => rfl,
        Footer.parse_zeros] at parses
      cases parses
  intro wr how r s t run
  have reached := Prog.wp_finished (openAs_found how
    fun L fm dataEnd off opens => (lacks _ opens.footer).elim) run
  cases reached with
  | fixed is => exact (lacks _ is).elim
  | dynamic opens => exact (lacks _ opens.footer).elim

end Footers

section Fixed

variable {env : BuildEnv} {size v : Nat} {bytes : Bytes} {d e : ByteStore}

/-- A fixed image underway. -/
theorem MadeFixed.shows (made : MadeFixed env size v bytes) (sized : d.size = v + 512)
    (last : d.read v 512 = bytes) (zeros : ∀ x < v, d.byte x = 0)
    (partly : ByteStore.Partly 512 d e) : ShowsZeros v e := by
  have room := made.room
  have aligned := sizeWithExactGeometry_whole made.aligned made.rounded
  obtain ⟨-, parses⟩ := parse_buildFooter (t := .fixed) made.built (by omega) (by decide) rfl (by decide)
  have tail : tailSector d = bytes := (tailSector_at sized).trans last
  have blank (x : Nat) (below : x < v) : e.byte x = 0 := by
    rcases partly.cells (x / 512) with blank | same
    · exact blank x rfl
    · rw [same x rfl]
      exact zeros x below
  -- the only footer is the one at the end
  have only {found : FoundFooter} (is : FooterOf e found) : e.size = v + 512 ∧
      found.footer.diskType = .fixed ∧ found.footer.currentSize = v := by
    obtain ⟨whole, at_⟩ := is.partly partly (by omega)
    obtain ⟨-, found_⟩ := is.parses
    rcases at_ with at_ | ⟨at_, -⟩
    · rw [at_, tail, parses] at found_
      have same := Outcome.ok.inj found_
      rw [← same]
      exact ⟨whole.trans sized, rfl, rfl⟩
    · by_cases empty : v = 0
      · rw [empty] at last
        rw [at_, last, parses] at found_
        have same := Outcome.ok.inj found_
        rw [← same]
        exact ⟨whole.trans sized, rfl, rfl⟩
      · rw [at_, ByteStore.read_blank fun i low => zeros _ (by omega), Footer.parse_zeros] at found_
        cases found_
  intro wr how r s t run
  have reached := Prog.wp_finished (openAs_found how fun L fm dataEnd off opens => by
    have fixed := (only opens.footer).2.1
    simp only at fixed
    rw [fixed]
    nofun) run
  cases reached with
  | @fixed found is kind reader image =>
      subst reader
      subst image
      obtain ⟨long, -, current⟩ := only is
      have plain : Plain found e := ⟨is, kind, by rw [current]; exact long⟩
      refine ⟨current, fun offset buf out t' s' within read => ?_⟩
      obtain ⟨-, same⟩ := Prog.wp_finished (readAt_plain (s := ⟨e, none, none⟩) (G := anything) plain
        (by rw [current]; exact within) fun _ => trivial) read
      rw [same]
      exact ByteStore.read_blank fun i low => blank _ (by omega)
  | @dynamic L fm dataEnd off opens kind reader image =>
      have fixed := (only opens.footer).2.1
      simp only [kind] at fixed
      cases fixed

end Fixed

section Dynamic

variable {env : BuildEnv} {size bs : Nat} {plan : DynamicPlan} {d e : ByteStore}

/-- The header of a dynamic image underway is the planned one, or none. -/
theorem Laid.header_underway (planned : Planned env size bs plan) (laid : Laid plan d)
    (partly : ByteStore.Partly 512 d e) {header : DynamicHeader}
    (parses : DynamicHeader.parse (e.read 512 1024) = .ok header) : e.read 512 1024 = plan.header := by
  obtain ⟨-, length, zeros⟩ := planned.lengths
  have first : ∀ x, x / 512 = 1 → e.byte x = d.byte x := by
    refine (partly.cells 1).resolve_left fun blank => ?_
    have lacks : (e.read 512 1024).take 8 ≠ dynHeaderCookie := by
      intro cookie
      have byte : ((e.read 512 1024).take 8)[0]? = some (e.byte 512) := by
        rw [List.getElem?_take_of_lt (by decide)]
        exact ByteStore.getElem?_read (by decide)
      rw [cookie, blank 512 (by decide)] at byte
      exact absurd byte (by decide)
    rw [DynamicHeader.parse_eq (by rw [ByteStore.length_read]; decide), if_pos lacks] at parses
    cases parses
  have reserved (x : Nat) (at_ : x / 512 = 2) : d.byte x = 0 := by
    have byte : plan.header[x - 512]? = some (d.byte x) := by
      rw [← laid.header, ByteStore.getElem?_read (by omega), show 512 + (x - 512) = x by omega]
    have zero : (plan.header.drop 40)[x - 512 - 40]? = some 0 := by
      rw [zeros, List.getElem?_replicate_of_lt (by omega)]
    rw [List.getElem?_drop, show 40 + (x - 512 - 40) = x - 512 by omega, byte] at zero
    exact Option.some.inj zero
  rw [← laid.header]
  refine ByteStore.read_congr fun i low => ?_
  by_cases half : i < 512
  · exact first _ (by omega)
  · rcases partly.cells 2 with blank | same
    · rw [blank _ (by omega), reserved _ (by omega)]
    · exact same _ (by omega)

/-- A table underway that an open accepts has no blocks. -/
theorem Laid.table_underway (laid : Laid plan d) (partly : ByteStore.Partly 512 d e)
    {L : Layout} {fm : Bool} {dataEnd off : Nat} (opens : Opens e L fm dataEnd off)
    (table : L.tableOffset = 1536) (entries : 1536 + L.entries * 4 ≤ plan.footerAt) :
    ∀ v ∈ L.table e, v = batUnallocated := by
  intro v member
  obtain ⟨i, lt, rfl⟩ := List.getElem_of_mem member
  rw [Layout.length_table] at lt
  have slot := Layout.getElem?_table (L := L) (d := e) (i := i) lt
  rw [List.getElem?_eq_getElem (by rwa [Layout.length_table])] at slot
  have is := Option.some.inj slot
  rcases partly.read ((L.tableOffset + i * 4) / 512) (L.tableOffset + i * 4) 4
    (fun j low => by omega) with blank | same
  · -- a blank sector has entries that point into the metadata
    rw [blank] at is
    have zero : (L.table e)[i] = 0 := is.trans (by decide)
    have placed := (opens.placed _ member (by rw [zero]; decide)).1
    have front := L.footer_le_metadataEnd
    have start := L.metadataEnd_le_dataStart
    rw [zero] at placed
    have : hostOff 0 = 0 := rfl
    omega
  · have bytes : d.read (L.tableOffset + i * 4) 4 = List.replicate 4 0xFF := by
      refine (ByteStore.read_eq_iff (by rw [List.length_replicate])).mpr fun j inside => ?_
      rw [List.getElem_replicate]
      exact laid.table _ (by omega) (by omega)
    rw [same, bytes] at is
    exact is.trans (by decide)

/-- A dynamic image underway. -/
theorem Laid.shows (planned : Planned env size bs plan) (laid : Laid plan d)
    (partly : ByteStore.Partly 512 d e) : ShowsZeros plan.virtualSize e := by
  obtain ⟨L₀, bytes, dynamic, virtual, headerAt, parsed, table, entries, block⟩ := planned.layout
  obtain ⟨fits, aligned, small⟩ := planned.table_le
  have sized := laid.size
  have tail : tailSector d = plan.footer := (tailSector_at sized).trans laid.last
  -- whichever footer is found, it is the planned one
  have only {found : FoundFooter} (is : FooterOf e found) : found.footer = L₀.footer := by
    obtain ⟨-, at_⟩ := is.partly partly (by omega)
    obtain ⟨-, found_⟩ := is.parses
    have same : found.bytes = plan.footer := by
      rcases at_ with at_ | ⟨at_, -⟩
      · exact at_.trans tail
      · exact at_.trans laid.mirror
    rw [same, ← bytes, L₀.parses] at found_
    exact (Outcome.ok.inj found_).symm
  intro wr how r s t run
  have reached := Prog.wp_finished (openAs_found how fun L fm dataEnd off opens => by
    have same : L.footer = L₀.footer := only opens.footer
    rw [same, dynamic]
    nofun) run
  cases reached with
  | fixed is kind =>
      rw [only is, dynamic] at kind
      cases kind
  | @dynamic L fm dataEnd off opens kind reader image =>
      subst reader
      subst image
      have footer : L.footer = L₀.footer := only opens.footer
      have place : L.headerOffset = 512 := by
        unfold Layout.headerOffset at headerAt ⊢
        rw [footer]
        exact headerAt
      have parses := opens.header
      rw [place] at parses
      have header : L.header = L₀.header := by
        rw [show dynHeaderSize = 1024 from rfl, laid.header_underway planned partly parses, parsed] at parses
        exact (Outcome.ok.inj parses).symm
      have size : L.virtualSize = plan.virtualSize := by
        rw [← virtual]
        exact congrArg Footer.currentSize footer
      have empty := laid.table_underway partly opens
        ((congrArg DynamicHeader.tableOffset header).trans table)
        (by rw [show L.entries = L₀.entries from congrArg DynamicHeader.maxTableEntries header]; omega)
      refine ⟨size, fun offset buf out t' s' within read => ?_⟩
      have ready : Ready L (L.opened e off) := opens.ready
      obtain ⟨-, length, values⟩ := Prog.wp_finished ((ready.holds (f := .any) (G := anything) rfl
        fun _ _ => trivial).readAt_wp wr fm (E := fun _ _ => True) (by rw [size]; exact within)
          fun _ _ => trivial) read
      refine List.eq_replicate_iff.mpr ⟨length, fun v member => ?_⟩
      obtain ⟨j, lt, is⟩ := List.getElem_of_mem member
      rw [values j v (by rw [List.getElem?_eq_getElem lt, is])]
      have slot := Layout.getElem?_table (L := L) (d := e) (L.block_lt (b := offset + j) (by omega))
      rw [empty _ (List.mem_of_getElem? slot)] at slot
      exact Layout.value_unallocated slot

end Dynamic

section Create

variable {env : BuildEnv} {path : Path} {size cell : Nat} {create : Io Unit (VhdReader Unit)}
  {t : List (Event (Op Unit) Op.Res)} {p : Io Unit (VhdReader Unit)} {x : Image × List ByteStore}
  {e : ByteStore}

/-- The creates of images of `size` bytes. -/
inductive Creates (env : BuildEnv) (path : Path) (size : Nat) : Io Unit (VhdReader Unit) → Prop where
  | fixed : Creates env path size (createFixed env path size)
  | dynamic {bs} (word : bs < 2 ^ 32) : Creates env path size (createDynamic env path size bs)

/-- There is no file yet. -/
abbrev noFile : Image × List ByteStore := (⟨.empty, none, none⟩, [.empty])

theorem Lays.leaves {d : ByteStore}
    (lays : Code.wlp Faults.any.handler (Lays d) create (fun _ _ => True) ⟨.empty, none, none⟩)
    (run : Prog.Runs Faults.any.cached create noFile t p x) (survives : e.Survives (sectorSize * cell) x.2) :
    ByteStore.Partly 512 d e :=
  Lays.survives (x := noFile) lays run .empty
    (fun e member => by rw [List.mem_singleton.mp member]; exact .empty) survives

/-- Only zeros of the rounded size are shown. -/
theorem Creates.shows (word : size < 2 ^ 64) (creates : Creates env path size create)
    (run : Prog.Runs Faults.any.cached create noFile t p x) (survives : e.Survives (sectorSize * cell) x.2) :
    ∃ v, sizeWithExactGeometry size = .ok v ∧ ShowsZeros v e := by
  obtain ⟨v, rounded, -⟩ := sizeWithExactGeometry_ok size
  have nothing (lays : Code.wlp Faults.any.handler (Lays .empty) create (fun _ _ => True)
      ⟨.empty, none, none⟩) : ∃ v, sizeWithExactGeometry size = .ok v ∧ ShowsZeros v e :=
    ⟨v, rounded, shows_nothing (Lays.leaves lays run survives)⟩
  cases creates with
  | fixed =>
      cases fixedPlan env path word with
      | refused why is =>
          refine nothing ?_
          rw [is]
          exact Code.wlp_fail
      | late why at_ is =>
          refine nothing ?_
          rw [is]
          exact Code.wlp_bind (createTruncate_lays fun _ => Code.wlp_fail)
      | made v bytes made =>
          have room := made.room
          obtain ⟨length, -⟩ := parse_buildFooter (t := .fixed) made.built (by omega) (by decide) rfl
            (by decide)
          let d := (ByteStore.empty.resize (v + 512) room).write v bytes
          have last : d.read v 512 = bytes := by
            rw [← length]
            exact ByteStore.read_write_same _ v bytes (show v + bytes.length ≤ v + 512 by omega)
          have zeros (b : Nat) (below : b < v) : d.byte b = 0 :=
            (ByteStore.byte_write_outside (Or.inl below)).trans
              (ByteStore.byte_resize (show 0 ≤ v + 512 from Nat.zero_le _))
          refine ⟨v, made.rounded, made.shows (d := d) rfl last zeros ?_⟩
          exact Lays.leaves (createFixed_lays made rfl last) run survives
  | @dynamic bs word =>
      have idle (out : Outcome Error (VhdReader Unit)) (never : ∀ r, out ≠ .ok r)
          (is : createDynamic env path size bs = .ret out) :
          ∃ v, sizeWithExactGeometry size = .ok v ∧ ShowsZeros v e := by
        refine nothing ?_
        rw [is]
        exact fun r same => absurd same (never r)
      cases accepted : planDynamic env size bs with
      | ok plan =>
          have planned := planDynamic_ok word accepted
          have laid := laid_write planned (d := ByteStore.empty.resize (plan.footerAt + 512)
            (by have := planned.table_le; omega)) rfl
          refine ⟨plan.virtualSize, planned.rounded, laid.shows planned ?_⟩
          exact Lays.leaves (createDynamic_lays planned accepted laid) run survives
      | err why => exact idle (.err why) nofun (by unfold createDynamic; rw [accepted]; rfl)
      | panic => exact idle .panic nofun (by unfold createDynamic; rw [accepted]; rfl)
      | outOfFuel => exact idle .outOfFuel nofun (by unfold createDynamic; rw [accepted]; rfl)

theorem Creates.opens (word : size < 2 ^ 64) (creates : Creates env path size create) {r : VhdReader Unit}
    (run : Prog.Runs Faults.any.cached create noFile t (.ret (.ok r)) x)
    (survives : e.Survives (sectorSize * cell) x.2) (wr : Bool) (how : Option Path) :
    ∃ r' s, (openAs () wr how).run idealStep ⟨e, none, none⟩ = (.ok r', s) := by
  have bare := run.part (R := Faults.any.handler) Prod.fst fun _ _ _ _ stepped =>
    Faults.cached_only stepped
  obtain ⟨s, H⟩ := x
  cases creates with
  | fixed =>
      obtain ⟨-, settled⟩ := settled_of_clean (createFixed_clean env path size []) run
      obtain rfl := survives.settled settled
      obtain ⟨found, -, made⟩ := createFixed_plain word bare
      exact ⟨_, _, openAs_plain_ideal (s := ⟨s.disk, none, none⟩) made wr how⟩
  | dynamic small =>
      obtain ⟨-, settled⟩ := createDynamic_settled run
      obtain rfl := survives.settled settled
      obtain ⟨L, off, created, -⟩ := createDynamic_created small bare
      exact ⟨_, _, openAs_ideal (s := ⟨s.disk, none, none⟩) created.opens created.dynamic⟩

/-- Creating an image is all or nothing. Wherever a create is cut, whatever failed
    before and whatever the power loss leaves of the file, opening it fails or gives
    the whole disk of zeros, and it does open once the create has returned. -/
theorem cut_create_is_all_or_nothing (word : size < 2 ^ 64) (creates : Creates env path size create)
    (run : Prog.Runs Faults.any.cached create noFile t p x)
    (survives : e.Survives (sectorSize * cell) x.2) :
    (∃ v, sizeWithExactGeometry size = .ok v ∧ ShowsZeros v e) ∧
      ∀ r, p = .ret (.ok r) → ∀ wr how,
        ∃ r' s, (openAs () wr how).run idealStep ⟨e, none, none⟩ = (.ok r', s) := by
  refine ⟨creates.shows word run survives, ?_⟩
  rintro r rfl wr how
  exact creates.opens word run survives wr how

/-- The power goes when the small disk was written and not yet flushed. Two different
    files can be left: neither holds anything but zeros, and one opens. -/
theorem small_create_is_all_or_nothing : ∃ (e e' : ByteStore) (p : Io Unit (VhdReader Unit))
    (x : Image × List ByteStore) (r : VhdReader Unit) (s : Image) (t t' : List (Event (Op Unit) Op.Res)),
    Prog.Runs Faults.any.cached (createDynamic smallEnv [] 4096 512) noFile t p x ∧ p.value? = none ∧
    e.Survives 4096 x.2 ∧ e'.Survives 4096 x.2 ∧ e ≠ e' ∧ ShowsZeros 34816 e' ∧
    Prog.Runs Faults.any.handler (openAs () true none) ⟨e, none, none⟩ t' (.ret (.ok r)) s ∧
      r.virtualSize = 34816 ∧ ∀ out t' s', Prog.Runs Faults.any.handler
        (r.readAt 300 (List.replicate 700 7)) s t' (.ret (.ok out)) s' → out = List.replicate 700 0 := by
  obtain ⟨t, r, s, create, size⟩ := small_created
  obtain ⟨L, off, created, -⟩ := createDynamic_created (by decide) create
  have changed : s.disk ≠ .empty := by
    intro same
    have long := created.size
    rw [same] at long
    exact absurd long (Nat.ne_of_lt (Nat.succ_pos _))
  obtain ⟨t₁, p, x, t₂, e', run, rest, same, here, there, other⟩ :=
    (create.mono fun _ _ _ _ => ideal_allowed .any).unsettled (H := [.empty])
      (fun _ _ _ _ stepped flushed => flushed_still stepped flushed) changed (List.mem_singleton.mpr rfl)
  have unfinished : p.value? = none := by
    cases p with
    | call op next => rfl
    | ret out =>
        cases rest
        exact absurd ((createDynamic_settled run).2 e' there) other
  have survives : s.disk.Survives (sectorSize * 8) x.2 := .self (same ▸ here)
  have survives' : e'.Survives (sectorSize * 8) x.2 := .self there
  obtain ⟨⟨v, rounded, shows⟩, -⟩ := cut_create_is_all_or_nothing (by decide) (.dynamic (by decide)) run
    survives
  obtain ⟨⟨v', rounded', shows'⟩, -⟩ := cut_create_is_all_or_nothing (by decide) (.dynamic (by decide))
    run survives'
  rw [small_size] at rounded rounded'
  obtain rfl := Outcome.ok.inj rounded
  obtain rfl := Outcome.ok.inj rounded'
  obtain ⟨t', opened⟩ := Prog.run_runs idealStep (idealStep_allowed .any)
    (openAs (δ := Unit) () true none) ⟨s.disk, none, none⟩
  rw [openAs_ideal (s := ⟨s.disk, none, none⟩) created.opens created.dynamic] at opened
  obtain ⟨virtual, reads⟩ := shows _ _ _ _ _ opened
  refine ⟨s.disk, e', p, x, _, _, t₁, t', run, unfinished, survives, survives', Ne.symm other, shows',
    opened, virtual, fun out t'' s'' read => ?_⟩
  have zeros := reads _ _ _ _ _ (by rw [List.length_replicate]; decide) read
  rwa [List.length_replicate] at zeros

end Create

end ImgVhd
