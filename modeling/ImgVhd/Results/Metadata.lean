import ImgVhd.Session.Laid

/-! # Allocation and the metadata

Where the tail of an opened image is past its metadata, and the table shares
nothing with the mirror or the header, no write but that of a table entry lands
on metadata, and the device opens again as what the reader holds.
-/

namespace ImgVhd

open Foundation

/-- The device does not end inside a block with a sector that begins like a
    footer. -/
def EndsPlainly (s : Image) : Prop :=
  ∀ off, s.nextAllocOff = some off → off + 512 ≤ s.disk.size ∨ tailHasCookie s.disk = false

/-! ## The end of the file -/

/-- The file ends in the footer behind the tail, or as it did when it was opened
    by its mirror. -/
def AsFound (L : Layout) (fm : Bool) (d₀ d : ByteStore) (off : Nat) : Prop :=
  AtFooter L d off ∨ (fm = true ∧ d.size = d₀.size ∧ d.size ≤ off + 512 ∧
    (off + 512 ≤ d.size → tailSector d = tailSector d₀))

theorem trail_asFound (L : Layout) (fm : Bool) (d₀ : ByteStore) : Trail L (AsFound L fm d₀) where
  short d off ends := by
    rcases ends with footer | ⟨-, -, short, -⟩
    · exact (trail_atFooter L).short d off footer
    · exact short
  stable d d' off size same ends := by
    rcases ends with footer | ⟨mirror, found, short, tail⟩
    · exact Or.inl ((trail_atFooter L).stable d d' off size same footer)
    · refine Or.inr ⟨mirror, size.trans found, by omega, fun room => ?_⟩
      rw [← tail (by omega)]
      unfold tailSector
      rw [size]
      refine ByteStore.read_congr fun i _ => same _ ?_
      unfold footerSize
      omega
  moved d off aligned size last := Or.inl ⟨size, last⟩

section Bursts

variable {L : Layout} {fm : Bool} {d₀ : ByteStore} {s : Image} {bat : List Nat} {off : Nat}

/-- What holds of an opened image between two of its writes. -/
structure Undisturbed (L : Layout) (fm : Bool) (d₀ : ByteStore) (s : Image) (bat : List Nat)
    (off : Nat) : Prop where
  sound : Sound L s bat off
  aligned : off % 512 = 0
  ends : AsFound L fm d₀ s.disk off
  mirror : fm = true → s.disk.read 0 512 = L.footerBytes

theorem Opens.undisturbed {d : ByteStore} {dataEnd : Nat} (opens : Opens d L fm dataEnd off)
    (start : L.dataStart ≤ off) : Undisturbed L fm d (L.opened d off) (L.table d) off := by
  have whole := L.blockTotal_mod
  have aligned := opens.aligned
  have long := opens.size_ge
  have least : d.size - 512 ≤ off := opens.tail.least
  refine ⟨opens.sound start, ?_, ?_, fun mirror => ?_⟩
  · rcases opens.tail.reached with here | ⟨-, e, -, -, here⟩
    · have here : off = d.size - 512 := here
      omega
    · have sector := hostOff_mod e
      omega
  · cases fm with
    | true =>
        refine Or.inr ⟨rfl, rfl, ?_, fun _ => rfl⟩
        show d.size ≤ off + 512
        omega
    | false =>
        have tail : tailSector d = L.footerBytes := opens.footer.at_tail rfl
        have here : off = d.size - 512 := by
          have reached := opens.tail.reached
          simp only [Bool.false_eq_true, false_and, or_false] at reached
          exact reached
        refine Or.inl ⟨?_, ?_⟩
        · show d.size = off + 512
          omega
        · rw [← tail, here]
          rfl
  · subst mirror
    exact (opens.footer.damaged rfl).2

theorem Undisturbed.opens {dataEnd₀ off₀ : Nat} (found : Opens d₀ L fm dataEnd₀ off₀)
    (quiet : Undisturbed L fm d₀ s bat off) (plain : EndsPlainly s) :
    ∃ fm' dataEnd off', Opens s.disk L fm' dataEnd off' := by
  have aligned := quiet.aligned
  rcases quiet.ends with ⟨size, last⟩ | ⟨rfl, size, short, tail⟩
  · have tail : tailSector s.disk = L.footerBytes := by
      unfold tailSector
      rw [size, show off + 512 - footerSize = off from Nat.add_sub_cancel _ _]
      exact last
    exact ⟨false, _, _, quiet.sound.opens_tail (by omega) (Nat.le_of_eq size.symm) tail⟩
  · have aligned₀ := found.aligned
    have long := found.size_ge
    obtain ⟨⟨err, damaged⟩, -⟩ := found.footer.damaged rfl
    have ends := plain off quiet.sound.tail
    have damaged' : ∃ err, Footer.parse (tailSector s.disk) = .err err := by
      rcases ends with room | absent
      · exact ⟨err, by rw [tail room]; exact damaged⟩
      · exact ⟨_, parse_without_cookie absent⟩
    obtain ⟨err', damaged'⟩ := damaged'
    exact ⟨true, quiet.sound.opens_mirror (by omega) (by omega) damaged' (quiet.mirror rfl) ends⟩

theorem Opens.lasts {dataEnd₀ off₀ : Nat} (_ : Opens d₀ L fm dataEnd₀ off₀) :
    Lasts L d₀ off₀ (L.opened d₀ off₀, []) := by
  refine ⟨fun i bat cached free => ?_, Or.inl ⟨rfl, rfl⟩⟩
  cases cached
  exact free

theorem Burst.undisturbed {dataEnd₀ off₀ : Nat} {log : List Attempt} {trace}
    (opens : Opens d₀ L fm dataEnd₀ off₀) (start : L.dataStart ≤ off₀)
    (laid : WellLaid (L.core () true fm) (L.opened d₀ off₀)) (dynamic : L.footer.diskType = .dynamic)
    (burst : Burst .none (.base (L.core () true fm)) (L.opened d₀ off₀) log trace s)
    (done : ∀ a ∈ log, a.done = true) :
    (∃ bat off, Undisturbed L fm d₀ s bat off) ∧ Lasts L d₀ off₀ (s, []) := by
  induction burst with
  | start => exact ⟨⟨_, _, opens.undisturbed start⟩, opens.lasts⟩
  | @write log trace s' offset buf t out s'' before run ih =>
      obtain ⟨⟨bat, off, quiet⟩, lasts⟩ := ih fun a member => done a (List.mem_cons_of_mem _ member)
      obtain ⟨bat', off', intact, rest, lasts'⟩ := (write_spares (trail_asFound L fm d₀) dynamic laid
        quiet.sound ⟨quiet.aligned, Or.inl quiet.ends⟩ lasts run).1
        (succeeded_iff.mp (done _ List.mem_cons_self))
      refine ⟨⟨bat', off', intact.sound, intact.trailed.aligned, rest quiet.ends, fun mirror => ?_⟩,
        lasts'⟩
      rw [← quiet.mirror mirror]
      exact ByteStore.read_congr fun i lt => intact.evolves.mirror _ (by omega)

theorem Opens.full_of {dataEnd₀ off₀ : Nat} (opens : Opens d₀ L fm dataEnd₀ off₀)
    (laid : WellLaid (L.core () true fm) (L.opened d₀ off₀)) (start : ¬ L.dataStart ≤ off₀) :
    (∀ e ∈ L.table d₀, ¬ Live e) ∧ ∀ i, ¬ (L.core () true fm).Lacks (L.opened d₀ off₀) i := by
  constructor
  · intro e member live
    have place := opens.placed e member live
    have past := opens.past member live
    omega
  · intro i lacks
    have inside := (lacks_iff.mp lacks).1
    have covers := L.virtualSize_le
    have some_ : 0 < L.entries := by
      rcases Nat.eq_zero_or_pos L.entries with none_ | some_
      · rw [none_, Nat.zero_mul] at covers
        omega
      · exact some_
    exact start (opens.start_of some_ (laid_iff.mp laid i lacks).2)

theorem Burst.idle {dataEnd₀ off₀ : Nat} {log : List Attempt} {trace}
    (opens : Opens d₀ L fm dataEnd₀ off₀) (dynamic : L.footer.diskType = .dynamic)
    (empty : ∀ e ∈ L.table d₀, ¬ Live e)
    (full : ∀ i, ¬ (L.core () true fm).Lacks (L.opened d₀ off₀) i)
    (burst : Burst .none (.base (L.core () true fm)) (L.opened d₀ off₀) log trace s) :
    s = L.opened d₀ off₀ := by
  induction burst with
  | start => rfl
  | write before run ih =>
      subst ih
      exact (Idle.call opens dynamic empty full run).1

theorem agrees_of_opens {fm' : Bool} {dataEnd off' : Nat} (how : Option Path) (ready : Ready L s)
    (cached : s.bat = some bat)
    (values : ∀ b < L.virtualSize, L.value s.disk (L.table s.disk) b = L.value s.disk bat b)
    (dynamic : L.footer.diskType = .dynamic) (opens : Opens s.disk L fm' dataEnd off') :
    ∃ r' s', (reopen () how).run idealStep s = (.ok r', s') ∧ r'.virtualSize = L.virtualSize ∧
      ∀ offset buf, offset + buf.length ≤ L.virtualSize →
        ∃ out, (r'.readAt offset buf).run idealStep s' = (.ok out, s') ∧
          ((VhdReader.base (L.core () true fm)).readAt offset buf).run idealStep s = (.ok out, s) := by
  refine ⟨_, _, reopen_ideal how opens dynamic, rfl, fun offset buf within => ?_⟩
  refine ⟨_, read_ideal opens.ready rfl within, ?_⟩
  rw [read_ideal ready cached within]
  refine congrArg (fun out => (Outcome.ok out, s)) (List.map_congr_left fun i member => ?_)
  have lt := List.mem_range.mp member
  exact (values _ (by omega)).symm

/-- Every write to an image spares its metadata exactly when the image is well laid,
    and the device then opens again to the same contents. -/
theorem allocation_spares_metadata {s₀ s₁ : Image} {t : List (Event (Op Unit) Op.Res)}
    {r : VhdReader Unit}
    (opened : Prog.Runs Faults.none.handler (VhdReader.openRwOnDevice ()) s₀ t (.ret (.ok r)) s₁)
    (dynamic : r.diskType = .dynamic) :
    ((∀ offset buf x op, Issued r s₁ offset buf x op → Spares r.core offset buf x op) ↔
      WellLaid r.core s₁) ∧
    (WellLaid r.core s₁ → ∀ log trace s, Burst .none r s₁ log trace s → (∀ a ∈ log, a.done = true) →
      EndsPlainly s → ∃ r' s', (VhdReader.openRwOnDevice ()).run idealStep s = (.ok r', s') ∧
        r'.virtualSize = r.virtualSize ∧
        ∀ offset buf, offset + buf.length ≤ r.virtualSize →
          ∃ out, (r'.readAt offset buf).run idealStep s' = (.ok out, s') ∧
            (r.readAt offset buf).run idealStep s = (.ok out, s)) := by
  obtain ⟨L, fm, dataEnd, off₀, opens, dynamic, rfl, rfl⟩ :=
    (openRwOnDevice_opened opened).layout dynamic
  refine ⟨⟨fun spared => laid_iff.mpr fun i lacks => ?_, fun laid => ?_⟩,
    fun laid log trace s burst done plain => ?_⟩
  · by_contra bad
    obtain ⟨inside, free, nameable⟩ := lacks_iff.mp lacks
    have block : i * L.blockSize / L.blockSize = i := Nat.mul_div_cancel _ L.blockSize_pos
    obtain ⟨x, op, issued, unspared⟩ := opens.unspared (v := 0) dynamic inside nameable
      (by rw [block]; exact free) fun clear past => bad ⟨block ▸ clear, past⟩
    exact unspared (spared _ _ x op issued)
  · rintro offset buf x op ⟨log, trace, s, t, next, t', s', burst, done, run, -⟩
    by_cases start : L.dataStart ≤ off₀
    · obtain ⟨⟨bat, off, quiet⟩, lasts⟩ := burst.undisturbed opens start laid dynamic done
      exact (write_spares (trail_asFound L fm s₀.disk) dynamic laid quiet.sound
        ⟨quiet.aligned, Or.inl quiet.ends⟩ lasts run).2 op next rfl
    · obtain ⟨empty, full⟩ := opens.full_of laid start
      obtain rfl := burst.idle opens dynamic empty full
      exact (Idle.call opens dynamic empty full run).2 op next rfl
  · by_cases start : L.dataStart ≤ off₀
    · obtain ⟨⟨bat, off, quiet⟩, -⟩ := burst.undisturbed opens start laid dynamic done
      obtain ⟨fm', dataEnd', off', again⟩ := quiet.opens opens plain
      exact agrees_of_opens none quiet.sound.ready quiet.sound.cached quiet.sound.value_table
        dynamic again
    · obtain ⟨empty, full⟩ := opens.full_of laid start
      obtain rfl := burst.idle opens dynamic empty full
      exact agrees_of_opens none opens.ready rfl (fun b inside => rfl) dynamic opens

theorem Created.wellLaid (created : Created L s off) : WellLaid (L.core () true fm) s := by
  have size := created.size
  have start := created.start
  have top := L.metadataEnd_le_dataStart
  have footer := L.footer_le_metadataEnd
  have header := L.headerEnd_le_metadataEnd
  have table := L.tableEnd_le_metadataEnd
  rw [created.image, laid_iff]
  intro i lacks
  obtain ⟨index, -⟩ := List.getElem?_eq_some_iff.mp (lacks_iff.mp lacks).2.1
  rw [L.length_table] at index
  refine ⟨created.clear.entry index, Or.inr fun y inside => ?_⟩
  rw [inTable_iff, inHeader_iff] at inside
  unfold InMirror at inside
  omega

/-- A write across two blocks of the small disk, closed and opened before it, sends
    the entry of the second where it belongs, and is read back by its reader and by
    the next one. -/
theorem small_disk_spares_metadata : ∃ (r r' : VhdReader Unit) (s₀ s s' x : Image)
    (trace : List (Event (Op Unit) Op.Res)) (buf bytes : Bytes) (v at_ : Nat), buf = List.replicate 700 7 ∧
    Burst .none r s₀ [⟨300, buf, true⟩] trace s ∧
    Issued r s₀ 300 buf x (.on () (.writeAt (.batEntry 1 v) at_ bytes)) ∧
    Spares r.core 300 buf x (.on () (.writeAt (.batEntry 1 v) at_ bytes)) ∧
    (VhdReader.openRwOnDevice ()).run idealStep s = (.ok r', s') ∧
    (r'.readAt 300 buf).run idealStep s' = (.ok buf, s') ∧
    (r.readAt 300 buf).run idealStep s = (.ok buf, s) := by
  obtain ⟨buf, sevens, length⟩ := small_buffer
  obtain ⟨-, L, s₀, off₀, t, s, bat, off, -, created, write, filled⟩ := small_filled length
  have size := filled.size
  have block := filled.block
  have order := filled.order
  obtain ⟨t', again⟩ := reopen_runs .none none created.opens created.dynamic
  rw [← created.image] at again
  obtain ⟨spared, reopens⟩ := allocation_spares_metadata again created.dynamic
  have laid : WellLaid (VhdReader.base (L.core () true false)).core s₀ := created.wellLaid
  -- the second block's entry was not there, so it was sent
  obtain ⟨e, entry, live, -⟩ := filled.packed.placed 1 1 rfl
  have handed := created.opens.handed
  rw [← created.image] at handed
  obtain ⟨bat', off', handed⟩ := handed.call created.dynamic write
  obtain rfl := Option.some.inj (handed.cached.symm.trans filled.packed.cached)
  have sent := (handed.entries 1 e entry).resolve_left fun old =>
    live (created.empty e (List.mem_of_getElem? old))
  obtain ⟨-, before, after, is⟩ := sent
  have run := write
  rw [show t = _ from is] at run
  obtain ⟨next, x, first, second⟩ := run.issued
  have issued : Issued (.base (L.core () true false)) s₀ 300 buf x _ :=
    ⟨[], [], s₀, before, next, _, s, .start, fun a member => (by cases member), first, second⟩
  have burst : Burst .none (.base (L.core () true false)) s₀ [⟨300, buf, true⟩] _ s :=
    .write .start write
  have plain : EndsPlainly s := by
    intro off' tail
    rw [order.sound.tail] at tail
    rw [← Option.some.inj tail]
    exact Or.inl (Nat.le_of_eq order.rest.1.symm)
  obtain ⟨r', s', reopened, -, reads⟩ := reopens laid _ _ s burst (fun a member => by
    cases List.mem_singleton.mp member
    rfl) plain
  have within : 300 + buf.length ≤ L.virtualSize := by omega
  obtain ⟨out, fresh, live'⟩ := reads 300 buf within
  have held : ((VhdReader.base (L.core () true false)).readAt 300 buf).run idealStep s = (.ok buf, s) :=
    order.reads_last within
  have same : out = buf := Outcome.ok.inj (congrArg Prod.fst (live'.symm.trans held))
  rw [same] at fresh
  exact ⟨_, r', s₀, s, s', x, _, buf, _, e, _, sevens, burst, issued,
    spared.mpr laid 300 buf x _ issued, reopened, fresh, held⟩

end Bursts

/-! ## A new image without its last sector

A mirror, a header and a table of one entry, with the sector behind the table cut
off: the recovered tail is the table's own sector.
-/

section Clipped

def footerHead : Bytes :=
  [99, 111, 110, 101, 99, 116, 105, 120, 0, 0, 0, 2, 0, 1, 0, 0, 0, 0, 0, 0, 0, 0, 2, 0, 0, 0, 0, 0,
    97, 109, 32, 32, 0, 0, 0, 1, 77, 97, 99, 32, 0, 0, 0, 0, 0, 0, 2, 0, 0, 0, 0, 0, 0, 0, 2, 0,
    0, 0, 4, 17, 0, 0, 0, 3, 255, 255, 249, 129, 0, 0, 0, 0, 0, 0, 64, 0, 128]

def headerHead : Bytes :=
  [99, 120, 115, 112, 97, 114, 115, 101, 255, 255, 255, 255, 255, 255, 255, 255, 0, 0, 0, 0, 0, 0,
    6, 0, 0, 1, 0, 0, 0, 0, 0, 1, 0, 0, 2, 0, 255, 255, 244, 148]

def clipped : ByteStore where
  size := 2048
  byte i :=
    if i < 77 then footerHead.getD i 0
    else if i < 512 then 0
    else if i < 552 then headerHead.getD (i - 512) 0
    else if i < 1536 then 0
    else if i < 1540 then 255
    else 0
  size_lt := by decide
  beyond i h := by
    rw [if_neg (by omega), if_neg (by omega), if_neg (by omega), if_neg (by omega),
      if_neg (by omega)]

def clippedFooter : Footer where
  features := 2
  fileFormatVersion := 0x00010000
  dataOffset := 512
  originalSize := 512
  currentSize := 512
  diskType := .dynamic
  uniqueId := [0, 0, 0, 0, 0, 0, 64, 0, 128, 0, 0, 0, 0, 0, 0, 0]

def clippedHeader : DynamicHeader where
  dataOffset := 2 ^ 64 - 1
  tableOffset := 1536
  headerVersion := 0x00010000
  maxTableEntries := 1
  blockSize := 512
  parentUniqueId := List.replicate 16 0
  parentTimestamp := 0
  parentName := []
  parentLocators := List.replicate 8 ⟨[0, 0, 0, 0], 0, 0, 0, 0⟩

theorem clipped_footer : Footer.parse (clipped.read 0 512) = .ok clippedFooter := by
  decide +kernel

theorem clipped_header : DynamicHeader.parse (clipped.read 512 1024) = .ok clippedHeader := by
  have fields : DynamicHeader.ofBytes (clipped.read 512 1024) = clippedHeader := by decide +kernel
  rw [DynamicHeader.parse_eq (by rw [ByteStore.length_read]; decide), fields, if_neg, if_neg,
    if_neg, if_neg] <;> decide +kernel

def clippedLayout : Layout where
  footerBytes := clipped.read 0 512
  footer := clippedFooter
  header := clippedHeader
  whole := ByteStore.length_read
  parses := clipped_footer
  sparse := by decide
  parsed := DynamicHeader.parsed clipped_header
  covers := by decide
  tableFits := by decide
  headerFits := by decide

theorem clipped_opens : Opens clipped clippedLayout true 2048 1536 := by
  have table : clippedLayout.table clipped = [batUnallocated] := by decide +kernel
  have plain : tailHasCookie clipped = false := by decide +kernel
  have empty : ∀ e ∈ clippedLayout.table clipped, ¬ Live e := by
    rw [table]
    decide
  refine ⟨.mirror (parse_without_cookie plain) (by decide) clipped_footer (by decide), by decide,
    clipped_header, by decide, by decide, ?_, fun e member live => absurd live (empty e member),
    fun i j a b _ at_ _ live _ => absurd live (empty a (List.mem_of_getElem? at_)),
    ⟨by decide, fun _ e member live => absurd live (empty e member), Or.inl rfl⟩⟩
  rw [plain]
  rfl

/-- The operations that zero the clipped image's table. -/
def zeroesTable : Op Unit → Bool
  | .on _ (.writeAt .zero off bytes) => off == 1536 && bytes.length == 1024
  | _ => false

/-- The first block of the clipped image goes over its table. -/
theorem clipped_image_loses_its_table :
    ∃ s₁ t r x op, Prog.Runs Faults.none.handler (VhdReader.openRwOnDevice ())
        ⟨clipped, none, none⟩ t (.ret (.ok r)) s₁ ∧ r.diskType = .dynamic ∧
      Issued r s₁ 0 [1] x op ∧ zeroesTable op = true ∧ ¬ Spares r.core 0 [1] x op := by
  obtain ⟨t, opened⟩ := reopen_runs .none none (s := ⟨clipped, none, none⟩) clipped_opens rfl
  have wrote := Prog.run_trace idealStep (idealStep_allowed .none)
    ((VhdReader.base (clippedLayout.core () true true)).writeAt 0 [1])
    (clippedLayout.opened clipped 1536)
  have returned : (((VhdReader.base (clippedLayout.core () true true)).writeAt 0 [1]).run idealStep
      (clippedLayout.opened clipped 1536)).1 = .ok () :=
    clipped_opens.takes rfl (by decide) (by decide)
  have zeroed : (((VhdReader.base (clippedLayout.core () true true)).writeAt 0 [1]).trace idealStep
      (clippedLayout.opened clipped 1536)).any (fun e => zeroesTable e.op) = true := by decide +kernel
  rw [returned] at wrote
  obtain ⟨e, member, hits⟩ := List.any_eq_true.mp zeroed
  obtain ⟨before, after, is⟩ := List.append_of_mem member
  rw [is] at wrote
  obtain ⟨next, x, run, rest⟩ := wrote.issued
  refine ⟨_, _, _, x, e.op, opened, rfl,
    ⟨[], [], _, before, next, _, _, .start, fun a member => (by cases member), run, rest⟩, hits, ?_⟩
  unfold zeroesTable at hits
  split at hits
  · rename_i off bytes is
    simp only [Bool.and_eq_true, beq_iff_eq] at hits
    rw [is]
    intro spares
    exact (spares 1536 (by omega) (by omega)).2.2 (inTable_iff.mpr (by decide))
  · cases hits

end Clipped

end ImgVhd
